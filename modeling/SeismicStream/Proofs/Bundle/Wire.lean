import SeismicStream.Bundle.Reader
import SeismicStream.Proofs.Msgpack.Reader
import SeismicStream.Proofs.Word
import SeismicStream.Writable

namespace SeismicStream
open Msgpack

theorem Tile.read_write {tile : Tile} (h : tile.values.length < UInt32.size) (rest : Bytes) :
    Bundle.readTile (tile.write ++ rest) = some (tile, rest) := by
  simp only [Bundle.readTile, write, List.append_assoc]
  rw [Reader.tuple_write (by decide)]
  simp only [Reader.word_write, Reader.blob_write h, Option.bind_eq_bind, Option.bind_some,
    Option.pure_def]

theorem isValue_tile {tile : Tile} (h : tile.values.length < UInt32.size) : IsValue tile.write := by
  have hs := ((((isValue_word tile.iterations).append (isValue_word tile.chunkSize)).append
    (isValue_word tile.initialSkip)).append (isValue_word tile.superstride)).append
    ((isValue_word tile.substride).append (isValue_bin h))
  have ha : IsArrayHead 6 (Writer.arrayHead 6) := isArrayHead_arrayHead (by decide)
  have hv := ha.isValue hs
  simpa only [Tile.write, List.append_assoc] using hv

namespace Bundle

theorem readSlice_write {output : String} {tiles : List Tile} (ho : Text.Writable output)
    (hl : tiles.length < UInt32.size) (ht : ∀ tile ∈ tiles, tile.values.length < UInt32.size)
    (rest : Bytes) : readSlice (writeSlice output tiles ++ rest) = some (.slice output tiles, rest) := by
  have hr (more : Bytes) : Reader.list (fun _ => none) readTile
      (Writer.list Tile.write tiles ++ more) = some (tiles, more) :=
    Reader.list_write hl (fun tile hm => Tile.read_write (ht tile hm)) more
  simp only [readSlice, writeSlice, List.append_assoc]
  rw [Reader.tuple_write (by decide)]
  simp only [Reader.text_write ho, hr, Option.bind_eq_bind, Option.bind_some, Option.pure_def]

theorem readCurtain_write {w : WireCurtain} (h : w.Writable) (rest : Bytes) :
    readCurtain (w.write ++ rest) = some (w, rest) := by
  have hw {items : List Word} (hl : items.length < UInt32.size) (more : Bytes) :
      Reader.words (Writer.list Writer.word items ++ more) = some (items, more) :=
    Reader.list_write hl (fun n _ => Reader.word_write n) more
  simp only [readCurtain, WireCurtain.write, List.append_assoc]
  rw [Reader.tuple_write (by decide)]
  simp only [Reader.text_write h.output, Reader.word_write, hw h.major, hw h.minor,
    Reader.blob_write h.values, Option.bind_eq_bind, Option.bind_some, Option.pure_def]

/-- Ends are paired up again, up to the first span that stops before it begins. -/
theorem pairUp_flatMap (spans front : List Span) :
    pairUp front (spans.flatMap fun s => [s.first, s.stop]) =
      match spans.find? fun s => s.stop < s.first with
      | some s => .error (.inverted s)
      | none => .ok (front.reverse ++ spans) := by
  induction spans generalizing front with
  | nil => simp [pairUp]
  | cons s rest ih =>
    rw [List.flatMap_cons, List.cons_append, List.cons_append, List.nil_append, pairUp]
    by_cases hs : s.stop < s.first
    · simp [hs]
    · simp [hs, ih]

theorem length_pairs {α : Type} (f g : α → Word) (items : List α) :
    (items.flatMap fun x => [f x, g x]).length = 2 * items.length := by
  induction items with
  | nil => rfl
  | cons x rest ih =>
    simp only [List.flatMap_cons, List.length_append, List.length_cons, List.length_nil, ih]
    omega

theorem spans_flatMap {axis : CurtainAxis} {spans : List Span} (h : ∀ s ∈ spans, s.first ≤ s.stop)
    (hl : 2 * spans.length < UInt64.size) :
    Bundle.spans axis (UInt64.ofNat spans.length) (spans.flatMap fun s => [s.first, s.stop]) =
      .ok spans := by
  have hn : (UInt64.ofNat spans.length).toNat = spans.length :=
    UInt64.toNat_ofNat_of_lt' (by omega)
  have hm : (Word.mulCapped (UInt64.ofNat spans.length) 2).toNat = 2 * spans.length := by
    rw [Word.toNat_mulCapped, hn]
    · exact Nat.mul_comm _ _
    · rw [hn]
      exact Nat.mul_comm _ _ ▸ hl
  have hf : spans.find? (fun s => s.stop < s.first) = none := by
    simpa [List.find?_eq_none] using h
  rw [Bundle.spans, if_pos ((length_pairs _ _ spans).trans hm.symm), pairUp_flatMap, hf]
  rfl

/-- The runs of a curtain that was written are found again. -/
theorem ofWireCurtain_wireCurtain {output : String} {runs : List SampledRun}
    (h : ∀ run ∈ runs, run.traces.first ≤ run.traces.stop ∧ run.depths.first ≤ run.depths.stop)
    (hl : 2 * runs.length < UInt64.size) :
    ofWireCurtain (SampledBundle.wireCurtain output runs) =
      .ok (.curtain output (runs.map SampledRun.toRun)
        (runs.flatMap fun run => Sample.payload run.samples)) := by
  have htraces : ∀ s ∈ runs.map (fun run => run.traces), s.first ≤ s.stop := by
    intro s hs
    obtain ⟨run, hr, rfl⟩ := List.mem_map.mp hs
    exact (h run hr).1
  have hdepths : ∀ s ∈ runs.map (fun run => run.depths), s.first ≤ s.stop := by
    intro s hs
    obtain ⟨run, hr, rfl⟩ := List.mem_map.mp hs
    exact (h run hr).2
  have hmajor := @spans_flatMap .major _ htraces (by rwa [List.length_map])
  have hminor := @spans_flatMap .minor _ hdepths (by rwa [List.length_map])
  rw [List.length_map, List.flatMap_map] at hmajor hminor
  simp only [ofWireCurtain, SampledBundle.wireCurtain, hmajor, hminor]
  rw [List.zipWith_map, List.zipWith_self]

end Bundle

namespace SampledBundle

/-- What a bundle is read back as. -/
def toBundle : SampledBundle → Bundle
  | .slice output tiles => .slice output (tiles.map SampledTile.toTile)
  | .curtain output runs =>
    .curtain output (runs.map SampledRun.toRun)
      (runs.flatMap fun run => Sample.payload run.samples)

/-- No span of a run stops before it begins. -/
def Ordered : SampledBundle → Prop
  | .slice .. => True
  | .curtain _ runs =>
    ∀ run ∈ runs, run.traces.first ≤ run.traces.stop ∧ run.depths.first ≤ run.depths.stop

theorem output_toBundle (b : SampledBundle) : b.toBundle.output = b.output := by
  cases b <;> rfl

/-- A bundle is read back, whatever comes behind it. -/
theorem decode_write {b : SampledBundle} (h : b.Writable) (ho : b.Ordered) (rest : Bytes) :
    Bundle.decode b.operation (b.write ++ rest) = .ok b.toBundle := by
  cases h with
  | @slice output tiles name count payloads =>
    have hp (tile : Tile) (ht : tile ∈ tiles.map SampledTile.toTile) :
        tile.values.length < UInt32.size := by
      obtain ⟨t, hm, rfl⟩ := List.mem_map.mp ht
      exact payloads t hm
    have hr := Bundle.readSlice_write name (by rwa [List.length_map]) hp rest
    simp only [Bundle.decode, operation, write, hr, toBundle]
  | @curtain output runs wire =>
    have hl : 2 * runs.length < UInt64.size := by
      have hm := wire.major
      rw [wireCurtain, Bundle.length_pairs] at hm
      exact Nat.lt_trans hm (by decide)
    simp only [Bundle.decode, operation, write, Bundle.readCurtain_write wire,
      Bundle.ofWireCurtain_wireCurtain ho hl, toBundle]

/-- A written bundle is one value. -/
theorem isValue_write {b : SampledBundle} (h : b.Writable) : IsValue b.write := by
  cases h with
  | @slice output tiles name count payloads =>
    have hl : IsValue (Writer.list Tile.write (tiles.map SampledTile.toTile)) := by
      apply isValue_list (by rwa [List.length_map])
      intro tile ht
      obtain ⟨t, hm, rfl⟩ := List.mem_map.mp ht
      exact isValue_tile (payloads t hm)
    have ha : IsArrayHead 2 (Writer.arrayHead 2) := isArrayHead_arrayHead (by decide)
    have hv := ha.isValue ((isValue_text name).append hl)
    simpa only [write, writeSlice, List.append_assoc] using hv
  | @curtain output runs wire =>
    have hw {items : List Word} (hl : items.length < UInt32.size) :
        IsValue (Writer.list Writer.word items) := isValue_list hl fun n _ => isValue_word n
    have ha : IsArrayHead 5 (Writer.arrayHead 5) := isArrayHead_arrayHead (by decide)
    have hs := ((isValue_text wire.output).append (isValue_word (wireCurtain output runs).size)).append
      (((hw wire.major).append (hw wire.minor)).append (isValue_bin wire.values))
    have hv := ha.isValue hs
    simpa only [write, WireCurtain.write, List.append_assoc] using hv

end SampledBundle

end SeismicStream
