import Mathlib.Data.List.Perm.Subperm
import SeismicStream.Occupancy
import SeismicStream.Proofs.Bundle.Plan
import SeismicStream.Proofs.Msgpack.Weight

namespace SeismicStream
open Msgpack

/-- One array comes of another when at most `n` samples are put in their places. -/
def Sample.Painted (n : Nat) (before after : Array Sample) : Prop :=
  ∃ writes, writes.length ≤ n ∧ after = paintAll before writes

namespace Sample.Painted

variable {m n : Nat} {before mid after : Array Sample}

theorem refl (n : Nat) (target : Array Sample) : Painted n target target :=
  ⟨[], Nat.zero_le n, rfl⟩

theorem trans (h : Painted m before mid) (h' : Painted n mid after) :
    Painted (m + n) before after := by
  obtain ⟨front, hm, rfl⟩ := h
  obtain ⟨back, hn, rfl⟩ := h'
  refine ⟨front ++ back, ?_, (paintAll_append before front back).symm⟩
  rw [List.length_append]
  exact Nat.add_le_add hm hn

theorem mono (h : Painted m before after) (hmn : m ≤ n) : Painted n before after := by
  obtain ⟨writes, hm, ha⟩ := h
  exact ⟨writes, Nat.le_trans hm hmn, ha⟩

theorem copySamples (source target : Array Sample) (first length start : Word) :
    Painted length.toNat target (copySamples source first length target start) := by
  refine ⟨_, ?_, copySamples_eq source target first length start⟩
  rw [List.length_zip, List.length_range']
  exact Nat.min_le_left _ _

end Sample.Painted

/-- Only a position that a sample is put in can change. -/
theorem Sample.Painted.changed_le {n : Nat} {before after : Array Sample}
    (h : Painted n before after) : (changed before after).length ≤ n := by
  obtain ⟨writes, hn, rfl⟩ := h
  have hsub : changed before (paintAll before writes) ⊆ writes.map Prod.fst := by
    intro j hj
    rw [changed, List.mem_filter, List.mem_range, decide_eq_true_eq] at hj
    obtain ⟨hlt, hne⟩ := hj
    by_contra hm
    apply hne
    rw [getElem?_paintAll hlt, lastAt?_eq_none hm, Option.getD_none]
    exact Array.getElem?_eq_getElem hlt
  -- A position is listed once, however often it is written.
  have hnodup : (changed before (paintAll before writes)).Nodup := List.nodup_range.filter _
  have hle := hnodup.length_le_of_subset hsub
  rw [List.length_map] at hle
  exact Nat.le_trans hle hn

theorem Sample.countP_set_le (target : Array Sample) (position : Nat) (s : Sample) :
    (target.setIfInBounds position s).toList.countP (· ≠ 0) ≤
      target.toList.countP (· ≠ 0) + 1 := by
  rw [Array.toList_setIfInBounds]
  by_cases h : position < target.toList.length
  · rw [List.countP_set h]
    split <;> split <;> omega
  · rw [List.set_eq_of_length_le (Nat.le_of_not_lt h)]
    exact Nat.le_succ _

/-- One sample more that is not zero takes one sample that is put in its place. -/
theorem Sample.Painted.countP_le {n : Nat} {before after : Array Sample}
    (h : Painted n before after) :
    after.toList.countP (· ≠ 0) ≤ before.toList.countP (· ≠ 0) + n := by
  obtain ⟨writes, hn, rfl⟩ := h
  refine Nat.le_trans ?_ (Nat.add_le_add_left hn _)
  clear hn
  induction writes generalizing before with
  | nil => exact Nat.le_refl _
  | cons write rest ih =>
    have hfirst := countP_set_le before write.1 write.2
    have hrest := @ih (before.setIfInBounds write.1 write.2)
    have hp : paintAll before (write :: rest) =
      paintAll (before.setIfInBounds write.1 write.2) rest := rfl
    rw [hp, List.length_cons]
    omega

/-- All copies of a tile together put no more samples than they ask for. -/
theorem Strides.copies_painted (s : Strides) (source target : Array Sample) (i : Word)
    (count : Nat) : Sample.Painted (count * s.chunkSize.toNat) target
      (s.copies source i count target).target := by
  induction count generalizing i target with
  | zero => exact .refl _ _
  | succ count ih =>
    unfold copies
    split
    · exact .refl _ _
    · rw [Nat.succ_mul, Nat.add_comm]
      exact (Sample.Painted.copySamples source target _ _ _).trans (ih _ _)

/-- How many samples the payload of a tile holds. -/
def Tile.carried (tile : Tile) : Nat :=
  tile.values.length / 4

/-- How many samples the payloads of a bundle hold. -/
def Bundle.carried : Bundle → Nat
  | .slice _ tiles => total Tile.carried tiles
  | .curtain _ _ values => values.length / 4

/-- What came of an output that took at most `n` samples, and counted no more. -/
structure Scattered.Spends (s : Scattered Nat) (n : Nat) (before : Array Sample) : Prop where
  painted : Sample.Painted n before s.target
  counted : ∀ count, s.outcome = .ok count → count ≤ n

theorem Sample.size_of_listOf? {values : Bytes} {source : Array Sample}
    (h : listOf? #[] values = some source) : source.size = values.length / 4 := by
  by_cases h4 : values.length % 4 = 0
  · rw [listOf?_payload_eq h4] at h
    cases h
    exact List.size_toArray.trans (length_ofPayload values)
  · rw [listOf?_misaligned h4] at h
    cases h

/-- A tile asks for no more copies than its payload has chunks. -/
theorem Tile.scatter_spends (tile : Tile) (target : Array Sample) :
    (tile.scatter target).Spends tile.carried target := by
  unfold scatter
  split
  · exact ⟨.refl _ _, nofun⟩
  rename_i source hs
  have hsize : source.size = tile.carried := Sample.size_of_listOf? hs
  split
  · refine ⟨.refl _ _, ?_⟩
    intro count hc
    cases hc
    exact Nat.zero_le _
  split
  · exact ⟨.refl _ _, nofun⟩
  rename_i h0 hi
  have hpos : 0 < tile.chunkSize.toNat :=
    Nat.pos_of_ne_zero fun h => h0 (UInt64.toNat_inj.mp h)
  -- Strides may lead back to samples that were read before, but the guard bounds the copies.
  have hall : tile.iterations.toNat * tile.chunkSize.toNat ≤ tile.carried :=
    hsize ▸ (Nat.le_div_iff_mul_le hpos).mp (Nat.le_of_not_lt hi)
  have hp := (tile.copies_painted source target 0 tile.iterations.toNat).mono hall
  split
  · rename_i e after ha
    rw [ha] at hp
    exact ⟨hp, nofun⟩
  · rename_i u after ha
    rw [ha] at hp
    refine ⟨hp, ?_⟩
    intro count hc
    cases hc
    rw [Word.mulCapped_eq, Word.toNat_capped]
    exact Nat.le_trans (Nat.min_le_left _ _) hall

theorem scatterTiles_painted (written : Nat) (tiles : List Tile) (target : Array Sample) :
    Sample.Painted (total Tile.carried tiles) target
        (scatterTiles written tiles target).target ∧
      ∀ count, (scatterTiles written tiles target).outcome = .ok count →
        count ≤ written + total Tile.carried tiles := by
  induction tiles generalizing written target with
  | nil =>
    refine ⟨.refl _ _, ?_⟩
    intro count hc
    cases hc
    exact Nat.le_refl _
  | cons tile rest ih =>
    have ht := tile.scatter_spends target
    unfold scatterTiles
    rw [total_cons]
    split
    · rename_i e after ha
      rw [ha] at ht
      exact ⟨ht.painted.mono (Nat.le_add_right _ _), nofun⟩
    · rename_i n after ha
      rw [ha] at ht
      have hn := ht.counted n rfl
      obtain ⟨hpainted, hcounted⟩ := ih (written + n) after
      refine ⟨ht.painted.trans hpainted, ?_⟩
      intro count hc
      have := hcounted count hc
      omega

/-- A range that passes ends within its capacity, at a word. -/
theorem within_ok {side : Side} {start length : Word} {capacity : Nat}
    (h : within side start length capacity = .ok ()) :
    start.toNat + length.toNat ≤ capacity ∧
      (start + length).toNat = start.toNat + length.toNat := by
  unfold within at h
  split at h
  · rename_i stop hs
    have hstop := Word.add?_eq_some_iff.mp hs
    have hlt := stop.toNat_lt_size
    split at h
    · exact ⟨by omega, Word.toNat_add (by omega)⟩
    · cases h
  · cases h

theorem withinBoth_source {source target length : Word} {available capacity : Nat}
    (h : withinBoth source target length available capacity = .ok ()) :
    within .source source length available = .ok () := by
  unfold withinBoth at h
  split at h
  · cases h
  · assumption

/-- The next `n` samples of a source, from the cursor on, were put in their places. The outcome is
the cursor behind them. -/
structure Scattered.Draws (s : Scattered Word) (available : Nat) (cursor : Word) (n : Nat)
    (before : Array Sample) : Prop where
  painted : Sample.Painted n before s.target
  enough : cursor.toNat + n ≤ available
  moved : ∀ next, s.outcome = .ok next → next.toNat = cursor.toNat + n

theorem Scattered.Draws.none {outcome : Except ScatterError Word} {available : Nat} {cursor : Word}
    {before : Array Sample} (h : cursor.toNat ≤ available)
    (ho : ∀ next, outcome = .ok next → next = cursor) :
    Draws ⟨outcome, before⟩ available cursor 0 before :=
  ⟨.refl _ _, h, fun next hn => congrArg UInt64.toNat (ho next hn)⟩

/-- What is drawn after some samples adds to them. -/
theorem Scattered.Draws.then {s t : Scattered Word} {available m n : Nat} {cursor next : Word}
    {before : Array Sample} (h : s.Draws available cursor m before) (ho : s.outcome = .ok next)
    (h' : t.Draws available next n s.target) : t.Draws available cursor (m + n) before := by
  have hm := h.moved next ho
  refine ⟨h.painted.trans h'.painted, ?_, ?_⟩
  · have := h'.enough
    omega
  · intro last hl
    rw [h'.moved last hl, hm, Nat.add_assoc]

/-- Copies draw from the source one behind the other, up to the first that fails. -/
theorem Run.fill_draws (run : Run) (depth : Word) (source target : Array Sample) (trace : Word)
    (count : Nat) {cursor : Word} (hc : cursor.toNat ≤ source.size) : ∃ n,
      (run.fill depth source trace count cursor target).Draws source.size cursor n target := by
  induction count generalizing trace cursor target with
  | zero => exact ⟨0, .none hc fun next hn => (Except.ok.inj hn).symm⟩
  | succ count ih =>
    unfold fill
    split
    · exact ⟨0, .none hc nofun⟩
    · rename_i hw
      obtain ⟨henough, hsum⟩ := within_ok (withinBoth_source hw)
      have hfirst : Scattered.Draws ⟨.ok (cursor + run.depths.length), copySamples source cursor
          run.depths.length target (run.targetOf depth trace)⟩ source.size cursor
          run.depths.length.toNat target := by
        refine ⟨.copySamples source target _ _ _, henough, ?_⟩
        intro next hn
        cases hn
        exact hsum
      obtain ⟨n, hn⟩ := @ih (copySamples source cursor run.depths.length target
        (run.targetOf depth trace)) (trace + 1) (cursor + run.depths.length) (hsum ▸ henough)
      exact ⟨run.depths.length.toNat + n, hfirst.then rfl hn⟩

theorem scatterRuns_draws (depth : Word) (source target : Array Sample) (runs : List Run)
    {cursor : Word} (hc : cursor.toNat ≤ source.size) : ∃ n,
      (scatterRuns depth source cursor runs target).Draws source.size cursor n target := by
  induction runs generalizing cursor target with
  | nil => exact ⟨0, .none hc fun next hn => (Except.ok.inj hn).symm⟩
  | cons run rest ih =>
    unfold scatterRuns
    split
    · exact ⟨0, .none hc nofun⟩
    split
    · exact ih target hc
    obtain ⟨m, hm⟩ := run.fill_draws depth source target run.traces.first run.traces.length.toNat hc
    split
    · rename_i e after ha
      rw [ha] at hm
      exact ⟨m, hm.painted, hm.enough, nofun⟩
    · rename_i next after ha
      rw [ha] at hm
      have hnext := hm.moved next rfl
      obtain ⟨n, hn⟩ := @ih after next (hnext ▸ hm.enough)
      exact ⟨m + n, hm.then rfl hn⟩

/-- A bundle puts no more samples than its payloads hold, also when it fails. -/
theorem Bundle.scatter_spends (bundle : Bundle) (index : List Int64) (target : Array Sample) :
    (bundle.scatter index target).Spends bundle.carried target := by
  unfold scatter
  split
  · rename_i output tiles
    obtain ⟨hpainted, hcounted⟩ := scatterTiles_painted 0 tiles target
    rw [Nat.zero_add] at hcounted
    exact ⟨hpainted, hcounted⟩
  · rename_i output runs values
    split
    · exact ⟨.refl _ _, nofun⟩
    rename_i depth _
    split
    · exact ⟨.refl _ _, nofun⟩
    rename_i source hs
    have hsize : source.size = values.length / 4 := Sample.size_of_listOf? hs
    obtain ⟨n, hn⟩ := scatterRuns_draws depth source target runs
      (show (0 : Word).toNat ≤ source.size from Nat.zero_le _)
    have hle : n ≤ values.length / 4 := by
      have := hn.enough
      have h0 : (0 : Word).toNat = 0 := rfl
      omega
    split
    · rename_i e after ha
      rw [ha] at hn
      exact ⟨hn.painted.mono hle, nofun⟩
    · rename_i cursor after ha
      rw [ha] at hn
      refine ⟨hn.painted.mono hle, ?_⟩
      intro count hc
      cases hc
      rw [hn.moved cursor rfl]
      exact Nat.le_trans (Nat.le_of_eq (Nat.zero_add n)) hle

namespace Bundle

open Reader in
theorem readTile_weighs : Weighs readTile fun tile => 4 * tile.carried := by
  refine tuple_weighs ?_
  intro bs tile rest h
  simp only [Option.bind_eq_bind, Option.bind_eq_some_iff, Prod.exists, Option.pure_def,
    Option.some.injEq, Prod.mk.injEq] at h
  obtain ⟨_, bs₁, h₁, _, bs₂, h₂, _, bs₃, h₃, _, bs₄, h₄, _, bs₅, h₅, values, _, h₆, rfl, rfl⟩ := h
  have := word_shrinks _ _ _ h₁
  have := word_shrinks _ _ _ h₂
  have := word_shrinks _ _ _ h₃
  have := word_shrinks _ _ _ h₄
  have := word_shrinks _ _ _ h₅
  have := blob_weighs _ _ _ h₆
  simp only [Tile.carried]
  omega

open Reader in
theorem readSlice_weighs : Weighs readSlice fun bundle => 4 * bundle.carried := by
  refine tuple_weighs ?_
  intro bs bundle rest h
  simp only [Option.bind_eq_bind, Option.bind_eq_some_iff, Prod.exists, Option.pure_def,
    Option.some.injEq, Prod.mk.injEq] at h
  obtain ⟨output, bs₁, h₁, tiles, _, h₂, rfl, rfl⟩ := h
  have := text_shrinks _ _ _ h₁
  have := list_weighs nofun readTile_weighs _ _ _ h₂
  simp only [carried, mul_total]
  omega

open Reader in
theorem readCurtain_weighs : Weighs readCurtain fun wire => wire.values.length := by
  refine tuple_weighs ?_
  intro bs wire rest h
  simp only [Option.bind_eq_bind, Option.bind_eq_some_iff, Prod.exists, Option.pure_def,
    Option.some.injEq, Prod.mk.injEq] at h
  obtain ⟨_, bs₁, h₁, _, bs₂, h₂, _, bs₃, h₃, _, bs₄, h₄, values, _, h₅, rfl, rfl⟩ := h
  have := text_shrinks _ _ _ h₁
  have := word_shrinks _ _ _ h₂
  have := words_shrinks _ _ _ h₃
  have := words_shrinks _ _ _ h₄
  have := blob_weighs _ _ _ h₅
  dsimp only
  omega

theorem carried_ofWireCurtain {wire : WireCurtain} {bundle : Bundle}
    (h : ofWireCurtain wire = .ok bundle) : bundle.carried = wire.values.length / 4 := by
  unfold ofWireCurtain at h
  split at h
  · cases h
  split at h
  · cases h
  · cases h
    rfl

/-- The payloads of a bundle are parts of its bytes. -/
theorem decode_carried {operation : Operation} {bytes : Bytes} {bundle : Bundle}
    (h : decode operation bytes = .ok bundle) : 4 * bundle.carried ≤ bytes.length := by
  unfold decode at h
  split at h
  · split at h
    · rename_i slice rest hr
      cases h
      exact Nat.le_trans (Nat.le_add_right _ _) (readSlice_weighs _ _ _ hr)
    · cases h
  · split at h
    · rename_i wire rest hr
      rw [carried_ofWireCurtain h]
      have : wire.values.length + rest.length ≤ bytes.length := readCurtain_weighs _ _ _ hr
      omega
    · cases h

end Bundle

end SeismicStream
