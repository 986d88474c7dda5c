import SeismicStream.Proofs.Bundle.Scatter
import SeismicStream.Proofs.Header.Wire
import SeismicStream.Proofs.Packed
import SeismicStream.Proofs.Session.Ready

namespace SeismicStream.Encoder
open Msgpack

variable {e : Encoder}

theorem checkBundles_ok {bundles : List SampledBundle} (h : e.checkBundles bundles = .ok ()) :
    ∀ b ∈ bundles, b.operation = e.operation ∧ b.output ∈ e.attributes.map Attribute.name := by
  induction bundles with
  | nil => simp
  | cons b rest ih =>
    unfold checkBundles at h
    split at h
    · cases h
    · rename_i ho
      split at h
      · rename_i hm
        exact List.forall_mem_cons.mpr ⟨⟨Decidable.of_not_not ho, hm⟩, ih h⟩
      · cases h

/-- What is written is the header and the bundles, all of which belong to it. -/
theorem encode_ok {bytes : Bytes} (h : e.encode = .ok bytes) :
    (∀ b ∈ e.bundles, b.operation = e.operation ∧ b.output ∈ e.attributes.map Attribute.name) ∧
      ∃ header, Header.ofWire e.header = .ok header ∧ bytes =
        Writer.arrayHead 2 ++ e.header.encode ++ Writer.list SampledBundle.write e.bundles := by
  unfold encode at h
  split at h
  · cases h
  split at h
  · cases h
  rename_i hb
  split at h
  · cases h
  rename_i header hh
  exact ⟨checkBundles_ok hb, header, hh, (Except.ok.inj h).symm⟩

theorem toNat_bundleCount (hw : e.Writable) : e.header.bundleCount.toNat = e.bundles.length := by
  have hn := hw.count
  have hm : min e.bundles.length (UInt32.size - 1) = e.bundles.length := Nat.min_eq_left (by omega)
  rw [header, hm]
  exact UInt32.toNat_ofNat_of_lt' hn

/-- The header that is written is checked to say what the encoder was told. -/
theorem ofWire_header (hw : e.Writable) {found : Header} (h : Header.ofWire e.header = .ok found) :
    found.operation = e.operation ∧ found.index = e.index ∧ found.attributes = e.attributes ∧
      found.bundleCount.toNat = e.bundles.length := by
  obtain ⟨ho, -, hc, -, hi, shapes, labels, hs, hlabels, -, -, ha⟩ := Header.ofWire_ok h
  have hshapes := hw.header.shapes
  have hlen := hw.header.labels
  have h64 : UInt32.size < UInt64.size := by decide
  refine ⟨?_, hi, ?_, ?_⟩
  · have hr : Operation.ofWire? e.header.function = some e.operation :=
      Operation.ofWire?_eq_some_iff.mpr rfl
    exact Option.some.inj (ho.symm.trans hr)
  -- The shapes and the labels are packed in the header, and unpacked as they were.
  · obtain rfl : e.attributes.map Attribute.shape = shapes := by
      have hr := Packed.shapes?_ofShapes (Nat.lt_trans hshapes h64)
      exact Except.ok.inj (hr.symm.trans hs)
    obtain rfl : e.attributes.map Attribute.labels = labels := by
      have hr := Packed.labels?_ofLabels (Nat.lt_trans hlen h64)
      exact Except.ok.inj (hr.symm.trans hlabels)
    rw [ha]
    exact (congrArg _ (Header.spreadLabels_map e.attributes)).trans (Header.declare_map e.attributes)
  · rw [hc]
    exact toNat_bundleCount hw

theorem take?_zeros {limits : Limits} {a : Attribute} (hw : e.Writable) (hf : e.Fits)
    (ha : a ∈ e.attributes) (hs : a.shape.product ≤ limits.maxElements.toNat) :
    a.zeros.take? e.index (e.bundles.map SampledBundle.toBundle) = some (e.painted a) := by
  have hfilter : (e.bundles.map SampledBundle.toBundle).filter (fun b => b.output = a.name) =
      (e.bundles.filter fun b => b.output = a.name).map SampledBundle.toBundle := by
    rw [List.filter_map]
    simp only [Function.comp_def, SampledBundle.output_toBundle]
  have hsize : a.zeros.samples.size = a.shape.product := Array.size_replicate
  have hmem {b : SampledBundle} (hb : b ∈ e.bundles.filter fun b => b.output = a.name) :
      b ∈ e.bundles ∧ b.output = a.name := by
    simpa using hb
  have hscatter := @SampledBundle.scatterAll_eq _ e.index a.zeros.samples
    (fun b hb => hw.bundles b (hmem hb).1)
    (hsize ▸ Nat.lt_of_le_of_lt hs limits.maxElements.toNat_lt)
    (fun b hb => hsize ▸ hf b (hmem hb).1 a ha (hmem hb).2)
  have hname : a.zeros.name = a.name := rfl
  rw [Buffer.take?, hname, hfilter, hscatter]
  rfl

/-- The bundles that are written fill the outputs with what is painted on them. -/
theorem fills_encode {limits : Limits} (hw : e.Writable) (hf : e.Fits)
    (hb : ∀ b ∈ e.bundles, b.operation = e.operation ∧ b.output ∈ e.attributes.map Attribute.name)
    (hs : ∀ a ∈ e.attributes, a.shape.product ≤ limits.maxElements.toNat)
    (hsize : (e.bundles.flatMap SampledBundle.write).length < UInt64.size) :
    Fills e.operation e.index (e.bundles.map SampledBundle.write)
      (e.attributes.map Attribute.zeros) (e.attributes.map e.painted) := by
  constructor
  case whole =>
    intro frame hm
    obtain ⟨b, hmem, rfl⟩ := List.mem_map.mp hm
    refine ⟨SampledBundle.isValue_write (hw.bundles b hmem), ?_⟩
    have hle := (List.sublist_flatten_of_mem hm).length_le
    rw [← List.flatMap_def] at hle
    exact Nat.lt_of_le_of_lt hle hsize
  case fit =>
    refine ⟨e.bundles.map SampledBundle.toBundle, mapM_map_eq_ok ?_, mapM_map_eq_some ?_⟩
    · intro b hm
      obtain ⟨ho, hmem⟩ := hb b hm
      obtain ⟨a, ha, hn⟩ := List.mem_map.mp hmem
      have hordered := SampledBundle.ordered_of_fits (hf b hm a ha hn.symm)
      have hd := SampledBundle.decode_write (hw.bundles b hm) hordered []
      rwa [List.append_nil, ho] at hd
    · intro a hm
      exact take?_zeros hw hf hm (hs a hm)

/-- The bytes that are written are a response, and it says what the encoder was told. -/
theorem isResponse_encode {limits : Limits} {header : Header} (hw : e.Writable) (hf : e.Fits)
    (hb : ∀ b ∈ e.bundles, b.operation = e.operation ∧ b.output ∈ e.attributes.map Attribute.name)
    (hh : Header.ofWire e.header = .ok header)
    (hl : e.header.encode.length ≤ limits.maxHeaderBytes.toNat)
    (hs : ∀ a ∈ e.attributes, limits.Allows a.shape)
    (hold : ∀ a ∈ e.attributes, a.shape.Holdable)
    (hsize : (Writer.arrayHead 2 ++ e.header.encode ++
      Writer.list SampledBundle.write e.bundles).length < UInt64.size) :
    IsResponse limits
      (Writer.arrayHead 2 ++ e.header.encode ++ Writer.list SampledBundle.write e.bundles)
      ⟨header, e.attributes.map e.painted⟩ := by
  obtain ⟨hop, hi, ha, hc⟩ := ofWire_header hw hh
  refine ⟨⟨Writer.arrayHead 2, e.header.encode, Writer.arrayHead e.bundles.length,
    e.bundles.map SampledBundle.write⟩, [], ?_, ?_⟩
  · simp [ResponseParts.bytes, Writer.list, List.flatMap_def]
  constructor
  case head => exact isArrayHead_arrayHead (by decide)
  case header => exact WireHeader.isValue_encode hw.header
  case short => exact hl
  case read =>
    have hd := WireHeader.decode_encode hw.header []
    rw [List.append_nil] at hd
    exact ⟨e.header, hd, hh⟩
  case allocated => exact Registry.exists_allocate_iff.mpr ⟨ha ▸ hs, ha ▸ hold⟩
  case listHead =>
    change IsArrayHead (e.bundles.map SampledBundle.write).length (Writer.arrayHead e.bundles.length)
    rw [List.length_map]
    exact isArrayHead_arrayHead hw.count
  case counted => exact (List.length_map _).trans hc.symm
  case filled =>
    simp only [Writer.list, List.length_append] at hsize
    simp only [ha, hi, hop]
    exact fills_encode hw hf hb (fun a hm => (hs a hm).2) (by omega)

theorem readsBack_of_holdable {limits : Limits} {bytes : Bytes} (h : e.encode = .ok bytes)
    (hsize : bytes.length < UInt64.size) (hw : e.Writable) (hf : e.Fits)
    (hl : e.header.encode.length ≤ limits.maxHeaderBytes.toNat)
    (hs : ∀ a ∈ e.attributes, limits.Allows a.shape)
    (hold : ∀ a ∈ e.attributes, a.shape.Holdable) : e.ReadsBack limits bytes := by
  obtain ⟨hb, header, hh, rfl⟩ := encode_ok h
  refine ⟨header, hh, ?_⟩
  intro pieces hp
  have hr := isResponse_encode hw hf hb hh hl hs hold hsize
  rw [← hp] at hr
  rw [Session.result?, Session.after_done hr]

/-- What is read back was allocated, so its outputs can be held. -/
theorem holdable_of_readsBack {limits : Limits} {bytes : Bytes} (hw : e.Writable)
    (h : e.ReadsBack limits bytes) : ∀ a ∈ e.attributes, a.shape.Holdable := by
  obtain ⟨header, hh, hp⟩ := h
  obtain ⟨-, -, ha, -⟩ := ofWire_header hw hh
  have hr := hp [bytes] (List.append_nil bytes)
  obtain ⟨x, -, -, hx⟩ := (Session.fresh_waits limits).isResponse (fun _ => rfl) hr
  exact ha ▸ (Registry.exists_allocate_iff.mp hx.allocated).2

/-- What is written is read back, however it is cut into pieces, exactly where a buffer can hold each
output. Bytes that can be held are fewer than a word can say. -/
theorem readsBack_iff {limits : Limits} {bytes : Bytes} (h : e.encode = .ok bytes)
    (hsize : bytes.length < UInt64.size) (hw : e.Writable) (hf : e.Fits)
    (hl : e.header.encode.length ≤ limits.maxHeaderBytes.toNat)
    (hs : ∀ a ∈ e.attributes, limits.Allows a.shape) :
    e.ReadsBack limits bytes ↔ ∀ a ∈ e.attributes, a.shape.Holdable :=
  ⟨holdable_of_readsBack hw, readsBack_of_holdable h hsize hw hf hl hs⟩

/-- A curtain with two runs, over two traces of two samples. -/
def twoRuns : Encoder where
  operation := .curtain
  index := [2, 1, 2]
  attributes := [⟨"a", [2, 2], []⟩]
  bundles := [.curtain "a" [⟨⟨⟨0, 1⟩, ⟨0, 2⟩⟩, [5, 6]⟩, ⟨⟨⟨1, 2⟩, ⟨1, 2⟩⟩, [7]⟩]]

theorem labelNames_of_count {w : WireHeader} {n : Word} (h : w.labels = [.count n]) (name : String)
    (hm : .label name ∈ w.labels) : Text.Writable name := by
  rw [h] at hm
  cases List.mem_singleton.mp hm

theorem twoRuns_writable : twoRuns.Writable := by
  constructor
  case header =>
    constructor
    case labelNames => exact labelNames_of_count (show twoRuns.header.labels = [.count 0] by decide)
    all_goals decide
  case count => decide
  case bundles =>
    intro b hb
    obtain rfl := List.mem_singleton.mp hb
    constructor
    constructor <;> decide

theorem twoRuns_fits : twoRuns.Fits := by
  intro b hb a ha hn
  obtain rfl := List.mem_singleton.mp hb
  obtain rfl := List.mem_singleton.mp ha
  refine ⟨⟨2, rfl, by decide⟩, ?_⟩
  refine List.forall_mem_cons.mpr ⟨?_, List.forall_mem_singleton.mpr ?_⟩
  all_goals constructor <;> decide

theorem readsBack_iff_twoRuns : ∃ bytes, twoRuns.encode = .ok bytes ∧
    (twoRuns.ReadsBack {} bytes ↔ ∀ a ∈ twoRuns.attributes, a.shape.Holdable) ∧
      ∃ header, Header.ofWire twoRuns.header = .ok header ∧
        ∀ pieces : List Bytes, pieces.flatten = bytes →
          ((Session.fresh {}).after (pieces.map some)).result? =
            some ⟨header, [⟨"a", [2, 2], #[5, 6, 0, 7]⟩]⟩ := by
  have h : twoRuns.encode = .ok (Writer.arrayHead 2 ++ twoRuns.header.encode ++
      Writer.list SampledBundle.write twoRuns.bundles) := by decide +kernel
  have hp : twoRuns.attributes.map twoRuns.painted = [⟨"a", [2, 2], #[5, 6, 0, 7]⟩] := by rfl
  have reads := @readsBack_iff twoRuns {} _ h (by decide) twoRuns_writable twoRuns_fits (by decide)
    (by decide)
  rw [← hp]
  exact ⟨_, h, reads, reads.mpr (by decide)⟩

/-- One output within the largest limit that takes a byte more than a buffer may, and no bundles. -/
def vast : Encoder where
  operation := .slice
  attributes := [⟨"a", [0x2000000000000000], []⟩]

theorem vast_writable : vast.Writable := by
  constructor
  case header =>
    constructor
    case labelNames => exact labelNames_of_count (show vast.header.labels = [.count 0] by decide)
    all_goals decide
  case count => decide
  case bundles => nofun

theorem not_readsBack_vast : ∃ bytes, vast.encode = .ok bytes ∧ bytes.length < UInt64.size ∧
    vast.Writable ∧ vast.Fits ∧
    vast.header.encode.length ≤ ({ maxElements := Word.last } : Limits).maxHeaderBytes.toNat ∧
    (∀ a ∈ vast.attributes, ({ maxElements := Word.last } : Limits).Allows a.shape) ∧
      ¬vast.ReadsBack { maxElements := Word.last } bytes := by
  have h : vast.encode = .ok (Writer.arrayHead 2 ++ vast.header.encode ++
      Writer.list SampledBundle.write vast.bundles) := by decide +kernel
  have beyond : ¬∀ a ∈ vast.attributes, a.shape.Holdable := by decide
  refine ⟨_, h, by decide, vast_writable, nofun, by decide, by decide, ?_⟩
  exact fun reads => beyond (holdable_of_readsBack vast_writable reads)

end SeismicStream.Encoder
