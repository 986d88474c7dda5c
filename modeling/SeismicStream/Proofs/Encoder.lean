import SeismicStream.Encoder.Checks
import SeismicStream.Proofs.Header.Checks
import SeismicStream.Proofs.RoundTrip

namespace SeismicStream.Encoder
open Msgpack

variable {e : Encoder}

theorem checkBundles_eq_ok_iff {bundles : List SampledBundle} :
    e.checkBundles bundles = .ok () ↔ ∀ b ∈ bundles, e.Takes b := by
  constructor
  · intro h b hb
    obtain ⟨ho, hd⟩ := checkBundles_ok h b hb
    exact ⟨ho, hd⟩
  · intro h
    induction bundles with
    | nil => rfl
    | cons b rest ih =>
      obtain ⟨hb, hr⟩ := List.forall_mem_cons.mp h
      rw [checkBundles, if_neg (not_not_intro hb.operation), if_pos hb.declared]
      exact ih hr

/-- Bundles are refused for the first of them that is not taken. -/
theorem checkBundles_eq_error_iff {bundles : List SampledBundle} {err : EncodeError} :
    e.checkBundles bundles = .error err ↔ ∃ front b back, bundles = front ++ b :: back ∧
      (∀ other ∈ front, e.Takes other) ∧ e.Misfit b err := by
  constructor
  · intro h
    induction bundles with
    | nil => cases h
    | cons b rest ih =>
      unfold checkBundles at h
      split at h
      · rename_i other
        cases h
        exact ⟨[], b, rest, rfl, List.forall_mem_nil _, .operation other⟩
      rename_i same
      have hs := Decidable.of_not_not same
      split at h
      · rename_i declared
        obtain ⟨front, b', back, rfl, takes, misfit⟩ := ih h
        exact ⟨b :: front, b', back, rfl, List.forall_mem_cons.mpr ⟨⟨hs, declared⟩, takes⟩, misfit⟩
      · rename_i undeclared
        cases h
        exact ⟨[], b, rest, rfl, List.forall_mem_nil _, .output hs undeclared⟩
  · rintro ⟨front, b, back, rfl, takes, misfit⟩
    induction front with
    | nil =>
      cases misfit with
      | operation other => exact if_pos other
      | output same undeclared =>
        rw [List.nil_append, checkBundles, if_neg (not_not_intro same), if_neg undeclared]
    | cons first rest ih =>
      obtain ⟨hf, hr⟩ := List.forall_mem_cons.mp takes
      rw [List.cons_append, checkBundles, if_neg (not_not_intro hf.operation), if_pos hf.declared]
      exact ih hr

section header

variable (hw : e.Writable)
include hw

theorem shaped_header : e.header.Shaped (e.attributes.map Attribute.shape) := by
  have hl := Nat.lt_trans hw.header.shapes (show UInt32.size < UInt64.size by decide)
  refine ⟨?_, (Packed.isShapes_iff hl).mpr rfl, ?_⟩
  · exact Operation.known_of_ofWire? e.operation.ofWire?_toWire
  · rw [header, List.length_map, List.length_map]

theorem labelled_header : e.header.Labelled (e.attributes.map Attribute.labels) := by
  have hl := Nat.lt_trans hw.header.labels (show UInt32.size < UInt64.size by decide)
  refine .packed ((Packed.isLabels_iff hl).mpr rfl) ?_
  rw [header, List.length_map, List.length_map]

theorem refused_of_error {err : EncodeError} (h : e.encode = .error err) : e.Refused err := by
  unfold encode at h
  split at h
  · rename_i empty
    cases h
    exact .noAttributes (List.isEmpty_iff.mp empty)
  rename_i some
  have declares : e.attributes ≠ [] := fun empty => some (List.isEmpty_iff.mpr empty)
  split at h
  · rename_i hb
    cases h
    obtain ⟨front, b, back, split, takes, misfit⟩ := checkBundles_eq_error_iff.mp hb
    exact .bundle declares split takes misfit
  rename_i hb
  split at h
  · rename_i hh
    cases h
    obtain ⟨front, name, back, rfl, split, distinct, again⟩ :=
      (Header.refused_of_error hh).repeats (shaped_header hw) (labelled_header hw)
    exact .repeated declares (checkBundles_eq_ok_iff.mp hb) split distinct again
  · cases h

theorem encode_of_refused {err : EncodeError} (h : e.Refused err) : e.encode = .error err := by
  cases h with
  | noAttributes empty => rw [encode, if_pos (List.isEmpty_iff.mpr empty)]
  | bundle declares split takes misfit =>
    have hb := checkBundles_eq_error_iff.mpr ⟨_, _, _, split, takes, misfit⟩
    rw [encode, if_neg (mt List.isEmpty_iff.mp declares), hb]
  | repeated declares takes split distinct again =>
    have hb := checkBundles_eq_ok_iff.mpr takes
    have hh := Header.ofWire_of_refused
      (.repeated (shaped_header hw) (labelled_header hw) split distinct again)
    rw [encode, if_neg (mt List.isEmpty_iff.mp declares), hb]
    simp only [hh]

theorem exists_encode_iff : (∃ bytes, e.encode = .ok bytes) ↔ e.Consistent := by
  constructor
  · rintro ⟨bytes, h⟩
    obtain ⟨takes, header, hh, -⟩ := encode_ok h
    refine ⟨?_, ?_, fun b hb => ⟨(takes b hb).1, (takes b hb).2⟩⟩
    · intro empty
      rw [encode_of_refused hw (.noAttributes empty)] at h
      cases h
    · have hn : header.names = e.attributes.map Attribute.name := Header.names_ofWire hh
      rw [← hn]
      exact header.names_nodup
  · intro h
    obtain ⟨header, hh⟩ := Header.exists_ofWire ⟨shaped_header hw, labelled_header hw, h.distinct⟩
    rw [encode, if_neg (mt List.isEmpty_iff.mp h.declares), checkBundles_eq_ok_iff.mpr h.takes]
    simp only [hh]
    exact ⟨_, rfl⟩

/-- What is written is one value. -/
theorem isValue_bytes : IsValue (Writer.arrayHead 2 ++ e.header.encode ++
    Writer.list SampledBundle.write e.bundles) := by
  have hl : IsValue (Writer.list SampledBundle.write e.bundles) :=
    isValue_list hw.count fun b hb => SampledBundle.isValue_write (hw.bundles b hb)
  have ha : IsArrayHead 2 (Writer.arrayHead 2) := isArrayHead_arrayHead (by decide)
  rw [List.append_assoc]
  exact ha.isValue ((WireHeader.isValue_encode hw.header).append hl)

theorem frames_of_encode {bytes : Bytes} (h : e.encode = .ok bytes)
    (hsize : bytes.length < UInt64.size) : e.Frames bytes := by
  obtain ⟨-, -, -, rfl⟩ := encode_ok h
  have whole := isValue_bytes hw
  have hd := WireHeader.decode_encode hw.header []
  rw [List.append_nil] at hd
  have hlist : IsArrayHead e.bundles.length (Writer.arrayHead e.bundles.length) :=
    isArrayHead_arrayHead hw.count
  rw [List.append_assoc] at whole hsize ⊢
  have hbehind : (Writer.arrayHead 2 ++
      (e.header.encode ++ Writer.list SampledBundle.write e.bundles)).drop 1 =
        e.header.encode ++ Writer.list SampledBundle.write e.bundles := rfl
  constructor
  case whole =>
    exact IsFrame.extent ⟨whole, hsize⟩
  case head =>
    exact envelope_eq_some_iff.mpr ⟨Writer.arrayHead 2, _, rfl, isArrayHead_arrayHead (by decide), rfl⟩
  case parts =>
    refine ⟨e.header.encode.length, (Writer.arrayHead e.bundles.length).length, ?_, ?_, ?_⟩
    · rw [hbehind]
      refine extent_eq_some_iff.mpr ⟨_, _, rfl, ⟨WireHeader.isValue_encode hw.header, ?_⟩, rfl⟩
      rw [List.length_append, List.length_append] at hsize
      omega
    · rw [hbehind, List.take_left, hd]
    · rw [← List.drop_drop, hbehind, List.drop_left, toNat_bundleCount hw, Writer.list,
        arrayHead_complete hlist]
  case counted => exact toNat_bundleCount hw

end header

/-- A response is written exactly when what was built is consistent, and is refused for the first
check that it fails. What is written is one value, which says where its parts are. Bytes that can be
held are fewer than a word can say. -/
theorem encode_checks (hw : e.Writable) :
    ((∃ bytes, e.encode = .ok bytes) ↔ e.Consistent) ∧
      (∀ err, e.encode = .error err ↔ e.Refused err) ∧
      ∀ bytes, e.encode = .ok bytes → bytes.length < UInt64.size → e.Frames bytes :=
  ⟨exists_encode_iff hw, fun _ => ⟨refused_of_error hw, encode_of_refused hw⟩,
    fun _ => frames_of_encode hw⟩

theorem encode_checks_twoRuns : twoRuns.Writable ∧ ∃ bytes, twoRuns.encode = .ok bytes ∧
    bytes.length < UInt64.size ∧ twoRuns.Frames bytes := by
  obtain ⟨passes, -, frames⟩ := encode_checks twoRuns_writable
  have consistent : twoRuns.Consistent := by
    refine ⟨by decide, by decide, ?_⟩
    intro b hb
    obtain rfl := List.mem_singleton.mp hb
    exact ⟨rfl, by decide⟩
  obtain ⟨bytes, h⟩ := passes.mpr consistent
  have hl : bytes.length < UInt64.size := by
    obtain ⟨-, -, -, rfl⟩ := encode_ok h
    decide
  exact ⟨twoRuns_writable, bytes, h, hl, frames bytes h hl⟩

end SeismicStream.Encoder
