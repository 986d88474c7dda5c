import SeismicStream.Proofs.Parser.Proceeds
import SeismicStream.Proofs.Parser.Phases
import SeismicStream.Session.Reach

namespace SeismicStream

open Msgpack

theorem HeaderWithin.append {limits : Limits} {bytes : Bytes} (h : HeaderWithin limits bytes)
    (more : Bytes) : HeaderWithin limits (bytes ++ more) := by
  obtain ⟨head, value, rest, rfl, hh, hv, hl⟩ := h
  exact ⟨head, value, rest ++ more, by simp only [List.append_assoc], hh, hv, hl⟩

/-- The header of a stream is not both too long and short enough. -/
theorem HeaderOverruns.not_within {limits : Limits} {bytes : Bytes}
    (h : HeaderOverruns limits bytes) : ¬ HeaderWithin limits bytes := by
  obtain ⟨head, rest, rfl, hh, -, hlong⟩ := h
  rintro ⟨head', value, tail, hb, hh', hv, hl⟩
  obtain ⟨rfl, rfl, -⟩ := hh.isToken.unique hh'.isToken hb
  exact Nat.lt_irrefl _ (Nat.lt_of_lt_of_le (hlong value tail rfl hv) hl)

/-- A header that is found to be too long is too long. -/
theorem HeaderOverruns.of_value {limits : Limits} {head value rest : Bytes}
    (hh : IsArrayHead 2 head) (hv : IsValue value)
    (hl : limits.maxHeaderBytes.toNat < value.length) :
    HeaderOverruns limits (head ++ (value ++ rest)) := by
  refine ⟨head, value ++ rest, rfl, hh, ?_, ?_⟩
  · rw [List.length_append]
    omega
  · intro other tail he ho
    obtain ⟨rfl, -⟩ := hv.unique ho he
    exact hl

namespace ResponseParser

variable {p : ResponseParser} {e : DecodeError}

/-- An error from before the header is read. One that says that the header is too long is right,
whatever comes behind the bytes that it was found in. -/
structure HeaderRefusal (limits : Limits) (bytes : Bytes) (e : DecodeError) : Prop where
  malformed : ∃ fault, e = .malformedHeader fault
  oversized : ∀ limit atLeast, e = .malformedHeader (.oversized limit atLeast) →
    ∀ more, HeaderOverruns limits (bytes ++ more)

namespace HeaderRefusal

variable {limits : Limits} {bytes : Bytes}

theorem framing (f : FramingError) : HeaderRefusal limits bytes (.malformedHeader (.framing f)) := by
  refine ⟨⟨_, rfl⟩, ?_⟩
  intro limit atLeast he
  cases he

theorem header (f : HeaderError) : HeaderRefusal limits bytes (.malformedHeader (.header f)) := by
  refine ⟨⟨_, rfl⟩, ?_⟩
  intro limit atLeast he
  cases he

end HeaderRefusal

theorem openHeader_refused {limits : Limits} {bytes front : Bytes}
    (h : (p.openHeader front).1 = .error e) : HeaderRefusal limits bytes e := by
  unfold openHeader at h
  split at h
  · cases h
    exact .header _
  · split at h
    · cases h
      exact .header _
    · cases h

theorem takeHeader_refused {limits : Limits} (hl : p.maxHeaderBytes = limits.maxHeaderBytes)
    {head : Bytes} (hh : IsArrayHead 2 head) (h : p.takeHeader.1 = .error e) :
    HeaderRefusal limits (head ++ p.buffered) e := by
  cases he : extent p.buffered with
  | error f =>
    simp only [takeHeader, he] at h
    cases h
    exact .framing f
  | ok answer =>
    cases answer with
    | none =>
      simp only [takeHeader, he] at h
      split at h
      · rename_i hlong
        cases h
        refine ⟨⟨_, rfl⟩, ?_⟩
        intro limit atLeast _ more
        rw [List.append_assoc]
        exact Endless.overruns hh ⟨he, hl ▸ hlong⟩ more
      · cases h
    | some size =>
      obtain ⟨front, rest, hb, hf, -⟩ := extent_eq_some_iff.mp he
      rw [takeHeader_of_frame hb hf] at h
      split at h
      · rename_i hlong
        cases h
        refine ⟨⟨_, rfl⟩, ?_⟩
        intro limit atLeast _ more
        rw [hb, List.append_assoc, List.append_assoc]
        exact .of_value hh hf.value (hl ▸ hlong)
      · exact openHeader_refused h

/-- A parser that looks for the header fails with an error about the header. -/
theorem Seeking.refused {limits : Limits} {bytes : Bytes} (hs : p.Seeking bytes)
    (hl : p.maxHeaderBytes = limits.maxHeaderBytes) {outputs : Registry}
    (h : (p.advance outputs).outcome = .error e) : HeaderRefusal limits bytes e := by
  rcases hs with ⟨hs, rfl⟩ | ⟨hs, head, hh, rfl⟩
  · cases he : envelope p.buffered with
    | error f =>
      simp only [advance, hs, he] at h
      cases h
      exact .framing f
    | ok answer =>
      cases answer with
      | none =>
        simp only [advance, hs, he] at h
        cases h
      | some size =>
        obtain ⟨head, rest, hb, hh, -⟩ := envelope_eq_some_iff.mp he
        rw [advance_envelope hs hb hh] at h
        rw [hb]
        exact takeHeader_refused (p := { p with buffered := rest, step := .header }) hl hh h
  · rw [advance_header hs] at h
    exact takeHeader_refused hl hh h

theorem route_refused {bytes : Bytes} {outputs : Registry}
    (h : (p.route bytes outputs).1 = .error e) : ∃ fault, e = .malformedPayload fault := by
  unfold route at h
  split at h
  · cases h
    exact ⟨_, rfl⟩
  split at h
  · cases h
    exact ⟨_, rfl⟩
  split at h
  · cases h
  dsimp only at h
  split at h
  · cases h
    exact ⟨_, rfl⟩
  · cases h
    exact ⟨_, rfl⟩
  · cases h

theorem takeBundles_refused {n : Nat} {outputs : Registry}
    (h : (takeBundles n p outputs).outcome = .error e) : ∃ fault, e = .malformedPayload fault := by
  induction n generalizing p outputs with
  | zero => cases h
  | succ n ih =>
    unfold takeBundles at h
    split at h
    · cases h
      exact ⟨_, rfl⟩
    · cases h
    · dsimp only at h
      split at h
      · rename_i hr
        cases h
        exact route_refused (congrArg Prod.fst hr)
      · exact ih h

/-- A parser that collects bundles fails with an error about the payload. -/
theorem Collecting.refused (hc : p.Collecting) {outputs : Registry}
    (h : (p.advance outputs).outcome = .error e) : ∃ fault, e = .malformedPayload fault := by
  rcases hc with hs | ⟨n, hs⟩
  · rw [advance_bundleList hs] at h
    unfold takeBundleList at h
    split at h
    · cases h
      exact ⟨_, rfl⟩
    · cases h
    · split at h
      · cases h
        exact ⟨_, rfl⟩
      · exact takeBundles_refused h
  · rw [advance_bundles hs] at h
    exact takeBundles_refused h

end ResponseParser

end SeismicStream
