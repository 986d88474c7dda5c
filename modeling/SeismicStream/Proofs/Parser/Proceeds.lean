import SeismicStream.Parser.Uses
import SeismicStream.Proofs.Msgpack.Incomplete
import SeismicStream.Proofs.Parser.Resume

namespace SeismicStream.ResponseParser
open Msgpack

variable {p q : ResponseParser} {progress : Progress}

/-- A parser that lacks bytes of the next structure. -/
def Short (p : ResponseParser) : Prop :=
  match p.step with
  | .envelope => envelope p.buffered = .ok none
  | .header => extent p.buffered = .ok none ∧ p.buffered.length ≤ p.maxHeaderBytes.toNat
  | .bundleList => arrayHead p.buffered = .ok none
  | .bundles (_ + 1) => extent p.buffered = .ok none
  | _ => False

/-- How a parser proceeds that does not fail: it takes structures off the buffer one by one, until
it lacks bytes, has taken the header, or is done. -/
inductive Proceeds : ResponseParser → Progress → ResponseParser → Prop
  | short {p : ResponseParser} (short : p.Short) : Proceeds p .needsMoreInput p
  | envelope {p q : ResponseParser} {progress : Progress} {head rest : Bytes}
      (step : p.step = .envelope) (split : p.buffered = head ++ rest) (head : IsArrayHead 2 head)
      (goesOn : Proceeds { p with buffered := rest, step := .header } progress q) :
      Proceeds p progress q
  | header {p : ResponseParser} {front rest : Bytes} {wire : WireHeader} {operation : Operation}
      (step : p.step = .header) (split : p.buffered = front ++ rest)
      (opens : p.Opens front wire operation) :
      Proceeds p .headerReady (p.opened wire operation rest)
  | bundleList {p q : ResponseParser} {progress : Progress} {head rest : Bytes}
      (step : p.step = .bundleList) (split : p.buffered = head ++ rest)
      (list : IsArrayHead p.declared head)
      (goesOn : Proceeds { p with buffered := rest, step := .bundles p.declared } progress q) :
      Proceeds p progress q
  | bundle {p q : ResponseParser} {progress : Progress} {front rest : Bytes} {remaining : Nat}
      (step : p.step = .bundles (remaining + 1)) (split : p.buffered = front ++ rest)
      (frame : IsFrame front)
      (goesOn : Proceeds { p with buffered := rest, step := .bundles remaining } progress q) :
      Proceeds p progress q
  | finished {p : ResponseParser} (step : p.step = .bundles 0) :
      Proceeds p .finished { p with step := .done }
  | done {p : ResponseParser} (step : p.step = .done) : Proceeds p .finished p

theorem takeHeader_proceeds (hs : p.step = .header) (h : p.takeHeader.1 = .ok progress) :
    Proceeds p progress p.takeHeader.2 := by
  cases he : extent p.buffered with
  | error e => simp [takeHeader, he] at h
  | ok answer =>
    cases answer with
    | none =>
      simp only [takeHeader, he] at h ⊢
      split at h
      · cases h
      · rename_i hl
        cases h
        rw [if_neg hl]
        refine .short ?_
        simp only [Short, hs]
        exact ⟨he, Nat.le_of_not_lt hl⟩
    | some size =>
      obtain ⟨front, rest, hb, hf, -⟩ := extent_eq_some_iff.mp he
      rw [takeHeader_of_frame hb hf] at h ⊢
      split at h
      · cases h
      · rename_i hl
        obtain ⟨wire, operation, hw, ho, hx⟩ := openHeader_ok h
        rw [hx] at h
        cases h
        rw [if_neg hl, hx]
        exact .header hs hb ⟨hf, Nat.le_of_not_lt hl, hw, ho⟩

theorem takeBundles_proceeds {n : Nat} {outputs : Registry}
    (h : (takeBundles n p outputs).outcome = .ok progress) :
    Proceeds { p with step := .bundles n } progress (takeBundles n p outputs).parser := by
  induction n generalizing p outputs with
  | zero =>
    cases h
    exact .finished rfl
  | succ n ih =>
    cases he : extent p.buffered with
    | error e => simp [takeBundles, he] at h
    | ok answer =>
      cases answer with
      | none =>
        simp only [takeBundles, he] at h ⊢
        cases h
        exact .short he
      | some size =>
        obtain ⟨front, rest, hb, hf, -⟩ := extent_eq_some_iff.mp he
        rw [takeBundles_frame hb hf] at h ⊢
        refine .bundle rfl hb hf ?_
        split at h
        · cases h
        · exact ih h

theorem advance_proceeds {outputs : Registry} (h : (p.advance outputs).outcome = .ok progress) :
    Proceeds p progress (p.advance outputs).parser := by
  cases hs : p.step with
  | envelope =>
    cases he : Msgpack.envelope p.buffered with
    | error e => simp [advance, hs, he] at h
    | ok answer =>
      cases answer with
      | none =>
        simp only [advance, hs, he] at h ⊢
        cases h
        refine .short ?_
        simp only [Short, hs]
        exact he
      | some size =>
        obtain ⟨head, rest, hb, hh, -⟩ := envelope_eq_some_iff.mp he
        rw [advance_envelope hs hb hh] at h ⊢
        exact .envelope hs hb hh (takeHeader_proceeds rfl h)
  | header =>
    rw [advance_header hs] at h ⊢
    exact takeHeader_proceeds hs h
  | bundleList =>
    rw [advance_bundleList hs] at h ⊢
    cases ha : arrayHead p.buffered with
    | error e => simp [takeBundleList, ha] at h
    | ok answer =>
      cases answer with
      | none =>
        simp only [takeBundleList, ha] at h ⊢
        cases h
        refine .short ?_
        simp only [Short, hs]
        exact ha
      | some found =>
        obtain ⟨head, rest, hb, hh, -⟩ := arrayHead_sound ha
        rw [takeBundleList_head hb hh] at h ⊢
        split at h
        · cases h
        · rename_i hc
          have hd : found.1 = p.declared := Decidable.of_not_not hc
          rw [if_neg hc]
          exact .bundleList hs hb (hd ▸ hh) (hd ▸ takeBundles_proceeds h)
  | bundles n =>
    rw [advance_bundles hs] at h ⊢
    have hp : { p with step := .bundles n } = p := by rw [← hs]
    exact hp ▸ takeBundles_proceeds h
  | done =>
    simp only [advance, hs] at h ⊢
    cases h
    exact .done hs

end SeismicStream.ResponseParser
