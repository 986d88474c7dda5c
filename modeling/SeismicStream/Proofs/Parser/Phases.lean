import SeismicStream.Proofs.Parser.Resume
import SeismicStream.Response

namespace SeismicStream.ResponseParser
open Msgpack

variable {p : ResponseParser}

/-- The header is off the buffer, and not all bundles are. -/
def Collecting (p : ResponseParser) : Prop :=
  p.step = .bundleList ∨ ∃ n, p.step = .bundles n

/-- The parser with all outputs bound. -/
def bound (p : ResponseParser) (outputs : Registry) : ResponseParser :=
  { p with bindings := outputs.handles.reverse ++ p.bindings }

theorem takeBundles_collecting (n : Nat) (p : ResponseParser) (outputs : Registry) :
    (takeBundles n p outputs).outcome ≠ .ok .headerReady ∧
      ((takeBundles n p outputs).outcome = .ok .needsMoreInput →
        (takeBundles n p outputs).parser.Collecting) := by
  induction n generalizing p outputs with
  | zero => simp [takeBundles]
  | succ n ih =>
    unfold takeBundles
    split
    · simp
    · simp [Collecting]
    · dsimp only
      split
      · simp
      · exact ih _ _

/-- A parser that collects bundles reports no header, and goes on to collect if it lacks bytes. -/
theorem advance_collecting (h : p.Collecting) (outputs : Registry) :
    (p.advance outputs).outcome ≠ .ok .headerReady ∧
      ((p.advance outputs).outcome = .ok .needsMoreInput →
        (p.advance outputs).parser.Collecting) := by
  rcases h with hs | ⟨n, hs⟩
  · simp only [advance, hs, takeBundleList]
    split
    · simp
    · simp [Collecting, hs]
    · split
      · simp
      · exact takeBundles_collecting _ _ _
  · simp only [advance, hs]
    exact takeBundles_collecting n p outputs

/-- The bytes given so far lead to the header, or lack some of it. -/
def Seeking (p : ResponseParser) (bytes : Bytes) : Prop :=
  p.step = .envelope ∧ p.buffered = bytes ∨
    p.step = .header ∧ ∃ head, IsArrayHead 2 head ∧ bytes = head ++ p.buffered

theorem Seeking.supply {bytes : Bytes} (h : p.Seeking bytes) (more : Bytes) :
    (p.supply more).Seeking (bytes ++ more) := by
  rcases h with ⟨hs, rfl⟩ | ⟨hs, head, hh, rfl⟩
  · exact .inl ⟨hs, rfl⟩
  · exact .inr ⟨hs, head, hh, by simp [ResponseParser.supply]⟩

/-- What a parser that looks for the header may come to, and the parser after that. -/
inductive Sought (p : ResponseParser) (bytes : Bytes) :
    Except DecodeError Progress → ResponseParser → Prop
  | refused {e : DecodeError} {q : ResponseParser} : Sought p bytes (.error e) q
  | pending {q : ResponseParser} (seeks : q.Seeking bytes)
      (limit : q.maxHeaderBytes = p.maxHeaderBytes) : Sought p bytes (.ok .needsMoreInput) q
  | ready {head front rest : Bytes} {wire : WireHeader} {operation : Operation}
      (split : bytes = head ++ (front ++ rest)) (envelope : IsArrayHead 2 head)
      (opens : p.Opens front wire operation) :
      Sought p bytes (.ok .headerReady) (p.opened wire operation rest)

theorem Sought.collecting {bytes : Bytes} {q : ResponseParser}
    (h : Sought p bytes (.ok .headerReady) q) : q.Collecting := by
  cases h with
  | ready => exact .inl rfl

theorem takeHeader_sought (p : ResponseParser) {head : Bytes} (hh : IsArrayHead 2 head)
    (rest : Bytes) : Sought p (head ++ rest)
      (takeHeader { p with buffered := rest, step := .header }).1
      (takeHeader { p with buffered := rest, step := .header }).2 := by
  cases ht : (takeHeader { p with buffered := rest, step := .header }).1 with
  | error e => exact .refused
  | ok progress =>
    rcases takeHeader_ok ht with hp | ⟨front, rest', wire, operation, hb, hx, hp⟩
    · rw [hp] at ht ⊢
      cases ht
      exact .pending (.inr ⟨rfl, head, hh, rfl⟩) rfl
    · rw [hp] at ht ⊢
      cases ht
      exact .ready (congrArg _ hb) hh ⟨hx.frame, hx.short, hx.read, hx.named⟩

theorem advance_sought {bytes : Bytes} (h : p.Seeking bytes) (outputs : Registry) :
    Sought p bytes (p.advance outputs).outcome (p.advance outputs).parser ∧
      (p.advance outputs).outputs = outputs := by
  rcases h with ⟨hs, rfl⟩ | ⟨hs, head, hh, rfl⟩
  · cases he : envelope p.buffered with
    | error e =>
      simp only [advance, hs, he, and_true]
      exact .refused
    | ok answer =>
      cases answer with
      | none =>
        simp only [advance, hs, he, and_true]
        exact .pending (.inl ⟨hs, rfl⟩) rfl
      | some size =>
        obtain ⟨head, rest, hb, hh, -⟩ := envelope_eq_some_iff.mp he
        rw [advance_envelope hs hb hh, hb]
        exact ⟨takeHeader_sought p hh rest, rfl⟩
  · rw [advance_header hs]
    have hp : { p with buffered := p.buffered, step := .header } = p := by rw [← hs]
    have ht := takeHeader_sought p hh p.buffered
    rw [hp] at ht
    exact ⟨ht, rfl⟩

theorem Collecting.not_overlong (h : p.Collecting) : ¬ p.Overlong := by
  rcases h with hs | ⟨n, hs⟩ <;> simp [Overlong, hs]

theorem Endless.overruns {limits : Limits} {head rest : Bytes} (hh : IsArrayHead 2 head)
    (h : Endless limits.maxHeaderBytes rest) (more : Bytes) :
    HeaderOverruns limits (head ++ (rest ++ more)) := by
  refine ⟨head, rest ++ more, rfl, hh, ?_, ?_⟩
  · have := h.2
    rw [List.length_append]
    omega
  · intro value tail hv hval
    apply Nat.lt_of_not_le
    intro hle
    have hsmall : value.length < UInt64.size :=
      Nat.lt_of_le_of_lt hle limits.maxHeaderBytes.toNat_lt
    have he := extent_eq_some_iff.mpr ⟨value, tail, hv, ⟨hval, hsmall⟩, rfl⟩
    have := extent_past h.1 he
    have := h.2
    omega

theorem Overlong.overruns {limits : Limits} {bytes : Bytes} (h : p.Overlong) (hs : p.Seeking bytes)
    (hl : p.maxHeaderBytes = limits.maxHeaderBytes) (more : Bytes) :
    HeaderOverruns limits (bytes ++ more) := by
  rcases hs with ⟨hs, rfl⟩ | ⟨hs, head, hh, rfl⟩
  · simp only [Overlong, hs] at h
    obtain ⟨head, rest, hb, hh, he⟩ := h
    rw [hb, List.append_assoc]
    exact (hl ▸ he).overruns hh more
  · simp only [Overlong, hs] at h
    rw [List.append_assoc]
    exact (hl ▸ h).overruns hh more

end SeismicStream.ResponseParser
