import SeismicStream.Proofs.Session.Course
import SeismicStream.Session.Protocol

namespace SeismicStream

def Turn.isComplete : Turn → Bool
  | .complete _ => true
  | .waiting _ => false
  | .failed _ => false

namespace Session
open Guarded

variable {σ : Type} [Parser σ]

/-- A session with its parser under guard. The guard knows whether the session is settled. -/
def guarded (s : Session σ) : Session (Guarded σ) where
  limits := s.limits
  parser := ⟨s.parser, s.state.isTerminal⟩
  phase := s.phase
  received := s.received

theorem registerAll_guarded (p : σ) (handles : List (String × Nat)) :
    registerAll (hold p) handles = hold (registerAll p handles) := by
  unfold registerAll
  induction handles generalizing p with
  | nil => rfl
  | cons handle rest ih => exact ih (Parser.register p handle.1 handle.2)

theorem bindOutputs_guarded (limits : Limits) (p : σ) :
    bindOutputs limits (hold p) = ((bindOutputs limits p).1, hold (bindOutputs limits p).2) := by
  have hr : Parser.readHeader (hold p) =
      ((Parser.readHeader p).1, hold (Parser.readHeader p).2) := rfl
  unfold bindOutputs
  rw [hr]
  obtain ⟨given, q⟩ := Parser.readHeader p
  cases given with
  | none => rfl
  | some wire =>
    dsimp only
    cases Header.ofWire wire with
    | error e => rfl
    | ok header =>
      dsimp only
      cases Registry.allocate header limits with
      | error e => rfl
      | ok outputs => simp only [registerAll_guarded]

theorem advance_guarded (p : σ) (outputs : Registry) : Parser.advance (hold p) outputs =
    ⟨(Parser.advance p outputs).outcome, hold (Parser.advance p outputs).parser,
      (Parser.advance p outputs).outputs⟩ :=
  rfl

theorem pour_guarded (header : Header) (outputs : Registry) (p : σ) :
    pour header outputs (hold p) = ((pour header outputs p).1,
      ⟨(pour header outputs p).2, (pour header outputs p).1.isComplete⟩) := by
  unfold pour
  rw [advance_guarded]
  obtain ⟨outcome, q, left⟩ := Parser.advance p outputs
  cases outcome with
  | error e => rfl
  | ok progress => cases progress <;> rfl

theorem seek_guarded (limits : Limits) (p : σ) :
    seek limits (hold p) =
      ((seek limits p).1, ⟨(seek limits p).2, (seek limits p).1.isComplete⟩) := by
  unfold seek
  rw [advance_guarded]
  obtain ⟨outcome, q, left⟩ := Parser.advance p {}
  cases outcome with
  | error e => rfl
  | ok progress =>
    cases progress with
    | needsMoreInput | finished => rfl
    | headerReady =>
      simp only [bindOutputs_guarded]
      obtain ⟨given, r⟩ := bindOutputs limits q
      cases given with
      | error e => rfl
      | ok bound => exact pour_guarded bound.1 bound.2 r

/-- A guard does not change a turn, and notes when the turn released the parser. -/
theorem turn_guarded (limits : Limits) (stage : Stage) (p : σ) :
    turn limits stage (hold p) =
      ((turn limits stage p).1, ⟨(turn limits stage p).2, (turn limits stage p).1.isComplete⟩) := by
  cases stage with
  | idle => rfl
  | awaitingHeader => exact seek_guarded limits p
  | awaitingPayload header outputs => exact pour_guarded header outputs p

theorem supply_guarded (p : σ) (piece : Bytes) : supply (hold p) piece = hold (supply p piece) := by
  cases piece <;> rfl

omit [Parser σ] in
theorem guarded_parser_of_live {s : Session σ} {stage : Stage} (h : s.phase = .live stage) :
    s.guarded.parser = hold s.parser := by
  rw [guarded, isTerminal_of_live h]
  rfl

/-- A guard does not change what a session does. -/
theorem accept_guarded (s : Session σ) (input : Option Bytes) :
    s.guarded.accept input = ((s.accept input).1, (s.accept input).2.guarded) := by
  rcases live_or_settled s with ⟨stage, h⟩ | hs
  · have hg : s.guarded.phase = .live stage := h
    have ht := turn_guarded s.limits (stage.wake (input.getD [])) (supply s.parser (input.getD []))
    have hl : s.guarded.limits = s.limits := rfl
    rw [accept_live h, accept_live hg, guarded_parser_of_live h, supply_guarded, hl, ht]
    obtain ⟨way, q⟩ := turn s.limits (stage.wake (input.getD [])) (supply s.parser (input.getD []))
    cases way with
    | waiting next =>
      cases input with
      | none => rfl
      | some piece => cases next <;> rfl
    | complete result | failed e => rfl
  · have hg : s.guarded.Settled := hs
    rw [hs.accept, hg.accept]
    rfl

theorem after_guarded (s : Session σ) (inputs : List (Option Bytes)) :
    s.guarded.after inputs = (s.after inputs).guarded := by
  induction inputs generalizing s with
  | nil => rfl
  | cons input rest ih => rw [after_cons, after_cons, accept_guarded, ih]

theorem dispose_of_live {s : Session σ} {stage : Stage} (h : s.phase = .live stage) :
    s.dispose = Parser.release s.parser := by
  rw [dispose, h]

theorem Settled.dispose {s : Session σ} (h : s.Settled) : s.dispose = s.parser := by
  unfold Session.dispose
  split
  · rename_i stage hp
    exact absurd hp (h stage)
  · rfl

/-- However a session ends, and wherever it stands then, the releases that reach its parser are
those of a session that is given up without a guard. -/
theorem discard_guarded (s : Session σ) (ending : Ending) : s.guarded.discard ending = s.dispose := by
  rcases live_or_settled s with ⟨stage, h⟩ | hs
  · have hg : s.guarded.phase = .live stage := h
    rw [dispose_of_live h]
    cases ending with
    | dispose => rw [discard, dispose_of_live hg, guarded_parser_of_live h]; rfl
    | drop => rw [discard, guarded_parser_of_live h]; rfl
  · have hg : s.guarded.Settled := hs
    have hp : s.guarded.parser = ⟨s.parser, true⟩ := by
      rw [guarded, settled_iff_isTerminal.mp hs]
    rw [hs.dispose]
    cases ending with
    | dispose => rw [discard, hg.dispose, hp]; rfl
    | drop => rw [discard, hp]; rfl

end Session

end SeismicStream
