import SeismicStream.Proofs.Parser.Serving
import SeismicStream.Proofs.Session.Course

namespace SeismicStream

/-- A stage, and a parser in step with it. Before the header the parser has none, and nothing is
bound. After it the parser serves the outputs of the session. -/
def Stage.InStep : Stage → ResponseParser → Prop
  | .idle, p => p.Bare
  | .awaitingHeader, p => p.Bare
  | .awaitingPayload header outputs, p => p.Collecting ∧ p.Serves header outputs

theorem Stage.InStep.supply {stage : Stage} {p : ResponseParser} (h : stage.InStep p)
    (piece : Bytes) : (stage.wake piece).InStep (p.supply piece) := by
  have hb (h : p.Bare) : (p.supply piece).Bare := ⟨h.step, h.header, h.operation, h.bindings⟩
  cases stage with
  | idle => cases piece <;> exact hb h
  | awaitingHeader => exact hb h
  | awaitingPayload header outputs =>
    obtain ⟨hc, hs⟩ := h
    exact ⟨hc, hs.announced, hs.operation, hs.bindings, hs.layout⟩

/-- Where a turn leads, the parser is in step or the error is ordinary. -/
inductive Turn.Sound : Turn → ResponseParser → Prop
  | waiting {stage : Stage} {p : ResponseParser} (inStep : stage.InStep p) :
      Sound (.waiting stage) p
  | complete {result : DecodeResult} {p : ResponseParser} : Sound (.complete result) p
  | failed {e : DecodeError} {p : ResponseParser} (ordinary : e.Ordinary) : Sound (.failed e) p

/-- As long as a session can go on its parser is in step, and when it fails the error is
ordinary. -/
inductive Phase.Sound : Phase → ResponseParser → Prop
  | live {stage : Stage} {p : ResponseParser} (inStep : stage.InStep p) : Sound (.live stage) p
  | done {result : DecodeResult} {p : ResponseParser} : Sound (.done result) p
  | failed {e : DecodeError} {p : ResponseParser} (ordinary : e.Ordinary) : Sound (.failed e) p

namespace Session
open ResponseParser

variable {limits : Limits} {header : Header} {outputs : Registry} {p : ResponseParser}

theorem bindOutputs_ordinary {wire : WireHeader} (hw : p.header = some wire) {e : DecodeError}
    {q : ResponseParser} (h : bindOutputs limits p = (.error e, q)) : e.Ordinary := by
  rcases bindOutputs_error hw h with ⟨f, -, rfl⟩ | ⟨header, -, ha⟩
  · trivial
  · rcases Registry.allocate_error ha with ⟨a, -, rfl⟩ | rfl
    · trivial
    · trivial

theorem pour_sound (hc : p.Collecting) (h : p.Serves header outputs) :
    (pour header outputs p).1.Sound (pour header outputs p).2 := by
  have hk := h.advance hc
  obtain ⟨hr, hn⟩ := advance_collecting hc outputs
  rw [pour_eq]
  cases ho : (p.advance outputs).outcome with
  | error e => exact .failed (hk.faults e ho)
  | ok progress =>
    cases progress with
    | needsMoreInput => exact .waiting ⟨hn ho, hk.serves⟩
    | headerReady => exact absurd ho hr
    | finished => exact .complete

theorem seek_sound (h : p.Bare) : (seek limits p).1.Sound (seek limits p).2 := by
  rw [seek_eq]
  cases ho : (p.advance {}).outcome with
  | error e => exact .failed (h.ordinary ho)
  | ok progress =>
    have hp := h.opening (advance_proceeds ho)
    generalize (p.advance {}).parser = q at hp ⊢
    cases hp with
    | pending bare => exact .waiting bare
    | @ready wire operation rest named =>
      dsimp only
      split
      · rename_i hb
        exact .failed (bindOutputs_ordinary rfl hb)
      · rename_i hb
        obtain ⟨wire', hw, hh, ho, rfl⟩ := bindOutputs_ok hb
        obtain rfl : wire = wire' := Option.some.inj hw
        exact pour_sound (.inl rfl) (serves_bound hw named.symm h.bindings hh ho)

theorem turn_sound {stage : Stage} (h : stage.InStep p) :
    (turn limits stage p).1.Sound (turn limits stage p).2 := by
  cases stage with
  | idle => exact .waiting h
  | awaitingHeader => exact seek_sound h
  | awaitingPayload header outputs => exact pour_sound h.1 h.2

theorem fresh_sound (limits : Limits) : (fresh limits).phase.Sound (fresh limits).parser :=
  .live ⟨.inl rfl, rfl, rfl, rfl⟩

theorem accept_sound {s : Session ResponseParser} (h : s.phase.Sound s.parser)
    (input : Option Bytes) : (s.accept input).2.phase.Sound (s.accept input).2.parser := by
  rcases live_or_settled s with ⟨stage, hl⟩ | hs
  · rw [hl] at h
    cases h with
    | live inStep =>
      have ht := @turn_sound s.limits _ _ (inStep.supply (input.getD []))
      rw [accept_live hl, supply_eq]
      generalize turn s.limits (stage.wake (input.getD [])) (s.parser.supply (input.getD [])) = led
        at ht ⊢
      obtain ⟨turn, q⟩ := led
      cases ht with
      | waiting inStep =>
        cases input with
        | some piece => exact .live inStep
        | none => exact .failed trivial
      | complete => exact .done
      | failed ordinary => exact .failed ordinary
  · rw [hs.accept]
    exact h

theorem after_sound {s : Session ResponseParser} (h : s.phase.Sound s.parser)
    (inputs : List (Option Bytes)) : (s.after inputs).phase.Sound (s.after inputs).parser := by
  induction inputs generalizing s with
  | nil => exact h
  | cons input rest ih => exact ih (accept_sound h input)

/-- Whatever a session is fed, it never fails with a defensive error, and as long as it is pending
its parser is in step with it. -/
theorem accept_inStep (limits : Limits) (inputs : List (Option Bytes)) (input : Option Bytes) :
    let fed := ((fresh limits).after inputs).accept input
    (∀ e, fed.1 = .error e → ¬ e.Defensive) ∧
      (fed.1 = .ok .pending →
        ∃ stage, fed.2.phase = .live stage ∧ stage.InStep fed.2.parser) := by
  intro fed
  have hs : fed.2.phase.Sound fed.2.parser := accept_sound (after_sound (fresh_sound limits) _) _
  have ha : fed.1 = answer fed.2.phase := accept_fst _ input
  rw [ha]
  generalize fed.2.phase = phase, fed.2.parser = p at hs
  cases hs with
  | live inStep => exact ⟨nofun, fun _ => ⟨_, rfl, inStep⟩⟩
  | done => exact ⟨nofun, nofun⟩
  | failed ordinary =>
    refine ⟨?_, nofun⟩
    intro e he
    cases he
    exact ordinary.not_defensive

end Session

end SeismicStream
