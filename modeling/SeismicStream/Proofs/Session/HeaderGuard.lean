import SeismicStream.Proofs.Parser.Accounts
import SeismicStream.Proofs.Parser.Refusals
import SeismicStream.Proofs.Session.Course

namespace SeismicStream

namespace ResponseParser
open Msgpack

variable {p q : ResponseParser} {bytes : Bytes}

/-- A parser that lacks bytes before the end of the header holds few. -/
theorem Short.length_le (h : p.Short) (hs : p.Seeking bytes) :
    p.buffered.length ≤ max p.maxHeaderBytes.toNat 4 := by
  rcases hs with ⟨hs, -⟩ | ⟨hs, -⟩
  · simp only [Short, hs] at h
    exact Nat.le_trans (length_le_of_arrayHead_none (envelope_none h)) (Nat.le_max_right _ 4)
  · simp only [Short, hs] at h
    exact Nat.le_trans h.2 (Nat.le_max_left _ 4)

theorem Sought.within {limits : Limits} (h : Sought p bytes (.ok .headerReady) q)
    (hl : p.maxHeaderBytes = limits.maxHeaderBytes) : HeaderWithin limits bytes := by
  cases h with
  | @ready head front rest wire operation split envelope opens =>
    exact ⟨head, front, rest, split, envelope, opens.frame.value, hl ▸ opens.short⟩

end ResponseParser

/-- What an error says about the header of the bytes that led to it. -/
structure DecodeError.Heeds (limits : Limits) (bytes : Bytes) (e : DecodeError) : Prop where
  within : e.pastHeader → HeaderWithin limits bytes
  oversized : ∀ limit atLeast, e = .malformedHeader (.oversized limit atLeast) →
    ∀ more, HeaderOverruns limits (bytes ++ more)

/-- A stage whose parser holds few bytes before the end of the header, and which is past the header
only if the header is short enough. -/
structure Stage.Heeds (limits : Limits) (bytes : Bytes) (stage : Stage) (p : ResponseParser) :
    Prop where
  stands : Session.Stands limits stage p bytes
  bounded : stage.state ≠ .awaitingPayload → p.buffered.length ≤ max limits.maxHeaderBytes.toNat 4
  within : stage.state = .awaitingPayload → HeaderWithin limits bytes

inductive Turn.Heeds (limits : Limits) (bytes : Bytes) : Turn → ResponseParser → Prop
  | waiting {stage : Stage} {p : ResponseParser} (heeds : stage.Heeds limits bytes p) :
      Heeds limits bytes (.waiting stage) p
  | complete {result : DecodeResult} {p : ResponseParser} (within : HeaderWithin limits bytes) :
      Heeds limits bytes (.complete result) p
  | failed {e : DecodeError} {p : ResponseParser} (heeds : e.Heeds limits bytes) :
      Heeds limits bytes (.failed e) p

inductive Phase.Heeds (limits : Limits) (bytes : Bytes) : Phase → ResponseParser → Prop
  | live {stage : Stage} {p : ResponseParser} (heeds : stage.Heeds limits bytes p) :
      Heeds limits bytes (.live stage) p
  | done {result : DecodeResult} {p : ResponseParser} (within : HeaderWithin limits bytes) :
      Heeds limits bytes (.done result) p
  | failed {e : DecodeError} {p : ResponseParser} (heeds : e.Heeds limits bytes) :
      Heeds limits bytes (.failed e) p

namespace Phase.Heeds

variable {limits : Limits} {bytes : Bytes} {p : ResponseParser}

theorem stage {stage : Stage} (h : Phase.Heeds limits bytes (.live stage) p) :
    stage.Heeds limits bytes p := by
  cases h with
  | live heeds => exact heeds

theorem within {phase : Phase} (h : phase.Heeds limits bytes p) (hp : phase.pastHeader) :
    HeaderWithin limits bytes := by
  cases h with
  | live heeds => exact heeds.within hp
  | done within => exact within
  | failed heeds => exact heeds.within hp

end Phase.Heeds

namespace Session
open ResponseParser

variable {limits : Limits} {bytes : Bytes} {p : ResponseParser} {e : DecodeError}

theorem heeds_of_refusal (h : HeaderRefusal limits bytes e) : e.Heeds limits bytes := by
  refine ⟨?_, h.oversized⟩
  obtain ⟨fault, rfl⟩ := h.malformed
  exact False.elim

theorem heeds_of_within (hw : HeaderWithin limits bytes) (h : ∀ fault, e ≠ .malformedHeader fault) :
    e.Heeds limits bytes :=
  ⟨fun _ => hw, fun _ _ he => absurd he (h _)⟩

theorem pour_heeds {header : Header} {outputs : Registry} (hw : HeaderWithin limits bytes)
    (hb : bytes ≠ []) (hc : p.Collecting) :
    (pour header outputs p).1.Heeds limits bytes (pour header outputs p).2 := by
  obtain ⟨hr, hn⟩ := advance_collecting hc outputs
  rw [pour_eq]
  cases ho : (p.advance outputs).outcome with
  | error e =>
    obtain ⟨fault, rfl⟩ := hc.refused ho
    exact .failed (heeds_of_within hw nofun)
  | ok progress =>
    cases progress with
    | needsMoreInput => exact .waiting ⟨.collecting hb (hn ho), (absurd rfl ·), fun _ => hw⟩
    | headerReady => exact absurd ho hr
    | finished => exact .complete hw

theorem bindOutputs_heeds {wire : WireHeader} (hp : p.header = some wire)
    (hw : HeaderWithin limits bytes) {q : ResponseParser}
    (h : bindOutputs limits p = (.error e, q)) : e.Heeds limits bytes := by
  rcases bindOutputs_error hp h with ⟨f, -, rfl⟩ | ⟨header, -, ha⟩
  · exact heeds_of_refusal (.header f)
  · rcases Registry.allocate_error ha with ⟨a, -, rfl⟩ | rfl
    · exact heeds_of_within hw nofun
    · exact heeds_of_within hw nofun

theorem seek_heeds (hs : p.Seeking bytes) (hb : bytes ≠ [])
    (hl : p.maxHeaderBytes = limits.maxHeaderBytes) :
    (seek limits p).1.Heeds limits bytes (seek limits p).2 := by
  obtain ⟨hx, -⟩ := advance_sought hs {}
  rw [seek_eq]
  cases ho : (p.advance {}).outcome with
  | error e => exact .failed (heeds_of_refusal (hs.refused hl ho))
  | ok progress =>
    have hshort := fun h => (advance_proceeds (ho.trans h)).short_of_needsMoreInput
    rw [ho] at hx
    generalize (p.advance {}).parser = q at hx hshort ⊢
    cases hx with
    | pending seeks limit =>
      have := (hshort rfl).length_le seeks
      rw [limit, hl] at this
      exact .waiting ⟨.seeking hb seeks (limit.trans hl), fun _ => this, nofun⟩
    | @ready head front rest wire operation split envelope opens =>
      have hin : HeaderWithin limits bytes := Sought.within (.ready split envelope opens) hl
      dsimp only
      split
      · rename_i hbind
        exact .failed (bindOutputs_heeds rfl hin hbind)
      · rename_i hbind
        exact pour_heeds hin hb (bindOutputs_collecting (.inl rfl) hbind)

theorem turn_heeds {stage : Stage} (h : Stands limits stage p bytes)
    (hw : stage.state = .awaitingPayload → HeaderWithin limits bytes) :
    (turn limits stage p).1.Heeds limits bytes (turn limits stage p).2 := by
  cases h with
  | idle => exact .waiting ⟨.idle, fun _ => Nat.zero_le _, nofun⟩
  | seeking woken seeks limit => exact seek_heeds seeks woken limit
  | collecting woken collects => exact pour_heeds (hw rfl) woken collects

theorem truncated_heeds {stage : Stage} (h : stage.Heeds limits bytes p) (received : Nat) :
    (DecodeError.truncated stage.state received).Heeds limits bytes :=
  ⟨h.within, nofun⟩

theorem state_of_wake {stage : Stage} {piece : Bytes}
    (h : (stage.wake piece).state = .awaitingPayload) : stage.state = .awaitingPayload := by
  cases stage with
  | idle => cases piece <;> cases h
  | awaitingHeader | awaitingPayload => exact h

theorem accept_heeds {s : Session ResponseParser} (hl : s.limits = limits)
    (h : s.phase.Heeds limits bytes s.parser) (input : Option Bytes) :
    (s.accept input).2.limits = limits ∧ (s.accept input).2.phase.Heeds limits
      (bytes ++ (if s.state.isTerminal then [] else input.toList).flatten)
      (s.accept input).2.parser := by
  subst hl
  rcases live_or_settled s with ⟨stage, hp⟩ | hs
  · rw [hp] at h
    have hheard : (if s.state.isTerminal then [] else input.toList).flatten = input.getD [] := by
      rw [isTerminal_of_live hp]
      cases input <;> simp
    have ht := turn_heeds (h.stage.stands.supply (input.getD []))
      fun hw => (h.stage.within (state_of_wake hw)).append _
    rw [hheard, accept_live hp, supply_eq]
    generalize turn s.limits (stage.wake (input.getD [])) (s.parser.supply (input.getD [])) = led
      at ht ⊢
    obtain ⟨turn, q⟩ := led
    cases ht with
    | waiting heeds =>
      cases input with
      | some piece => exact ⟨rfl, .live heeds⟩
      | none => exact ⟨rfl, .failed (truncated_heeds heeds _)⟩
    | complete within => exact ⟨rfl, .done within⟩
    | failed heeds => exact ⟨rfl, .failed heeds⟩
  · rw [settled_iff_isTerminal.mp hs, hs.accept]
    refine ⟨rfl, ?_⟩
    simpa using h

theorem after_heeds {s : Session ResponseParser} (hl : s.limits = limits)
    (h : s.phase.Heeds limits bytes s.parser) (inputs : List (Option Bytes)) :
    (s.after inputs).phase.Heeds limits (bytes ++ (s.heard inputs).flatten)
      (s.after inputs).parser := by
  induction inputs generalizing s bytes with
  | nil =>
    rw [heard, List.flatten_nil, List.append_nil]
    exact h
  | cons input rest ih =>
    obtain ⟨hl', hp⟩ := accept_heeds hl h input
    rw [after_cons, heard, List.flatten_append, ← List.append_assoc]
    exact ih hl' hp

theorem fresh_heeds (limits : Limits) :
    (fresh limits).phase.Heeds limits [] (fresh limits).parser :=
  .live ⟨.idle, fun _ => Nat.zero_le _, nofun⟩

/-- The limit on the header bounds what a session holds and stops no other stream, whatever the
session is fed. -/
theorem headerGuarded_after (limits : Limits) (inputs : List (Option Bytes)) :
    ((fresh limits).after inputs).HeaderGuarded limits ((fresh limits).heard inputs).flatten := by
  have h := @after_heeds limits [] (fresh limits) rfl (fresh_heeds limits) inputs
  rw [List.nil_append] at h
  generalize (fresh limits).after inputs = s, ((fresh limits).heard inputs).flatten = bytes at h ⊢
  constructor
  case within => exact h.within
  case bounded =>
    intro hs
    rw [state] at hs
    cases hp : s.phase with
    | live stage =>
      rw [hp] at h hs
      refine h.stage.bounded ?_
      intro hstate
      simp [hstate] at hs
    | done result | failed e => simp [hp] at hs
  case stops =>
    rintro head value rest rfl hh hv hlong hpast
    exact (HeaderOverruns.of_value hh hv hlong).not_within (h.within hpast)
  case spares =>
    intro more hin limit atLeast hp
    rw [hp] at h
    cases h with
    | failed heeds => exact (heeds.oversized limit atLeast rfl more).not_within hin

end Session

end SeismicStream
