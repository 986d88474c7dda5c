import SeismicStream.Proofs.Outputs
import SeismicStream.Proofs.Parser.Phases
import SeismicStream.Session.Runs

namespace SeismicStream.Session
open ResponseParser

theorem supply_eq (p : ResponseParser) (piece : Bytes) : supply p piece = p.supply piece := by
  cases piece with
  | nil => exact (supply_nil p).symm
  | cons b rest => rfl

theorem registerAll_eq (p : ResponseParser) (handles : List (String × Nat)) :
    registerAll p handles = { p with bindings := handles.reverse ++ p.bindings } := by
  unfold registerAll
  induction handles generalizing p with
  | nil => rfl
  | cons handle rest ih =>
    rw [List.foldl_cons, ih]
    simp [Parser.register, register]

theorem bindOutputs_header {limits : Limits} {p : ResponseParser} {wire : WireHeader}
    (h : p.header = some wire) : bindOutputs limits p =
      match Header.ofWire wire with
      | .error e => (.error (.malformedHeader (.header e)), p)
      | .ok header =>
        match Registry.allocate header limits with
        | .error e => (.error e, p)
        | .ok outputs => (.ok (header, outputs), p.bound outputs) := by
  have hr : Parser.readHeader p = (some wire, p) := by rw [← h]; rfl
  rw [bindOutputs, hr]
  dsimp only
  cases Header.ofWire wire with
  | error e => rfl
  | ok header =>
    dsimp only
    cases Registry.allocate header limits with
    | error e => rfl
    | ok outputs => exact congrArg _ (registerAll_eq p outputs.handles)

theorem bindOutputs_ok {limits : Limits} {p q : ResponseParser} {header : Header}
    {outputs : Registry} (h : bindOutputs limits p = (.ok (header, outputs), q)) :
    ∃ wire, p.header = some wire ∧ Header.ofWire wire = .ok header ∧
      Registry.allocate header limits = .ok outputs ∧ q = p.bound outputs := by
  cases hw : p.header with
  | none =>
    have hr : Parser.readHeader p = (none, p) := by rw [← hw]; rfl
    simp [bindOutputs, hr] at h
  | some wire =>
    rw [bindOutputs_header hw] at h
    cases hh : Header.ofWire wire with
    | error e => simp [hh] at h
    | ok header' =>
      cases ho : Registry.allocate header' limits with
      | error e => simp [hh, ho] at h
      | ok outputs' =>
        simp only [hh, ho, Prod.mk.injEq, Except.ok.injEq] at h
        obtain ⟨⟨rfl, rfl⟩, rfl⟩ := h
        exact ⟨wire, rfl, hh, ho, rfl⟩

/-- Outputs are not bound if the header does not pass, or if they cannot be allocated. -/
theorem bindOutputs_error {limits : Limits} {p q : ResponseParser} {wire : WireHeader}
    {e : DecodeError} (hw : p.header = some wire) (h : bindOutputs limits p = (.error e, q)) :
    (∃ f, Header.ofWire wire = .error f ∧ e = .malformedHeader (.header f)) ∨
      ∃ header, Header.ofWire wire = .ok header ∧ Registry.allocate header limits = .error e := by
  rw [bindOutputs_header hw] at h
  cases hh : Header.ofWire wire with
  | error f =>
    simp only [hh, Prod.mk.injEq, Except.error.injEq] at h
    exact .inl ⟨f, rfl, h.1.symm⟩
  | ok header =>
    cases ho : Registry.allocate header limits with
    | error e' =>
      simp only [hh, ho, Prod.mk.injEq, Except.error.injEq] at h
      exact .inr ⟨header, rfl, h.1 ▸ ho⟩
    | ok outputs => simp [hh, ho] at h

theorem bindOutputs_supply (limits : Limits) (p : ResponseParser) (more : Bytes) :
    bindOutputs limits (p.supply more) =
      ((bindOutputs limits p).1, (bindOutputs limits p).2.supply more) := by
  cases h : p.header with
  | none =>
    have hr : Parser.readHeader p = (none, p) := by rw [← h]; rfl
    have hm : Parser.readHeader (p.supply more) = (none, p.supply more) := by rw [← h]; rfl
    simp only [bindOutputs, hr, hm]
  | some wire =>
    rw [bindOutputs_header h, bindOutputs_header (p := p.supply more) h]
    cases Header.ofWire wire with
    | error e => rfl
    | ok header =>
      dsimp only
      cases Registry.allocate header limits <;> rfl

theorem bindOutputs_collecting {limits : Limits} {p q : ResponseParser} {header : Header}
    {outputs : Registry} (hc : p.Collecting)
    (h : bindOutputs limits p = (.ok (header, outputs), q)) : q.Collecting := by
  obtain ⟨_, -, -, -, rfl⟩ := bindOutputs_ok h
  exact hc

section pour

variable {header : Header} {outputs : Registry} {p : ResponseParser}

theorem pour_eq (header : Header) (outputs : Registry) (p : ResponseParser) :
    pour header outputs p =
      match (p.advance outputs).outcome with
      | .error e => (.failed e, (p.advance outputs).parser)
      | .ok .finished =>
        (.complete ⟨header, (p.advance outputs).outputs.buffers⟩,
          (p.advance outputs).parser.release)
      | .ok _ =>
        (.waiting (.awaitingPayload header (p.advance outputs).outputs),
          (p.advance outputs).parser) := by
  have ha : Parser.advance p outputs = p.advance outputs := rfl
  unfold pour
  rw [ha]
  obtain ⟨outcome, q, outputs'⟩ := p.advance outputs
  cases outcome with
  | error e => rfl
  | ok progress => cases progress <;> rfl

theorem pour_waiting {q : ResponseParser} {stage : Stage} (hc : p.Collecting)
    (h : pour header outputs p = (.waiting stage, q)) :
    ∃ outputs', stage = .awaitingPayload header outputs' ∧ q.Collecting ∧
      ∀ more, pour header outputs (p.supply more) = pour header outputs' (q.supply more) := by
  obtain ⟨hr, hn⟩ := advance_collecting hc outputs
  rw [pour_eq] at h
  split at h
  · cases h
  · cases h
  · rename_i progress hf ho
    cases progress with
    | headerReady => exact absurd ho hr
    | finished => exact absurd rfl hf
    | needsMoreInput =>
      obtain ⟨rfl, rfl⟩ : _ = stage ∧ _ = q := by simpa using h
      refine ⟨_, rfl, hn ho, ?_⟩
      intro more
      rw [pour_eq, pour_eq, (advance_continues hc.not_overlong outputs more).resumed ho]

theorem pour_settled (hc : p.Collecting) (h : ∀ stage, (pour header outputs p).1 ≠ .waiting stage)
    (more : Bytes) : (pour header outputs (p.supply more)).1 = (pour header outputs p).1 := by
  have ho : (p.advance outputs).outcome ≠ .ok .needsMoreInput := by
    intro ho
    rw [pour_eq, ho] at h
    exact h _ rfl
  rw [pour_eq, pour_eq, (advance_continues hc.not_overlong outputs more).settled ho]
  dsimp only
  split <;> rfl

end pour

section seek

variable {limits : Limits} {p : ResponseParser}

theorem seek_eq (limits : Limits) (p : ResponseParser) :
    seek limits p =
      match (p.advance {}).outcome with
      | .error e => (.failed e, (p.advance {}).parser)
      | .ok .needsMoreInput => (.waiting .awaitingHeader, (p.advance {}).parser)
      | .ok .finished =>
        (.failed (.malformedHeader (.finished .awaitingHeader)), (p.advance {}).parser)
      | .ok .headerReady =>
        match bindOutputs limits (p.advance {}).parser with
        | (.error e, q) => (.failed e, q)
        | (.ok (header, outputs), q) => pour header outputs q := by
  have ha : Parser.advance p {} = p.advance {} := rfl
  unfold seek
  rw [ha]
  obtain ⟨outcome, q, outputs'⟩ := p.advance {}
  cases outcome with
  | error e => rfl
  | ok progress =>
    cases progress with
    | needsMoreInput | finished => rfl
    | headerReady =>
      dsimp only
      rcases bindOutputs limits q with ⟨_ | ⟨_, _⟩, _⟩ <;> rfl

/-- Where the header is ready, the turn goes on with the payload. -/
theorem seek_ready (ho : (p.advance {}).outcome = .ok .headerReady) (more : Bytes) :
    seek limits (p.supply more) =
      match bindOutputs limits (p.advance {}).parser with
      | (.error e, q) => (.failed e, q.supply more)
      | (.ok (header, outputs), q) => pour header outputs (q.supply more) := by
  have hn : (p.advance {}).outcome ≠ .ok .needsMoreInput := by
    rw [ho]
    nofun
  rw [seek_eq, (advance_continues (not_overlong_of_ok ho) {} more).settled hn]
  simp only [ho, bindOutputs_supply]
  rcases bindOutputs limits (p.advance {}).parser with ⟨_ | ⟨_, _⟩, _⟩ <;> rfl

theorem seek_waiting {bytes : Bytes} {q : ResponseParser} {stage : Stage} (hs : p.Seeking bytes)
    (h : seek limits p = (.waiting stage, q)) :
    (stage = .awaitingHeader ∧ q.Seeking bytes ∧ q.maxHeaderBytes = p.maxHeaderBytes ∨
      ∃ header outputs, stage = .awaitingPayload header outputs ∧ q.Collecting) ∧
      ∀ more, seek limits (p.supply more) = turn limits stage (q.supply more) := by
  obtain ⟨hx, hout⟩ := advance_sought hs {}
  rw [seek_eq] at h
  split at h
  · cases h
  · rename_i ho
    obtain ⟨rfl, rfl⟩ : Stage.awaitingHeader = stage ∧ _ = q := by simpa using h
    rw [ho] at hx
    cases hx with
    | pending seeks limit =>
      refine ⟨.inl ⟨rfl, seeks, limit⟩, ?_⟩
      intro more
      have ha := (advance_continues (not_overlong_of_ok ho) {} more).resumed ho
      rw [hout] at ha
      rw [seek_eq, ha]
      exact (seek_eq limits _).symm
  · cases h
  · rename_i ho
    split at h
    · cases h
    · rename_i header outputs r hb
      rw [ho] at hx
      obtain ⟨outputs', rfl, hq, hm⟩ := pour_waiting (bindOutputs_collecting hx.collecting hb) h
      refine ⟨.inr ⟨header, outputs', rfl, hq⟩, ?_⟩
      intro more
      rw [seek_ready ho, hb]
      exact hm more

theorem seek_settled {bytes : Bytes} (hs : p.Seeking bytes) (hl : ¬ p.Overlong)
    (h : ∀ stage, (seek limits p).1 ≠ .waiting stage) (more : Bytes) :
    (seek limits (p.supply more)).1 = (seek limits p).1 := by
  obtain ⟨hx, -⟩ := advance_sought hs {}
  have hm := advance_continues hl {} more
  cases ho : (p.advance {}).outcome with
  | error e => rw [seek_eq, seek_eq, hm.settled (by rw [ho]; nofun), ho]
  | ok progress =>
    cases progress with
    | needsMoreInput =>
      rw [seek_eq, ho] at h
      exact absurd rfl (h _)
    | finished => rw [seek_eq, seek_eq, hm.settled (by rw [ho]; nofun), ho]
    | headerReady =>
      rw [ho] at hx
      rw [seek_eq, ho] at h
      rw [seek_ready ho, seek_eq, ho]
      dsimp only at h ⊢
      cases hb : bindOutputs limits (p.advance {}).parser with
      | mk answer r =>
        cases answer with
        | error e => rfl
        | ok bound =>
          rw [hb] at h
          exact pour_settled (bindOutputs_collecting hx.collecting hb) h more

theorem seek_overlong (hl : p.Overlong) (more : Bytes) :
    ∃ fault, (seek limits (p.supply more)).1 = .failed (.malformedHeader fault) := by
  obtain ⟨fault, hf⟩ := advance_overlong hl more {}
  exact ⟨fault, by rw [seek_eq, hf]⟩

end seek

/-- The stage and the parser of a session that can go on, and the bytes it was given. -/
inductive Stands (limits : Limits) : Stage → ResponseParser → Bytes → Prop
  | idle : Stands limits .idle (.ofLimits limits) []
  | seeking {p : ResponseParser} {bytes : Bytes} (woken : bytes ≠ []) (seeks : p.Seeking bytes)
      (limit : p.maxHeaderBytes = limits.maxHeaderBytes) : Stands limits .awaitingHeader p bytes
  | collecting {header : Header} {outputs : Registry} {p : ResponseParser} {bytes : Bytes}
      (woken : bytes ≠ []) (collects : p.Collecting) :
      Stands limits (.awaitingPayload header outputs) p bytes

theorem wake_append (stage : Stage) (piece more : Bytes) :
    stage.wake (piece ++ more) = (stage.wake piece).wake more := by
  cases stage with
  | idle => cases piece <;> rfl
  | awaitingHeader | awaitingPayload => rfl

theorem Stands.of_nil {stage : Stage} {p : ResponseParser} {limits : Limits}
    (h : Stands limits stage p []) : stage = .idle ∧ p = .ofLimits limits := by
  cases h with
  | idle => exact ⟨rfl, rfl⟩
  | seeking woken | collecting woken => exact absurd rfl woken

theorem Stands.wake {stage : Stage} {p : ResponseParser} {limits : Limits} {bytes : Bytes}
    (h : Stands limits stage p bytes) (hb : bytes ≠ []) (piece : Bytes) :
    stage.wake piece = stage := by
  cases h with
  | idle => exact absurd rfl hb
  | seeking | collecting => rfl

theorem Stands.supply {limits : Limits} {stage : Stage} {p : ResponseParser} {bytes : Bytes}
    (h : Stands limits stage p bytes) (piece : Bytes) :
    Stands limits (stage.wake piece) (p.supply piece) (bytes ++ piece) := by
  cases h with
  | idle =>
    cases piece with
    | nil => exact supply_nil (.ofLimits limits) ▸ .idle
    | cons b rest => exact .seeking nofun (.inl ⟨rfl, rfl⟩) rfl
  | seeking woken seeks limit => exact .seeking (by simp [woken]) (seeks.supply piece) limit
  | collecting woken collects => exact .collecting (by simp [woken]) collects

/-- A turn that waits takes the bytes to come as if they had come at once. -/
theorem turn_waiting {limits : Limits} {stage stage' : Stage} {p q : ResponseParser} {bytes : Bytes}
    (hs : Stands limits stage p bytes) (h : turn limits stage p = (.waiting stage', q)) :
    Stands limits stage' q bytes ∧
      ∀ more, turn limits stage (p.supply more) = turn limits stage' (q.supply more) := by
  cases hs with
  | idle =>
    cases h
    exact ⟨.idle, fun _ => rfl⟩
  | seeking woken seeks limit =>
    obtain ⟨ht, hm⟩ := seek_waiting seeks h
    refine ⟨?_, hm⟩
    rcases ht with ⟨rfl, hq, hl⟩ | ⟨header, outputs, rfl, hq⟩
    · exact .seeking woken hq (hl.trans limit)
    · exact .collecting woken hq
  | collecting woken collects =>
    obtain ⟨outputs', rfl, hq, hm⟩ := pour_waiting collects h
    exact ⟨.collecting woken hq, hm⟩

/-- A turn that settles a session settles it with any bytes that come, unless the header is too
long. Then it is refused in either case, but maybe in other words. -/
theorem turn_settled {limits : Limits} {stage : Stage} {p : ResponseParser} {bytes : Bytes}
    (hs : Stands limits stage p bytes) (h : ∀ stage', (turn limits stage p).1 ≠ .waiting stage')
    (more : Bytes) :
    (turn limits stage (p.supply more)).1 = (turn limits stage p).1 ∨
      HeaderOverruns limits (bytes ++ more) ∧ ∃ fault fault',
        (turn limits stage p).1 = .failed (.malformedHeader fault) ∧
        (turn limits stage (p.supply more)).1 = .failed (.malformedHeader fault') := by
  cases hs with
  | idle => exact absurd rfl (h .idle)
  | collecting woken collects => exact .inl (pour_settled collects h more)
  | seeking woken seeks limit =>
    -- More bytes may show how long the header is, or that it is malformed.
    by_cases hl : p.Overlong
    · obtain ⟨fault, hf⟩ := seek_overlong hl []
      obtain ⟨fault', hf'⟩ := seek_overlong hl more
      rw [supply_nil] at hf
      exact .inr ⟨hl.overruns seeks limit more, fault, fault', hf, hf'⟩
    · exact .inl (seek_settled seeks hl h more)

end SeismicStream.Session
