import SeismicStream.Proofs.Parser.Bundles
import SeismicStream.Proofs.Session.Guard

namespace SeismicStream

/-- How a session stands with its parser in a stage. -/
def Stage.footing : Stage → Footing
  | .idle => .unfed
  | .awaitingHeader => .fed
  | .awaitingPayload _ outputs => .bound outputs

def Turn.next? : Turn → Option Footing
  | .waiting stage => some stage.footing
  | .complete _ => none
  | .failed _ => none

/-- The turn that completes a session releases the parser. -/
def Turn.releases : Turn → List Event
  | .complete _ => [.release]
  | .waiting _ => []
  | .failed _ => []

theorem Registry.handles_allocate {header : Header} {limits : Limits} {outputs : Registry}
    (h : Registry.allocate header limits = .ok outputs) : outputs.handles = header.names.zipIdx := by
  rw [Registry.handles_eq, Registry.names_allocate h]

theorem Footing.wake_nil (footing : Footing) : footing.wake [] = footing := by
  cases footing <;> rfl

namespace Session

variable {σ : Type} [Parser σ]

theorem events_registerAll (t : Traced σ) (handles : List (String × Nat)) :
    (registerAll t handles).events =
      t.events ++ handles.map fun (name, slot) => .register name slot := by
  unfold registerAll
  induction handles generalizing t with
  | nil => exact (List.append_nil _).symm
  | cons handle rest ih =>
    have hr : (Parser.register t handle.1 handle.2).events =
        t.events ++ [.register handle.1 handle.2] := rfl
    rw [List.foldl_cons, ih, hr, List.append_assoc]
    rfl

/-- What is asked of a parser for the header and its outputs, and what comes of it. -/
inductive Reading (limits : Limits) : List Event → Except DecodeError (Header × Registry) → Prop
  | unreadable : Reading limits [.readHeader none] (.error (.malformedHeader .unreadable))
  | unchecked {wire : WireHeader} {e : HeaderError} (failed : Header.ofWire wire = .error e) :
      Reading limits [.readHeader (some wire)] (.error (.malformedHeader (.header e)))
  | unallocated {wire : WireHeader} {header : Header} {e : DecodeError}
      (passed : Header.ofWire wire = .ok header)
      (failed : Registry.allocate header limits = .error e) :
      Reading limits [.readHeader (some wire)] (.error e)
  | bound {wire : WireHeader} {header : Header} {outputs : Registry}
      (passed : Header.ofWire wire = .ok header)
      (allocated : Registry.allocate header limits = .ok outputs) :
      Reading limits (.readHeader (some wire) :: registers header) (.ok (header, outputs))

theorem Reading.binding {limits : Limits} {events : List Event}
    {result : Except DecodeError (Header × Registry)} (h : Reading limits events result) :
    Binding limits events (result.toOption.map Prod.snd) := by
  cases h with
  | unreadable => exact .unreadable
  | unchecked failed => exact .unchecked failed
  | unallocated passed failed => exact .unallocated passed failed
  | bound passed allocated => exact .bound passed allocated

theorem reading_bindOutputs (limits : Limits) (t : Traced σ) :
    ∃ events, (bindOutputs limits t).2.events = t.events ++ events ∧
      Reading limits events (bindOutputs limits t).1 := by
  have hr : Parser.readHeader t = ((Parser.readHeader t.parser).1,
      t.note (.readHeader (Parser.readHeader t.parser).1) (Parser.readHeader t.parser).2) := rfl
  unfold bindOutputs
  rw [hr]
  obtain ⟨given, q⟩ := Parser.readHeader t.parser
  cases given with
  | none => exact ⟨_, rfl, .unreadable⟩
  | some wire =>
    dsimp only
    cases hw : Header.ofWire wire with
    | error e => exact ⟨_, rfl, .unchecked hw⟩
    | ok header =>
      dsimp only
      cases ha : Registry.allocate header limits with
      | error e => exact ⟨_, rfl, .unallocated hw ha⟩
      | ok outputs =>
        refine ⟨_, ?_, .bound hw ha⟩
        dsimp only
        rw [events_registerAll, Registry.handles_allocate ha]
        exact List.append_assoc _ _ _

/-- Binding the outputs asks the parser for what the protocol says. -/
theorem events_bindOutputs (limits : Limits) (t : Traced σ) :
    ∃ events, (bindOutputs limits t).2.events = t.events ++ events ∧
      Binding limits events ((bindOutputs limits t).1.toOption.map Prod.snd) := by
  obtain ⟨events, he, hr⟩ := reading_bindOutputs limits t
  exact ⟨events, he, hr.binding⟩

theorem advance_traced (t : Traced σ) (outputs : Registry) : Parser.advance t outputs =
    ⟨(Parser.advance t.parser outputs).outcome,
      t.note (.advance outputs (Parser.advance t.parser outputs).outcome
        (Parser.advance t.parser outputs).outputs) (Parser.advance t.parser outputs).parser,
      (Parser.advance t.parser outputs).outputs⟩ :=
  rfl

theorem events_pour (header : Header) (outputs : Registry) (t : Traced σ) :
    ∃ outcome after, (pour header outputs t).2.events =
        t.events ++ [.advance outputs outcome after] ++ (pour header outputs t).1.releases ∧
      (pour header outputs t).1.next? = Footing.next? outcome after := by
  unfold pour
  rw [advance_traced]
  obtain ⟨outcome, q, left⟩ := Parser.advance t.parser outputs
  refine ⟨outcome, left, ?_⟩
  cases outcome with
  | error e => exact ⟨(List.append_nil _).symm, rfl⟩
  | ok progress =>
    cases progress with
    | finished => exact ⟨rfl, rfl⟩
    | needsMoreInput | headerReady => exact ⟨(List.append_nil _).symm, rfl⟩

theorem events_seek (limits : Limits) (t : Traced σ) :
    ∃ events, (seek limits t).2.events = t.events ++ events ++ (seek limits t).1.releases ∧
      Asks limits .fed events (seek limits t).1.next? := by
  unfold seek
  rw [advance_traced]
  obtain ⟨outcome, q, left⟩ := Parser.advance t.parser {}
  cases outcome with
  | error e => exact ⟨_, (List.append_nil _).symm, .failed⟩
  | ok progress =>
    cases progress with
    | needsMoreInput => exact ⟨_, (List.append_nil _).symm, .short⟩
    | finished => exact ⟨_, (List.append_nil _).symm, .early⟩
    | headerReady =>
      dsimp only
      obtain ⟨events, he, hb⟩ :=
        events_bindOutputs limits (t.note (.advance {} (.ok .headerReady) left) q)
      have ht : (t.note (.advance {} (.ok .headerReady) left) q).events =
          t.events ++ [.advance {} (.ok .headerReady) left] := rfl
      rw [ht, List.append_assoc] at he
      generalize bindOutputs limits (t.note (.advance {} (.ok .headerReady) left) q) = x at he hb ⊢
      obtain ⟨bound, r⟩ := x
      cases bound with
      | error e => exact ⟨_, he.trans (List.append_nil _).symm, .unbound hb⟩
      | ok bound =>
        obtain ⟨header, outputs⟩ := bound
        obtain ⟨outcome, after, hp, hn⟩ := events_pour header outputs r
        dsimp only at he ⊢
        rw [hn, hp, he]
        refine ⟨.advance {} (.ok .headerReady) left :: events ++ [.advance outputs outcome after],
          ?_, .opened hb⟩
        simp only [List.append_assoc, List.cons_append, List.nil_append]

theorem events_turn (limits : Limits) (stage : Stage) (t : Traced σ) :
    ∃ events, (turn limits stage t).2.events =
        t.events ++ events ++ (turn limits stage t).1.releases ∧
      Asks limits stage.footing events (turn limits stage t).1.next? := by
  cases stage with
  | idle => exact ⟨[], by simp [turn, Turn.releases], .nothing⟩
  | awaitingHeader => exact events_seek limits t
  | awaitingPayload header outputs =>
    obtain ⟨outcome, after, hp, hn⟩ := events_pour header outputs t
    exact ⟨_, hp, hn ▸ .poured⟩

theorem events_supply (t : Traced σ) (piece : Bytes) :
    (supply t piece).events = t.events ++ supplies piece := by
  cases piece with
  | nil => exact (List.append_nil _).symm
  | cons b rest => rfl

theorem footing_wake (stage : Stage) (piece : Bytes) :
    (stage.wake piece).footing = stage.footing.wake piece := by
  cases stage <;> cases piece <;> rfl

/-- A turn over the bytes of a piece asks the parser for what the protocol says. -/
theorem events_fed (s : Session (Traced σ)) (stage : Stage) (piece : Bytes) :
    ∃ events, (turn s.limits (stage.wake piece) (supply s.parser piece)).2.events =
        s.parser.events ++ (supplies piece ++ events) ++
          (turn s.limits (stage.wake piece) (supply s.parser piece)).1.releases ∧
      Asks s.limits (stage.footing.wake piece) events
        (turn s.limits (stage.wake piece) (supply s.parser piece)).1.next? := by
  obtain ⟨events, he, ha⟩ := events_turn s.limits (stage.wake piece) (supply s.parser piece)
  rw [events_supply] at he
  rw [footing_wake] at ha
  exact ⟨events, he.trans (by simp only [List.append_assoc]), ha⟩

/-- A settled session hears no more, and has its parser as it was left. -/
theorem Settled.dispose_after {s : Session σ} (h : s.Settled) (inputs : List (Option Bytes)) :
    (s.after inputs).dispose = s.parser := by
  rw [h.after, h.dispose]

/-- The calls of a session that can go on, to its end, are those of the protocol. -/
theorem dispose_follows {s : Session (Traced σ)} {stage : Stage} (h : s.phase = .live stage)
    (inputs : List (Option Bytes)) :
    ∃ events, (s.after inputs).dispose.events = s.parser.events ++ events ∧
      Protocol s.limits stage.footing inputs events := by
  induction inputs generalizing s stage with
  | nil =>
    refine ⟨[.release], ?_, .abandoned⟩
    change s.dispose.events = _
    rw [dispose_of_live h]
    rfl
  | cons input rest ih =>
    rw [after_cons, accept_live h]
    obtain ⟨events, he, ha⟩ := events_fed s stage (input.getD [])
    generalize turn s.limits (stage.wake (input.getD [])) (supply s.parser (input.getD [])) = x
      at he ha ⊢
    obtain ⟨way, q⟩ := x
    have hfail {t : Session (Traced σ)} {e : DecodeError} (hq : q.events = s.parser.events ++
        (supplies (input.getD []) ++ events) ++ []) : ((t.fail e q).after rest).dispose.events =
        s.parser.events ++ (supplies (input.getD []) ++ events ++ [.release]) := by
      have hr : (t.fail e q).parser.events = q.events ++ [.release] := rfl
      rw [(settled_fail t e q).dispose_after, hr, hq, List.append_nil, List.append_assoc]
    cases way with
    | waiting next =>
      cases input with
      | none => exact ⟨_, hfail he, .closed (Footing.wake_nil _ ▸ ha)⟩
      | some piece =>
        obtain ⟨later, hl, hp⟩ := ih (s := { s with
          received := s.received + piece.length, phase := .live next, parser := q }) rfl
        refine ⟨supplies piece ++ events ++ later, ?_, .continued ha hp⟩
        rw [hl]
        change q.events ++ later = _
        rw [he]
        simp [Turn.releases]
    | complete result =>
      -- The turn itself released the parser.
      have hdone : ∀ t : Session (Traced σ), t.Settled → t.parser = q →
          (t.after rest).dispose.events =
            s.parser.events ++ (supplies (input.getD []) ++ events ++ [.release]) := by
        intro t hs ht
        rw [hs.dispose_after, ht, ← List.append_assoc]
        exact he
      cases input with
      | none => exact ⟨_, hdone _ (fun _ hp => nomatch hp) rfl, .closed (Footing.wake_nil _ ▸ ha)⟩
      | some piece => exact ⟨_, hdone _ (fun _ hp => nomatch hp) rfl, .settled ha⟩
    | failed e =>
      cases input with
      | none => exact ⟨_, hfail he, .closed (Footing.wake_nil _ ▸ ha)⟩
      | some piece => exact ⟨_, hfail he, .settled ha⟩

end Session

def Footing.IsBound (footing : Footing) : Prop :=
  ∃ outputs, footing = .bound outputs

theorem Footing.next?_isBound {outcome : Except DecodeError Progress} {left : Registry}
    {footing : Footing} (h : Footing.next? outcome left = some footing) : footing.IsBound := by
  cases outcome with
  | error e => cases h
  | ok progress => cases progress <;> cases h <;> exact ⟨left, rfl⟩

theorem Footing.IsBound.wake {footing : Footing} (h : footing.IsBound) (piece : Bytes) :
    (footing.wake piece).IsBound := by
  obtain ⟨outputs, rfl⟩ := h
  exact ⟨outputs, rfl⟩

section protocol

variable {limits : Limits} {footing : Footing} {events : List Event}

/-- Neither the first call of a session nor the last. -/
def Event.Inner (event : Event) : Prop :=
  event ≠ .reset ∧ event ≠ .release

theorem Binding.binds {bound : Option Registry} (h : Binding limits events bound) :
    ∀ event ∈ events, event.binds := by
  cases h with
  | unreadable | unchecked | unallocated => simp [Event.binds]
  | bound =>
    intro event he
    rcases List.mem_cons.mp he with rfl | he
    · rfl
    · obtain ⟨binding, -, rfl⟩ := List.mem_map.mp he
      rfl

theorem Binding.filter_binds {bound : Option Registry} (h : Binding limits events bound) :
    events.filter Event.binds = events :=
  List.filter_eq_self.mpr h.binds

theorem Event.inner_of_binds {event : Event} (h : event.binds) : event.Inner := by
  constructor <;> (rintro rfl; cases h)

theorem Asks.inner {next : Option Footing} (h : Asks limits footing events next) :
    ∀ event ∈ events, event.Inner := by
  cases h with
  | nothing => nofun
  | short | early | failed | poured => simp [Event.Inner]
  | unbound binding =>
    intro event he
    rcases List.mem_cons.mp he with rfl | he
    · exact ⟨nofun, nofun⟩
    · exact Event.inner_of_binds (binding.binds event he)
  | opened binding =>
    intro event he
    rcases List.mem_append.mp he with he | he
    · rcases List.mem_cons.mp he with rfl | he
      · exact ⟨nofun, nofun⟩
      · exact Event.inner_of_binds (binding.binds event he)
    · obtain rfl := List.mem_singleton.mp he
      exact ⟨nofun, nofun⟩

/-- Outputs stay bound. -/
theorem Asks.isBound {next : Footing} (h : Asks limits footing events (some next))
    (hb : footing.IsBound) : next.IsBound := by
  obtain ⟨outputs, rfl⟩ := hb
  generalize ho : some next = way at h
  cases h with
  | poured => exact Footing.next?_isBound ho.symm

/-- A turn binds no outputs, or it is the one that does. -/
theorem Asks.filter_binds {next : Option Footing} (h : Asks limits footing events next) :
    events.filter Event.binds = [] ∨
      ¬ footing.IsBound ∧ (∀ f, next = some f → f.IsBound) ∧
        ∃ bound, Binding limits (events.filter Event.binds) bound := by
  cases h with
  | nothing | short | early | failed | poured => exact .inl rfl
  | @unbound left events binding =>
    refine .inr ⟨nofun, nofun, none, ?_⟩
    have hf : (Event.advance {} (.ok .headerReady) left :: events).filter Event.binds = events :=
      binding.filter_binds
    rwa [hf]
  | @opened left outputs after events outcome binding =>
    refine .inr ⟨nofun, fun f => Footing.next?_isBound, some outputs, ?_⟩
    have hf : (Event.advance {} (.ok .headerReady) left :: events ++
        [Event.advance outputs outcome after]).filter Event.binds = events := by
      rw [List.filter_append]
      exact (List.append_nil _).trans binding.filter_binds
    rwa [hf]

theorem supplies_inner (piece : Bytes) : ∀ event ∈ supplies piece, event.Inner := by
  cases piece <;> simp [supplies, Event.Inner]

theorem filter_supplies (piece : Bytes) (events : List Event) :
    (supplies piece ++ events).filter Event.binds = events.filter Event.binds := by
  cases piece <;> rfl

/-- The calls before the release. -/
structure Uses (limits : Limits) (footing : Footing) (events : List Event) : Prop where
  inner : ∀ event ∈ events, event.Inner
  /-- Outputs are bound once at most, and not where they are bound already. -/
  binding : events.filter Event.binds = [] ∨
    ¬ footing.IsBound ∧ ∃ bound, Binding limits (events.filter Event.binds) bound

theorem Asks.uses {next : Option Footing} (h : Asks limits footing events next) :
    Uses limits footing events := by
  refine ⟨h.inner, ?_⟩
  rcases h.filter_binds with hq | ⟨hn, -, hb⟩
  · exact .inl hq
  · exact .inr ⟨hn, hb⟩

theorem Uses.fed {piece : Bytes} (h : Uses limits (footing.wake piece) events) :
    Uses limits footing (supplies piece ++ events) := by
  constructor
  · intro event he
    rcases List.mem_append.mp he with he | he
    · exact supplies_inner piece event he
    · exact h.inner event he
  · rw [filter_supplies]
    rcases h.binding with hq | ⟨hn, hb⟩
    · exact .inl hq
    · exact .inr ⟨fun hf => hn (hf.wake piece), hb⟩

theorem Asks.then {next : Footing} {later : List Event}
    (h : Asks limits footing events (some next)) (hl : Uses limits next later) :
    Uses limits footing (events ++ later) := by
  constructor
  · intro event he
    rcases List.mem_append.mp he with he | he
    · exact h.inner event he
    · exact hl.inner event he
  · rw [List.filter_append]
    rcases h.filter_binds with hq | ⟨hn, hnext, hb⟩
    · rw [hq, List.nil_append]
      rcases hl.binding with hl | ⟨hn, hb⟩
      · exact .inl hl
      · exact .inr ⟨fun hf => hn (h.isBound hf), hb⟩
    · -- The outputs are bound by this turn, so no later one binds them.
      rcases hl.binding with hl | ⟨hl, -⟩
      · rw [hl, List.append_nil]
        exact .inr ⟨hn, hb⟩
      · exact absurd (hnext next rfl) hl

/-- The release is the last call, and is made once. -/
theorem Protocol.uses {inputs : List (Option Bytes)} (h : Protocol limits footing inputs events) :
    ∃ front, events = front ++ [.release] ∧ Uses limits footing front := by
  induction h with
  | abandoned => exact ⟨[], rfl, nofun, .inl rfl⟩
  | @continued footing next piece inputs events later asks goesOn ih =>
    obtain ⟨front, rfl, hu⟩ := ih
    refine ⟨supplies piece ++ (events ++ front), ?_, (asks.then hu).fed⟩
    simp only [List.append_assoc]
  | settled asks => exact ⟨_, rfl, asks.uses.fed⟩
  | closed asks => exact ⟨_, rfl, asks.uses⟩

end protocol

/-- What the parser of a session was used for before the session is given up. One that is settled
released it then. -/
theorem Session.events_before_dispose {σ : Type} [Parser σ] {s : Session (Traced σ)}
    {front : List Event} (h : s.dispose.events = front ++ [.release]) :
    s.parser.events = front ++ if s.state.isTerminal then [.release] else [] := by
  rcases live_or_settled s with ⟨stage, hl⟩ | hs
  · rw [dispose_of_live hl] at h
    have hr : (Parser.release s.parser).events = s.parser.events ++ [.release] := rfl
    rw [isTerminal_of_live hl, if_neg Bool.false_ne_true, List.append_nil]
    exact List.append_cancel_right (hr.symm.trans h)
  · rw [hs.dispose] at h
    rw [settled_iff_isTerminal.mp hs, if_pos rfl, h]

/-- However a session is fed, its parser is reset first, released last and once, and used as the
protocol says in between. The release comes with the answer that settles the session. Where there is
none, it comes when the session is given up, in whichever way. -/
theorem calls_follow_protocol {σ : Type} [Parser σ] (parser : σ) (limits : Limits)
    (inputs : List (Option Bytes)) :
    ∃ events, Protocol limits .unfed inputs (events ++ [.release]) ∧
      .reset ∉ events ∧ .release ∉ events ∧
      (events.filter Event.binds = [] ∨
        ∃ bound, Binding limits (events.filter Event.binds) bound) ∧
      ((Session.watched parser limits).after inputs).parser.parser.events =
        .reset :: events ++
          (if ((Session.watched parser limits).after inputs).state.isTerminal then [.release]
            else []) ∧
      ∀ ending, (((Session.watched parser limits).after inputs).discard ending : Traced σ).events =
        .reset :: events ++ [.release] := by
  have hg : Session.watched parser limits =
      (Session.start (⟨parser, []⟩ : Traced σ) limits).guarded := rfl
  have hl : (Session.start (⟨parser, []⟩ : Traced σ) limits).phase = .live .idle := rfl
  obtain ⟨events, he, hp⟩ := Session.dispose_follows hl inputs
  obtain ⟨front, rfl, hu⟩ := hp.uses
  refine ⟨front, hp, ?_, ?_, ?_, ?_, ?_⟩
  · exact fun hm => (hu.inner _ hm).1 rfl
  · exact fun hm => (hu.inner _ hm).2 rfl
  · rcases hu.binding with hq | ⟨-, hb⟩
    · exact .inl hq
    · exact .inr hb
  · rw [hg, Session.after_guarded]
    exact Session.events_before_dispose he
  · intro ending
    rw [hg, Session.after_guarded, Session.discard_guarded]
    exact he

end SeismicStream
