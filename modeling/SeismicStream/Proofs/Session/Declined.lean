import SeismicStream.Proofs.Session.Calls
import SeismicStream.Registry.Allocation

namespace SeismicStream

variable {σ : Type} [Parser σ] {limits : Limits} {wire : WireHeader} {header : Header}
  {e : DecodeError}

/-- Outputs are bound in the turn that reads the header, so there are none if they cannot be
allocated then. -/
theorem Binding.unbound {events : List Event} {bound : Option Registry}
    (h : Binding limits events bound) (read : .readHeader (some wire) ∈ events)
    (checked : Header.ofWire wire = .ok header)
    (refused : Registry.allocate header limits = .error e) (name : String) (slot : Nat) :
    .register name slot ∉ events := by
  cases h with
  | unreadable | unchecked | unallocated => simp
  | bound passed allocated =>
    obtain rfl : wire = _ := by simpa [registers] using read
    rw [passed] at checked
    cases checked
    rw [allocated] at refused
    cases refused

namespace Session

/-- Where outputs cannot be allocated, that is the error. -/
theorem Reading.declined {events : List Event} {result : Except DecodeError (Header × Registry)}
    (h : Reading limits events result) (read : .readHeader (some wire) ∈ events)
    (checked : Header.ofWire wire = .ok header)
    (refused : Registry.allocate header limits = .error e) : result = .error e := by
  cases h with
  | unreadable => simp at read
  | unchecked failed =>
    obtain rfl : wire = _ := by simpa using read
    rw [failed] at checked
    cases checked
  | unallocated passed failed =>
    obtain rfl : wire = _ := by simpa using read
    rw [passed] at checked
    cases checked
    rw [failed] at refused
    cases refused
    rfl
  | bound passed allocated =>
    obtain rfl : wire = _ := by simpa [registers] using read
    rw [passed] at checked
    cases checked
    rw [allocated] at refused
    cases refused

section turns

variable {t : Traced σ}

theorem read_of_pour {outputs : Registry}
    (h : .readHeader (some wire) ∈ (pour header outputs t).2.events) :
    .readHeader (some wire) ∈ t.events := by
  obtain ⟨outcome, after, hp, -⟩ := events_pour header outputs t
  rw [hp] at h
  cases hw : (pour header outputs t).1 <;> simpa [hw, Turn.releases] using h

theorem read_of_supply {piece : Bytes} (h : .readHeader (some wire) ∈ (supply t piece).events) :
    .readHeader (some wire) ∈ t.events := by
  rw [events_supply] at h
  cases piece <;> simpa [supplies] using h

theorem seek_declined (fresh : .readHeader (some wire) ∉ t.events)
    (read : .readHeader (some wire) ∈ (seek limits t).2.events)
    (checked : Header.ofWire wire = .ok header)
    (refused : Registry.allocate header limits = .error e) : (seek limits t).1 = .failed e := by
  revert read
  unfold seek
  rw [advance_traced]
  obtain ⟨outcome, q, left⟩ := Parser.advance t.parser {}
  intro read
  cases outcome with
  | error e' => simp [Traced.note, fresh] at read
  | ok progress =>
    cases progress with
    | needsMoreInput | finished => simp [Traced.note, fresh] at read
    | headerReady =>
      dsimp only at read ⊢
      obtain ⟨events, he, hr⟩ :=
        reading_bindOutputs limits (t.note (.advance {} (.ok .headerReady) left) q)
      generalize bindOutputs limits (t.note (.advance {} (.ok .headerReady) left) q) = x
        at read he hr ⊢
      obtain ⟨result, r⟩ := x
      have inside (h : .readHeader (some wire) ∈ r.events) : .readHeader (some wire) ∈ events := by
        rw [he] at h
        simpa [Traced.note, fresh] using h
      cases result with
      | error e' =>
        cases hr.declined (inside read) checked refused
        rfl
      | ok bound => cases hr.declined (inside (read_of_pour read)) checked refused

theorem turn_declined {stage : Stage} (fresh : .readHeader (some wire) ∉ t.events)
    (read : .readHeader (some wire) ∈ (turn limits stage t).2.events)
    (checked : Header.ofWire wire = .ok header)
    (refused : Registry.allocate header limits = .error e) :
    (turn limits stage t).1 = .failed e := by
  cases stage with
  | idle => exact absurd read fresh
  | awaitingHeader => exact seek_declined fresh read checked refused
  | awaitingPayload => exact absurd (read_of_pour read) fresh

end turns

theorem Settled.read_after {s : Session (Traced σ)} {inputs : List (Option Bytes)} (hs : s.Settled)
    (h : .readHeader (some wire) ∈ (s.after inputs).parser.events) :
    .readHeader (some wire) ∈ s.parser.events := by
  rwa [hs.after] at h

theorem read_of_fail {s : Session (Traced σ)} {q : Traced σ} {inputs : List (Option Bytes)}
    (h : .readHeader (some wire) ∈ ((s.fail e q).after inputs).parser.events) :
    .readHeader (some wire) ∈ q.events := by
  have hq : (s.fail e q).parser.events = q.events ++ [.release] := rfl
  simpa [hq] using (settled_fail s e q).read_after h

/-- A session fails in the turn that reads a header whose outputs cannot be allocated. -/
theorem failed_after {s : Session (Traced σ)} {stage : Stage} (live : s.phase = .live stage)
    (fresh : .readHeader (some wire) ∉ s.parser.events) {inputs : List (Option Bytes)}
    (read : .readHeader (some wire) ∈ (s.after inputs).parser.events)
    (checked : Header.ofWire wire = .ok header)
    (refused : Registry.allocate header s.limits = .error e) :
    (s.after inputs).phase = .failed e := by
  induction inputs generalizing s stage with
  | nil => exact absurd read fresh
  | cons input rest ih =>
    rw [after_cons, accept_live live] at read ⊢
    have unread : .readHeader (some wire) ∉ (supply s.parser (input.getD [])).events :=
      fun h => fresh (read_of_supply h)
    have declines (h : .readHeader (some wire) ∈
        (turn s.limits (stage.wake (input.getD [])) (supply s.parser (input.getD []))).2.events) :=
      turn_declined unread h checked refused
    generalize turn s.limits (stage.wake (input.getD [])) (supply s.parser (input.getD [])) = x
      at read declines ⊢
    obtain ⟨way, q⟩ := x
    by_cases hq : .readHeader (some wire) ∈ q.events
    · obtain rfl : way = .failed e := declines hq
      dsimp only
      rw [(settled_fail _ e q).after]
      rfl
    · -- The header is read later, so the session goes on.
      cases way with
      | waiting next =>
        cases input with
        | none => exact absurd (read_of_fail read) hq
        | some piece => exact ih rfl hq read refused
      | complete result =>
        refine absurd (Settled.read_after ?_ read) hq
        intro _ hp
        cases hp
      | failed e' => exact absurd (read_of_fail read) hq

theorem mem_dispose {s : Session (Traced σ)} {event : Event} (h : event ∈ s.parser.events) :
    event ∈ s.dispose.events := by
  unfold dispose
  split
  · exact List.mem_append_left _ h
  · exact h

/-- A session that reads a header whose outputs cannot be allocated fails, and binds none of them. -/
theorem declined_after (parser : σ) (inputs : List (Option Bytes))
    (read : .readHeader (some wire) ∈
      ((start (⟨parser, []⟩ : Traced σ) limits).after inputs).parser.events)
    (checked : Header.ofWire wire = .ok header)
    (refused : Registry.allocate header limits = .error e) :
    ((start (⟨parser, []⟩ : Traced σ) limits).after inputs).Declined e where
  failed := by
    refine failed_after rfl ?_ read checked refused
    change .readHeader (some wire) ∉ [Event.reset]
    simp
  unbound := by
    intro name slot registered
    have hl : (start (⟨parser, []⟩ : Traced σ) limits).phase = .live .idle := rfl
    obtain ⟨events, he, hp⟩ := dispose_follows hl inputs
    obtain ⟨front, rfl, hu⟩ := hp.uses
    have inside {event : Event} (hb : event.binds) (hm : event ∈
        ((start (⟨parser, []⟩ : Traced σ) limits).after inputs).parser.events) :
        event ∈ front.filter Event.binds := by
      have hd := mem_dispose hm
      rw [he] at hd
      change event ∈ Event.reset :: (front ++ [.release]) at hd
      refine List.mem_filter.mpr ⟨?_, hb⟩
      cases event <;> simp_all [Event.binds]
    rcases hu.binding with hq | ⟨-, bound, hb⟩
    · exact absurd (inside rfl read) (hq ▸ List.not_mem_nil)
    · exact hb.unbound (inside rfl read) checked refused name slot (inside rfl registered)

end Session

end SeismicStream
