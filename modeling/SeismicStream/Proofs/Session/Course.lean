import SeismicStream.Proofs.Session.Chunking

namespace SeismicStream.Session

variable {σ : Type} [Parser σ] {s : Session σ} {stage : Stage}

/-- The parser, asked once more, neither finishes nor fails, and the header that it may announce can
be used. The session then stands in a state. -/
inductive Unfinished (s : Session σ) : SessionState → Prop
  | idle (live : s.phase = .live .idle) : Unfinished s .idle
  | seeking (live : s.phase = .live .awaitingHeader)
      (asked : (Parser.advance s.parser {}).outcome = .ok .needsMoreInput) :
      Unfinished s .awaitingHeader
  | opened {header : Header} {outputs : Registry} {q : σ} {progress : Progress}
      (live : s.phase = .live .awaitingHeader)
      (ready : (Parser.advance s.parser {}).outcome = .ok .headerReady)
      (binds : bindOutputs s.limits (Parser.advance s.parser {}).parser =
        (.ok (header, outputs), q))
      (asked : (Parser.advance q outputs).outcome = .ok progress) (more : progress ≠ .finished) :
      Unfinished s .awaitingPayload
  | pouring {header : Header} {outputs : Registry} {progress : Progress}
      (live : s.phase = .live (.awaitingPayload header outputs))
      (asked : (Parser.advance s.parser outputs).outcome = .ok progress)
      (more : progress ≠ .finished) : Unfinished s .awaitingPayload

/-- The laws of a session, whatever comes next. -/
structure Orderly (s : Session σ) : Prop where
  /-- No state is left for an earlier one. -/
  forward : ∀ inputs, s.state.rank ≤ (s.after inputs).state.rank
  /-- Done and failed are never left, and the parser is not used there. -/
  final : s.state.isTerminal → ∀ inputs, s.after inputs = s
  pending_iff : ∀ input,
    (s.accept input).1 = .ok .pending ↔ (s.accept input).2.state.isTerminal = false
  close_settles : (s.accept none).1 ≠ .ok .pending
  /-- Bytes and the end of the input lead out of idle, and nothing else. -/
  leaves_idle : s.state = .idle → ∀ input, (s.accept input).2.state ≠ .idle →
    input = none ∨ ∃ piece, input = some piece ∧ piece ≠ []
  idle_close : s.state = .idle → (s.accept none).1 = .error (.truncated .idle 0)
  result_stays : ∀ input result, (s.accept input).1 = .ok (.ready result) → ∀ inputs next,
    ((s.accept input).2.after inputs).result? = some result ∧
      (((s.accept input).2.after inputs).accept next).1 = .ok (.ready result)
  error_stays : ∀ input e, (s.accept input).1 = .error e → ∀ inputs next,
    ((s.accept input).2.after inputs).result? = none ∧
      (((s.accept input).2.after inputs).accept next).1 = .error e
  no_result : s.state ≠ .done → s.result? = none
  /-- A stream that ends too early is refused with the state that was reached and the bytes that were
  counted. -/
  truncates : ∀ state, s.Unfinished state → (s.accept none).1 = .error (.truncated state s.received)
  /-- The end of the input may bring a header that cannot be used. -/
  refuses : ∀ e, s.phase = .live .awaitingHeader →
    (Parser.advance s.parser {}).outcome = .ok .headerReady →
    (bindOutputs s.limits (Parser.advance s.parser {}).parser).1 = .error e →
    (s.accept none).1 = .error e

omit [Parser σ] in
theorem live_or_settled (s : Session σ) : (∃ stage, s.phase = .live stage) ∨ s.Settled := by
  cases h : s.phase with
  | live stage => exact .inl ⟨stage, rfl⟩
  | done result | failed e =>
    refine .inr ?_
    intro stage hp
    rw [h] at hp
    cases hp

omit [Parser σ] in
theorem isTerminal_of_live (h : s.phase = .live stage) : s.state.isTerminal = false := by
  rw [state, h]
  cases stage <;> rfl

omit [Parser σ] in
theorem settled_iff_isTerminal : s.Settled ↔ s.state.isTerminal := by
  constructor
  · intro hs
    unfold state
    cases h : s.phase with
    | live stage => exact absurd h (hs stage)
    | done result | failed e => rfl
  · intro ht stage h
    rw [isTerminal_of_live h] at ht
    cases ht

omit [Parser σ] in
theorem state_eq_idle_iff : s.state = .idle ↔ s.phase = .live .idle := by
  unfold state
  cases s.phase with
  | live stage => cases stage <;> simp [Stage.state]
  | done result | failed e => simp

omit [Parser σ] in
theorem answer_eq_pending_iff : answer s.phase = .ok .pending ↔ s.state.isTerminal = false := by
  unfold state
  cases s.phase with
  | live stage => cases stage <;> simp [answer, Stage.state, SessionState.isTerminal]
  | done result | failed e => simp [answer, SessionState.isTerminal]

omit [Parser σ] in
theorem result?_eq_some_iff {result : DecodeResult} :
    s.result? = some result ↔ answer s.phase = .ok (.ready result) := by
  unfold result?
  cases s.phase <;> simp [answer]

theorem wake_nil (stage : Stage) : stage.wake [] = stage := by
  cases stage <;> rfl

/-- A session that can go on lets its parser take a turn, whether a piece comes or the end. -/
theorem accept_live (h : s.phase = .live stage) (input : Option Bytes) :
    s.accept input =
      match turn s.limits (stage.wake (input.getD [])) (supply s.parser (input.getD [])) with
      | (.waiting next, q) =>
        match input with
        | some piece => (.ok .pending,
            { s with received := s.received + piece.length, phase := .live next, parser := q })
        | none => (.error (.truncated next.state s.received),
            s.fail (.truncated next.state s.received) q)
      | (.complete result, q) => (.ok (.ready result),
          { s with
            received := s.received + (input.getD []).length, phase := .done result, parser := q })
      | (.failed e, q) => (.error e,
          { s with received := s.received + (input.getD []).length }.fail e q) := by
  cases input with
  | some piece =>
    rcases ht : turn s.limits (stage.wake piece) (supply s.parser piece) with ⟨_ | _ | _, _⟩ <;>
      simp only [accept, feed, h, ht, Option.getD_some]
  | none =>
    have hs : supply s.parser [] = s.parser := rfl
    rcases ht : turn s.limits stage s.parser with ⟨_ | _ | _, _⟩ <;>
      simp only [accept, close, fail, h, ht, hs, Option.getD_none, wake_nil, List.length_nil,
        Nat.add_zero]

theorem accept_fst (s : Session σ) (input : Option Bytes) :
    (s.accept input).1 = answer (s.accept input).2.phase := by
  rcases live_or_settled s with ⟨stage, h⟩ | hs
  · rw [accept_live h]
    split
    · cases input <;> rfl
    · rfl
    · rfl
  · rw [hs.accept]

theorem accept_none_ne_pending (s : Session σ) : (s.accept none).1 ≠ .ok .pending := by
  rcases live_or_settled s with ⟨stage, h⟩ | hs
  · rw [accept_live h]
    split <;> nofun
  · rw [hs.accept]
    exact settled_iff.mp hs

theorem after_cons (s : Session σ) (input : Option Bytes) (rest : List (Option Bytes)) :
    s.after (input :: rest) = (s.accept input).2.after rest :=
  rfl

/-- An answer other than pending is the answer to all that comes. -/
theorem answer_stays {input : Option Bytes} {given : Except DecodeError Feed}
    (h : (s.accept input).1 = given) (hn : given ≠ .ok .pending) (inputs : List (Option Bytes)) :
    (s.accept input).2.after inputs = (s.accept input).2 ∧ answer (s.accept input).2.phase = given ∧
      ∀ next, ((s.accept input).2.accept next).1 = given := by
  rw [accept_fst] at h
  have hs : (s.accept input).2.Settled := settled_iff.mpr (h ▸ hn)
  refine ⟨hs.after inputs, h, ?_⟩
  intro next
  rw [hs.accept, h]

section rank

theorem pour_rank {header : Header} {outputs : Registry} {p q : σ} {next : Stage}
    (h : pour header outputs p = (.waiting next, q)) : next.state = .awaitingPayload := by
  unfold pour at h
  split at h
  · cases h
  · cases h
  · cases h
    rfl

theorem turn_rank {limits : Limits} {p q : σ} {next : Stage}
    (h : turn limits stage p = (.waiting next, q)) : stage.state.rank ≤ next.state.rank := by
  cases stage with
  | idle => exact Nat.zero_le _
  | awaitingPayload header outputs =>
    rw [pour_rank h]
    exact Nat.le_refl _
  | awaitingHeader =>
    change seek limits p = _ at h
    unfold seek at h
    split at h
    · cases h
    · cases h
      exact Nat.le_refl _
    · cases h
    · split at h
      · cases h
      · rw [pour_rank h]
        decide

theorem wake_rank (stage : Stage) (piece : Bytes) :
    stage.state.rank ≤ (stage.wake piece).state.rank := by
  cases stage with
  | idle => exact Nat.zero_le _
  | awaitingHeader | awaitingPayload => exact Nat.le_refl _

theorem rank_le (state : SessionState) : state.rank ≤ 3 := by
  cases state <;> decide

theorem accept_rank (s : Session σ) (input : Option Bytes) :
    s.state.rank ≤ (s.accept input).2.state.rank := by
  rcases live_or_settled s with ⟨stage, h⟩ | hs
  · have hl : s.state = stage.state := by rw [state, h]
    rw [accept_live h]
    split
    · rename_i next q ht
      cases input with
      | none => exact rank_le _
      | some piece =>
        rw [hl]
        exact Nat.le_trans (wake_rank stage piece) (turn_rank ht)
    · exact rank_le _
    · exact rank_le _
  · rw [hs.accept]

theorem after_rank (s : Session σ) (inputs : List (Option Bytes)) :
    s.state.rank ≤ (s.after inputs).state.rank := by
  induction inputs generalizing s with
  | nil => exact Nat.le_refl _
  | cons input rest ih => exact Nat.le_trans (accept_rank s input) (ih _)

end rank

section received

theorem accept_received (s : Session σ) (input : Option Bytes) : (s.accept input).2.received =
    s.received + (if s.state.isTerminal then [] else input.toList).flatten.length := by
  rcases live_or_settled s with ⟨stage, h⟩ | hs
  · rw [isTerminal_of_live h, accept_live h]
    cases input <;> (split <;> simp [fail])
  · rw [settled_iff_isTerminal.mp hs, hs.accept]
    rfl

theorem after_received (s : Session σ) (inputs : List (Option Bytes)) :
    (s.after inputs).received = s.received + (s.heard inputs).flatten.length := by
  induction inputs generalizing s with
  | nil => rfl
  | cons input rest ih =>
    rw [after_cons, ih, accept_received, heard, List.flatten_append, List.length_append,
      Nat.add_assoc]

/-- A session that is idle was idle before, and was fed an empty piece. -/
theorem accept_idle {input : Option Bytes} (h : (s.accept input).2.state = .idle) :
    s.state = .idle ∧ input = some [] := by
  have hi : s.state = .idle := by
    have hr := accept_rank s input
    rw [h] at hr
    cases hs : s.state with
    | idle => rfl
    | awaitingHeader | awaitingPayload | done | failed =>
      rw [hs] at hr
      cases hr
  refine ⟨hi, ?_⟩
  rw [accept_live (state_eq_idle_iff.mp hi)] at h
  cases input with
  | none => split at h <;> cases h
  | some piece =>
    cases piece with
    | nil => rfl
    | cons b rest =>
      split at h
      · rename_i next q ht
        have hr : 1 ≤ next.state.rank := turn_rank ht
        rw [show next.state = .idle from h] at hr
        cases hr
      · cases h
      · cases h

theorem start_idle_received (parser : σ) (limits : Limits) (inputs : List (Option Bytes))
    (h : ((start parser limits).after inputs).state = .idle) :
    ((start parser limits).after inputs).received = 0 := by
  -- Counted from any session that is idle and has counted nothing.
  have all : ∀ s : Session σ, (s.state = .idle → s.received = 0) → (s.after inputs).state = .idle →
      (s.after inputs).received = 0 := by
    clear h
    induction inputs with
    | nil => exact fun s hs h => hs h
    | cons input rest ih =>
      intro s hs h
      refine ih (s.accept input).2 ?_ h
      intro hi
      obtain ⟨hb, rfl⟩ := accept_idle hi
      rw [accept_received, hs hb]
      split <;> rfl
  exact all _ (fun _ => rfl) h

end received

section close

variable {limits : Limits} {header : Header} {outputs : Registry} {p q : σ}

theorem pour_of_ok {progress : Progress} (h : (Parser.advance p outputs).outcome = .ok progress)
    (hn : progress ≠ .finished) : pour header outputs p =
      (.waiting (.awaitingPayload header (Parser.advance p outputs).outputs),
        (Parser.advance p outputs).parser) := by
  unfold pour
  generalize Parser.advance p outputs = a at h ⊢
  obtain ⟨outcome, q, left⟩ := a
  obtain rfl : outcome = .ok progress := h
  cases progress with
  | needsMoreInput | headerReady => rfl
  | finished => exact absurd rfl hn

theorem seek_of_needsMoreInput (h : (Parser.advance p {}).outcome = .ok .needsMoreInput) :
    seek limits p = (.waiting .awaitingHeader, (Parser.advance p {}).parser) := by
  unfold seek
  generalize Parser.advance p {} = a at h ⊢
  obtain ⟨outcome, q, left⟩ := a
  obtain rfl : outcome = .ok .needsMoreInput := h
  rfl

theorem seek_of_headerReady (h : (Parser.advance p {}).outcome = .ok .headerReady) :
    seek limits p =
      match bindOutputs limits (Parser.advance p {}).parser with
      | (.error e, q) => (.failed e, q)
      | (.ok (header, outputs), q) => pour header outputs q := by
  unfold seek
  generalize Parser.advance p {} = a at h ⊢
  obtain ⟨outcome, q, left⟩ := a
  obtain rfl : outcome = .ok .headerReady := h
  rfl

theorem accept_none_of_waiting {next : Stage} (h : s.phase = .live stage)
    (ht : turn s.limits stage s.parser = (.waiting next, q)) :
    (s.accept none).1 = .error (.truncated next.state s.received) := by
  have hs : supply s.parser [] = s.parser := rfl
  rw [accept_live h, Option.getD_none, wake_nil, hs, ht]

theorem Unfinished.accept_none {reached : SessionState} (h : s.Unfinished reached) :
    (s.accept none).1 = .error (.truncated reached s.received) := by
  cases h with
  | idle live => exact accept_none_of_waiting live rfl
  | seeking live asked => exact accept_none_of_waiting live (seek_of_needsMoreInput asked)
  | opened live ready binds asked more =>
    have ht := @seek_of_headerReady _ _ s.limits _ ready
    rw [binds] at ht
    exact accept_none_of_waiting live (ht.trans (pour_of_ok asked more))
  | pouring live asked more => exact accept_none_of_waiting live (pour_of_ok asked more)

theorem accept_none_of_refused {e : DecodeError} (h : s.phase = .live .awaitingHeader)
    (hr : (Parser.advance s.parser {}).outcome = .ok .headerReady)
    (he : (bindOutputs s.limits (Parser.advance s.parser {}).parser).1 = .error e) :
    (s.accept none).1 = .error e := by
  have ht : turn s.limits .awaitingHeader s.parser =
      (.failed e, (bindOutputs s.limits (Parser.advance s.parser {}).parser).2) := by
    refine (seek_of_headerReady hr).trans ?_
    generalize bindOutputs s.limits (Parser.advance s.parser {}).parser = bound at he ⊢
    obtain ⟨given, q⟩ := bound
    obtain rfl : given = .error e := he
    rfl
  have hs : supply s.parser [] = s.parser := rfl
  rw [accept_live h, Option.getD_none, wake_nil, hs, ht]

end close

theorem input_of_leaves_idle (hi : s.state = .idle) {input : Option Bytes}
    (hn : (s.accept input).2.state ≠ .idle) :
    input = none ∨ ∃ piece, input = some piece ∧ piece ≠ [] := by
  cases input with
  | none => exact .inl rfl
  | some piece =>
    refine .inr ⟨piece, rfl, ?_⟩
    rintro rfl
    rw [accept_live (state_eq_idle_iff.mp hi)] at hn
    exact hn rfl

omit [Parser σ] in
theorem result?_eq_none_of_error {e : DecodeError} (h : answer s.phase = .error e) :
    s.result? = none := by
  apply Option.eq_none_iff_forall_ne_some.mpr
  intro result hr
  rw [result?_eq_some_iff, h] at hr
  cases hr

omit [Parser σ] in
theorem result?_eq_none (h : s.state ≠ .done) : s.result? = none := by
  unfold result?
  unfold state at h
  cases hp : s.phase with
  | done result => simp [hp] at h
  | live stage | failed e => rfl

/-- A session is orderly at every point of its course, and counts the pieces that it heard. -/
theorem orderly_after (parser : σ) (limits : Limits) (inputs : List (Option Bytes)) :
    ((start parser limits).after inputs).Orderly ∧
      ((start parser limits).after inputs).received =
        ((start parser limits).heard inputs).flatten.length := by
  have hidle := start_idle_received parser limits inputs
  have hreceived := after_received (start parser limits) inputs
  generalize (start parser limits).after inputs = s at hidle hreceived ⊢
  refine ⟨?_, hreceived.trans (Nat.zero_add _)⟩
  exact
    { forward := after_rank s
      final := fun ht => (settled_iff_isTerminal.mpr ht).after
      pending_iff := fun input => by rw [accept_fst, answer_eq_pending_iff]
      close_settles := accept_none_ne_pending s
      leaves_idle := fun hi input => input_of_leaves_idle hi
      idle_close := by
        intro hi
        rw [← hidle hi]
        exact (Unfinished.idle (state_eq_idle_iff.mp hi)).accept_none
      result_stays := by
        intro input result h rest next
        obtain ⟨ha, hp, hn⟩ := answer_stays h nofun rest
        rw [ha]
        exact ⟨result?_eq_some_iff.mpr hp, hn next⟩
      error_stays := by
        intro input e h rest next
        obtain ⟨ha, hp, hn⟩ := answer_stays h nofun rest
        rw [ha]
        exact ⟨result?_eq_none_of_error hp, hn next⟩
      no_result := result?_eq_none
      truncates := fun reached h => h.accept_none
      refuses := fun e => accept_none_of_refused }

end SeismicStream.Session
