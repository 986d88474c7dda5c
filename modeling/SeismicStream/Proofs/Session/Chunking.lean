import SeismicStream.Proofs.Session.Turn

namespace SeismicStream

def Turn.answer : Turn → Except DecodeError Feed
  | .waiting _ => .ok .pending
  | .complete result => .ok (.ready result)
  | .failed e => .error e

namespace Session
open ResponseParser

section answers

variable {σ : Type} [Parser σ] {s : Session σ}

/-- What a session answers as long as it is in a phase. -/
def answer : Phase → Except DecodeError Feed
  | .live _ => .ok .pending
  | .done result => .ok (.ready result)
  | .failed e => .error e

def Settled (s : Session σ) : Prop :=
  ∀ stage, s.phase ≠ .live stage

theorem settled_fail (s : Session σ) (e : DecodeError) (parser : σ) : (s.fail e parser).Settled :=
  fun _ hp => nomatch hp

theorem feed_fst (s : Session σ) (piece : Bytes) :
    (s.feed piece).1 = answer (s.feed piece).2.phase := by
  unfold feed
  split
  · rename_i h
    simp only [h, answer]
  · rename_i h
    simp only [h, answer]
  · dsimp only
    split <;> rfl

theorem Settled.accept (h : s.Settled) (input : Option Bytes) :
    s.accept input = (answer s.phase, s) := by
  cases hp : s.phase with
  | live stage => exact absurd hp (h stage)
  | done result | failed e => cases input <;> simp [Session.accept, feed, close, hp, answer]

theorem Settled.after (h : s.Settled) (inputs : List (Option Bytes)) : s.after inputs = s := by
  induction inputs with
  | nil => rfl
  | cons input rest ih =>
    change (s.accept input).2.after rest = s
    rw [h.accept]
    exact ih

omit [Parser σ] in
theorem settled_iff : s.Settled ↔ answer s.phase ≠ .ok .pending := by
  cases h : s.phase with
  | live stage => exact ⟨fun hs => absurd h (hs stage), fun hp => absurd rfl hp⟩
  | done result | failed e =>
    refine ⟨fun _ => nofun, ?_⟩
    intro _ stage hp
    rw [h] at hp
    cases hp

end answers

/-- A session that waits for bytes, and the bytes it was given. -/
structure Waits (s : Session ResponseParser) (stage : Stage) (bytes : Bytes) : Prop where
  live : s.phase = .live stage
  stands : Stands s.limits stage s.parser bytes
  /-- The parser has gone as far as it can. -/
  rests : turn s.limits stage s.parser = (.waiting stage, s.parser)
  counts : s.received = bytes.length

theorem fresh_waits (limits : Limits) : (fresh limits).Waits .idle [] :=
  ⟨rfl, .idle, rfl, rfl⟩

variable {s : Session ResponseParser} {stage : Stage} {bytes : Bytes}

theorem Waits.feed_eq (h : s.Waits stage bytes) (piece : Bytes) : s.feed piece =
    match turn s.limits (stage.wake piece) (s.parser.supply piece) with
    | (.waiting stage, parser) =>
      (.ok .pending,
        { s with received := s.received + piece.length, phase := .live stage, parser })
    | (.complete result, parser) =>
      (.ok (.ready result),
        { s with received := s.received + piece.length, phase := .done result, parser })
    | (.failed e, parser) =>
      (.error e, { s with received := s.received + piece.length }.fail e parser) := by
  unfold feed
  simp only [h.live, supply_eq]
  rcases turn s.limits (stage.wake piece) (s.parser.supply piece) with ⟨_ | _ | _, _⟩ <;> rfl

theorem Waits.feed_nil (h : s.Waits stage bytes) : s.feed [] = (.ok .pending, s) := by
  have hw : stage.wake [] = stage := by cases stage <;> rfl
  rw [h.feed_eq, hw, supply_nil, h.rests]
  simp [← h.live]

theorem Waits.close_eq (h : s.Waits stage bytes) : s.close.1 =
    .error (.truncated stage.state bytes.length) := by
  simp only [close, h.live, h.rests, h.counts]

theorem Waits.feed_answer (h : s.Waits stage bytes) (piece : Bytes) : (s.feed piece).1 =
    (turn s.limits (stage.wake piece) (s.parser.supply piece)).1.answer := by
  rw [h.feed_eq]
  rcases turn s.limits (stage.wake piece) (s.parser.supply piece) with ⟨_ | _ | _, _⟩ <;> rfl

theorem Waits.turn_pending (h : s.Waits stage bytes) {piece : Bytes}
    (hp : (s.feed piece).1 = .ok .pending) :
    ∃ stage', (s.feed piece).2.phase = .live stage' ∧
      turn s.limits (stage.wake piece) (s.parser.supply piece) =
        (.waiting stage', (s.feed piece).2.parser) := by
  rw [h.feed_eq] at hp ⊢
  cases ht : turn s.limits (stage.wake piece) (s.parser.supply piece) with
  | mk way q =>
    rw [ht] at hp
    cases way with
    | waiting stage' => exact ⟨stage', rfl, rfl⟩
    | complete result | failed e => cases hp

/-- A session that still waits after a piece takes the bytes to come as if they had come with it. -/
theorem Waits.feed_pending (h : s.Waits stage bytes) {piece : Bytes}
    (hp : (s.feed piece).1 = .ok .pending) :
    (∃ stage', (s.feed piece).2.Waits stage' (bytes ++ piece)) ∧
      (s.feed piece).2.limits = s.limits ∧
      ∀ more, s.feed (piece ++ more) = (s.feed piece).2.feed more := by
  -- An empty piece does not wake an idle session, so the stage may not be settled yet.
  by_cases he : piece = []
  · rw [he, h.feed_nil, List.append_nil]
    exact ⟨⟨stage, h⟩, rfl, fun _ => rfl⟩
  have hb : bytes ++ piece ≠ [] := fun hb => he (List.append_eq_nil_iff.mp hb).2
  have hs := h.stands.supply piece
  rw [h.feed_eq] at hp ⊢
  cases ht : turn s.limits (stage.wake piece) (s.parser.supply piece) with
  | mk way q =>
    rw [ht] at hp
    cases way with
    | complete result | failed e => cases hp
    | waiting stage' =>
      obtain ⟨hs', hm⟩ := turn_waiting hs ht
      have hn := hm []
      rw [supply_nil, supply_nil] at hn
      have hw : Waits { s with
          received := s.received + piece.length, phase := .live stage', parser := q }
          stage' (bytes ++ piece) :=
        ⟨rfl, hs', hn.symm.trans ht, by simp [h.counts]⟩
      refine ⟨⟨stage', hw⟩, rfl, ?_⟩
      intro more
      rw [h.feed_eq, hw.feed_eq, ← supply_supply, wake_append, hs.wake hb, hs'.wake hb, hm]
      simp [Nat.add_assoc, fail]

/-- Two answers to the same bytes. Where the header is too long, both may refuse it, each in its own
words; other answers are equal. -/
def Agree (limits : Limits) (bytes : Bytes) (a b : Except DecodeError Feed) : Prop :=
  a = b ∨ HeaderOverruns limits bytes ∧ ∃ fault fault',
    a = .error (.malformedHeader fault) ∧ b = .error (.malformedHeader fault')

/-- A session that a piece settles is settled alike by that piece with any bytes behind it. -/
theorem Waits.feed_settled (h : s.Waits stage bytes) {piece : Bytes}
    (hp : (s.feed piece).1 ≠ .ok .pending) (more : Bytes) :
    Agree s.limits (bytes ++ (piece ++ more)) (s.feed piece).1 (s.feed (piece ++ more)).1 := by
  have hs := h.stands.supply piece
  have hb : bytes ++ piece ≠ [] := by
    intro hb
    obtain ⟨-, rfl⟩ := List.append_eq_nil_iff.mp hb
    rw [h.feed_nil] at hp
    exact hp rfl
  rw [h.feed_answer] at hp ⊢
  rw [h.feed_answer, wake_append, hs.wake hb, ← supply_supply]
  have hn : ∀ stage', (turn s.limits (stage.wake piece) (s.parser.supply piece)).1 ≠
      .waiting stage' := by
    intro stage' hw
    rw [hw] at hp
    exact hp rfl
  rcases turn_settled hs hn more with he | ⟨hl, fault, fault', hf, hf'⟩
  · exact .inl (congrArg Turn.answer he.symm)
  · rw [List.append_assoc] at hl
    exact .inr ⟨hl, fault, fault', congrArg Turn.answer hf, congrArg Turn.answer hf'⟩

/-- Pieces leave a session where they would leave it joined, whether it goes on or is settled. -/
theorem Waits.after (h : s.Waits stage bytes) (pieces : List Bytes) :
    (∃ stage', (s.after (pieces.map some)).Waits stage' (bytes ++ pieces.flatten)) ∧
        (∀ more, s.feed (pieces.flatten ++ more) = (s.after (pieces.map some)).feed more) ∨
      (s.after (pieces.map some)).Settled ∧
        Agree s.limits (bytes ++ pieces.flatten) (answer (s.after (pieces.map some)).phase)
          (s.feed pieces.flatten).1 := by
  induction pieces generalizing s stage bytes with
  | nil => exact .inl ⟨⟨stage, by rwa [List.flatten_nil, List.append_nil]⟩, fun _ => rfl⟩
  | cons piece rest ih =>
    have ha : s.after ((piece :: rest).map some) = (s.feed piece).2.after (rest.map some) := rfl
    rw [ha, List.flatten_cons]
    by_cases hp : (s.feed piece).1 = .ok .pending
    · obtain ⟨⟨stage', hw⟩, hl, hm⟩ := h.feed_pending hp
      rw [hm, ← List.append_assoc]
      simp only [List.append_assoc piece, hm, ← hl]
      exact ih hw
    · have hf := feed_fst s piece
      have hs : (s.feed piece).2.Settled := settled_iff.mpr (hf ▸ hp)
      rw [hs.after, ← hf]
      exact .inr ⟨hs, h.feed_settled hp rest.flatten⟩

/-- A session that waits gives the same last answer to bytes in pieces and to the bytes joined. -/
theorem Waits.settles_alike (h : s.Waits stage bytes) (pieces : List Bytes) :
    Agree s.limits (bytes ++ pieces.flatten) (settle s pieces) (settle s [pieces.flatten]) := by
  have hone : settle s [pieces.flatten] = ((s.feed pieces.flatten).2.accept none).1 := rfl
  rw [hone]
  rcases h.after pieces with ⟨⟨stage, hw⟩, hm⟩ | ⟨hs, ha⟩
  · have hf := hm []
    rw [List.append_nil, hw.feed_nil] at hf
    rw [hf]
    exact .inl rfl
  · have hsettle : settle s pieces = answer (s.after (pieces.map some)).phase := by
      rw [settle, hs.accept]
    have ht : (s.feed pieces.flatten).2.Settled := by
      rw [settled_iff, ← feed_fst]
      rcases ha with ha | ⟨-, fault, fault', -, ha⟩
      · exact ha ▸ settled_iff.mp hs
      · exact ha ▸ nofun
    rw [hsettle, ht.accept, ← feed_fst]
    exact ha

/-- How the bytes of a stream are cut into pieces does not change the last answer. -/
theorem settle_agree (limits : Limits) (pieces : List Bytes) :
    Agree limits pieces.flatten (settle (fresh limits) pieces)
      (settle (fresh limits) [pieces.flatten]) :=
  (fresh_waits limits).settles_alike pieces

end Session

end SeismicStream
