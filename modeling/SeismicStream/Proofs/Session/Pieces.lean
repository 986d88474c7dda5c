import SeismicStream.Proofs.Session.Course

namespace SeismicStream

/-- What a turn comes to when the input ends with it. -/
def Turn.ending (received : Nat) : Turn → Except DecodeError DecodeResult
  | .waiting stage => .error (.truncated stage.state received)
  | .complete result => .ok result
  | .failed e => .error e

namespace Session
open ResponseParser

section

variable {σ : Type} [Parser σ] {s : Session σ}

/-- A piece that settles the session has the last answer. -/
theorem settle_cons {piece : Bytes} {given : Except DecodeError DecodeResult}
    (h : (s.feed piece).1 = given.map Feed.ready) (rest : List Bytes) :
    s.settle (piece :: rest) = given.map Feed.ready := by
  have hn : given.map Feed.ready ≠ .ok .pending := by cases given <;> simp [Except.map]
  have hp : (s.accept (some piece)).1 = given.map Feed.ready := h
  obtain ⟨ha, -, hg⟩ := answer_stays hp hn (rest.map some)
  change (((s.accept (some piece)).2.after (rest.map some)).accept none).1 = _
  rw [ha, hg none]

/-- Decoding pieces ends with the last answer of the session. -/
theorem decodePieces_fst (s : Session σ) (pieces : List Bytes) :
    (s.decodePieces pieces).1.map Feed.ready = s.settle pieces := by
  induction pieces generalizing s with
  | nil =>
    change s.close.1.map Feed.ready = (s.accept none).1
    rw [accept]
    rcases s.close with ⟨_ | result, s'⟩ <;> rfl
  | cons piece rest ih =>
    cases hf : s.feed piece with
    | mk given s' =>
      have hs : s.settle (piece :: rest) = (s.feed piece).2.settle rest := rfl
      have hfst : (s.feed piece).1 = given := congrArg Prod.fst hf
      cases given with
      | error e =>
        rw [@settle_cons _ _ s piece (.error e) hfst, decodePieces, hf]
      | ok answer =>
        cases answer with
        | ready result =>
          rw [@settle_cons _ _ s piece (.ok result) hfst, decodePieces, hf]
        | pending =>
          rw [hs, decodePieces, hf]
          exact ih s'

end

theorem map_ready_inj {a b : Except DecodeError DecodeResult}
    (h : a.map Feed.ready = b.map Feed.ready) : a = b := by
  cases a <;> cases b <;> cases h <;> rfl

theorem eq_error_of_map_ready {a : Except DecodeError DecodeResult} {e : DecodeError}
    (h : a.map Feed.ready = .error e) : a = .error e :=
  map_ready_inj h

/-- How bytes are cut matters only for the words that refuse a header. -/
theorem decodePieces_agree (limits : Limits) (pieces : List Bytes) :
    ((fresh limits).decodePieces pieces).1 = ((fresh limits).decodePieces [pieces.flatten]).1 ∨
      ∃ fault fault', ((fresh limits).decodePieces pieces).1 = .error (.malformedHeader fault) ∧
        ((fresh limits).decodePieces [pieces.flatten]).1 = .error (.malformedHeader fault') := by
  have ha := (fresh_waits limits).settles_alike pieces
  rw [← decodePieces_fst, ← decodePieces_fst] at ha
  rcases ha with he | ⟨-, fault, fault', ha, hb⟩
  · exact .inl (map_ready_inj he)
  · exact .inr ⟨fault, fault', eq_error_of_map_ready ha, eq_error_of_map_ready hb⟩

/-- A session that is fed all bytes at once takes one turn. -/
theorem decodePieces_whole (limits : Limits) {bytes : Bytes} (hb : bytes ≠ []) :
    ((fresh limits).decodePieces [bytes]).1 =
      (seek limits ((ofLimits limits).supply bytes)).1.ending bytes.length := by
  have hw : Stage.wake .idle bytes = .awaitingHeader := by
    cases bytes with
    | nil => exact absurd rfl hb
    | cons b rest => rfl
  have hseek : turn (fresh limits).limits .awaitingHeader ((fresh limits).parser.supply bytes) =
      seek limits ((ofLimits limits).supply bytes) := rfl
  have hf := (fresh_waits limits).feed_eq bytes
  rw [hw, hseek] at hf
  apply map_ready_inj
  rw [decodePieces_fst]
  generalize seek limits ((ofLimits limits).supply bytes) = led at hf ⊢
  obtain ⟨way, q⟩ := led
  cases way with
  | complete result => exact settle_cons (congrArg Prod.fst hf) []
  | failed e => exact settle_cons (congrArg Prod.fst hf) []
  | waiting stage =>
    have hp : ((fresh limits).feed bytes).1 = .ok .pending := congrArg Prod.fst hf
    obtain ⟨⟨stage', hwaits⟩, -, -⟩ := (fresh_waits limits).feed_pending hp
    have hlive : ((fresh limits).feed bytes).2.phase = .live stage := by rw [hf]
    obtain rfl : stage' = stage := Phase.live.inj (hwaits.live.symm.trans hlive)
    -- The parser is asked once more at the end, and comes no farther.
    change (((fresh limits).feed bytes).2.accept none).1 = _
    rw [accept_none_of_waiting hwaits.live hwaits.rests, hwaits.counts]
    rfl

end Session

end SeismicStream
