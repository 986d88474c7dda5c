import SeismicStream.Proofs.Session.Ending
import SeismicStream.Transfer.Ending

namespace SeismicStream

theorem pieces_go_ne_nil {α : Type} (n : Nat) {xs : List α} {front : List (List α)}
    (hf : ∀ piece ∈ front, piece ≠ []) : ∀ piece ∈ pieces.go n xs front, piece ≠ [] := by
  fun_induction pieces.go n xs front with
  | case1 front => simpa using hf
  | case2 front x rest ih =>
    apply ih
    intro piece hm
    rcases List.mem_cons.mp hm with rfl | hm
    · exact List.cons_ne_nil _ _
    · exact hf piece hm

theorem pieces_ne_nil {α : Type} (n : Nat) (xs : List α) : ∀ piece ∈ pieces n xs, piece ≠ [] :=
  pieces_go_ne_nil n nofun

namespace Read

theorem given_bytes {piece : Bytes} (h : piece ≠ []) (rest : List Read) :
    given (.bytes piece :: rest) = piece ++ given rest := by
  cases piece with
  | nil => exact absurd rfl h
  | cons b bytes => rfl

theorem failure?_bytes {piece : Bytes} (h : piece ≠ []) (rest : List Read) :
    failure? (.bytes piece :: rest) = failure? rest := by
  cases piece with
  | nil => exact absurd rfl h
  | cons b bytes => rfl

/-- Bytes may come in pieces. -/
theorem given_pieces {parts : List Bytes} (h : ∀ piece ∈ parts, piece ≠ []) (rest : List Read) :
    given (parts.map .bytes ++ rest) = parts.flatten ++ given rest ∧
      failure? (parts.map .bytes ++ rest) = failure? rest := by
  induction parts with
  | nil => exact ⟨rfl, rfl⟩
  | cons piece others ih =>
    obtain ⟨hg, hf⟩ := ih fun more hm => h more (List.mem_cons_of_mem _ hm)
    have hp := h piece List.mem_cons_self
    rw [List.map_cons, List.cons_append, given_bytes hp, failure?_bytes hp, hg, hf,
      List.flatten_cons, List.append_assoc]
    exact ⟨rfl, rfl⟩

/-- The size of a single read changes neither the bytes nor the way in which a source stops. -/
theorem given_cut (size : Nat) (reads : List Read) :
    given (reads.flatMap (Transfer.cut size)) = given reads ∧
      failure? (reads.flatMap (Transfer.cut size)) = failure? reads := by
  induction reads with
  | nil => exact ⟨rfl, rfl⟩
  | cons read rest ih =>
    rw [List.flatMap_cons]
    match read with
    | .failure reason => exact ⟨rfl, rfl⟩
    | .bytes [] => exact ⟨rfl, rfl⟩
    | .bytes (b :: more) =>
      obtain ⟨hg, hf⟩ := given_pieces (pieces_ne_nil size (b :: more))
        (rest.flatMap (Transfer.cut size))
      rw [pieces_flatten, ih.1] at hg
      exact ⟨hg, hf.trans ih.2⟩

end Read

namespace Transfer
open Session

section pump

variable {σ : Type} [Parser σ] {s : Session σ} {piece : Bytes}

theorem pump_pending {s' : Session σ} (hn : piece ≠ []) (h : s.feed piece = (.ok .pending, s'))
    (served : List Nat) (rest : List Read) :
    pump s served (.bytes piece :: rest) = pump s' (piece.length :: served) rest := by
  cases piece with
  | nil => exact absurd rfl hn
  | cons b more =>
    rw [pump]
    simp only [h]

/-- A read that settles the session is the last. -/
theorem pump_settled (hn : piece ≠ []) (h : (s.feed piece).1 ≠ .ok .pending) (count : Nat)
    (failure : Option String) (served : List Nat) (rest : List Read) :
    pump s served (.bytes piece :: rest) =
      ⟨ending count failure (s.feed piece), (piece.length :: served).reverse⟩ := by
  cases piece with
  | nil => exact absurd rfl hn
  | cons b more =>
    rw [pump]
    match hf : s.feed (b :: more) with
    | (.ok .pending, s') => exact absurd (congrArg Prod.fst hf) h
    | (.ok (.ready result), s') => rfl
    | (.error e, s') => rfl

/-- Every read but the last takes a byte at least, so there is at most one read more than bytes. -/
theorem length_served (s : Session σ) (served : List Nat) (reads : List Read) :
    (pump s served reads).served.length ≤ served.length + (Read.given reads).length + 1 := by
  induction reads generalizing s served with
  | nil => simp [pump, Read.given]
  | cons read rest ih =>
    match read with
    | .failure reason => simp [pump, Read.given]
    | .bytes [] => simp [pump, Read.given]
    | .bytes (b :: more) =>
      have hn : b :: more ≠ [] := List.cons_ne_nil b more
      have hpos : 0 < (b :: more).length := Nat.succ_pos _
      generalize b :: more = piece at hn hpos
      rw [Read.given_bytes hn, List.length_append]
      by_cases hp : (s.feed piece).1 = .ok .pending
      · obtain ⟨s', hf⟩ : ∃ s', s.feed piece = (.ok .pending, s') := ⟨_, Prod.ext hp rfl⟩
        have hr := ih s' (piece.length :: served)
        rw [List.length_cons] at hr
        rw [pump_pending hn hf]
        omega
      · rw [pump_settled hn hp 0 none, List.length_reverse, List.length_cons]
        omega

omit [Parser σ] in
theorem ending_error {made : Except DecodeError Feed × Session σ} {e : DecodeError}
    (h : made.1 = .error e) (count : Nat) (failure : Option String) :
    ending count failure made = .error (.decode e) := by
  obtain ⟨answer, s⟩ := made
  cases h
  rfl

omit [Parser σ] in
/-- Once a session is settled, only its answer matters. -/
theorem ending_settled {made other : Except DecodeError Feed × Session σ}
    (h : made.1 ≠ .ok .pending) (ho : made.1 = other.1) (count : Nat) (failure : Option String) :
    ending count failure made = ending count failure other := by
  obtain ⟨answer, s⟩ := made
  obtain ⟨answer', s'⟩ := other
  cases ho
  match answer, h with
  | .ok (.ready result), _ => rfl
  | .error e, _ => rfl

end pump

variable {s : Session ResponseParser} {stage : Stage} {bytes : Bytes}

/-- The end of the input tells a session that waits no more than that. -/
theorem close_ending (h : s.Waits stage bytes) :
    s.close.1.mapError ReadError.decode = ending bytes.length none (s.feed []) := by
  rw [h.close_eq, h.feed_nil, ending, state, h.live]
  rfl

/-- A session that waits makes the same of the reads as of all their bytes at once. -/
theorem pump_agrees (h : s.Waits stage bytes) (served : List Nat) (reads : List Read) :
    Agree s.limits (bytes ++ Read.given reads) (pump s served reads).outcome
      (ending (bytes.length + (Read.given reads).length) (Read.failure? reads)
        (s.feed (Read.given reads))) := by
  induction reads generalizing s stage bytes served with
  | nil => exact .inl (close_ending h)
  | cons read rest ih =>
    match read with
    | .failure reason =>
      apply Or.inl
      change _ = ending _ (some reason) (s.feed [])
      rw [h.feed_nil]
      rfl
    | .bytes [] => exact .inl (close_ending h)
    | .bytes (b :: more) =>
      have hn : b :: more ≠ [] := List.cons_ne_nil b more
      generalize b :: more = piece at hn
      rw [Read.given_bytes hn, Read.failure?_bytes hn]
      by_cases hp : (s.feed piece).1 = .ok .pending
      · obtain ⟨⟨stage', hw⟩, hl, hm⟩ := h.feed_pending hp
        have hr := ih hw (piece.length :: served)
        rw [hl, List.append_assoc, ← hm, List.length_append, Nat.add_assoc] at hr
        rw [pump_pending hn (Prod.ext hp rfl), List.length_append]
        exact hr
      · rw [pump_settled hn hp (bytes.length + (piece ++ Read.given rest).length)
          (Read.failure? rest)]
        rcases h.feed_settled hp (Read.given rest) with he | ⟨ho, fault, fault', hf, hf'⟩
        · exact .inl (ending_settled hp he _ _)
        · exact .inr ⟨ho, fault, fault', ending_error hf _ _, ending_error hf' _ _⟩

section size

variable (limits : Limits) (size : Word)

/-- The size of a single read is no part of what a session does. -/
theorem turn_readChunkSize (stage : Stage) (p : ResponseParser) :
    turn { limits with readChunkSize := size } stage p = turn limits stage p := by
  cases stage <;> rfl

theorem ending_readChunkSize (bytes : Bytes) (count : Nat) (failure : Option String) :
    ending count failure ((fresh { limits with readChunkSize := size }).feed bytes) =
      ending count failure ((fresh limits).feed bytes) := by
  have ht : turn (fresh { limits with readChunkSize := size }).limits (Stage.wake .idle bytes)
      ((fresh { limits with readChunkSize := size }).parser.supply bytes) =
        turn (fresh limits).limits (Stage.wake .idle bytes) ((fresh limits).parser.supply bytes) :=
    turn_readChunkSize limits size _ _
  rw [(fresh_waits _).feed_eq, (fresh_waits limits).feed_eq, ht]
  rcases turn (fresh limits).limits (Stage.wake .idle bytes) ((fresh limits).parser.supply bytes)
    with ⟨_ | _ | _, _⟩ <;> rfl

end size

theorem Agree.symm {limits : Limits} {a b : Except ReadError DecodeResult}
    (h : Agree limits bytes a b) : Agree limits bytes b a := by
  rcases h with he | ⟨ho, fault, fault', ha, hb⟩
  · exact .inl he.symm
  · exact .inr ⟨ho, fault', fault, hb, ha⟩

theorem Agree.trans {limits : Limits} {a b c : Except ReadError DecodeResult}
    (h : Agree limits bytes a b) (h' : Agree limits bytes b c) : Agree limits bytes a c := by
  rcases h with rfl | ⟨ho, fault, fault', ha, hb⟩
  · exact h'
  rcases h' with rfl | ⟨-, _, fault'', -, hc⟩
  · exact .inr ⟨ho, fault, fault', ha, hb⟩
  · exact .inr ⟨ho, fault, fault'', ha, hc⟩

theorem Agree.eq_ok {limits : Limits} {a : Except ReadError DecodeResult} {result : DecodeResult}
    (h : Agree limits bytes a (.ok result)) : a = .ok result := by
  rcases h with he | ⟨-, fault, fault', -, hb⟩
  · exact he
  · cases hb

theorem run_of_holds {limits : Limits} (h : Memory.Holds limits.readSize 1) (reads : List Read) :
    run limits reads = pump (fresh limits) [] (reads.flatMap (cut limits.readSize)) :=
  if_pos h

theorem run_of_not_holds {limits : Limits} (h : ¬Memory.Holds limits.readSize 1)
    (reads : List Read) : run limits reads = ⟨.error (.decode .beyondMemory), []⟩ :=
  if_neg h

theorem run_agrees {limits : Limits} (h : Memory.Holds limits.readSize 1) (reads : List Read) :
    Agree limits (Read.given reads) (run limits reads).outcome
      (ending (Read.given reads).length (Read.failure? reads)
        ((fresh limits).feed (Read.given reads))) := by
  obtain ⟨hg, hf⟩ := Read.given_cut limits.readSize reads
  have hp := pump_agrees (fresh_waits limits) [] (reads.flatMap (cut limits.readSize))
  rw [hg, hf, List.length_nil, Nat.zero_add] at hp
  rw [run_of_holds h]
  exact hp

/-- A transfer without a buffer stops, as a session may that is fed the bytes. -/
theorem agree_beyondMemory_iff {limits : Limits} {count : Nat} {failure : Option String}
    {made : Except DecodeError Feed × Session ResponseParser} :
    Agree limits bytes (.error (.decode .beyondMemory)) (ending count failure made) ↔
      made.1 = .error .beyondMemory := by
  constructor
  · rintro (he | ⟨-, _, _, ha, -⟩)
    · obtain ⟨answer, s⟩ := made
      match answer with
      | .error e =>
        cases he
        rfl
      | .ok (.ready result) => cases he
      | .ok .pending => cases failure <;> cases he
    · cases ha
  · intro he
    exact .inl (ending_error he count failure).symm

theorem run_agrees_iff_holds (limits : Limits) (reads : List Read) :
    Agree limits (Read.given reads) (run limits reads).outcome
        (ending (Read.given reads).length (Read.failure? reads)
          ((fresh limits).feed (Read.given reads))) ↔
      Memory.Holds limits.readSize 1 ∨
        ((fresh limits).feed (Read.given reads)).1 = .error .beyondMemory := by
  by_cases h : Memory.Holds limits.readSize 1
  · exact iff_of_true (run_agrees h reads) (.inl h)
  · rw [run_of_not_holds h, or_iff_right h]
    exact agree_beyondMemory_iff

/-- A transfer comes to what a session makes of all bytes that its source gives before it stops, exactly
where a read can have a buffer or the session stops as well. Among reads that can, how much is asked
for in one and how the bytes come does not matter. There is at most one read more than bytes. -/
theorem run_agrees_iff (limits : Limits) (reads : List Read) :
    (Agree limits (Read.given reads) (run limits reads).outcome
        (ending (Read.given reads).length (Read.failure? reads)
          ((fresh limits).feed (Read.given reads))) ↔
      Memory.Holds limits.readSize 1 ∨
        ((fresh limits).feed (Read.given reads)).1 = .error .beyondMemory) ∧
      (∀ size others, Read.given others = Read.given reads →
        Read.failure? others = Read.failure? reads → Memory.Holds limits.readSize 1 →
          Memory.Holds { limits with readChunkSize := size }.readSize 1 →
            Agree limits (Read.given reads)
              (run { limits with readChunkSize := size } others).outcome
              (run limits reads).outcome) ∧
      (run limits reads).served.length ≤ (Read.given reads).length + 1 := by
  refine ⟨run_agrees_iff_holds limits reads, ?_, ?_⟩
  · intro size others hg hf holds holds'
    have other := run_agrees holds' others
    rw [hg, hf, ending_readChunkSize] at other
    exact Agree.trans other (run_agrees holds reads).symm
  · by_cases h : Memory.Holds limits.readSize 1
    · have hs := length_served (fresh limits) [] (reads.flatMap (cut limits.readSize))
      rw [(Read.given_cut _ reads).1, List.length_nil, Nat.zero_add] at hs
      rwa [run_of_holds h]
    · rw [run_of_not_holds h]
      exact Nat.zero_le _

/-- Reads that go on after the response. -/
def wholeRead : List Read := [.bytes oneBundle, .failure "late"]

/-- The same bytes in other reads. -/
def cutReads : List Read :=
  [.bytes (oneBundle.take 25), .bytes (oneBundle.drop 25), .failure "late"]

theorem run_agrees_iff_late : Read.given cutReads = Read.given wholeRead ∧
    Read.failure? cutReads = Read.failure? wholeRead ∧
      (run {} wholeRead).outcome = .ok oneBundleResult ∧
        (run { readChunkSize := 0 } cutReads).outcome = .ok oneBundleResult := by
  obtain ⟨whole, apart, -⟩ := run_agrees_iff {} wholeRead
  have hg : Read.given cutReads = Read.given wholeRead := rfl
  have hf : Read.failure? cutReads = Read.failure? wholeRead := rfl
  have holds : Memory.Holds ({} : Limits).readSize 1 := by decide
  have hready : ending (Read.given wholeRead).length (Read.failure? wholeRead)
      ((fresh {}).feed (Read.given wholeRead)) = .ok oneBundleResult := by decide +kernel
  have hwhole := (hready ▸ whole.mpr (.inl holds)).eq_ok
  have hcut := hwhole ▸ apart 0 cutReads hg hf holds (by decide)
  exact ⟨hg, hf, hwhole, hcut.eq_ok⟩

/-- The response comes, and there is no buffer for a read of a byte more than a buffer may take. -/
theorem not_agree_beyondMemory :
    ((fresh { readChunkSize := 0x8000000000000000 }).feed (Read.given wholeRead)).1 =
        .ok (.ready oneBundleResult) ∧
      (run { readChunkSize := 0x8000000000000000 } wholeRead).outcome =
          .error (.decode .beyondMemory) ∧
        ¬Agree { readChunkSize := 0x8000000000000000 } (Read.given wholeRead)
          (run { readChunkSize := 0x8000000000000000 } wholeRead).outcome
          (ending (Read.given wholeRead).length (Read.failure? wholeRead)
            ((fresh { readChunkSize := 0x8000000000000000 }).feed (Read.given wholeRead))) := by
  have ready : ((fresh { readChunkSize := 0x8000000000000000 }).feed (Read.given wholeRead)).1 =
      .ok (.ready oneBundleResult) := by decide +kernel
  have beyond :
      ¬Memory.Holds ({ readChunkSize := 0x8000000000000000 } : Limits).readSize 1 := by decide
  rw [run_of_not_holds beyond, agree_beyondMemory_iff, ready]
  exact ⟨rfl, rfl, nofun⟩

end Transfer

end SeismicStream
