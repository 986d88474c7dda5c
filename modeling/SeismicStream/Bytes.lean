namespace SeismicStream

/-- A string of bytes, first byte first. -/
abbrev Bytes := List UInt8

namespace Bytes

/-- What is left after the first `n` bytes, if there are that many. -/
def dropExact : Nat → Bytes → Option Bytes
  | 0, bs => some bs
  | _ + 1, [] => none
  | n + 1, _ :: bs => dropExact n bs

/-- The first `n` bytes and what is left after them, if there are that many. -/
def takeExact (n : Nat) (bs : Bytes) : Option (Bytes × Bytes) :=
  (dropExact n bs).map fun rest => (bs.take n, rest)

/-- The number that the bytes spell, most significant byte first. -/
def toNat (bs : Bytes) : Nat :=
  bs.foldl (fun n b => n * 256 + b.toNat) 0

/-- The lowest `width` bytes of a number, most significant byte first. -/
def ofNat : (width : Nat) → Nat → Bytes
  | 0, _ => []
  | width + 1, n => ofNat width (n / 256) ++ [UInt8.ofNat n]

theorem dropExact_eq_some_iff {n : Nat} {bs rest : Bytes} :
    dropExact n bs = some rest ↔ n ≤ bs.length ∧ bs.drop n = rest := by
  induction n generalizing bs with
  | zero => simp [dropExact]
  | succ n ih =>
    cases bs with
    | nil => simp [dropExact]
    | cons b bs => simp [dropExact, ih]

theorem takeExact_eq_some_iff {n : Nat} {bs front rest : Bytes} :
    takeExact n bs = some (front, rest) ↔ bs = front ++ rest ∧ front.length = n := by
  simp only [takeExact, Option.map_eq_some_iff, dropExact_eq_some_iff, Prod.mk.injEq]
  constructor
  · rintro ⟨r, ⟨hn, rfl⟩, rfl, rfl⟩
    exact ⟨(List.take_append_drop n bs).symm, by simp [hn]⟩
  · rintro ⟨rfl, rfl⟩
    exact ⟨rest, ⟨by simp, by simp⟩, by simp, rfl⟩

theorem takeExact_length {n : Nat} {bs front rest : Bytes}
    (h : takeExact n bs = some (front, rest)) : bs.length = n + rest.length := by
  obtain ⟨rfl, rfl⟩ := takeExact_eq_some_iff.1 h
  simp

theorem length_ofNat (width n : Nat) : (ofNat width n).length = width := by
  induction width generalizing n with
  | zero => rfl
  | succ width ih => simp [ofNat, ih]

end Bytes

/-- The pieces of a list, `n` elements each; the last may be shorter. A piece holds at least one
element, and an empty list has no piece. -/
def pieces {α : Type} (n : Nat) (xs : List α) : List (List α) :=
  go xs []
where
  go (xs : List α) (front : List (List α)) : List (List α) :=
    match xs with
    | [] => front.reverse
    | x :: rest => go (rest.drop (n - 1)) ((x :: rest.take (n - 1)) :: front)
  termination_by xs.length
  decreasing_by simp only [List.length_drop, List.length_cons]; omega

theorem pieces_go_flatten {α : Type} (n : Nat) (xs : List α) (front : List (List α)) :
    (pieces.go n xs front).flatten = front.reverse.flatten ++ xs := by
  fun_induction pieces.go n xs front with
  | case1 front => simp
  | case2 front x rest ih => simp [ih]

/-- Nothing is lost between the pieces. -/
theorem pieces_flatten {α : Type} (n : Nat) (xs : List α) : (pieces n xs).flatten = xs := by
  simp [pieces, pieces_go_flatten]

end SeismicStream
