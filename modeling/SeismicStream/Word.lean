namespace SeismicStream

/-- Counts and positions on the wire are unsigned words of 64 bits. -/
abbrev Word := UInt64

namespace Word

/-- The largest word. -/
def last : Word := 0xFFFFFFFFFFFFFFFF

/-- The sum, unless it leaves the word. -/
def add? (a b : Word) : Option Word :=
  if a.toNat + b.toNat < UInt64.size then some (a + b) else none

/-- The product, unless it leaves the word. -/
def mul? (a b : Word) : Option Word :=
  if a.toNat * b.toNat < UInt64.size then some (a * b) else none

/-- The product, or the largest word where it leaves the word. -/
def mulCapped (a b : Word) : Word :=
  (mul? a b).getD last

theorem toNat_last : last.toNat = UInt64.size - 1 := rfl

theorem add?_eq_some_iff {a b c : Word} :
    add? a b = some c ↔ c.toNat = a.toNat + b.toNat := by
  unfold add?
  split
  · next h =>
    rw [Option.some.injEq, ← UInt64.toNat_inj, UInt64.toNat_add, Nat.mod_eq_of_lt h]
    exact eq_comm
  · next h =>
    have := c.toNat_lt
    exact ⟨(nomatch ·), fun e => absurd (e ▸ this) h⟩

theorem mul?_eq_some_iff {a b c : Word} :
    mul? a b = some c ↔ c.toNat = a.toNat * b.toNat := by
  unfold mul?
  split
  · next h =>
    rw [Option.some.injEq, ← UInt64.toNat_inj, UInt64.toNat_mul, Nat.mod_eq_of_lt h]
    exact eq_comm
  · next h =>
    have := c.toNat_lt
    exact ⟨(nomatch ·), fun e => absurd (e ▸ this) h⟩

end Word

end SeismicStream
