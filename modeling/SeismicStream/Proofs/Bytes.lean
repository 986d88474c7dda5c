import SeismicStream.Bytes

namespace SeismicStream

theorem Bytes.toNat_append_byte (bs : Bytes) (b : UInt8) :
    Bytes.toNat (bs ++ [b]) = Bytes.toNat bs * 256 + b.toNat := by
  simp [Bytes.toNat, List.foldl_append]

/-- The lowest bytes of a number spell the number when it has no others. -/
theorem Bytes.toNat_ofNat {width n : Nat} (h : n < Nat.pow 256 width) :
    Bytes.toNat (Bytes.ofNat width n) = n := by
  induction width generalizing n with
  | zero =>
    obtain rfl : n = 0 := Nat.lt_one_iff.mp h
    rfl
  | succ width ih =>
    have hd : n / 256 < Nat.pow 256 width := by
      rw [Nat.div_lt_iff_lt_mul (by decide)]
      exact h
    rw [Bytes.ofNat, Bytes.toNat_append_byte, ih hd, UInt8.toNat_ofNat']
    exact Nat.div_add_mod' n 256

end SeismicStream
