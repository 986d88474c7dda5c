import SeismicStream.Word

namespace SeismicStream.Word

theorem toNat_mulCapped {a b : Word} (h : a.toNat * b.toNat < UInt64.size) :
    (mulCapped a b).toNat = a.toNat * b.toNat := by
  have hm : mul? a b = some (a * b) := if_pos h
  rw [mulCapped, hm, Option.getD_some]
  exact mul?_eq_some_iff.mp hm

/-- The position `i * stride + skip`, when it is a word. -/
theorem toNat_placed {i stride skip : Word} (h : i.toNat * stride.toNat + skip.toNat < UInt64.size) :
    (((mul? i stride).bind (add? · skip)).getD last).toNat = i.toNat * stride.toNat + skip.toNat := by
  have hm : mul? i stride = some (i * stride) := if_pos (by omega)
  have hp := mul?_eq_some_iff.mp hm
  have ha : add? (i * stride) skip = some (i * stride + skip) := if_pos (by rwa [hp])
  rw [hm, Option.bind_some, ha, Option.getD_some, add?_eq_some_iff.mp ha, hp]

theorem toNat_add {a b : Word} (h : a.toNat + b.toNat < UInt64.size) :
    (a + b).toNat = a.toNat + b.toNat := by
  rw [UInt64.toNat_add]
  exact Nat.mod_eq_of_lt h

theorem toNat_succ {i : Word} (h : i.toNat + 1 < UInt64.size) : (i + 1).toNat = i.toNat + 1 :=
  toNat_add h

end SeismicStream.Word
