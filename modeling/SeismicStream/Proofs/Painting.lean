import SeismicStream.Bundle.Plan
import SeismicStream.Proofs.Bytes

namespace SeismicStream.Sample

theorem paintAll_append (target : Array Sample) (front back : List (Nat × Sample)) :
    paintAll target (front ++ back) = paintAll (paintAll target front) back :=
  List.foldl_append

@[simp] theorem size_paintAll (target : Array Sample) (writes : List (Nat × Sample)) :
    (paintAll target writes).size = target.size := by
  induction writes generalizing target with
  | nil => rfl
  | cons w rest ih =>
    rw [paintAll, List.foldl_cons]
    exact (ih _).trans Array.size_setIfInBounds

/-- Samples that go to positions side by side. -/
theorem paintAll_range' (target : Array Sample) (start n : Nat) (samples : List Sample) :
    paintAll target ((List.range' start n).zip samples) =
      paint target start (samples.take n) := by
  induction n generalizing target start samples with
  | zero => rfl
  | succ n ih =>
    cases samples with
    | nil => rfl
    | cons s rest =>
      rw [List.range'_succ, List.zip_cons_cons, List.take_succ_cons, paint]
      exact ih _ _ _

/-- A copy is made of the samples that it takes and the positions that it goes to. -/
theorem copySamples_eq (source target : Array Sample) (first length start : Word) :
    copySamples source first length target start =
      paintAll target ((List.range' start.toNat length.toNat).zip (source.toList.drop first.toNat)) := by
  rw [paintAll_range', copySamples]
  simp

theorem lastAt?_cons (write : Nat × Sample) (rest : List (Nat × Sample)) (j : Nat) :
    lastAt? (write :: rest) j =
      (lastAt? rest j).or (if j = write.1 then some write.2 else none) := by
  obtain ⟨position, s⟩ := write
  have hs : [(position, s)].lookup j = if j = position then some s else none := by
    by_cases h : j = position
    · rw [h, List.lookup_cons_self, if_pos rfl]
    · rw [List.lookup_cons, beq_false_of_ne h, if_neg h]
      rfl
  rw [lastAt?, List.reverse_cons, List.lookup_append, hs, lastAt?]

theorem lastAt?_eq_none {writes : List (Nat × Sample)} {j : Nat}
    (h : j ∉ writes.map Prod.fst) : lastAt? writes j = none := by
  induction writes with
  | nil => rfl
  | cons write rest ih =>
    rw [List.map_cons, List.mem_cons, not_or] at h
    rw [lastAt?_cons, ih h.2, if_neg h.1]
    rfl

/-- A position holds what was put there last, or else what it held before. -/
theorem getElem?_paintAll {target : Array Sample} {j : Nat} (h : j < target.size)
    (writes : List (Nat × Sample)) :
    (paintAll target writes)[j]? = some ((lastAt? writes j).getD target[j]) := by
  induction writes generalizing target with
  | nil => simp [paintAll, lastAt?, h]
  | cons write rest ih =>
    have hp : paintAll target (write :: rest) =
      paintAll (target.setIfInBounds write.1 write.2) rest := rfl
    have hj : j < (target.setIfInBounds write.1 write.2).size := by simpa using h
    rw [hp, ih hj, lastAt?_cons, Array.getElem_setIfInBounds h]
    cases lastAt? rest j with
    | some s => rfl
    | none => by_cases he : j = write.1 <;> simp [he, eq_comm]

theorem bytes_eq (s : Sample) : ∃ a b c d, bytes s = [a, b, c, d] ∧ ofBytes a b c d = s := by
  have hn : Bytes.toNat (Bytes.ofNat 4 s.toNat) = s.toNat := Bytes.toNat_ofNat s.toNat_lt
  refine ⟨_, _, _, _, rfl, ?_⟩
  change UInt32.ofNat (Bytes.toNat (Bytes.ofNat 4 s.toNat)) = s
  rw [hn, UInt32.ofNat_toNat]

theorem length_payload (samples : List Sample) : (payload samples).length = 4 * samples.length := by
  induction samples with
  | nil => rfl
  | cons s rest ih =>
    obtain ⟨a, b, c, d, hb, -⟩ := bytes_eq s
    rw [payload, List.flatMap_cons, ← payload, List.length_append, ih, hb]
    simp only [List.length_cons, List.length_nil]
    omega

theorem length_lt_four {values : Bytes}
    (h : ∀ a b c d rest, values = a :: b :: c :: d :: rest → False) : values.length < 4 := by
  match values, h with
  | [], _ | [_], _ | [_, _], _ | [_, _, _], _ => simp
  | a :: b :: c :: d :: rest, h => exact absurd rfl (h a b c d rest)

theorem length_ofPayload (values : Bytes) : (ofPayload values).length = values.length / 4 := by
  fun_induction ofPayload values with
  | case1 a b c d rest ih =>
    simp only [List.length_cons, ih]
    omega
  | case2 values h => exact (Nat.div_eq_of_lt (length_lt_four h)).symm

/-- Bytes that fall into fours are read as the samples of a payload. -/
theorem listOf?_eq (front : Array Sample) (values : Bytes) : listOf? front values =
    if values.length % 4 = 0 then some (front ++ ofPayload values) else none := by
  fun_induction listOf? front values with
  | case1 front => simp [ofPayload]
  | case2 front a b c d rest ih =>
    have hl : (a :: b :: c :: d :: rest).length % 4 = rest.length % 4 := by
      simp only [List.length_cons]
      omega
    rw [ih, hl, ofPayload]
    simp
  | case3 values front h0 h4 =>
    have hpos : 0 < values.length := List.length_pos_iff.mpr fun h => h0 h
    have hlt := length_lt_four h4
    rw [if_neg (by omega)]

theorem listOf?_payload_eq {values : Bytes} (h : values.length % 4 = 0) :
    listOf? #[] values = some (ofPayload values).toArray := by
  rw [listOf?_eq, if_pos h]
  simp

theorem listOf?_misaligned {values : Bytes} (h : values.length % 4 ≠ 0) :
    listOf? #[] values = none := by
  rw [listOf?_eq, if_neg h]

/-- The samples of a payload are the ones that it was made of. -/
theorem ofPayload_payload (samples : List Sample) : ofPayload (payload samples) = samples := by
  induction samples with
  | nil => rfl
  | cons s rest ih =>
    obtain ⟨a, b, c, d, hb, hs⟩ := bytes_eq s
    rw [payload, List.flatMap_cons, hb, ← payload]
    simp only [List.cons_append, List.nil_append, ofPayload, hs, ih]

end SeismicStream.Sample
