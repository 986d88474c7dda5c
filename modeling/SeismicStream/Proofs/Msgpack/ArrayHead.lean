import SeismicStream.Proofs.Msgpack.Extent

namespace SeismicStream.Msgpack

theorem IsArrayHead.isToken {n : Nat} {head : Bytes} (h : IsArrayHead n head) : IsToken head n := by
  cases h with
  | short h => exact .values (.shortArray h)
  | @array16 count wide => simpa using IsToken.entries .array16 wide
  | @array32 count wide => simpa using IsToken.entries .array32 wide

theorem IsArrayHead.length_pos {n : Nat} {head : Bytes} (h : IsArrayHead n head) :
    0 < head.length :=
  h.isToken.length_pos

/-- An array is its head and the values inside. -/
theorem IsArrayHead.isValue {n : Nat} {head inside : Bytes} (h : IsArrayHead n head)
    (hi : AreValues n inside) : IsValue (head ++ inside) := by
  have := AreValues.value h.isToken hi .none
  rwa [List.append_nil] at this

theorem wide_complete (count rest : Bytes) : arrayHead.wide count.length (count ++ rest) =
    some (Bytes.toNat count, 1 + count.length) := by
  simp only [arrayHead.wide, Bytes.takeExact_eq_some_iff.mpr (And.intro rfl rfl), Option.map_some]

theorem wide_sound {width n size : Nat} {bs : Bytes} (h : arrayHead.wide width bs = some (n, size)) :
    ∃ count rest, bs = count ++ rest ∧ count.length = width ∧ n = Bytes.toNat count ∧
      size = 1 + width := by
  obtain ⟨⟨count, rest⟩, ht, he⟩ := Option.map_eq_some_iff.mp h
  obtain ⟨rfl, hl⟩ := Bytes.takeExact_eq_some_iff.mp ht
  obtain ⟨rfl, rfl⟩ := Prod.mk.inj he
  exact ⟨count, rest, rfl, hl, rfl, rfl⟩

theorem arrayHead_complete {n : Nat} {head : Bytes} (h : IsArrayHead n head) (rest : Bytes) :
    arrayHead (head ++ rest) = .ok (some (n, head.length)) := by
  cases h with
  | short h =>
    have ht := toNat_ofNat_add (show 0x90 + n < 256 by omega)
    simp only [List.singleton_append, arrayHead, UInt8.lt_iff_toNat_lt, UInt8.le_iff_toNat_le,
      UInt8.reduceToNat, ht]
    rw [if_pos (by omega), Nat.add_sub_cancel_left]
    rfl
  | @array16 count wide | @array32 count wide =>
    have hw := wide_complete count rest
    rw [wide] at hw
    rw [List.length_cons, wide]
    exact congrArg Except.ok hw

theorem arrayHead_sound {n size : Nat} {bs : Bytes} (h : arrayHead bs = .ok (some (n, size))) :
    ∃ head rest, bs = head ++ rest ∧ IsArrayHead n head ∧ size = head.length := by
  cases bs with
  | nil => cases h
  | cons tag bs =>
    simp only [arrayHead] at h
    split at h
    · rename_i ht
      obtain ⟨rfl, rfl⟩ := Prod.mk.inj (Option.some.inj (Except.ok.inj h))
      simp only [UInt8.lt_iff_toNat_lt, UInt8.le_iff_toNat_le, UInt8.reduceToNat] at ht
      obtain ⟨n, hn, rfl⟩ := exists_offset ht.1 ht.2
      have hs := IsArrayHead.short hn
      rw [toNat_ofNat_add (by omega), Nat.add_sub_cancel_left]
      exact ⟨_, bs, rfl, hs, rfl⟩
    split at h
    · rename_i ht
      subst ht
      obtain ⟨count, rest, rfl, hl, rfl, rfl⟩ := wide_sound (Except.ok.inj h)
      exact ⟨0xDC :: count, rest, rfl, .array16 hl, by simp [hl]⟩
    split at h
    · rename_i ht
      subst ht
      obtain ⟨count, rest, rfl, hl, rfl, rfl⟩ := wide_sound (Except.ok.inj h)
      exact ⟨0xDD :: count, rest, rfl, .array32 hl, by simp [hl]⟩
    · cases h

theorem arrayHead_error_append {bs : Bytes} {e : FramingError} (h : arrayHead bs = .error e)
    (more : Bytes) : arrayHead (bs ++ more) = .error e := by
  cases bs with
  | nil => cases h
  | cons tag bs =>
    rw [← h]
    unfold arrayHead at h ⊢
    repeat' split at h
    all_goals simp_all

theorem arrayHead_append {bs : Bytes} (h : arrayHead bs ≠ .ok none) (more : Bytes) :
    arrayHead (bs ++ more) = arrayHead bs := by
  cases he : arrayHead bs with
  | error e => exact arrayHead_error_append he more
  | ok answer =>
    cases answer with
    | none => exact absurd he h
    | some found =>
      obtain ⟨head, rest, rfl, hh, hs⟩ := arrayHead_sound he
      rw [List.append_assoc, arrayHead_complete hh, ← hs]

theorem envelope_eq_some_iff {bs : Bytes} {size : Nat} : envelope bs = .ok (some size) ↔
    ∃ head rest, bs = head ++ rest ∧ IsArrayHead 2 head ∧ size = head.length := by
  unfold envelope
  constructor
  · intro h
    split at h
    · cases h
    · cases h
    · rename_i count n ha
      split at h
      · rename_i hc
        cases h
        exact hc ▸ arrayHead_sound ha
      · cases h
  · intro h
    obtain ⟨head, rest, rfl, hh, rfl⟩ := h
    rw [arrayHead_complete hh]
    rfl

theorem envelope_append {bs : Bytes} (h : envelope bs ≠ .ok none) (more : Bytes) :
    envelope (bs ++ more) = envelope bs := by
  have ha : arrayHead bs ≠ .ok none := fun ha => h (by rw [envelope, ha])
  rw [envelope, envelope, arrayHead_append ha]

end SeismicStream.Msgpack
