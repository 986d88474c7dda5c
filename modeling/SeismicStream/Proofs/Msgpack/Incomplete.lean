import SeismicStream.Proofs.Msgpack.ArrayHead

namespace SeismicStream.Msgpack

theorem takeExact_eq_none {n : Nat} {bs : Bytes} (h : Bytes.takeExact n bs = none) :
    bs.length < n := by
  apply Nat.lt_of_not_le
  intro hn
  have ht : Bytes.takeExact n bs = some (bs.take n, bs.drop n) :=
    Bytes.takeExact_eq_some_iff.mpr
      ⟨(List.take_append_drop n bs).symm, List.length_take_of_le hn⟩
  rw [h] at ht
  cases ht

theorem Lexed.fixed_eq_short {count : Nat} {make : Bytes → Token} {bs : Bytes}
    (h : Lexed.fixed count bs make = .short) : bs.length < count := by
  unfold Lexed.fixed at h
  split at h
  · cases h
  · rename_i ht
    exact takeExact_eq_none ht

theorem Lexed.counted_eq_short {width extra : Nat} {make : Bytes → Token} {bs : Bytes}
    (h : Lexed.counted width extra bs make = .short) : bs.length < width ∨
      ∃ length body, bs = length ++ body ∧ length.length = width ∧
        body.length < extra + Bytes.toNat length := by
  unfold Lexed.counted at h
  split at h
  · rename_i length body ht
    obtain ⟨rfl, hl⟩ := Bytes.takeExact_eq_some_iff.mp ht
    split at h
    · cases h
    · rename_i hb
      exact .inr ⟨length, body, rfl, hl, takeExact_eq_none hb⟩
  · rename_i ht
    exact .inl (takeExact_eq_none ht)

/-- Zeros after some bytes, up to a length. -/
theorem exists_padding {n : Nat} {bs : Bytes} (h : bs.length ≤ n) :
    ∃ more : Bytes, (bs ++ more).length = n :=
  ⟨List.replicate (n - bs.length) 0, by simp [Nat.add_sub_cancel' h]⟩

/-- A token that is cut off becomes whole with more bytes. -/
theorem exists_token_of_short {bs : Bytes} (h : lex bs = .short) :
    ∃ more children, IsToken (bs ++ more) children := by
  cases bs with
  | nil => exact ⟨[0xC0], 0, @IsToken.bytes 0xC0 0 [] .nil rfl⟩
  | cons tag rest =>
    rcases assigned_or_reserved tag with rfl | ⟨form, ha⟩
    · cases h
    obtain ⟨f, hr, hf⟩ := ha.reads
    rw [hf] at h
    cases hr with
    | bytes leaf =>
      obtain ⟨more, hm⟩ := exists_padding (Nat.le_of_lt (Lexed.fixed_eq_short h))
      exact ⟨more, 0, .bytes ha hm⟩
    | @counted width extra make leaf =>
      rcases Lexed.counted_eq_short h with hl | ⟨length, body, rfl, hl, hb⟩
      · -- The length is cut off; any length will do, and then as many bytes as it says.
        obtain ⟨more, hm⟩ := exists_padding (Nat.le_of_lt hl)
        obtain ⟨body, hb⟩ : ∃ body : Bytes, body.length = extra + Bytes.toNat (rest ++ more) :=
          ⟨List.replicate _ 0, List.length_replicate⟩
        refine ⟨more ++ body, 0, ?_⟩
        rw [List.cons_append, ← List.append_assoc]
        exact .counted ha hm hb
      · obtain ⟨more, hm⟩ := exists_padding (Nat.le_of_lt hb)
        refine ⟨more, 0, ?_⟩
        rw [List.cons_append, List.append_assoc]
        exact .counted ha hl hm
    | values => cases h
    | entries inside =>
      obtain ⟨more, hm⟩ := exists_padding (Nat.le_of_lt (Lexed.fixed_eq_short h))
      exact ⟨more, _, .entries ha hm⟩

theorem areValues_nils (n : Nat) : AreValues n (List.replicate n 0xC0) := by
  induction n with
  | zero => exact .none
  | succ n ih =>
    have hn : IsToken [0xC0] 0 := @IsToken.bytes 0xC0 0 [] .nil rfl
    exact .value hn .none ih

/-- Bytes that a scan runs out of are cut off in values. The count of pending values may have been
capped, so there may be more of them. -/
theorem scan_none {bs : Bytes} {position pending : Nat} (h : scan bs position pending = .ok none)
    {count : Nat} (hc : pending ≤ count) : Incomplete (AreValues count) bs := by
  fun_induction scan bs position pending generalizing count with
  | case1 => cases h
  | case2 => cases h
  | case3 bs position pending hl =>
    obtain ⟨n, rfl⟩ : ∃ n, count = n + 1 := Nat.exists_eq_add_of_le' (Nat.le_trans (by simp) hc)
    refine ⟨?_, ?_⟩
    · rintro front ⟨tail, rfl⟩ hv
      cases hv with
      | value token within after =>
        obtain ⟨t, -, ht⟩ := lex_complete token
        rw [List.append_assoc, List.append_assoc, ht] at hl
        cases hl
    · obtain ⟨more, children, ht⟩ := exists_token_of_short hl
      refine ⟨more ++ List.replicate children 0xC0 ++ List.replicate n 0xC0, ?_⟩
      rw [← List.append_assoc, ← List.append_assoc]
      exact .value ht (areValues_nils _) (areValues_nils _)
  | case4 => cases h
  | case5 bs position pending t size rest hl hs ih =>
    obtain ⟨n, rfl⟩ : ∃ n, count = n + 1 := Nat.exists_eq_add_of_le' (Nat.le_trans (by simp) hc)
    obtain ⟨head, rfl, rfl, ht⟩ := lex_sound hl
    obtain ⟨missing, more, hmore⟩ := @ih h (t.children + n) (by omega)
    refine ⟨?_, ?_⟩
    · rintro front ⟨tail, hf⟩ hv
      cases hv with
      | @value own inside after children _ token within values =>
        rw [List.append_assoc, List.append_assoc] at hf
        obtain ⟨rfl, hr, rfl⟩ := token.unique ht hf
        exact missing (inside ++ after) ⟨tail, by rw [← hr, List.append_assoc]⟩
          (within.append values)
    · obtain ⟨inside, after, hsplit, hi, ha⟩ := hmore.split
      refine ⟨more, ?_⟩
      rw [List.append_assoc, hsplit, ← List.append_assoc]
      exact .value ht hi ha

theorem extent_none {bs : Bytes} (h : extent bs = .ok none) : Incomplete IsValue bs :=
  scan_none h (Nat.le_refl 1)

theorem wide_none {width : Nat} {rest : Bytes} (h : arrayHead.wide width rest = none) :
    rest.length < width :=
  takeExact_eq_none (Option.map_eq_none_iff.mp h)

theorem arrayHead_none {bs : Bytes} (h : arrayHead bs = .ok none) :
    Incomplete (fun head => ∃ n, IsArrayHead n head) bs := by
  refine ⟨?_, ?_⟩
  · rintro front ⟨tail, rfl⟩ ⟨n, hn⟩
    rw [arrayHead_complete hn] at h
    cases h
  · cases bs with
    | nil => exact ⟨[0x90], 0, .short (by decide)⟩
    | cons tag rest =>
      simp only [arrayHead] at h
      split at h
      · cases h
      split at h
      · rename_i ht
        obtain ⟨more, hm⟩ := exists_padding (Nat.le_of_lt (wide_none (Except.ok.inj h)))
        subst ht
        exact ⟨more, _, .array16 hm⟩
      split at h
      · rename_i ht
        obtain ⟨more, hm⟩ := exists_padding (Nat.le_of_lt (wide_none (Except.ok.inj h)))
        subst ht
        exact ⟨more, _, .array32 hm⟩
      · cases h

/-- An array head that is cut off has four bytes at most. -/
theorem length_le_of_arrayHead_none {bs : Bytes} (h : arrayHead bs = .ok none) : bs.length ≤ 4 := by
  cases bs with
  | nil => exact Nat.zero_le 4
  | cons tag rest =>
    simp only [arrayHead] at h
    split at h
    · cases h
    split at h
    · have := wide_none (Except.ok.inj h)
      rw [List.length_cons]
      omega
    split at h
    · exact wide_none (Except.ok.inj h)
    · cases h

theorem envelope_none {bs : Bytes} (h : envelope bs = .ok none) : arrayHead bs = .ok none := by
  unfold envelope at h
  split at h
  · cases h
  · assumption
  · split at h <;> cases h

end SeismicStream.Msgpack
