import SeismicStream.Proofs.Msgpack.Token

namespace SeismicStream.Msgpack

theorem IsToken.length_pos {head : Bytes} {children : Nat} (h : IsToken head children) :
    0 < head.length := by
  cases h <;> simp

/-- Every value takes a byte at least. -/
theorem AreValues.le_length {n : Nat} {bs : Bytes} (h : AreValues n bs) : n ≤ bs.length := by
  induction h with
  | none => exact Nat.le_refl 0
  | value token within after ihw iha =>
    have := token.length_pos
    simp only [List.length_append]
    omega

theorem AreValues.append {m n : Nat} {front back : Bytes} (hf : AreValues m front)
    (hb : AreValues n back) : AreValues (m + n) (front ++ back) := by
  induction hf with
  | none => simpa using hb
  | @value head inside rest children count token within after ihw iha =>
    rw [show count + 1 + n = count + n + 1 by omega, List.append_assoc]
    exact .value token within iha

theorem AreValues.split {m n : Nat} {bs : Bytes} (h : AreValues (m + n) bs) :
    ∃ front back, bs = front ++ back ∧ AreValues m front ∧ AreValues n back := by
  induction m generalizing bs with
  | zero => exact ⟨[], bs, rfl, .none, by simpa using h⟩
  | succ m ih =>
    rw [show m + 1 + n = m + n + 1 by omega] at h
    cases h with
    | @value head inside rest children _ token within after =>
      obtain ⟨front, back, rfl, hf, hb⟩ := ih after
      exact ⟨head ++ inside ++ front, back, by simp, .value token within hf, hb⟩

theorem AreValues.flatten {values : List Bytes} (h : ∀ v ∈ values, IsValue v) :
    AreValues values.length values.flatten := by
  induction values with
  | nil => exact .none
  | cons v rest ih =>
    rw [List.length_cons, List.flatten_cons, Nat.add_comm]
    exact (h v (by simp)).append (ih fun w hw => h w (by simp [hw]))

theorem IsToken.unique {a b s t : Bytes} {m n : Nat} (ha : IsToken a m) (hb : IsToken b n)
    (h : a ++ s = b ++ t) : a = b ∧ s = t ∧ m = n := by
  obtain ⟨x, rfl, hx⟩ := lex_complete ha
  obtain ⟨y, rfl, hy⟩ := lex_complete hb
  have he := hx s
  rw [h, hy t, Lexed.token.injEq] at he
  obtain ⟨rfl, hl, rfl⟩ := he
  exact ⟨(List.append_inj h hl.symm).1, rfl, rfl⟩

/-- Bytes begin with so many values in one way only. -/
theorem AreValues.unique {n : Nat} {a b s t : Bytes} (ha : AreValues n a) (hb : AreValues n b)
    (h : a ++ s = b ++ t) : a = b ∧ s = t := by
  induction ha generalizing b s t with
  | none =>
    cases hb
    exact ⟨rfl, h⟩
  | value token within after ihw iha =>
    cases hb with
    | value token' within' after' =>
      simp only [List.append_assoc] at h
      obtain ⟨rfl, hin, rfl⟩ := token.unique token' h
      obtain ⟨rfl, hrest⟩ := ihw within' hin
      obtain ⟨rfl, htail⟩ := iha after' hrest
      exact ⟨rfl, htail⟩

theorem scan_token {bs rest : Bytes} {t : Token} {size : Nat} (h : lex bs = .token t size rest)
    (position pending : Nat) : scan bs position (pending + 1) =
      if UInt64.size ≤ position + size then .error (.lengthOutOfRange position)
      else scan rest (position + size) (min (pending + t.children) Word.last.toNat) := by
  rw [scan]
  split <;> simp_all

theorem scan_reserved {bs : Bytes} (h : lex bs = .reserved) (position pending : Nat) :
    scan bs position (pending + 1) = .error (.reservedTag position) := by
  rw [scan]
  split <;> simp_all

/-- Bytes that follow do not change an answer once there is one. -/
theorem scan_append {bs : Bytes} {position pending : Nat}
    (h : scan bs position pending ≠ .ok none) (more : Bytes) :
    scan (bs ++ more) position pending = scan bs position pending := by
  fun_induction scan bs position pending with
  | case1 => simp [scan]
  | case2 bs position pending hl =>
    obtain ⟨rest, rfl⟩ := lex_eq_reserved hl
    exact scan_reserved rfl _ _
  | case3 => exact absurd rfl h
  | case4 bs position pending t size rest hl hs => rw [scan_token (lex_append hl more), if_pos hs]
  | case5 bs position pending t size rest hl hs ih =>
    rw [scan_token (lex_append hl more), if_neg hs]
    exact ih h

/-- Values that are there are stepped over, as long as all positions and counts are words. -/
theorem scan_values {count : Nat} {bs : Bytes} (h : AreValues count bs) (position pending : Nat)
    (rest : Bytes) (hp : position + bs.length < UInt64.size)
    (hc : pending + bs.length < UInt64.size) :
    scan (bs ++ rest) position (pending + count) = scan rest (position + bs.length) pending := by
  induction h generalizing position pending rest with
  | none => rfl
  | @value head inside after children count token within values ihw iha =>
    obtain ⟨t, rfl, hl⟩ := lex_complete token
    have hw := within.le_length
    have ha := values.le_length
    simp only [List.length_append] at hp hc
    have hm : min (pending + count + t.children) Word.last.toNat = pending + count + t.children := by
      rw [Word.toNat_last]
      omega
    rw [List.append_assoc, List.append_assoc, ← Nat.add_assoc, scan_token (hl _), if_neg (by omega),
      hm, ihw _ _ _ (by omega) (by omega), iha _ _ _ (by omega) (by omega)]
    simp only [List.length_append, Nat.add_assoc]

theorem scan_sound {bs : Bytes} {position pending n : Nat}
    (h : scan bs position pending = .ok (some n)) :
    ∃ front rest, bs = front ++ rest ∧ AreValues pending front ∧ n = position + front.length ∧
      (pending ≠ 0 → n < UInt64.size) := by
  fun_induction scan bs position pending with
  | case1 bs position =>
    cases h
    exact ⟨[], bs, rfl, .none, rfl, fun h => absurd rfl h⟩
  | case2 => cases h
  | case3 => cases h
  | case4 => cases h
  | case5 bs position pending t size rest hl hs ih =>
    obtain ⟨front, rest', rfl, hv, rfl, hn⟩ := ih h
    obtain ⟨head, rfl, rfl, ht⟩ := lex_sound hl
    have hle := hv.le_length
    have hpos := ht.length_pos
    -- The end is a word and every pending value takes a byte, so the count was not capped.
    have hm : min (pending + t.children) Word.last.toNat = pending + t.children := by
      rw [Word.toNat_last] at hn hle ⊢
      rcases Nat.eq_zero_or_pos (pending + t.children) with h0 | h0
      · omega
      · have := hn (by omega)
        omega
    rw [hm, Nat.add_comm] at hv
    obtain ⟨inside, after, rfl, hi, ha⟩ := hv.split
    refine ⟨head ++ inside ++ after, rest', by simp, .value ht hi ha, by simp; omega, ?_⟩
    intro _
    rcases Nat.eq_zero_or_pos (pending + t.children) with h0 | h0
    · obtain ⟨rfl, hc⟩ := Nat.add_eq_zero_iff.mp h0
      rw [hc] at hi
      cases hi
      cases ha
      simp; omega
    · exact hn (by omega)

theorem extent_append {bs : Bytes} (h : extent bs ≠ .ok none) (more : Bytes) :
    extent (bs ++ more) = extent bs :=
  scan_append h more

/-- The extent is the length of the one value at the front. -/
theorem extent_eq_some_iff {bs : Bytes} {n : Nat} : extent bs = .ok (some n) ↔
    ∃ front rest, bs = front ++ rest ∧ IsFrame front ∧ n = front.length := by
  constructor
  · intro h
    obtain ⟨front, rest, rfl, hv, hn, hs⟩ := scan_sound h
    rw [Nat.zero_add] at hn
    exact ⟨front, rest, rfl, ⟨hv, hn ▸ hs (by decide)⟩, hn⟩
  · intro h
    obtain ⟨front, rest, rfl, ⟨hv, hs⟩, rfl⟩ := h
    have h := scan_values hv 0 0 rest (by omega) (by omega)
    rw [extent, ← Nat.zero_add 1, h, scan, Nat.zero_add]

theorem IsFrame.extent {bs : Bytes} (h : IsFrame bs) : extent bs = .ok (some bs.length) :=
  extent_eq_some_iff.mpr ⟨bs, [], (List.append_nil bs).symm, h, rfl⟩

end SeismicStream.Msgpack
