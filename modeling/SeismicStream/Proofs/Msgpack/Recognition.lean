import SeismicStream.Proofs.Msgpack.Incomplete

namespace SeismicStream.Msgpack

theorem not_isToken_reserved {head tail rest : Bytes} {children : Nat} (h : IsToken head children) :
    head ++ tail ≠ 0xC1 :: rest := by
  intro he
  obtain ⟨t, -, ht⟩ := lex_complete h
  have hl := ht tail
  rw [he] at hl
  cases hl

/-- No value ends behind a reserved tag that stands where its own next tag has to come. -/
theorem TagDue.not_value {part value rest tail : Bytes} (hd : TagDue part) (hv : IsValue value) :
    value ++ tail ≠ part ++ 0xC1 :: rest := by
  induction hd generalizing value tail with
  | start =>
    intro he
    cases hv with
    | value token within after =>
      rw [List.append_assoc, List.append_assoc] at he
      exact not_isToken_reserved token he
  | @inside head before part children count token siblings more due ih =>
    intro he
    cases hv with
    | @value head' inside after children' _ token' within after =>
      cases after
      simp only [List.append_assoc, List.append_nil] at he
      obtain ⟨rfl, hin, rfl⟩ := token'.unique token he
      obtain ⟨k, rfl⟩ : ∃ k, children' = count + (1 + k) := ⟨children' - count - 1, by omega⟩
      obtain ⟨front, back, rfl, hfront, hback⟩ := within.split
      obtain ⟨next, others, rfl, hnext, -⟩ := hback.split
      rw [List.append_assoc] at hin
      obtain ⟨-, hlast⟩ := hfront.unique siblings hin
      rw [List.append_assoc] at hlast
      exact ih hnext hlast

/-- Among so many values a tag has to come next: after fewer whole values, in one that is begun. -/
inductive DueAmong (count : Nat) : Bytes → Prop
  | mk {n : Nat} {before part : Bytes} (fewer : n < count) (whole : AreValues n before)
      (due : TagDue part) : DueAmong count (before ++ part)

namespace DueAmong

variable {count : Nat} {front : Bytes}

theorem single : DueAmong 1 front ↔ TagDue front := by
  constructor
  · intro h
    obtain ⟨fewer, whole, due⟩ := h
    obtain rfl := Nat.lt_one_iff.mp fewer
    cases whole
    exact due
  · intro h
    exact .mk Nat.one_pos .none h

/-- The values inside a value that a token begins come before the values after it. -/
theorem of_token {head : Bytes} {children : Nat} (token : IsToken head children)
    (h : DueAmong (children + count) front) : DueAmong (count + 1) (head ++ front) := by
  obtain @⟨n, before, part, fewer, whole, due⟩ := h
  rw [← List.append_assoc]
  by_cases hn : n < children
  · exact @DueAmong.mk _ 0 [] _ (Nat.succ_pos count) .none (.inside token whole hn due)
  · obtain ⟨k, rfl⟩ : ∃ k, n = children + k := ⟨n - children, by omega⟩
    obtain ⟨inside, after, rfl, hi, ha⟩ := whole.split
    rw [← List.append_assoc head]
    exact .mk (Nat.succ_lt_succ (by omega)) (.value token hi ha) due

theorem nil_or_token (h : DueAmong (count + 1) front) : front = [] ∨
    ∃ head rest children, IsToken head children ∧ front = head ++ rest ∧
      DueAmong (children + count) rest := by
  obtain @⟨n, before, part, fewer, whole, due⟩ := h
  cases whole with
  | none =>
    cases due with
    | start => exact .inl rfl
    | @inside head siblings part children n token whole more due =>
      exact .inr ⟨head, siblings ++ part, children, token, by simp,
        .mk (Nat.lt_of_lt_of_le more (Nat.le_add_right _ _)) whole due⟩
  | @value head inside after children n token within values =>
    refine .inr ⟨head, inside ++ after ++ part, children, token, by simp, ?_⟩
    have fewer := Nat.add_lt_add_left (Nat.lt_of_succ_lt_succ fewer) children
    exact .mk fewer (within.append values) due

theorem count_pos (h : DueAmong count front) : 0 < count := by
  obtain ⟨fewer, -, -⟩ := h
  exact Nat.zero_lt_of_lt fewer

end DueAmong

/-- A scan refuses a reserved tag only where a tag has to come. The count of pending values may have
been capped, so there may be more of them. -/
theorem scan_eq_reserved {bs : Bytes} {position pending p : Nat}
    (h : scan bs position pending = .error (.reservedTag p)) {count : Nat} (hc : pending ≤ count) :
    ∃ front rest, bs = front ++ 0xC1 :: rest ∧ p = position + front.length ∧
      DueAmong count front := by
  fun_induction scan bs position pending generalizing count with
  | case1 => cases h
  | case2 bs position pending hl =>
    obtain ⟨rest, rfl⟩ := lex_eq_reserved hl
    cases h
    have hpos : 0 < count := Nat.lt_of_lt_of_le (Nat.succ_pos _) hc
    exact ⟨[], rest, rfl, rfl, @DueAmong.mk _ 0 [] [] hpos .none .start⟩
  | case3 => cases h
  | case4 => cases h
  | case5 bs position pending t size rest hl hs ih =>
    obtain ⟨n, rfl⟩ : ∃ n, count = n + 1 := Nat.exists_eq_add_of_le' (Nat.le_trans (by simp) hc)
    obtain ⟨head, rfl, rfl, ht⟩ := lex_sound hl
    obtain ⟨front, rest', rfl, rfl, hd⟩ := @ih h (t.children + n) (by omega)
    exact ⟨head ++ front, rest', by simp, by simp [Nat.add_assoc], .of_token ht hd⟩

/-- A reserved tag where a tag has to come is refused. The pending values do not run out before it,
also when their count was capped. -/
theorem scan_due {count position pending : Nat} {front : Bytes} (hd : DueAmong count front)
    (rest : Bytes) (hp : position + front.length < UInt64.size)
    (hc : count ≤ pending ∨ front.length < pending) :
    scan (front ++ 0xC1 :: rest) position pending =
      .error (.reservedTag (position + front.length)) := by
  induction hl : front.length using Nat.strongRecOn generalizing count position pending front with
  | ind length ih =>
    subst hl
    obtain ⟨n, rfl⟩ : ∃ n, count = n + 1 := Nat.exists_eq_add_of_le' hd.count_pos
    obtain ⟨k, rfl⟩ : ∃ k, pending = k + 1 := Nat.exists_eq_add_of_le' (by omega)
    rcases hd.nil_or_token with rfl | ⟨head, after, children, token, rfl, hd'⟩
    · exact scan_reserved rfl position k
    · obtain ⟨t, rfl, hlex⟩ := lex_complete token
      have hpos := token.length_pos
      have hlast := Word.toNat_last
      rw [List.length_append] at hp hc ⊢
      rw [List.append_assoc, scan_token (hlex _), if_neg (by omega),
        ih after.length (by simp; omega) hd' (by omega) (by omega) rfl, Nat.add_assoc]

/-- Where all positions are words, a scan refuses nothing but reserved tags. -/
theorem scan_eq_error {bs : Bytes} {position pending : Nat} {e : FramingError}
    (h : scan bs position pending = .error e) (hp : position + bs.length < UInt64.size) :
    ∃ p, e = .reservedTag p := by
  fun_induction scan bs position pending with
  | case1 => cases h
  | case2 =>
    cases h
    exact ⟨_, rfl⟩
  | case3 => cases h
  | case4 bs position pending t size rest hl hs =>
    have := (lex_length hl).1
    omega
  | case5 bs position pending t size rest hl hs ih =>
    have := (lex_length hl).1
    exact ih h (by omega)

/-- The extent is refused at a reserved tag, where the next tag of the value has to come. -/
theorem extent_eq_reserved_iff {bs : Bytes} {p : Nat} (h : bs.length < UInt64.size) :
    extent bs = .error (.reservedTag p) ↔
      ∃ part rest, bs = part ++ 0xC1 :: rest ∧ TagDue part ∧ p = part.length := by
  constructor
  · intro he
    obtain ⟨front, rest, hb, hp, hd⟩ := scan_eq_reserved he (Nat.le_refl 1)
    exact ⟨front, rest, hb, DueAmong.single.mp hd, hp.trans (Nat.zero_add _)⟩
  · intro hd
    obtain ⟨part, rest, rfl, due, rfl⟩ := hd
    rw [List.length_append] at h
    have hs := scan_due (DueAmong.single.mpr due) rest (show 0 + part.length < _ by omega)
      (.inl (Nat.le_refl 1))
    rwa [Nat.zero_add] at hs

theorem extent_eq_error {bs : Bytes} {e : FramingError} (h : bs.length < UInt64.size)
    (he : extent bs = .error e) : ∃ p, e = .reservedTag p :=
  scan_eq_error he (by rwa [Nat.zero_add])

/-- No extent is found where no value is whole and more bytes can make one whole. -/
theorem extent_eq_none {bs : Bytes} (h : bs.length < UInt64.size)
    (missing : ∀ front, front <+: bs → ¬ IsValue front)
    (completes : ∃ more front, front <+: bs ++ more ∧ IsValue front) : extent bs = .ok none := by
  cases he : extent bs with
  | error e =>
    obtain ⟨p, rfl⟩ := extent_eq_error h he
    obtain ⟨part, rest, rfl, due, -⟩ := (extent_eq_reserved_iff h).mp he
    obtain ⟨more, front, ⟨tail, ht⟩, hv⟩ := completes
    rw [List.append_assoc] at ht
    exact absurd ht (due.not_value hv)
  | ok answer =>
    cases answer with
    | none => rfl
    | some n =>
      obtain ⟨front, rest, rfl, hf, -⟩ := extent_eq_some_iff.mp he
      exact absurd hf.value (missing front (List.prefix_append front rest))

/-- A value that is cut off anywhere has no extent yet. -/
theorem extent_front {front more : Bytes} (hv : IsValue (front ++ more)) (hm : more ≠ [])
    (h : (front ++ more).length < UInt64.size) : extent front = .ok none := by
  refine extent_eq_none (by rw [List.length_append] at h; omega) ?_
    ⟨more, front ++ more, List.prefix_refl _, hv⟩
  rintro short ⟨tail, rfl⟩ hs
  have he : short ++ (tail ++ more) = (short ++ tail ++ more) ++ [] := by simp
  obtain ⟨-, hnil⟩ := hs.unique hv he
  exact hm (List.append_eq_nil_iff.mp hnil).2

/-- The extent says what the format says. It is the length of the one value at the front. There is
none while no value is whole and more bytes can make one whole. It is refused only where the tag of
the value, or of a value inside it, has to come and is the reserved one. More bytes change an answer
only where there was none. -/
theorem extent_recognises {bs : Bytes} (h : bs.length < UInt64.size) :
    (∀ n, extent bs = .ok (some n) ↔ n ≤ bs.length ∧ IsValue (bs.take n)) ∧
      (extent bs = .ok none ↔ (∀ front, front <+: bs → ¬ IsValue front) ∧
        ∃ more front, front <+: bs ++ more ∧ IsValue front) ∧
      (∀ p, extent bs = .error (.reservedTag p) ↔ bs[p]? = some 0xC1 ∧ TagDue (bs.take p)) ∧
      (∀ e, extent bs = .error e → ∃ p, e = .reservedTag p) ∧
      (extent bs ≠ .ok none → ∀ more, extent (bs ++ more) = extent bs) ∧
      (IsValue bs → ∀ front, front <+: bs → front ≠ bs → extent front = .ok none) := by
  refine ⟨?whole, ?cutOff, ?reserved, fun e => extent_eq_error h, extent_append, ?fronts⟩
  case whole =>
    intro n
    rw [extent_eq_some_iff]
    constructor
    · intro hn
      obtain ⟨front, rest, rfl, hf, rfl⟩ := hn
      exact ⟨by simp, by simpa using hf.value⟩
    · intro hn
      refine ⟨bs.take n, bs.drop n, (List.take_append_drop n bs).symm, ⟨hn.2, ?_⟩, ?_⟩
      · rw [List.length_take]
        omega
      · rw [List.length_take_of_le hn.1]
  case cutOff =>
    constructor
    · intro hn
      obtain ⟨missing, more, hmore⟩ := extent_none hn
      exact ⟨missing, more, bs ++ more, List.prefix_refl _, hmore⟩
    · intro hn
      exact extent_eq_none h hn.1 hn.2
  case reserved =>
    intro p
    rw [extent_eq_reserved_iff h]
    constructor
    · intro hp
      obtain ⟨part, rest, rfl, due, rfl⟩ := hp
      exact ⟨by simp, by simpa using due⟩
    · intro hp
      obtain ⟨hlt, htag⟩ := List.getElem?_eq_some_iff.mp hp.1
      refine ⟨bs.take p, bs.drop (p + 1), ?_, hp.2, ?_⟩
      · rw [← htag, ← List.drop_eq_getElem_cons hlt, List.take_append_drop]
      · rw [List.length_take_of_le (Nat.le_of_lt hlt)]
  case fronts =>
    rintro hv front ⟨more, rfl⟩ hne
    refine extent_front hv ?_ h
    intro hm
    rw [hm, List.append_nil] at hne
    exact hne rfl

/-- An array of a string, an array of integers, and a map with a byte string. -/
def nested : Bytes :=
  [0x93, 0xA2, 0x68, 0x69, 0x93, 0x01, 0xFD, 0xCD, 0x01, 0x2C, 0x81, 0xA1, 0x6B, 0xC4, 0x02, 7, 8]

theorem extent_recognises_nested : nested.length < UInt64.size ∧ IsValue nested ∧
    (∀ front, front <+: nested → front ≠ nested → extent front = .ok none) ∧
      (nested.set 6 0xC1).length < UInt64.size ∧ TagDue (nested.take 6) := by
  have hn : nested.length < UInt64.size := by decide
  have hr : (nested.set 6 0xC1).length < UInt64.size := by decide
  obtain ⟨whole, -, -, -, -, fronts⟩ := extent_recognises hn
  obtain ⟨-, -, reserved, -⟩ := extent_recognises hr
  have he : extent nested = .ok (some nested.length) := by decide +kernel
  have hc : extent (nested.set 6 0xC1) = .error (.reservedTag 6) := by decide +kernel
  obtain ⟨-, hv⟩ := (whole _).mp he
  rw [List.take_length] at hv
  exact ⟨hn, hv, fronts hv, hr, ((reserved 6).mp hc).2⟩

end SeismicStream.Msgpack
