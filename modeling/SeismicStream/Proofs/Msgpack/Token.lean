import Mathlib.Tactic.IntervalCases
import SeismicStream.Msgpack.Extent
import SeismicStream.Msgpack.Grammar

namespace SeismicStream.Msgpack

/-- How a token of a form is read from the bytes after its tag. -/
inductive Reads : Form → (Bytes → Lexed) → Prop
  | bytes {count : Nat} {make : Bytes → Token} (leaf : ∀ body, (make body).children = 0) :
      Reads (.bytes count) (fun rest => .fixed count rest make)
  | counted {width extra : Nat} {make : Bytes → Token} (leaf : ∀ body, (make body).children = 0) :
      Reads (.counted width extra) (fun rest => .counted width extra rest make)
  | values {t : Token} : Reads (.values t.children) (fun rest => .token t 1 rest)
  | entries {width each : Nat} {make : Bytes → Token}
      (inside : ∀ count, (make count).children = each * Bytes.toNat count) :
      Reads (.entries width each) (fun rest => .fixed width rest make)

/-- A tag that leaves no bytes to read still reads a token, whose body is empty. -/
theorem Reads.leaf {t : Token} (h : t.children = 0) :
    Reads (.bytes 0) (fun rest => .token t 1 rest) :=
  @Reads.bytes 0 (fun _ => t) (fun _ => h)

theorem toNat_ofNat_add {low n : Nat} (h : low + n < 256) : (UInt8.ofNat (low + n)).toNat = low + n := by
  rw [UInt8.toNat_ofNat']
  exact Nat.mod_eq_of_lt h

theorem lex_positive {n : Nat} (h : n < 0x80) (rest : Bytes) :
    lex (UInt8.ofNat n :: rest) = .token (.unsigned n) 1 rest := by
  have ht : (UInt8.ofNat n).toNat = n := UInt8.toNat_ofNat_of_lt' (Nat.lt_trans h (by decide))
  simp only [lex, UInt8.lt_iff_toNat_lt, UInt8.reduceToNat, ht]
  rw [if_pos h]

theorem lex_shortMap {n : Nat} (h : n < 16) (rest : Bytes) :
    lex (UInt8.ofNat (0x80 + n) :: rest) = .token (.map n) 1 rest := by
  have ht := toNat_ofNat_add (show 0x80 + n < 256 by omega)
  simp only [lex, UInt8.lt_iff_toNat_lt, UInt8.reduceToNat, ht]
  rw [if_neg (by omega), if_pos (by omega), Nat.add_sub_cancel_left]

theorem lex_shortArray {n : Nat} (h : n < 16) (rest : Bytes) :
    lex (UInt8.ofNat (0x90 + n) :: rest) = .token (.array n) 1 rest := by
  have ht := toNat_ofNat_add (show 0x90 + n < 256 by omega)
  simp only [lex, UInt8.lt_iff_toNat_lt, UInt8.reduceToNat, ht]
  rw [if_neg (by omega), if_neg (by omega), if_pos (by omega), Nat.add_sub_cancel_left]

theorem lex_shortStr {n : Nat} (h : n < 32) (rest : Bytes) :
    lex (UInt8.ofNat (0xA0 + n) :: rest) = .fixed n rest .str := by
  have ht := toNat_ofNat_add (show 0xA0 + n < 256 by omega)
  simp only [lex, UInt8.lt_iff_toNat_lt, UInt8.reduceToNat, ht]
  rw [if_neg (by omega), if_neg (by omega), if_neg (by omega), if_pos (by omega),
    Nat.add_sub_cancel_left]

theorem lex_negative {tag : UInt8} (h : 0xE0 ≤ tag) (rest : Bytes) :
    lex (tag :: rest) = .token (.signed (tag.toNat - 256)) 1 rest := by
  have h' : 224 ≤ tag.toNat := UInt8.le_iff_toNat_le.mp h
  simp only [lex, UInt8.lt_iff_toNat_lt, UInt8.reduceToNat, h, if_true]
  rw [if_neg (by omega), if_neg (by omega), if_neg (by omega), if_neg (by omega)]

theorem Assigned.reads {tag : UInt8} {form : Form} (h : Assigned tag form) :
    ∃ f, Reads form f ∧ ∀ rest, lex (tag :: rest) = f rest := by
  cases h with
  | positive h => exact ⟨_, .leaf (t := .unsigned tag.toNat) rfl, fun rest => by simp [lex, h]⟩
  | @shortMap n h => exact ⟨_, .values (t := .map n), lex_shortMap h⟩
  | @shortArray n h => exact ⟨_, .values (t := .array n), lex_shortArray h⟩
  | @shortStr n h => exact ⟨_, @Reads.bytes n .str (fun _ => rfl), lex_shortStr h⟩
  | bool h =>
    simp only [List.mem_cons, List.not_mem_nil, or_false] at h
    rcases h with rfl | rfl <;> exact ⟨_, .leaf rfl, fun _ => rfl⟩
  | int8 h | int16 h | int32 h | int64 h =>
    simp only [List.mem_cons, List.not_mem_nil, or_false] at h
    rcases h with rfl | rfl <;> exact ⟨_, .bytes (fun _ => rfl), fun _ => rfl⟩
  | @fixext k h => interval_cases k <;> exact ⟨_, .bytes (fun _ => rfl), fun _ => rfl⟩
  | negative h => exact ⟨_, .leaf (t := .signed (tag.toNat - 256)) rfl, lex_negative h⟩
  | nil => exact ⟨_, .leaf rfl, fun _ => rfl⟩
  | float32 | float64 => exact ⟨_, .bytes (fun _ => rfl), fun _ => rfl⟩
  | bin8 | bin16 | bin32 | ext8 | ext16 | ext32 | str8 | str16 | str32 =>
    exact ⟨_, .counted (fun _ => rfl), fun _ => rfl⟩
  | array16 | array32 => exact ⟨_, .entries (fun _ => (Nat.one_mul _).symm), fun _ => rfl⟩
  | map16 | map32 => exact ⟨_, .entries (fun _ => rfl), fun _ => rfl⟩

theorem assigned_of_lt {n : Nat} (hn : n < 20) : UInt8.ofNat (0xC0 + n) = 0xC1 ∨
    ∃ form, Assigned (UInt8.ofNat (0xC0 + n)) form := by
  match n with
  | 0 => exact .inr ⟨_, .nil⟩
  | 1 => exact .inl rfl
  | 2 | 3 => exact .inr ⟨_, .bool (by decide)⟩
  | 4 => exact .inr ⟨_, .bin8⟩
  | 5 => exact .inr ⟨_, .bin16⟩
  | 6 => exact .inr ⟨_, .bin32⟩
  | 7 => exact .inr ⟨_, .ext8⟩
  | 8 => exact .inr ⟨_, .ext16⟩
  | 9 => exact .inr ⟨_, .ext32⟩
  | 10 => exact .inr ⟨_, .float32⟩
  | 11 => exact .inr ⟨_, .float64⟩
  | 12 | 16 => exact .inr ⟨_, .int8 (by decide)⟩
  | 13 | 17 => exact .inr ⟨_, .int16 (by decide)⟩
  | 14 | 18 => exact .inr ⟨_, .int32 (by decide)⟩
  | 15 | 19 => exact .inr ⟨_, .int64 (by decide)⟩
  | _ + 20 => omega

theorem assigned_counted {n : Nat} (hn : n < 7) : ∃ form, Assigned (UInt8.ofNat (0xD9 + n)) form := by
  match n with
  | 0 => exact ⟨_, .str8⟩
  | 1 => exact ⟨_, .str16⟩
  | 2 => exact ⟨_, .str32⟩
  | 3 => exact ⟨_, .array16⟩
  | 4 => exact ⟨_, .array32⟩
  | 5 => exact ⟨_, .map16⟩
  | 6 => exact ⟨_, .map32⟩

/-- A tag as an offset from the first of its range. -/
theorem exists_offset {tag : UInt8} {low high : Nat} (hl : low ≤ tag.toNat) (hh : tag.toNat < high) :
    ∃ n, n < high - low ∧ tag = UInt8.ofNat (low + n) := by
  refine ⟨tag.toNat - low, by omega, ?_⟩
  rw [Nat.add_sub_cancel' hl, UInt8.ofNat_toNat]

theorem assigned_or_reserved (tag : UInt8) : tag = 0xC1 ∨ ∃ form, Assigned tag form := by
  have hlt := tag.toNat_lt
  by_cases h1 : tag.toNat < 0x80
  · exact .inr ⟨_, .positive (UInt8.lt_iff_toNat_lt.mpr h1)⟩
  by_cases h2 : tag.toNat < 0x90
  · obtain ⟨n, hn, rfl⟩ := exists_offset (Nat.le_of_not_lt h1) h2
    exact .inr ⟨_, .shortMap hn⟩
  by_cases h3 : tag.toNat < 0xA0
  · obtain ⟨n, hn, rfl⟩ := exists_offset (Nat.le_of_not_lt h2) h3
    exact .inr ⟨_, .shortArray hn⟩
  by_cases h4 : tag.toNat < 0xC0
  · obtain ⟨n, hn, rfl⟩ := exists_offset (Nat.le_of_not_lt h3) h4
    exact .inr ⟨_, .shortStr hn⟩
  by_cases h5 : tag.toNat < 0xD4
  · obtain ⟨n, hn, rfl⟩ := exists_offset (Nat.le_of_not_lt h4) h5
    exact assigned_of_lt hn
  by_cases h6 : tag.toNat < 0xD9
  · obtain ⟨n, hn, rfl⟩ := exists_offset (Nat.le_of_not_lt h5) h6
    exact .inr ⟨_, .fixext hn⟩
  by_cases h7 : tag.toNat < 0xE0
  · obtain ⟨n, hn, rfl⟩ := exists_offset (Nat.le_of_not_lt h6) h7
    exact .inr (assigned_counted hn)
  · exact .inr ⟨_, .negative (UInt8.le_iff_toNat_le.mpr (Nat.le_of_not_lt h7))⟩

theorem Lexed.fixed_eq_token {count : Nat} {make : Bytes → Token} {bs rest : Bytes} {t : Token}
    {size : Nat} (h : Lexed.fixed count bs make = .token t size rest) :
    ∃ body, bs = body ++ rest ∧ body.length = count ∧ t = make body ∧ size = 1 + count := by
  unfold Lexed.fixed at h
  split at h
  · rename_i own rest' ht
    obtain ⟨rfl, rfl, rfl⟩ := Lexed.token.inj h
    obtain ⟨rfl, hl⟩ := Bytes.takeExact_eq_some_iff.mp ht
    exact ⟨own, rfl, hl, rfl, rfl⟩
  · cases h

theorem Lexed.fixed_append {body : Bytes} (make : Bytes → Token) (rest : Bytes) :
    Lexed.fixed body.length (body ++ rest) make = .token (make body) (1 + body.length) rest := by
  simp only [Lexed.fixed, Bytes.takeExact_eq_some_iff.mpr (And.intro rfl rfl)]

theorem Lexed.counted_eq_token {width extra : Nat} {make : Bytes → Token} {bs rest : Bytes}
    {t : Token} {size : Nat} (h : Lexed.counted width extra bs make = .token t size rest) :
    ∃ length body, bs = length ++ body ++ rest ∧ length.length = width ∧
      body.length = extra + Bytes.toNat length ∧ t = make body ∧
      size = 1 + width + extra + Bytes.toNat length := by
  unfold Lexed.counted at h
  split at h
  · rename_i length rest' ht
    split at h
    · rename_i own rest'' ht'
      obtain ⟨rfl, rfl, rfl⟩ := Lexed.token.inj h
      obtain ⟨rfl, hl⟩ := Bytes.takeExact_eq_some_iff.mp ht
      obtain ⟨rfl, hl'⟩ := Bytes.takeExact_eq_some_iff.mp ht'
      exact ⟨length, own, by rw [List.append_assoc], hl, hl', rfl, rfl⟩
    · cases h
  · cases h

theorem Lexed.counted_append {extra : Nat} {length body : Bytes} (make : Bytes → Token)
    (rest : Bytes) (h : body.length = extra + Bytes.toNat length) :
    Lexed.counted length.length extra (length ++ body ++ rest) make =
      .token (make body) (1 + length.length + extra + Bytes.toNat length) rest := by
  rw [List.append_assoc]
  simp only [Lexed.counted, Bytes.takeExact_eq_some_iff.mpr (And.intro rfl rfl), ← h]

/-- What is read is a token of the format, and nothing after it is touched. -/
theorem lex_sound {bs rest : Bytes} {t : Token} {size : Nat} (h : lex bs = .token t size rest) :
    ∃ head, bs = head ++ rest ∧ head.length = size ∧ IsToken head t.children := by
  cases bs with
  | nil => cases h
  | cons tag bs =>
    rcases assigned_or_reserved tag with rfl | ⟨form, ha⟩
    · cases h
    obtain ⟨f, hr, hf⟩ := ha.reads
    rw [hf] at h
    cases hr with
    | bytes leaf =>
      obtain ⟨body, rfl, hl, rfl, rfl⟩ := Lexed.fixed_eq_token h
      exact ⟨tag :: body, rfl, by simp [hl, Nat.add_comm], leaf body ▸ .bytes ha hl⟩
    | counted leaf =>
      obtain ⟨length, body, rfl, hw, hb, rfl, rfl⟩ := Lexed.counted_eq_token h
      exact ⟨tag :: (length ++ body), rfl, by simp; omega, leaf body ▸ .counted ha hw hb⟩
    | values =>
      obtain ⟨rfl, rfl, rfl⟩ := Lexed.token.inj h
      exact ⟨[tag], rfl, rfl, .values ha⟩
    | entries inside =>
      obtain ⟨count, rfl, hl, rfl, rfl⟩ := Lexed.fixed_eq_token h
      exact ⟨tag :: count, rfl, by simp [hl, Nat.add_comm], inside count ▸ .entries ha hl⟩

/-- Every token of the format is read, whatever follows it. -/
theorem lex_complete {head : Bytes} {children : Nat} (h : IsToken head children) :
    ∃ t : Token, t.children = children ∧ ∀ rest, lex (head ++ rest) = .token t head.length rest := by
  cases h with
  | @bytes tag count body form size =>
    obtain ⟨f, hr, hf⟩ := form.reads
    cases hr with
    | @bytes _ make leaf =>
      subst size
      refine ⟨make body, leaf body, fun rest => (hf _).trans ?_⟩
      exact (Lexed.fixed_append make rest).trans (by rw [List.length_cons, Nat.add_comm])
  | @counted tag width extra length body form wide size =>
    obtain ⟨f, hr, hf⟩ := form.reads
    cases hr with
    | @counted _ _ make leaf =>
      subst wide
      refine ⟨make body, leaf body, fun rest => (hf _).trans ?_⟩
      refine (Lexed.counted_append make rest size).trans ?_
      rw [List.length_cons, List.length_append, size]
      congr 1
      omega
  | @values tag count form =>
    obtain ⟨f, hr, hf⟩ := form.reads
    cases hr with
    | @values t => exact ⟨t, rfl, fun rest => hf rest⟩
  | @entries tag width each count form wide =>
    obtain ⟨f, hr, hf⟩ := form.reads
    cases hr with
    | @entries _ _ make inside =>
      subst wide
      refine ⟨make count, inside count, fun rest => (hf _).trans ?_⟩
      exact (Lexed.fixed_append make rest).trans (by rw [List.length_cons, Nat.add_comm])

theorem lex_append {bs rest : Bytes} {t : Token} {size : Nat} (h : lex bs = .token t size rest)
    (more : Bytes) : lex (bs ++ more) = .token t size (rest ++ more) := by
  obtain ⟨head, rfl, rfl, ht⟩ := lex_sound h
  obtain ⟨t', -, hl⟩ := lex_complete ht
  rw [hl rest] at h
  cases h
  rw [List.append_assoc]
  exact hl _

theorem lex_eq_reserved {bs : Bytes} (h : lex bs = .reserved) : ∃ rest, bs = 0xC1 :: rest := by
  cases bs with
  | nil => cases h
  | cons tag bs =>
    rcases assigned_or_reserved tag with rfl | ⟨form, ha⟩
    · exact ⟨bs, rfl⟩
    obtain ⟨f, hr, hf⟩ := ha.reads
    rw [hf] at h
    cases hr with
    | values => cases h
    | bytes | entries =>
      simp only [Lexed.fixed] at h
      split at h <;> cases h
    | counted =>
      simp only [Lexed.counted] at h
      split at h
      · split at h <;> cases h
      · cases h

end SeismicStream.Msgpack
