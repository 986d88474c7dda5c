import SeismicStream.Msgpack.Reader
import SeismicStream.Msgpack.Writer
import SeismicStream.Proofs.Bytes
import SeismicStream.Proofs.Msgpack.ArrayHead

namespace SeismicStream.Msgpack

/-- The bytes are one token, and no more, whatever comes behind them. -/
def Spells (bs : Bytes) (t : Token) : Prop :=
  ∀ rest, lex (bs ++ rest) = .token t bs.length rest

theorem Spells.isToken {bs : Bytes} {t : Token} (h : Spells bs t) : IsToken bs t.children := by
  have hl := h []
  rw [List.append_nil] at hl
  obtain ⟨head, hb, -, ht⟩ := lex_sound hl
  rw [hb, List.append_nil]
  exact ht

theorem Spells.isValue {bs : Bytes} {t : Token} (h : Spells bs t) (hc : t.children = 0) :
    IsValue bs := by
  have ht := h.isToken
  rw [hc] at ht
  have hv := AreValues.value ht .none .none
  rwa [List.append_nil, List.append_nil] at hv

theorem Spells.areValues {bs inside : Bytes} {t : Token} (h : Spells bs t)
    (hi : AreValues t.children inside) : IsValue (bs ++ inside) := by
  have hv := AreValues.value h.isToken hi .none
  rwa [List.append_nil] at hv

theorem Spells.token {bs : Bytes} {t : Token} (h : Spells bs t) (rest : Bytes) :
    Reader.token (bs ++ rest) = some (t, rest) := by
  rw [Reader.token, h]

theorem Spells.item {α : Type} {bs : Bytes} {t : Token} {accept : Token → Option α} {a : α}
    (h : Spells bs t) (ha : accept t = some a) (rest : Bytes) :
    Reader.item accept (bs ++ rest) = some (a, rest) := by
  simp only [Reader.item, h.token, ha, Option.map_some]

section heads

variable {n : Nat}

theorem spells_fixed {tag : UInt8} {width : Nat} {make : Bytes → Token}
    (h : ∀ rest, lex (tag :: rest) = .fixed width rest make) (n : Nat) :
    Spells (tag :: Bytes.ofNat width n) (make (Bytes.ofNat width n)) := by
  intro rest
  have hf := @Lexed.fixed_append (Bytes.ofNat width n) make rest
  rw [Bytes.length_ofNat] at hf
  rw [List.cons_append, h, hf, List.length_cons, Bytes.length_ofNat, Nat.add_comm]

theorem spells_wide {tag : UInt8} {width : Nat} {make : Nat → Token}
    (h : ∀ rest, lex (tag :: rest) = .fixed width rest fun bs => make (Bytes.toNat bs))
    (hn : n < Nat.pow 256 width) : Spells (tag :: Bytes.ofNat width n) (make n) := by
  have hs := spells_fixed h n
  rwa [Bytes.toNat_ofNat hn] at hs

theorem spells_counted {tag : UInt8} {width : Nat} {make : Bytes → Token} {body : Bytes}
    (h : ∀ rest, lex (tag :: rest) = .counted width 0 rest make)
    (hb : body.length < Nat.pow 256 width) :
    Spells (tag :: Bytes.ofNat width body.length ++ body) (make body) := by
  intro rest
  have hl : body.length = 0 + Bytes.toNat (Bytes.ofNat width body.length) := by
    rw [Bytes.toNat_ofNat hb, Nat.zero_add]
  have hf := Lexed.counted_append make rest hl
  rw [Bytes.length_ofNat, Bytes.toNat_ofNat hb] at hf
  rw [List.cons_append, List.cons_append, h, hf, List.length_cons, List.length_append,
    Bytes.length_ofNat]
  congr 1
  omega

theorem spells_nat (h : n < UInt64.size) : Spells (Writer.nat n) (.unsigned n) := by
  unfold Writer.nat
  split
  · exact lex_positive ‹_›
  split
  · exact spells_wide (fun _ => rfl) ‹_›
  split
  · exact spells_wide (fun _ => rfl) ‹_›
  split
  · exact spells_wide (fun _ => rfl) ‹_›
  · exact spells_wide (fun _ => rfl) h

theorem spells_word (n : Word) : Spells (Writer.word n) (.unsigned n.toNat) :=
  spells_nat n.toNat_lt

theorem spells_str {body : Bytes} (h : body.length < UInt32.size) :
    Spells (Writer.strHead body.length ++ body) (.str body) := by
  unfold Writer.strHead
  split
  · rename_i hn
    intro rest
    rw [List.singleton_append, List.cons_append, lex_shortStr hn, Lexed.fixed_append,
      List.length_cons, Nat.add_comm]
  split
  · exact spells_counted (fun _ => rfl) ‹_›
  split
  · exact spells_counted (fun _ => rfl) ‹_›
  · exact spells_counted (fun _ => rfl) h

theorem spells_text {s : String} (h : (Text.encode s).length < UInt32.size) :
    Spells (Writer.text s) (.str (Text.encode s)) :=
  spells_str h

theorem spells_bin {body : Bytes} (h : body.length < UInt32.size) :
    Spells (Writer.bin body) (.bin body) := by
  unfold Writer.bin Writer.binHead
  split
  · exact spells_counted (fun _ => rfl) ‹_›
  split
  · exact spells_counted (fun _ => rfl) ‹_›
  · exact spells_counted (fun _ => rfl) h

theorem spells_arrayHead (h : n < UInt32.size) : Spells (Writer.arrayHead n) (.array n) := by
  unfold Writer.arrayHead
  split
  · exact lex_shortArray ‹_›
  split
  · exact spells_wide (fun _ => rfl) ‹_›
  · exact spells_wide (fun _ => rfl) h

theorem isArrayHead_arrayHead (h : n < UInt32.size) : IsArrayHead n (Writer.arrayHead n) := by
  unfold Writer.arrayHead
  split
  · exact .short ‹_›
  split
  · rename_i hn
    have ha := IsArrayHead.array16 (Bytes.length_ofNat 2 n)
    rwa [Bytes.toNat_ofNat hn] at ha
  · have ha := IsArrayHead.array32 (Bytes.length_ofNat 4 n)
    rwa [Bytes.toNat_ofNat h] at ha

theorem spells_mapHead (h : n < UInt32.size) : Spells (Writer.mapHead n) (.map n) := by
  unfold Writer.mapHead
  split
  · exact lex_shortMap ‹_›
  split
  · exact spells_wide (fun _ => rfl) ‹_›
  · exact spells_wide (fun _ => rfl) h

theorem spells_signed {tag : UInt8} {width size : Nat} {n : Int}
    (h : ∀ rest, lex (tag :: rest) = .fixed width rest signedOf) (hs : size = Nat.pow 256 width)
    (hl : -size ≤ n * 2) (hn : n < 0) :
    Spells (tag :: Bytes.ofNat width (n + size).toNat) (.signed n) := by
  have hsmall : (n + size).toNat < Nat.pow 256 width := by omega
  have hf := spells_fixed h (n + size).toNat
  have hw : ((n + size).toNat : Int) = n + size := Int.toNat_of_nonneg (by omega)
  rw [signedOf, Bytes.toNat_ofNat hsmall, Bytes.length_ofNat, ← hs, hw, Int.add_bmod_right,
    Int.bmod_eq_of_le_mul_two hl (by omega)] at hf
  exact hf

theorem spells_negative {n : Int} (hl : -32 ≤ n) (hn : n < 0) :
    Spells [UInt8.ofNat (n + UInt8.size).toNat] (.signed n) := by
  have h8 : UInt8.size = 256 := rfl
  have ht : (UInt8.ofNat (n + UInt8.size).toNat).toNat = (n + UInt8.size).toNat :=
    UInt8.toNat_ofNat_of_lt' (by omega)
  have htag : 0xE0 ≤ UInt8.ofNat (n + UInt8.size).toNat := by
    rw [UInt8.le_iff_toNat_le, ht]
    change 224 ≤ _
    omega
  have hv : ((UInt8.ofNat (n + UInt8.size).toNat).toNat : Int) - 256 = n := by omega
  intro rest
  rw [List.singleton_append, lex_negative htag, hv]
  rfl

theorem spells_int {n : Int} (hl : Int64.minValue.toInt ≤ n) (hh : n ≤ Int64.maxValue.toInt) :
    ∃ t, Spells (Writer.int n) t ∧ t.int? = some n ∧ t.children = 0 := by
  have hmin : Int64.minValue.toInt = -9223372036854775808 := rfl
  have hmax : Int64.maxValue.toInt = 9223372036854775807 := rfl
  have h8 : Int8.minValue.toInt = -128 := rfl
  have h16 : Int16.minValue.toInt = -32768 := rfl
  have h32 : Int32.minValue.toInt = -2147483648 := rfl
  have s8 : UInt8.size = 256 := rfl
  have s16 : UInt16.size = 65536 := rfl
  have s32 : UInt32.size = 4294967296 := rfl
  have s64 : UInt64.size = 18446744073709551616 := rfl
  by_cases h0 : 0 ≤ n
  · have hs : n.toNat < UInt64.size := by omega
    rw [Writer.int, if_pos h0]
    exact ⟨.unsigned n.toNat, spells_nat hs, congrArg some (Int.toNat_of_nonneg h0), rfl⟩
  refine ⟨.signed n, ?_, rfl, rfl⟩
  rw [Writer.int, if_neg h0]
  split
  · exact spells_negative ‹_› (by omega)
  split
  · exact spells_signed (fun _ => rfl) rfl (by omega) (by omega)
  split
  · exact spells_signed (fun _ => rfl) rfl (by omega) (by omega)
  split
  · exact spells_signed (fun _ => rfl) rfl (by omega) (by omega)
  · exact spells_signed (fun _ => rfl) rfl (by omega) (by omega)

end heads

end SeismicStream.Msgpack
