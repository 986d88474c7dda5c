import SeismicStream.Proofs.Msgpack.Writer

namespace SeismicStream.Msgpack

theorem AreValues.flatMap {α : Type} {write : α → Bytes} {items : List α}
    (h : ∀ x ∈ items, IsValue (write x)) : AreValues items.length (items.flatMap write) := by
  have hf : ∀ v ∈ items.map write, IsValue v := by
    intro v hv
    obtain ⟨x, hx, rfl⟩ := List.mem_map.mp hv
    exact h x hx
  have hv := AreValues.flatten hf
  rwa [List.length_map, ← List.flatMap_def] at hv

theorem isValue_word (n : Word) : IsValue (Writer.word n) :=
  (spells_word n).isValue rfl

theorem isValue_nat {n : Nat} (h : n < UInt64.size) : IsValue (Writer.nat n) :=
  (spells_nat h).isValue rfl

theorem isValue_text {s : String} (h : (Text.encode s).length < UInt32.size) :
    IsValue (Writer.text s) :=
  (spells_text h).isValue rfl

theorem isValue_bin {body : Bytes} (h : body.length < UInt32.size) : IsValue (Writer.bin body) :=
  (spells_bin h).isValue rfl

theorem isValue_int64 (n : Int64) : IsValue (Writer.int n.toInt) := by
  obtain ⟨t, hs, -, hc⟩ := spells_int n.minValue_le_toInt n.toInt_le
  exact hs.isValue hc

theorem isValue_list {α : Type} {write : α → Bytes} {items : List α}
    (hl : items.length < UInt32.size) (h : ∀ x ∈ items, IsValue (write x)) :
    IsValue (Writer.list write items) :=
  (isArrayHead_arrayHead hl).isValue (.flatMap h)

namespace Reader

theorem word_write (n : Word) (rest : Bytes) : word (Writer.word n ++ rest) = some (n, rest) := by
  refine (spells_word n).item ?_ rest
  have hn : (n.toNat : Int) < UInt64.size := Int.ofNat_lt.mpr n.toNat_lt
  simp only [Token.word?, Token.int?]
  rw [if_pos ⟨Int.natCast_nonneg _, hn⟩, Int.toNat_natCast, UInt64.ofNat_toNat]

theorem uint32_write (n : UInt32) (rest : Bytes) :
    uint32 (Writer.nat n.toNat ++ rest) = some (n, rest) := by
  have hn : (n.toNat : Int) < UInt32.size := Int.ofNat_lt.mpr n.toNat_lt
  have hs : n.toNat < UInt64.size := Nat.lt_trans n.toNat_lt (by decide)
  refine (spells_nat hs).item ?_ rest
  simp only [Token.uint32?, Token.int?]
  rw [if_pos ⟨Int.natCast_nonneg _, hn⟩, Int.toNat_natCast, UInt32.ofNat_toNat]

theorem int64_write (n : Int64) (rest : Bytes) :
    int64 (Writer.int n.toInt ++ rest) = some (n, rest) := by
  obtain ⟨t, hs, ht, -⟩ := spells_int n.minValue_le_toInt n.toInt_le
  refine hs.item ?_ rest
  simp only [Token.int64?, ht]
  rw [if_pos ⟨n.minValue_le_toInt, n.toInt_le⟩, Int64.ofInt_toInt]

theorem text_write {s : String} (h : (Text.encode s).length < UInt32.size) (rest : Bytes) :
    text (Writer.text s ++ rest) = some (s, rest) :=
  (spells_text h).item (Text.decode?_encode s) rest

theorem blob_write {body : Bytes} (h : body.length < UInt32.size) (rest : Bytes) :
    blob (Writer.bin body ++ rest) = some (body, rest) := by
  have ha : Token.blob? (.bin body) = some body := rfl
  exact (spells_bin h).item ha rest

theorem times_write {α : Type} {read : Reader α} {write : α → Bytes} {items : List α}
    (h : ∀ x ∈ items, ∀ rest, read (write x ++ rest) = some (x, rest)) (front : List α)
    (rest : Bytes) :
    times read items.length front (items.flatMap write ++ rest) =
      some (front.reverse ++ items, rest) := by
  induction items generalizing front with
  | nil => simp [times]
  | cons x others ih =>
    rw [List.flatMap_cons, List.append_assoc, List.length_cons, times]
    simp only [h x List.mem_cons_self]
    rw [ih fun y hy => h y (List.mem_cons_of_mem x hy)]
    simp

/-- A list is read back when each of its items is. -/
theorem list_write {α : Type} {ofByte : UInt8 → Option α} {read : Reader α} {write : α → Bytes}
    {items : List α} (hl : items.length < UInt32.size)
    (h : ∀ x ∈ items, ∀ rest, read (write x ++ rest) = some (x, rest)) (rest : Bytes) :
    list ofByte read (Writer.list write items ++ rest) = some (items, rest) := by
  rw [Writer.list, List.append_assoc]
  simp only [list, (spells_arrayHead hl).token]
  exact times_write h [] rest

theorem tuple_write {α : Type} {size : Nat} (hs : size < UInt32.size) (body : Reader α)
    (rest : Bytes) : tuple size body (Writer.arrayHead size ++ rest) = body rest := by
  simp only [tuple, (spells_arrayHead hs).token, if_true]

theorem tuple_other {α : Type} {size count : Nat} (hc : count < UInt32.size) (hn : count ≠ size)
    (body : Reader α) (rest : Bytes) : tuple size body (Writer.arrayHead count ++ rest) = none := by
  simp only [tuple, (spells_arrayHead hc).token, if_neg hn]

end Reader

end SeismicStream.Msgpack
