import SeismicStream.Header.Reader
import SeismicStream.Proofs.Msgpack.Reader
import SeismicStream.Writable

namespace SeismicStream
open Msgpack

theorem LabelToken.read_write {labels : List LabelToken} (hl : labels.length < UInt32.size)
    (h : ∀ name, .label name ∈ labels → Text.Writable name) (rest : Bytes) :
    LabelToken.read (Writer.list LabelToken.write labels ++ rest) = some (labels, rest) := by
  refine Reader.list_write hl ?_ rest
  intro t ht more
  cases t with
  | count n =>
    have hn : (n.toNat : Int) < UInt64.size := Int.ofNat_lt.mpr n.toNat_lt
    refine (spells_word n).item ?_ more
    simp only [LabelToken.ofToken?, Token.word?, Token.int?]
    rw [if_pos ⟨Int.natCast_nonneg _, hn⟩, Int.toNat_natCast, UInt64.ofNat_toNat, Option.map_some]
  | label name =>
    refine (spells_text (h name ht)).item ?_ more
    simp only [LabelToken.ofToken?, Token.int?, Token.text?, Token.blob?, Option.bind_some,
      Text.decode?_encode, Option.map_some]

namespace WireHeader

variable {w : WireHeader}

/-- A draft with the value of one more field. -/
def Draft.fill (w : WireHeader) (draft : Draft) : Field → Draft
  | .pid => { draft with pid := some w.pid }
  | .function => { draft with function := some w.function }
  | .bundleCount => { draft with bundleCount := some w.bundleCount }
  | .ndims => { draft with ndims := some w.ndims }
  | .index => { draft with index := some w.index }
  | .labels => { draft with labels := some w.labels }
  | .shapes => { draft with shapes := some w.shapes }
  | .attributes => { draft with attributes := some w.attributes }

theorem Draft.has_fill (draft : Draft) (field other : Field) :
    (draft.fill w field).has other = (decide (field = other) || draft.has other) := by
  cases field <;> cases other <;> rfl

theorem Draft.read_write (h : w.Writable) (draft : Draft) (field : Field) (rest : Bytes) :
    draft.read field (w.writeField field ++ rest) = some (draft.fill w field, rest) := by
  cases field with
  | pid => simp only [read, writeField, Reader.text_write h.pid, Option.map_some, fill]
  | function => simp only [read, writeField, Reader.int64_write, Option.map_some, fill]
  | bundleCount => simp only [read, writeField, Reader.uint32_write, Option.map_some, fill]
  | ndims => simp only [read, writeField, Reader.uint32_write, Option.map_some, fill]
  | index =>
    have hr : Reader.int64s (w.writeField .index ++ rest) = some (w.index, rest) :=
      Reader.list_write h.index (fun n _ => Reader.int64_write n) rest
    simp only [read, hr, Option.map_some, fill]
  | labels =>
    simp only [read, writeField, LabelToken.read_write h.labels h.labelNames, Option.map_some, fill]
  | shapes =>
    have hr : Reader.words (w.writeField .shapes ++ rest) = some (w.shapes, rest) :=
      Reader.list_write h.shapes (fun n _ => Reader.word_write n) rest
    simp only [read, hr, Option.map_some, fill]
  | attributes =>
    have hr : Reader.texts (w.writeField .attributes ++ rest) = some (w.attributes, rest) :=
      Reader.list_write h.attributes (fun s hs => Reader.text_write (h.names s hs)) rest
    simp only [read, hr, Option.map_some, fill]

theorem Key.ofText_key (field : Field) : Key.ofText field.key = .field field := by
  cases field <;> rfl

theorem writable_key (field : Field) : Text.Writable field.key := by
  cases field <;> decide

theorem item_key (field : Field) (rest : Bytes) :
    Reader.item Key.ofToken? (Writer.text field.key ++ rest) = some (.field field, rest) := by
  refine (spells_text (writable_key field)).item ?_ rest
  rw [Key.ofToken?, Text.decode?_encode, Option.map_some, Key.ofText_key]

/-- Fields that were written are read into the draft one by one. -/
theorem entries_write (h : w.Writable) {fields : List Field} {draft : Draft}
    (hn : fields.Nodup) (hd : ∀ field ∈ fields, draft.has field = false) (rest : Bytes) :
    entries fields.length draft
        ((fields.flatMap fun field => Writer.text field.key ++ w.writeField field) ++ rest) =
      .ok (fields.foldl (Draft.fill w) draft, rest) := by
  induction fields generalizing draft with
  | nil => rfl
  | cons field others ih =>
    obtain ⟨hf, hn⟩ := List.nodup_cons.mp hn
    have hnew : ∀ other ∈ others, (draft.fill w field).has other = false := by
      intro other ho
      have hne : field ≠ other := fun he => hf (he ▸ ho)
      rw [Draft.has_fill, hd other (List.mem_cons_of_mem field ho), decide_eq_false hne]
      rfl
    rw [List.flatMap_cons, List.append_assoc, List.append_assoc, List.length_cons, entries]
    simp only [item_key, hd field List.mem_cons_self, Draft.read_write h]
    exact ih hn hnew

/-- A header is read back, whatever comes behind it. -/
theorem decode_encode (h : w.Writable) (rest : Bytes) : decode (w.encode ++ rest) = .ok w := by
  have hn : Field.all.Nodup := by decide
  have hm : Spells (Writer.mapHead Field.all.length) (.map Field.all.length) :=
    spells_mapHead (by decide)
  have hd : ∀ field ∈ Field.all, Draft.has {} field = false := by
    intro field _
    cases field <;> rfl
  have he := entries_write h hn hd rest
  rw [decode, read, encode, List.append_assoc]
  simp only [hm.token, he]
  rfl

theorem isValue_writeField (h : w.Writable) (field : Field) : IsValue (w.writeField field) := by
  cases field with
  | pid => exact isValue_text h.pid
  | function => exact isValue_int64 w.function
  | bundleCount => exact isValue_nat (Nat.lt_trans w.bundleCount.toNat_lt (by decide))
  | ndims => exact isValue_nat (Nat.lt_trans w.ndims.toNat_lt (by decide))
  | index => exact isValue_list h.index fun n _ => isValue_int64 n
  | labels =>
    apply isValue_list h.labels
    intro t ht
    cases t with
    | count n => exact isValue_word n
    | label name => exact isValue_text (h.labelNames name ht)
  | shapes => exact isValue_list h.shapes fun n _ => isValue_word n
  | attributes => exact isValue_list h.attributes fun s hs => isValue_text (h.names s hs)

theorem areValues_fields (h : w.Writable) (fields : List Field) :
    AreValues (2 * fields.length)
      (fields.flatMap fun field => Writer.text field.key ++ w.writeField field) := by
  induction fields with
  | nil => exact .none
  | cons field others ih =>
    have hk := isValue_text (writable_key field)
    have hf := hk.append (isValue_writeField h field)
    rw [List.length_cons, Nat.mul_succ, Nat.add_comm, List.flatMap_cons]
    exact hf.append ih

/-- A written header is one value. -/
theorem isValue_encode (h : w.Writable) : IsValue w.encode := by
  have hm : Spells (Writer.mapHead Field.all.length) (.map Field.all.length) :=
    spells_mapHead (by decide)
  exact hm.areValues (areValues_fields h Field.all)

end WireHeader

end SeismicStream
