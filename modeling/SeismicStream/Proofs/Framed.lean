import SeismicStream.Bundle.Reader
import SeismicStream.Header.Reader
import SeismicStream.Msgpack.Framed
import SeismicStream.Proofs.Msgpack.Values

namespace SeismicStream
open Msgpack Reader

namespace Msgpack

/-- It is enough that what is accepted begins with a value, and that a value is read in the same
way whatever follows. -/
theorem ReadsFrame.of_settled {α ε : Type} {decode : Bytes → Except ε α} {bs : Bytes}
    (begins : ∀ a, decode bs = .ok a → ∃ value rest, bs = value ++ rest ∧ IsValue value)
    (settled : ∀ value more, IsValue value → decode (value ++ more) = decode value)
    (h : bs.length < UInt64.size) : ReadsFrame decode bs where
  whole := by
    intro a ha
    obtain ⟨value, rest, rfl, hv⟩ := begins a ha
    rw [List.length_append] at h ⊢
    refine ⟨value.length, Nat.le_add_right _ _, ?_, ?_⟩
    · exact extent_eq_some_iff.mpr ⟨value, rest, rfl, ⟨hv, by omega⟩, rfl⟩
    · rwa [List.take_left, ← settled value rest hv]
  alone := by
    intro n hn more
    obtain ⟨value, rest, rfl, hv, rfl⟩ := extent_eq_some_iff.mp hn
    rw [List.take_left]
    exact settled value more hv.value

/-- A decoder that reads one value, and then decides on what it has read. -/
theorem Reader.TakesValues.readsFrame {α β ε : Type} {read : Reader α} (hr : TakesValues read 1)
    {decode : Bytes → Except ε β} (verdict : α → Except ε β) (unread : ε)
    (hs : ∀ bs a rest, read bs = some (a, rest) → decode bs = verdict a)
    (hn : ∀ bs, read bs = none → decode bs = .error unread) {bs : Bytes}
    (h : bs.length < UInt64.size) : ReadsFrame decode bs := by
  refine .of_settled (fun b hb => ?_) (fun value more hv => ?_) h
  · cases ha : read bs with
    | none => rw [hn bs ha] at hb; cases hb
    | some p =>
      obtain ⟨value, he, hv, -⟩ := hr bs p.1 p.2 ha
      exact ⟨value, p.2, he, hv⟩
  · rw [← value.append_nil, List.append_assoc]
    obtain ⟨a, ha⟩ | ha := hr.settled hv
    · rw [hs _ a _ (ha _), hs _ a _ (ha _)]
    · rw [hn _ (ha _), hn _ (ha _)]

end Msgpack

theorem LabelToken.read_takes : TakesValues LabelToken.read 1 :=
  .list (.item (fun _ => rfl) fun _ => rfl)

namespace WireHeader

theorem Draft.read_takes (draft : Draft) (field : Field) : TakesValues (draft.read field) 1 := by
  cases field with
  | pid => exact TakesValues.text.map fun v => { draft with pid := some v }
  | function => exact TakesValues.int64.map fun v => { draft with function := some v }
  | bundleCount => exact TakesValues.uint32.map fun v => { draft with bundleCount := some v }
  | ndims => exact TakesValues.uint32.map fun v => { draft with ndims := some v }
  | index => exact TakesValues.int64s.map fun v => { draft with index := some v }
  | labels => exact LabelToken.read_takes.map fun v => { draft with labels := some v }
  | shapes => exact TakesValues.words.map fun v => { draft with shapes := some v }
  | attributes => exact TakesValues.texts.map fun v => { draft with attributes := some v }

theorem key_takes : TakesValues (Reader.item Key.ofToken?) 1 :=
  .item (fun _ => rfl) fun _ => rfl

theorem values_takes (fields : List Field) (draft : Draft) :
    TakesValues (values draft fields) fields.length := by
  induction fields generalizing draft with
  | nil => exact .done draft
  | cons field fields ih =>
    have he : values draft (field :: fields) =
        fun bs => (draft.read field bs).bind fun (draft, rest) => values draft fields rest := by
      funext bs
      rw [values]
      cases draft.read field bs <;> rfl
    rw [he]
    exact (draft.read_takes field).next ih

/-- So many entries of a map are twice as many values. -/
theorem entries_begins {count : Nat} {draft draft' : Draft} {bs rest : Bytes}
    (h : entries count draft bs = .ok (draft', rest)) :
    ∃ front, bs = front ++ rest ∧ AreValues (2 * count) front := by
  induction count generalizing draft bs with
  | zero =>
    obtain ⟨rfl, rfl⟩ := Prod.mk.inj (Except.ok.inj h)
    exact ⟨[], rfl, .none⟩
  | succ count ih =>
    unfold entries at h
    split at h
    · cases h
    · cases h
    · rename_i field afterKey hk
      split at h
      · cases h
      split at h
      · cases h
      · rename_i next afterValue hr
        obtain ⟨key, rfl, hkey, -⟩ := key_takes bs _ afterKey hk
        obtain ⟨value, rfl, hvalue, -⟩ := draft.read_takes field afterKey next afterValue hr
        obtain ⟨others, rfl, hothers⟩ := ih h
        refine ⟨key ++ value ++ others, by simp only [List.append_assoc], ?_⟩
        rw [show 2 * (count + 1) = 1 + 1 + 2 * count by omega]
        exact (hkey.append hvalue).append hothers

/-- Over twice as many values the outcome of the entries is settled, and so is an error, since what
is refused is refused for one of them. -/
theorem entries_settled {count : Nat} {front : Bytes} (hv : AreValues (2 * count) front)
    (draft : Draft) :
    (∃ draft', ∀ more, entries count draft (front ++ more) = .ok (draft', more)) ∨
      ∃ e, ∀ more, entries count draft (front ++ more) = .error e := by
  -- A key that is refused ends the entries before its value is read, so the value's own bytes are
  -- set apart first and used only where they are reached.
  induction count generalizing draft front with
  | zero =>
    cases hv
    exact .inl ⟨draft, fun more => rfl⟩
  | succ count ih =>
    rw [show 2 * (count + 1) = 1 + (1 + 2 * count) by omega] at hv
    obtain ⟨key, back, rfl, hkey, hback⟩ := hv.split
    obtain ⟨value, others, rfl, hvalue, hothers⟩ := hback.split
    simp only [List.append_assoc, entries]
    obtain ⟨k, hk⟩ | hk := key_takes.settled hkey
    · simp only [hk]
      cases k with
      | unknown key => exact .inr ⟨.unknown key, fun more => rfl⟩
      | field field =>
        dsimp only
        split
        · exact .inr ⟨.duplicate field, fun more => rfl⟩
        · obtain ⟨next, hn⟩ | hn := (draft.read_takes field).settled hvalue
          · simp only [hn]
            exact ih hothers next
          · simp only [hn]
            exact .inr ⟨.malformed, fun more => rfl⟩
    · simp only [hk]
      exact .inr ⟨.malformed, fun more => rfl⟩

theorem Draft.rest_of_finish {draft : Draft} {after rest : Bytes} {w : WireHeader}
    (h : draft.finish.map (·, after) = .ok (w, rest)) : after = rest := by
  cases hf : draft.finish with
  | error e => rw [hf] at h; cases h
  | ok w' => rw [hf] at h; cases h; rfl

theorem Draft.fst_finish (draft : Draft) (rest : Bytes) :
    (draft.finish.map (·, rest)).map Prod.fst = draft.finish := by
  cases draft.finish <;> rfl

theorem read_begins {bs rest : Bytes} {w : WireHeader} (h : read bs = .ok (w, rest)) :
    ∃ value, bs = value ++ rest ∧ IsValue value := by
  unfold read at h
  split at h
  · rename_i count body ht
    split at h
    · cases h
    · rename_i draft after he
      obtain rfl := Draft.rest_of_finish h
      obtain ⟨head, rfl, hs⟩ := token_spells ht
      obtain ⟨inside, rfl, hv⟩ := entries_begins he
      exact ⟨head ++ inside, (List.append_assoc ..).symm, hs.areValues hv⟩
  · rename_i count body ht
    split at h
    · rename_i hc
      split at h
      · cases h
      · rename_i draft after hr
        obtain rfl := Draft.rest_of_finish h
        obtain ⟨head, rfl, hs⟩ := token_spells ht
        obtain ⟨inside, rfl, hv, -⟩ := values_takes _ _ body draft after hr
        exact ⟨head ++ inside, (List.append_assoc ..).symm, hs.areValues (hc ▸ hv)⟩
    · cases h
  · cases h

theorem decode_begins {bs : Bytes} {w : WireHeader} (h : decode bs = .ok w) :
    ∃ value rest, bs = value ++ rest ∧ IsValue value := by
  unfold decode at h
  cases hr : read bs with
  | error e => rw [hr] at h; cases h
  | ok p =>
    obtain ⟨w', rest⟩ := p
    obtain ⟨value, hb, hv⟩ := read_begins hr
    exact ⟨value, rest, hb, hv⟩

/-- The answer over one value, in each of the forms that its first token can have. -/
theorem decode_settled {value : Bytes} (hv : IsValue value) :
    ∃ answer, ∀ more, decode (value ++ more) = answer := by
  obtain ⟨head, inside, t, rfl, hs, hin⟩ := hv.spells
  simp only [decode, read, List.append_assoc, hs.token]
  cases t with
  | map count =>
    obtain ⟨draft, he⟩ | ⟨e, he⟩ := entries_settled hin {}
    · simp only [he]
      exact ⟨draft.finish, draft.fst_finish⟩
    · simp only [he]
      exact ⟨.error e, fun more => rfl⟩
  | array count =>
    dsimp only
    split
    · rename_i hc
      obtain ⟨draft, hr⟩ | hr := (values_takes Field.all {}).settled (hc ▸ hin)
      · simp only [hr]
        exact ⟨draft.finish, draft.fst_finish⟩
      · simp only [hr]
        exact ⟨.error .malformed, fun more => rfl⟩
    · exact ⟨.error .malformed, fun more => rfl⟩
  | _ => exact ⟨.error .malformed, fun more => rfl⟩

theorem decode_readsFrame {bs : Bytes} (h : bs.length < UInt64.size) : ReadsFrame decode bs := by
  refine .of_settled (fun w => decode_begins) (fun value more hv => ?_) h
  obtain ⟨answer, ha⟩ := decode_settled hv
  rw [ha, ← ha [], List.append_nil]

end WireHeader

namespace Bundle

theorem readTile_takes : TakesValues readTile 1 :=
  .tuple <| .next .word fun _ => .next .word fun _ => .next .word fun _ => .next .word fun _ =>
    .next .word fun _ => .next .blob fun _ => .done _

theorem readSlice_takes : TakesValues readSlice 1 :=
  .tuple <| .next .text fun _ => .next (.list readTile_takes) fun _ => .done _

theorem readCurtain_takes : TakesValues readCurtain 1 :=
  .tuple <| .next .text fun _ => .next .word fun _ => .next .words fun _ => .next .words fun _ =>
    .next .blob fun _ => .done _

theorem decode_readsFrame (operation : Operation) {bs : Bytes} (h : bs.length < UInt64.size) :
    ReadsFrame (decode operation) bs := by
  cases operation with
  | slice =>
    refine readSlice_takes.readsFrame Except.ok BundleError.malformed ?_ ?_ h
    · intro bs bundle rest hs
      simp only [decode, hs]
    · intro bs hn
      simp only [decode, hn]
  | curtain =>
    refine readCurtain_takes.readsFrame ofWireCurtain BundleError.malformed ?_ ?_ h
    · intro bs wire rest hs
      simp only [decode, hs]
    · intro bs hn
      simp only [decode, hn]

end Bundle

/-- The extent of a header and of a bundle is the value that their decoders read. -/
theorem decoders_read_frames {bs : Bytes} (h : bs.length < UInt64.size) :
    ReadsFrame WireHeader.decode bs ∧ ∀ operation, ReadsFrame (Bundle.decode operation) bs :=
  ⟨WireHeader.decode_readsFrame h, fun operation => Bundle.decode_readsFrame operation h⟩

/-- A header that comes as an array, with the reserved tag behind it. -/
def headerThenReserved : Bytes :=
  [0x98, 0xA0, 0x01, 0x00, 0x00, 0x90, 0x90, 0x90, 0x90, 0xC1]

/-- A slice without tiles, with the reserved tag behind it. -/
def sliceThenReserved : Bytes :=
  [0x92, 0xA1, 0x61, 0x90, 0xC1]

theorem decoders_read_frames_thenReserved :
    (headerThenReserved.length < UInt64.size ∧
      WireHeader.decode headerThenReserved = .ok { function := 1 } ∧
      ReadsFrame WireHeader.decode headerThenReserved ∧
      ∀ operation, ReadsFrame (Bundle.decode operation) headerThenReserved) ∧
    sliceThenReserved.length < UInt64.size ∧
      Bundle.decode .slice sliceThenReserved = .ok (.slice "a" []) ∧
      ReadsFrame WireHeader.decode sliceThenReserved ∧
      ∀ operation, ReadsFrame (Bundle.decode operation) sliceThenReserved :=
  ⟨⟨by decide, by decide +kernel, decoders_read_frames (by decide)⟩,
    by decide, by decide +kernel, decoders_read_frames (by decide)⟩

end SeismicStream
