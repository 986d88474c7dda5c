import SeismicStream.Proofs.Msgpack.Extent
import SeismicStream.Proofs.Msgpack.Writer

namespace SeismicStream.Msgpack

theorem lex_spells {bs rest : Bytes} {t : Token} {size : Nat} (h : lex bs = .token t size rest) :
    ∃ head, bs = head ++ rest ∧ Spells head t := by
  obtain ⟨head, rfl, rfl, ht⟩ := lex_sound h
  obtain ⟨t', -, hs⟩ := lex_complete ht
  have he := hs rest
  rw [h] at he
  cases he
  exact ⟨head, rfl, hs⟩

/-- A value is a token and the values inside. -/
theorem IsValue.spells {bs : Bytes} (h : IsValue bs) :
    ∃ head inside t, bs = head ++ inside ∧ Spells head t ∧ AreValues t.children inside := by
  cases h with
  | @value head inside _ children _ token within after =>
    cases after
    obtain ⟨t, rfl, hs⟩ := lex_complete token
    exact ⟨head, inside, t, List.append_nil _, hs, within⟩

namespace Reader

variable {α β : Type} {count : Nat}

theorem token_spells {bs rest : Bytes} {t : Token} (h : token bs = some (t, rest)) :
    ∃ head, bs = head ++ rest ∧ Spells head t := by
  unfold token at h
  split at h
  · rename_i hl
    cases h
    exact lex_spells hl
  · cases h

/-- What is read are exactly so many values, and what follows them does not matter. -/
def TakesValues (read : Reader α) (count : Nat) : Prop :=
  ∀ bs a rest, read bs = some (a, rest) →
    ∃ front, bs = front ++ rest ∧ AreValues count front ∧ ∀ more, read (front ++ more) = some (a, more)

namespace TakesValues

/-- Over so many values the outcome is settled, and they are all that is read. -/
theorem settled {read : Reader α} (hr : TakesValues read count) {front : Bytes}
    (hv : AreValues count front) :
    (∃ a, ∀ more, read (front ++ more) = some (a, more)) ∨ ∀ more, read (front ++ more) = none := by
  -- One way to go on with which it succeeds shows that it reads these values and no others.
  by_cases h : ∃ more a rest, read (front ++ more) = some (a, rest)
  · obtain ⟨more, a, rest, h⟩ := h
    obtain ⟨front', he, hv', ha⟩ := hr _ a rest h
    obtain ⟨rfl, -⟩ := hv.unique hv' he
    exact .inl ⟨a, ha⟩
  · refine .inr fun more => Option.eq_none_iff_forall_ne_some.mpr fun p hp => h ?_
    exact ⟨more, p.1, p.2, hp⟩

theorem done (a : α) : TakesValues (fun bs => some (a, bs)) 0 := by
  intro bs b rest h
  obtain ⟨rfl, rfl⟩ := Prod.mk.inj (Option.some.inj h)
  exact ⟨[], rfl, .none, fun more => rfl⟩

/-- One value, and then those that are read with it known. -/
theorem next {read : Reader α} {follow : α × Bytes → Option (β × Bytes)} (hr : TakesValues read 1)
    (hf : ∀ a, TakesValues (fun rest => follow (a, rest)) count) :
    TakesValues (fun bs => (read bs).bind follow) (count + 1) := by
  intro bs b rest h
  obtain ⟨⟨a, middle⟩, ha, hb⟩ := Option.bind_eq_some_iff.mp h
  obtain ⟨value, rfl, hv, hr'⟩ := hr bs a middle ha
  obtain ⟨values, rfl, hvs, hf'⟩ := hf a middle b rest hb
  refine ⟨value ++ values, (List.append_assoc ..).symm, ?_, fun more => ?_⟩
  · rw [Nat.add_comm]
    exact hv.append hvs
  · simp only [List.append_assoc, hr', Option.bind_some, hf']

theorem map {read : Reader α} (hr : TakesValues read count) (f : α → β) :
    TakesValues (fun bs => (read bs).map fun (a, rest) => (f a, rest)) count := by
  intro bs b rest h
  obtain ⟨⟨a, rest'⟩, ha, he⟩ := Option.map_eq_some_iff.mp h
  obtain ⟨rfl, rfl⟩ := Prod.mk.inj he
  obtain ⟨front, hb, hv, hr'⟩ := hr bs a rest' ha
  exact ⟨front, hb, hv, fun more => by simp only [hr', Option.map_some]⟩

/-- An item is no array and no map, so nothing stands inside of it. -/
theorem item {accept : Token → Option α} (ha : ∀ count, accept (.array count) = none)
    (hm : ∀ count, accept (.map count) = none) : TakesValues (item accept) 1 := by
  intro bs a rest h
  unfold Reader.item at h
  split at h
  · rename_i t rest' ht
    obtain ⟨a', hacc, he⟩ := Option.map_eq_some_iff.mp h
    obtain ⟨rfl, rfl⟩ := Prod.mk.inj he
    obtain ⟨head, rfl, hs⟩ := token_spells ht
    have hc : t.children = 0 := by
      cases t with
      | array count => rw [ha] at hacc; cases hacc
      | map count => rw [hm] at hacc; cases hacc
      | _ => rfl
    exact ⟨head, rfl, hs.isValue hc, hs.item hacc⟩
  · cases h

theorem word : TakesValues word 1 :=
  item (fun _ => rfl) fun _ => rfl

theorem int64 : TakesValues int64 1 :=
  item (fun _ => rfl) fun _ => rfl

theorem uint32 : TakesValues uint32 1 :=
  item (fun _ => rfl) fun _ => rfl

theorem text : TakesValues text 1 :=
  item (fun _ => rfl) fun _ => rfl

theorem blob : TakesValues blob 1 :=
  item (fun _ => rfl) fun _ => rfl

theorem times {read : Reader α} (hr : TakesValues read 1) (count : Nat) (front : List α) :
    TakesValues (times read count front) count := by
  induction count generalizing front with
  | zero => exact done front.reverse
  | succ count ih =>
    have he : Reader.times read (count + 1) front =
        fun bs => (read bs).bind fun (a, rest) => Reader.times read count (a :: front) rest := by
      funext bs
      rw [Reader.times]
      cases read bs <;> rfl
    rw [he]
    exact hr.next fun a => ih (a :: front)

/-- A list is one value in both of its forms: an array and its items, or a byte string. -/
theorem list {ofByte : UInt8 → Option α} {read : Reader α} (hr : TakesValues read 1) :
    TakesValues (list ofByte read) 1 := by
  intro bs items rest h
  unfold Reader.list at h
  split at h
  · rename_i count body ht
    obtain ⟨head, rfl, hs⟩ := token_spells ht
    obtain ⟨inside, rfl, hv, hr'⟩ := hr.times count [] body items rest h
    refine ⟨head ++ inside, (List.append_assoc ..).symm, hs.areValues hv, fun more => ?_⟩
    rw [List.append_assoc, Reader.list]
    simp only [hs.token, hr']
  · rename_i bytes body ht
    obtain ⟨items', hm, he⟩ := Option.map_eq_some_iff.mp h
    obtain ⟨rfl, rfl⟩ := Prod.mk.inj he
    obtain ⟨head, rfl, hs⟩ := token_spells ht
    refine ⟨head, rfl, hs.isValue rfl, fun more => ?_⟩
    rw [Reader.list]
    simp only [hs.token, hm, Option.map_some]
  · cases h

theorem words : TakesValues words 1 :=
  list word

theorem int64s : TakesValues int64s 1 :=
  list int64

theorem texts : TakesValues texts 1 :=
  list text

/-- An array is one value when its body reads as many values as the array has to hold. -/
theorem tuple {size : Nat} {body : Reader α} (hb : TakesValues body size) :
    TakesValues (tuple size body) 1 := by
  intro bs a rest h
  unfold Reader.tuple at h
  split at h
  · rename_i count inside ht
    split at h
    · rename_i hc
      subst hc
      obtain ⟨head, rfl, hs⟩ := token_spells ht
      obtain ⟨values, rfl, hv, hb'⟩ := hb inside a rest h
      refine ⟨head ++ values, (List.append_assoc ..).symm, hs.areValues hv, fun more => ?_⟩
      rw [List.append_assoc, Reader.tuple]
      simp only [hs.token, if_true, hb']
    · cases h
  · cases h

end TakesValues

end Reader

end SeismicStream.Msgpack
