import Mathlib.Data.List.Nodup
import SeismicStream.Header.Checks
import SeismicStream.Proofs.Header.Basic
import SeismicStream.Proofs.Packed

namespace SeismicStream

theorem Operation.ofWire?_toWire (operation : Operation) :
    ofWire? operation.toWire = some operation :=
  ofWire?_eq_some_iff.mpr rfl

theorem Operation.exists_ofWire? {value : Int64} (h : value = 1 ∨ value = 2) :
    ∃ operation, ofWire? value = some operation := by
  rcases h with rfl | rfl
  · exact ⟨.slice, rfl⟩
  · exact ⟨.curtain, rfl⟩

theorem Operation.ofWire?_eq_none_iff {value : Int64} :
    ofWire? value = none ↔ value ≠ 1 ∧ value ≠ 2 := by
  unfold ofWire?
  split
  · simp [*]
  split <;> simp [*]

theorem Operation.known_of_ofWire? {value : Int64} {operation : Operation}
    (h : ofWire? value = some operation) : value = 1 ∨ value = 2 := by
  rw [ofWire?_eq_some_iff.mp h]
  cases operation
  · exact .inl rfl
  · exact .inr rfl

section names

variable {before : List String} {name : String}

theorem split_of_firstRepeated? {names : List String} (hb : before.Nodup)
    (h : firstRepeated? before names = some name) : ∃ front back, names = front ++ name :: back ∧
      (front.reverse ++ before).Nodup ∧ name ∈ front.reverse ++ before := by
  induction names generalizing before with
  | nil => cases h
  | cons first rest ih =>
    unfold firstRepeated? at h
    split at h
    · rename_i hm
      cases h
      exact ⟨[], rest, rfl, hb, hm⟩
    · rename_i hm
      obtain ⟨front, back, rfl, hd, hn⟩ := ih (List.nodup_cons.mpr ⟨hm, hb⟩) h
      refine ⟨first :: front, back, rfl, ?_⟩
      rw [List.reverse_cons, List.append_assoc]
      exact ⟨hd, hn⟩

theorem firstRepeated?_split {front : List String} (hd : (front.reverse ++ before).Nodup)
    (hn : name ∈ front.reverse ++ before) (back : List String) :
    firstRepeated? before (front ++ name :: back) = some name := by
  induction front generalizing before with
  | nil => exact if_pos hn
  | cons first rest ih =>
    rw [List.reverse_cons, List.append_assoc] at hd hn
    have hm : first ∉ before := (List.nodup_cons.mp (List.nodup_append.mp hd).2.1).1
    rw [List.cons_append, firstRepeated?, if_neg hm]
    exact ih hd hn

/-- The first repeated name is the first that stands behind itself. -/
theorem firstRepeated?_eq_some_iff {names : List String} : firstRepeated? [] names = some name ↔
    ∃ front back, names = front ++ name :: back ∧ front.Nodup ∧ name ∈ front := by
  constructor
  · intro h
    obtain ⟨front, back, hs, hd, hn⟩ := split_of_firstRepeated? List.nodup_nil h
    rw [List.append_nil] at hd hn
    exact ⟨front, back, hs, List.nodup_reverse.mp hd, List.mem_reverse.mp hn⟩
  · rintro ⟨front, back, rfl, hd, hn⟩
    refine firstRepeated?_split ?_ ?_ back
    · rwa [List.append_nil, List.nodup_reverse]
    · rwa [List.append_nil, List.mem_reverse]

end names

namespace Packed

theorem IsShapes.unique {flat : List Word} {shapes others : List Shape} (h : IsShapes flat shapes)
    (h' : IsShapes flat others) : shapes = others :=
  Except.ok.inj ((shapes?_eq_ok_iff.mpr h).symm.trans (shapes?_eq_ok_iff.mpr h'))

theorem IsLabels.unique {flat : List LabelToken} {labels others : List (List String)}
    (h : IsLabels flat labels) (h' : IsLabels flat others) : labels = others :=
  Except.ok.inj ((labels?_eq_ok_iff.mpr h).symm.trans (labels?_eq_ok_iff.mpr h'))

theorem isLabels_nil : IsLabels [] [] :=
  ⟨nofun, rfl⟩

theorem ofLabels_replicate (count : Nat) :
    ofLabels (List.replicate count []) = List.replicate count (.count 0) := by
  induction count with
  | zero => rfl
  | succ count ih =>
    rw [List.replicate_succ, List.replicate_succ, ← ih]
    rfl

end Packed

namespace WireHeader
open Packed Header

variable {w : WireHeader} {shapes : List Shape} {labels : List (List String)}

/-- The labels of a header are what unpacking finds, or nothing for each name where it finds
nothing. -/
theorem labelled_iff : w.Labelled labels ↔ ∃ found, labels? w.labels = .ok found ∧
    labels = spreadLabels w.attributes.length found ∧ labels.length = w.attributes.length := by
  constructor
  · intro h
    cases h with
    | none empty =>
      refine ⟨[], ?_, rfl, List.length_replicate⟩
      rw [empty, labels?_eq_ok_iff]
      exact isLabels_nil
    | packed packed count =>
      refine ⟨labels, labels?_eq_ok_iff.mpr packed, ?_, count⟩
      cases labels with
      | nil =>
        rw [← count]
        rfl
      | cons group rest => rfl
  · rintro ⟨found, hf, rfl, hn⟩
    have hp := labels?_eq_ok_iff.mp hf
    cases found with
    | nil => exact .none hp.packed.symm
    | cons group rest => exact .packed hp hn

theorem Labelled.unique {others : List (List String)} (h : w.Labelled labels)
    (h' : w.Labelled others) : labels = others := by
  obtain ⟨found, hf, rfl, -⟩ := labelled_iff.mp h
  obtain ⟨found', hf', rfl, -⟩ := labelled_iff.mp h'
  rw [Except.ok.inj (hf.symm.trans hf')]

theorem Labelled.length (h : w.Labelled labels) : labels.length = w.attributes.length := by
  obtain ⟨-, -, -, hn⟩ := labelled_iff.mp h
  exact hn

/-- Of a header whose lists can be unpacked and have one length, only a name can be wrong. -/
theorem Refused.repeats {e : HeaderError} (shaped : w.Shaped shapes) (labelled : w.Labelled labels)
    (h : w.Refused e) : ∃ front name back, e = .repeatedName name ∧
      w.attributes = front ++ name :: back ∧ front.Nodup ∧ name ∈ front := by
  cases h with
  | function one two => exact (shaped.function.elim one two).elim
  | shapes function fault =>
    rw [shapes?_eq_ok_iff.mpr shaped.packed] at fault
    cases fault
  | shapeCount function packed count =>
    rw [packed.unique shaped.packed] at count
    exact absurd shaped.count count
  | labels shaped fault =>
    obtain ⟨found, hf, -, -⟩ := labelled_iff.mp labelled
    rw [hf] at fault
    cases fault
  | @labelCount _ others shaped some packed count =>
    cases labelled with
    | none empty => exact absurd empty some
    | packed packed' count' =>
      rw [packed.unique packed'] at count
      exact absurd count' count
  | @repeated _ _ front back name _ _ split distinct again =>
    exact ⟨front, name, back, rfl, split, distinct, again⟩

/-- A header that fits together fails no check. -/
theorem Declares.not_refused {e : HeaderError} (h : w.Declares shapes labels) : ¬w.Refused e := by
  intro hr
  obtain ⟨front, name, back, -, split, -, again⟩ := hr.repeats h.shaped h.labelled
  have hn := h.names
  rw [split] at hn
  exact (List.nodup_append.mp hn).2.2 _ again _ List.mem_cons_self rfl

end WireHeader

namespace Header
open Packed

/-- Lists of one length are found again in the outputs that they declare. -/
theorem map_declare {names : List String} {shapes : List Shape} {labels : List (List String)}
    (hs : shapes.length = names.length) (hl : labels.length = names.length) :
    (declare names shapes labels).map Attribute.name = names ∧
      (declare names shapes labels).map Attribute.shape = shapes ∧
      (declare names shapes labels).map Attribute.labels = labels := by
  induction names generalizing shapes labels with
  | nil =>
    obtain rfl := List.length_eq_zero_iff.mp hs
    obtain rfl := List.length_eq_zero_iff.mp hl
    exact ⟨rfl, rfl, rfl⟩
  | cons name rest ih =>
    cases shapes with
    | nil => cases hs
    | cons shape shapes =>
      cases labels with
      | nil => cases hl
      | cons group labels =>
        obtain ⟨hn, hs, hl⟩ := ih (Nat.succ.inj hs) (Nat.succ.inj hl)
        exact ⟨congrArg _ hn, congrArg _ hs, congrArg _ hl⟩

variable {w : WireHeader} {shapes : List Shape} {labels : List (List String)} {header : Header}

theorem names_ofWire (h : ofWire w = .ok header) : header.names = w.attributes := by
  obtain ⟨-, -, -, -, -, shapes, labels, -, -, hs, hl, ha⟩ := ofWire_ok h
  rw [names, ha]
  exact (map_declare hs hl).1

theorem declares_of_ok (h : ofWire w = .ok header) : w.Declares header.shapes header.labels := by
  have hn := names_ofWire h
  obtain ⟨ho, -, -, -, -, shapes, labels, hs, hl, hsn, hln, ha⟩ := ofWire_ok h
  obtain ⟨-, hshapes, hlabels⟩ := map_declare hsn hln
  rw [← ha] at hshapes hlabels
  change header.shapes = shapes at hshapes
  change header.labels = spreadLabels w.attributes.length labels at hlabels
  rw [hshapes, hlabels]
  have hf := Operation.known_of_ofWire? ho
  exact ⟨⟨hf, shapes?_eq_ok_iff.mp hs, hsn⟩, WireHeader.labelled_iff.mpr ⟨labels, hl, rfl, hln⟩,
    hn ▸ header.names_nodup⟩

theorem refused_of_error {e : HeaderError} (h : ofWire w = .error e) : w.Refused e := by
  unfold ofWire at h
  split at h
  · rename_i ho
    cases h
    obtain ⟨one, two⟩ := Operation.ofWire?_eq_none_iff.mp ho
    exact .function one two
  rename_i operation ho
  have hf := Operation.known_of_ofWire? ho
  split at h
  · rename_i fault
    cases h
    exact .shapes hf fault
  rename_i shapes hs
  have hp := shapes?_eq_ok_iff.mp hs
  split at h
  · rename_i count
    cases h
    exact .shapeCount hf hp count
  rename_i count
  have shaped : w.Shaped shapes := ⟨hf, hp, Decidable.not_not.mp count⟩
  split at h
  · rename_i fault
    cases h
    exact .labels shaped fault
  rename_i found hl
  dsimp only at h
  split at h
  · rename_i count
    cases h
    -- Empty groups for each name are as many as there are names.
    cases found with
    | nil => exact absurd List.length_replicate count
    | cons group rest =>
      have packed := labels?_eq_ok_iff.mp hl
      refine .labelCount shaped ?_ packed count
      intro empty
      rw [empty] at packed
      cases packed.unique isLabels_nil
  rename_i count
  have hcount := Decidable.not_not.mp count
  have labelled := WireHeader.labelled_iff.mpr ⟨found, hl, rfl, hcount⟩
  split at h
  · rename_i name hn
    cases h
    rw [(map_declare shaped.count hcount).1] at hn
    obtain ⟨front, back, split, distinct, again⟩ := firstRepeated?_eq_some_iff.mp hn
    exact .repeated shaped labelled split distinct again
  · cases h

theorem exists_ofWire (h : w.Declares shapes labels) : ∃ header, ofWire w = .ok header := by
  cases hw : ofWire w with
  | ok header => exact ⟨header, rfl⟩
  | error e => exact absurd (refused_of_error hw) h.not_refused

/-- A header is refused for the first check that it fails. -/
theorem ofWire_of_refused {e : HeaderError} (h : w.Refused e) : ofWire w = .error e := by
  have known (hf : w.function = 1 ∨ w.function = 2) := Operation.exists_ofWire? hf
  cases h with
  | function one two => simp only [ofWire, Operation.ofWire?_eq_none_iff.mpr ⟨one, two⟩]
  | shapes function fault =>
    obtain ⟨operation, ho⟩ := known function
    simp only [ofWire, ho, fault]
  | shapeCount function packed count =>
    obtain ⟨operation, ho⟩ := known function
    simp only [ofWire, ho, shapes?_eq_ok_iff.mpr packed]
    rw [if_pos count]
  | labels shaped fault =>
    obtain ⟨operation, ho⟩ := known shaped.function
    simp only [ofWire, ho, shapes?_eq_ok_iff.mpr shaped.packed, fault]
    rw [if_neg (not_not_intro shaped.count)]
  | @labelCount shapes labels shaped some packed count =>
    obtain ⟨operation, ho⟩ := known shaped.function
    have hs : spreadLabels w.attributes.length labels = labels := by
      cases labels with
      | nil => exact absurd packed.packed.symm some
      | cons group rest => rfl
    simp only [ofWire, ho, shapes?_eq_ok_iff.mpr shaped.packed, labels?_eq_ok_iff.mpr packed, hs]
    rw [if_neg (not_not_intro shaped.count), if_pos count]
  | @repeated shapes labels front back name shaped labelled split distinct again =>
    obtain ⟨operation, ho⟩ := known shaped.function
    obtain ⟨found, hl, rfl, hcount⟩ := WireHeader.labelled_iff.mp labelled
    have hr : firstRepeated? [] ((declare w.attributes shapes
        (spreadLabels w.attributes.length found)).map Attribute.name) = some name := by
      rw [(map_declare shaped.count hcount).1]
      exact firstRepeated?_eq_some_iff.mpr ⟨front, back, split, distinct, again⟩
    simp only [ofWire, ho, shapes?_eq_ok_iff.mpr shaped.packed, hl]
    rw [if_neg (not_not_intro shaped.count), if_neg (not_not_intro hcount)]
    split
    · rename_i other ho
      rw [hr] at ho
      cases ho
      rfl
    · rename_i ho
      rw [hr] at ho
      cases ho

theorem shapeOf?_eq {name : String} {i : Nat} (h : header.names[i]? = some name) :
    header.shapeOf? name = header.shapes[i]? := by
  rw [names, List.getElem?_map, Option.map_eq_some_iff] at h
  obtain ⟨a, ha, rfl⟩ := h
  rw [shapeOf?, find?_of_nodup header.names_nodup (List.mem_of_getElem? ha), Header.shapes,
    List.getElem?_map, ha]

theorem shapeOf?_eq_none {name : String} (h : name ∉ header.names) :
    header.shapeOf? name = none := by
  rw [shapeOf?, Option.map_eq_none_iff, List.find?_eq_none]
  intro a ha hn
  rw [decide_eq_true_eq] at hn
  exact h (hn ▸ List.mem_map_of_mem ha)

theorem ofWire_toWire (h : ofWire w = .ok header) : header.toWire =
    { w with labels :=
        if w.labels = [] then List.replicate w.attributes.length (.count 0) else w.labels } := by
  have hd := declares_of_ok h
  have hn := names_ofWire h
  obtain ⟨ho, hp, hb, hdims, hi, -⟩ := ofWire_ok h
  have hl : ofLabels header.labels =
      if w.labels = [] then List.replicate w.attributes.length (.count 0) else w.labels := by
    generalize header.labels = labels at hd
    cases hd.labelled with
    | none empty => rw [if_pos empty, ofLabels_replicate]
    | packed packed count =>
      rw [packed.packed]
      split
      · rename_i empty
        rw [empty] at packed
        rw [empty, ← count, packed.unique isLabels_nil]
        rfl
      · rfl
  rw [toWire, hl, hd.shaped.packed.packed, hn, hp, hb, hdims, hi,
    ← Operation.ofWire?_eq_some_iff.mp ho]

theorem isLabels_toWire (h : ofWire w = .ok header) :
    IsLabels header.toWire.labels header.labels := by
  refine ⟨?_, rfl⟩
  have hd := declares_of_ok h
  generalize header.labels = labels at hd
  cases hd.labelled with
  | none empty =>
    intro group hg
    rw [List.eq_of_mem_replicate hg]
    decide
  | packed packed count => exact packed.lengths

/-- What is sent of a header that passed is unpacked to what the header says. -/
theorem toWire_declares (h : ofWire w = .ok header) :
    header.toWire.Declares header.shapes header.labels := by
  have hd := declares_of_ok h
  have hn {α : Type} (f : Attribute → α) :
      (header.attributes.map f).length = header.toWire.attributes.length := by
    rw [List.length_map, toWire, names, List.length_map]
  have hf := Operation.known_of_ofWire? header.operation.ofWire?_toWire
  exact ⟨⟨hf, ⟨hd.shaped.packed.lengths, rfl⟩, hn _⟩, .packed (isLabels_toWire h) (hn _),
    header.names_nodup⟩

/-- A header that passed can be sent, and passes again as it was. -/
theorem ofWire_again (h : ofWire w = .ok header) : ofWire header.toWire = .ok header := by
  have hd := toWire_declares h
  obtain ⟨again, ha⟩ := exists_ofWire hd
  obtain ⟨ho, hp, hb, hdims, hi, shapes, labels, hs, hl, -, -, hattr⟩ := ofWire_ok ha
  obtain rfl := (shapes?_eq_ok_iff.mp hs).unique hd.shaped.packed
  obtain rfl := (labels?_eq_ok_iff.mp hl).unique (isLabels_toWire h)
  have hattributes : again.attributes = header.attributes :=
    hattr.trans ((congrArg _ (spreadLabels_map header.attributes)).trans (declare_map _))
  have hop : again.operation = header.operation :=
    Option.some.inj (ho.symm.trans header.operation.ofWire?_toWire)
  rw [ha]
  cases again
  cases header
  congr

/-- A header passes exactly when its lists fit together, and then says what they say. It is refused
for the first check that it fails. -/
theorem ofWire_checks (w : WireHeader) :
    ((∃ header, ofWire w = .ok header) ↔ ∃ shapes labels, w.Declares shapes labels) ∧
      (∀ header, ofWire w = .ok header → ∀ shapes labels, w.Declares shapes labels →
        header.Holds w shapes labels) ∧
      ∀ e, ofWire w = .error e ↔ w.Refused e := by
  refine ⟨⟨?_, ?_⟩, ?_, ?_⟩
  · rintro ⟨header, h⟩
    exact ⟨_, _, declares_of_ok h⟩
  · rintro ⟨shapes, labels, hd⟩
    exact exists_ofWire hd
  · intro header h shapes labels hd
    have hown := declares_of_ok h
    obtain rfl := hown.shaped.packed.unique hd.shaped.packed
    obtain rfl := hown.labelled.unique hd.labelled
    have hn := names_ofWire h
    obtain ⟨ho, hp, hb, hdims, hi, -⟩ := ofWire_ok h
    exact {
      shapes := rfl
      labels := rfl
      names := hn
      pid := hp
      operation := (Operation.ofWire?_eq_some_iff.mp ho).symm
      bundleCount := hb
      ndims := hdims
      index := hi
      sent := ofWire_toWire h
      again := ofWire_again h
      shapeOf := fun name i hi => shapeOf?_eq (hn ▸ hi)
      undeclared := fun name hm => shapeOf?_eq_none (hn ▸ hm) }
  · intro e
    exact ⟨refused_of_error, ofWire_of_refused⟩

/-- Two outputs without labels. -/
def unlabelled : WireHeader where
  function := 2
  shapes := [2, 5, 850, 1, 12]
  attributes := ["a", "b"]

theorem ofWire_checks_unlabelled : ∃ header, ofWire unlabelled = .ok header ∧
    header.shapeOf? "b" = some [12] ∧ header.toWire.labels = [.count 0, .count 0] ∧
    ofWire header.toWire = .ok header := by
  have hd : unlabelled.Declares [[5, 850], [12]] [[], []] :=
    ⟨⟨.inr rfl, ⟨by decide, rfl⟩, rfl⟩, .none rfl, by decide⟩
  obtain ⟨passes, holds, -⟩ := ofWire_checks unlabelled
  obtain ⟨header, h⟩ := passes.mpr ⟨_, _, hd⟩
  have hh := holds header h _ _ hd
  exact ⟨header, h, hh.shapeOf "b" 1 rfl, congrArg WireHeader.labels hh.sent, hh.again⟩

end Header

end SeismicStream
