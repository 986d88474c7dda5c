import SeismicStream.Packed
import SeismicStream.Proofs.Lists

namespace SeismicStream.Packed

/-- Groups with the positions of their counts, the first of which is `offset`. -/
def placed {α : Type} (offset : Nat) : List (List α) → List (Group α)
  | [] => []
  | entries :: rest => ⟨offset, entries⟩ :: placed (offset + 1 + entries.length) rest

/-- Groups in one list, each after its length. -/
def pack {α : Type} (count : Word → α) (gs : List (List α)) : List α :=
  gs.flatMap fun entries => count (UInt64.ofNat entries.length) :: entries

theorem map_entries_placed {α : Type} (offset : Nat) (gs : List (List α)) :
    (placed offset gs).map Group.entries = gs := by
  induction gs generalizing offset with
  | nil => rfl
  | cons entries rest ih => rw [placed, List.map_cons, ih]

section groups

variable {α : Type} {countOf : Nat → α → Except PackedError Word} {count : Word → α}

theorem pack_cons (entries : List α) (rest : List (List α)) :
    pack count (entries :: rest) =
      count (UInt64.ofNat entries.length) :: (entries ++ pack count rest) :=
  rfl

theorem length_lt_length_pack {gs : List (List α)} {entries : List α} (h : entries ∈ gs) :
    entries.length < (pack count gs).length := by
  induction gs with
  | nil => cases h
  | cons first rest ih =>
    rw [pack_cons, List.length_cons, List.length_append]
    rcases List.mem_cons.mp h with rfl | hm
    · omega
    · have := ih hm
      omega

/-- Groups that follow their lengths are found again. -/
theorem groups_pack (hc : ∀ offset n, countOf offset (count n) = .ok n) {gs : List (List α)}
    (hl : ∀ entries ∈ gs, entries.length < UInt64.size) (offset : Nat) (front : List (Group α)) :
    groups countOf offset (pack count gs).length (pack count gs) front =
      .ok (front.reverse ++ placed offset gs) := by
  induction gs generalizing offset front with
  | nil => simp [groups, placed, pack]
  | cons entries rest ih =>
    have hn : (UInt64.ofNat entries.length).toNat = entries.length :=
      UInt64.toNat_ofNat_of_lt' (hl entries List.mem_cons_self)
    have hr := ih (fun more hm => hl more (List.mem_cons_of_mem _ hm))
      (offset + 1 + entries.length) (⟨offset, entries⟩ :: front)
    rw [pack_cons, groups]
    simp only [hc, hn, List.length_cons, List.length_append]
    rw [if_neg (by omega), List.drop_left, List.take_left]
    rw [show entries.length + (pack count rest).length + 1 - 1 - entries.length =
      (pack count rest).length by omega, hr]
    simp [placed]

/-- What is cut into groups is those groups, each after its length. -/
theorem groups_sound (hc : ∀ offset a n, countOf offset a = .ok n → a = count n)
    {offset length : Nat} {flat : List α} {front cut : List (Group α)} (hn : length = flat.length)
    (h : groups countOf offset length flat front = .ok cut) :
    ∃ gs, (∀ entries ∈ gs, entries.length < UInt64.size) ∧ pack count gs = flat ∧
      cut = front.reverse ++ placed offset gs := by
  fun_induction groups countOf offset length flat front with
  | case1 offset length front =>
    cases h
    exact ⟨[], nofun, rfl, by simp [placed]⟩
  | case2 => cases h
  | case3 => cases h
  | case4 offset length front first rest n hcount hlong ih =>
    rw [List.length_cons] at hn
    obtain ⟨gs, hl, hp, rfl⟩ := ih (by rw [List.length_drop]; omega) h
    have hlen : (rest.take n.toNat).length = n.toNat := List.length_take_of_le (by omega)
    refine ⟨rest.take n.toNat :: gs, ?_, ?_, ?_⟩
    · intro entries hm
      rcases List.mem_cons.mp hm with rfl | hm
      · rw [hlen]
        exact n.toNat_lt_size
      · exact hl entries hm
    · rw [pack_cons, hlen, hp, List.take_append_drop, UInt64.ofNat_toNat, ← hc _ _ _ hcount]
    · simp [placed, hlen]

theorem groups_eq_ok_iff (hc : ∀ offset a n, countOf offset a = .ok n ↔ a = count n)
    {flat : List α} {cut : List (Group α)} : groups countOf 0 flat.length flat [] = .ok cut ↔
      ∃ gs, (∀ entries ∈ gs, entries.length < UInt64.size) ∧ pack count gs = flat ∧
        cut = placed 0 gs := by
  constructor
  · intro h
    obtain ⟨gs, hl, hp, he⟩ := groups_sound (fun offset a n => (hc offset a n).mp) rfl h
    rw [List.reverse_nil, List.nil_append] at he
    exact ⟨gs, hl, hp, he⟩
  · rintro ⟨gs, hl, rfl, rfl⟩
    rw [groups_pack (fun offset n => (hc offset _ n).mpr rfl) hl, List.reverse_nil, List.nil_append]

end groups

/-- A flat list of shapes is unpacked to those shapes, and no other list is unpacked. -/
theorem shapes?_eq_ok_iff {flat : List Word} {shapes : List Shape} :
    shapes? flat = .ok shapes ↔ IsShapes flat shapes := by
  have hg := @groups_eq_ok_iff _ (fun _ count => .ok count) id
    (fun _ _ _ => ⟨Except.ok.inj, congrArg _⟩) flat
  constructor
  · intro h
    unfold shapes? at h
    split at h
    · cases h
    · rename_i cut hcut
      cases h
      obtain ⟨gs, hl, hp, rfl⟩ := hg.mp hcut
      rw [map_entries_placed]
      exact ⟨hl, hp⟩
  · rintro ⟨hl, hp⟩
    rw [shapes?, hg.mpr ⟨shapes, hl, hp, rfl⟩]
    exact congrArg _ (map_entries_placed 0 shapes)

/-- In a list whose length a word can say, every shape is short enough. -/
theorem isShapes_iff {flat : List Word} {shapes : List Shape} (h : flat.length < UInt64.size) :
    IsShapes flat shapes ↔ ofShapes shapes = flat := by
  refine ⟨IsShapes.packed, ?_⟩
  rintro rfl
  refine ⟨?_, rfl⟩
  intro shape hs
  exact Nat.lt_trans (@length_lt_length_pack _ id _ _ hs) h

theorem shapes?_ofShapes {shapes : List Shape} (h : (ofShapes shapes).length < UInt64.size) :
    shapes? (ofShapes shapes) = .ok shapes :=
  shapes?_eq_ok_iff.mpr ((isShapes_iff h).mpr rfl)

theorem labelAt_eq_ok_iff {offset : Nat} {token : LabelToken} {name : String} :
    labelAt offset token = .ok name ↔ token = .label name := by
  cases token <;> simp [labelAt]

theorem Group.labels?_eq_ok_iff {offset : Nat} {entries : List LabelToken} {names : List String} :
    Group.labels? ⟨offset, entries⟩ = .ok names ↔ entries = names.map .label := by
  have all : ∀ first, (entries.zipIdx first).mapM (fun x => labelAt x.2 x.1) = .ok names ↔
      entries = names.map .label := by
    induction entries generalizing names with
    | nil => cases names <;> simp [pure, Except.pure]
    | cons token rest ih =>
      intro first
      rw [List.zipIdx_cons, mapM_cons_eq_ok]
      cases names <;> simp [labelAt_eq_ok_iff, ih]
  exact all (offset + 1)

theorem mapM_labels?_placed {gs : List (List LabelToken)} {labels : List (List String)}
    (offset : Nat) : (placed offset gs).mapM Group.labels? = .ok labels ↔
      gs = labels.map (List.map .label) := by
  induction gs generalizing offset labels with
  | nil => cases labels <;> simp [placed, pure, Except.pure]
  | cons entries rest ih =>
    rw [placed, mapM_cons_eq_ok]
    cases labels <;> simp [Group.labels?_eq_ok_iff, ih]

theorem ofLabels_eq (labels : List (List String)) :
    ofLabels labels = pack .count (labels.map (List.map .label)) := by
  simp only [ofLabels, pack, List.flatMap_map, List.length_map]

theorem countAt_eq_ok_iff {offset : Nat} {token : LabelToken} {n : Word} :
    countAt offset token = .ok n ↔ token = .count n := by
  cases token <;> simp [countAt]

/-- A flat list of label groups is unpacked to those groups, and no other list is unpacked. -/
theorem labels?_eq_ok_iff {flat : List LabelToken} {labels : List (List String)} :
    labels? flat = .ok labels ↔ IsLabels flat labels := by
  have hg := @groups_eq_ok_iff _ countAt .count (fun _ _ _ => countAt_eq_ok_iff) flat
  constructor
  · intro h
    unfold labels? at h
    split at h
    · cases h
    · rename_i cut hcut
      obtain ⟨gs, hl, hp, rfl⟩ := hg.mp hcut
      obtain rfl := (mapM_labels?_placed 0).mp h
      refine ⟨?_, (ofLabels_eq labels).trans hp⟩
      intro group hm
      have := hl _ (List.mem_map_of_mem hm)
      rwa [List.length_map] at this
  · rintro ⟨hl, hp⟩
    have hlong : ∀ entries ∈ labels.map (List.map LabelToken.label),
        entries.length < UInt64.size := by
      intro entries hm
      obtain ⟨group, hgroup, rfl⟩ := List.mem_map.mp hm
      rw [List.length_map]
      exact hl group hgroup
    rw [labels?, hg.mpr ⟨_, hlong, (ofLabels_eq labels).symm.trans hp, rfl⟩]
    exact (mapM_labels?_placed 0).mpr rfl

theorem isLabels_iff {flat : List LabelToken} {labels : List (List String)}
    (h : flat.length < UInt64.size) : IsLabels flat labels ↔ ofLabels labels = flat := by
  refine ⟨IsLabels.packed, ?_⟩
  rintro rfl
  refine ⟨?_, rfl⟩
  intro group hg
  have hm : group.map LabelToken.label ∈ labels.map (List.map .label) := List.mem_map_of_mem hg
  have hlt := @length_lt_length_pack _ .count _ _ hm
  rw [← ofLabels_eq, List.length_map] at hlt
  exact Nat.lt_trans hlt h

theorem labels?_ofLabels {labels : List (List String)}
    (h : (ofLabels labels).length < UInt64.size) : labels? (ofLabels labels) = .ok labels :=
  labels?_eq_ok_iff.mpr ((isLabels_iff h).mpr rfl)

end SeismicStream.Packed
