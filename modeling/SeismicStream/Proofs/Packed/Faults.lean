import SeismicStream.Packed.Faults
import SeismicStream.Proofs.Packed

namespace SeismicStream.Packed

section groups

variable {α : Type} {countOf : Nat → α → Except PackedError Word} {count : Word → α}

/-- Where cutting a list into groups stops: at a count position whose entry is no count, or whose
count overruns. Positions count from `offset`. -/
inductive Stops (countOf : Nat → α → Except PackedError Word) (count : Word → α) (offset : Nat)
    (flat : List α) : PackedError → Prop
  | refused {p : Nat} {a : α} {e : PackedError} (reached : CountAt count flat p)
      (found : flat[p]? = some a) (refuses : countOf (offset + p) a = .error e) :
      Stops countOf count offset flat e
  | overrun {p remaining : Nat} {n : Word} (overruns : Overruns count flat p n remaining) :
      Stops countOf count offset flat (.overrun (offset + p) n remaining)

theorem getElem?_behind {entries rest : List α} (a : α) (p : Nat) :
    (a :: (entries ++ rest))[1 + entries.length + p]? = rest[p]? := by
  rw [Nat.add_assoc, Nat.add_comm 1, List.getElem?_cons_succ, List.getElem?_append_right (by omega),
    Nat.add_sub_cancel_left]

theorem Overruns.behind_group {n m : Word} {entries rest : List α} {p remaining : Nat}
    (complete : entries.length = n.toNat) (h : Overruns count rest p m remaining) :
    Overruns count (count n :: (entries ++ rest)) (1 + n.toNat + p) m remaining := by
  refine ⟨.next complete h.reached, ?_, ?_, h.short⟩
  · rw [← complete, getElem?_behind]
    exact h.found
  · rw [h.behind, List.length_cons, List.length_append]
    omega

/-- What stops the cutting behind a complete group stops it with the group in front. -/
theorem Stops.behind_group {offset : Nat} {n : Word} {entries rest : List α} {e : PackedError}
    (complete : entries.length = n.toNat) (h : Stops countOf count (offset + 1 + n.toNat) rest e) :
    Stops countOf count offset (count n :: (entries ++ rest)) e := by
  have shift (p : Nat) : offset + 1 + n.toNat + p = offset + (1 + n.toNat + p) := by omega
  cases h with
  | refused reached found refuses =>
    refine .refused (.next complete reached) ?_ (shift _ ▸ refuses)
    rw [← complete, getElem?_behind]
    exact found
  | overrun overruns =>
    rw [shift]
    exact .overrun (overruns.behind_group complete)

theorem stops_of_groups (hc : ∀ offset a n, countOf offset a = .ok n ↔ a = count n)
    {offset length : Nat} {flat : List α} {front : List (Group α)} {e : PackedError}
    (hn : length = flat.length) (h : groups countOf offset length flat front = .error e) :
    Stops countOf count offset flat e := by
  fun_induction groups countOf offset length flat front with
  | case1 => cases h
  | case2 offset length front first rest e' refuses =>
    cases h
    exact .refused (p := 0) .first rfl refuses
  | case3 offset length front first rest n hcount hshort =>
    cases h
    obtain rfl := (hc _ _ _).mp hcount
    rw [List.length_cons] at hn
    exact .overrun (p := 0) ⟨.first, rfl, by simp [hn], by omega⟩
  | case4 offset length front first rest n hcount hlong ih =>
    obtain rfl := (hc _ _ _).mp hcount
    rw [List.length_cons] at hn
    have hs := ih (by rw [List.length_drop]; omega) h
    have hb := hs.behind_group (List.length_take_of_le (show n.toNat ≤ rest.length by omega))
    rwa [List.take_append_drop] at hb

/-- Cutting a list into groups comes to every count position. -/
theorem groups_reach (hc : ∀ offset a n, countOf offset a = .ok n ↔ a = count n) {flat : List α}
    {p : Nat} (h : CountAt count flat p) (offset : Nat) (front : List (Group α)) :
    ∃ cut, groups countOf offset flat.length flat front =
      groups countOf (offset + p) (flat.length - p) (flat.drop p) cut := by
  induction h generalizing offset front with
  | first => exact ⟨front, rfl⟩
  | @next n entries rest position complete onward ih =>
    obtain ⟨cut, hcut⟩ := ih (offset + 1 + n.toNat) (⟨offset, entries⟩ :: front)
    refine ⟨cut, ?_⟩
    have hl : (count n :: (entries ++ rest)).length = n.toNat + rest.length + 1 := by
      rw [List.length_cons, List.length_append, complete]
    have hd : (count n :: (entries ++ rest)).drop (1 + n.toNat + position) = rest.drop position := by
      rw [Nat.add_assoc, Nat.add_comm 1, List.drop_succ_cons, ← complete, List.drop_append,
        List.drop_eq_nil_of_le (Nat.le_add_right _ _), Nat.add_sub_cancel_left, List.nil_append]
    rw [hl, hd, show offset + (1 + n.toNat + position) = offset + 1 + n.toNat + position by omega,
      show n.toNat + rest.length + 1 - (1 + n.toNat + position) = rest.length - position by omega,
      ← hcut, groups]
    simp only [(hc _ _ _).mpr rfl]
    rw [if_neg (by omega), Nat.add_sub_cancel, Nat.add_sub_cancel_left, ← complete, List.drop_left,
      List.take_left]

theorem groups_of_stops (hc : ∀ offset a n, countOf offset a = .ok n ↔ a = count n) {offset : Nat}
    {flat : List α} {front : List (Group α)} {e : PackedError}
    (h : Stops countOf count offset flat e) :
    groups countOf offset flat.length flat front = .error e := by
  have reach {p : Nat} {a : α} (reached : CountAt count flat p) (found : flat[p]? = some a) :
      ∃ cut, groups countOf offset flat.length flat front =
        groups countOf (offset + p) (flat.length - p) (a :: flat.drop (p + 1)) cut := by
    obtain ⟨cut, hcut⟩ := groups_reach hc reached offset front
    obtain ⟨hlt, rfl⟩ := List.getElem?_eq_some_iff.mp found
    rw [List.drop_eq_getElem_cons hlt] at hcut
    exact ⟨cut, hcut⟩
  cases h with
  | refused reached found refuses =>
    obtain ⟨cut, hcut⟩ := reach reached found
    rw [hcut, groups]
    simp only [refuses]
  | @overrun p remaining n overruns =>
    obtain ⟨cut, hcut⟩ := reach overruns.reached overruns.found
    have hb := overruns.behind
    have hs := overruns.short
    rw [hcut, groups]
    simp only [(hc _ _ _).mpr rfl]
    rw [if_pos (by omega), hb, Nat.sub_sub]

theorem groups_eq_error_iff (hc : ∀ offset a n, countOf offset a = .ok n ↔ a = count n)
    {flat : List α} {e : PackedError} :
    groups countOf 0 flat.length flat [] = .error e ↔ Stops countOf count 0 flat e :=
  ⟨stops_of_groups hc rfl, groups_of_stops hc⟩

/-- The end of a list of complete groups is a count position. -/
theorem countAt_length {gs : List (List α)} (hl : ∀ entries ∈ gs, entries.length < UInt64.size) :
    CountAt count (pack count gs) (pack count gs).length := by
  induction gs with
  | nil => exact .first
  | cons entries rest ih =>
    have hn : (UInt64.ofNat entries.length).toNat = entries.length :=
      UInt64.toNat_ofNat_of_lt' (hl entries List.mem_cons_self)
    have hr := CountAt.next hn.symm (ih fun more hm => hl more (List.mem_cons_of_mem _ hm))
    rw [hn] at hr
    rw [pack_cons, List.length_cons, List.length_append, Nat.add_comm, ← Nat.add_assoc]
    exact hr

/-- A list whose end is a count position is cut into groups. -/
theorem groups_complete (hc : ∀ offset a n, countOf offset a = .ok n ↔ a = count n) {flat : List α}
    (h : CountAt count flat flat.length) :
    ∃ cut, groups countOf 0 flat.length flat [] = .ok cut := by
  obtain ⟨cut, hcut⟩ := groups_reach hc h 0 []
  rw [List.drop_length, groups] at hcut
  exact ⟨_, hcut⟩

end groups

theorem shapes?_eq_error_iff {flat : List Word} {e : PackedError} :
    shapes? flat = .error e ↔ ShapesFault flat e := by
  have hg := @groups_eq_error_iff _ (fun _ count => .ok count) id
    (fun _ _ _ => ⟨Except.ok.inj, congrArg _⟩) flat e
  constructor
  · intro h
    unfold shapes? at h
    split at h
    · rename_i hcut
      cases h
      cases hg.mp hcut with
      | refused reached found refuses => cases refuses
      | overrun overruns => exact Nat.zero_add _ ▸ .overrun overruns
    · cases h
  · intro h
    cases h with
    | @overrun p remaining n overruns =>
      have hs : Stops (fun _ count => .ok count) id 0 flat (.overrun (0 + p) n remaining) :=
        .overrun overruns
      rw [Nat.zero_add] at hs
      rw [shapes?, hg.mpr hs]

theorem labelAt_eq_error {offset : Nat} {token : LabelToken} {e : PackedError}
    (h : labelAt offset token = .error e) : ∃ n, token = .count n ∧ e = .misplaced offset := by
  cases token with
  | count n =>
    cases h
    exact ⟨n, rfl, rfl⟩
  | label name => cases h

theorem mapM_labelAt_eq_error {entries : List LabelToken} {first : Nat} {e : PackedError}
    (h : (entries.zipIdx first).mapM (fun x => labelAt x.2 x.1) = .error e) :
    ∃ (names : List String) (n : Word) (more : List LabelToken),
      entries = names.map .label ++ .count n :: more ∧ e = .misplaced (first + names.length) := by
  induction entries generalizing first with
  | nil => cases h
  | cons token rest ih =>
    rw [List.zipIdx_cons] at h
    rcases mapM_cons_eq_error.mp h with h | ⟨name, hname, h⟩
    · obtain ⟨n, rfl, rfl⟩ := labelAt_eq_error h
      exact ⟨[], n, rest, rfl, rfl⟩
    · obtain ⟨names, n, more, rfl, rfl⟩ := ih h
      obtain rfl := labelAt_eq_ok_iff.mp hname
      refine ⟨name :: names, n, more, rfl, ?_⟩
      rw [List.length_cons, Nat.add_assoc, Nat.add_comm 1]

/-- A group is refused at the first count inside it. -/
theorem Group.labels?_eq_error {offset : Nat} {entries : List LabelToken} {e : PackedError}
    (h : Group.labels? ⟨offset, entries⟩ = .error e) :
    ∃ (names : List String) (n : Word) (more : List LabelToken),
      entries = names.map .label ++ .count n :: more ∧
        e = .misplaced (offset + (1 + names.length)) := by
  obtain ⟨names, n, more, hs, he⟩ := mapM_labelAt_eq_error h
  exact ⟨names, n, more, hs, he.trans (congrArg _ (Nat.add_assoc offset 1 names.length))⟩

section inside

variable {k : Word} {entries rest : List LabelToken} {names : List String} {p : Nat}

/-- Count positions behind a group are those of the list behind it. -/
theorem CountAt.behind (complete : entries.length = k.toNat)
    (h : CountAt .count (.count k :: (entries ++ rest)) p) :
    p = 0 ∨ ∃ q, p = 1 + k.toNat + q ∧ CountAt .count rest q := by
  generalize hf : LabelToken.count k :: (entries ++ rest) = flat at h
  cases h with
  | first => exact .inl rfl
  | @next n others rest' q complete' onward =>
    obtain ⟨hn, ha⟩ := List.cons.inj hf
    obtain rfl := LabelToken.count.inj hn
    obtain ⟨-, rfl⟩ := List.append_inj ha (complete.trans complete'.symm)
    exact .inr ⟨q, rfl, onward⟩

/-- Up to the end of its labels a group has no count but its own. -/
theorem eq_zero_of_count {n : Word}
    (h : (LabelToken.count k :: (names.map .label ++ rest))[p]? = some (.count n))
    (hp : p ≤ names.length) : p = 0 := by
  cases p with
  | zero => rfl
  | succ p =>
    rw [List.getElem?_cons_succ, List.getElem?_append_left (by rw [List.length_map]; exact hp),
      List.getElem?_map] at h
    obtain ⟨name, -, hname⟩ := Option.map_eq_some_iff.mp h
    cases hname

theorem CountsInPlace.behind_group {bound : Nat}
    (complete : (names.map LabelToken.label).length = k.toNat) (h : CountsInPlace rest bound) :
    CountsInPlace (.count k :: (names.map .label ++ rest)) (1 + k.toNat + bound) := by
  intro p n hp hn
  by_cases hle : p ≤ names.length
  · obtain rfl := eq_zero_of_count hn hle
    exact .first
  · rw [List.length_map] at complete
    obtain ⟨q, rfl⟩ : ∃ q, p = 1 + k.toNat + q := ⟨p - (1 + k.toNat), by omega⟩
    have hq : rest[q]? = some (.count n) := by
      rwa [← complete, ← List.length_map LabelToken.label, getElem?_behind] at hn
    exact .next (by rwa [List.length_map]) (h q n (by omega) hq)

/-- The first of the counts that stand inside a group. -/
structure StrayCount (flat : List LabelToken) (p : Nat) : Prop where
  found : ∃ n, flat[p]? = some (.count n)
  inside : ¬ CountAt .count flat p
  first : CountsInPlace flat p

theorem StrayCount.unique {flat : List LabelToken} {q : Nat} (hp : StrayCount flat p)
    (hq : StrayCount flat q) : p = q := by
  obtain ⟨n, hn⟩ := hp.found
  obtain ⟨m, hm⟩ := hq.found
  -- Of two counts inside groups the earlier one would not be in place before the other.
  rcases Nat.lt_trichotomy p q with hlt | heq | hlt
  · exact absurd (hq.first p n hlt hn) hp.inside
  · exact heq
  · exact absurd (hp.first q m hlt hm) hq.inside

theorem StrayCount.of_group {n : Word} {more : List LabelToken}
    (complete : (names.map LabelToken.label ++ LabelToken.count n :: more).length = k.toNat) :
    StrayCount (.count k :: (names.map .label ++ .count n :: more ++ rest)) (1 + names.length) where
  found := ⟨n, by simp [Nat.add_comm 1]⟩
  inside := by
    intro hc
    rcases hc.behind complete with hz | ⟨q, hq, -⟩
    · omega
    · rw [List.length_append, List.length_map, List.length_cons] at complete
      omega
  first := by
    intro p m hp hm
    rw [List.append_assoc] at hm
    obtain rfl := eq_zero_of_count hm (by omega)
    exact .first

theorem StrayCount.behind_group (complete : (names.map LabelToken.label).length = k.toNat)
    (h : StrayCount rest p) :
    StrayCount (.count k :: (names.map .label ++ rest)) (1 + k.toNat + p) where
  found := by
    obtain ⟨n, hn⟩ := h.found
    exact ⟨n, by rwa [← complete, getElem?_behind]⟩
  inside := by
    intro hc
    rcases hc.behind complete with hz | ⟨q, hq, hc⟩
    · omega
    · obtain rfl := Nat.add_left_cancel hq
      exact h.inside hc
  first := h.first.behind_group complete

end inside

/-- Where labels are refused, the first count inside a group stands. -/
theorem mapM_labels?_eq_error {gs : List (List LabelToken)} {offset : Nat} {e : PackedError}
    (hl : ∀ entries ∈ gs, entries.length < UInt64.size)
    (h : (placed offset gs).mapM Group.labels? = .error e) :
    ∃ p, e = .misplaced (offset + p) ∧ StrayCount (pack .count gs) p := by
  induction gs generalizing offset with
  | nil => cases h
  | cons entries rest ih =>
    have hk : entries.length = (UInt64.ofNat entries.length).toNat :=
      (UInt64.toNat_ofNat_of_lt' (hl entries List.mem_cons_self)).symm
    rw [pack_cons]
    generalize UInt64.ofNat entries.length = k at hk
    rcases mapM_cons_eq_error.mp h with h | ⟨names, hnames, h⟩
    · obtain ⟨names, n, more, rfl, rfl⟩ := Group.labels?_eq_error h
      exact ⟨1 + names.length, rfl, .of_group hk⟩
    · obtain rfl := Group.labels?_eq_ok_iff.mp hnames
      obtain ⟨p, rfl, stray⟩ := ih (fun more hm => hl more (List.mem_cons_of_mem _ hm)) h
      refine ⟨1 + k.toNat + p, ?_, stray.behind_group hk⟩
      rw [hk, Nat.add_assoc, Nat.add_assoc, Nat.add_assoc]

/-- In label groups, counts stand only where counts have to stand. -/
theorem countsInPlace_of_labels {labels : List (List String)}
    (hl : ∀ group ∈ labels, group.length < UInt64.size) :
    CountsInPlace (ofLabels labels) (ofLabels labels).length := by
  induction labels with
  | nil => exact fun _ _ _ => nofun
  | cons group rest ih =>
    have hk : (group.map LabelToken.label).length = (UInt64.ofNat group.length).toNat := by
      rw [List.length_map]
      exact (UInt64.toNat_ofNat_of_lt' (hl group List.mem_cons_self)).symm
    have hr := (ih fun more hm => hl more (List.mem_cons_of_mem _ hm)).behind_group hk
    rw [← hk] at hr
    have he : ofLabels (group :: rest) =
        .count (UInt64.ofNat group.length) :: (group.map .label ++ ofLabels rest) := rfl
    rw [he, List.length_cons, List.length_append, Nat.add_comm, ← Nat.add_assoc]
    exact hr

section labels

variable {flat : List LabelToken} {e : PackedError}

theorem countAt_eq_error {offset : Nat} {token : LabelToken}
    (h : countAt offset token = .error e) : ∃ name, token = .label name ∧ e = .misplaced offset := by
  cases token with
  | count n => cases h
  | label name =>
    cases h
    exact ⟨name, rfl, rfl⟩

theorem groups_countAt : groups countAt 0 flat.length flat [] = .error e ↔
    Stops countAt .count 0 flat e :=
  groups_eq_error_iff fun _ _ _ => countAt_eq_ok_iff

theorem labelsFault_of_error (h : labels? flat = .error e) : LabelsFault flat e := by
  unfold labels? at h
  split at h
  · rename_i hcut
    cases h
    cases groups_countAt.mp hcut with
    | refused reached found refuses =>
      obtain ⟨name, rfl, rfl⟩ := countAt_eq_error refuses
      exact Nat.zero_add _ ▸ .label reached found
    | overrun overruns => exact Nat.zero_add _ ▸ .overrun overruns
  · rename_i cut hcut
    obtain ⟨gs, hl, rfl, rfl⟩ := (groups_eq_ok_iff fun _ _ _ => countAt_eq_ok_iff).mp hcut
    obtain ⟨p, rfl, stray⟩ := mapM_labels?_eq_error hl h
    obtain ⟨n, found⟩ := stray.found
    rw [Nat.zero_add]
    exact .count (countAt_length hl) found stray.inside stray.first

theorem labels?_of_fault (h : LabelsFault flat e) : labels? flat = .error e := by
  have stopped {e : PackedError} (hs : Stops countAt .count 0 flat e) : labels? flat = .error e := by
    rw [labels?, groups_countAt.mpr hs]
  cases h with
  | @overrun offset remaining n overruns =>
    apply stopped
    rw [← Nat.zero_add offset]
    exact .overrun overruns
  | label reached found => exact stopped (.refused reached found (by rw [Nat.zero_add]; rfl))
  | @count offset n complete found inside first =>
    obtain ⟨hlt, -⟩ := List.getElem?_eq_some_iff.mp found
    obtain ⟨cut, hcut⟩ := groups_complete (fun _ _ _ => countAt_eq_ok_iff) complete
    cases hr : labels? flat with
    | ok labels =>
      obtain ⟨hl, rfl⟩ := labels?_eq_ok_iff.mp hr
      exact absurd (countsInPlace_of_labels hl offset n hlt found) inside
    | error e =>
      have unstopped {e : PackedError} (hs : Stops countAt .count 0 flat e) : False := by
        rw [groups_countAt.mpr hs] at hcut
        cases hcut
      cases labelsFault_of_error hr with
      | overrun overruns => exact (unstopped (.overrun overruns)).elim
      | label reached found => exact (unstopped (.refused reached found rfl)).elim
      | count _ found' inside' first' =>
        have stray : StrayCount flat offset := ⟨⟨n, found⟩, inside, first⟩
        rw [stray.unique ⟨⟨_, found'⟩, inside', first'⟩]

end labels

/-- A list is unpacked to what packs to it, and to nothing else, and a list that nothing packs to is
refused for a fault that it has. Lists that can be held are shorter than a word can say. -/
theorem unpack_iff_pack {flat : List Word} {tokens : List LabelToken}
    (hf : flat.length < UInt64.size) (ht : tokens.length < UInt64.size) :
    (∀ shapes, shapes? flat = .ok shapes ↔ ofShapes shapes = flat) ∧
      (∀ e, shapes? flat = .error e ↔ ShapesFault flat e) ∧
      (∀ labels, labels? tokens = .ok labels ↔ ofLabels labels = tokens) ∧
      ∀ e, labels? tokens = .error e ↔ LabelsFault tokens e := by
  refine ⟨?_, fun e => shapes?_eq_error_iff, ?_, fun e => ⟨labelsFault_of_error, labels?_of_fault⟩⟩
  · intro shapes
    exact shapes?_eq_ok_iff.trans (isShapes_iff hf)
  · intro labels
    exact labels?_eq_ok_iff.trans (isLabels_iff ht)

/-- A count inside the first group, and a label where the next count has to stand: the label is what
is refused. -/
def coupled : List LabelToken := [.count 2, .label "a", .count 7, .label "b"]

theorem unpack_iff_pack_coupled : ofShapes [[5, 850], [], [12]] = [2, 5, 850, 0, 1, 12] ∧
    shapes? [2, 5, 850, 0, 1, 12] = .ok [[5, 850], [], [12]] ∧ LabelsFault coupled (.misplaced 3) ∧
      ¬ LabelsFault coupled (.misplaced 2) := by
  obtain ⟨shapes, -, -, faults⟩ :=
    @unpack_iff_pack [2, 5, 850, 0, 1, 12] coupled (by decide) (by decide)
  have packed : ofShapes [[5, 850], [], [12]] = [2, 5, 850, 0, 1, 12] := rfl
  have reached : CountAt .count coupled 3 :=
    @CountAt.next LabelToken .count 2 [.label "a", .count 7] [.label "b"] 0 rfl .first
  have fault : LabelsFault coupled (.misplaced 3) := .label reached rfl
  refine ⟨packed, (shapes _).mpr packed, fault, ?_⟩
  intro earlier
  have hr := ((faults _).mpr earlier).symm.trans ((faults _).mpr fault)
  cases hr

end SeismicStream.Packed
