namespace SeismicStream

theorem mapM_cons_eq_ok {α β ε : Type} {f : α → Except ε β} {x : α} {xs : List α} {ys : List β} :
    (x :: xs).mapM f = .ok ys ↔
      ∃ y rest, f x = .ok y ∧ xs.mapM f = .ok rest ∧ ys = y :: rest := by
  rw [List.mapM_cons]
  cases f x with
  | error e => exact ⟨nofun, nofun⟩
  | ok y =>
    cases hr : xs.mapM f with
    | error e => simp [bind, Except.bind]
    | ok rest => simp [bind, Except.bind, pure, Except.pure, eq_comm]

theorem mapM_cons_eq_error {α β ε : Type} {f : α → Except ε β} {x : α} {xs : List α} {e : ε} :
    (x :: xs).mapM f = .error e ↔
      f x = .error e ∨ ∃ y, f x = .ok y ∧ xs.mapM f = .error e := by
  rw [List.mapM_cons]
  cases f x with
  | error e' => simp [bind, Except.bind]
  | ok y => cases hr : xs.mapM f <;> simp [bind, Except.bind, pure, Except.pure]

theorem mapM_cons_eq_some {α β : Type} {f : α → Option β} {x : α} {xs : List α} {ys : List β} :
    (x :: xs).mapM f = some ys ↔
      ∃ y rest, f x = some y ∧ xs.mapM f = some rest ∧ ys = y :: rest := by
  simp [List.mapM_cons, Option.bind_eq_some_iff, @eq_comm _ _ ys]

theorem exists_of_mem_mapM {α β : Type} {f : α → Option β} {xs : List α} {ys : List β}
    (h : xs.mapM f = some ys) {y : β} (hy : y ∈ ys) : ∃ x ∈ xs, f x = some y := by
  induction xs generalizing ys with
  | nil =>
    cases h
    cases hy
  | cons x rest ih =>
    obtain ⟨z, zs, hx, hr, rfl⟩ := mapM_cons_eq_some.mp h
    rcases List.mem_cons.mp hy with rfl | hm
    · exact ⟨x, List.mem_cons_self, hx⟩
    · obtain ⟨w, hw, hf⟩ := ih hr hm
      exact ⟨w, List.mem_cons_of_mem x hw, hf⟩

/-- Mapping stops at the first item that fails. -/
theorem mapM_eq_error_iff {α β ε : Type} {f : α → Except ε β} {xs : List α} {e : ε} :
    xs.mapM f = .error e ↔ ∃ front x back, xs = front ++ x :: back ∧
      (∀ y ∈ front, ∃ z, f y = .ok z) ∧ f x = .error e := by
  induction xs with
  | nil => simp [pure, Except.pure]
  | cons x rest ih =>
    rw [mapM_cons_eq_error, ih]
    constructor
    · rintro (hx | ⟨y, hy, front, z, back, rfl, hf, hz⟩)
      · exact ⟨[], x, rest, rfl, nofun, hx⟩
      · exact ⟨x :: front, z, back, rfl, List.forall_mem_cons.mpr ⟨⟨y, hy⟩, hf⟩, hz⟩
    · rintro ⟨front, z, back, hs, hf, hz⟩
      cases front with
      | nil =>
        cases hs
        exact .inl hz
      | cons w front =>
        cases hs
        obtain ⟨⟨y, hy⟩, hf⟩ := List.forall_mem_cons.mp hf
        exact .inr ⟨y, hy, front, z, back, rfl, hf, hz⟩

theorem exists_mapM_eq_ok_iff {α β ε : Type} {f : α → Except ε β} {xs : List α} :
    (∃ ys, xs.mapM f = .ok ys) ↔ ∀ x ∈ xs, ∃ y, f x = .ok y := by
  induction xs with
  | nil => simp [pure, Except.pure]
  | cons x rest ih =>
    rw [List.forall_mem_cons, ← ih]
    constructor
    · rintro ⟨ys, h⟩
      obtain ⟨y, zs, hy, hr, -⟩ := mapM_cons_eq_ok.mp h
      exact ⟨⟨y, hy⟩, zs, hr⟩
    · rintro ⟨⟨y, hy⟩, zs, hr⟩
      exact ⟨y :: zs, mapM_cons_eq_ok.mpr ⟨y, zs, hy, hr, rfl⟩⟩

/-- Where keys differ, the item found for a key is the only one of that key. -/
theorem find?_of_nodup {α β : Type} [DecidableEq β] {key : α → β} {items : List α}
    (h : (items.map key).Nodup) {a : α} (ha : a ∈ items) :
    (items.find? fun b => key b = key a) = some a := by
  induction items with
  | nil => cases ha
  | cons x rest ih =>
    obtain ⟨hx, hr⟩ := List.nodup_cons.mp h
    rcases List.mem_cons.mp ha with rfl | ha
    · simp
    · have hne : key x ≠ key a := fun he => hx (he ▸ List.mem_map_of_mem ha)
      simp [hne, ih hr ha]

theorem mapM_map_eq_ok {α β γ ε : Type} {f : β → Except ε γ} {g : α → β} {k : α → γ} {xs : List α}
    (h : ∀ x ∈ xs, f (g x) = .ok (k x)) : (xs.map g).mapM f = .ok (xs.map k) := by
  induction xs with
  | nil => rfl
  | cons x rest ih =>
    have hr := ih fun y hy => h y (List.mem_cons_of_mem x hy)
    exact mapM_cons_eq_ok.mpr ⟨k x, rest.map k, h x List.mem_cons_self, hr, rfl⟩

theorem mapM_map_eq_some {α β γ : Type} {f : β → Option γ} {g : α → β} {k : α → γ} {xs : List α}
    (h : ∀ x ∈ xs, f (g x) = some (k x)) : (xs.map g).mapM f = some (xs.map k) := by
  induction xs with
  | nil => rfl
  | cons x rest ih =>
    have hr := ih fun y hy => h y (List.mem_cons_of_mem x hy)
    exact mapM_cons_eq_some.mpr ⟨k x, rest.map k, h x List.mem_cons_self, hr, rfl⟩

theorem lookup_reverse_zipIdx {before after : List String} {name : String}
    (h : (before ++ name :: after).Nodup) :
    (before ++ name :: after).zipIdx.reverse.lookup name = some before.length := by
  rw [List.zipIdx_append, List.zipIdx_cons, List.reverse_append, List.reverse_cons,
    List.append_assoc, Nat.zero_add, List.lookup_eq_some_iff]
  refine ⟨_, _, rfl, ?_⟩
  intro x hx
  obtain ⟨other, slot⟩ := x
  have hm : other ∈ after := List.fst_mem_of_mem_zipIdx (List.mem_reverse.mp hx)
  rw [List.nodup_append, List.nodup_cons] at h
  rw [bne_iff_ne]
  intro he
  subst he
  exact h.2.1.1 hm

/-- Where names differ, a name is found at the positions where it stands, and nowhere else. -/
theorem lookup_reverse_zipIdx_iff {names : List String} (h : names.Nodup) {name : String}
    {slot : Nat} : names.zipIdx.reverse.lookup name = some slot ↔ names[slot]? = some name := by
  constructor
  · intro hl
    obtain ⟨front, back, hs, -⟩ := List.lookup_eq_some_iff.mp hl
    have hm : (name, slot) ∈ names.zipIdx.reverse := hs ▸ List.mem_append_right _ List.mem_cons_self
    exact List.mem_zipIdx_iff_getElem?.mp (List.mem_reverse.mp hm)
  · intro hg
    obtain ⟨hlt, rfl⟩ := List.getElem?_eq_some_iff.mp hg
    have hs : names.take slot ++ names[slot] :: names.drop (slot + 1) = names := by
      rw [← List.drop_eq_getElem_cons hlt, List.take_append_drop]
    have hl := lookup_reverse_zipIdx (hs.symm ▸ h)
    rw [hs, List.length_take, Nat.min_eq_left (Nat.le_of_lt hlt)] at hl
    exact hl

theorem zip_append {α β : Type} (front back : List α) (items : List β) :
    (front ++ back).zip items = front.zip items ++ back.zip (items.drop front.length) := by
  induction front generalizing items with
  | nil => rfl
  | cons x rest ih =>
    cases items with
    | nil => simp
    | cons y others =>
      rw [List.cons_append, List.zip_cons_cons, List.zip_cons_cons, ih, List.length_cons,
        List.drop_succ_cons, List.cons_append]

/-- How much the items of a list weigh together. -/
def total {α : Type} (weight : α → Nat) (items : List α) : Nat :=
  items.foldr (fun a n => weight a + n) 0

@[simp] theorem total_nil {α : Type} (weight : α → Nat) : total weight [] = 0 := rfl

@[simp] theorem total_cons {α : Type} (weight : α → Nat) (a : α) (rest : List α) :
    total weight (a :: rest) = weight a + total weight rest := rfl

theorem total_append {α : Type} (weight : α → Nat) (front back : List α) :
    total weight (front ++ back) = total weight front + total weight back := by
  induction front with
  | nil => simp
  | cons a rest ih => rw [List.cons_append, total_cons, ih, total_cons, Nat.add_assoc]

theorem total_reverse {α : Type} (weight : α → Nat) (items : List α) :
    total weight items.reverse = total weight items := by
  induction items with
  | nil => rfl
  | cons a rest ih => simp [total_append, ih, Nat.add_comm]

theorem total_eq_zero {α : Type} {weight : α → Nat} {items : List α}
    (h : ∀ a ∈ items, weight a = 0) : total weight items = 0 := by
  induction items with
  | nil => rfl
  | cons a rest ih =>
    rw [total_cons, h a List.mem_cons_self, ih fun b hb => h b (List.mem_cons_of_mem a hb)]

theorem mul_total {α : Type} (k : Nat) (weight : α → Nat) (items : List α) :
    k * total weight items = total (fun a => k * weight a) items := by
  induction items with
  | nil => rfl
  | cons a rest ih => rw [total_cons, total_cons, Nat.mul_add, ih]

end SeismicStream
