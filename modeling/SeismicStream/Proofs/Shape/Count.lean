import Mathlib.Algebra.BigOperators.Group.List.Lemmas
import SeismicStream.Shape.Count

namespace SeismicStream.Shape

variable {shape other : Shape}

theorem product_eq (shape : Shape) : shape.product = (shape.map UInt64.toNat).prod := by
  rw [product, List.prod, List.foldr_map]

theorem product_cons (axis : Word) (rest : Shape) :
    Shape.product (axis :: rest) = axis.toNat * rest.product :=
  rfl

theorem product_append (front back : Shape) :
    Shape.product (front ++ back) = front.product * back.product := by
  rw [product_eq, List.map_append, List.prod_append, ← product_eq, ← product_eq]

theorem product_perm (h : other.Perm shape) : other.product = shape.product := by
  rw [product_eq, product_eq, (h.map UInt64.toNat).prod_eq]

theorem product_pos_iff : 0 < shape.product ↔ 0 ∉ shape := by
  rw [product_eq, List.prod_pos_iff_forall_pos_nat, List.forall_mem_map]
  constructor
  · intro h hz
    exact Nat.lt_irrefl 0 (h 0 hz)
  · intro hz axis ha
    refine Nat.pos_of_ne_zero fun h => hz ?_
    have hn : axis = 0 := UInt64.toNat_inj.mp h
    rwa [hn] at ha

theorem product_eq_zero (h : 0 ∈ shape) : shape.product = 0 :=
  Nat.eq_zero_of_not_pos fun hp => product_pos_iff.mp hp h

/-- Axes that are not zero do not make a product smaller. -/
theorem product_le_append {front back : Shape} (h : 0 ∉ back) :
    front.product ≤ Shape.product (front ++ back) := by
  rw [product_append]
  exact Nat.le_mul_of_pos_right _ (product_pos_iff.mpr h)

theorem notMem_beforeZero : 0 ∉ shape.beforeZero := by
  intro h
  have hz := List.all_eq_true.mp List.all_takeWhile 0 h
  simp at hz

theorem notMem_nonzero : 0 ∉ shape.nonzero := by
  simp [nonzero]

theorem beforeZero_zero_cons (rest : Shape) : beforeZero (0 :: rest) = [] :=
  List.takeWhile_cons_of_neg (by decide)

theorem beforeZero_append {front : Shape} (h : 0 ∉ front) (back : Shape) :
    beforeZero (front ++ back) = front ++ back.beforeZero :=
  List.takeWhile_append_of_pos fun _ ha => decide_eq_true fun hz => h (hz ▸ ha)

theorem beforeZero_eq_self (h : 0 ∉ shape) : shape.beforeZero = shape := by
  have ha := beforeZero_append h []
  rwa [List.append_nil, show beforeZero [] = [] from rfl, List.append_nil] at ha

/-- No front of a shape leaves the word exactly when the axes before the first zero do not. -/
theorem fronts_fit_iff : (∀ front, front <+: shape → Shape.product front < UInt64.size) ↔
    shape.beforeZero.product < UInt64.size := by
  constructor
  · intro h
    exact h _ (List.takeWhile_prefix _)
  · rintro h front ⟨back, rfl⟩
    by_cases hz : 0 ∈ front
    · rw [product_eq_zero hz]
      decide
    · rw [beforeZero_append hz] at h
      exact Nat.lt_of_le_of_lt (product_le_append notMem_beforeZero) h

/-- The axes are multiplied one by one, and no product on the way may leave the word. -/
theorem foldlM_mul?_eq_some_iff {first n : Word} : shape.foldlM Word.mul? first = some n ↔
    n.toNat = first.toNat * shape.product ∧
      ∀ front, front <+: shape → first.toNat * Shape.product front < UInt64.size := by
  induction shape generalizing first with
  | nil =>
    have hf (front : Shape) (h : front <+: []) : first.toNat * front.product < UInt64.size := by
      rw [List.prefix_nil.mp h]
      exact (Nat.mul_one _).symm ▸ first.toNat_lt
    rw [List.foldlM_nil, Option.pure_def, Option.some.injEq, and_iff_left hf, ← UInt64.toNat_inj,
      eq_comm]
    exact Iff.of_eq (congrArg _ (Nat.mul_one _).symm)
  | cons axis rest ih =>
    rw [List.foldlM_cons, Option.bind_eq_bind, Option.bind_eq_some_iff, product_cons]
    constructor
    · rintro ⟨m, hm, hr⟩
      have hn := Word.mul?_eq_some_iff.mp hm
      obtain ⟨hp, hfit⟩ := ih.mp hr
      rw [hn, Nat.mul_assoc] at hp
      refine ⟨hp, ?_⟩
      intro front hpre
      rcases List.prefix_cons_iff.mp hpre with rfl | ⟨others, rfl, ho⟩
      · exact (Nat.mul_one _).symm ▸ first.toNat_lt
      · rw [product_cons, ← Nat.mul_assoc, ← hn]
        exact hfit others ho
    · rintro ⟨hp, hfit⟩
      have hone := hfit [axis] (List.prefix_cons_iff.mpr (.inr ⟨[], rfl, List.nil_prefix⟩))
      have hm : Word.mul? first axis = some (first * axis) :=
        if_pos ((Nat.mul_one axis.toNat) ▸ hone)
      have hn := Word.mul?_eq_some_iff.mp hm
      refine ⟨_, hm, ih.mpr ⟨?_, ?_⟩⟩
      · rw [hn, hp, Nat.mul_assoc]
      · intro others ho
        rw [hn, Nat.mul_assoc, ← product_cons]
        exact hfit _ (List.prefix_cons_iff.mpr (.inr ⟨others, rfl, ho⟩))

/-- A shape is counted when the axes before the first zero fit in a word, and then exactly. -/
theorem count?_eq_some_iff {n : Word} : shape.count? = some n ↔
    n.toNat = shape.product ∧ shape.beforeZero.product < UInt64.size := by
  rw [count?, foldlM_mul?_eq_some_iff]
  simp only [UInt64.toNat_one, Nat.one_mul, fronts_fit_iff]

theorem count?_eq_none_iff : shape.count? = none ↔ UInt64.size ≤ shape.beforeZero.product := by
  constructor
  · intro h
    refine Nat.le_of_not_lt fun hfit => ?_
    have hlt : shape.product < UInt64.size := fronts_fit_iff.mpr hfit shape (List.prefix_refl _)
    have hn := UInt64.toNat_ofNat_of_lt' hlt
    rw [count?_eq_some_iff.mpr ⟨hn, hfit⟩] at h
    cases h
  · intro hle
    cases h : shape.count? with
    | none => rfl
    | some n => exact absurd (count?_eq_some_iff.mp h).2 (Nat.not_lt_of_le hle)

theorem countedExactly_iff :
    shape.CountedExactly ↔ (0 ∈ shape → shape.beforeZero.product < UInt64.size) := by
  constructor
  · intro h hz
    have hc := (h.counted 0).mpr (product_eq_zero hz).symm
    exact (count?_eq_some_iff.mp hc).2
  · intro h
    have hfit : shape.product < UInt64.size ↔ shape.beforeZero.product < UInt64.size := by
      by_cases hz : 0 ∈ shape
      · rw [product_eq_zero hz]
        exact iff_of_true (by decide) (h hz)
      · rw [beforeZero_eq_self hz]
    have hcounted (n : Word) : shape.count? = some n ↔ n.toNat = shape.product := by
      rw [count?_eq_some_iff, and_iff_left_iff_imp, ← hfit]
      intro hn
      exact hn ▸ n.toNat_lt
    have hmissing : shape.count? = none ↔ UInt64.size ≤ shape.product := by
      rw [count?_eq_none_iff, ← Nat.not_lt, ← Nat.not_lt, hfit]
    refine ⟨hcounted, hmissing, ?_⟩
    rintro slot a rfl
    unfold Report.outputLine sizeText
    cases hc : a.shape.count? with
    | none => rw [if_neg (Nat.not_lt_of_le (hmissing.mp hc))]
    | some n => rw [← (hcounted n).mp hc, if_pos n.toNat_lt]

theorem product_beforeZero_le : shape.beforeZero.product ≤ shape.nonzero.product := by
  have hs : shape.beforeZero ++ shape.dropWhile (· ≠ 0) = shape := List.takeWhile_append_dropWhile
  have hf : shape.beforeZero.nonzero = shape.beforeZero :=
    List.filter_eq_self.mpr fun axis ha => decide_eq_true fun hz => notMem_beforeZero (hz ▸ ha)
  have hn : shape.nonzero = shape.beforeZero ++ nonzero (shape.dropWhile (· ≠ 0)) := by
    conv_lhs => rw [← hs, nonzero, List.filter_append]
    exact congrArg (· ++ _) hf
  rw [hn]
  exact product_le_append notMem_nonzero

/-- The order of the axes does not matter exactly when a zero, wherever it stands, has nothing to
hide. -/
theorem count?_perm_iff : (∀ other : Shape, other.Perm shape → other.count? = shape.count?) ↔
    (0 ∈ shape → shape.nonzero.product < UInt64.size) := by
  constructor
  · intro h hz
    -- The zeros may stand behind all other axes, and one of them may stand in front.
    have hlast : count? (shape.nonzero ++ shape.filter fun axis => !decide (axis ≠ 0)) =
      shape.count? := h _ (List.filter_append_perm _ _)
    have hfirst : count? (0 :: shape.erase 0) = shape.count? := h _ (List.perm_cons_erase hz).symm
    have hc : count? (0 :: shape.erase 0) = some 0 := by
      rw [count?_eq_some_iff, product_eq_zero List.mem_cons_self, beforeZero_zero_cons]
      decide
    rw [← hfirst, hc, count?_eq_some_iff, beforeZero_append notMem_nonzero] at hlast
    exact Nat.lt_of_le_of_lt (product_le_append notMem_beforeZero) hlast.2
  · intro h other hp
    have hfit : other.beforeZero.product < UInt64.size ↔ shape.beforeZero.product < UInt64.size := by
      by_cases hz : 0 ∈ shape
      · have hn : other.nonzero.product = shape.nonzero.product := product_perm (hp.filter _)
        exact iff_of_true (Nat.lt_of_le_of_lt product_beforeZero_le (hn ▸ h hz))
          (Nat.lt_of_le_of_lt product_beforeZero_le (h hz))
      · have ho : 0 ∉ other := fun hm => hz (hp.mem_iff.mp hm)
        rw [beforeZero_eq_self hz, beforeZero_eq_self ho, product_perm hp]
    ext n
    rw [count?_eq_some_iff, count?_eq_some_iff, product_perm hp, hfit]

/-- A count is never wrong. It is missing, though it would fit, where the axes before a zero leave the
word on their own; and then another order of the axes may be counted. -/
theorem count?_exact_iff (shape : Shape) :
    (shape.CountedExactly ↔ (0 ∈ shape → shape.beforeZero.product < UInt64.size)) ∧
      ((∀ other : Shape, other.Perm shape → other.count? = shape.count?) ↔
        (0 ∈ shape → shape.nonzero.product < UInt64.size)) ∧
      ∀ n, shape.count? = some n → n.toNat = shape.product :=
  ⟨countedExactly_iff, count?_perm_iff, fun _ hn => (count?_eq_some_iff.mp hn).1⟩

/-- The first two axes leave the word, so the zero behind them is not seen. -/
theorem not_countedExactly_hiddenZero :
    product [Word.last, 2, 0] = 0 ∧ count? [Word.last, 2, 0] = none ∧
      count? [0, Word.last, 2] = some 0 ∧ ¬ CountedExactly [Word.last, 2, 0] := by
  refine ⟨by decide, by decide, by decide, ?_⟩
  intro h
  have hc := (h.counted 0).mpr (by decide)
  exact absurd hc (by decide)

end SeismicStream.Shape
