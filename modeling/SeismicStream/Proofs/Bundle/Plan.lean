import SeismicStream.Proofs.Lists
import SeismicStream.Proofs.Painting
import SeismicStream.Proofs.Word

namespace SeismicStream

namespace Word

theorem toNat_capped (n : Nat) : (capped n).toNat = min n (UInt64.size - 1) := by
  have h : min n (UInt64.size - 1) < UInt64.size := by
    have : 0 < UInt64.size := by decide
    omega
  exact UInt64.toNat_ofNat_of_lt' h

theorem eq_capped {w : Word} {n : Nat} (h : w.toNat = min n (UInt64.size - 1)) : w = capped n :=
  UInt64.toNat_inj.mp (h.trans (toNat_capped n).symm)

theorem capped_toNat (w : Word) : capped w.toNat = w := by
  have := w.toNat_lt_size
  exact (eq_capped (by omega)).symm

theorem last_eq_capped {n : Nat} (h : UInt64.size ≤ n) : last = capped n :=
  eq_capped (by rw [toNat_last]; omega)

theorem mulCapped_eq (a b : Word) : mulCapped a b = capped (a.toNat * b.toNat) := by
  by_cases h : a.toNat * b.toNat < UInt64.size
  · refine eq_capped ?_
    rw [toNat_mulCapped h]
    omega
  · rw [mulCapped, mul?, if_neg h, Option.getD_none, last_eq_capped (Nat.le_of_not_lt h)]

theorem placed_eq (i stride skip : Word) : ((mul? i stride).bind (add? · skip)).getD last =
    capped (i.toNat * stride.toNat + skip.toNat) := by
  by_cases h : i.toNat * stride.toNat + skip.toNat < UInt64.size
  · refine eq_capped ?_
    rw [toNat_placed h]
    omega
  -- Either the product leaves the word or the sum does.
  · rw [← last_eq_capped (Nat.le_of_not_lt h)]
    cases hm : mul? i stride with
    | none => rfl
    | some m =>
      rw [← mul?_eq_some_iff.mp hm] at h
      rw [Option.bind_some, add?, if_neg h, Option.getD_none]

end Word

/-- The bound that is checked in words is the bound in numbers. -/
theorem within_eq {side : Side} {start capacity : Nat} {length : Word} (hl : 0 < length.toNat)
    (hc : capacity < UInt64.size) : within side (Word.capped start) length capacity =
      if capacity < start + length.toNat then
        .error (.outOfBounds side (Word.capped (start + length.toNat)) capacity)
      else .ok () := by
  have hs := Word.toNat_capped start
  by_cases h : start + length.toNat < UInt64.size
  · have hn := Word.toNat_capped (start + length.toNat)
    have ha : Word.add? (Word.capped start) length = some (Word.capped (start + length.toNat)) := by
      rw [Word.add?_eq_some_iff]
      omega
    rw [within, ha]
    dsimp only
    by_cases hb : start + length.toNat ≤ capacity
    · rw [if_pos (by omega), if_neg (Nat.not_lt.mpr hb)]
    · rw [if_neg (by omega), if_pos (Nat.lt_of_not_le hb)]
  · have ha : Word.add? (Word.capped start) length = none := if_neg (by omega)
    rw [within, ha, if_pos (by omega), Word.last_eq_capped (Nat.le_of_not_lt h)]

namespace Copy

theorem step_eq_ok_iff {c : Copy} {samples : List Sample} {capacity : Nat}
    {writes : List (Nat × Sample)} : c.step samples capacity = .ok writes ↔
      c.source + c.length ≤ samples.length ∧ c.target + c.length ≤ capacity ∧
        writes = (List.range' c.target c.length).zip (samples.drop c.source) := by
  unfold step
  split
  · rename_i hsource
    refine ⟨?_, fun h => absurd h.1 (Nat.not_le.mpr hsource)⟩
    intro h
    cases h
  split
  · rename_i htarget
    refine ⟨?_, fun h => absurd h.2.1 (Nat.not_le.mpr htarget)⟩
    intro h
    cases h
  · rename_i hsource htarget
    rw [Except.ok.injEq]
    exact ⟨fun h => ⟨Nat.not_lt.mp hsource, Nat.not_lt.mp htarget, h.symm⟩, fun h => h.2.2.symm⟩

/-- A copy whose places are counted in words is made or refused as its step says. -/
theorem made (c : Copy) {length : Word} {source target : Array Sample}
    (hl : c.length = length.toNat) (h0 : 0 < length.toNat) (hs : source.size < UInt64.size)
    (ht : target.size < UInt64.size) :
    (∃ e, c.step source.toList target.size = .error e ∧
      withinBoth (Word.capped c.source) (Word.capped c.target) length source.size target.size =
        .error e) ∨
    ∃ writes, c.step source.toList target.size = .ok writes ∧
      withinBoth (Word.capped c.source) (Word.capped c.target) length source.size target.size =
        .ok () ∧
      copySamples source (Word.capped c.source) length target (Word.capped c.target) =
        Sample.paintAll target writes := by
  rw [withinBoth, within_eq h0 hs, within_eq h0 ht, step, Array.length_toList, hl]
  by_cases hsource : source.size < c.source + length.toNat
  · exact .inl ⟨_, if_pos hsource, by rw [if_pos hsource]⟩
  by_cases htarget : target.size < c.target + length.toNat
  · refine .inl ⟨_, (if_neg hsource).trans (if_pos htarget), ?_⟩
    rw [if_neg hsource]
    exact if_pos htarget
  · refine .inr ⟨_, (if_neg hsource).trans (if_neg htarget), ?_, ?_⟩
    · rw [if_neg hsource]
      exact if_neg htarget
    · rw [Sample.copySamples_eq, Word.toNat_capped, Word.toNat_capped, Nat.min_eq_left (by omega),
        Nat.min_eq_left (by omega)]

end Copy

namespace Plan

variable {α β : Type}

/-- What comes of an output when the steps are made one after the other. -/
def carryOut (plan : Plan) (answer : α) (target : Array Sample) : Scattered α where
  outcome := match plan.fault? with
    | some e => .error e
    | none => .ok answer
  target := Sample.paintAll target plan.writes

theorem carryOut_error (e : ScatterError) (rest : Plan) (answer : α) (target : Array Sample) :
    carryOut (.error e :: rest) answer target = ⟨.error e, target⟩ :=
  rfl

theorem carryOut_ok (step : List (Nat × Sample)) (rest : Plan) (answer : α)
    (target : Array Sample) : carryOut (.ok step :: rest) answer target =
      carryOut rest answer (Sample.paintAll target step) := by
  simp only [carryOut, fault?, writes, Sample.paintAll_append]

theorem carryOut_of_fault {plan : Plan} {e : ScatterError} (h : plan.fault? = some e) (answer : α)
    (target : Array Sample) :
    carryOut plan answer target = ⟨.error e, Sample.paintAll target plan.writes⟩ := by
  simp only [carryOut, h]

theorem carryOut_of_none {plan : Plan} (h : plan.fault? = none) (answer : α)
    (target : Array Sample) :
    carryOut plan answer target = ⟨.ok answer, Sample.paintAll target plan.writes⟩ := by
  simp only [carryOut, h]

theorem fault?_of_ok {plan : Plan} {answer result : α} {target : Array Sample}
    (h : (carryOut plan answer target).outcome = .ok result) : plan.fault? = none := by
  cases hf : plan.fault? with
  | none => rfl
  | some e =>
    rw [carryOut_of_fault hf] at h
    cases h

/-- What comes after a step that cannot be made does not matter. -/
theorem append_of_fault {plan : Plan} {e : ScatterError} (h : plan.fault? = some e) (more : Plan) :
    fault? (plan ++ more) = some e ∧ writes (plan ++ more) = plan.writes := by
  induction plan with
  | nil => cases h
  | cons first rest ih =>
    cases first with
    | error e' => exact ⟨h, rfl⟩
    | ok step =>
      obtain ⟨hf, hw⟩ := ih h
      exact ⟨hf, congrArg (step ++ ·) hw⟩

theorem append_of_none {plan : Plan} (h : plan.fault? = none) (more : Plan) :
    fault? (plan ++ more) = fault? more ∧ writes (plan ++ more) = plan.writes ++ writes more := by
  induction plan with
  | nil => exact ⟨rfl, rfl⟩
  | cons first rest ih =>
    cases first with
    | error e => cases h
    | ok step =>
      obtain ⟨hf, hw⟩ := ih h
      refine ⟨hf, ?_⟩
      rw [writes, List.append_assoc, ← hw]
      rfl

theorem fault?_of_append {plan more : Plan} (h : fault? (plan ++ more) = none) :
    plan.fault? = none := by
  cases hf : plan.fault? with
  | none => rfl
  | some e =>
    obtain ⟨he, -⟩ := append_of_fault hf more
    rw [h] at he
    cases he

variable {ι : Type}

/-- Copies that all stay within their bounds can all be made. -/
theorem copies_ok {copies : ι → Copy} {items : List ι} {samples : List Sample} {capacity : Nat}
    (h : ∀ i ∈ items, (copies i).source + (copies i).length ≤ samples.length ∧
      (copies i).target + (copies i).length ≤ capacity) :
    fault? (items.map fun i => (copies i).step samples capacity) = none ∧
      writes (items.map fun i => (copies i).step samples capacity) = items.flatMap fun i =>
        (List.range' (copies i).target (copies i).length).zip (samples.drop (copies i).source) := by
  induction items with
  | nil => exact ⟨rfl, rfl⟩
  | cons i rest ih =>
    obtain ⟨hsource, htarget⟩ := h i List.mem_cons_self
    obtain ⟨hf, hw⟩ := ih fun j hj => h j (List.mem_cons_of_mem i hj)
    rw [List.map_cons, Copy.step_eq_ok_iff.mpr ⟨hsource, htarget, rfl⟩, List.flatMap_cons, ← hw]
    exact ⟨hf, rfl⟩

theorem flatMap_ok {f : ι → Plan} {g : ι → List (Nat × Sample)} {items : List ι}
    (h : ∀ i ∈ items, (f i).fault? = none ∧ (f i).writes = g i) :
    fault? (items.flatMap f) = none ∧ writes (items.flatMap f) = items.flatMap g := by
  induction items with
  | nil => exact ⟨rfl, rfl⟩
  | cons i rest ih =>
    obtain ⟨hfirst, hown⟩ := h i List.mem_cons_self
    obtain ⟨hf, hw⟩ := ih fun j hj => h j (List.mem_cons_of_mem i hj)
    obtain ⟨hfault, hwrites⟩ := append_of_none hfirst (rest.flatMap f)
    rw [List.flatMap_cons, List.flatMap_cons, hfault, hwrites, hown, hw]
    exact ⟨hf, rfl⟩

theorem carryOut_append_of_fault {plan : Plan} {e : ScatterError} (h : plan.fault? = some e)
    (more : Plan) (answer : α) (target : Array Sample) : carryOut (plan ++ more) answer target =
      ⟨.error e, Sample.paintAll target plan.writes⟩ := by
  obtain ⟨hf, hw⟩ := append_of_fault h more
  rw [carryOut_of_fault hf, hw]

theorem carryOut_append_of_none {plan : Plan} (h : plan.fault? = none) (more : Plan) (answer : α)
    (target : Array Sample) : carryOut (plan ++ more) answer target =
      carryOut more answer (Sample.paintAll target plan.writes) := by
  obtain ⟨hf, hw⟩ := append_of_none h more
  simp only [carryOut, hf, hw, Sample.paintAll_append]

theorem carryOut_follows (plan : Plan) (count : Nat) (target : Array Sample) :
    (carryOut plan count target).Follows plan count target where
  outcome := rfl
  size := Sample.size_paintAll target plan.writes
  samples _ h := Sample.getElem?_paintAll h plan.writes

end Plan

/-- All steps of a plan can be made. They put the samples from `cursor` on into some cells, which are
inside an output of `capacity` samples. -/
structure Plan.Fills (plan : Plan) (cells : List Nat) (samples : List Sample)
    (capacity cursor : Nat) : Prop where
  writes : plan.writes = cells.zip (samples.drop cursor)
  enough : cursor + cells.length ≤ samples.length
  inside : ∀ cell ∈ cells, cell < capacity

namespace Plan

variable {samples : List Sample} {capacity cursor : Nat}

theorem Fills.nil (h : cursor ≤ samples.length) : Fills [] [] samples capacity cursor :=
  ⟨rfl, h, nofun⟩

theorem Fills.append {front back : Plan} {cells others : List Nat}
    (hf : front.fault? = none) (h : front.Fills cells samples capacity cursor)
    (hb : back.Fills others samples capacity (cursor + cells.length)) :
    Fills (front ++ back) (cells ++ others) samples capacity cursor := by
  refine ⟨?_, ?_, ?_⟩
  · obtain ⟨-, hw⟩ := append_of_none hf back
    rw [hw, h.writes, hb.writes, zip_append, List.drop_drop]
  · have := hb.enough
    rw [List.length_append]
    omega
  · intro cell hm
    rcases List.mem_append.mp hm with hm | hm
    · exact h.inside cell hm
    · exact hb.inside cell hm

theorem fills_step {c : Copy} {step : List (Nat × Sample)} (h : c.step samples capacity = .ok step) :
    Fills [.ok step] (List.range' c.target c.length) samples capacity c.source := by
  obtain ⟨hsource, htarget, rfl⟩ := Copy.step_eq_ok_iff.mp h
  refine ⟨List.append_nil _, by rwa [List.length_range'], ?_⟩
  intro cell hm
  have := List.mem_range'_1.mp hm
  omega

end Plan

end SeismicStream
