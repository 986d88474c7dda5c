import SeismicStream.Proofs.Lists
import SeismicStream.Proofs.Shape.Count
import SeismicStream.Registry.Allocation

namespace SeismicStream

/-- A shape is allowed when it has samples, and no more than the limit. -/
theorem Limits.count?_eq_some_iff {limits : Limits} {shape : Shape} {n : Word} :
    limits.count? shape = some n ↔
      n.toNat = shape.product ∧ 0 < shape.product ∧
        shape.product ≤ limits.maxElements.toNat := by
  simp only [count?, Option.filter_eq_some_iff, Bool.and_eq_true, decide_eq_true_eq,
    UInt64.lt_iff_toNat_lt, UInt64.le_iff_toNat_le, Shape.count?_eq_some_iff]
  constructor
  · rintro ⟨⟨hn, -⟩, h0, hm⟩
    exact ⟨hn, hn ▸ h0, hn ▸ hm⟩
  · rintro ⟨hn, h0, hm⟩
    have hz : 0 ∉ shape := Shape.product_pos_iff.mp h0
    refine ⟨⟨hn, ?_⟩, hn ▸ h0, hn ▸ hm⟩
    rw [Shape.beforeZero_eq_self hz, ← hn]
    exact n.toNat_lt

theorem Limits.exists_count?_iff {limits : Limits} {shape : Shape} :
    (∃ n, limits.count? shape = some n) ↔ limits.Allows shape := by
  constructor
  · rintro ⟨n, h⟩
    exact (count?_eq_some_iff.mp h).2
  · rintro ⟨h0, hm⟩
    have hn : shape.product < UInt64.size := Nat.lt_of_le_of_lt hm limits.maxElements.toNat_lt
    exact ⟨_, count?_eq_some_iff.mpr ⟨UInt64.toNat_ofNat_of_lt' hn, h0, hm⟩⟩

namespace Registry

theorem sizeOf_eq_ok_iff {limits : Limits} {a : Attribute} {n : Word} :
    sizeOf limits a = .ok n ↔ limits.count? a.shape = some n := by
  unfold sizeOf
  split <;> simp [*]

theorem exists_sizeOf_iff {limits : Limits} {a : Attribute} :
    (∃ n, sizeOf limits a = .ok n) ↔ limits.Allows a.shape := by
  simp only [sizeOf_eq_ok_iff, Limits.exists_count?_iff]

theorem sizeOf_eq_error_iff {limits : Limits} {a : Attribute} {e : DecodeError} :
    sizeOf limits a = .error e ↔
      ¬limits.Allows a.shape ∧ e = .allocation a.name a.shape limits.maxElements := by
  rw [← Limits.exists_count?_iff, sizeOf]
  cases limits.count? a.shape <;> simp [eq_comm]

theorem zeroed_sizeOf {limits : Limits} {a : Attribute} {n : Word} (h : sizeOf limits a = .ok n) :
    zeroed a n = if a.shape.Holdable then .ok a.zeros else .error .beyondMemory := by
  obtain ⟨hp, -⟩ := Limits.count?_eq_some_iff.mp (sizeOf_eq_ok_iff.mp h)
  rw [zeroed, hp]
  rfl

/-- Where all sizes pass, there is a buffer for each output unless one of them cannot be held. -/
theorem mapM_zeroed {limits : Limits} {attributes : List Attribute} {sizes : List Word}
    (h : attributes.mapM (sizeOf limits) = .ok sizes) :
    ((attributes.zip sizes).mapM fun (a, size) => zeroed a size) =
      if ∀ a ∈ attributes, a.shape.Holdable then .ok (attributes.map Attribute.zeros)
      else .error .beyondMemory := by
  induction attributes generalizing sizes with
  | nil => rfl
  | cons a rest ih =>
    obtain ⟨n, ns, hn, hns, rfl⟩ := mapM_cons_eq_ok.mp h
    rw [List.zip_cons_cons, List.mapM_cons, ih hns]
    simp only [zeroed_sizeOf hn, List.forall_mem_cons]
    by_cases ha : a.shape.Holdable
    · by_cases hr : ∀ b ∈ rest, b.shape.Holdable
      · rw [if_pos ha, if_pos hr, if_pos ⟨ha, hr⟩]
        rfl
      · rw [if_pos ha, if_neg hr, if_neg (not_and_of_not_right _ hr)]
        rfl
    · rw [if_neg ha, if_neg (not_and_of_not_left _ ha)]
      rfl

theorem allocate_sizes {header : Header} {limits : Limits} {sizes : List Word}
    (h : header.attributes.mapM (sizeOf limits) = .ok sizes) : allocate header limits =
      if ∀ a ∈ header.attributes, a.shape.Holdable then
        .ok ⟨header.attributes.map Attribute.zeros⟩
      else .error .beyondMemory := by
  rw [allocate, h]
  dsimp only
  rw [mapM_zeroed h]
  by_cases hold : ∀ a ∈ header.attributes, a.shape.Holdable
  · rw [if_pos hold, if_pos hold]
  · rw [if_neg hold, if_neg hold]

theorem exists_mapM_sizeOf_iff {limits : Limits} {attributes : List Attribute} :
    (∃ sizes, attributes.mapM (sizeOf limits) = .ok sizes) ↔
      ∀ a ∈ attributes, limits.Allows a.shape := by
  simp only [exists_mapM_eq_ok_iff, exists_sizeOf_iff]

/-- The first output that is not allowed is the one that is named. -/
theorem mapM_sizeOf_eq_error_iff {header : Header} {limits : Limits} {e : DecodeError} :
    header.attributes.mapM (sizeOf limits) = .error e ↔ header.Unallocatable limits e := by
  simp only [mapM_eq_error_iff, exists_sizeOf_iff, sizeOf_eq_error_iff]
  constructor
  · rintro ⟨front, a, back, split, allowed, refused, rfl⟩
    exact .first split allowed refused
  · rintro ⟨split, allowed, refused⟩
    exact ⟨_, _, _, split, allowed, refused, rfl⟩

/-- There are outputs when all shapes are allowed and can be held, and only then. -/
theorem allocate_eq_ok_iff {header : Header} {limits : Limits} {outputs : Registry} :
    allocate header limits = .ok outputs ↔
      (∀ a ∈ header.attributes, limits.Allows a.shape) ∧
        (∀ a ∈ header.attributes, a.shape.Holdable) ∧
          outputs = ⟨header.attributes.map Attribute.zeros⟩ := by
  cases hs : header.attributes.mapM (sizeOf limits) with
  | error e =>
    have hn : ¬∀ a ∈ header.attributes, limits.Allows a.shape := by
      rw [← exists_mapM_sizeOf_iff, hs]
      simp
    simp [allocate, hs, hn]
  | ok sizes =>
    have hall := exists_mapM_sizeOf_iff.mp ⟨sizes, hs⟩
    rw [allocate_sizes hs, and_iff_right hall]
    split
    · rename_i hold
      rw [and_iff_right hold, Except.ok.injEq, eq_comm]
    · rename_i hold
      exact ⟨nofun, fun h => absurd h.1 hold⟩

/-- Outputs are refused for the first shape that is not allowed. Where all are allowed, one that
cannot be held stops everything. -/
theorem allocate_eq_error_iff {header : Header} {limits : Limits} {e : DecodeError} :
    allocate header limits = .error e ↔ header.Unallocatable limits e ∨
      (∀ a ∈ header.attributes, limits.Allows a.shape) ∧
        (¬∀ a ∈ header.attributes, a.shape.Holdable) ∧ e = .beyondMemory := by
  rw [← mapM_sizeOf_eq_error_iff, ← exists_mapM_sizeOf_iff]
  cases hs : header.attributes.mapM (sizeOf limits) with
  | error e' => simp [allocate, hs]
  | ok sizes =>
    rw [allocate_sizes hs]
    by_cases hold : ∀ a ∈ header.attributes, a.shape.Holdable
    · rw [if_pos hold]
      exact ⟨nofun, by rintro (h | ⟨-, h, -⟩) <;> contradiction⟩
    · rw [if_neg hold]
      simp [hold, eq_comm]

theorem allocate_ok {header : Header} {limits : Limits} {outputs : Registry}
    (h : allocate header limits = .ok outputs) :
    outputs.buffers = header.attributes.map Attribute.zeros := by
  obtain ⟨-, -, rfl⟩ := allocate_eq_ok_iff.mp h
  rfl

theorem names_allocate {header : Header} {limits : Limits} {outputs : Registry}
    (h : allocate header limits = .ok outputs) :
    outputs.buffers.map Buffer.name = header.names := by
  rw [allocate_ok h, List.map_map]
  rfl

theorem nodup_allocate {header : Header} {limits : Limits} {outputs : Registry}
    (h : allocate header limits = .ok outputs) : (outputs.buffers.map Buffer.name).Nodup :=
  names_allocate h ▸ header.names_nodup

theorem exists_allocate_iff {header : Header} {limits : Limits} :
    (∃ outputs, allocate header limits = .ok outputs) ↔
      (∀ a ∈ header.attributes, limits.Allows a.shape) ∧
        ∀ a ∈ header.attributes, a.shape.Holdable := by
  simp [allocate_eq_ok_iff]

theorem allocate_error {header : Header} {limits : Limits} {e : DecodeError}
    (h : allocate header limits = .error e) :
    (∃ a ∈ header.attributes, e = .allocation a.name a.shape limits.maxElements) ∨
      e = .beyondMemory := by
  rcases allocate_eq_error_iff.mp h with ⟨split, -, -⟩ | ⟨-, -, rfl⟩
  · exact .inl ⟨_, by simp [split], rfl⟩
  · exact .inr rfl

/-- Where the limit itself can be held, so can whatever it allows. -/
theorem allocate_ne_beyondMemory {limits : Limits}
    (h : Memory.Holds limits.maxElements.toNat Sample.width) (header : Header) :
    allocate header limits ≠ .error .beyondMemory := by
  intro ha
  rcases allocate_eq_error_iff.mp ha with hu | ⟨allowed, beyond, -⟩
  · cases hu
  · exact beyond fun a hm => Nat.le_trans (Nat.mul_le_mul_right _ (allowed a hm).2) h

theorem updateAt_append {α : Type} (f : Array Sample → α × Array Sample) (before after : List Buffer)
    (b : Buffer) : updateAt f before.length (before ++ b :: after) =
      (some (f b.samples).1, before ++ { b with samples := (f b.samples).2 } :: after) := by
  induction before with
  | nil => rfl
  | cons c rest ih =>
    rw [List.length_cons, List.cons_append]
    simp only [updateAt, ih, List.cons_append]

theorem update_append {α : Type} {r : Registry} {before after : List Buffer} {b : Buffer}
    (h : r.buffers = before ++ b :: after) (f : Array Sample → α × Array Sample) :
    r.update before.length f =
      (some (f b.samples).1, ⟨before ++ { b with samples := (f b.samples).2 } :: after⟩) := by
  simp only [update, h, updateAt_append]

end Registry

namespace Buffer

variable {index : List Int64}

theorem take?_nil (b : Buffer) : b.take? index [] = some b :=
  rfl

theorem take?_other {bundle : Bundle} {b : Buffer} (h : bundle.output ≠ b.name)
    (rest : List Bundle) : b.take? index (bundle :: rest) = b.take? index rest := by
  simp [take?, h]

theorem take?_name {bundles : List Bundle} {b c : Buffer} (h : b.take? index bundles = some c) :
    c.name = b.name := by
  obtain ⟨samples, -, rfl⟩ := Option.map_eq_some_iff.mp h
  rfl

theorem take?_own {bundle : Bundle} {b : Buffer} (h : bundle.output = b.name)
    (rest : List Bundle) : b.take? index (bundle :: rest) =
      match bundle.scatter index b.samples with
      | ⟨.error _, _⟩ => none
      | ⟨.ok _, samples⟩ => take? index rest { b with samples } := by
  simp only [take?, List.filter_cons, h, decide_true, if_true, scatterAll]
  rcases bundle.scatter index b.samples with ⟨_ | _, _⟩ <;> rfl

/-- Bundles are put into an output one by one. -/
theorem take?_cons (bundle : Bundle) (rest : List Bundle) (b : Buffer) :
    b.take? index (bundle :: rest) = (b.take? index [bundle]).bind (take? index rest) := by
  by_cases h : bundle.output = b.name
  · rw [take?_own h, take?_own h]
    split <;> simp [take?_nil]
  · rw [take?_other h, take?_other h, take?_nil, Option.bind_some]

theorem mapM_take?_nil (buffers : List Buffer) :
    buffers.mapM (take? index []) = some buffers := by
  induction buffers with
  | nil => rfl
  | cons b rest ih => exact mapM_cons_eq_some.mpr ⟨b, rest, rfl, ih, rfl⟩

/-- Bundles are put into all outputs one by one. -/
theorem mapM_take?_cons {bundle : Bundle} {rest : List Bundle} {buffers after : List Buffer} :
    buffers.mapM (take? index (bundle :: rest)) = some after ↔
      ∃ mid, buffers.mapM (take? index [bundle]) = some mid ∧
        mid.mapM (take? index rest) = some after := by
  induction buffers generalizing after with
  | nil =>
    constructor
    · intro h
      exact ⟨[], rfl, h⟩
    · intro h
      obtain ⟨mid, hm, h⟩ := h
      cases hm
      exact h
  | cons b others ih =>
    rw [mapM_cons_eq_some, take?_cons]
    constructor
    · intro h
      obtain ⟨d, ds, hd, hds, rfl⟩ := h
      obtain ⟨c, hc, hd⟩ := Option.bind_eq_some_iff.mp hd
      obtain ⟨cs, hcs, hds⟩ := ih.mp hds
      exact ⟨c :: cs, mapM_cons_eq_some.mpr ⟨c, cs, hc, hcs, rfl⟩,
        mapM_cons_eq_some.mpr ⟨d, ds, hd, hds, rfl⟩⟩
    · intro h
      obtain ⟨mid, hm, ha⟩ := h
      obtain ⟨c, cs, hc, hcs, rfl⟩ := mapM_cons_eq_some.mp hm
      obtain ⟨d, ds, hd, hds, rfl⟩ := mapM_cons_eq_some.mp ha
      exact ⟨d, ds, Option.bind_eq_some_iff.mpr ⟨c, hc, hd⟩, ih.mpr ⟨cs, hcs, hds⟩, rfl⟩

theorem mapM_take?_name {bundles : List Bundle} {buffers after : List Buffer}
    (h : buffers.mapM (take? index bundles) = some after) :
    after.map Buffer.name = buffers.map Buffer.name := by
  induction buffers generalizing after with
  | nil =>
    obtain rfl : [] = after := by simpa using h
    rfl
  | cons b rest ih =>
    obtain ⟨c, cs, hc, hcs, rfl⟩ := mapM_cons_eq_some.mp h
    rw [List.map_cons, List.map_cons, take?_name hc, ih hcs]

theorem mapM_take?_other {bundle : Bundle} {buffers : List Buffer}
    (h : ∀ b ∈ buffers, bundle.output ≠ b.name) :
    buffers.mapM (take? index [bundle]) = some buffers := by
  induction buffers with
  | nil => rfl
  | cons b rest ih =>
    have hb : b.take? index [bundle] = some b := take?_other (h b List.mem_cons_self) []
    have hr := ih fun c hc => h c (List.mem_cons_of_mem _ hc)
    exact mapM_cons_eq_some.mpr ⟨b, rest, hb, hr, rfl⟩

/-- Where names differ, a bundle is for one output at most. -/
theorem mapM_take?_own {bundle : Bundle} {b : Buffer} {before after : List Buffer}
    (h : bundle.output = b.name) (hn : ((before ++ b :: after).map Buffer.name).Nodup) :
    (before ++ b :: after).mapM (take? index [bundle]) =
      (b.take? index [bundle]).map fun c => before ++ c :: after := by
  rw [List.map_append, List.map_cons, List.nodup_append, List.nodup_cons] at hn
  obtain ⟨-, ⟨ha, -⟩, hb⟩ := hn
  have hbefore : before.mapM (take? index [bundle]) = some before :=
    mapM_take?_other fun c hc he =>
      hb c.name (List.mem_map_of_mem hc) b.name List.mem_cons_self (he ▸ h)
  have hafter : after.mapM (take? index [bundle]) = some after :=
    mapM_take?_other fun c hc he => ha (h ▸ he ▸ List.mem_map_of_mem hc)
  rw [List.mapM_append, List.mapM_cons, hbefore, hafter]
  cases b.take? index [bundle] <;> rfl

end Buffer

end SeismicStream
