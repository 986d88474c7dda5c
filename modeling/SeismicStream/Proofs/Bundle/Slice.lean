import SeismicStream.Proofs.Bundle.Plan

namespace SeismicStream

namespace Strides

theorem sourceOf_eq (s : Strides) (i : Word) :
    s.sourceOf i = Word.capped (s.copyAt i.toNat).source :=
  Word.mulCapped_eq i s.substride

theorem targetOf_eq (s : Strides) (i : Word) :
    s.targetOf i = Word.capped (s.copyAt i.toNat).target :=
  Word.placed_eq i s.superstride s.initialSkip

/-- Copies are made up to the first that leaves its bounds. -/
theorem copies_carryOut (s : Strides) {source target : Array Sample} (h0 : 0 < s.chunkSize.toNat)
    (hs : source.size < UInt64.size) (ht : target.size < UInt64.size) {i : Word} {count : Nat}
    (hi : i.toNat + count < UInt64.size) : s.copies source i count target =
      Plan.carryOut ((List.range' i.toNat count).map fun j =>
        (s.copyAt j).step source.toList target.size) () target := by
  induction count generalizing i target with
  | zero => rfl
  | succ count ih =>
    have hnext := Word.toNat_succ (show i.toNat + 1 < UInt64.size by omega)
    rw [copies, sourceOf_eq, targetOf_eq, List.range'_succ, List.map_cons]
    rcases (s.copyAt i.toNat).made rfl h0 hs ht with ⟨e, he, hw⟩ | ⟨writes, hm, hw, hc⟩
    · rw [hw, he]
      exact (Plan.carryOut_error e _ () target).symm
    · rw [hw, hm, Plan.carryOut_ok]
      simp only
      rw [hc, ih (by rwa [Sample.size_paintAll]) (by omega), hnext, Sample.size_paintAll]

end Strides

/-- A tile is scattered as its plan says. -/
theorem Tile.scatter_carryOut {tile : Tile} {target : Array Sample}
    (hv : tile.values.length < UInt64.size) (ht : target.size < UInt64.size) :
    tile.scatter target = (tile.plan target.size).carryOut tile.count target := by
  have hlen := Sample.length_ofPayload tile.values
  have hcap := Word.mulCapped_eq tile.iterations tile.chunkSize
  by_cases h4 : tile.values.length % 4 = 0
  case neg =>
    simp only [Tile.scatter, Tile.plan, Sample.listOf?_misaligned h4, if_pos h4]
    rfl
  simp only [Tile.scatter, Tile.plan, Sample.listOf?_payload_eq h4, if_neg (not_not_intro h4)]
  by_cases h0 : tile.chunkSize = 0
  · have hz : tile.chunkSize.toNat = 0 := by rw [h0]; rfl
    have hcount : tile.count = 0 := by rw [count, hz, Nat.mul_zero]
    rw [if_pos h0, if_pos hz, hcount]
    rfl
  have hz : tile.chunkSize.toNat ≠ 0 := fun h => h0 (UInt64.toNat_inj.mp h)
  have hpos : 0 < tile.chunkSize.toNat := Nat.pos_of_ne_zero hz
  rw [if_neg h0, if_neg hz, List.size_toArray]
  by_cases hi : (Sample.ofPayload tile.values).length / tile.chunkSize.toNat <
      tile.iterations.toNat
  · rw [if_pos hi, if_pos hi, hcap]
    rfl
  -- All copies together read no more than the payload, so their number and their sum are words.
  have hcount : tile.count ≤ (Sample.ofPayload tile.values).length :=
    (Nat.le_div_iff_mul_le hpos).mp (Nat.le_of_not_lt hi)
  have hsum : (Word.mulCapped tile.iterations tile.chunkSize).toNat = tile.count := by
    rw [hcap, Word.toNat_capped]
    change min tile.count _ = _
    omega
  obtain ⟨plan, hplan⟩ : ∃ plan : Plan, plan = (List.range tile.iterations.toNat).map fun i =>
    (tile.copyAt i).step (Sample.ofPayload tile.values) target.size := ⟨_, rfl⟩
  have hc : tile.copies (Sample.ofPayload tile.values).toArray 0 tile.iterations.toNat target =
      plan.carryOut () target := by
    rw [hplan, List.range_eq_range']
    exact tile.copies_carryOut hpos (by rw [List.size_toArray]; omega) ht
      (by simpa using tile.iterations.toNat_lt_size)
  rw [if_neg hi, if_neg hi, hc, hsum, ← hplan]
  cases hf : plan.fault? with
  | some e => rw [Plan.carryOut_of_fault hf, Plan.carryOut_of_fault hf]
  | none => rw [Plan.carryOut_of_none hf, Plan.carryOut_of_none hf]

/-- Tiles are scattered one after the other, each as its plan says. -/
theorem scatterTiles_carryOut {tiles : List Tile} {target : Array Sample} (written : Nat)
    (hv : ∀ tile ∈ tiles, tile.values.length < UInt64.size) (ht : target.size < UInt64.size) :
    scatterTiles written tiles target = Plan.carryOut (tiles.flatMap (Tile.plan target.size))
      (written + tiles.foldr (fun tile n => tile.count + n) 0) target := by
  induction tiles generalizing written target with
  | nil => rfl
  | cons tile rest ih =>
    have hr : ∀ t ∈ rest, t.values.length < UInt64.size :=
      fun t hm => hv t (List.mem_cons_of_mem tile hm)
    rw [scatterTiles, Tile.scatter_carryOut (hv tile List.mem_cons_self) ht, List.flatMap_cons,
      List.foldr_cons]
    cases hf : (tile.plan target.size).fault? with
    | some e => rw [Plan.carryOut_of_fault hf, Plan.carryOut_append_of_fault hf]
    | none =>
      rw [Plan.carryOut_of_none hf, Plan.carryOut_append_of_none hf]
      simp only
      rw [ih _ hr (by rwa [Sample.size_paintAll]), Sample.size_paintAll, Nat.add_assoc]

namespace Bundle

variable {output : String} {tiles : List Tile} {index : List Int64} {target : Array Sample}

theorem scatter_slice_carryOut (hv : ∀ tile ∈ tiles, tile.values.length < UInt64.size)
    (ht : target.size < UInt64.size) : (slice output tiles).scatter index target =
      ((slice output tiles).plan index target.size).carryOut (slice output tiles).count target := by
  rw [scatter, scatterTiles_carryOut 0 hv ht, Nat.zero_add]
  rfl

/-- A slice is scattered as its plan says, also where the plan cannot be carried out. Payloads and
outputs that can be held are shorter than a word can say. -/
theorem follows_slice (hv : ∀ tile ∈ tiles, tile.values.length < UInt64.size)
    (ht : target.size < UInt64.size) :
    ((slice output tiles).scatter index target).Follows
      ((slice output tiles).plan index target.size) (slice output tiles).count target := by
  rw [scatter_slice_carryOut hv ht]
  exact Plan.carryOut_follows _ _ _

/-- The second copy of the second tile would end far behind any output. -/
def farCopy : List Tile :=
  [⟨⟨2, 1, 0, 2, 1⟩, Sample.payload [5, 6]⟩, ⟨⟨2, 2, 1, Word.last, 0⟩, Sample.payload [7, 8, 9, 10]⟩]

theorem follows_slice_farCopy :
    (∀ tile ∈ farCopy, tile.values.length < UInt64.size) ∧
      let s := (slice "a" farCopy).scatter [] #[0, 0, 0, 0]
      s.outcome = .error (.outOfBounds .destination Word.last 4) ∧
        ∀ j < 4, s.target[j]? = [5, 7, 8, 0][j]? := by
  have hv : ∀ tile ∈ farCopy, tile.values.length < UInt64.size := by decide
  have hf := @follows_slice "a" farCopy [] #[0, 0, 0, 0] hv (by decide)
  refine ⟨hv, hf.outcome.trans rfl, fun j hj => (hf.samples j hj).trans ?_⟩
  revert j
  decide

end Bundle

end SeismicStream
