import SeismicStream.Proofs.Bundle.Curtain
import SeismicStream.Proofs.Bundle.Slice
import SeismicStream.Proofs.Bundle.Wire

namespace SeismicStream

/-- A tile that fits asks for its own writes. -/
theorem SampledTile.plan_eq {tile : SampledTile} {capacity : Nat} (hf : tile.Fits capacity) :
    (tile.toTile.plan capacity).fault? = none ∧
      (tile.toTile.plan capacity).writes = tile.writes := by
  have hlen := Sample.length_payload tile.samples
  have hsamples : Sample.ofPayload tile.toTile.values = tile.samples :=
    Sample.ofPayload_payload tile.samples
  have h4 : ¬ tile.toTile.values.length % 4 ≠ 0 := by
    rw [toTile, hlen]
    omega
  have hchunk : tile.toTile.chunkSize = tile.chunkSize := rfl
  have hiter : tile.toTile.iterations = tile.iterations := rfl
  simp only [Tile.plan, if_neg h4, hsamples, hchunk, hiter]
  by_cases h0 : tile.chunkSize.toNat = 0
  · have hw : tile.writes = [] := by simp [writes, Strides.copy, h0]
    rw [if_pos h0, hw]
    exact ⟨rfl, rfl⟩
  have hpos : 0 < tile.chunkSize.toNat := Nat.pos_of_ne_zero h0
  obtain ⟨hall, hstay⟩ := hf hpos
  have hguard : ¬ tile.samples.length / tile.chunkSize.toNat < tile.iterations.toNat :=
    Nat.not_lt.mpr ((Nat.le_div_iff_mul_le hpos).mpr hall)
  rw [if_neg h0, if_neg hguard, List.range_eq_range']
  refine Plan.copies_ok fun i hi => hstay i ?_
  simpa using List.mem_range'_1.mp hi

theorem SampledRun.zip_cells {run : SampledRun} {depth capacity : Nat}
    (h : run.Fits depth capacity) (rest : List Sample) :
    (run.cells depth).zip (run.samples ++ rest) = run.writes depth := by
  have hl : (run.cells depth).length = run.samples.length := (run.length_cells depth).trans h.full.symm
  have hz : (run.cells depth ++ []).zip (run.samples ++ rest) = _ := List.zip_append hl
  rwa [List.append_nil, List.zip_nil_left, List.append_nil] at hz

/-- A run that fits asks for its own writes. -/
theorem SampledRun.plan_eq {run : SampledRun} {depth capacity : Nat} (hf : run.Fits depth capacity)
    (front rest : List Sample) :
    (run.toRun.plan (front ++ (run.samples ++ rest)) capacity depth front.length).fault? = none ∧
      (run.toRun.plan (front ++ (run.samples ++ rest)) capacity depth front.length).writes =
        run.writes depth := by
  have hmade : (run.toRun.plan (front ++ (run.samples ++ rest)) capacity depth
      front.length).fault? = none := by
    rw [Run.plan, if_neg (Nat.not_lt.mpr hf.within)]
    split
    · rfl
    refine (Plan.copies_ok fun k hk => ?_).1
    have hlt : k < run.traces.size := List.mem_range.mp hk
    constructor
    · change front.length + k * run.depths.size + run.depths.size ≤ _
      have hfull := hf.full
      have hrow : (k + 1) * run.depths.size ≤ run.traces.size * run.depths.size :=
        Nat.mul_le_mul_right _ hlt
      rw [Nat.succ_mul] at hrow
      rw [List.length_append, List.length_append]
      omega
    · -- The last trace reaches farthest, and that is the one the run is checked for.
      change (run.traces.first.toNat + k) * depth + run.depths.first.toNat + run.depths.size ≤ _
      have hdepths := hf.depths
      have hreach := hf.reach (by omega) (by omega)
      have hsize : run.traces.size = run.traces.stop.toNat - run.traces.first.toNat := rfl
      have hdsize : run.depths.size = run.depths.stop.toNat - run.depths.first.toNat := rfl
      have hlast : (run.traces.first.toNat + k) * depth ≤ (run.traces.stop.toNat - 1) * depth :=
        Nat.mul_le_mul_right _ (by omega)
      omega
  refine ⟨hmade, (Run.plan_fills (by simp) hmade).writes.trans ?_⟩
  rw [List.drop_left]
  exact zip_cells hf rest

/-- Runs that fit ask for their own writes, one run after the other. -/
theorem planAll_eq {runs : List SampledRun} {depth capacity : Nat}
    (hf : ∀ run ∈ runs, run.Fits depth capacity) (front : List Sample) :
    (Run.planAll (front ++ runs.flatMap SampledRun.samples) capacity depth front.length
        (runs.map SampledRun.toRun)).fault? = none ∧
      (Run.planAll (front ++ runs.flatMap SampledRun.samples) capacity depth front.length
        (runs.map SampledRun.toRun)).writes = runs.flatMap (SampledRun.writes depth) := by
  induction runs generalizing front with
  | nil => exact ⟨rfl, rfl⟩
  | cons run rest ih =>
    have hrun := hf run List.mem_cons_self
    obtain ⟨hfirst, hown⟩ := SampledRun.plan_eq hrun front (rest.flatMap SampledRun.samples)
    have hcount : front.length + run.toRun.count = (front ++ run.samples).length := by
      rw [List.length_append, hrun.full]
      rfl
    obtain ⟨hfault, hwrites⟩ := ih (fun r hr => hf r (List.mem_cons_of_mem run hr))
      (front ++ run.samples)
    rw [List.append_assoc, ← hcount] at hfault hwrites
    rw [List.map_cons, List.flatMap_cons, List.flatMap_cons, Run.planAll, ← hwrites, ← hown]
    obtain ⟨hf', hw'⟩ := Plan.append_of_none hfirst _
    exact ⟨hf'.trans hfault, hw'⟩

namespace SampledBundle

/-- The payload of a curtain holds the samples of its runs. -/
theorem payload_runs (runs : List SampledRun) :
    (runs.flatMap fun run => Sample.payload run.samples) =
      Sample.payload (runs.flatMap SampledRun.samples) := by
  simp only [Sample.payload, List.flatMap_assoc]

/-- A bundle that fits asks for its own writes. -/
theorem plan_eq {b : SampledBundle} {index : List Int64} {capacity : Nat}
    (hf : b.Fits index capacity) :
    (b.toBundle.plan index capacity).fault? = none ∧
      (b.toBundle.plan index capacity).writes = b.writes (traceLength index) := by
  cases b with
  | slice output tiles =>
    have h := Plan.flatMap_ok fun tile ht => SampledTile.plan_eq (hf tile ht)
    rwa [← List.flatMap_map] at h
  | curtain output runs =>
    obtain ⟨⟨n, hi, hn⟩, hruns⟩ := hf
    have ha : (index[2]?).any (0 ≤ ·) := by simpa [hi] using hn
    have h4 : (Sample.payload (runs.flatMap SampledRun.samples)).length % 4 = 0 := by
      rw [Sample.length_payload, Nat.mul_mod_right]
    have h := planAll_eq hruns []
    rw [toBundle, payload_runs, Bundle.plan_curtain ha h4, Sample.ofPayload_payload]
    exact h

/-- A bundle that fits puts all its samples in their places. -/
theorem scatter_eq {b : SampledBundle} {index : List Int64} {target : Array Sample}
    (hw : b.Writable) (hc : target.size < UInt64.size) (hf : b.Fits index target.size) :
    ∃ n, b.toBundle.scatter index target =
      ⟨.ok n, Sample.paintAll target (b.writes (traceLength index))⟩ := by
  obtain ⟨hfault, hwrites⟩ := plan_eq hf
  have hsmall : UInt32.size < UInt64.size := by decide
  have hs : b.toBundle.scatter index target =
      (b.toBundle.plan index target.size).carryOut b.toBundle.count target := by
    cases hw with
    | @slice output tiles name count payloads =>
      refine Bundle.scatter_slice_carryOut ?_ hc
      intro tile ht
      obtain ⟨sampled, hm, rfl⟩ := List.mem_map.mp ht
      exact Nat.lt_trans (payloads sampled hm) hsmall
    | @curtain output runs wire =>
      exact Bundle.scatter_curtain_carryOut (Nat.lt_trans wire.values hsmall) hc
  rw [hs, Plan.carryOut_of_none hfault, hwrites]
  exact ⟨_, rfl⟩

theorem ordered_of_fits {b : SampledBundle} {index : List Int64} {capacity : Nat}
    (hf : b.Fits index capacity) : b.Ordered := by
  cases b with
  | slice => trivial
  | curtain output runs =>
    intro run hr
    have h := hf.2 run hr
    exact ⟨UInt64.le_iff_toNat_le.mpr h.traces, UInt64.le_iff_toNat_le.mpr h.depths⟩

/-- Bundles that fit put all their samples in their places, one bundle after the other. -/
theorem scatterAll_eq {bundles : List SampledBundle} {index : List Int64} {target : Array Sample}
    (hw : ∀ b ∈ bundles, b.Writable) (hc : target.size < UInt64.size)
    (hf : ∀ b ∈ bundles, b.Fits index target.size) :
    scatterAll index (bundles.map toBundle) target =
      some (Sample.paintAll target (bundles.flatMap (writes (traceLength index)))) := by
  induction bundles generalizing target with
  | nil => rfl
  | cons b rest ih =>
    obtain ⟨n, hn⟩ := scatter_eq (hw b List.mem_cons_self) hc (hf b List.mem_cons_self)
    have hrest : ∀ c ∈ rest,
        c.Fits index (Sample.paintAll target (b.writes (traceLength index))).size := by
      intro c hm
      rw [Sample.size_paintAll]
      exact hf c (List.mem_cons_of_mem b hm)
    have hr := ih (fun c hm => hw c (List.mem_cons_of_mem b hm)) (by rwa [Sample.size_paintAll]) hrest
    rw [List.map_cons, scatterAll, hn, List.flatMap_cons, Sample.paintAll_append]
    exact hr

end SampledBundle

end SeismicStream
