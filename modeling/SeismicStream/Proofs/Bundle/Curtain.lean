import SeismicStream.Proofs.Bundle.Plan

namespace SeismicStream

theorem Span.toNat_length (s : Span) : s.length.toNat = s.size := by
  unfold Span.length Span.size
  split
  · rename_i h
    exact UInt64.toNat_sub_of_le _ _ (UInt64.le_of_lt h)
  · rename_i h
    have := UInt64.not_lt.mp h
    rw [UInt64.le_iff_toNat_le] at this
    exact (Nat.sub_eq_zero_of_le this).symm

namespace Run

variable {run : Run} {depth cursor : Word} {source target : Array Sample}

theorem targetOf_eq (run : Run) (depth trace : Word) (cursor : Nat) :
    run.targetOf depth trace = Word.capped (run.copyAt depth.toNat trace.toNat cursor).target :=
  Word.placed_eq trace depth run.depths.first

theorem steps_succ (run : Run) (samples : List Sample) (capacity depth trace cursor count : Nat) :
    run.steps samples capacity depth trace cursor (count + 1) =
      (run.copyAt depth trace cursor).step samples capacity ::
        run.steps samples capacity depth (trace + 1) (cursor + run.depths.size) count := by
  have hhead : run.copyAt depth (trace + 0) (cursor + 0 * run.depths.size) =
      run.copyAt depth trace cursor := by rw [Nat.zero_mul, Nat.add_zero, Nat.add_zero]
  rw [steps, List.range_succ_eq_map, List.map_cons, List.map_map, hhead, steps]
  refine congrArg (_ :: ·) (List.map_congr_left fun k _ => ?_)
  have htrace : trace + (k + 1) = trace + 1 + k := by omega
  have hcursor : cursor + (k + 1) * run.depths.size =
      cursor + run.depths.size + k * run.depths.size := by
    rw [Nat.succ_mul]
    omega
  rw [Function.comp_apply, htrace, hcursor]

/-- Traces are filled up to the first that leaves its bounds. -/
theorem fill_carryOut (h0 : 0 < run.depths.size) (hs : source.size < UInt64.size)
    (ht : target.size < UInt64.size) {trace : Word} {count : Nat}
    (hi : trace.toNat + count < UInt64.size) : run.fill depth source trace count cursor target =
      (run.steps source.toList target.size depth.toNat trace.toNat cursor.toNat count).carryOut
        (Word.capped (cursor.toNat + count * run.depths.size)) target := by
  induction count generalizing trace cursor target with
  | zero =>
    rw [Nat.zero_mul, Nat.add_zero, Word.capped_toNat]
    rfl
  | succ count ih =>
    have hlen := run.depths.toNat_length
    have hnext := Word.toNat_succ (show trace.toNat + 1 < UInt64.size by omega)
    have hmade := (run.copyAt depth.toNat trace.toNat cursor.toNat).made hlen.symm (hlen ▸ h0) hs ht
    have hcap : Word.capped (run.copyAt depth.toNat trace.toNat cursor.toNat).source = cursor :=
      Word.capped_toNat cursor
    rw [hcap] at hmade
    rw [fill, targetOf_eq run depth trace cursor.toNat, steps_succ]
    rcases hmade with ⟨e, he, hw⟩ | ⟨writes, hm, hw, hcopy⟩
    · rw [hw, he, Plan.carryOut_error]
    · obtain ⟨hsource, -, -⟩ := Copy.step_eq_ok_iff.mp hm
      rw [Array.length_toList] at hsource
      change cursor.toNat + run.depths.size ≤ source.size at hsource
      have hcursor := Word.toNat_add (a := cursor) (b := run.depths.length) (by omega)
      have hsum : cursor.toNat + run.depths.size + count * run.depths.size =
          cursor.toNat + (count + 1) * run.depths.size := by
        rw [Nat.succ_mul]
        omega
      rw [hw, hm, Plan.carryOut_ok]
      simp only
      rw [hcopy, ih (by rwa [Sample.size_paintAll]) (by omega), Sample.size_paintAll, hnext,
        hcursor, hlen, hsum]

/-- The positions of `count` traces, one trace after the other. -/
def cellsFrom (run : Run) (depth trace count : Nat) : List Nat :=
  (List.range' trace count).flatMap fun trace =>
    List.range' (trace * depth + run.depths.first.toNat) run.depths.size

theorem cellsFrom_succ (run : Run) (depth trace count : Nat) :
    run.cellsFrom depth trace (count + 1) =
      List.range' (trace * depth + run.depths.first.toNat) run.depths.size ++
        run.cellsFrom depth (trace + 1) count := by
  rw [cellsFrom, List.range'_succ, List.flatMap_cons, cellsFrom]

theorem length_cellsFrom (run : Run) (depth trace count : Nat) :
    (run.cellsFrom depth trace count).length = count * run.depths.size := by
  induction count generalizing trace with
  | zero =>
    rw [Nat.zero_mul]
    rfl
  | succ count ih =>
    rw [cellsFrom_succ, List.length_append, ih, List.length_range', Nat.succ_mul, Nat.add_comm]

theorem length_cells (run : Run) (depth : Nat) :
    (run.cells depth).length = run.traces.size * run.depths.size :=
  run.length_cellsFrom depth run.traces.first.toNat run.traces.size

end Run

theorem Run.steps_fills {run : Run} {samples : List Sample} {capacity depth trace cursor count : Nat}
    (hc : cursor ≤ samples.length)
    (h : (run.steps samples capacity depth trace cursor count).fault? = none) :
    (run.steps samples capacity depth trace cursor count).Fills (run.cellsFrom depth trace count)
      samples capacity cursor := by
  induction count generalizing trace cursor with
  | zero => exact .nil hc
  | succ count ih =>
    rw [steps_succ] at h ⊢
    cases hstep : (run.copyAt depth trace cursor).step samples capacity with
    | error e =>
      rw [hstep] at h
      cases h
    | ok step =>
      rw [hstep] at h
      have hfirst := Plan.fills_step hstep
      have henough := hfirst.enough
      rw [List.length_range'] at henough
      rw [cellsFrom_succ]
      refine @Plan.Fills.append _ _ _ [.ok step] _ _ _ rfl hfirst ?_
      rw [List.length_range']
      exact ih henough h

theorem Run.length_flatMap_cells (runs : List Run) (depth : Nat) :
    (runs.flatMap fun run => run.cells depth).length =
      runs.foldr (fun run n => run.count + n) 0 := by
  induction runs with
  | nil => rfl
  | cons run rest ih =>
    rw [List.flatMap_cons, List.length_append, ih, run.length_cells, List.foldr_cons, Run.count]

/-- A run whose steps can all be made takes as many samples as it has cells. -/
theorem Run.plan_fills {run : Run} {samples : List Sample} {capacity depth cursor : Nat}
    (hc : cursor ≤ samples.length) (h : (run.plan samples capacity depth cursor).fault? = none) :
    (run.plan samples capacity depth cursor).Fills (run.cells depth) samples capacity cursor := by
  unfold plan at h ⊢
  split at h
  · cases h
  rename_i hd
  rw [if_neg hd]
  split at h
  · rename_i h0
    have hnil : run.cells depth = [] :=
      List.eq_nil_of_length_eq_zero (by rw [run.length_cells, h0, Nat.mul_zero])
    rw [if_pos h0, hnil]
    exact .nil hc
  · rename_i h0
    rw [if_neg h0]
    exact steps_fills hc h

/-- Runs whose steps can all be made take the samples one run after the other. -/
theorem Run.planAll_fills {runs : List Run} {samples : List Sample} {capacity depth cursor : Nat}
    (hc : cursor ≤ samples.length)
    (h : (planAll samples capacity depth cursor runs).fault? = none) :
    (planAll samples capacity depth cursor runs).Fills (runs.flatMap fun run => run.cells depth)
      samples capacity cursor := by
  induction runs generalizing cursor with
  | nil => exact .nil hc
  | cons run rest ih =>
    have hlen : (run.cells depth).length = run.count := run.length_cells depth
    rw [planAll] at h ⊢
    rw [List.flatMap_cons]
    have hf := Plan.fault?_of_append h
    have hrun := plan_fills hc hf
    obtain ⟨hrest, -⟩ := Plan.append_of_none hf (planAll samples capacity depth (cursor + run.count) rest)
    refine hrun.append hf ?_
    have henough := hrun.enough
    rw [hlen] at henough ⊢
    exact ih henough (hrest ▸ h)

/-- Runs are scattered one after the other, each as its plan says. -/
theorem scatterRuns_carryOut {runs : List Run} {depth cursor : Word} {source target : Array Sample}
    (hs : source.size < UInt64.size) (ht : target.size < UInt64.size)
    (hc : cursor.toNat ≤ source.size) : scatterRuns depth source cursor runs target =
      (Run.planAll source.toList target.size depth.toNat cursor.toNat runs).carryOut
        (Word.capped (cursor.toNat + runs.foldr (fun run n => run.count + n) 0)) target := by
  induction runs generalizing cursor target with
  | nil =>
    rw [List.foldr_nil, Nat.add_zero, Word.capped_toNat]
    rfl
  | cons run rest ih =>
    have hsize := run.depths.toNat_length
    rw [scatterRuns, Run.planAll, List.foldr_cons]
    by_cases hd : depth < run.depths.stop
    · rw [if_pos hd, Run.plan, if_pos (UInt64.lt_iff_toNat_lt.mp hd)]
      rfl
    have hdepth : ¬ depth.toNat < run.depths.stop.toNat := fun h => hd (UInt64.lt_iff_toNat_lt.mpr h)
    rw [if_neg hd]
    by_cases h0 : run.depths.length = 0
    · have hz : run.depths.size = 0 := by rw [← hsize, h0]; rfl
      have hcount : run.count = 0 := by rw [Run.count, hz, Nat.mul_zero]
      rw [if_pos h0, Run.plan, if_neg hdepth, if_pos hz, hcount, List.nil_append, Nat.add_zero,
        Nat.zero_add]
      exact ih ht hc
    have hz : run.depths.size ≠ 0 := fun h => h0 (UInt64.toNat_inj.mp (hsize.trans h))
    have htraces : run.traces.first.toNat + run.traces.length.toNat < UInt64.size := by
      rw [run.traces.toNat_length, Span.size]
      have := run.traces.first.toNat_lt_size
      have := run.traces.stop.toNat_lt_size
      omega
    rw [if_neg h0, Run.fill_carryOut (Nat.pos_of_ne_zero hz) hs ht htraces, Run.plan, if_neg hdepth,
      if_neg hz, run.traces.toNat_length, ← Run.count]
    cases hf : (run.steps source.toList target.size depth.toNat run.traces.first.toNat cursor.toNat
        run.traces.size).fault? with
    | some e => rw [Plan.carryOut_of_fault hf, Plan.carryOut_append_of_fault hf]
    | none =>
      -- The run has taken its samples from the source, so the cursor is the exact sum.
      have henough := (Run.steps_fills (by rwa [Array.length_toList]) hf).enough
      rw [Run.length_cellsFrom, ← Run.count, Array.length_toList] at henough
      have hcursor : (Word.capped (cursor.toNat + run.count)).toNat = cursor.toNat + run.count := by
        rw [Word.toNat_capped]
        omega
      rw [Plan.carryOut_of_none hf, Plan.carryOut_append_of_none hf]
      simp only
      rw [ih (by rwa [Sample.size_paintAll]) (by rwa [hcursor]), hcursor, Sample.size_paintAll,
        Nat.add_assoc]

namespace Sample

variable {cells : List Nat} {samples : List Sample}

theorem lastAt?_zip_of_notMem {j : Nat} (h : j ∉ cells) : lastAt? (cells.zip samples) j = none := by
  apply lastAt?_eq_none
  intro hm
  obtain ⟨write, hw, rfl⟩ := List.mem_map.mp hm
  exact h (List.of_mem_zip hw).1

/-- What is put into a cell last is the sample for the last time that the cell comes. -/
theorem lastAt?_zip {k cell : Nat} {s : Sample} (hc : cells[k]? = some cell)
    (hs : samples[k]? = some s) (hl : ∀ l, k < l → cells[l]? ≠ some cell) :
    lastAt? (cells.zip samples) cell = some s := by
  induction cells generalizing samples k with
  | nil => cases hc
  | cons first rest ih =>
    cases samples with
    | nil => cases hs
    | cons t others =>
      rw [List.zip_cons_cons, lastAt?_cons]
      cases k with
      | zero =>
        obtain rfl : first = cell := Option.some.inj hc
        cases hs
        have hm : first ∉ rest := by
          intro hm
          obtain ⟨l, hl'⟩ := List.getElem?_of_mem hm
          exact hl (l + 1) (Nat.succ_pos l) hl'
        rw [lastAt?_zip_of_notMem hm, if_pos rfl]
        rfl
      | succ k =>
        rw [ih hc hs fun l h => hl (l + 1) (Nat.succ_lt_succ h)]
        rfl

end Sample

/-- The samples of a plan that can be carried out from the first sample on have landed. -/
theorem Plan.Fills.landed {plan : Plan} {cells : List Nat} {samples : List Sample}
    {target : Array Sample} (h : plan.Fills cells samples target.size 0) :
    Sample.Landed samples cells target (Sample.paintAll target plan.writes) := by
  have henough := h.enough
  rw [Nat.zero_add] at henough
  rw [h.writes, List.drop_zero]
  refine ⟨henough, ?_, ?_⟩
  · intro k cell hc hl
    obtain ⟨hk, -⟩ := List.getElem?_eq_some_iff.mp hc
    have hs : samples[k]? = some samples[k] := List.getElem?_eq_getElem (by omega)
    rw [Sample.getElem?_paintAll (h.inside cell (List.mem_of_getElem? hc)), Sample.lastAt?_zip hc hs hl,
      hs, Option.getD_some]
  · intro j hj
    by_cases hlt : j < target.size
    · rw [Sample.getElem?_paintAll hlt, Sample.lastAt?_zip_of_notMem hj, Array.getElem?_eq_getElem hlt,
        Option.getD_none]
    · rw [Array.getElem?_eq_none (Nat.not_lt.mp hlt),
        Array.getElem?_eq_none (by rw [Sample.size_paintAll]; exact Nat.not_lt.mp hlt)]

namespace Bundle

variable {output : String} {runs : List Run} {values : Bytes} {index : List Int64}
  {target : Array Sample}

theorem depthAxis?_eq {index : List Int64} {n : Int64} (hi : index[2]? = some n) (hn : 0 ≤ n) :
    ∃ depth, depthAxis? index = some depth ∧ depth.toNat = traceLength index := by
  refine ⟨n.toUInt64, by simp only [depthAxis?, hi, if_pos hn], ?_⟩
  rw [Int64.toNat_toUInt64_of_le hn, traceLength, hi]
  rfl

theorem depthAxis?_cases (index : List Int64) :
    (depthAxis? index = none ∧ ¬ (index[2]?).any (0 ≤ ·)) ∨
      ∃ depth, depthAxis? index = some depth ∧ depth.toNat = traceLength index ∧
        (index[2]?).any (0 ≤ ·) := by
  cases hi : index[2]? with
  | none => exact .inl ⟨by simp only [depthAxis?, hi], by simp⟩
  | some n =>
    by_cases hn : 0 ≤ n
    · obtain ⟨depth, hd, hl⟩ := depthAxis?_eq hi hn
      exact .inr ⟨depth, hd, hl, by simpa using hn⟩
    · exact .inl ⟨by simp only [depthAxis?, hi, if_neg hn], by simpa using hn⟩

theorem scatter_curtain_carryOut (hv : values.length < UInt64.size)
    (ht : target.size < UInt64.size) : (curtain output runs values).scatter index target =
      ((curtain output runs values).plan index target.size).carryOut
        (curtain output runs values).count target := by
  rcases depthAxis?_cases index with ⟨ha, hno⟩ | ⟨depth, ha, hd, hyes⟩
  · simp only [scatter, plan, ha, if_pos hno]
    rfl
  by_cases h4 : values.length % 4 = 0
  case neg =>
    simp only [scatter, plan, ha, if_neg (not_not_intro hyes), Sample.listOf?_misaligned h4, if_pos h4]
    rfl
  have hlen := Sample.length_ofPayload values
  have hscatter := @scatterRuns_carryOut runs depth 0 (Sample.ofPayload values).toArray target
    (by rw [List.size_toArray]; omega) ht (Nat.zero_le _)
  have hzero : (0 : Word).toNat = 0 := rfl
  simp only [scatter, plan, ha, if_neg (not_not_intro hyes), Sample.listOf?_payload_eq h4,
    if_neg (not_not_intro h4), hscatter, hzero, ← hd]
  cases hf : (Run.planAll (Sample.ofPayload values) target.size depth.toNat 0 runs).fault? with
  | some e => rw [Plan.carryOut_of_fault hf, Plan.carryOut_of_fault hf]
  | none =>
    have henough := (Run.planAll_fills (Nat.zero_le _) hf).enough
    rw [Run.length_flatMap_cells] at henough
    have hcount : (Word.capped (0 + runs.foldr (fun run n => run.count + n) 0)).toNat =
        runs.foldr (fun run n => run.count + n) 0 := by
      rw [Word.toNat_capped]
      omega
    rw [Plan.carryOut_of_none hf, Plan.carryOut_of_none hf]
    simp only
    rw [hcount]
    rfl

theorem plan_curtain {capacity : Nat} (ha : (index[2]?).any (0 ≤ ·)) (h4 : values.length % 4 = 0) :
    (curtain output runs values).plan index capacity =
      Run.planAll (Sample.ofPayload values) capacity (traceLength index) 0 runs := by
  simp only [plan, if_neg (not_not_intro ha), if_neg (not_not_intro h4)]

/-- A curtain whose steps can all be made has the depth axis and the samples that it needs. -/
theorem plan_curtain_of_none {capacity : Nat}
    (h : ((curtain output runs values).plan index capacity).fault? = none) :
    (curtain output runs values).plan index capacity =
      Run.planAll (Sample.ofPayload values) capacity (traceLength index) 0 runs := by
  by_cases ha : (index[2]?).any (0 ≤ ·)
  case neg =>
    simp only [plan, if_pos ha] at h
    cases h
  by_cases h4 : values.length % 4 = 0
  case neg =>
    simp only [plan, if_neg (not_not_intro ha), if_pos h4] at h
    cases h
  exact plan_curtain ha h4

/-- A curtain is scattered as its plan says, also where the plan cannot be carried out. Where it can,
sample after sample has landed, trace by trace. Payloads and outputs that can be held are shorter
than a word can say. -/
theorem follows_curtain (hv : values.length < UInt64.size) (ht : target.size < UInt64.size) :
    let s := (curtain output runs values).scatter index target
    s.Follows ((curtain output runs values).plan index target.size)
        (curtain output runs values).count target ∧
      ∀ n, s.outcome = .ok n → Sample.Landed (Sample.ofPayload values)
        (runs.flatMap fun run => run.cells (traceLength index)) target s.target := by
  intro s
  have hs : s = _ := scatter_curtain_carryOut hv ht
  rw [hs]
  refine ⟨Plan.carryOut_follows _ _ _, ?_⟩
  intro n hok
  have hf := Plan.fault?_of_ok hok
  have hplan := plan_curtain_of_none hf
  rw [hplan] at hf
  rw [Plan.carryOut, hplan]
  exact (Run.planAll_fills (Nat.zero_le _) hf).landed

/-- Runs in traces of two samples. The last begins in a cell of the first, and the one between ends
before it begins. -/
def overlapping : List Run :=
  [⟨⟨0, 1⟩, ⟨0, 2⟩⟩, ⟨⟨3, 1⟩, ⟨0, 1⟩⟩, ⟨⟨0, 2⟩, ⟨1, 2⟩⟩]

theorem follows_curtain_overlapping :
    (Sample.payload [5, 6, 7, 8]).length < UInt64.size ∧
      let s := (curtain "a" overlapping (Sample.payload [5, 6, 7, 8])).scatter [0, 0, 2] #[0, 0, 0, 0]
      s.outcome = .ok 4 ∧ (∀ j < 4, s.target[j]? = [5, 7, 0, 8][j]?) ∧
        Sample.Landed [5, 6, 7, 8] [0, 1, 1, 3] #[0, 0, 0, 0] s.target := by
  have hv : (Sample.payload [5, 6, 7, 8]).length < UInt64.size := by decide
  obtain ⟨hf, hl⟩ := @follows_curtain "a" overlapping (Sample.payload [5, 6, 7, 8]) [0, 0, 2]
    #[0, 0, 0, 0] hv (by decide)
  have hok := hf.outcome.trans (show _ = .ok 4 from rfl)
  refine ⟨hv, hok, fun j hj => (hf.samples j hj).trans ?_, hl 4 hok⟩
  revert j
  decide

end Bundle

end SeismicStream
