import SeismicStream.Bundle.Checks
import SeismicStream.Proofs.Bundle.Plan
import SeismicStream.Proofs.Bundle.Wire

namespace SeismicStream
open Msgpack

namespace Span

/-- Words of an even number are the ends of half as many spans. -/
theorem exists_flatMap {count : Nat} {ends : List Word} (h : ends.length = 2 * count) :
    ∃ spans : List Span, spans.length = count ∧
      (spans.flatMap fun s => [s.first, s.stop]) = ends := by
  induction count generalizing ends with
  | zero => exact ⟨[], rfl, (List.length_eq_zero_iff.mp h).symm⟩
  | succ count ih =>
    match ends, h with
    | first :: stop :: rest, h =>
      have hr : rest.length = 2 * count := by
        simp only [List.length_cons] at h
        omega
      obtain ⟨spans, rfl, rfl⟩ := ih hr
      exact ⟨⟨first, stop⟩ :: spans, rfl, rfl⟩

theorem at?_flatMap (spans : List Span) (n : Nat) :
    at? (spans.flatMap fun s => [s.first, s.stop]) n = spans[n]? := by
  induction spans generalizing n with
  | nil => rfl
  | cons s rest ih =>
    cases n with
    | zero => rfl
    | succ n => simpa [at?, Nat.mul_succ] using ih n

theorem Paired.of_flatMap {size : Word} {spans : List Span}
    (h : Paired size (spans.flatMap fun s => [s.first, s.stop])) :
    ∀ s ∈ spans, s.first ≤ s.stop := by
  intro s hs
  obtain ⟨n, hg⟩ := List.mem_iff_getElem?.mp hs
  exact h.ordered n s ((at?_flatMap spans n).trans hg)

theorem paired_flatMap {size : Word} {spans : List Span} (hn : spans.length = size.toNat)
    (h : ∀ s ∈ spans, s.first ≤ s.stop) :
    Paired size (spans.flatMap fun s => [s.first, s.stop]) := by
  refine ⟨(Bundle.length_pairs _ _ spans).trans (congrArg _ hn), ?_⟩
  intro n s hg
  rw [at?_flatMap] at hg
  exact h s (List.mem_of_getElem? hg)

end Span

namespace Bundle

section spans

variable {axis : CurtainAxis} {size : Word} {ends : List Word}

theorem spans_eq (hl : ends.length < UInt32.size) : Bundle.spans axis size ends =
    if ends.length = 2 * size.toNat then pairUp [] ends
    else .error (.arity axis (Word.capped (2 * size.toNat)) ends.length) := by
  have hm : Word.mulCapped size 2 = Word.capped (2 * size.toNat) := by
    rw [Word.mulCapped_eq, Nat.mul_comm]
    rfl
  -- The largest word stands for all that lies beyond it, and no list is as long as that.
  have hc : ends.length = min (2 * size.toNat) (UInt64.size - 1) ↔
      ends.length = 2 * size.toNat := by
    have : UInt32.size < UInt64.size - 1 := by decide
    omega
  simp only [Bundle.spans, hm, Word.toNat_capped, hc]

theorem spans_eq_ok (hl : ends.length < UInt32.size) {found : List Span}
    (h : Bundle.spans axis size ends = .ok found) :
    Span.Paired size ends ∧ found.length = size.toNat ∧ ∀ n, found[n]? = Span.at? ends n := by
  rw [spans_eq hl] at h
  split at h
  · rename_i count
    obtain ⟨spans, hn, rfl⟩ := Span.exists_flatMap count
    rw [pairUp_flatMap] at h
    split at h
    · cases h
    · rename_i hf
      cases h
      have ho : ∀ s ∈ spans, s.first ≤ s.stop := by simpa [List.find?_eq_none] using hf
      exact ⟨Span.paired_flatMap hn ho, hn, fun n => (Span.at?_flatMap spans n).symm⟩
  · cases h

theorem fault_of_spans {e : BundleError} (hl : ends.length < UInt32.size)
    (h : Bundle.spans axis size ends = .error e) : CurtainAxis.Fault axis size ends e := by
  rw [spans_eq hl] at h
  split at h
  · rename_i count
    obtain ⟨spans, hn, rfl⟩ := Span.exists_flatMap count
    rw [pairUp_flatMap] at h
    split at h
    · rename_i s hf
      cases h
      obtain ⟨hs, n, hlt, rfl, hb⟩ := List.find?_eq_some_iff_getElem.mp hf
      refine .inverted (n := n) count ?_ (by simpa using hs) ?_
      · rw [Span.at?_flatMap, List.getElem?_eq_getElem hlt]
      · intro m hm other ho
        rw [Span.at?_flatMap] at ho
        obtain ⟨_, rfl⟩ := List.getElem?_eq_some_iff.mp ho
        simpa using hb m hm
    · cases h
  · rename_i count
    cases h
    exact .arity count

end spans

end Bundle

namespace CurtainAxis.Fault

variable {axis : CurtainAxis} {size : Word} {ends : List Word} {e : BundleError}

theorem not_paired (h : Fault axis size ends e) : ¬Span.Paired size ends := by
  intro hp
  cases h with
  | arity count => exact count hp.count
  | inverted count here inverted => exact UInt64.not_lt.mpr (hp.ordered _ _ here) inverted

/-- There is only one first fault. -/
theorem unique {other : BundleError} (h : Fault axis size ends e)
    (h' : Fault axis size ends other) : e = other := by
  cases h with
  | arity count =>
    cases h' with
    | arity => rfl
    | inverted same => exact absurd same count
  | @inverted n span count here inverted before =>
    cases h' with
    | arity other => exact absurd count other
    | @inverted n' span' count here' inverted' before' =>
      have hle : ¬n < n' := fun hn => UInt64.not_lt.mpr (before' n hn span here) inverted
      have hge : ¬n' < n := fun hn => UInt64.not_lt.mpr (before n' hn span' here') inverted'
      obtain rfl : n = n' := by omega
      rw [here] at here'
      cases here'
      rfl

end CurtainAxis.Fault

namespace WireCurtain

variable {w : WireCurtain} {e : BundleError}

theorem Refused.not_paired (h : w.Refused e) :
    ¬(Span.Paired w.size w.major ∧ Span.Paired w.size w.minor) := by
  rintro ⟨major, minor⟩
  cases h with
  | major fault => exact fault.not_paired major
  | minor _ fault => exact fault.not_paired minor

theorem Refused.unique {other : BundleError} (h : w.Refused e) (h' : w.Refused other) :
    e = other := by
  cases h with
  | major fault =>
    cases h' with
    | major fault' => exact fault.unique fault'
    | minor paired => exact absurd paired fault.not_paired
  | minor paired fault =>
    cases h' with
    | major fault' => exact absurd paired fault'.not_paired
    | minor _ fault' => exact fault.unique fault'

theorem refused_of_error (hw : w.Writable) (h : Bundle.ofWireCurtain w = .error e) : w.Refused e := by
  unfold Bundle.ofWireCurtain at h
  split at h
  · rename_i hmajor
    cases h
    exact .major (Bundle.fault_of_spans hw.major hmajor)
  rename_i major hmajor
  obtain ⟨paired, -⟩ := Bundle.spans_eq_ok hw.major hmajor
  split at h
  · rename_i hminor
    cases h
    exact .minor paired (Bundle.fault_of_spans hw.minor hminor)
  · cases h

/-- What is read of a curtain has the runs that its two lists say together. -/
theorem runs_of_ok {bundle : Bundle} (hw : w.Writable) (h : Bundle.ofWireCurtain w = .ok bundle) :
    Span.Paired w.size w.major ∧ Span.Paired w.size w.minor ∧ ∃ runs,
      bundle = .curtain w.output runs w.values ∧ runs.length = w.size.toNat ∧
        ∀ n, runs[n]? = w.run? n := by
  unfold Bundle.ofWireCurtain at h
  split at h
  · cases h
  rename_i major hmajor
  split at h
  · cases h
  rename_i minor hminor
  cases h
  obtain ⟨pmajor, lmajor, gmajor⟩ := Bundle.spans_eq_ok hw.major hmajor
  obtain ⟨pminor, lminor, gminor⟩ := Bundle.spans_eq_ok hw.minor hminor
  refine ⟨pmajor, pminor, _, rfl, ?_, ?_⟩
  · rw [List.length_zipWith, lmajor, lminor, Nat.min_self]
  · intro n
    rw [List.getElem?_zipWith, gmajor, gminor, run?]
    cases Span.at? w.major n <;> cases Span.at? w.minor n <;> rfl

theorem ofWireCurtain_of_paired (hw : w.Writable) (major : Span.Paired w.size w.major)
    (minor : Span.Paired w.size w.minor) : ∃ bundle, Bundle.ofWireCurtain w = .ok bundle := by
  cases ho : Bundle.ofWireCurtain w with
  | ok bundle => exact ⟨bundle, rfl⟩
  | error e => exact absurd ⟨major, minor⟩ (refused_of_error hw ho).not_paired

theorem ofWireCurtain_of_refused (hw : w.Writable) (h : w.Refused e) :
    Bundle.ofWireCurtain w = .error e := by
  cases ho : Bundle.ofWireCurtain w with
  | ok bundle =>
    obtain ⟨major, minor, -⟩ := runs_of_ok hw ho
    exact absurd ⟨major, minor⟩ h.not_paired
  | error other => rw [(refused_of_error hw ho).unique h]

theorem decode_write (hw : w.Writable) (more : Bytes) :
    Bundle.decode .curtain (w.write ++ more) = Bundle.ofWireCurtain w := by
  simp only [Bundle.decode, Bundle.readCurtain_write hw]

/-- An array of five is no slice, whatever it holds. -/
theorem decode_slice_write (w : WireCurtain) (more : Bytes) :
    Bundle.decode .slice (w.write ++ more) = .error .malformed := by
  simp only [Bundle.decode, Bundle.readSlice, write, List.append_assoc]
  rw [Reader.tuple_other (by decide) (by decide)]

theorem readsBack (hw : w.Writable) : w.ReadsBack where
  accepted := by
    intro more
    rw [decode_write hw]
    constructor
    · rintro ⟨bundle, h⟩
      obtain ⟨major, minor, -⟩ := runs_of_ok hw h
      exact ⟨major, minor⟩
    · rintro ⟨major, minor⟩
      exact ofWireCurtain_of_paired hw major minor
  runs := by
    intro more bundle h
    rw [decode_write hw] at h
    obtain ⟨-, -, runs⟩ := runs_of_ok hw h
    exact runs
  refused := by
    intro more e
    rw [decode_write hw]
    exact ⟨refused_of_error hw, ofWireCurtain_of_refused hw⟩
  slice := decode_slice_write w

end WireCurtain

/-- An array of two is no curtain, whatever it holds. -/
theorem Bundle.decode_curtain_writeSlice (output : String) (tiles : List Tile) (more : Bytes) :
    decode .curtain (writeSlice output tiles ++ more) = .error .malformed := by
  simp only [decode, readCurtain, writeSlice, List.append_assoc]
  rw [Reader.tuple_other (by decide) (by decide)]

namespace SampledBundle

/-- A bundle that was written is read where none of its spans stops before it begins, and then as it
was, whatever comes behind it. For the other operation it is no bundle. -/
structure ReadsBack (b : SampledBundle) : Prop where
  accepted : ∀ more,
    (∃ bundle, Bundle.decode b.operation (b.write ++ more) = .ok bundle) ↔ b.Ordered
  same : ∀ more, Bundle.decode b.operation (b.write ++ more) = .ok b.toBundle ↔ b.Ordered
  other : ∀ operation, operation ≠ b.operation →
    ∀ more, Bundle.decode operation (b.write ++ more) = .error .malformed

theorem ordered_of_paired {output : String} {runs : List SampledRun} {size : Word}
    (major : Span.Paired size (wireCurtain output runs).major)
    (minor : Span.Paired size (wireCurtain output runs).minor) : Ordered (.curtain output runs) := by
  have ends (f : SampledRun → Span) : (runs.flatMap fun run => [(f run).first, (f run).stop]) =
      (runs.map f).flatMap fun s => [s.first, s.stop] := by rw [List.flatMap_map]
  rw [wireCurtain, ends fun run => run.traces] at major
  rw [wireCurtain, ends fun run => run.depths] at minor
  intro run hr
  exact ⟨major.of_flatMap _ (List.mem_map_of_mem hr), minor.of_flatMap _ (List.mem_map_of_mem hr)⟩

theorem ordered_of_decode {b : SampledBundle} {bundle : Bundle} {more : Bytes} (hb : b.Writable)
    (h : Bundle.decode b.operation (b.write ++ more) = .ok bundle) : b.Ordered := by
  cases hb with
  | slice => trivial
  | @curtain output runs wire =>
    rw [operation, write, WireCurtain.decode_write wire] at h
    obtain ⟨major, minor, -⟩ := WireCurtain.runs_of_ok wire h
    exact ordered_of_paired major minor

theorem readsBack {b : SampledBundle} (hb : b.Writable) : b.ReadsBack where
  accepted := by
    intro more
    constructor
    · rintro ⟨bundle, h⟩
      exact ordered_of_decode hb h
    · intro ho
      exact ⟨b.toBundle, decode_write hb ho more⟩
  same := fun more => ⟨ordered_of_decode hb, fun ho => decode_write hb ho more⟩
  other := by
    intro operation hne more
    cases b with
    | slice output tiles =>
      cases operation with
      | slice => exact absurd rfl hne
      | curtain => exact Bundle.decode_curtain_writeSlice output _ more
    | curtain output runs =>
      cases operation with
      | slice => exact (wireCurtain output runs).decode_slice_write more
      | curtain => exact absurd rfl hne

end SampledBundle

namespace Bundle

/-- Reading undoes writing. Tiles may have any payload, and the lists of a curtain may be anything
that can be written. -/
theorem decode_undoes_write :
    (∀ output tiles, Text.Writable output → tiles.length < UInt32.size →
      (∀ tile ∈ tiles, tile.values.length < UInt32.size) → ∀ more,
        decode .slice (writeSlice output tiles ++ more) = .ok (.slice output tiles) ∧
          decode .curtain (writeSlice output tiles ++ more) = .error .malformed) ∧
      (∀ w : WireCurtain, w.Writable → w.ReadsBack) ∧
      ∀ b : SampledBundle, b.Writable → b.ReadsBack := by
  refine ⟨?_, fun _ => WireCurtain.readsBack, fun _ => SampledBundle.readsBack⟩
  intro output tiles name count payloads more
  refine ⟨?_, decode_curtain_writeSlice output tiles more⟩
  simp only [decode, readSlice_write name count payloads]

/-- Two runs. The depths of the second stop before they begin. -/
def invertedDepths : WireCurtain where
  output := "a"
  size := 2
  major := [0, 1, 1, 2]
  minor := [0, 2, 5, 1]
  values := [0, 0, 0]

/-- Runs that cover nothing, one of them far out, and one trace of two samples. -/
def emptyRuns : SampledBundle :=
  .curtain "a" [⟨⟨⟨Word.last, Word.last⟩, ⟨0, 2⟩⟩, []⟩, ⟨⟨⟨0, 1⟩, ⟨0, 2⟩⟩, [5, 6]⟩]

theorem decode_undoes_write_invertedDepths : invertedDepths.Writable ∧
    decode .curtain (invertedDepths.write ++ [0xC1]) = .error (.inverted ⟨5, 1⟩) ∧
      emptyRuns.Writable ∧ decode .curtain (emptyRuns.write ++ [0xC1]) = .ok emptyRuns.toBundle ∧
        decode .slice (writeSlice "a" [⟨⟨Word.last, 0, 1, 2, 3⟩, [7]⟩] ++ [0xC1]) =
          .ok (.slice "a" [⟨⟨Word.last, 0, 1, 2, 3⟩, [7]⟩]) := by
  obtain ⟨slices, curtains, bundles⟩ := decode_undoes_write
  have hw : invertedDepths.Writable := ⟨by decide, by decide, by decide, by decide⟩
  have hb : emptyRuns.Writable := .curtain ⟨by decide, by decide, by decide, by decide⟩
  have traces : Span.Paired 2 invertedDepths.major :=
    @Span.paired_flatMap 2 [⟨0, 1⟩, ⟨1, 2⟩] rfl (by decide)
  have depths : CurtainAxis.Fault .minor 2 invertedDepths.minor (.inverted ⟨5, 1⟩) := by
    refine @CurtainAxis.Fault.inverted _ _ _ 1 _ rfl rfl (by decide) ?_
    intro m hm other ho
    obtain rfl : m = 0 := by omega
    cases ho
    decide
  refine ⟨hw, ((curtains _ hw).refused _ _).mpr (.minor traces depths), hb, ?_, ?_⟩
  · exact ((bundles _ hb).same _).mpr (by simp [emptyRuns, SampledBundle.Ordered])
  · exact (slices "a" _ (by decide) (by decide) (by decide) _).1

end Bundle

end SeismicStream
