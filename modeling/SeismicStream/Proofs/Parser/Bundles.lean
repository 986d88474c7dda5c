import SeismicStream.Proofs.Outputs
import SeismicStream.Proofs.Parser.Phases

namespace SeismicStream

theorem Registry.handles_eq (r : Registry) : r.handles = (r.buffers.map Buffer.name).zipIdx := by
  rw [List.zipIdx_map]
  rfl

namespace ResponseParser
open Msgpack

variable {p : ResponseParser} {outputs : Registry}

/-- Every output is bound to its slot, and nothing else is bound. -/
structure Binds (p : ResponseParser) (outputs : Registry) : Prop where
  bindings : p.bindings = outputs.handles.reverse
  names : (outputs.buffers.map Buffer.name).Nodup

theorem binds_bound (hp : p.bindings = []) (hn : (outputs.buffers.map Buffer.name).Nodup) :
    (p.bound outputs).Binds outputs :=
  ⟨by rw [bound, hp, List.append_nil], hn⟩

theorem Binds.congr (h : p.Binds outputs) {after : Registry}
    (hn : after.buffers.map Buffer.name = outputs.buffers.map Buffer.name) : p.Binds after :=
  ⟨by rw [h.bindings, Registry.handles_eq, Registry.handles_eq, hn], hn ▸ h.names⟩

theorem Binds.drop (h : p.Binds outputs) (rest : Bytes) :
    Binds { p with buffered := rest } outputs :=
  ⟨h.bindings, h.names⟩

theorem Binds.lookup (h : p.Binds outputs) {before after : List Buffer} {b : Buffer}
    (hb : outputs.buffers = before ++ b :: after) :
    p.bindings.lookup b.name = some before.length := by
  have hn := h.names
  rw [h.bindings, Registry.handles_eq, hb]
  rw [hb] at hn
  simp only [List.map_append, List.map_cons] at hn ⊢
  rw [lookup_reverse_zipIdx hn, List.length_map]

theorem Binds.lookup_none (h : p.Binds outputs) {name : String}
    (hn : ∀ b ∈ outputs.buffers, name ≠ b.name) : p.bindings.lookup name = none := by
  rw [h.bindings, Registry.handles_eq, List.lookup_eq_none_iff]
  intro x hx
  obtain ⟨other, slot⟩ := x
  obtain ⟨b, hb, rfl⟩ := List.mem_map.mp (List.fst_mem_of_mem_zipIdx (List.mem_reverse.mp hx))
  exact bne_iff_ne.mpr (hn b hb)

/-- A bundle is routed when it can be read and fits where it is for. -/
theorem route_ok_iff (hb : p.Binds outputs) {operation : Operation} {wire : WireHeader}
    (ho : p.operation = some operation) (hw : p.header = some wire) {bytes : Bytes}
    {after : Registry} : p.route bytes outputs = (.ok (), after) ↔
      ∃ bundle, Bundle.decode operation bytes = .ok bundle ∧
        outputs.buffers.mapM (Buffer.take? wire.index [bundle]) = some after.buffers := by
  cases hd : Bundle.decode operation bytes with
  | error e => simp [route, ho, hd]
  | ok bundle =>
    simp only [Except.ok.injEq, exists_eq_left']
    obtain ⟨after⟩ := after
    -- A bundle for a name that no output has is read and dropped.
    by_cases hm : ∃ b ∈ outputs.buffers, bundle.output = b.name
    · obtain ⟨b, hmem, hn⟩ := hm
      obtain ⟨front, back, hs⟩ := List.append_of_mem hmem
      have hl := hn ▸ hb.lookup hs
      have hr := hb.names
      rw [hs] at hr
      rw [hs, Buffer.mapM_take?_own hn hr, Buffer.take?_own hn]
      simp only [route, ho, hw, hd, hl, Registry.update_append hs, Option.map_some,
        Option.getD_some]
      obtain ⟨outcome, samples⟩ := bundle.scatter wire.index b.samples
      cases outcome with
      | error e => simp
      | ok count => simp [Buffer.take?_nil]
    · have ha : ∀ b ∈ outputs.buffers, bundle.output ≠ b.name := fun b hmem he =>
        hm ⟨b, hmem, he⟩
      have hr : p.route bytes outputs = (.ok (), outputs) := by
        simp only [route, ho, hd, hb.lookup_none ha]
      obtain ⟨buffers⟩ := outputs
      rw [hr, Buffer.mapM_take?_other ha]
      simp

theorem fills_nil_iff {operation : Operation} {index : List Int64} {before after : List Buffer} :
    Fills operation index [] before after ↔ before = after := by
  constructor
  · intro h
    obtain ⟨-, bundles, hd, ht⟩ := h
    rw [List.mapM_nil] at hd
    cases hd
    rw [Buffer.mapM_take?_nil] at ht
    exact Option.some.inj ht
  · intro h
    subst h
    exact ⟨by simp, [], rfl, Buffer.mapM_take?_nil _⟩

theorem fills_cons_iff (hb : p.Binds outputs) {operation : Operation} {wire : WireHeader}
    (ho : p.operation = some operation) (hw : p.header = some wire) {frame : Bytes}
    {frames : List Bytes} {after : List Buffer} :
    Fills operation wire.index (frame :: frames) outputs.buffers after ↔
      IsFrame frame ∧ ∃ mid, p.route frame outputs = (.ok (), mid) ∧
        mid.buffers.map Buffer.name = outputs.buffers.map Buffer.name ∧
        Fills operation wire.index frames mid.buffers after := by
  constructor
  · intro h
    obtain ⟨hall, bundles, hmap, hfill⟩ := h
    obtain ⟨bundle, others, hd, hds, rfl⟩ := mapM_cons_eq_ok.mp hmap
    obtain ⟨mid, ht, hts⟩ := Buffer.mapM_take?_cons.mp hfill
    obtain ⟨hv, hvs⟩ := List.forall_mem_cons.mp hall
    exact ⟨hv, ⟨mid⟩, (route_ok_iff hb ho hw).mpr ⟨bundle, hd, ht⟩, Buffer.mapM_take?_name ht,
      hvs, others, hds, hts⟩
  · intro h
    obtain ⟨hv, mid, hr, -, hvs, others, hds, hts⟩ := h
    obtain ⟨bundle, hd, ht⟩ := (route_ok_iff hb ho hw).mp hr
    exact ⟨List.forall_mem_cons.mpr ⟨hv, hvs⟩, bundle :: others,
      mapM_cons_eq_ok.mpr ⟨_, _, hd, hds, rfl⟩, Buffer.mapM_take?_cons.mpr ⟨_, ht, hts⟩⟩

/-- With a bundle to come, the parser finishes when the bundle is there, can be routed, and the
parser finishes after it. -/
theorem takeBundles_succ_finished_iff {n : Nat} {after : List Buffer} :
    (takeBundles (n + 1) p outputs).outcome = .ok .finished ∧
        (takeBundles (n + 1) p outputs).outputs.buffers = after ↔
      ∃ front rest mid, p.buffered = front ++ rest ∧ IsFrame front ∧
        p.route front outputs = (.ok (), mid) ∧
        (takeBundles n { p with buffered := rest } mid).outcome = .ok .finished ∧
        (takeBundles n { p with buffered := rest } mid).outputs.buffers = after := by
  constructor
  · intro h
    obtain ⟨hf, hout⟩ := h
    cases he : extent p.buffered with
    | error e => simp [takeBundles, he] at hf
    | ok answer =>
      cases answer with
      | none => simp [takeBundles, he] at hf
      | some size =>
        obtain ⟨front, rest, hp, hv, -⟩ := extent_eq_some_iff.mp he
        rw [takeBundles_frame hp hv] at hf hout
        cases hr : p.route front outputs with
        | mk answer mid =>
          cases answer with
          | error e => simp [hr] at hf
          | ok u =>
            rw [hr] at hf hout
            exact ⟨front, rest, mid, hp, hv, hr, hf, hout⟩
  · intro h
    obtain ⟨front, rest, mid, hp, hv, hr, hf, hout⟩ := h
    rw [takeBundles_frame hp hv, hr]
    exact ⟨hf, hout⟩

/-- Bundles are finished when all of them are there, can be read and fit where they are for. -/
theorem takeBundles_finished_iff (hb : p.Binds outputs) {operation : Operation} {wire : WireHeader}
    (ho : p.operation = some operation) (hw : p.header = some wire) {n : Nat}
    {after : List Buffer} :
    (takeBundles n p outputs).outcome = .ok .finished ∧
        (takeBundles n p outputs).outputs.buffers = after ↔
      ∃ (frames : List Bytes) (tail : Bytes), p.buffered = frames.flatten ++ tail ∧
        frames.length = n ∧ Fills operation wire.index frames outputs.buffers after := by
  induction n generalizing p outputs with
  | zero =>
    constructor
    · intro h
      obtain ⟨-, rfl⟩ := h
      exact ⟨[], p.buffered, rfl, rfl, fills_nil_iff.mpr rfl⟩
    · intro h
      obtain ⟨frames, tail, -, hl, hf⟩ := h
      obtain rfl := List.length_eq_zero_iff.mp hl
      exact ⟨rfl, fills_nil_iff.mp hf⟩
  | succ n ih =>
    rw [takeBundles_succ_finished_iff]
    constructor
    · intro h
      obtain ⟨front, rest, mid, hp, hv, hr, hf⟩ := h
      obtain ⟨bundle, -, ht⟩ := (route_ok_iff hb ho hw).mp hr
      have hn := Buffer.mapM_take?_name ht
      obtain ⟨frames, tail, hbuf, hl, hfs⟩ := (ih ((hb.congr hn).drop rest) ho hw).mp hf
      change rest = _ at hbuf
      refine ⟨front :: frames, tail, ?_, ?_, (fills_cons_iff hb ho hw).mpr ⟨hv, mid, hr, hn, hfs⟩⟩
      · rw [hp, hbuf, List.flatten_cons, List.append_assoc]
      · rw [List.length_cons, hl]
    · intro h
      obtain ⟨frames, tail, hbuf, hl, hf⟩ := h
      cases frames with
      | nil => cases hl
      | cons front frames =>
        obtain ⟨hv, mid, hr, hn, hfs⟩ := (fills_cons_iff hb ho hw).mp hf
        rw [List.flatten_cons, List.append_assoc] at hbuf
        have hrest := (hb.congr hn).drop (frames.flatten ++ tail)
        exact ⟨front, frames.flatten ++ tail, mid, hbuf, hv, hr,
          (ih hrest ho hw).mpr ⟨frames, tail, rfl, Nat.succ.inj hl, hfs⟩⟩

theorem takeBundleList_finished_iff (hb : p.Binds outputs) {operation : Operation}
    {wire : WireHeader} (ho : p.operation = some operation) (hw : p.header = some wire)
    {after : List Buffer} :
    (p.takeBundleList outputs).outcome = .ok .finished ∧
        (p.takeBundleList outputs).outputs.buffers = after ↔
      ∃ (head : Bytes) (frames : List Bytes) (tail : Bytes),
        p.buffered = head ++ (frames.flatten ++ tail) ∧ IsArrayHead frames.length head ∧
        frames.length = wire.bundleCount.toNat ∧
        Fills operation wire.index frames outputs.buffers after := by
  have hc : p.declared = wire.bundleCount.toNat := by simp [declared, hw]
  constructor
  · intro h
    obtain ⟨hf, hout⟩ := h
    cases ha : arrayHead p.buffered with
    | error e => simp [takeBundleList, ha] at hf
    | ok answer =>
      cases answer with
      | none => simp [takeBundleList, ha] at hf
      | some found =>
        obtain ⟨head, rest, hp, hh, -⟩ := arrayHead_sound ha
        rw [takeBundleList_head hp hh] at hf hout
        split at hf
        · cases hf
        · rename_i hn
          rw [if_neg hn] at hout
          obtain ⟨frames, tail, hbuf, hl, hfs⟩ :=
            (takeBundles_finished_iff (hb.drop rest) ho hw).mp ⟨hf, hout⟩
          change rest = _ at hbuf
          have hd : found.1 = wire.bundleCount.toNat := hc ▸ Decidable.of_not_not hn
          exact ⟨head, frames, tail, hbuf ▸ hp, hl ▸ hh, hl.trans hd, hfs⟩
  · intro h
    obtain ⟨head, frames, tail, hp, hh, hl, hfs⟩ := h
    rw [takeBundleList_head hp hh, if_neg (not_not_intro (hl.trans hc.symm))]
    exact (takeBundles_finished_iff (hb.drop (frames.flatten ++ tail)) ho hw).mpr
      ⟨frames, tail, rfl, rfl, hfs⟩

end ResponseParser

end SeismicStream
