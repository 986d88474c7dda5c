import SeismicStream.Proofs.Bundle.Carried
import SeismicStream.Proofs.Session.Ready

namespace SeismicStream

theorem occupied_eq (buffers : List Buffer) : occupied buffers = total Buffer.occupied buffers :=
  rfl

theorem Attribute.occupied_zeros (a : Attribute) : a.zeros.occupied = 0 := by
  rw [Buffer.occupied, List.countP_eq_zero]
  intro s hs
  obtain rfl : s = 0 := List.eq_of_mem_replicate (Array.toList_replicate ▸ hs)
  simp

theorem occupied_zeros (attributes : List Attribute) :
    occupied (attributes.map Attribute.zeros) = 0 := by
  rw [occupied_eq]
  apply total_eq_zero
  intro b hb
  obtain ⟨a, -, rfl⟩ := List.mem_map.mp hb
  exact a.occupied_zeros

section bundles

variable {index : List Int64} {bundle : Bundle} {buffers after : List Buffer}

theorem Buffer.occupied_of_take? {b c : Buffer} (hn : bundle.output = b.name)
    (h : b.take? index [bundle] = some c) : c.occupied ≤ b.occupied + bundle.carried := by
  rw [take?_own hn] at h
  have hp := (bundle.scatter_spends index b.samples).painted.countP_le
  split at h
  · cases h
  · rename_i count samples hs
    rw [hs] at hp
    cases h
    exact hp

/-- Names differ, so no more than one output takes the samples of a bundle. -/
theorem occupied_of_bundle (hn : (buffers.map Buffer.name).Nodup)
    (h : buffers.mapM (Buffer.take? index [bundle]) = some after) :
    occupied after ≤ occupied buffers + bundle.carried := by
  by_cases hb : ∃ b ∈ buffers, bundle.output = b.name
  · obtain ⟨b, hm, hb⟩ := hb
    obtain ⟨front, back, rfl⟩ := List.append_of_mem hm
    rw [Buffer.mapM_take?_own hb hn] at h
    obtain ⟨c, hc, rfl⟩ := Option.map_eq_some_iff.mp h
    have := Buffer.occupied_of_take? hb hc
    simp only [occupied_eq, total_append, total_cons]
    omega
  · have ho : ∀ b ∈ buffers, bundle.output ≠ b.name := by
      intro b hm he
      exact hb ⟨b, hm, he⟩
    rw [Buffer.mapM_take?_other ho] at h
    cases h
    exact Nat.le_add_right _ _

theorem occupied_of_bundles {bundles : List Bundle} (hn : (buffers.map Buffer.name).Nodup)
    (h : buffers.mapM (Buffer.take? index bundles) = some after) :
    occupied after ≤ occupied buffers + total Bundle.carried bundles := by
  induction bundles generalizing buffers with
  | nil =>
    rw [Buffer.mapM_take?_nil] at h
    cases h
    exact Nat.le_refl _
  | cons bundle rest ih =>
    obtain ⟨mid, hm, hr⟩ := Buffer.mapM_take?_cons.mp h
    have hfirst := occupied_of_bundle hn hm
    have hrest := ih (Buffer.mapM_take?_name hm ▸ hn) hr
    rw [total_cons]
    omega

end bundles

theorem total_carried {operation : Operation} {frames : List Bytes} {bundles : List Bundle}
    (h : frames.mapM (Bundle.decode operation) = .ok bundles) :
    4 * total Bundle.carried bundles ≤ frames.flatten.length := by
  induction frames generalizing bundles with
  | nil =>
    cases h
    exact Nat.le_refl _
  | cons frame rest ih =>
    obtain ⟨bundle, others, hb, ho, rfl⟩ := mapM_cons_eq_ok.mp h
    have hfirst := Bundle.decode_carried hb
    have hrest := ih ho
    rw [total_cons, List.flatten_cons, List.length_append]
    omega

theorem IsResponse.occupied_le {limits : Limits} {bytes : Bytes} {r : DecodeResult}
    (h : IsResponse limits bytes r) : 4 * occupied r.buffers ≤ bytes.length := by
  obtain ⟨x, tail, rfl, hx⟩ := h
  obtain ⟨outputs, ha⟩ := hx.allocated
  obtain ⟨bundles, hd, ht⟩ := hx.filled.fit
  have hn := Registry.nodup_allocate ha
  rw [Registry.allocate_ok ha] at hn
  have hle := occupied_of_bundles hn ht
  rw [occupied_zeros, Nat.zero_add] at hle
  have hc := total_carried hd
  simp only [ResponseParts.bytes, List.length_append]
  omega

/-- Nothing is written that was not sent. A bundle changes no more samples than its bytes hold, and
counts no more, also when it fails; what a session leaves in its outputs it was sent. -/
theorem no_amplification :
    (∀ (operation : Operation) (bytes : Bytes) (bundle : Bundle),
      Bundle.decode operation bytes = .ok bundle → ∀ (index : List Int64) (target : Array Sample),
        4 * (Sample.changed target (bundle.scatter index target).target).length ≤ bytes.length ∧
        ∀ count, (bundle.scatter index target).outcome = .ok count → 4 * count ≤ bytes.length) ∧
    ∀ (limits : Limits) (inputs : List (Option Bytes)) (r : DecodeResult),
      ((Session.fresh limits).after inputs).result? = some r →
        4 * occupied r.buffers ≤ ((Session.fresh limits).heard inputs).flatten.length := by
  constructor
  · intro operation bytes bundle h index target
    have hcarried := Bundle.decode_carried h
    have hspends := bundle.scatter_spends index target
    constructor
    · exact Nat.le_trans (Nat.mul_le_mul_left 4 hspends.painted.changed_le) hcarried
    · intro count hc
      exact Nat.le_trans (Nat.mul_le_mul_left 4 (hspends.counted count hc)) hcarried
  · intro limits inputs r hr
    exact ((Session.fresh_waits limits).isResponse (fun _ => rfl) hr).occupied_le

/-- A bundle with one tile, which puts the first of its two samples twice. -/
def rereading : Bytes :=
  [0x92, 0xA1, 0x61, 0x91, 0x96, 0x02, 0x01, 0x00, 0x01, 0x00, 0xC4, 0x08] ++ Sample.payload [5, 6]

def rereadingTile : Tile :=
  ⟨⟨2, 1, 0, 1, 0⟩, Sample.payload [5, 6]⟩

/-- A response with that bundle for an output of three samples. -/
def rereadingStream : Bytes :=
  [0x92, 0x98, 0xA0, 0x01, 0x01, 0x00, 0x90, 0x90, 0x92, 0x01, 0x03, 0x91, 0xA1, 0x61, 0x91] ++
    rereading

theorem no_amplification_rereading :
    (Bundle.decode .slice rereading = .ok (.slice "a" [rereadingTile]) ∧
      ((Bundle.slice "a" [rereadingTile]).scatter [] #[0, 0, 0]).target = #[5, 5, 0] ∧
      4 * (Sample.changed #[0, 0, 0] #[5, 5, 0]).length ≤ rereading.length) ∧
    ∃ r, ((Session.fresh {}).after [some rereadingStream]).result? = some r ∧
      r.buffers = [⟨"a", [3], #[5, 5, 0]⟩] ∧ 4 * occupied r.buffers ≤ rereadingStream.length := by
  constructor
  · have hd : Bundle.decode .slice rereading = .ok (.slice "a" [rereadingTile]) := by
      decide +kernel
    have ht : ((Bundle.slice "a" [rereadingTile]).scatter [] #[0, 0, 0]).target = #[5, 5, 0] := by
      decide +kernel
    exact ⟨hd, ht, ht ▸ (no_amplification.1 _ _ _ hd [] #[0, 0, 0]).1⟩
  · have hr : (((Session.fresh {}).after [some rereadingStream]).result?.map
        DecodeResult.buffers) = some [⟨"a", [3], #[5, 5, 0]⟩] := by decide +kernel
    obtain ⟨r, hr, hb⟩ := Option.map_eq_some_iff.mp hr
    exact ⟨r, hr, hb, no_amplification.2 {} [some rereadingStream] r hr⟩

end SeismicStream
