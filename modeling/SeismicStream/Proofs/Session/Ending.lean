import SeismicStream.Proofs.Session.Ready

namespace SeismicStream

namespace ResponseParts
open Msgpack

variable {limits : Limits} {x : ResponseParts} {r : DecodeResult}

/-- A response is one value. -/
theorem Describe.isValue (h : x.Describe limits r) : IsValue x.bytes := by
  have hl := h.listHead.isValue (AreValues.flatten fun v hv => (h.filled.whole v hv).value)
  have he := h.head.isValue (h.header.append hl)
  simpa only [bytes, List.append_assoc] using he

/-- The header of a stream ends in one place only. -/
theorem Describe.header_unique (h : x.Describe limits r) {head front rest tail : Bytes}
    (hh : IsArrayHead 2 head) (hf : IsValue front)
    (he : x.bytes ++ tail = head ++ (front ++ rest)) :
    x.head = head ∧ x.header = front := by
  have he' : x.head ++ (x.header ++ (x.listHead ++ (x.bundles.flatten ++ tail))) =
      head ++ (front ++ rest) := by rw [← he]; simp [bytes]
  obtain ⟨rfl, hr, -⟩ := h.head.isToken.unique hh.isToken he'
  obtain ⟨rfl, -⟩ := h.header.unique hf hr
  exact ⟨rfl, rfl⟩

/-- Bytes that hold a header and lack some of the response lead into its payload. -/
theorem Describe.stateAt_payload (h : x.Describe limits r) {front more head value tail : Bytes}
    (he : x.bytes = front ++ more) (hf : front = head ++ (value ++ tail))
    (hh : IsArrayHead 2 head) (hv : IsValue value) :
    x.stateAt front.length = .awaitingPayload := by
  have hz : x.bytes ++ [] = head ++ (value ++ (tail ++ more)) := by
    rw [List.append_nil, he, hf, List.append_assoc, List.append_assoc]
  obtain ⟨rfl, rfl⟩ := h.header_unique hh hv hz
  have hpos := hh.length_pos
  have hl : front.length = x.head.length + (x.header.length + tail.length) := by
    rw [hf, List.length_append, List.length_append]
  rw [stateAt, if_neg (by omega), if_neg (by omega)]

/-- Bytes that reach the end of the header hold it. -/
theorem split_of_le {front more : Bytes} (he : x.bytes = front ++ more)
    (hl : x.head.length + x.header.length ≤ front.length) :
    ∃ tail, front = x.head ++ (x.header ++ tail) := by
  have hx : x.head ++ x.header <+: x.bytes := by
    simp [bytes, List.append_assoc]
  rw [← List.length_append] at hl
  obtain ⟨tail, hf⟩ := List.prefix_of_prefix_length_le hx ⟨more, he.symm⟩ hl
  exact ⟨tail, by rw [← hf, List.append_assoc]⟩

end ResponseParts

namespace Session
open ResponseParser Msgpack

variable {limits : Limits} {x : ResponseParts} {r : DecodeResult}

/-- A session that waits behind the header has found it, and one that waits before has not. -/
theorem seek_stage {p q : ResponseParser} {stage : Stage}
    (h : seek limits p = (.waiting stage, q)) :
    (p.advance {}).outcome = .ok .headerReady ∧ stage.state = .awaitingPayload ∨
      (p.advance {}).outcome ≠ .ok .headerReady ∧ stage.state = .awaitingHeader := by
  rw [seek_eq] at h
  split at h
  · cases h
  · rename_i ho
    cases h
    exact .inr ⟨by rw [ho]; nofun, rfl⟩
  · cases h
  · rename_i ho
    refine .inl ⟨ho, ?_⟩
    split at h
    · cases h
    · rw [pour_eq] at h
      split at h
      · cases h
      · cases h
      · cases h
        rfl

/-- Bytes that lack some of a response leave the session waiting. -/
theorem feed_front_pending (hx : x.Describe limits r) {front more : Bytes}
    (he : x.bytes = front ++ more) (hm : more ≠ []) :
    ((fresh limits).feed front).1 = .ok .pending := by
  have hr : ((fresh limits).feed (front ++ more)).1 = .ok (.ready r) :=
    (fresh_ready_iff.trans turn_complete_iff).mpr ⟨x, [], by rw [List.append_nil, he], hx⟩
  apply Decidable.byContradiction
  intro hp
  -- An answer to the front would be the answer to all of it, and then its value would end there.
  rcases (fresh_waits limits).feed_settled hp more with ha | ⟨-, fault, fault', -, ha⟩
  · obtain ⟨y, tail, hy, hd⟩ := (fresh_ready_iff.trans turn_complete_iff).mp (ha.trans hr)
    have hz : x.bytes ++ [] = y.bytes ++ (tail ++ more) := by
      rw [List.append_nil, he, hy, List.append_assoc]
    obtain ⟨-, hnil⟩ := hx.isValue.unique hd.isValue hz
    exact hm (List.append_eq_nil_iff.mp hnil.symm).2
  · rw [hr] at ha
    cases ha

/-- How far such a session got depends on the number of bytes only. -/
theorem feed_front_stage (hx : x.Describe limits r) {front more : Bytes}
    (he : x.bytes = front ++ more) (hm : more ≠ []) :
    ∃ stage, ((fresh limits).feed front).2.Waits stage front ∧
      stage.state = x.stateAt front.length := by
  have hp := feed_front_pending hx he hm
  obtain ⟨⟨stage, hw⟩, -, -⟩ := (fresh_waits limits).feed_pending hp
  refine ⟨stage, hw, ?_⟩
  cases front with
  | nil =>
    obtain ⟨rfl, -⟩ := hw.stands.of_nil
    rfl
  | cons b rest =>
    obtain ⟨stage', hl, ht⟩ := (fresh_waits limits).turn_pending hp
    obtain rfl : stage = stage' := Phase.live.inj (hw.live.symm.trans hl)
    have hs : ((ofLimits limits).supply (b :: rest)).Seeking (b :: rest) := .inl ⟨rfl, rfl⟩
    obtain ⟨hv, -⟩ := advance_sought hs {}
    rcases seek_stage ht with ⟨ho, hstate⟩ | ⟨ho, hstate⟩
    · change (((ofLimits limits).supply (b :: rest)).advance {}).outcome = _ at ho
      rw [ho] at hv
      generalize (((ofLimits limits).supply (b :: rest)).advance {}).parser = q at hv
      cases hv with
      | ready split envelope opens =>
        rw [hstate, hx.stateAt_payload he split envelope opens.frame.value]
    · have hlen : (b :: rest).length < x.head.length + x.header.length := by
        apply Nat.lt_of_not_le
        intro hle
        obtain ⟨tail, hf⟩ := ResponseParts.split_of_le he hle
        obtain ⟨wire, -, ha⟩ := advance_describe (p := (ofLimits limits).supply (b :: rest)) hx rfl
          rfl hf {}
        exact ho (congrArg Advanced.outcome ha)
      rw [hstate, ResponseParts.stateAt, if_neg (by simp), if_pos hlen]

/-- A response is complete with its last byte: not before, and whatever bytes follow. It is one value,
whose extent is found when a word can say it. -/
theorem ready_at_end {limits : Limits} {bytes : Bytes} {r : DecodeResult}
    (h : ((fresh limits).feed bytes).1 = .ok (.ready r)) :
    ∃ x : ResponseParts, x.Describe limits r ∧ ∃ k ≤ bytes.length, x.bytes = bytes.take k ∧
      (k < UInt64.size → extent bytes = .ok (some k)) ∧
      (∀ front, front <+: bytes → front.length < k →
        ((fresh limits).feed front).1 = .ok .pending ∧
        ((fresh limits).feed front).2.result? = none ∧
        ((fresh limits).feed front).2.close.1 =
          .error (.truncated (x.stateAt front.length) front.length)) ∧
      ∀ tail, ((fresh limits).feed (bytes.take k ++ tail)).1 = .ok (.ready r) := by
  obtain ⟨x, rest, rfl, hx⟩ := (fresh_ready_iff.trans turn_complete_iff).mp h
  refine ⟨x, hx, x.bytes.length, by simp, by simp, ?_, ?_, ?_⟩
  · intro hk
    exact extent_eq_some_iff.mpr ⟨x.bytes, rest, rfl, ⟨hx.isValue, hk⟩, rfl⟩
  · intro front hf hl
    obtain ⟨more, he⟩ := List.prefix_of_prefix_length_le hf (List.prefix_append x.bytes rest)
      (Nat.le_of_lt hl)
    have hm : more ≠ [] := by
      intro hm
      rw [← he, hm, List.append_nil] at hl
      exact Nat.lt_irrefl _ hl
    obtain ⟨stage, hw, hs⟩ := feed_front_stage hx he.symm hm
    refine ⟨feed_front_pending hx he.symm hm, ?_, by rw [hw.close_eq, hs]⟩
    simp only [result?, hw.live]
  · intro tail
    rw [List.take_left]
    exact (fresh_ready_iff.trans turn_complete_iff).mpr ⟨x, tail, rfl, hx⟩

/-- A response with one output of two samples, and a bundle with the second of them. -/
def oneBundle : Bytes :=
  [0x92, 0x98, 0xA0, 0x01, 0x01, 0x00, 0x90, 0x90, 0x92, 0x01, 0x02, 0x91, 0xA1, 0x61, 0x91, 0x92,
    0xA1, 0x61, 0x91, 0x96, 0x01, 0x01, 0x01, 0x00, 0x00, 0xC4, 0x04, 0x00, 0x00, 0x80, 0x3F]

def oneBundleResult : DecodeResult where
  header :=
    { pid := "", operation := .slice, bundleCount := 1, ndims := 0, index := []
      attributes := [⟨"a", [2], []⟩], names_nodup := by decide }
  buffers := [⟨"a", [2], #[0, 0x3F800000]⟩]

theorem ready_at_end_oneBundle :
    ((fresh {}).feed oneBundle).1 = .ok (.ready oneBundleResult) ∧
      ∃ x : ResponseParts, x.Describe {} oneBundleResult ∧ ∃ k ≤ oneBundle.length,
        x.bytes = oneBundle.take k ∧ extent oneBundle = .ok (some k) ∧
          (∀ front, front <+: oneBundle → front.length < k →
            ((fresh {}).feed front).1 = .ok .pending ∧
              ((fresh {}).feed front).2.close.1 =
                .error (.truncated (x.stateAt front.length) front.length)) ∧
          ∀ tail, ((fresh {}).feed (oneBundle.take k ++ tail)).1 = .ok (.ready oneBundleResult) := by
  have h : ((fresh {}).feed oneBundle).1 = .ok (.ready oneBundleResult) := by decide +kernel
  obtain ⟨x, hx, k, hk, hb, he, hf, ht⟩ := ready_at_end h
  have hword : k < UInt64.size := Nat.lt_of_le_of_lt hk (by decide)
  refine ⟨h, x, hx, k, hk, hb, he hword, ?_, ht⟩
  intro front hp hl
  obtain ⟨pending, -, truncated⟩ := hf front hp hl
  exact ⟨pending, truncated⟩

end Session

end SeismicStream
