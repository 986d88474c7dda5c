import SeismicStream.Proofs.Header.Basic
import SeismicStream.Proofs.Parser.Bundles
import SeismicStream.Proofs.Session.Course

namespace SeismicStream

theorem Turn.answer_ready_iff {t : Turn} {r : DecodeResult} :
    t.answer = .ok (.ready r) ↔ t = .complete r := by
  cases t <;> simp [Turn.answer]

namespace ResponseParser
open Msgpack

variable {p : ResponseParser}

/-- The header of a response is found, whatever comes behind it. -/
theorem advance_describe {limits : Limits} {x : ResponseParts} {r : DecodeResult}
    (hx : x.Describe limits r) (hs : p.step = .envelope)
    (hl : p.maxHeaderBytes = limits.maxHeaderBytes) {rest : Bytes}
    (hb : p.buffered = x.head ++ (x.header ++ rest)) (outputs : Registry) :
    ∃ wire, Header.ofWire wire = .ok r.header ∧
      p.advance outputs = ⟨.ok .headerReady, p.opened wire r.header.operation rest, outputs⟩ := by
  obtain ⟨wire, hw, hwire⟩ := hx.read
  obtain ⟨hop, -⟩ := Header.ofWire_ok hwire
  have hf : IsFrame x.header :=
    ⟨hx.header, Nat.lt_of_le_of_lt hx.short limits.maxHeaderBytes.toNat_lt⟩
  exact ⟨wire, hwire, advance_opens hs hb hx.head ⟨hf, hl ▸ hx.short, hw, hop⟩ outputs⟩

end ResponseParser

namespace Session
open ResponseParser Msgpack

theorem pour_complete_iff {header : Header} {outputs : Registry} {p : ResponseParser}
    {r : DecodeResult} : (pour header outputs p).1 = .complete r ↔
      (p.advance outputs).outcome = .ok .finished ∧
        r = ⟨header, (p.advance outputs).outputs.buffers⟩ := by
  rw [pour_eq]
  cases (p.advance outputs).outcome with
  | error e => simp
  | ok progress => cases progress <;> simp [eq_comm]

/-- A parser that has bound the outputs completes when its bundles are all there and fit. -/
theorem pour_opened {limits : Limits} {header : Header} {outputs : Registry} {p : ResponseParser}
    {wire : WireHeader} {rest : Bytes} {r : DecodeResult} (hp : p.bindings = [])
    (hw : Header.ofWire wire = .ok header) (ha : Registry.allocate header limits = .ok outputs) :
    (pour header outputs ((p.opened wire header.operation rest).bound outputs)).1 = .complete r ↔
      r.header = header ∧ ∃ (head : Bytes) (frames : List Bytes) (tail : Bytes),
        rest = head ++ (frames.flatten ++ tail) ∧ IsArrayHead frames.length head ∧
        frames.length = header.bundleCount.toNat ∧
        Fills header.operation header.index frames (header.attributes.map Attribute.zeros)
          r.buffers := by
  obtain ⟨-, -, hc, -, hi, -⟩ := Header.ofWire_ok hw
  have hb : ((p.opened wire header.operation rest).bound outputs).Binds outputs :=
    binds_bound hp (Registry.nodup_allocate ha)
  have hf := (takeBundleList_finished_iff hb rfl rfl : _ ∧ _ = r.buffers ↔ _)
  rw [pour_complete_iff, advance_bundleList rfl]
  rw [← hc, ← hi, Registry.allocate_ok ha] at hf
  obtain ⟨found, buffers⟩ := r
  simp only [DecodeResult.mk.injEq]
  constructor
  · intro h
    obtain ⟨ho, he, hbuf⟩ := h
    exact ⟨he, hf.mp ⟨ho, hbuf.symm⟩⟩
  · intro h
    obtain ⟨he, hx⟩ := h
    obtain ⟨ho, hbuf⟩ := hf.mpr hx
    exact ⟨ho, he, hbuf.symm⟩

/-- A parser with the header ready completes only on the bundles of a response. -/
theorem isResponse_of_ready {limits : Limits} {p q : ResponseParser} {bytes : Bytes}
    {r : DecodeResult} {header : Header} {outputs : Registry} {parser : ResponseParser}
    (hx : Sought p bytes (.ok .headerReady) parser) (hp : p.bindings = [])
    (hl : p.maxHeaderBytes = limits.maxHeaderBytes)
    (hb : bindOutputs limits parser = (.ok (header, outputs), q))
    (h : (pour header outputs q).1 = .complete r) : IsResponse limits bytes r := by
  cases hx with
  | @ready head front rest wire operation split envelope opens =>
    obtain ⟨wire', hw, hwire, ha, rfl⟩ := bindOutputs_ok hb
    obtain rfl : wire = wire' := Option.some.inj hw
    obtain ⟨hop, -⟩ := Header.ofWire_ok hwire
    obtain rfl : operation = header.operation := Option.some.inj (opens.named.symm.trans hop)
    obtain ⟨rfl, lead, frames, tail, rfl, hlead, hn, hfills⟩ := (pour_opened hp hwire ha).mp h
    refine ⟨⟨head, front, lead, frames⟩, tail, by simp [split, ResponseParts.bytes], ?_⟩
    exact ⟨envelope, opens.frame.value, hl ▸ opens.short, ⟨wire, opens.read, hwire⟩,
      ⟨outputs, ha⟩, hlead, hn, hfills⟩

/-- A session that looks for the header completes on a response, with what it describes. -/
theorem seek_complete_iff {limits : Limits} {p : ResponseParser} {r : DecodeResult}
    (hs : p.step = .envelope) (hp : p.bindings = [])
    (hl : p.maxHeaderBytes = limits.maxHeaderBytes) :
    (seek limits p).1 = .complete r ↔ IsResponse limits p.buffered r := by
  rw [seek_eq]
  constructor
  · intro h
    split at h
    · cases h
    · cases h
    · cases h
    · rename_i ho
      obtain ⟨hx, -⟩ := advance_sought (.inl ⟨hs, rfl⟩ : p.Seeking p.buffered) {}
      rw [ho] at hx
      split at h
      · cases h
      · rename_i hb
        exact isResponse_of_ready hx hp hl hb h
  · intro h
    obtain ⟨x, tail, hb, hx⟩ := h
    obtain ⟨outputs, ha⟩ := hx.allocated
    have hb' : p.buffered = x.head ++ (x.header ++ (x.listHead ++ (x.bundles.flatten ++ tail))) := by
      simp [hb, ResponseParts.bytes]
    obtain ⟨wire, hwire, hadv⟩ := advance_describe hx hs hl hb' {}
    rw [hadv]
    simp only
    rw [bindOutputs_header rfl, hwire]
    simp only [ha]
    exact (pour_opened hp hwire ha).mpr
      ⟨rfl, x.listHead, x.bundles, tail, rfl, hx.listHead, hx.counted, hx.filled⟩

/-- The first turn of a session completes on a response, with what it describes. -/
theorem turn_complete_iff {limits : Limits} {bytes : Bytes} {r : DecodeResult} :
    (turn limits (Stage.wake .idle bytes) ((ofLimits limits).supply bytes)).1 = .complete r ↔
      IsResponse limits bytes r := by
  cases bytes with
  | nil =>
    constructor
    · intro h
      cases h
    · intro h
      obtain ⟨x, tail, hb, hx⟩ := h
      have := hx.head.length_pos
      have := congrArg List.length hb
      simp only [ResponseParts.bytes, List.length_append, List.length_nil] at this
      omega
  | cons b rest => exact seek_complete_iff rfl rfl rfl

theorem fresh_ready_iff {limits : Limits} {bytes : Bytes} {r : DecodeResult} :
    ((fresh limits).feed bytes).1 = .ok (.ready r) ↔
      (turn limits (Stage.wake .idle bytes) ((ofLimits limits).supply bytes)).1 = .complete r := by
  rw [(fresh_waits limits).feed_answer, Turn.answer_ready_iff]
  exact Iff.rfl

/-- What the bytes of a response give at once, they give in any pieces. -/
theorem after_done {limits : Limits} {pieces : List Bytes} {r : DecodeResult}
    (h : IsResponse limits pieces.flatten r) :
    ((fresh limits).after (pieces.map some)).phase = .done r := by
  have hr : ((fresh limits).feed pieces.flatten).1 = .ok (.ready r) :=
    (fresh_ready_iff.trans turn_complete_iff).mpr h
  rcases (fresh_waits limits).after pieces with ⟨⟨stage, hw⟩, hm⟩ | ⟨-, ha | ⟨-, _, _, -, ha⟩⟩
  · have hf := hm []
    rw [List.append_nil, hw.feed_nil] at hf
    rw [hf] at hr
    cases hr
  · rw [hr] at ha
    cases hp : ((fresh limits).after (pieces.map some)).phase with
    | live stage => simp [hp, answer] at ha
    | failed e => simp [hp, answer] at ha
    | done result => simpa [hp, answer] using ha
  · rw [hr] at ha
    cases ha

section

variable {s : Session ResponseParser} {stage : Stage} {bytes : Bytes}

theorem Settled.heard (h : s.Settled) (inputs : List (Option Bytes)) : s.heard inputs = [] := by
  induction inputs with
  | nil => rfl
  | cons input rest ih =>
    rw [Session.heard, settled_iff_isTerminal.mp h, h.accept]
    exact ih

/-- A session that waits, and takes bytes as a fresh one takes them behind those it was given, comes
to the result of a response only. -/
theorem Waits.isResponse {limits : Limits} (h : s.Waits stage bytes)
    (hf : ∀ more, ((fresh limits).feed (bytes ++ more)).1 = (s.feed more).1)
    {inputs : List (Option Bytes)} {r : DecodeResult} (hr : (s.after inputs).result? = some r) :
    IsResponse limits (bytes ++ (s.heard inputs).flatten) r := by
  induction inputs generalizing s stage bytes with
  | nil =>
    change s.result? = some r at hr
    rw [result?, h.live] at hr
    cases hr
  | cons input rest ih =>
    rw [after_cons] at hr
    cases input with
    | none =>
      -- The session went as far as it can before, so the end of the input truncates it.
      have hc := accept_none_of_waiting h.live h.rests
      obtain ⟨ha, he, -⟩ := answer_stays hc nofun rest
      rw [ha, result?_eq_none_of_error he] at hr
      cases hr
    | some piece =>
      have hheard : (s.heard (some piece :: rest)).flatten =
          piece ++ ((s.feed piece).2.heard rest).flatten := by
        rw [heard, isTerminal_of_live h.live]
        rfl
      rw [hheard]
      by_cases hp : (s.feed piece).1 = .ok .pending
      · obtain ⟨⟨stage', hw⟩, -, hm⟩ := h.feed_pending hp
        rw [← List.append_assoc]
        refine ih hw ?_ hr
        intro more
        rw [List.append_assoc, hf, hm]
      · have hs : (s.feed piece).2.Settled := settled_iff.mpr (feed_fst s piece ▸ hp)
        change ((s.feed piece).2.after rest).result? = some r at hr
        rw [hs.after, result?_eq_some_iff, ← feed_fst, ← hf] at hr
        rw [hs.heard, List.flatten_nil, List.append_nil]
        exact (fresh_ready_iff.trans turn_complete_iff).mp hr

end

/-- A session is ready on a response, and on nothing else. -/
theorem feed_ready_iff (limits : Limits) (bytes : Bytes) (r : DecodeResult) :
    ((fresh limits).feed bytes).1 = .ok (.ready r) ↔ IsResponse limits bytes r :=
  fresh_ready_iff.trans turn_complete_iff

end Session

end SeismicStream
