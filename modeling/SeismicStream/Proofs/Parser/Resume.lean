import SeismicStream.Parser.Response
import SeismicStream.Proofs.Msgpack.ArrayHead

namespace SeismicStream.ResponseParser
open Msgpack

variable {p : ResponseParser}

theorem supply_nil (p : ResponseParser) : p.supply [] = p := by
  simp [supply]

theorem supply_supply (p : ResponseParser) (a b : Bytes) :
    (p.supply a).supply b = p.supply (a ++ b) := by
  simp [supply]

theorem supply_buffered {front rest : Bytes} (h : p.buffered = front ++ rest) (more : Bytes) :
    (p.supply more).buffered = front ++ (rest ++ more) := by
  rw [← List.append_assoc, ← h]
  rfl

theorem openHeader_supply (p : ResponseParser) (bytes more : Bytes) :
    (p.supply more).openHeader bytes =
      ((p.openHeader bytes).1, (p.openHeader bytes).2.supply more) := by
  unfold openHeader
  cases WireHeader.decode bytes with
  | error e => rfl
  | ok wire =>
    dsimp only
    cases Operation.ofWire? wire.function <;> rfl

theorem takeHeader_of_frame {front rest : Bytes} (hb : p.buffered = front ++ rest)
    (hf : IsFrame front) : p.takeHeader =
      if p.maxHeaderBytes.toNat < front.length then
        (.error (.malformedHeader (.oversized p.maxHeaderBytes front.length)), p)
      else openHeader { p with buffered := rest } front := by
  have he : extent p.buffered = .ok (some front.length) :=
    extent_eq_some_iff.mpr ⟨front, rest, hb, hf, rfl⟩
  simp only [takeHeader, he]
  rw [hb, List.drop_left, List.take_left]

theorem takeHeader_supply (h : extent p.buffered ≠ .ok none) (more : Bytes) :
    (p.supply more).takeHeader = (p.takeHeader.1, p.takeHeader.2.supply more) := by
  cases he : extent p.buffered with
  | error e =>
    have hs : extent (p.supply more).buffered = .error e := (extent_append h more).trans he
    simp only [takeHeader, he, hs]
  | ok answer =>
    cases answer with
    | none => exact absurd he h
    | some n =>
      obtain ⟨front, rest, hb, hf, rfl⟩ := extent_eq_some_iff.mp he
      have hs := supply_buffered hb more
      rw [takeHeader_of_frame hb hf, takeHeader_of_frame hs hf]
      change (if p.maxHeaderBytes.toNat < front.length then _ else _) = _
      split
      · rfl
      · exact openHeader_supply { p with buffered := rest } front more

/-- More than a header may take, without the end of one. -/
def Endless (limit : Word) (bytes : Bytes) : Prop :=
  extent bytes = .ok none ∧ limit.toNat < bytes.length

theorem extent_past {bs more : Bytes} {n : Nat} (h : extent bs = .ok none)
    (hm : extent (bs ++ more) = .ok (some n)) : bs.length < n := by
  obtain ⟨front, rest, hb, hf, rfl⟩ := extent_eq_some_iff.mp hm
  apply Nat.lt_of_not_le
  intro hle
  obtain ⟨tail, rfl⟩ : front <+: bs :=
    List.prefix_of_prefix_length_le (hb ▸ List.prefix_append front rest)
      (List.prefix_append bs more) hle
  have := extent_eq_some_iff.mpr ⟨front, tail, rfl, hf, rfl⟩
  rw [h] at this
  cases this

theorem takeHeader_overlong (h : Endless p.maxHeaderBytes p.buffered) (more : Bytes) :
    ∃ fault, (p.supply more).takeHeader.1 = .error (.malformedHeader fault) := by
  unfold takeHeader
  split
  · exact ⟨_, rfl⟩
  · rename_i he
    rw [if_pos]
    · exact ⟨_, rfl⟩
    · have := h.2
      simp only [supply, List.length_append]
      omega
  · rename_i n he
    rw [if_pos]
    · exact ⟨_, rfl⟩
    · exact Nat.lt_trans h.2 (extent_past h.1 he)

@[simp] theorem route_step (p : ResponseParser) (step : Step) (bytes : Bytes) (outputs : Registry) :
    route { p with step } bytes outputs = p.route bytes outputs :=
  rfl

@[simp] theorem route_supply (p : ResponseParser) (more bytes : Bytes) (outputs : Registry) :
    (p.supply more).route bytes outputs = p.route bytes outputs :=
  rfl

theorem takeBundles_step (n : Nat) (p : ResponseParser) (step : Step) (outputs : Registry) :
    takeBundles n { p with step } outputs = takeBundles n p outputs := by
  induction n generalizing p outputs with
  | zero => rfl
  | succ n ih =>
    cases he : extent p.buffered with
    | error e => simp only [takeBundles, he]
    | ok answer =>
      cases answer with
      | none => simp only [takeBundles, he]
      | some size =>
        have hr := route_step { p with buffered := p.buffered.drop size } step
          (p.buffered.take size) outputs
        simp only [takeBundles, he, hr]
        split
        · rfl
        · exact ih { p with buffered := p.buffered.drop size } _

theorem takeBundles_frame {front rest : Bytes} (hb : p.buffered = front ++ rest)
    (hf : IsFrame front) (n : Nat) (outputs : Registry) : takeBundles (n + 1) p outputs =
      match p.route front outputs with
      | (.error e, outputs) =>
        ⟨.error e, { p with buffered := rest, step := .bundles (n + 1) }, outputs⟩
      | (.ok (), outputs) => takeBundles n { p with buffered := rest } outputs := by
  have he : extent p.buffered = .ok (some front.length) :=
    extent_eq_some_iff.mpr ⟨front, rest, hb, hf, rfl⟩
  conv => lhs; unfold takeBundles
  simp only [he]
  rw [hb, List.drop_left, List.take_left]
  rfl

/-- How a parser that came to `a` goes on with more bytes. Where it lacks bytes, it goes on from
there. Where it does not, they stay in its buffer. -/
structure Continues (a b : Advanced ResponseParser) (more : Bytes) : Prop where
  resumed : a.outcome = .ok .needsMoreInput → b = (a.parser.supply more).advance a.outputs
  settled : a.outcome ≠ .ok .needsMoreInput → b = { a with parser := a.parser.supply more }

theorem Continues.of_pending {a b : Advanced ResponseParser} {more : Bytes}
    (ha : a.outcome = .ok .needsMoreInput) (hb : b = (a.parser.supply more).advance a.outputs) :
    Continues a b more :=
  ⟨fun _ => hb, fun hn => absurd ha hn⟩

theorem Continues.of_settled {a b : Advanced ResponseParser} {more : Bytes}
    (ha : a.outcome ≠ .ok .needsMoreInput) (hb : b = { a with parser := a.parser.supply more }) :
    Continues a b more :=
  ⟨fun hn => absurd hn ha, fun _ => hb⟩

theorem takeBundles_continues (n : Nat) (p : ResponseParser) (outputs : Registry) (more : Bytes) :
    Continues (takeBundles n p outputs) (takeBundles n (p.supply more) outputs) more := by
  induction n generalizing p outputs with
  | zero => exact .of_settled nofun rfl
  | succ n ih =>
    cases he : extent p.buffered with
    | error e =>
      have hs : extent (p.supply more).buffered = .error e :=
        (extent_append (by rw [he]; nofun) more).trans he
      simp only [takeBundles, he, hs]
      exact .of_settled nofun rfl
    | ok answer =>
      cases answer with
      | none =>
        -- The step is changed, but to one that takes up the same loop.
        have ht : takeBundles (n + 1) p outputs =
            ⟨.ok .needsMoreInput, { p with step := .bundles (n + 1) }, outputs⟩ := by
          simp only [takeBundles, he]
        rw [ht]
        exact .of_pending rfl (takeBundles_step (n + 1) (p.supply more) _ outputs).symm
      | some size =>
        obtain ⟨front, rest, hb, hf, rfl⟩ := extent_eq_some_iff.mp he
        rw [takeBundles_frame hb hf, takeBundles_frame (supply_buffered hb more) hf, route_supply]
        cases p.route front outputs with
        | mk answer outputs' =>
          cases answer with
          | error e => exact .of_settled nofun rfl
          | ok u => exact ih _ _

theorem takeBundleList_head {count : Nat} {head rest : Bytes} (hb : p.buffered = head ++ rest)
    (hh : IsArrayHead count head) (outputs : Registry) : p.takeBundleList outputs =
      if count ≠ p.declared then
        ⟨.error (.malformedPayload (.bundleCount p.declared count)), p, outputs⟩
      else takeBundles count { p with buffered := rest } outputs := by
  have ha : arrayHead p.buffered = .ok (some (count, head.length)) :=
    hb ▸ arrayHead_complete hh rest
  simp only [takeBundleList, ha]
  rw [hb, List.drop_left]

theorem takeBundleList_continues (hs : p.step = .bundleList) (outputs : Registry) (more : Bytes) :
    Continues (p.takeBundleList outputs) ((p.supply more).takeBundleList outputs) more := by
  cases ha : arrayHead p.buffered with
  | error e =>
    have hm : arrayHead (p.supply more).buffered = .error e := arrayHead_error_append ha more
    simp only [takeBundleList, ha, hm]
    exact .of_settled nofun rfl
  | ok answer =>
    cases answer with
    | none =>
      have ht : p.takeBundleList outputs = ⟨.ok .needsMoreInput, p, outputs⟩ := by
        simp only [takeBundleList, ha]
      rw [ht]
      refine .of_pending rfl ?_
      simp only [advance, supply, hs]
    | some found =>
      obtain ⟨head, rest, hb, hh, -⟩ := arrayHead_sound ha
      have hd : (p.supply more).declared = p.declared := rfl
      rw [takeBundleList_head hb hh, takeBundleList_head (supply_buffered hb more) hh, hd]
      by_cases hc : found.1 = p.declared
      · rw [if_neg (not_not_intro hc), if_neg (not_not_intro hc)]
        exact takeBundles_continues _ _ _ _
      · rw [if_pos hc, if_pos hc]
        exact .of_settled nofun rfl

/-- A parser that already holds more than a header may take, without the end of one. -/
def Overlong (p : ResponseParser) : Prop :=
  match p.step with
  | .envelope => ∃ head rest, p.buffered = head ++ rest ∧ IsArrayHead 2 head ∧
      Endless p.maxHeaderBytes rest
  | .header => Endless p.maxHeaderBytes p.buffered
  | _ => False

/-- A header that can be read is ready, whatever it says beyond its operation. -/
theorem openHeader_ok {bytes : Bytes} {progress : Progress}
    (h : (p.openHeader bytes).1 = .ok progress) :
    ∃ wire operation, WireHeader.decode bytes = .ok wire ∧
      Operation.ofWire? wire.function = some operation ∧ p.openHeader bytes = (.ok .headerReady,
        { p with step := .bundleList, header := some wire, operation := some operation }) := by
  cases hw : WireHeader.decode bytes with
  | error e => simp [openHeader, hw] at h
  | ok wire =>
    cases ho : Operation.ofWire? wire.function with
    | none => simp [openHeader, hw, ho] at h
    | some operation => exact ⟨wire, operation, rfl, ho, by simp only [openHeader, hw, ho]⟩

/-- The parser after a header. -/
def opened (p : ResponseParser) (wire : WireHeader) (operation : Operation) (rest : Bytes) :
    ResponseParser :=
  { p with
    buffered := rest, step := .bundleList, header := some wire, operation := some operation }

/-- A header that is short enough, and whose operation is known. -/
structure Opens (p : ResponseParser) (front : Bytes) (wire : WireHeader) (operation : Operation) :
    Prop where
  frame : IsFrame front
  short : front.length ≤ p.maxHeaderBytes.toNat
  read : WireHeader.decode front = .ok wire
  named : Operation.ofWire? wire.function = some operation

theorem takeHeader_opened {front rest : Bytes} {wire : WireHeader} {operation : Operation}
    (hb : p.buffered = front ++ rest) (h : p.Opens front wire operation) :
    p.takeHeader = (.ok .headerReady, p.opened wire operation rest) := by
  rw [takeHeader_of_frame hb h.frame, if_neg (Nat.not_lt.mpr h.short)]
  simp only [openHeader, h.read, h.named, opened]

/-- A parser whose header is not refused lacks bytes of it, or has it ready. -/
theorem takeHeader_ok {progress : Progress} (h : p.takeHeader.1 = .ok progress) :
    p.takeHeader = (.ok .needsMoreInput, p) ∨
      ∃ front rest wire operation, p.buffered = front ++ rest ∧ p.Opens front wire operation ∧
        p.takeHeader = (.ok .headerReady, p.opened wire operation rest) := by
  cases he : extent p.buffered with
  | error e => simp [takeHeader, he] at h
  | ok answer =>
    cases answer with
    | none =>
      left
      simp only [takeHeader, he] at h ⊢
      split at h
      · cases h
      · rename_i hl
        rw [if_neg hl]
    | some n =>
      right
      obtain ⟨front, rest, hb, hf, -⟩ := extent_eq_some_iff.mp he
      rw [takeHeader_of_frame hb hf] at h
      split at h
      · cases h
      · rename_i hl
        obtain ⟨wire, operation, hw, ho, -⟩ := openHeader_ok h
        have hx : p.Opens front wire operation := ⟨hf, Nat.le_of_not_lt hl, hw, ho⟩
        exact ⟨front, rest, wire, operation, hb, hx, takeHeader_opened hb hx⟩

theorem takeHeader_pending (h : p.takeHeader.1 = .ok .needsMoreInput) :
    p.takeHeader = (.ok .needsMoreInput, p) := by
  rcases takeHeader_ok h with ht | ⟨_, _, _, _, -, -, ht⟩
  · exact ht
  · rw [ht] at h
    cases h

theorem takeHeader_settled (h : p.takeHeader.1 ≠ .ok .needsMoreInput)
    (hn : ¬ Endless p.maxHeaderBytes p.buffered) (more : Bytes) :
    (p.supply more).takeHeader = (p.takeHeader.1, p.takeHeader.2.supply more) := by
  apply takeHeader_supply
  intro he
  have hl : ¬ p.maxHeaderBytes.toNat < p.buffered.length := fun hl => hn ⟨he, hl⟩
  simp [takeHeader, he, hl] at h

theorem advance_envelope {head rest : Bytes} (hs : p.step = .envelope)
    (hb : p.buffered = head ++ rest) (hh : IsArrayHead 2 head) (outputs : Registry) :
    p.advance outputs =
      ⟨(takeHeader { p with buffered := rest, step := .header }).1,
        (takeHeader { p with buffered := rest, step := .header }).2, outputs⟩ := by
  have he : envelope p.buffered = .ok (some head.length) :=
    envelope_eq_some_iff.mpr ⟨head, rest, hb, hh, rfl⟩
  simp only [advance, hs, he]
  rw [hb, List.drop_left]

/-- A header that opens is ready, whatever comes behind it. -/
theorem advance_opens {head front rest : Bytes} {wire : WireHeader} {operation : Operation}
    (hs : p.step = .envelope) (hb : p.buffered = head ++ (front ++ rest)) (hh : IsArrayHead 2 head)
    (hx : p.Opens front wire operation) (outputs : Registry) :
    p.advance outputs = ⟨.ok .headerReady, p.opened wire operation rest, outputs⟩ := by
  have ht := takeHeader_opened (p := { p with buffered := front ++ rest, step := .header }) rfl
    ⟨hx.frame, hx.short, hx.read, hx.named⟩
  rw [advance_envelope hs hb hh, ht]
  rfl

theorem advance_header (hs : p.step = .header) (outputs : Registry) :
    p.advance outputs = ⟨p.takeHeader.1, p.takeHeader.2, outputs⟩ := by
  simp only [advance, hs]

theorem advance_bundleList (hs : p.step = .bundleList) (outputs : Registry) :
    p.advance outputs = p.takeBundleList outputs := by
  simp only [advance, hs]

theorem advance_bundles {n : Nat} (hs : p.step = .bundles n) (outputs : Registry) :
    p.advance outputs = takeBundles n p outputs := by
  simp only [advance, hs]

theorem takeHeader_continues (hs : p.step = .header) (hn : ¬ Endless p.maxHeaderBytes p.buffered)
    (outputs : Registry) (more : Bytes) :
    Continues ⟨p.takeHeader.1, p.takeHeader.2, outputs⟩
      ⟨(p.supply more).takeHeader.1, (p.supply more).takeHeader.2, outputs⟩ more := by
  by_cases h : p.takeHeader.1 = .ok .needsMoreInput
  · refine .of_pending h ?_
    rw [takeHeader_pending h]
    exact (advance_header (p := p.supply more) hs outputs).symm
  · refine .of_settled h ?_
    rw [takeHeader_settled h hn]

/-- A parser goes on with the bytes that come as it would had they come at once. -/
theorem advance_continues (hn : ¬ p.Overlong) (outputs : Registry) (more : Bytes) :
    Continues (p.advance outputs) ((p.supply more).advance outputs) more := by
  cases hs : p.step with
  | envelope =>
    have hs' : (p.supply more).step = .envelope := hs
    simp only [Overlong, hs] at hn
    cases he : envelope p.buffered with
    | error e =>
      have hm : envelope (p.supply more).buffered = .error e :=
        (envelope_append (by rw [he]; nofun) more).trans he
      simp only [advance, hs, hs', he, hm]
      exact .of_settled nofun rfl
    | ok answer =>
      cases answer with
      | none =>
        have ha : p.advance outputs = ⟨.ok .needsMoreInput, p, outputs⟩ := by
          simp only [advance, hs, he]
        rw [ha]
        exact .of_pending rfl rfl
      | some size =>
        obtain ⟨head, rest, hb, hh, -⟩ := envelope_eq_some_iff.mp he
        rw [advance_envelope hs hb hh, advance_envelope hs' (supply_buffered hb more) hh]
        exact takeHeader_continues (p := { p with buffered := rest, step := .header }) rfl
          (fun hl => hn ⟨head, rest, hb, hh, hl⟩) outputs more
  | header =>
    simp only [Overlong, hs] at hn
    rw [advance_header hs, advance_header (p := p.supply more) hs]
    exact takeHeader_continues hs hn outputs more
  | bundleList =>
    rw [advance_bundleList hs, advance_bundleList (p := p.supply more) hs]
    exact takeBundleList_continues hs outputs more
  | bundles n =>
    rw [advance_bundles hs, advance_bundles (p := p.supply more) hs]
    exact takeBundles_continues n p outputs more
  | done =>
    have hs' : (p.supply more).step = .done := hs
    simp only [advance, hs, hs']
    exact .of_settled nofun rfl

/-- A parser that holds too much for a header refuses it, whatever bytes come. -/
theorem advance_overlong (h : p.Overlong) (more : Bytes) (outputs : Registry) :
    ∃ fault, ((p.supply more).advance outputs).outcome = .error (.malformedHeader fault) := by
  cases hs : p.step with
  | envelope =>
    simp only [Overlong, hs] at h
    obtain ⟨head, rest, hb, hh, hl⟩ := h
    have hm := supply_buffered hb more
    rw [advance_envelope (p := p.supply more) hs hm hh]
    exact takeHeader_overlong (p := { p with buffered := rest, step := .header }) hl more
  | header =>
    simp only [Overlong, hs] at h
    rw [advance_header (p := p.supply more) hs]
    exact takeHeader_overlong h more
  | bundleList | bundles | done => simp [Overlong, hs] at h

theorem not_overlong_of_ok {outputs : Registry} {progress : Progress}
    (h : (p.advance outputs).outcome = .ok progress) : ¬ p.Overlong := by
  intro hl
  obtain ⟨fault, he⟩ := advance_overlong hl [] outputs
  rw [supply_nil, h] at he
  cases he

end SeismicStream.ResponseParser
