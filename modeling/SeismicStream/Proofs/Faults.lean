import SeismicStream.DecodeError

namespace SeismicStream

/-- How the reasons begin that say that a parser and its session are out of step. -/
def defensive : List String :=
  ["parser reported a header it cannot produce", "stream finished while ", "bundle before header",
    "no output slot "]

/-- Why a header or a payload is malformed. -/
def DecodeError.reason? : DecodeError → Option String
  | .malformedHeader fault => some fault.reason
  | .malformedPayload fault => some fault.reason
  | _ => none

/-- An error whose reason begins like one of the defensive ones. -/
def DecodeError.Defensive (e : DecodeError) : Prop :=
  ∃ reason lead, e.reason? = some reason ∧ lead ∈ defensive ∧ lead.toList <+: reason.toList

/-- What a stream may be refused for. -/
def DecodeError.Ordinary : DecodeError → Prop
  | .malformedHeader (.framing _) => True
  | .malformedHeader (.header _) => True
  | .malformedHeader (.oversized ..) => True
  | .allocation .. => True
  | .truncated .. => True
  | .malformedPayload (.framing _) => True
  | .malformedPayload (.bundle _) => True
  | .malformedPayload (.bundleCount ..) => True
  | .malformedPayload (.scatter ..) => True
  | .beyondMemory => True
  | _ => False

/-- How the reasons of ordinary errors begin. -/
def ordinaryLeads : List String :=
  ["expected array", "reserved tag", "length at offset", "bad envelope", "header: ",
    "invalid function", "count ", "misplaced token", "header declares ", "attribute ",
    "header exceeds ", "bundle: ", "expected ", "inverted range "]

/-- The text begins like the reason of an ordinary error. -/
def Led (text : String) : Prop :=
  ∃ lead ∈ ordinaryLeads, lead.toList <+: text.toList

theorem prefix_append {lead front : String} (h : lead.toList <+: front.toList) (back : String) :
    lead.toList <+: (front ++ back).toList := by
  rw [String.toList_append]
  exact h.trans (List.prefix_append _ _)

theorem led_append {front : String} (h : Led front) (back : String) : Led (front ++ back) := by
  obtain ⟨lead, hm, hp⟩ := h
  exact ⟨lead, hm, prefix_append hp back⟩

theorem Led.not_defensive {text : String} (h : Led text) {lead : String} (hm : lead ∈ defensive) :
    ¬ lead.toList <+: text.toList := by
  have apart : ∀ a ∈ ordinaryLeads, ∀ b ∈ defensive,
      ¬ a.toList <+: b.toList ∧ ¬ b.toList <+: a.toList := by decide
  obtain ⟨own, ho, hp⟩ := h
  obtain ⟨hf, hb⟩ := apart own ho lead hm
  intro hl
  rcases List.prefix_or_prefix_of_prefix hp hl with h | h
  · exact hf h
  · exact hb h

theorem led_framing (e : Msgpack.FramingError) : Led e.message := by
  cases e with
  | notAnArray found =>
    repeat apply led_append
    exact ⟨"expected array", by decide, by decide⟩
  | reservedTag offset =>
    repeat apply led_append
    exact ⟨"reserved tag", by decide, by decide⟩
  | lengthOutOfRange offset =>
    repeat apply led_append
    exact ⟨"length at offset", by decide, by decide⟩
  | envelopeCount found =>
    repeat apply led_append
    exact ⟨"bad envelope", by decide, by decide⟩

theorem led_header (e : HeaderError) : Led e.message := by
  cases e with
  | fields e =>
    repeat apply led_append
    exact ⟨"header: ", by decide, by decide⟩
  | unknownFunction value =>
    repeat apply led_append
    exact ⟨"invalid function", by decide, by decide⟩
  | packed e =>
    cases e with
    | overrun offset count remaining =>
      repeat apply led_append
      exact ⟨"count ", by decide, by decide⟩
    | misplaced offset =>
      repeat apply led_append
      exact ⟨"misplaced token", by decide, by decide⟩
  | shapeCount attributes shapes | labelCount attributes labels =>
    repeat apply led_append
    exact ⟨"header declares ", by decide, by decide⟩
  | repeatedName name =>
    repeat apply led_append
    exact ⟨"attribute ", by decide, by decide⟩

theorem led_bundle (e : BundleError) : Led e.message := by
  cases e with
  | malformed => exact ⟨"bundle: ", by decide, by decide⟩
  | arity axis expected found =>
    repeat apply led_append
    exact ⟨"expected ", by decide, by decide⟩
  | inverted span =>
    repeat apply led_append
    exact ⟨"inverted range ", by decide, by decide⟩

theorem led_headerFault {fault : HeaderFault}
    (h : (DecodeError.malformedHeader fault).Ordinary) : Led fault.reason := by
  cases fault with
  | framing e => exact led_framing e
  | header e => exact led_header e
  | oversized limit atLeast =>
    repeat apply led_append
    exact ⟨"header exceeds ", by decide, by decide⟩
  | unreadable | finished | stated => exact h.elim

theorem led_payloadFault {fault : PayloadFault}
    (h : (DecodeError.malformedPayload fault).Ordinary) : Led fault.reason := by
  cases fault with
  | framing e => exact led_framing e
  | bundle e => exact led_bundle e
  | bundleCount declared carried =>
    repeat apply led_append
    exact ⟨"header declares ", by decide, by decide⟩
  | scatter output e =>
    repeat apply led_append
    exact ⟨"attribute ", by decide, by decide⟩
  | noHeader | noSlot | stated => exact h.elim

/-- The words of an ordinary error are not those of a defensive one. -/
theorem DecodeError.Ordinary.not_defensive {e : DecodeError} (h : e.Ordinary) : ¬ e.Defensive := by
  rintro ⟨reason, lead, hr, hm, hp⟩
  have hl : Led reason := by
    cases e with
    | malformedHeader fault =>
      cases hr
      exact led_headerFault h
    | malformedPayload fault =>
      cases hr
      exact led_payloadFault h
    | allocation | truncated | beyondMemory => cases hr
  exact hl.not_defensive hm hp

end SeismicStream
