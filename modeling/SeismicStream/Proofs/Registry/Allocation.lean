import SeismicStream.Parser.Scripted
import SeismicStream.Proofs.Session.Declined

namespace SeismicStream

/-- The header that a parser gave. -/
def Event.header? : Event → Option WireHeader
  | .readHeader answer => answer
  | _ => none

namespace Registry

variable {header : Header} {limits : Limits} {outputs : Registry}

theorem names_modify {f : Buffer → Buffer} (hf : ∀ b, (f b).name = b.name) (buffers : List Buffer)
    (slot : Nat) : (buffers.modify slot f).map Buffer.name = buffers.map Buffer.name := by
  induction buffers generalizing slot with
  | nil => simp
  | cons b rest ih => cases slot <;> simp [ih, hf]

theorem get?_of_mem {r : Registry} (h : (r.buffers.map Buffer.name).Nodup) {b : Buffer}
    (hb : b ∈ r.buffers) : r.get? b.name = some b :=
  find?_of_nodup h hb

/-- What is put into a slot is found under the name of its output, and all else is as it was. -/
theorem get?_update (h : (outputs.buffers.map Buffer.name).Nodup) {b : Buffer} {i : Nat}
    (hb : outputs.buffers[i]? = some b) {α : Type} (f : Array Sample → α × Array Sample) :
    (outputs.update i f).2.get? b.name = some { b with samples := (f b.samples).2 } ∧
      ∀ c ∈ outputs.buffers, c.name ≠ b.name → (outputs.update i f).2.get? c.name = some c := by
  have hu : (outputs.update i f).2.buffers =
      outputs.buffers.modify i fun b => { b with samples := (f b.samples).2 } :=
    updateAt_snd f i outputs.buffers
  have hn : ((outputs.update i f).2.buffers.map Buffer.name).Nodup := by
    rw [hu, names_modify]
    · exact h
    · intro _
      rfl
  constructor
  · have hm : { b with samples := (f b.samples).2 } ∈ (outputs.update i f).2.buffers := by
      rw [hu]
      exact List.mem_of_getElem? (i := i) (by simp [hb])
    exact get?_of_mem hn hm
  · intro c hc hne
    obtain ⟨j, hj⟩ := List.mem_iff_getElem?.mp hc
    have hij : i ≠ j := by
      rintro rfl
      rw [hb] at hj
      cases hj
      exact hne rfl
    have hm : c ∈ (outputs.update i f).2.buffers := by
      rw [hu]
      exact List.mem_of_getElem? (i := j) (by simp [hj, hij])
    exact get?_of_mem hn hm

theorem allots_of_ok (h : allocate header limits = .ok outputs) : outputs.Allots header := by
  have hbuffers := allocate_ok h
  have hnodup := nodup_allocate h
  have at? {i : Nat} {a : Attribute} (ha : header.attributes[i]? = some a) :
      outputs.buffers[i]? = some a.zeros := by
    rw [hbuffers, List.getElem?_map, ha, Option.map_some]
  have mem {a : Attribute} (ha : a ∈ header.attributes) : a.zeros ∈ outputs.buffers :=
    hbuffers ▸ List.mem_map_of_mem ha
  constructor
  case buffers => exact hbuffers
  case handles => exact handles_allocate h
  case found =>
    intro i a ha
    refine ⟨get?_of_mem hnodup (mem (List.mem_of_getElem? ha)), ?_⟩
    rw [slot?, at? ha, Option.map_some]
  case written =>
    intro i a ha α f
    obtain ⟨own, others⟩ := get?_update hnodup (at? ha) f
    refine ⟨?_, own, fun b hb hne => others b.zeros (mem hb) hne⟩
    change (updateAt f i outputs.buffers).1 = _
    rw [updateAt_fst, at? ha, Option.map_some]

theorem allocate_eq_beyondMemory_iff : allocate header limits = .error .beyondMemory ↔
    (∀ a ∈ header.attributes, limits.Allows a.shape) ∧
      ¬∀ a ∈ header.attributes, a.shape.Holdable := by
  rw [allocate_eq_error_iff]
  constructor
  · rintro (h | ⟨allowed, vast, -⟩)
    · cases h
    · exact ⟨allowed, vast⟩
  · rintro ⟨allowed, vast⟩
    exact .inr ⟨allowed, vast, rfl⟩

theorem allOrNothing_of_holdable (h : (∀ a ∈ header.attributes, limits.Allows a.shape) →
    ∀ a ∈ header.attributes, a.shape.Holdable) : header.AllOrNothing limits where
  allocated := exists_allocate_iff.trans (and_iff_left_of_imp h)
  allots _ := allots_of_ok
  refused e := by
    rw [allocate_eq_error_iff]
    refine or_iff_left ?_
    rintro ⟨allowed, vast, -⟩
    exact vast (h allowed)
  declined := by
    intro e refused σ _ parser inputs wire checked read
    exact Session.declined_after parser inputs read checked refused

theorem holdable_of_allOrNothing (h : header.AllOrNothing limits)
    (allowed : ∀ a ∈ header.attributes, limits.Allows a.shape) :
    ∀ a ∈ header.attributes, a.shape.Holdable :=
  (exists_allocate_iff.mp (h.allocated.mpr allowed)).2

/-- Outputs are allocated all together or not at all, unless all of them are allowed and one of them
takes more bytes than a buffer may. Then there are neither outputs nor an answer. -/
theorem allOrNothing_iff (header : Header) (limits : Limits) :
    (header.AllOrNothing limits ↔ ((∀ a ∈ header.attributes, limits.Allows a.shape) →
        ∀ a ∈ header.attributes, a.shape.Holdable)) ∧
      (allocate header limits = .error .beyondMemory ↔
        (∀ a ∈ header.attributes, limits.Allows a.shape) ∧
          ¬∀ a ∈ header.attributes, a.shape.Holdable) :=
  ⟨⟨holdable_of_allOrNothing, allOrNothing_of_holdable⟩, allocate_eq_beyondMemory_iff⟩

/-- The second output is within the largest limit, and takes a byte more than a buffer may. -/
def vast : Header where
  pid := ""
  operation := .slice
  bundleCount := 0
  ndims := 3
  index := []
  attributes := [⟨"a", [2, 3], []⟩, ⟨"b", [0x80000000, 0x40000000], []⟩]
  names_nodup := by decide

theorem not_allOrNothing_vast :
    (∀ a ∈ vast.attributes, ({ maxElements := Word.last } : Limits).Allows a.shape) ∧
      allocate vast { maxElements := Word.last } = .error .beyondMemory ∧
        ¬vast.AllOrNothing { maxElements := Word.last } := by
  have allowed :
      ∀ a ∈ vast.attributes, ({ maxElements := Word.last } : Limits).Allows a.shape := by decide
  have vast : ¬∀ a ∈ vast.attributes, a.shape.Holdable := by decide
  exact ⟨allowed, allocate_eq_beyondMemory_iff.mpr ⟨allowed, vast⟩,
    fun h => vast (holdable_of_allOrNothing h allowed)⟩

/-- The samples of the second output leave the word before the last axis makes them none. -/
def hiddenZero : Header where
  pid := ""
  operation := .slice
  bundleCount := 0
  ndims := 3
  index := []
  attributes := [⟨"a", [2, 3], []⟩, ⟨"b", [Word.last, 2, 0], []⟩]
  names_nodup := by decide

/-- A session with a parser that announces this header with the first bytes. -/
def hiddenZeroSession : Session (Traced ScriptedParser) :=
  Session.start ⟨⟨[.answer (.ok .headerReady)], some hiddenZero.toWire⟩, []⟩
    { maxElements := Word.last }

theorem allOrNothing_hiddenZero :
    hiddenZero.AllOrNothing { maxElements := Word.last } ∧
      allocate hiddenZero { maxElements := Word.last } =
          .error (.allocation "b" [Word.last, 2, 0] Word.last) ∧
        (hiddenZeroSession.after [some [0x92]]).Declined
          (.allocation "b" [Word.last, 2, 0] Word.last) := by
  have whole : hiddenZero.AllOrNothing { maxElements := Word.last } := by
    refine (allOrNothing_iff hiddenZero { maxElements := Word.last }).1.mpr fun allowed => ?_
    exact absurd (allowed ⟨"b", [Word.last, 2, 0], []⟩ (by decide)) (by decide)
  have refused := (whole.refused _).mpr (@Header.Unallocatable.first _ _ [⟨"a", [2, 3], []⟩] []
    ⟨"b", [Word.last, 2, 0], []⟩ rfl (by decide) (by decide))
  have read : hiddenZero.toWire ∈
      (hiddenZeroSession.after [some [0x92]]).parser.events.filterMap Event.header? := by
    decide +kernel
  obtain ⟨event, member, same⟩ := List.mem_filterMap.mp read
  cases event <;> cases same
  exact ⟨whole, refused, whole.declined _ refused _ _ _ _ (by decide +kernel) member⟩

end Registry

end SeismicStream
