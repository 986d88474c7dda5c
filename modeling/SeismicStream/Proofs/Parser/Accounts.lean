import SeismicStream.Proofs.Parser.Proceeds

namespace SeismicStream.ResponseParser
open Msgpack

variable {p q : ResponseParser} {progress : Progress}

theorem Short.advance (h : p.Short) (outputs : Registry) :
    p.advance outputs = ⟨.ok .needsMoreInput, p, outputs⟩ := by
  cases hs : p.step with
  | envelope =>
    simp only [Short, hs] at h
    simp only [ResponseParser.advance, hs, h]
  | header =>
    simp only [Short, hs] at h
    obtain ⟨he, hl⟩ := h
    simp only [ResponseParser.advance, hs, takeHeader, he]
    rw [if_neg (Nat.not_lt.mpr hl)]
  | bundleList =>
    simp only [Short, hs] at h
    simp only [ResponseParser.advance, hs, takeBundleList, h]
  | bundles n =>
    cases n with
    | zero => simp only [Short, hs] at h
    | succ n =>
      simp only [Short, hs] at h
      rw [advance_bundles hs]
      simp only [takeBundles, h, ← hs]
  | done => simp only [Short, hs] at h

theorem Short.incomplete (h : p.Short) : Incomplete p.step.Structured p.buffered := by
  unfold Short at h
  split at h
  · rename_i hs
    rw [hs]
    exact arrayHead_none (envelope_none h)
  · rename_i hs
    rw [hs]
    exact extent_none h.1
  · rename_i hs
    rw [hs]
    exact arrayHead_none h
  · rename_i hs
    rw [hs]
    exact extent_none h
  · exact h.elim

/-- Uses that bring no bytes leave a parser short. -/
theorem Short.drive (h : p.Short) {uses : List Use} (hu : supplied uses = []) :
    (p.drive uses).Short := by
  induction uses generalizing p with
  | nil => exact h
  | cons use rest ih =>
    obtain ⟨hb, hr⟩ := List.append_eq_nil_iff.mp hu
    refine ih ?_ hr
    cases use with
    | supply bytes =>
      obtain rfl : bytes = [] := hb
      rwa [Use.next, supply_nil]
    | advance outputs => rwa [Use.next, h.advance]
    | register name slot => exact h

theorem Proceeds.short_of_needsMoreInput (h : Proceeds p .needsMoreInput q) : q.Short := by
  generalize hp : Progress.needsMoreInput = progress at h
  induction h with
  | short short => exact short
  | envelope step split head goesOn ih => exact ih hp
  | bundleList step split list goesOn ih => exact ih hp
  | bundle step split frame goesOn ih => exact ih hp
  | header | finished | done => cases hp

/-- The header is ready when it was to come before, and is off the buffer now. -/
theorem Proceeds.headerReady_iff (h : Proceeds p progress q) :
    progress = .headerReady ↔ p.step.beforeHeader ∧ ¬ q.step.beforeHeader := by
  induction h with
  | short short => simp
  | envelope step split head goesOn ih => simpa [step, Step.beforeHeader] using ih
  | header step split opens => simp [step, Step.beforeHeader, opened]
  | bundleList step split list goesOn ih => simpa [step, Step.beforeHeader] using ih
  | bundle step split frame goesOn ih => simpa [step, Step.beforeHeader] using ih
  | finished step => simp [step, Step.beforeHeader]
  | done step => simp [step, Step.beforeHeader]

/-- A header that was taken does not come again. -/
theorem Proceeds.beforeHeader (h : Proceeds p progress q) (hq : q.step.beforeHeader) :
    p.step.beforeHeader := by
  induction h with
  | short short => exact hq
  | envelope step split head goesOn ih => exact step ▸ rfl
  | header step split opens => exact step ▸ rfl
  | bundleList step split list goesOn ih => exact absurd (ih hq) nofun
  | bundle step split frame goesOn ih => exact absurd (ih hq) nofun
  | finished step => cases hq
  | done step => exact hq

theorem taken_list {header : Option WireHeader} {wire : WireHeader} {taken head : Bytes}
    (h : Taken header .bundleList taken) (kept : header = some wire)
    (list : IsArrayHead wire.bundleCount.toNat head) :
    Taken header (.bundles wire.bundleCount.toNat) (taken ++ head) := by
  have ht := @Taken.bundles header wire taken head [] _ h kept list nofun (Nat.zero_add _)
  rwa [List.flatten_nil, List.append_nil] at ht

theorem taken_bundle {header : Option WireHeader} {remaining : Nat} {taken frame : Bytes}
    (h : Taken header (.bundles (remaining + 1)) taken) (hf : IsValue frame) :
    Taken header (.bundles remaining) (taken ++ frame) := by
  cases h with
  | @bundles wire front head frames _ before kept list whole counted =>
    have hw : ∀ f ∈ frames ++ [frame], IsValue f := by
      intro f hm
      rcases List.mem_append.mp hm with hm | hm
      · exact whole f hm
      · exact List.mem_singleton.mp hm ▸ hf
    have hl : (frames ++ [frame]).length + remaining = wire.bundleCount.toNat := by
      rw [List.length_append, List.length_singleton, ← counted]
      omega
    have ht := Taken.bundles before kept list hw hl
    rwa [List.flatten_append, List.flatten_singleton, ← List.append_assoc] at ht

/-- A structure that is taken goes to the end of what was taken, and the rest follows it. -/
theorem taken_split {front rest : Bytes} (split : p.buffered = front ++ rest) {taken : Bytes}
    (h : ∃ more, rest = more ++ q.buffered ∧ Taken q.header q.step (taken ++ front ++ more)) :
    ∃ more, p.buffered = more ++ q.buffered ∧ Taken q.header q.step (taken ++ more) := by
  obtain ⟨more, hm, hq⟩ := h
  exact ⟨front ++ more, by rw [split, hm, List.append_assoc], by rwa [← List.append_assoc]⟩

/-- What leaves the buffer is what the step that is reached has taken beyond the step before. -/
theorem Proceeds.taken (h : Proceeds p progress q) {taken : Bytes}
    (ht : Taken p.header p.step taken) :
    ∃ more, p.buffered = more ++ q.buffered ∧ Taken q.header q.step (taken ++ more) := by
  induction h generalizing taken with
  | short short => exact ⟨[], rfl, by rwa [List.append_nil]⟩
  | envelope step split head goesOn ih =>
    rw [step] at ht
    cases ht
    exact taken_split split (ih (.header head))
  | header step split opens =>
    rw [step] at ht
    cases ht with
    | header head => exact ⟨_, split, .bundleList head opens.frame.value opens.read rfl⟩
  | @bundleList p q progress head rest step split list goesOn ih =>
    rw [step] at ht
    obtain ⟨wire, kept⟩ : ∃ wire, p.header = some wire := by
      cases ht with
      | bundleList envelope whole read kept => exact ⟨_, kept⟩
    have hc : p.declared = wire.bundleCount.toNat := by rw [declared, kept]; rfl
    rw [hc] at list ih
    exact taken_split split (ih (taken_list ht kept list))
  | bundle step split frame goesOn ih =>
    rw [step] at ht
    exact taken_split split (ih (taken_bundle ht frame.value))
  | finished step =>
    rw [step] at ht
    exact ⟨[], rfl, by rw [List.append_nil]; exact .done ht⟩
  | done step => exact ⟨[], rfl, by rwa [List.append_nil]⟩

theorem advance_untouched (h : p.step.beforeHeader) (outputs : Registry) :
    (p.advance outputs).outputs = outputs := by
  cases hs : p.step with
  | envelope =>
    simp only [advance, hs]
    split <;> rfl
  | header => rw [advance_header hs]
  | bundleList | bundles | done =>
    rw [hs] at h
    cases h

/-- What carries over from use to use. -/
structure Tallies (p : ResponseParser) (fed : Bytes)
    (given : List (Except DecodeError Progress)) : Prop where
  bytes : ∃ taken, fed = taken ++ p.buffered ∧ Taken p.header p.step taken
  count : given.countP announces = if p.step.beforeHeader then 0 else 1

variable {fed : Bytes} {given : List (Except DecodeError Progress)}

theorem Tallies.supply (h : p.Tallies fed given) (bytes : Bytes) :
    (p.supply bytes).Tallies (fed ++ bytes) given := by
  obtain ⟨⟨taken, hf, ht⟩, hc⟩ := h
  exact ⟨⟨taken, by rw [hf, List.append_assoc]; rfl, ht⟩, hc⟩

theorem Tallies.advance (h : p.Tallies fed given) {outputs : Registry}
    (ho : (p.advance outputs).outcome = .ok progress) :
    (p.advance outputs).parser.Tallies fed (given ++ [.ok progress]) := by
  obtain ⟨⟨taken, hf, ht⟩, hc⟩ := h
  have hp := advance_proceeds ho
  obtain ⟨more, hm, hq⟩ := hp.taken ht
  refine ⟨⟨taken ++ more, by rw [hf, hm, List.append_assoc], hq⟩, ?_⟩
  rw [List.countP_append, hc]
  by_cases hr : progress = .headerReady
  · obtain ⟨hb, hn⟩ := hp.headerReady_iff.mp hr
    rw [if_pos hb, if_neg hn, hr]
    rfl
  · have ha : [Except.ok progress].countP announces = 0 := by
      cases progress with
      | headerReady => exact absurd rfl hr
      | needsMoreInput | finished => rfl
    rw [ha, Nat.add_zero]
    by_cases hb : (p.advance outputs).parser.step.beforeHeader
    · rw [if_pos hb, if_pos (hp.beforeHeader hb)]
    · rw [if_neg hb, if_neg fun h => hr (hp.headerReady_iff.mpr ⟨h, hb⟩)]

theorem Tallies.drive (h : p.Tallies fed given) {uses : List Use}
    (ok : ∀ answer ∈ p.answers uses, answer.isOk) :
    (p.drive uses).Tallies (fed ++ supplied uses) (given ++ p.answers uses) := by
  induction uses generalizing p fed given with
  | nil =>
    rw [supplied, answers, List.flatMap_nil, List.append_nil, List.append_nil]
    exact h
  | cons use rest ih =>
    obtain ⟨hu, hr⟩ := List.forall_mem_append.mp ok
    have hn : (use.next p).Tallies (fed ++ use.bytes) (given ++ (use.answer? p).toList) := by
      cases use with
      | supply bytes =>
        rw [Use.answer?, Option.toList_none, List.append_nil]
        exact h.supply bytes
      | register name slot =>
        rw [Use.answer?, Option.toList_none, List.append_nil, Use.bytes, List.append_nil]
        exact ⟨h.bytes, h.count⟩
      | advance outputs =>
        rw [Use.answer?, Option.toList_some, Use.bytes, List.append_nil]
        cases ho : (p.advance outputs).outcome with
        | error e =>
          have he := hu _ (List.mem_singleton.mpr rfl)
          rw [ho] at he
          cases he
        | ok progress => exact h.advance ho
    have hd := ih hn hr
    rwa [List.append_assoc, List.append_assoc] at hd

/-- A parser that has not failed since its reset accounts for all bytes. A new parser is as one that
was just reset. -/
theorem accounts_drive (p : ResponseParser) (uses : List Use)
    (ok : ∀ answer ∈ p.reset.answers uses, answer.isOk) :
    (p.reset.drive uses).Accounts (supplied uses) (p.reset.answers uses) := by
  have h0 : p.reset.Tallies [] [] := ⟨⟨[], rfl, .envelope⟩, rfl⟩
  obtain ⟨bytes, count⟩ := h0.drive ok
  rw [List.nil_append] at bytes count
  exact
    { bytes
      once := by
        rw [count]
        split <;> decide
      announced := fun outputs progress ho => (advance_proceeds ho).headerReady_iff
      untouched := by
        intro hn outputs
        apply advance_untouched
        rw [count] at hn
        split at hn
        · assumption
        · cases hn
      cut := fun outputs ho => (advance_proceeds ho).short_of_needsMoreInput.incomplete
      idles := fun outputs ho uses hu others =>
        ((advance_proceeds ho).short_of_needsMoreInput.drive hu).advance others }

/-- A response of one bundle, cut inside the header and before the bundle, with a binding that comes
late and one to a slot that is not there. -/
def lateBinding : List Use :=
  [.supply [0x92, 0x98, 0xA0], .advance {},
    .supply [0x01, 0x01, 0x00, 0x90, 0x90, 0x92, 0x01, 0x01, 0x91, 0xA1, 0x61, 0x91], .advance {},
    .register "b" 7, .advance {}, .register "a" 0, .supply [0x92, 0xA1, 0x61, 0x90],
    .advance ⟨[⟨"a", [1], #[0]⟩]⟩]

theorem accounts_drive_lateBinding :
    (∀ answer ∈ (ofLimits {}).answers lateBinding, answer.isOk) ∧
      ((ofLimits {}).drive lateBinding).Accounts (supplied lateBinding)
        ((ofLimits {}).answers lateBinding) := by
  have h : ∀ answer ∈ (ofLimits {}).answers lateBinding, answer.isOk := by decide +kernel
  exact ⟨h, accounts_drive (ofLimits {}) lateBinding h⟩

end SeismicStream.ResponseParser
