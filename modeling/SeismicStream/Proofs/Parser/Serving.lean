import SeismicStream.Proofs.Bundle.Layout
import SeismicStream.Proofs.Faults
import SeismicStream.Proofs.Header.Basic
import SeismicStream.Proofs.Parser.Bundles
import SeismicStream.Proofs.Parser.Proceeds

namespace SeismicStream.ResponseParser
open Msgpack

variable {p : ResponseParser} {header : Header} {outputs : Registry}

/-- A parser that has no header yet, and no outputs. -/
structure Bare (p : ResponseParser) : Prop where
  step : p.step = .envelope ∨ p.step = .header
  header : p.header = none
  operation : p.operation = none
  bindings : p.bindings = []

/-- A parser that holds the header and the operation of a session, and whose outputs are bound, with
the outputs laid out as the header says. -/
structure Serves (p : ResponseParser) (header : Header) (outputs : Registry) : Prop where
  announced : ∃ wire, p.header = some wire ∧ Header.ofWire wire = .ok header
  operation : p.operation = some header.operation
  /-- The name at a position is bound to that position, and nothing else is bound. -/
  bindings : ∀ name slot, p.bindings.lookup name = some slot ↔ header.names[slot]? = some name
  /-- There is one slot for each attribute, with as many samples as the shape says. -/
  layout : outputs.layout = header.layout

theorem takeHeader_ordinary {e : DecodeError} (h : p.takeHeader.1 = .error e) : e.Ordinary := by
  unfold takeHeader at h
  split at h
  · cases h
    trivial
  · split at h
    · cases h
      trivial
    · cases h
  · split at h
    · cases h
      trivial
    · unfold openHeader at h
      split at h
      · cases h
        trivial
      · split at h
        · cases h
          trivial
        · cases h

theorem Bare.ordinary (h : p.Bare) {e : DecodeError}
    (he : (p.advance outputs).outcome = .error e) : e.Ordinary := by
  rcases h.step with hs | hs
  · simp only [advance, hs] at he
    split at he
    · cases he
      trivial
    · cases he
    · exact takeHeader_ordinary he
  · rw [advance_header hs] at he
    exact takeHeader_ordinary he

/-- What a parser without a header comes to when it does not fail, and the parser after that. -/
inductive Opening (p : ResponseParser) : Progress → ResponseParser → Prop
  | pending {q : ResponseParser} (bare : q.Bare) : Opening p .needsMoreInput q
  | ready {wire : WireHeader} {operation : Operation} {rest : Bytes}
      (named : Operation.ofWire? wire.function = some operation) :
      Opening p .headerReady (p.opened wire operation rest)

theorem Bare.opening (h : p.Bare) {progress : Progress} {q : ResponseParser}
    (hp : Proceeds p progress q) : Opening p progress q := by
  induction hp with
  | short short => exact .pending h
  | envelope step split head goesOn ih =>
    cases ih ⟨.inr rfl, h.header, h.operation, h.bindings⟩ with
    | pending bare => exact .pending bare
    | ready named => exact .ready named
  | header step split opens => exact .ready opens.named
  | bundleList step | bundle step | finished step | done step =>
    rcases h.step with hs | hs <;> (rw [step] at hs; cases hs)

theorem Serves.slot_lt (h : p.Serves header outputs) {name : String} {slot : Nat}
    (hl : p.bindings.lookup name = some slot) : slot < outputs.buffers.length := by
  have hn : header.names.length = outputs.buffers.length := by
    have := congrArg List.length h.layout
    simp only [Registry.layout, Header.layout, List.length_map] at this
    rw [Header.names, List.length_map, this]
  obtain ⟨hlt, -⟩ := List.getElem?_eq_some_iff.mp ((h.bindings name slot).mp hl)
  exact hn ▸ hlt

/-- A header that was announced for a session is served once its outputs are bound. -/
theorem serves_bound {wire : WireHeader} {limits : Limits} (hw : p.header = some wire)
    (ho : p.operation = Operation.ofWire? wire.function) (hb : p.bindings = [])
    (hh : Header.ofWire wire = .ok header) (ha : Registry.allocate header limits = .ok outputs) :
    (p.bound outputs).Serves header outputs := by
  obtain ⟨hf, -⟩ := Header.ofWire_ok hh
  have hp : (p.bound outputs).bindings = header.names.zipIdx.reverse := by
    rw [bound, hb, List.append_nil, Registry.handles_eq, Registry.names_allocate ha]
  refine ⟨⟨wire, hw, hh⟩, ho.trans hf, ?_, Registry.layout_allocate ha⟩
  intro name slot
  rw [hp]
  exact lookup_reverse_zipIdx_iff header.names_nodup

/-- A step of a parser that serves a session: its errors are ordinary, and it goes on to serve. -/
structure Keeps (header : Header) (a : Advanced ResponseParser) : Prop where
  faults : ∀ e, a.outcome = .error e → e.Ordinary
  serves : a.parser.Serves header a.outputs

theorem Keeps.of_error {e : DecodeError} (ordinary : e.Ordinary) (h : p.Serves header outputs) :
    Keeps header ⟨.error e, p, outputs⟩ := by
  refine ⟨?_, h⟩
  intro e' he
  cases he
  exact ordinary

theorem Keeps.of_ok {progress : Progress} (h : p.Serves header outputs) :
    Keeps header ⟨.ok progress, p, outputs⟩ :=
  ⟨nofun, h⟩

theorem Serves.move (h : p.Serves header outputs) (step : Step) :
    Serves { p with step } header outputs :=
  ⟨h.announced, h.operation, h.bindings, h.layout⟩

theorem Serves.drop (h : p.Serves header outputs) (rest : Bytes) :
    Serves { p with buffered := rest } header outputs :=
  ⟨h.announced, h.operation, h.bindings, h.layout⟩

theorem Serves.relaid (h : p.Serves header outputs) {after : Registry}
    (hl : after.layout = outputs.layout) : p.Serves header after :=
  ⟨h.announced, h.operation, h.bindings, hl.trans h.layout⟩

/-- A bundle is routed to a slot that is there, and leaves the layout. -/
theorem Serves.route (h : p.Serves header outputs) (bytes : Bytes) :
    (∀ e, (p.route bytes outputs).1 = .error e → e.Ordinary) ∧
      (p.route bytes outputs).2.layout = outputs.layout := by
  simp only [ResponseParser.route, h.operation]
  split
  · refine ⟨?_, rfl⟩
    intro e he
    cases he
    trivial
  rename_i bundle hd
  split
  · refine ⟨?_, rfl⟩
    intro e he
    cases he
  rename_i slot hl
  have hs := bundle.size_scatter ((p.header.map WireHeader.index).getD [])
  split
  · rename_i after hu
    exact absurd (h.slot_lt hl) (Nat.not_lt.mpr (Registry.le_of_update_none hu))
  · rename_i e after hu
    refine ⟨?_, Registry.layout_update hu hs⟩
    intro e he
    cases he
    trivial
  · rename_i count after hu
    refine ⟨?_, Registry.layout_update hu hs⟩
    intro e he
    cases he

theorem Serves.takeBundles (h : p.Serves header outputs) (n : Nat) :
    Keeps header (takeBundles n p outputs) := by
  induction n generalizing p outputs with
  | zero => exact .of_ok (h.move .done)
  | succ n ih =>
    unfold ResponseParser.takeBundles
    split
    · exact .of_error trivial (h.move _)
    · exact .of_ok (h.move _)
    · rename_i size _
      have hd := h.drop (p.buffered.drop size)
      have hr := hd.route (p.buffered.take size)
      dsimp only
      split
      · rename_i e after ha
        rw [ha] at hr
        obtain ⟨hf, hl⟩ := hr
        exact .of_error (hf e rfl) ((hd.relaid hl).move _)
      · rename_i u after ha
        rw [ha] at hr
        exact ih (hd.relaid hr.2)

theorem Serves.advance (h : p.Serves header outputs) (hc : p.Collecting) :
    Keeps header (p.advance outputs) := by
  rcases hc with hs | ⟨n, hs⟩
  · rw [advance_bundleList hs]
    unfold takeBundleList
    split
    · exact .of_error trivial h
    · exact .of_ok h
    · split
      · exact .of_error trivial h
      · exact (h.drop _).takeBundles _
  · rw [advance_bundles hs]
    exact h.takeBundles n

end SeismicStream.ResponseParser
