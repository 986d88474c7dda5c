import SeismicStream.Parser.Traced
import SeismicStream.Response
import SeismicStream.Session.Runs

namespace SeismicStream

/-- A shape has samples, and no more than one output may have. -/
def Limits.Allows (limits : Limits) (shape : Shape) : Prop :=
  0 < shape.product ∧ shape.product ≤ limits.maxElements.toNat

instance (limits : Limits) (shape : Shape) : Decidable (limits.Allows shape) :=
  inferInstanceAs (Decidable (_ ∧ _))

/-- One buffer may hold the samples of a shape. -/
def Shape.Holdable (shape : Shape) : Prop :=
  Memory.Holds shape.product Sample.width

instance (shape : Shape) : Decidable shape.Holdable :=
  inferInstanceAs (Decidable (Memory.Holds _ _))

/-- Why a header gets no outputs: the first of them has a shape that is not allowed. -/
inductive Header.Unallocatable (header : Header) (limits : Limits) : DecodeError → Prop
  | first {front back : List Attribute} {a : Attribute} (split : header.attributes = front ++ a :: back)
      (allowed : ∀ b ∈ front, limits.Allows b.shape) (refused : ¬limits.Allows a.shape) :
      Unallocatable header limits (.allocation a.name a.shape limits.maxElements)

/-- The outputs are those of the header, all zeros. Each is reached by its name and by its position,
and what is put into it there changes no other. -/
structure Registry.Allots (outputs : Registry) (header : Header) : Prop where
  buffers : outputs.buffers = header.attributes.map Attribute.zeros
  handles : outputs.handles = header.names.zipIdx
  found : ∀ (i : Nat) a, header.attributes[i]? = some a →
    outputs.get? a.name = some a.zeros ∧ outputs.slot? i = some a.zeros.samples
  written : ∀ (i : Nat) a, header.attributes[i]? = some a →
    ∀ {α : Type} (f : Array Sample → α × Array Sample),
      (outputs.update i f).1 = some (f a.zeros.samples).1 ∧
      (outputs.update i f).2.get? a.name = some { a.zeros with samples := (f a.zeros.samples).2 } ∧
      ∀ b ∈ header.attributes, b.name ≠ a.name →
        (outputs.update i f).2.get? b.name = some b.zeros

/-- A session failed, and its parser was never told of an output. -/
structure Session.Declined {σ : Type} (s : Session (Traced σ)) (e : DecodeError) : Prop where
  failed : s.phase = .failed e
  unbound : ∀ name slot, .register name slot ∉ s.parser.events

/-- The outputs of a header are allocated all together or not at all, by the number of samples that
their shapes have without any bound. A session that reads a header without room for its outputs
fails, whatever its parser is and was fed. -/
structure Header.AllOrNothing (header : Header) (limits : Limits) : Prop where
  allocated : (∃ outputs, Registry.allocate header limits = .ok outputs) ↔
    ∀ a ∈ header.attributes, limits.Allows a.shape
  allots : ∀ outputs, Registry.allocate header limits = .ok outputs → outputs.Allots header
  refused : ∀ e, Registry.allocate header limits = .error e ↔ header.Unallocatable limits e
  declined : ∀ e, Registry.allocate header limits = .error e →
    ∀ (σ : Type) [Parser σ] (parser : σ) (inputs : List (Option Bytes)) (wire : WireHeader),
      Header.ofWire wire = .ok header →
      .readHeader (some wire) ∈
        ((Session.start (⟨parser, []⟩ : Traced σ) limits).after inputs).parser.events →
      ((Session.start (⟨parser, []⟩ : Traced σ) limits).after inputs).Declined e

end SeismicStream
