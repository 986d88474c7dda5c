import SeismicStream.Parser.Basic

namespace SeismicStream

/-- One use of a parser. -/
inductive Call
  | reset
  | supply (bytes : Bytes)
  | advance (outputs : Registry)
  | readHeader
  | register (name : String) (slot : Nat)
  | release
deriving DecidableEq, Repr

/-- One use of a parser, and what the parser answered. -/
inductive Event
  | reset
  | supply (bytes : Bytes)
  /-- The outputs as they were given, the answer, and the outputs as they were left. -/
  | advance (given : Registry) (outcome : Except DecodeError Progress) (left : Registry)
  | readHeader (answer : Option WireHeader)
  | register (name : String) (slot : Nat)
  | release

def Event.call : Event → Call
  | .reset => .reset
  | .supply bytes => .supply bytes
  | .advance given _ _ => .advance given
  | .readHeader _ => .readHeader
  | .register name slot => .register name slot
  | .release => .release

/-- Whether the use reads the header or binds an output. -/
def Event.binds : Event → Bool
  | .readHeader _ => true
  | .register _ _ => true
  | _ => false

/-- A parser with a record of how it was used, first use first. -/
structure Traced (σ : Type) where
  parser : σ
  events : List Event := []

namespace Traced

variable {σ : Type}

/-- The uses without the answers. -/
def calls (t : Traced σ) : List Call :=
  t.events.map Event.call

/-- Notes a use that leaves the parser as given. -/
def note (t : Traced σ) (event : Event) (parser : σ) : Traced σ :=
  ⟨parser, t.events ++ [event]⟩

variable [Parser σ]

instance : Parser (Traced σ) where
  reset t := t.note .reset (Parser.reset t.parser)
  supply t bytes := t.note (.supply bytes) (Parser.supply t.parser bytes)
  advance t outputs :=
    let advanced := Parser.advance t.parser outputs
    ⟨advanced.outcome,
      t.note (.advance outputs advanced.outcome advanced.outputs) advanced.parser,
      advanced.outputs⟩
  readHeader t :=
    let (header, parser) := Parser.readHeader t.parser
    (header, t.note (.readHeader header) parser)
  register t name slot := t.note (.register name slot) (Parser.register t.parser name slot)
  release t := t.note .release (Parser.release t.parser)

end Traced

end SeismicStream
