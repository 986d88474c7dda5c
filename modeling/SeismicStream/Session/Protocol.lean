import SeismicStream.Parser.Guarded
import SeismicStream.Parser.Traced
import SeismicStream.Session.Runs

namespace SeismicStream

/-- How a session stands with its parser. -/
inductive Footing
  /-- The parser was given no bytes. -/
  | unfed
  /-- The parser was given bytes, and no outputs are bound. -/
  | fed
  /-- Outputs are bound, and stand as the parser left them. -/
  | bound (outputs : Registry)

namespace Footing

def wake : Footing → Bytes → Footing
  | .unfed, _ :: _ => .fed
  | footing, _ => footing

/-- Where an advance with bound outputs leads. An end and an error lead nowhere. -/
def next? : Except DecodeError Progress → Registry → Option Footing
  | .ok .needsMoreInput, left => some (.bound left)
  | .ok .headerReady, left => some (.bound left)
  | .ok .finished, _ => none
  | .error _, _ => none

end Footing

/-- An empty piece is not supplied. -/
def supplies : Bytes → List Event
  | [] => []
  | piece => [.supply piece]

/-- Every output of a header is bound to its position, first output first. -/
def registers (header : Header) : List Event :=
  header.names.zipIdx.map fun (name, slot) => .register name slot

/-- How the header is read and its outputs are bound. Nothing is bound unless the whole header passes
and all outputs are allocated. -/
inductive Binding (limits : Limits) : List Event → Option Registry → Prop
  | unreadable : Binding limits [.readHeader none] none
  | unchecked {wire : WireHeader} {e : HeaderError} (refused : Header.ofWire wire = .error e) :
      Binding limits [.readHeader (some wire)] none
  | unallocated {wire : WireHeader} {header : Header} {e : DecodeError}
      (checked : Header.ofWire wire = .ok header)
      (refused : Registry.allocate header limits = .error e) :
      Binding limits [.readHeader (some wire)] none
  | bound {wire : WireHeader} {header : Header} {outputs : Registry}
      (checked : Header.ofWire wire = .ok header)
      (allocated : Registry.allocate header limits = .ok outputs) :
      Binding limits (.readHeader (some wire) :: registers header) (some outputs)

/-- What a session asks of its parser in one turn, and how it stands afterwards. The turn that
settles the session leads nowhere. -/
inductive Asks (limits : Limits) : Footing → List Event → Option Footing → Prop
  | nothing : Asks limits .unfed [] (some .unfed)
  | short {left : Registry} :
      Asks limits .fed [.advance {} (.ok .needsMoreInput) left] (some .fed)
  | early {left : Registry} : Asks limits .fed [.advance {} (.ok .finished) left] none
  | failed {e : DecodeError} {left : Registry} : Asks limits .fed [.advance {} (.error e) left] none
  | unbound {left : Registry} {events : List Event} (binding : Binding limits events none) :
      Asks limits .fed (.advance {} (.ok .headerReady) left :: events) none
  | opened {left outputs after : Registry} {events : List Event}
      {outcome : Except DecodeError Progress} (binding : Binding limits events (some outputs)) :
      Asks limits .fed
        (.advance {} (.ok .headerReady) left :: events ++ [.advance outputs outcome after])
        (Footing.next? outcome after)
  | poured {outputs after : Registry} {outcome : Except DecodeError Progress} :
      Asks limits (.bound outputs) [.advance outputs outcome after] (Footing.next? outcome after)

/-- How a session uses its parser from some footing on, when it is fed these inputs and then given
up. Inputs that come after the session is settled do not reach the parser. -/
inductive Protocol (limits : Limits) : Footing → List (Option Bytes) → List Event → Prop
  | abandoned {footing : Footing} : Protocol limits footing [] [.release]
  | continued {footing next : Footing} {piece : Bytes} {inputs : List (Option Bytes)}
      {events later : List Event} (asks : Asks limits (footing.wake piece) events (some next))
      (goesOn : Protocol limits next inputs later) :
      Protocol limits footing (some piece :: inputs) (supplies piece ++ events ++ later)
  | settled {footing : Footing} {piece : Bytes} {inputs : List (Option Bytes)}
      {events : List Event} (asks : Asks limits (footing.wake piece) events none) :
      Protocol limits footing (some piece :: inputs) (supplies piece ++ events ++ [.release])
  | closed {footing : Footing} {next : Option Footing} {inputs : List (Option Bytes)}
      {events : List Event} (asks : Asks limits footing events next) :
      Protocol limits footing (none :: inputs) (events ++ [.release])

/-- How a session ends that nobody feeds any more. -/
inductive Ending
  | dispose
  | drop

/-- A session that guards its parser and keeps a record of how it is used. -/
def Session.watched {σ : Type} [Parser σ] (parser : σ) (limits : Limits) :
    Session (Guarded (Traced σ)) :=
  start (.hold ⟨parser, []⟩) limits

/-- The parser after a session that guards it has ended. The guard asks for a release once more when
it goes. -/
def Session.discard {σ : Type} [Parser σ] (s : Session (Guarded σ)) : Ending → σ
  | .dispose => (Parser.release s.dispose).parser
  | .drop => (Parser.release s.parser).parser

end SeismicStream
