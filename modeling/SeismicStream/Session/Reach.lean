import SeismicStream.Parser.Response
import SeismicStream.Response

namespace SeismicStream
open Msgpack

/-- An error that only comes when the header of the stream is read and checked. -/
def DecodeError.pastHeader : DecodeError → Prop
  | .malformedHeader _ => False
  | .allocation .. => True
  | .truncated state _ => state = .awaitingPayload
  | .malformedPayload _ => True
  | .beyondMemory => True

/-- A session that got past the header of its stream, whatever came of the payload. -/
def Phase.pastHeader : Phase → Prop
  | .live stage => stage.state = .awaitingPayload
  | .done _ => True
  | .failed e => e.pastHeader

/-- After the head of the stream there is a whole value that is no longer than a header may be. -/
def HeaderWithin (limits : Limits) (bytes : Bytes) : Prop :=
  ∃ head value rest, bytes = head ++ (value ++ rest) ∧ IsArrayHead 2 head ∧ IsValue value ∧
    value.length ≤ limits.maxHeaderBytes.toNat

/-- What the limit on the header means for a session that heard some bytes. -/
structure Session.HeaderGuarded (limits : Limits) (s : Session ResponseParser) (bytes : Bytes) :
    Prop where
  /-- No more is held before the end of the header than a header may take, or a part of the head
  before it. -/
  bounded : s.state = .idle ∨ s.state = .awaitingHeader →
    s.parser.buffered.length ≤ max limits.maxHeaderBytes.toNat 4
  within : s.phase.pastHeader → HeaderWithin limits bytes
  stops : ∀ head value rest, bytes = head ++ (value ++ rest) → IsArrayHead 2 head → IsValue value →
    limits.maxHeaderBytes.toNat < value.length → ¬ s.phase.pastHeader
  /-- A header that is short enough is not called too long, whatever comes behind it. -/
  spares : ∀ more, HeaderWithin limits (bytes ++ more) → ∀ limit atLeast,
    s.phase ≠ .failed (.malformedHeader (.oversized limit atLeast))

end SeismicStream
