import SeismicStream.Bundle.Reader
import SeismicStream.Bundle.Scatter
import SeismicStream.Header.Basic
import SeismicStream.Msgpack.Extent
import SeismicStream.Session.State

namespace SeismicStream

/-- What is wrong with the head of a stream. -/
inductive HeaderFault
  | framing (e : Msgpack.FramingError)
  | header (e : HeaderError)
  /-- The header takes more bytes than it may. -/
  | oversized (limit : Word) (atLeast : Nat)
  /-- A parser announced a header and then had none. -/
  | unreadable
  /-- A parser came to the end before there were outputs. -/
  | finished (state : SessionState)
  /-- A parser's own words. -/
  | stated (reason : String)
deriving DecidableEq, Repr

def HeaderFault.reason : HeaderFault → String
  | .framing e => e.message
  | .header e => e.message
  | .oversized limit atLeast => s!"header exceeds {limit.toNat} bytes (at least {atLeast})"
  | .unreadable => "parser reported a header it cannot produce"
  | .finished state => "stream finished while " ++ state.text
  | .stated reason => reason

/-- What is wrong with the bundles of a stream. -/
inductive PayloadFault
  | framing (e : Msgpack.FramingError)
  | bundle (e : BundleError)
  | bundleCount (declared carried : Nat)
  /-- A bundle came before the header that says how to read it. -/
  | noHeader
  /-- A bundle's output is bound to a slot that is not there. -/
  | noSlot (slot : Nat) (output : String)
  | scatter (output : String) (e : ScatterError)
  /-- A parser's own words. -/
  | stated (reason : String)
deriving DecidableEq, Repr

def PayloadFault.reason : PayloadFault → String
  | .framing e => e.message
  | .bundle e => e.message
  | .bundleCount declared carried =>
    s!"header declares {declared} bundles, stream carries {carried}"
  | .noHeader => "bundle before header"
  | .noSlot slot output => s!"no output slot {slot} for {Text.quoted output}"
  | .scatter output e => s!"attribute {Text.quoted output}: {e.message}"
  | .stated reason => reason

/-- Why a stream cannot be decoded. -/
inductive DecodeError
  | malformedHeader (fault : HeaderFault)
  /-- An output is empty, or larger than the limit. -/
  | allocation (name : String) (shape : Shape) (limit : Word)
  /-- The input ended before the stream did. -/
  | truncated (state : SessionState) (received : Nat)
  | malformedPayload (fault : PayloadFault)
  /-- A buffer would take more bytes than one may. Nobody is told: the program stops there, and the
  session goes with it, which releases its parser. -/
  | beyondMemory
deriving DecidableEq, Repr

def DecodeError.message : DecodeError → String
  | .malformedHeader fault => "malformed header: " ++ fault.reason
  | .allocation name shape limit =>
    s!"cannot allocate attribute {Text.quoted name} with shape {shape.text} " ++
      s!"(limit {limit.toNat} elements)"
  | .truncated state received =>
    s!"stream truncated while {state.text} ({received} bytes received)"
  | .malformedPayload fault => "malformed payload: " ++ fault.reason
  | .beyondMemory => "capacity overflow"

end SeismicStream
