import SeismicStream.Parser.Response
import SeismicStream.Session.Basic

namespace SeismicStream

/-- Why the header of a file cannot be shown. -/
inductive InspectError
  | incomplete
  | decode (e : DecodeError)
  | header (e : HeaderError)
  /-- The parser came to the end without a header. -/
  | finished
  /-- The parser announced a header and then had none. -/
  | unreadable
deriving DecidableEq, Repr

def InspectError.message : InspectError → String
  | .incomplete => "file ends before the header is complete"
  | .decode e => e.message
  | .header e => e.message
  | .finished => "stream finished without a header"
  | .unreadable => "parser produced no header"

namespace File

/-- The header of a file. No output is allocated, and the payload is not looked at. -/
def inspect (bytes : Bytes) : Except InspectError Header :=
  let advanced := ((ResponseParser.ofLimits {}).supply bytes).advance {}
  match advanced.outcome with
  | .error e => .error (.decode e)
  | .ok .needsMoreInput => .error .incomplete
  | .ok .finished => .error .finished
  | .ok .headerReady =>
    match advanced.parser.header with
    | none => .error .unreadable
    | some wire => (Header.ofWire wire).mapError .header

/-- The response in a file, which is fed whole or in pieces of a given size. -/
def decode (bytes : Bytes) (pieceSize : Option Word) : Except DecodeError DecodeResult :=
  let size := max ((pieceSize.map UInt64.toNat).getD bytes.length) 1
  (Session.decodePieces (Session.start (ResponseParser.ofLimits {}) {}) (pieces size bytes)).1

end File

end SeismicStream
