import SeismicStream.Header.Basic
import SeismicStream.Header.Reader
import SeismicStream.Header.Writer
import SeismicStream.Msgpack.Extent

namespace SeismicStream

/-- Reads the header at the front and checks it. -/
def Header.decode (bs : Bytes) : Except HeaderError Header :=
  match WireHeader.decode bs with
  | .error e => .error (.fields e)
  | .ok wire => ofWire wire

/-- What is written of a header is one value, as long as a word can say its length, and is read back
whatever comes behind it. Nothing has to pass the checks for that; a header that passes them is read
back from what it sends. -/
structure WireHeader.ReadsBack (w : WireHeader) : Prop where
  whole : w.encode.length < UInt64.size → Msgpack.extent w.encode = .ok (some w.encode.length)
  same : ∀ more, decode (w.encode ++ more) = .ok w
  checked : ∀ header, Header.ofWire w = .ok header →
    ∀ more, Header.decode (header.toWire.encode ++ more) = .ok header

end SeismicStream
