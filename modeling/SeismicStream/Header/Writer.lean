import SeismicStream.Header.Wire
import SeismicStream.Msgpack.Writer

namespace SeismicStream

open Msgpack

def LabelToken.write : LabelToken → Bytes
  | .count n => Writer.word n
  | .label name => Writer.text name

namespace WireHeader

/-- The value of a field. -/
def writeField (h : WireHeader) : Field → Bytes
  | .pid => Writer.text h.pid
  | .function => Writer.int h.function.toInt
  | .bundleCount => Writer.nat h.bundleCount.toNat
  | .ndims => Writer.nat h.ndims.toNat
  | .index => Writer.list (fun n => Writer.int n.toInt) h.index
  | .labels => Writer.list LabelToken.write h.labels
  | .shapes => Writer.list Writer.word h.shapes
  | .attributes => Writer.list Writer.text h.attributes

/-- A map of all fields by name, in order. -/
def encode (h : WireHeader) : Bytes :=
  Writer.mapHead Field.all.length ++
    Field.all.flatMap fun field => Writer.text field.key ++ h.writeField field

end WireHeader

end SeismicStream
