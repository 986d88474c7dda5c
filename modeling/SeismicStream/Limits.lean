import SeismicStream.Shape

namespace SeismicStream

/-- How much a stream may make its reader hold, and how much is read at a time. -/
structure Limits where
  /-- The most samples that one output may have. -/
  maxElements : Word := 0x10000000
  /-- The most bytes that the header may take. -/
  maxHeaderBytes : Word := 0x100000
  /-- The bytes asked for in one read. -/
  readChunkSize : Word := 0x10000
deriving DecidableEq, Repr

/-- How many samples a shape holds, if there is one at least and no more than the limit. -/
def Limits.count? (limits : Limits) (shape : Shape) : Option Word :=
  shape.count?.filter fun n => 0 < n && n ≤ limits.maxElements

end SeismicStream
