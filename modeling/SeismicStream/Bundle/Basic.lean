import SeismicStream.Operation
import SeismicStream.Sample
import SeismicStream.Word

namespace SeismicStream

/-- The positions from `first` up to, but not including, `stop`. -/
structure Span where
  first : Word
  stop : Word
deriving DecidableEq, Repr

/-- How many positions a span has. A span that stops before it begins has none. -/
def Span.length (s : Span) : Word :=
  if s.first < s.stop then s.stop - s.first else 0

/-- Where a tile's samples come from and go to: copy `i` takes `chunkSize` samples from
`i * substride` on and puts them from `i * superstride + initialSkip` on. -/
structure Strides where
  iterations : Word
  chunkSize : Word
  initialSkip : Word
  superstride : Word
  substride : Word
deriving DecidableEq, Repr

structure Tile extends Strides where
  values : Bytes
deriving DecidableEq, Repr

/-- Every trace of `traces` takes the depths `depths`, one trace after the other. -/
structure Run where
  traces : Span
  depths : Span
deriving DecidableEq, Repr

/-- A part of the payload, for one output. -/
inductive Bundle
  | slice (output : String) (tiles : List Tile)
  | curtain (output : String) (runs : List Run) (values : Bytes)
deriving DecidableEq, Repr

/-- The name of the output that takes the samples. -/
def Bundle.output : Bundle → String
  | .slice output _ => output
  | .curtain output _ _ => output

/-- A curtain bundle as it travels: how many runs it has, and the ends of their spans. -/
structure WireCurtain where
  output : String
  size : Word
  major : List Word
  minor : List Word
  values : Bytes
deriving DecidableEq, Repr

end SeismicStream
