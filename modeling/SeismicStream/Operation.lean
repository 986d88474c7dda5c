namespace SeismicStream

/-- What was asked of the volume. It decides how bundles are laid out. -/
inductive Operation
  /-- Tiles of samples, placed by strides. -/
  | slice
  /-- Runs of traces, each with a range of depths. -/
  | curtain
deriving DecidableEq, Repr

namespace Operation

def ofWire? (value : Int64) : Option Operation :=
  if value = 1 then some .slice
  else if value = 2 then some .curtain
  else none

def toWire : Operation → Int64
  | .slice => 1
  | .curtain => 2

def name : Operation → String
  | .slice => "slice"
  | .curtain => "curtain"

theorem ofWire?_eq_some_iff {value : Int64} {op : Operation} :
    ofWire? value = some op ↔ value = op.toWire := by
  unfold ofWire?
  cases op <;> grind [toWire]

end Operation

end SeismicStream
