import SeismicStream.Encoder

namespace SeismicStream

/-- A string that is short enough to be written. -/
def Text.Writable (s : String) : Prop :=
  (Text.encode s).length < UInt32.size

instance (s : String) : Decidable (Text.Writable s) :=
  inferInstanceAs (Decidable (_ < _))

/-- All strings and lists are short enough to be written. -/
structure WireHeader.Writable (w : WireHeader) : Prop where
  pid : Text.Writable w.pid
  index : w.index.length < UInt32.size
  labels : w.labels.length < UInt32.size
  labelNames : ∀ name, .label name ∈ w.labels → Text.Writable name
  shapes : w.shapes.length < UInt32.size
  attributes : w.attributes.length < UInt32.size
  names : ∀ name ∈ w.attributes, Text.Writable name

structure WireCurtain.Writable (w : WireCurtain) : Prop where
  output : Text.Writable w.output
  major : w.major.length < UInt32.size
  minor : w.minor.length < UInt32.size
  values : w.values.length < UInt32.size

/-- All strings, lists and payloads are short enough to be written. -/
inductive SampledBundle.Writable : SampledBundle → Prop
  | slice {output : String} {tiles : List SampledTile} (name : Text.Writable output)
      (count : tiles.length < UInt32.size)
      (payloads : ∀ tile ∈ tiles, tile.toTile.values.length < UInt32.size) :
      Writable (.slice output tiles)
  | curtain {output : String} {runs : List SampledRun}
      (wire : (SampledBundle.wireCurtain output runs).Writable) : Writable (.curtain output runs)

structure Encoder.Writable (e : Encoder) : Prop where
  header : e.header.Writable
  count : e.bundles.length < UInt32.size
  bundles : ∀ bundle ∈ e.bundles, bundle.Writable

end SeismicStream
