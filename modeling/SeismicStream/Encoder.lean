import SeismicStream.Bundle.Writer
import SeismicStream.Header.Basic
import SeismicStream.Header.Writer

namespace SeismicStream

/-- A tile before it is written. -/
structure SampledTile extends Strides where
  samples : List Sample
deriving DecidableEq, Repr

/-- A run before it is written, with the samples of its traces one after the other. -/
structure SampledRun extends Run where
  samples : List Sample
deriving DecidableEq, Repr

/-- A bundle before it is written. -/
inductive SampledBundle
  | slice (output : String) (tiles : List SampledTile)
  | curtain (output : String) (runs : List SampledRun)
deriving DecidableEq, Repr

/-- The bytes of the samples, one after the other. -/
def Sample.payload (samples : List Sample) : Bytes :=
  samples.flatMap Sample.bytes

def SampledTile.toTile (t : SampledTile) : Tile :=
  { t.toStrides with values := Sample.payload t.samples }

namespace SampledBundle

def output : SampledBundle → String
  | .slice output _ => output
  | .curtain output _ => output

def operation : SampledBundle → Operation
  | .slice .. => .slice
  | .curtain .. => .curtain

/-- The runs of a curtain share one payload. -/
def wireCurtain (output : String) (runs : List SampledRun) : WireCurtain where
  output
  size := UInt64.ofNat runs.length
  major := runs.flatMap fun run => [run.traces.first, run.traces.stop]
  minor := runs.flatMap fun run => [run.depths.first, run.depths.stop]
  values := runs.flatMap fun run => Sample.payload run.samples

def write : SampledBundle → Bytes
  | .slice output tiles => writeSlice output (tiles.map SampledTile.toTile)
  | .curtain output runs => (wireCurtain output runs).write

end SampledBundle

/-- A response in the making. Nothing is checked before it is written. -/
structure Encoder where
  operation : Operation
  pid : String := ""
  ndims : UInt32 := 0
  index : List Int64 := []
  attributes : List Attribute := []
  bundles : List SampledBundle := []
deriving DecidableEq, Repr

/-- Why a response cannot be written. -/
inductive EncodeError
  | noAttributes
  /-- A bundle is for an output that was never declared. -/
  | unknownOutput (name : String)
  /-- A bundle is laid out for another operation. -/
  | operationMismatch (output : String) (expected found : Operation)
  /-- What was built would be refused on reading. -/
  | invalidHeader (e : HeaderError)
deriving DecidableEq, Repr

def EncodeError.message : EncodeError → String
  | .noAttributes => "no attributes have been added to the encoder"
  | .unknownOutput name => "bundle targets undeclared attribute " ++ Text.quoted name
  | .operationMismatch output expected found =>
    s!"{found.name} bundle for {Text.quoted output} in a {expected.name} stream"
  | .invalidHeader e => "invalid header: " ++ e.message

namespace Encoder

def addAttribute (e : Encoder) (a : Attribute) : Encoder :=
  { e with attributes := e.attributes ++ [a] }

def addBundle (e : Encoder) (b : SampledBundle) : Encoder :=
  { e with bundles := e.bundles ++ [b] }

/-- The header that is written. The number of bundles stays at the largest that the field holds. -/
def header (e : Encoder) : WireHeader where
  pid := e.pid
  function := e.operation.toWire
  bundleCount := UInt32.ofNat (min e.bundles.length (UInt32.size - 1))
  ndims := e.ndims
  index := e.index
  labels := Packed.ofLabels (e.attributes.map Attribute.labels)
  shapes := Packed.ofShapes (e.attributes.map Attribute.shape)
  attributes := e.attributes.map Attribute.name

/-- Checks the bundles in order; the operation of a bundle comes before its output. -/
def checkBundles (e : Encoder) : List SampledBundle → Except EncodeError Unit
  | [] => .ok ()
  | b :: rest =>
    if b.operation ≠ e.operation then
      .error (.operationMismatch b.output e.operation b.operation)
    else if b.output ∈ e.attributes.map Attribute.name then checkBundles e rest
    else .error (.unknownOutput b.output)

/-- The response as bytes: an array of the header and the array of the bundles. -/
def encode (e : Encoder) : Except EncodeError Bytes :=
  if e.attributes.isEmpty then .error .noAttributes
  else
    match checkBundles e e.bundles with
    | .error err => .error err
    | .ok () =>
      match Header.ofWire e.header with
      | .error err => .error (.invalidHeader err)
      | .ok _ =>
        .ok (Msgpack.Writer.arrayHead 2 ++ e.header.encode ++
          Msgpack.Writer.list SampledBundle.write e.bundles)

end Encoder

end SeismicStream
