import SeismicStream.Bundle.Basic
import SeismicStream.Msgpack.Reader

namespace SeismicStream

open Msgpack

/-- The two lists of spans in a curtain bundle. -/
inductive CurtainAxis
  /-- The traces of the runs. -/
  | major
  /-- The depths of the runs. -/
  | minor
deriving DecidableEq, Repr

def CurtainAxis.name : CurtainAxis → String
  | .major => "curtain major"
  | .minor => "curtain minor"

/-- Why bytes are no bundle. -/
inductive BundleError
  /-- A value of another kind, out of range, of another length or cut off. -/
  | malformed
  /-- A list of spans does not hold two ends for each run. -/
  | arity (axis : CurtainAxis) (expected : Word) (found : Nat)
  | inverted (span : Span)
deriving DecidableEq, Repr

def BundleError.message : BundleError → String
  | .malformed => "bundle: <msgpack>"
  | .arity axis expected found =>
    s!"expected {expected.toNat} slots in {axis.name}, was {found}"
  | .inverted span => s!"inverted range {span.first.toNat}..{span.stop.toNat}"

namespace Bundle

def readTile : Reader Tile := Reader.tuple 6 fun bs => do
  let (iterations, bs) ← Reader.word bs
  let (chunkSize, bs) ← Reader.word bs
  let (initialSkip, bs) ← Reader.word bs
  let (superstride, bs) ← Reader.word bs
  let (substride, bs) ← Reader.word bs
  let (values, bs) ← Reader.blob bs
  return ({ iterations, chunkSize, initialSkip, superstride, substride, values }, bs)

def readSlice : Reader Bundle := Reader.tuple 2 fun bs => do
  let (output, bs) ← Reader.text bs
  let (tiles, bs) ← Reader.list (fun _ => none) readTile bs
  return (.slice output tiles, bs)

def readCurtain : Reader WireCurtain := Reader.tuple 5 fun bs => do
  let (output, bs) ← Reader.text bs
  let (size, bs) ← Reader.word bs
  let (major, bs) ← Reader.words bs
  let (minor, bs) ← Reader.words bs
  let (values, bs) ← Reader.blob bs
  return ({ output, size, major, minor, values }, bs)

/-- The spans whose ends follow each other, after those in `front`, which are the last first. -/
def pairUp (front : List Span) : List Word → Except BundleError (List Span)
  | first :: stop :: rest =>
    if stop < first then .error (.inverted ⟨first, stop⟩)
    else pairUp (⟨first, stop⟩ :: front) rest
  | _ => .ok front.reverse

/-- The spans of `size` runs. -/
def spans (axis : CurtainAxis) (size : Word) (ends : List Word) : Except BundleError (List Span) :=
  let expected := Word.mulCapped size 2
  if ends.length = expected.toNat then pairUp [] ends
  else .error (.arity axis expected ends.length)

/-- The runs of a curtain. The traces are checked before the depths. -/
def ofWireCurtain (w : WireCurtain) : Except BundleError Bundle :=
  match spans .major w.size w.major with
  | .error e => .error e
  | .ok major =>
    match spans .minor w.size w.minor with
    | .error e => .error e
    | .ok minor =>
      .ok (.curtain w.output (List.zipWith Run.mk major minor) w.values)

/-- Reads a bundle from the front; the bytes after it do not matter. -/
def decode (operation : Operation) (bs : Bytes) : Except BundleError Bundle :=
  match operation with
  | .slice =>
    match readSlice bs with
    | some (bundle, _) => .ok bundle
    | none => .error .malformed
  | .curtain =>
    match readCurtain bs with
    | some (wire, _) => ofWireCurtain wire
    | none => .error .malformed

end Bundle

end SeismicStream
