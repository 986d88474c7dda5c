import SeismicStream.Decimal.Shortest
import SeismicStream.Document
import SeismicStream.Session.Basic

namespace SeismicStream

/-- The least, the greatest and the sum of an output's samples. What is no number is passed over by
the first two. -/
structure Stats where
  min : Sample
  max : Sample
  /-- The bits of a double-precision number. -/
  sum : UInt64

namespace Stats

/-- Of two equal samples the later one is taken, so a zero has the sign that was met last. -/
def lesser (least s : Sample) : Sample :=
  if Float32.ofBits s ≤ Float32.ofBits least then s else least

def greater (greatest s : Sample) : Sample :=
  if Float32.ofBits greatest ≤ Float32.ofBits s then s else greatest

/-- The extremes start at the infinities, and the sum at the negative zero, which changes no
number that is added to it. -/
def of (samples : Array Sample) : Stats where
  min := samples.foldl lesser 0x7F800000
  max := samples.foldl greater 0xFF800000
  sum := (samples.foldl (fun sum s => sum + (Float32.ofBits s).toFloat)
    (Float.ofBits 0x8000000000000000)).toBits

end Stats

namespace Report

open Decimal

/-- Single-precision numbers have no exponent from a millionth up to twelve zeros. -/
def singleLayout : Layout := ⟨-6, 12⟩

/-- Double-precision numbers have no exponent from five places up to fifteen zeros. -/
def doubleLayout : Layout := ⟨-5, 15⟩

def single (s : Sample) : Binary := Format.single.read s.toNat

def double (bits : UInt64) : Binary := Format.double.read bits.toNat

/-- A text filled up with blanks to a number of characters. -/
def padded (width : Nat) (s : String) : String :=
  s ++ String.ofList (List.replicate (width - s.length) ' ')

/-- What follows a count of other than one. -/
def plural (n : Nat) : String :=
  if n = 1 then "" else "s"

def outputLine (slot : Nat) (a : Attribute) : String :=
  let samples := match a.shape.count? with
    | some n => toString n.toNat
    | none => "overflowing"
  s!"Attribute {slot}: {a.name} shape={a.shape.text} labels={Text.bracketed a.labels} " ++
    s!"({samples} samples)\n"

/-- A header, one field a line. -/
def header (h : Header) : String :=
  s!"Function:   {h.operation.name}\n" ++
  s!"Pid:        {Text.quoted h.pid}\n" ++
  s!"Dimensions: {h.ndims.toNat}\n" ++
  s!"Index:      {Text.bracketed (h.index.map fun n => toString n.toInt)}\n" ++
  s!"Bundles:    {h.bundleCount.toNat}\n" ++
  String.join (h.attributes.zipIdx.map fun (a, slot) => outputLine slot a)

def statsLine (b : Buffer) : String :=
  let stats := Stats.of b.samples
  s!"{padded 8 b.name} shape={b.shape.text}  len={b.samples.size}" ++
    s!"  min={fixed 6 (single stats.min)}  max={fixed 6 (single stats.max)}" ++
    s!"  sum={fixed 6 (double stats.sum)}\n"

/-- A line for the header and one for each output. -/
def table (r : DecodeResult) : String :=
  r.header.text ++ "\n" ++ String.join (r.buffers.map statsLine)

def headerDocument (h : Header) : Document :=
  .object [
    ("pid", .text h.pid),
    ("function", .text h.operation.name),
    ("bundle_count", .nat h.bundleCount.toNat),
    ("ndims", .nat h.ndims.toNat),
    ("index", .list (fun n => .int n.toInt) h.index),
    ("attributes", .list .text h.names),
    ("shapes", .list (.list fun axis => .nat axis.toNat) h.shapes),
    ("labels", .list (.list .text) h.labels)]

def statsDocument (b : Buffer) : Document :=
  let stats := Stats.of b.samples
  .object [
    ("name", .text b.name),
    ("shape", .list (fun axis => .nat axis.toNat) b.shape),
    ("len", .nat b.samples.size),
    ("min", .number? (singleLayout.number? (single stats.min))),
    ("max", .number? (singleLayout.number? (single stats.max))),
    ("sum", .number? (doubleLayout.number? (double stats.sum)))]

def document (r : DecodeResult) : String :=
  Document.object [
    ("header", headerDocument r.header),
    ("attributes", .list statsDocument r.buffers)] 0 ++ "\n"

/-- What a response holds, said in three lines. -/
def validity (r : DecodeResult) : String :=
  let outputs := r.buffers.length
  let bundles := r.header.bundleCount.toNat
  let samples := r.buffers.foldl (fun n b => n + b.samples.size) 0
  s!"✓ Header: {r.header.operation.name}, {outputs} attribute{plural outputs}\n" ++
  s!"✓ Allocation: {samples} samples\n" ++
  s!"✓ Payload: {bundles} bundle{plural bundles} routed\n"

end Report

end SeismicStream
