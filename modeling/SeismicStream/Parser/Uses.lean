import SeismicStream.Msgpack.Grammar
import SeismicStream.Parser.Response

namespace SeismicStream

open Msgpack

/-- One use of a response parser between a reset and a release. -/
inductive Use
  | supply (bytes : Bytes)
  | advance (outputs : Registry)
  | register (name : String) (slot : Nat)

namespace Use

/-- The bytes that a use brings. -/
def bytes : Use → Bytes
  | .supply bytes => bytes
  | .advance _ => []
  | .register _ _ => []

/-- The parser after a use. -/
def next (p : ResponseParser) : Use → ResponseParser
  | .supply bytes => p.supply bytes
  | .advance outputs => (p.advance outputs).parser
  | .register name slot => p.register name slot

/-- What the parser answers to a use. Only an advance has an answer. -/
def answer? (p : ResponseParser) : Use → Option (Except DecodeError Progress)
  | .supply _ => none
  | .advance outputs => some (p.advance outputs).outcome
  | .register _ _ => none

end Use

/-- All bytes that some uses bring. -/
def supplied (uses : List Use) : Bytes :=
  uses.flatMap Use.bytes

/-- Whether the header is still to come. -/
def Step.beforeHeader : Step → Bool
  | .envelope => true
  | .header => true
  | _ => false

/-- The structure that has to be there before the parser leaves a step. -/
def Step.Structured : Step → Bytes → Prop
  | .envelope, bs => ∃ n, IsArrayHead n bs
  | .header, bs => IsValue bs
  | .bundleList, bs => ∃ n, IsArrayHead n bs
  | .bundles (_ + 1), bs => IsValue bs
  | _, _ => False

/-- The bytes that are off the buffer at a step: some whole structures, and no part of another. -/
inductive Taken (header : Option WireHeader) : Step → Bytes → Prop
  | envelope : Taken header .envelope []
  | header {head : Bytes} (envelope : IsArrayHead 2 head) : Taken header .header head
  /-- The header of the parser is what the one value after the head says. -/
  | bundleList {wire : WireHeader} {head value : Bytes} (envelope : IsArrayHead 2 head)
      (whole : IsValue value) (read : WireHeader.decode value = .ok wire)
      (kept : header = some wire) : Taken header .bundleList (head ++ value)
  /-- All bundles that do not remain are off the buffer. -/
  | bundles {wire : WireHeader} {front head : Bytes} {frames : List Bytes} {remaining : Nat}
      (before : Taken header .bundleList front) (kept : header = some wire)
      (list : IsArrayHead wire.bundleCount.toNat head) (whole : ∀ frame ∈ frames, IsValue frame)
      (counted : frames.length + remaining = wire.bundleCount.toNat) :
      Taken header (.bundles remaining) (front ++ head ++ frames.flatten)
  | done {bs : Bytes} (all : Taken header (.bundles 0) bs) : Taken header .done bs

namespace ResponseParser

/-- The parser after some uses, first use first. -/
def drive (p : ResponseParser) (uses : List Use) : ResponseParser :=
  uses.foldl Use.next p

/-- What the parser answers to some uses, first answer first. -/
def answers (p : ResponseParser) : List Use → List (Except DecodeError Progress)
  | [] => []
  | use :: rest => (use.answer? p).toList ++ answers (use.next p) rest

/-- Whether an answer announces the header. -/
def announces : Except DecodeError Progress → Bool
  | .ok .headerReady => true
  | _ => false

/-- How a parser stands that was given some bytes since its reset and gave some answers. -/
structure Accounts (p : ResponseParser) (fed : Bytes)
    (given : List (Except DecodeError Progress)) : Prop where
  /-- No byte is lost, and whole structures are off the buffer. -/
  bytes : ∃ taken, fed = taken ++ p.buffered ∧ Taken p.header p.step taken
  once : given.countP announces ≤ 1
  /-- The header is announced by the advance that takes it off the buffer. -/
  announced : ∀ outputs progress, (p.advance outputs).outcome = .ok progress →
    (progress = .headerReady ↔
      p.step.beforeHeader ∧ ¬ (p.advance outputs).parser.step.beforeHeader)
  /-- Up to the advance that announces the header, outputs are left as they are. -/
  untouched : given.countP announces = 0 → ∀ outputs, (p.advance outputs).outputs = outputs
  /-- A parser that lacks bytes holds a part of the next structure. -/
  cut : ∀ outputs, (p.advance outputs).outcome = .ok .needsMoreInput →
    Incomplete (p.advance outputs).parser.step.Structured (p.advance outputs).parser.buffered
  /-- A parser that lacks bytes does nothing until there are more. -/
  idles : ∀ outputs, (p.advance outputs).outcome = .ok .needsMoreInput →
    ∀ uses, supplied uses = [] → ∀ others,
      ((p.advance outputs).parser.drive uses).advance others =
        ⟨.ok .needsMoreInput, (p.advance outputs).parser.drive uses, others⟩

end ResponseParser

end SeismicStream
