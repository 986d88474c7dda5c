import SeismicStream.Parser.Basic

namespace SeismicStream

/-- A response that was read to its end. -/
structure DecodeResult where
  header : Header
  /-- The outputs, in the order in which the header declares them. -/
  buffers : List Buffer
deriving DecidableEq, Repr

def DecodeResult.get? (r : DecodeResult) (name : String) : Option Buffer :=
  r.buffers.find? fun b => b.name = name

/-- What a session holds while it can still go on. -/
inductive Stage
  | idle
  | awaitingHeader
  | awaitingPayload (header : Header) (outputs : Registry)
deriving DecidableEq, Repr

def Stage.state : Stage → SessionState
  | .idle => .idle
  | .awaitingHeader => .awaitingHeader
  | .awaitingPayload .. => .awaitingPayload

/-- The first bytes wake an idle session. -/
def Stage.wake : Stage → Bytes → Stage
  | .idle, _ :: _ => .awaitingHeader
  | stage, _ => stage

inductive Phase
  | live (stage : Stage)
  | done (result : DecodeResult)
  | failed (e : DecodeError)
deriving DecidableEq, Repr

/-- Reads one response, piece by piece. A result or an error is final. -/
structure Session (σ : Type) where
  limits : Limits
  /-- The parser; it is released once the session is done or failed. -/
  parser : σ
  phase : Phase := .live .idle
  /-- The bytes fed while the session could go on. It counts without a bound, which is what a word
  counts of any stream of less than 2^64 bytes. -/
  received : Nat := 0
deriving Repr

/-- The answer to a piece. -/
inductive Feed
  | pending
  | ready (result : DecodeResult)
deriving DecidableEq, Repr

/-- Where one turn of the parser leads. -/
inductive Turn
  | waiting (stage : Stage)
  | complete (result : DecodeResult)
  | failed (e : DecodeError)

namespace Session

variable {σ : Type} [Parser σ]

/-- A session around a parser, which is reset first. -/
def start (parser : σ) (limits : Limits) : Session σ where
  limits
  parser := Parser.reset parser

def state (s : Session σ) : SessionState :=
  match s.phase with
  | .live stage => stage.state
  | .done _ => .done
  | .failed _ => .failed

def result? (s : Session σ) : Option DecodeResult :=
  match s.phase with
  | .done result => some result
  | _ => none

/-- Binds every output to its slot. -/
def registerAll (parser : σ) (handles : List (String × Nat)) : σ :=
  handles.foldl (fun parser (name, slot) => Parser.register parser name slot) parser

/-- Checks the header that the parser announced, allocates its outputs and binds them. -/
def bindOutputs (limits : Limits) (parser : σ) : Except DecodeError (Header × Registry) × σ :=
  match Parser.readHeader parser with
  | (none, parser) => (.error (.malformedHeader .unreadable), parser)
  | (some wire, parser) =>
    match Header.ofWire wire with
    | .error e => (.error (.malformedHeader (.header e)), parser)
    | .ok header =>
      match Registry.allocate header limits with
      | .error e => (.error e, parser)
      | .ok outputs => (.ok (header, outputs), registerAll parser outputs.handles)

/-- Lets the parser put bundles into the outputs. -/
def pour (header : Header) (outputs : Registry) (parser : σ) : Turn × σ :=
  match Parser.advance parser outputs with
  | ⟨.error e, parser, _⟩ => (.failed e, parser)
  | ⟨.ok .finished, parser, outputs⟩ =>
    (.complete ⟨header, outputs.buffers⟩, Parser.release parser)
  | ⟨.ok _, parser, outputs⟩ => (.waiting (.awaitingPayload header outputs), parser)

/-- Lets the parser look for the header, and go on with the payload once it is there. -/
def seek (limits : Limits) (parser : σ) : Turn × σ :=
  match Parser.advance parser {} with
  | ⟨.error e, parser, _⟩ => (.failed e, parser)
  | ⟨.ok .needsMoreInput, parser, _⟩ => (.waiting .awaitingHeader, parser)
  | ⟨.ok .finished, parser, _⟩ =>
    (.failed (.malformedHeader (.finished .awaitingHeader)), parser)
  | ⟨.ok .headerReady, parser, _⟩ =>
    match bindOutputs limits parser with
    | (.error e, parser) => (.failed e, parser)
    | (.ok (header, outputs), parser) => pour header outputs parser

/-- Lets the parser go as far as its bytes allow. A session without bytes does not ask it. -/
def turn (limits : Limits) (stage : Stage) (parser : σ) : Turn × σ :=
  match stage with
  | .idle => (.waiting .idle, parser)
  | .awaitingHeader => seek limits parser
  | .awaitingPayload header outputs => pour header outputs parser

/-- A session that failed gives up its parser. So does one that goes with its program, which nobody
feeds any more. -/
def fail (s : Session σ) (e : DecodeError) (parser : σ) : Session σ :=
  { s with phase := .failed e, parser := Parser.release parser }

/-- Gives the parser a piece, unless the piece is empty. -/
def supply (parser : σ) : Bytes → σ
  | [] => parser
  | piece => Parser.supply parser piece

/-- Feeds one piece. An empty piece adds nothing, but the parser is asked again. -/
def feed (s : Session σ) (piece : Bytes) : Except DecodeError Feed × Session σ :=
  match s.phase with
  | .done result => (.ok (.ready result), s)
  | .failed e => (.error e, s)
  | .live stage =>
    let s := { s with received := s.received + piece.length }
    match turn s.limits (stage.wake piece) (supply s.parser piece) with
    | (.waiting stage, parser) => (.ok .pending, { s with phase := .live stage, parser })
    | (.complete result, parser) => (.ok (.ready result), { s with phase := .done result, parser })
    | (.failed e, parser) => (.error e, s.fail e parser)

/-- Ends the input. The parser is asked once more; a response that is still not complete is
truncated. -/
def close (s : Session σ) : Except DecodeError DecodeResult × Session σ :=
  match s.phase with
  | .done result => (.ok result, s)
  | .failed e => (.error e, s)
  | .live stage =>
    match turn s.limits stage s.parser with
    | (.waiting stage, parser) =>
      let e := .truncated stage.state s.received
      (.error e, s.fail e parser)
    | (.complete result, parser) => (.ok result, { s with phase := .done result, parser })
    | (.failed e, parser) => (.error e, s.fail e parser)

/-- Feeds a piece, or ends the input where there is none. -/
def accept (s : Session σ) : Option Bytes → Except DecodeError Feed × Session σ
  | some piece => s.feed piece
  | none =>
    match s.close with
    | (.ok result, s) => (.ok (.ready result), s)
    | (.error e, s) => (.error e, s)

/-- Gives up a session. A parser that was not released is released. -/
def dispose (s : Session σ) : σ :=
  match s.phase with
  | .live _ => Parser.release s.parser
  | _ => s.parser

/-- Feeds pieces until one of them settles the session, and ends the input if none does. -/
def decodePieces (s : Session σ) : List Bytes → Except DecodeError DecodeResult × Session σ
  | [] => s.close
  | piece :: rest =>
    match s.feed piece with
    | (.ok .pending, s) => decodePieces s rest
    | (.ok (.ready result), s) => (.ok result, s)
    | (.error e, s) => (.error e, s)

end Session

end SeismicStream
