import SeismicStream.Header.Reader
import SeismicStream.Parser.Basic

namespace SeismicStream

/-- What a response parser waits for. -/
inductive Step
  /-- The head of the outer array. -/
  | envelope
  | header
  /-- The head of the array of bundles. -/
  | bundleList
  | bundles (remaining : Nat)
  | done
deriving DecidableEq, Repr

/-- Parses a response. Bytes are taken off the buffer only when all of the next part is there. -/
structure ResponseParser where
  maxHeaderBytes : Word
  buffered : Bytes := []
  step : Step := .envelope
  header : Option WireHeader := none
  operation : Option Operation := none
  /-- Slots by name; a later binding goes before an earlier one. -/
  bindings : List (String × Nat) := []
deriving DecidableEq, Repr

namespace ResponseParser

def ofLimits (limits : Limits) : ResponseParser where
  maxHeaderBytes := limits.maxHeaderBytes

def reset (p : ResponseParser) : ResponseParser where
  maxHeaderBytes := p.maxHeaderBytes

def supply (p : ResponseParser) (bytes : Bytes) : ResponseParser :=
  { p with buffered := p.buffered ++ bytes }

def register (p : ResponseParser) (name : String) (slot : Nat) : ResponseParser :=
  { p with bindings := (name, slot) :: p.bindings }

def release (p : ResponseParser) : ResponseParser where
  maxHeaderBytes := p.maxHeaderBytes
  step := .done

/-- Reads a header from its bytes, which are off the buffer already. -/
def openHeader (p : ResponseParser) (bytes : Bytes) : Except DecodeError Progress × ResponseParser :=
  match WireHeader.decode bytes with
  | .error e => (.error (.malformedHeader (.header (.fields e))), p)
  | .ok wire =>
    match Operation.ofWire? wire.function with
    | none => (.error (.malformedHeader (.header (.unknownFunction wire.function))), p)
    | some operation =>
      (.ok .headerReady,
        { p with step := .bundleList, header := some wire, operation := some operation })

/-- Takes the header off the buffer. A header that turns out unusable is taken off too. -/
def takeHeader (p : ResponseParser) : Except DecodeError Progress × ResponseParser :=
  match Msgpack.extent p.buffered with
  | .error e => (.error (.malformedHeader (.framing e)), p)
  | .ok none =>
    if p.maxHeaderBytes.toNat < p.buffered.length then
      (.error (.malformedHeader (.oversized p.maxHeaderBytes p.buffered.length)), p)
    else (.ok .needsMoreInput, p)
  | .ok (some size) =>
    if p.maxHeaderBytes.toNat < size then
      (.error (.malformedHeader (.oversized p.maxHeaderBytes size)), p)
    else
      openHeader { p with buffered := p.buffered.drop size } (p.buffered.take size)

/-- Puts one bundle into its output. A bundle for a name that is not bound is read and dropped. -/
def route (p : ResponseParser) (bytes : Bytes) (outputs : Registry) :
    Except DecodeError Unit × Registry :=
  match p.operation with
  | none => (.error (.malformedPayload .noHeader), outputs)
  | some operation =>
    match Bundle.decode operation bytes with
    | .error e => (.error (.malformedPayload (.bundle e)), outputs)
    | .ok bundle =>
      match p.bindings.lookup bundle.output with
      | none => (.ok (), outputs)
      | some slot =>
        let index := (p.header.map WireHeader.index).getD []
        let put (target : Array Sample) :=
          let scattered := bundle.scatter index target
          (scattered.outcome, scattered.target)
        match outputs.update slot put with
        | (none, outputs) => (.error (.malformedPayload (.noSlot slot bundle.output)), outputs)
        | (some (.error e), outputs) =>
          (.error (.malformedPayload (.scatter bundle.output e)), outputs)
        | (some (.ok _), outputs) => (.ok (), outputs)

/-- Takes bundles off the buffer as long as there is a whole one, and routes each. A bundle that
cannot be routed is off the buffer, but still counted as remaining. -/
def takeBundles (remaining : Nat) (p : ResponseParser) (outputs : Registry) :
    Advanced ResponseParser :=
  match remaining with
  | 0 => ⟨.ok .finished, { p with step := .done }, outputs⟩
  | left + 1 =>
    match Msgpack.extent p.buffered with
    | .error e =>
      ⟨.error (.malformedPayload (.framing e)), { p with step := .bundles remaining }, outputs⟩
    | .ok none => ⟨.ok .needsMoreInput, { p with step := .bundles remaining }, outputs⟩
    | .ok (some size) =>
      let bytes := p.buffered.take size
      let p := { p with buffered := p.buffered.drop size }
      match p.route bytes outputs with
      | (.error e, outputs) => ⟨.error e, { p with step := .bundles remaining }, outputs⟩
      | (.ok (), outputs) => takeBundles left p outputs

/-- How many bundles the header declares. -/
def declared (p : ResponseParser) : Nat :=
  (p.header.map fun wire => wire.bundleCount.toNat).getD 0

/-- Takes the head of the array of bundles off the buffer, then the bundles. Their number has to be
the one that the header declares. -/
def takeBundleList (p : ResponseParser) (outputs : Registry) : Advanced ResponseParser :=
  match Msgpack.arrayHead p.buffered with
  | .error e => ⟨.error (.malformedPayload (.framing e)), p, outputs⟩
  | .ok none => ⟨.ok .needsMoreInput, p, outputs⟩
  | .ok (some (count, size)) =>
    if count ≠ p.declared then
      ⟨.error (.malformedPayload (.bundleCount p.declared count)), p, outputs⟩
    else takeBundles count { p with buffered := p.buffered.drop size } outputs

def advance (p : ResponseParser) (outputs : Registry) : Advanced ResponseParser :=
  match p.step with
  | .envelope =>
    match Msgpack.envelope p.buffered with
    | .error e => ⟨.error (.malformedHeader (.framing e)), p, outputs⟩
    | .ok none => ⟨.ok .needsMoreInput, p, outputs⟩
    | .ok (some size) =>
      let (outcome, p) := takeHeader { p with buffered := p.buffered.drop size, step := .header }
      ⟨outcome, p, outputs⟩
  | .header =>
    let (outcome, p) := takeHeader p
    ⟨outcome, p, outputs⟩
  | .bundleList => p.takeBundleList outputs
  | .bundles remaining => takeBundles remaining p outputs
  | .done => ⟨.ok .finished, p, outputs⟩

instance : Parser ResponseParser where
  reset := reset
  supply := supply
  advance := advance
  readHeader p := (p.header, p)
  register := register
  release := release

end ResponseParser

end SeismicStream
