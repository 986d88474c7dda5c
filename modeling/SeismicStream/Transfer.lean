import SeismicStream.Parser.Response
import SeismicStream.Session.Basic

namespace SeismicStream

/-- What a source has to give. -/
inductive Read
  /-- Bytes, which take as many reads as they need. No bytes are the end of the input. -/
  | bytes (bytes : Bytes)
  | failure (reason : String)
deriving DecidableEq, Repr

/-- Why a response cannot be had from a source. -/
inductive ReadError
  | source (reason : String)
  | decode (e : DecodeError)
deriving DecidableEq, Repr

def ReadError.message : ReadError → String
  | .source reason => reason
  | .decode e => e.message

/-- A response, or why there is none, and the size of every read that succeeded. -/
structure Transfer where
  outcome : Except ReadError DecodeResult
  served : List Nat

/-- The bytes that one read asks for, which are one at least. -/
def Limits.readSize (limits : Limits) : Nat :=
  max limits.readChunkSize.toNat 1

namespace Transfer

/-- The single reads, each of at most `size` bytes. -/
def cut (size : Nat) : Read → List Read
  | .bytes [] => [.bytes []]
  | .bytes bytes => (pieces size bytes).map .bytes
  | .failure reason => [.failure reason]

/-- Feeds what each read gives until the session is settled. A source that has nothing more to
give reads nothing, which ends the input. `served` holds the sizes of the reads so far, last first. -/
def pump {σ : Type} [Parser σ] (s : Session σ) (served : List Nat) : List Read → Transfer
  | .failure reason :: _ => ⟨.error (.source reason), served.reverse⟩
  | .bytes (b :: bytes) :: rest =>
    let served := (b :: bytes).length :: served
    match s.feed (b :: bytes) with
    | (.ok .pending, s) => pump s served rest
    | (.ok (.ready result), _) => ⟨.ok result, served.reverse⟩
    | (.error e, _) => ⟨.error (.decode e), served.reverse⟩
  | [] | .bytes [] :: _ =>
    ⟨s.close.1.mapError .decode, (0 :: served).reverse⟩

/-- Reads a response from a source. The bytes of a read have a buffer, which is made before the first
of them. -/
def run (limits : Limits) (reads : List Read) : Transfer :=
  if Memory.Holds limits.readSize 1 then
    pump (Session.start (ResponseParser.ofLimits limits) limits) []
      (reads.flatMap (cut limits.readSize))
  else ⟨.error (.decode .beyondMemory), []⟩

end Transfer

end SeismicStream
