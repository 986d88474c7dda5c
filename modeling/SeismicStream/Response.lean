import SeismicStream.Bundle.Reader
import SeismicStream.Header.Reader
import SeismicStream.Msgpack.Grammar
import SeismicStream.Session.Basic

namespace SeismicStream
open Msgpack

/-- How many samples a shape holds. -/
def Shape.product (shape : Shape) : Nat :=
  shape.foldr (fun axis n => axis.toNat * n) 1

/-- An output before any bundle was put into it. -/
def Attribute.zeros (a : Attribute) : Buffer :=
  ⟨a.name, a.shape, Array.replicate a.shape.product 0⟩

/-- The samples of an output after some bundles, if all of them fit. -/
def scatterAll (index : List Int64) : List Bundle → Array Sample → Option (Array Sample)
  | [], target => some target
  | bundle :: rest, target =>
    match bundle.scatter index target with
    | ⟨.error _, _⟩ => none
    | ⟨.ok _, target⟩ => scatterAll index rest target

/-- An output after those of the bundles that are for it. -/
def Buffer.take? (index : List Int64) (bundles : List Bundle) (b : Buffer) : Option Buffer :=
  (scatterAll index (bundles.filter fun bundle => bundle.output = b.name) b.samples).map
    fun samples => { b with samples }

/-- Frames that are bundles and fit in the outputs that they are for, and the outputs after them. -/
structure Fills (operation : Operation) (index : List Int64) (frames : List Bytes)
    (before after : List Buffer) : Prop where
  whole : ∀ frame ∈ frames, IsFrame frame
  fit : ∃ bundles, frames.mapM (Bundle.decode operation) = .ok bundles ∧
    before.mapM (Buffer.take? index bundles) = some after

/-- The parts of a response, in the order in which they travel. -/
structure ResponseParts where
  /-- The head of the outer array. -/
  head : Bytes
  header : Bytes
  /-- The head of the array of bundles. -/
  listHead : Bytes
  bundles : List Bytes

def ResponseParts.bytes (x : ResponseParts) : Bytes :=
  x.head ++ x.header ++ x.listHead ++ x.bundles.flatten

/-- Where a session stands that was fed so many bytes, not all, of a response. -/
def ResponseParts.stateAt (x : ResponseParts) (count : Nat) : SessionState :=
  if count = 0 then .idle
  else if count < x.head.length + x.header.length then .awaitingHeader
  else .awaitingPayload

/-- Parts that are well formed and within the limits, and the result that they describe. -/
structure ResponseParts.Describe (limits : Limits) (x : ResponseParts) (result : DecodeResult) :
    Prop where
  head : IsArrayHead 2 x.head
  header : IsValue x.header
  short : x.header.length ≤ limits.maxHeaderBytes.toNat
  read : ∃ wire, WireHeader.decode x.header = .ok wire ∧ Header.ofWire wire = .ok result.header
  allocated : ∃ outputs, Registry.allocate result.header limits = .ok outputs
  listHead : IsArrayHead x.bundles.length x.listHead
  counted : x.bundles.length = result.header.bundleCount.toNat
  filled : Fills result.header.operation result.header.index x.bundles
    (result.header.attributes.map Attribute.zeros) result.buffers

/-- The bytes begin with a response, and the result is what it describes. -/
def IsResponse (limits : Limits) (bytes : Bytes) (result : DecodeResult) : Prop :=
  ∃ (x : ResponseParts) (tail : Bytes), bytes = x.bytes ++ tail ∧ x.Describe limits result

/-- After the head of the stream there are more bytes than a header may take, and no value ends
within that many. -/
def HeaderOverruns (limits : Limits) (bytes : Bytes) : Prop :=
  ∃ head rest, bytes = head ++ rest ∧ IsArrayHead 2 head ∧
    limits.maxHeaderBytes.toNat < rest.length ∧
    ∀ value tail, rest = value ++ tail → IsValue value →
      limits.maxHeaderBytes.toNat < value.length

end SeismicStream
