import SeismicStream.Encoder
import SeismicStream.Header.Reader
import SeismicStream.Msgpack.Extent

namespace SeismicStream.Encoder
open Msgpack

/-- A bundle is laid out for the operation of the response, and for one of its outputs. -/
structure Takes (e : Encoder) (b : SampledBundle) : Prop where
  operation : b.operation = e.operation
  declared : b.output ∈ e.attributes.map Attribute.name

/-- Why a bundle is not taken. Its operation comes before its output. -/
inductive Misfit (e : Encoder) (b : SampledBundle) : EncodeError → Prop
  | operation (other : b.operation ≠ e.operation) :
      Misfit e b (.operationMismatch b.output e.operation b.operation)
  | output (same : b.operation = e.operation)
      (undeclared : b.output ∉ e.attributes.map Attribute.name) : Misfit e b (.unknownOutput b.output)

/-- There are outputs, their names differ, and all bundles are for them. -/
structure Consistent (e : Encoder) : Prop where
  declares : e.attributes ≠ []
  distinct : (e.attributes.map Attribute.name).Nodup
  takes : ∀ b ∈ e.bundles, e.Takes b

/-- What keeps a response from being written: that it has no outputs, else the first bundle that is
not taken, else the first name that comes again. -/
inductive Refused (e : Encoder) : EncodeError → Prop
  | noAttributes (empty : e.attributes = []) : Refused e .noAttributes
  | bundle {front back : List SampledBundle} {b : SampledBundle} {err : EncodeError}
      (declares : e.attributes ≠ []) (split : e.bundles = front ++ b :: back)
      (takes : ∀ other ∈ front, e.Takes other) (misfit : e.Misfit b err) : Refused e err
  | repeated {front back : List String} {name : String} (declares : e.attributes ≠ [])
      (takes : ∀ b ∈ e.bundles, e.Takes b)
      (split : e.attributes.map Attribute.name = front ++ name :: back) (distinct : front.Nodup)
      (again : name ∈ front) : Refused e (.invalidHeader (.repeatedName name))

/-- Bytes are one value, an array of two. The first is the header, the second an array of as many
entries as there are bundles. -/
structure Frames (e : Encoder) (bytes : Bytes) : Prop where
  whole : extent bytes = .ok (some bytes.length)
  head : envelope bytes = .ok (some 1)
  parts : ∃ size headSize, extent (bytes.drop 1) = .ok (some size) ∧
    WireHeader.decode ((bytes.drop 1).take size) = .ok e.header ∧
      arrayHead (bytes.drop (1 + size)) = .ok (some (e.header.bundleCount.toNat, headSize))
  counted : e.header.bundleCount.toNat = e.bundles.length

end SeismicStream.Encoder
