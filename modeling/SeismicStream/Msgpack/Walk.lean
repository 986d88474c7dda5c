import SeismicStream.Msgpack.Extent
import SeismicStream.Msgpack.Grammar

namespace SeismicStream.Msgpack

/-- Stepping over so many values one by one leads from the first position to the last. Each value is
measured on its own, from the position where the one before it ends. -/
inductive Walk (bs : Bytes) : (first count last : Nat) → Prop
  | none {position : Nat} : Walk bs position 0 position
  | step {position size count last : Nat}
      (measured : extent (bs.drop position) = .ok (some size))
      (onward : Walk bs (position + size) count last) : Walk bs position (count + 1) last

/-- An array with a head of `size` bytes and so many items is measured item by item. The first item
without an extent has the answer for the whole array. -/
structure MeasuredByItems (bs : Bytes) (count size : Nat) : Prop where
  whole : ∀ last, extent bs = .ok (some last) ↔ Walk bs size count last
  cutOff : extent bs = .ok none ↔ ∃ items < count, ∃ position, Walk bs size items position ∧
    extent (bs.drop position) = .ok none
  /-- The offset in the array is the one in the item, counted from where the item begins. -/
  reserved : ∀ p, extent bs = .error (.reservedTag p) ↔ ∃ items < count, ∃ position offset,
    Walk bs size items position ∧ extent (bs.drop position) = .error (.reservedTag offset) ∧
      p = position + offset

/-- What becomes of the answer about a head when the head has to be that of an envelope. -/
structure ReadAsEnvelope (bs : Bytes) : Prop where
  two : ∀ size, envelope bs = .ok (some size) ↔ arrayHead bs = .ok (some (2, size))
  other : ∀ count, envelope bs = .error (.envelopeCount count) ↔
    count ≠ 2 ∧ ∃ size, arrayHead bs = .ok (some (count, size))
  cutOff : envelope bs = .ok none ↔ arrayHead bs = .ok none
  refused : ∀ tag, envelope bs = .error (.notAnArray tag) ↔ arrayHead bs = .error (.notAnArray tag)

end SeismicStream.Msgpack
