import SeismicStream.Msgpack.Extent

namespace SeismicStream.Msgpack

/-- A decoder takes a value to end where the extent says that it ends. -/
structure ReadsFrame {α ε : Type} (decode : Bytes → Except ε α) (bs : Bytes) : Prop where
  /-- What is accepted has an extent, and the bytes up to there are all that it is read from. -/
  whole : ∀ a, decode bs = .ok a →
    ∃ n ≤ bs.length, extent bs = .ok (some n) ∧ decode (bs.take n) = .ok a
  /-- The bytes up to the extent give the same answer, a value or an error, whatever follows. -/
  alone : ∀ n, extent bs = .ok (some n) →
    ∀ more, decode (bs.take n ++ more) = decode (bs.take n)

end SeismicStream.Msgpack
