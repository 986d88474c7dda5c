import SeismicStream.Session.Basic

namespace SeismicStream

/-- The positions of samples that are not, bit for bit, what they were. -/
def Sample.changed (before after : Array Sample) : List Nat :=
  (List.range before.size).filter fun j => before[j]? ≠ after[j]?

/-- How many samples are other than zero, by their bits. -/
def Buffer.occupied (b : Buffer) : Nat :=
  b.samples.toList.countP (· ≠ 0)

/-- How many samples of all outputs are other than zero. -/
def occupied (buffers : List Buffer) : Nat :=
  buffers.foldr (fun b n => b.occupied + n) 0

end SeismicStream
