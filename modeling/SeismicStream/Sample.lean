import SeismicStream.Bytes

namespace SeismicStream

/-- The 32 bits of a single-precision number. Samples are moved and never computed with, so what a
bit pattern stands for does not matter here. -/
abbrev Sample := UInt32

namespace Sample

/-- The bytes of a sample. -/
def width : Nat := 4

/-- The four bytes of a sample, least significant first. -/
def bytes (s : Sample) : Bytes :=
  (Bytes.ofNat 4 s.toNat).reverse

def ofBytes (a b c d : UInt8) : Sample :=
  UInt32.ofNat (Bytes.toNat [d, c, b, a])

/-- The samples that the bytes hold, after those in `front`. Bytes that do not fall into fours hold
none. -/
def listOf? (front : Array Sample) : Bytes → Option (Array Sample)
  | [] => some front
  | a :: b :: c :: d :: rest => listOf? (front.push (ofBytes a b c d)) rest
  | _ => none

/-- Puts samples in place of those from `start` on. What would fall past the end is dropped. -/
def paint (target : Array Sample) (start : Nat) : List Sample → Array Sample
  | [] => target
  | s :: rest => paint (target.setIfInBounds start s) (start + 1) rest

theorem size_paint (target : Array Sample) (start : Nat) (samples : List Sample) :
    (paint target start samples).size = target.size := by
  induction samples generalizing target start with
  | nil => rfl
  | cons s rest ih => simp [paint, ih]

end Sample

end SeismicStream
