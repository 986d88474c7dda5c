import SeismicStream.Report
import SeismicStream.Response

namespace SeismicStream.Shape

/-- The axes in front of the first that is zero. -/
def beforeZero (shape : Shape) : Shape :=
  shape.takeWhile (· ≠ 0)

/-- The axes that are not zero. -/
def nonzero (shape : Shape) : Shape :=
  shape.filter (· ≠ 0)

/-- What is said of the number of samples. -/
def sizeText (shape : Shape) : String :=
  if shape.product < UInt64.size then toString shape.product else "overflowing"

/-- The count of a shape is the number of its samples, and is missing exactly where that number
leaves the word. -/
structure CountedExactly (shape : Shape) : Prop where
  counted : ∀ n, shape.count? = some n ↔ n.toNat = shape.product
  missing : shape.count? = none ↔ UInt64.size ≤ shape.product
  shown : ∀ slot (a : Attribute), a.shape = shape → Report.outputLine slot a =
    s!"Attribute {slot}: {a.name} shape={a.shape.text} labels={Text.bracketed a.labels} " ++
      s!"({shape.sizeText} samples)\n"

end SeismicStream.Shape
