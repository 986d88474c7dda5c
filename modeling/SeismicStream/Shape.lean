import SeismicStream.Text.Quoted
import SeismicStream.Word

namespace SeismicStream

/-- The lengths of an attribute's axes, slowest first. A shape without axes is a scalar. -/
abbrev Shape := List Word

/-- How many samples a shape holds, `none` where a partial product leaves the word. -/
def Shape.count? (shape : Shape) : Option Word :=
  shape.foldlM Word.mul? 1

def Shape.text (shape : Shape) : String :=
  Text.bracketed (shape.map fun axis => toString axis.toNat)

end SeismicStream
