import SeismicStream.Parser.Basic

namespace SeismicStream

/-- A parser that is released once, however often it is asked to be. -/
structure Guarded (σ : Type) where
  parser : σ
  released : Bool
deriving Repr

namespace Guarded

variable {σ : Type}

/-- A guard around a parser that is still to be released. -/
def hold (parser : σ) : Guarded σ :=
  ⟨parser, false⟩

variable [Parser σ]

instance : Parser (Guarded σ) where
  reset g := { g with parser := Parser.reset g.parser }
  supply g bytes := { g with parser := Parser.supply g.parser bytes }
  advance g outputs :=
    let advanced := Parser.advance g.parser outputs
    ⟨advanced.outcome, { g with parser := advanced.parser }, advanced.outputs⟩
  readHeader g :=
    let (header, parser) := Parser.readHeader g.parser
    (header, { g with parser })
  register g name slot := { g with parser := Parser.register g.parser name slot }
  release g := if g.released then g else ⟨Parser.release g.parser, true⟩

end Guarded

end SeismicStream
