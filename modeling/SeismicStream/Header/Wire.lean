import SeismicStream.Packed

namespace SeismicStream

/-- A header as it travels. Shapes and labels are packed, and nothing is checked yet. -/
structure WireHeader where
  /-- The caller's mark on the request. -/
  pid : String := ""
  function : Int64 := 0
  bundleCount : UInt32 := 0
  ndims : UInt32 := 0
  /-- The lengths of the volume's axes; the third is the depth axis. -/
  index : List Int64 := []
  labels : List LabelToken := []
  shapes : List Word := []
  /-- The names of the outputs. -/
  attributes : List String := []
deriving DecidableEq, Repr

/-- The fields of a header, in the order in which they are written. -/
inductive Field
  | pid
  | function
  | bundleCount
  | ndims
  | index
  | labels
  | shapes
  | attributes
deriving DecidableEq, Repr

namespace Field

def all : List Field :=
  [.pid, .function, .bundleCount, .ndims, .index, .labels, .shapes, .attributes]

/-- The key of a field on the wire. -/
def key : Field → String
  | .pid => "pid"
  | .function => "function"
  | .bundleCount => "nbundles"
  | .ndims => "ndims"
  | .index => "index"
  | .labels => "labels"
  | .shapes => "shapes"
  | .attributes => "attributes"

def ofKey? (key : String) : Option Field :=
  all.find? fun field => field.key = key

/-- A field may be named by its position too. -/
def ofPosition? (n : Nat) : Option Field :=
  all[n]?

end Field

/-- Why bytes are no header. -/
inductive FieldError
  | missing (field : Field)
  | duplicate (field : Field)
  | unknown (key : String)
  /-- A value of another kind, out of range, of another length or cut off. -/
  | malformed
deriving DecidableEq, Repr

def FieldError.message : FieldError → String
  | .missing field => "missing field \x60" ++ field.key ++ "\x60"
  | .duplicate field => "duplicate field \x60" ++ field.key ++ "\x60"
  | .unknown key => "unknown field \x60" ++ key ++ "\x60"
  | .malformed => "<msgpack>"

end SeismicStream
