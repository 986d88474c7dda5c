import SeismicStream.Header.Wire
import SeismicStream.Operation

namespace SeismicStream

/-- One output of a response. -/
structure Attribute where
  name : String
  shape : Shape
  /-- Names for the axes; they need not match the shape. -/
  labels : List String
deriving DecidableEq, Repr

/-- A checked header. Its outputs have different names. -/
structure Header where
  pid : String
  operation : Operation
  bundleCount : UInt32
  ndims : UInt32
  index : List Int64
  attributes : List Attribute
  names_nodup : (attributes.map Attribute.name).Nodup
deriving DecidableEq, Repr

/-- Why a header that could be read is refused. -/
inductive HeaderError
  | fields (e : FieldError)
  | unknownFunction (value : Int64)
  | packed (e : PackedError)
  | shapeCount (attributes shapes : Nat)
  | labelCount (attributes labels : Nat)
  | repeatedName (name : String)
deriving DecidableEq, Repr

def HeaderError.message : HeaderError → String
  | .fields e => "header: " ++ e.message
  | .unknownFunction value => s!"invalid function; was {value.toInt}"
  | .packed e => e.message
  | .shapeCount attributes shapes => s!"header declares {attributes} attributes but {shapes} shapes"
  | .labelCount attributes labels =>
    s!"header declares {attributes} attributes but {labels} label groups"
  | .repeatedName name => "attribute " ++ Text.quoted name ++ " is declared more than once"

/-- The first name that stands before itself, after the names in `before`. -/
def firstRepeated? (before : List String) : List String → Option String
  | [] => none
  | name :: rest => if name ∈ before then some name else firstRepeated? (name :: before) rest

theorem nodup_of_firstRepeated?_eq_none {before names : List String}
    (h : firstRepeated? before names = none) : names.Nodup ∧ ∀ name ∈ names, name ∉ before := by
  induction names generalizing before with
  | nil => simp
  | cons name rest ih =>
    unfold firstRepeated? at h
    split at h
    · cases h
    · next hn =>
      obtain ⟨hd, ho⟩ := ih h
      refine ⟨List.nodup_cons.2 ⟨fun hm => ho name hm List.mem_cons_self, hd⟩, ?_⟩
      intro m hm
      rcases List.mem_cons.1 hm with rfl | hm
      · exact hn
      · exact fun hb => ho m hm (List.mem_cons_of_mem _ hb)

namespace Header

def names (h : Header) : List String :=
  h.attributes.map Attribute.name

def shapes (h : Header) : List Shape :=
  h.attributes.map Attribute.shape

def labels (h : Header) : List (List String) :=
  h.attributes.map Attribute.labels

/-- The shape of the output of a name. -/
def shapeOf? (h : Header) (name : String) : Option Shape :=
  (h.attributes.find? fun a => a.name = name).map Attribute.shape

/-- One output for each name, with the shape and the labels at its position. -/
def declare (names : List String) (shapes : List Shape) (labels : List (List String)) :
    List Attribute :=
  (names.zip (shapes.zip labels)).map fun (name, shape, labels) => ⟨name, shape, labels⟩

/-- The labels of `count` outputs. A header that gives none gives each output none. -/
def spreadLabels (count : Nat) (labels : List (List String)) : List (List String) :=
  if labels.isEmpty then List.replicate count [] else labels

/-- Checks a header. The function comes first, then the shapes, the labels and the names. -/
def ofWire (w : WireHeader) : Except HeaderError Header :=
  match Operation.ofWire? w.function with
  | none => .error (.unknownFunction w.function)
  | some operation =>
    match Packed.shapes? w.shapes with
    | .error e => .error (.packed e)
    | .ok shapes =>
      if shapes.length ≠ w.attributes.length then
        .error (.shapeCount w.attributes.length shapes.length)
      else
        match Packed.labels? w.labels with
        | .error e => .error (.packed e)
        | .ok labels =>
          let labels := spreadLabels w.attributes.length labels
          if labels.length ≠ w.attributes.length then
            .error (.labelCount w.attributes.length labels.length)
          else
            let attributes := declare w.attributes shapes labels
            match hn : firstRepeated? [] (attributes.map Attribute.name) with
            | some name => .error (.repeatedName name)
            | none =>
              .ok {
                pid := w.pid
                operation, attributes
                bundleCount := w.bundleCount
                ndims := w.ndims
                index := w.index
                names_nodup := (nodup_of_firstRepeated?_eq_none hn).1 }

/-- The header as it travels. Labels are written even where all are empty. -/
def toWire (h : Header) : WireHeader where
  pid := h.pid
  function := h.operation.toWire
  bundleCount := h.bundleCount
  ndims := h.ndims
  index := h.index
  labels := Packed.ofLabels h.labels
  shapes := Packed.ofShapes h.shapes
  attributes := h.names

/-- One line: the operation, the request and its size, then each output. -/
def text (h : Header) : String :=
  h.operation.name ++ " pid=" ++ Text.quoted h.pid ++ s!" ndims={h.ndims.toNat}" ++
    s!" bundles={h.bundleCount.toNat}" ++ String.join (h.attributes.map attributeText)
where
  attributeText (a : Attribute) : String :=
    " | " ++ a.name ++ " " ++ a.shape.text ++ " " ++ Text.bracketed a.labels

end Header

end SeismicStream
