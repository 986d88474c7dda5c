import SeismicStream.Header.Basic

namespace SeismicStream

namespace WireHeader
open Packed

/-- The function is known, and each name has a shape. -/
structure Shaped (w : WireHeader) (shapes : List Shape) : Prop where
  function : w.function = 1 ∨ w.function = 2
  packed : IsShapes w.shapes shapes
  count : shapes.length = w.attributes.length

/-- Each name has a group of labels. Where there are no labels at all, every group is empty. -/
inductive Labelled (w : WireHeader) : List (List String) → Prop
  | none (empty : w.labels = []) : Labelled w (List.replicate w.attributes.length [])
  | packed {labels : List (List String)} (packed : IsLabels w.labels labels)
      (count : labels.length = w.attributes.length) : Labelled w labels

/-- The lists of a header fit together, and say these shapes and labels. -/
structure Declares (w : WireHeader) (shapes : List Shape) (labels : List (List String)) : Prop where
  shaped : w.Shaped shapes
  labelled : w.Labelled labels
  names : w.attributes.Nodup

/-- The first check that a header fails, and the error for it. Each constructor asks for all that is
checked before. -/
inductive Refused (w : WireHeader) : HeaderError → Prop
  | function (one : w.function ≠ 1) (two : w.function ≠ 2) : Refused w (.unknownFunction w.function)
  | shapes {e : PackedError} (function : w.function = 1 ∨ w.function = 2)
      (fault : shapes? w.shapes = .error e) : Refused w (.packed e)
  | shapeCount {shapes : List Shape} (function : w.function = 1 ∨ w.function = 2)
      (packed : IsShapes w.shapes shapes) (count : shapes.length ≠ w.attributes.length) :
      Refused w (.shapeCount w.attributes.length shapes.length)
  | labels {shapes : List Shape} {e : PackedError} (shaped : w.Shaped shapes)
      (fault : labels? w.labels = .error e) : Refused w (.packed e)
  | labelCount {shapes : List Shape} {labels : List (List String)} (shaped : w.Shaped shapes)
      (some : w.labels ≠ []) (packed : IsLabels w.labels labels)
      (count : labels.length ≠ w.attributes.length) :
      Refused w (.labelCount w.attributes.length labels.length)
  | repeated {shapes : List Shape} {labels : List (List String)} {front back : List String}
      {name : String} (shaped : w.Shaped shapes) (labelled : w.Labelled labels)
      (split : w.attributes = front ++ name :: back) (distinct : front.Nodup)
      (again : name ∈ front) : Refused w (.repeatedName name)

end WireHeader

/-- A checked header says what a wire header says, with these shapes and labels, and can be sent
again. Labels that were left out are sent as empty groups. -/
structure Header.Holds (h : Header) (w : WireHeader) (declared : List Shape)
    (groups : List (List String)) : Prop where
  shapes : h.shapes = declared
  labels : h.labels = groups
  names : h.names = w.attributes
  pid : h.pid = w.pid
  operation : h.operation.toWire = w.function
  bundleCount : h.bundleCount = w.bundleCount
  ndims : h.ndims = w.ndims
  index : h.index = w.index
  sent : h.toWire =
    { w with labels :=
        if w.labels = [] then List.replicate w.attributes.length (.count 0) else w.labels }
  again : Header.ofWire h.toWire = .ok h
  shapeOf : ∀ name (i : Nat), w.attributes[i]? = some name → h.shapeOf? name = declared[i]?
  undeclared : ∀ name, name ∉ w.attributes → h.shapeOf? name = none

end SeismicStream
