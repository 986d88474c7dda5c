import SeismicStream.Shape

namespace SeismicStream

/-- One entry of the packed label list. -/
inductive LabelToken
  | count (n : Word)
  | label (name : String)
deriving DecidableEq, Repr

/-- Why a packed list does not fall into groups. -/
inductive PackedError
  /-- A count asks for more entries than follow it. -/
  | overrun (offset : Nat) (count : Word) (remaining : Nat)
  /-- A label stands where a count belongs, or a count where a label belongs. -/
  | misplaced (offset : Nat)
deriving DecidableEq, Repr

def PackedError.message : PackedError → String
  | .overrun offset count remaining =>
    s!"count {count.toNat} at offset {offset} overruns the list ({remaining} values left)"
  | .misplaced offset => s!"misplaced token at offset {offset} in packed labels"

namespace Packed

/-- A group of a flat list, with the position of the count before it. -/
structure Group (α : Type) where
  offset : Nat
  entries : List α

/-- Cuts a flat list into groups, after those in `front`, which are the last first. Each group is
preceded by its length, which `countOf` reads from the entry and may refuse. The list is `length`
entries long and begins at position `offset`. -/
def groups {α : Type} (countOf : Nat → α → Except PackedError Word) (offset length : Nat)
    (flat : List α) (front : List (Group α)) : Except PackedError (List (Group α)) :=
  match flat with
  | [] => .ok front.reverse
  | first :: rest =>
    match countOf offset first with
    | .error e => .error e
    | .ok count =>
      if length ≤ count.toNat then .error (.overrun offset count (length - 1))
      else
        groups countOf (offset + 1 + count.toNat) (length - 1 - count.toNat)
          (rest.drop count.toNat) (⟨offset, rest.take count.toNat⟩ :: front)
termination_by flat.length
decreasing_by simp only [List.length_drop, List.length_cons]; omega

/-- A flat list of shapes, each preceded by its length. -/
def shapes? (flat : List Word) : Except PackedError (List Shape) :=
  match groups (fun _ count => .ok count) 0 flat.length flat [] with
  | .error e => .error e
  | .ok cut => .ok (cut.map Group.entries)

def countAt (offset : Nat) : LabelToken → Except PackedError Word
  | .count n => .ok n
  | .label _ => .error (.misplaced offset)

def labelAt (offset : Nat) : LabelToken → Except PackedError String
  | .count _ => .error (.misplaced offset)
  | .label name => .ok name

/-- The labels of one group. -/
def Group.labels? (group : Group LabelToken) : Except PackedError (List String) :=
  (group.entries.zipIdx (group.offset + 1)).mapM fun (token, offset) => labelAt offset token

/-- A flat list of label groups, each preceded by its length. The groups are cut before any label is
looked at, so a count that overruns is met before a count inside a group. -/
def labels? (flat : List LabelToken) : Except PackedError (List (List String)) :=
  match groups countAt 0 flat.length flat [] with
  | .error e => .error e
  | .ok cut => cut.mapM Group.labels?

/-- Writes each shape after its length. -/
def ofShapes (shapes : List Shape) : List Word :=
  shapes.flatMap fun shape => UInt64.ofNat shape.length :: shape

/-- Writes each group of labels after its length. -/
def ofLabels (labels : List (List String)) : List LabelToken :=
  labels.flatMap fun group => .count (UInt64.ofNat group.length) :: group.map .label

/-- A flat list of shapes. Each is short enough for a word to say its length, as lists that can be
held are. -/
structure IsShapes (flat : List Word) (shapes : List Shape) : Prop where
  lengths : ∀ shape ∈ shapes, shape.length < UInt64.size
  packed : ofShapes shapes = flat

/-- A flat list of label groups, which are as short as the shapes of such a list. -/
structure IsLabels (flat : List LabelToken) (labels : List (List String)) : Prop where
  lengths : ∀ group ∈ labels, group.length < UInt64.size
  packed : ofLabels labels = flat

end Packed

end SeismicStream
