import SeismicStream.Packed

namespace SeismicStream.Packed

/-- The positions of a flat list where a count has to stand: the first, and the one behind each
complete group. -/
inductive CountAt {α : Type} (count : Word → α) : List α → Nat → Prop
  | first {flat : List α} : CountAt count flat 0
  | next {n : Word} {entries rest : List α} {position : Nat} (complete : entries.length = n.toNat)
      (onward : CountAt count rest position) :
      CountAt count (count n :: (entries ++ rest)) (1 + n.toNat + position)

/-- Where a count has to stand there is one, and it asks for more entries than the `remaining` ones
behind it. -/
structure Overruns {α : Type} (count : Word → α) (flat : List α) (offset : Nat) (n : Word)
    (remaining : Nat) : Prop where
  reached : CountAt count flat offset
  found : flat[offset]? = some (count n)
  behind : remaining = flat.length - offset - 1
  short : remaining < n.toNat

/-- Before a position, counts stand only where counts have to stand. -/
def CountsInPlace (flat : List LabelToken) (bound : Nat) : Prop :=
  ∀ p n, p < bound → flat[p]? = some (.count n) → CountAt .count flat p

/-- What is wrong with a list that is not a list of shapes. -/
inductive ShapesFault (flat : List Word) : PackedError → Prop
  | overrun {offset remaining : Nat} {n : Word} (overruns : Overruns id flat offset n remaining) :
      ShapesFault flat (.overrun offset n remaining)

/-- What is wrong with a list that is not a list of label groups. A count inside a group is the fault
only where all groups are complete, and then the first such count is. -/
inductive LabelsFault (flat : List LabelToken) : PackedError → Prop
  | overrun {offset remaining : Nat} {n : Word} (overruns : Overruns .count flat offset n remaining) :
      LabelsFault flat (.overrun offset n remaining)
  | label {offset : Nat} {name : String} (reached : CountAt .count flat offset)
      (found : flat[offset]? = some (.label name)) : LabelsFault flat (.misplaced offset)
  /-- In a list of complete groups, what stands at no count position is inside a group. -/
  | count {offset : Nat} {n : Word} (complete : CountAt .count flat flat.length)
      (found : flat[offset]? = some (.count n)) (inside : ¬ CountAt .count flat offset)
      (first : CountsInPlace flat offset) : LabelsFault flat (.misplaced offset)

end SeismicStream.Packed
