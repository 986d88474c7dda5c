import SeismicStream.DecodeError
import SeismicStream.Limits
import SeismicStream.Memory

namespace SeismicStream

/-- The samples of one output. -/
structure Buffer where
  name : String
  shape : Shape
  samples : Array Sample
deriving DecidableEq, Repr

/-- The outputs of a response, in the order in which the header declares them. An output's slot is
its position. -/
structure Registry where
  buffers : List Buffer := []
deriving DecidableEq, Repr

namespace Registry

/-- How many samples an output takes, if it may be allocated. -/
def sizeOf (limits : Limits) (a : Attribute) : Except DecodeError Word :=
  match limits.count? a.shape with
  | some n => .ok n
  | none => .error (.allocation a.name a.shape limits.maxElements)

/-- The buffer of an output of a size, all zeros. -/
def zeroed (a : Attribute) (size : Word) : Except DecodeError Buffer :=
  if Memory.Holds size.toNat Sample.width then
    .ok ⟨a.name, a.shape, Array.replicate size.toNat 0⟩
  else .error .beyondMemory

/-- One buffer of zeros for each output. All sizes are checked before there is any buffer, but not
whether there can be a buffer of that size. -/
def allocate (header : Header) (limits : Limits) : Except DecodeError Registry :=
  match header.attributes.mapM (sizeOf limits) with
  | .error e => .error e
  | .ok sizes =>
    match (header.attributes.zip sizes).mapM fun (a, size) => zeroed a size with
    | .error e => .error e
    | .ok buffers => .ok ⟨buffers⟩

/-- The names of the outputs with their slots. -/
def handles (r : Registry) : List (String × Nat) :=
  r.buffers.zipIdx.map fun (b, slot) => (b.name, slot)

def slot? (r : Registry) (slot : Nat) : Option (Array Sample) :=
  (r.buffers[slot]?).map Buffer.samples

def get? (r : Registry) (name : String) : Option Buffer :=
  r.buffers.find? fun b => b.name = name

/-- Works on the samples of a buffer, without an answer where there is no such slot. -/
def updateAt {α : Type} (f : Array Sample → α × Array Sample) :
    Nat → List Buffer → Option α × List Buffer
  | _, [] => (none, [])
  | 0, b :: rest =>
    let (a, samples) := f b.samples
    (some a, { b with samples } :: rest)
  | slot + 1, b :: rest =>
    let (a, rest) := updateAt f slot rest
    (a, b :: rest)

/-- Works on the samples in a slot. -/
def update {α : Type} (r : Registry) (slot : Nat) (f : Array Sample → α × Array Sample) :
    Option α × Registry :=
  let (a, buffers) := updateAt f slot r.buffers
  (a, ⟨buffers⟩)

/-- Puts samples into a slot from `start` on, if they fit. The answer says whether they do. -/
def write (r : Registry) (slot start : Nat) (samples : List Sample) : Option Bool × Registry :=
  r.update slot fun target =>
    if start + samples.length ≤ target.size then (true, Sample.paint target start samples)
    else (false, target)

theorem updateAt_snd {α : Type} (f : Array Sample → α × Array Sample) (slot : Nat)
    (buffers : List Buffer) :
    (updateAt f slot buffers).2 =
      buffers.modify slot fun b => { b with samples := (f b.samples).2 } := by
  induction buffers generalizing slot with
  | nil => cases slot <;> simp [updateAt]
  | cons b rest ih => cases slot <;> simp [updateAt, ih]

theorem updateAt_fst {α : Type} (f : Array Sample → α × Array Sample) (slot : Nat)
    (buffers : List Buffer) :
    (updateAt f slot buffers).1 = buffers[slot]?.map fun b => (f b.samples).1 := by
  induction buffers generalizing slot with
  | nil => simp [updateAt]
  | cons b rest ih => cases slot <;> simp [updateAt, ih]

end Registry

end SeismicStream
