import SeismicStream.Bundle.Basic

namespace SeismicStream

/-- What a range of samples or depths has to stay within. -/
inductive Side
  | source
  | destination
  | depth
deriving DecidableEq, Repr

def Side.name : Side → String
  | .source => "source"
  | .destination => "destination"
  | .depth => "depth"

/-- Why the samples of a bundle cannot be put in their places. -/
inductive ScatterError
  /-- The payload is no whole number of samples. -/
  | misaligned (length : Nat)
  /-- The index of the header has no depth axis. -/
  | noDepthAxis (entries : Nat)
  | outOfBounds (side : Side) (stop : Word) (capacity : Nat)
deriving DecidableEq, Repr

def ScatterError.message : ScatterError → String
  | .misaligned length => s!"values payload of {length} bytes is not a multiple of 4"
  | .noDepthAxis entries => s!"curtain bundle needs a depth axis; index has {entries} entries"
  | .outOfBounds side stop capacity =>
    s!"{side.name} range ends at {stop.toNat}, beyond its {capacity} samples"

/-- The samples of an output after a bundle, or a part of one, was put into it. A bundle that fails
leaves what it wrote before it failed. -/
structure Scattered (α : Type) where
  outcome : Except ScatterError α
  target : Array Sample

/-- Lets the range of `length` positions from `start` on pass if it ends within the capacity. An end
that leaves the word is reported as the largest word. -/
def within (side : Side) (start length : Word) (capacity : Nat) : Except ScatterError Unit :=
  match Word.add? start length with
  | some stop =>
    if stop.toNat ≤ capacity then .ok () else .error (.outOfBounds side stop capacity)
  | none => .error (.outOfBounds side Word.last capacity)

/-- Lets a copy pass if it stays within its source, and then within its destination. -/
def withinBoth (source target length : Word) (available capacity : Nat) :
    Except ScatterError Unit :=
  match within .source source length available with
  | .error e => .error e
  | .ok () => within .destination target length capacity

/-- Copies `length` samples, which are within both. -/
def copySamples (source : Array Sample) (first : Word) (length : Word) (target : Array Sample)
    (start : Word) : Array Sample :=
  Sample.paint target start.toNat
    (source.extract first.toNat (first.toNat + length.toNat)).toList

namespace Strides

/-- Where copy `i` begins in the source. A position that leaves the word is the largest word. -/
def sourceOf (s : Strides) (i : Word) : Word :=
  Word.mulCapped i s.substride

/-- Where copy `i` begins in the destination. A position that leaves the word is the largest
word. -/
def targetOf (s : Strides) (i : Word) : Word :=
  ((Word.mul? i s.superstride).bind (Word.add? · s.initialSkip)).getD Word.last

/-- Makes `count` copies, the first of which is copy `i`. -/
def copies (s : Strides) (source : Array Sample) (i : Word) :
    (count : Nat) → Array Sample → Scattered Unit
  | 0, target => ⟨.ok (), target⟩
  | count + 1, target =>
    match withinBoth (s.sourceOf i) (s.targetOf i) s.chunkSize source.size target.size with
    | .error e => ⟨.error e, target⟩
    | .ok () =>
      copies s source (i + 1) count
        (copySamples source (s.sourceOf i) s.chunkSize target (s.targetOf i))

end Strides

/-- Copies the samples of a tile to their places and counts them. Every copy reads a whole chunk, so
a tile asks for no more copies than its payload has chunks. -/
def Tile.scatter (tile : Tile) (target : Array Sample) : Scattered Nat :=
  match Sample.listOf? #[] tile.values with
  | none => ⟨.error (.misaligned tile.values.length), target⟩
  | some source =>
    if tile.chunkSize = 0 then ⟨.ok 0, target⟩
    else if source.size / tile.chunkSize.toNat < tile.iterations.toNat then
      ⟨.error (.outOfBounds .source (Word.mulCapped tile.iterations tile.chunkSize) source.size),
        target⟩
    else
      match tile.copies source 0 tile.iterations.toNat target with
      | ⟨.error e, target⟩ => ⟨.error e, target⟩
      | ⟨.ok (), target⟩ => ⟨.ok (Word.mulCapped tile.iterations tile.chunkSize).toNat, target⟩

/-- Scatters tiles one after the other, where `written` samples are written already. A tile writes no
more samples than it carries, so they are counted without a bound. -/
def scatterTiles (written : Nat) : List Tile → Array Sample → Scattered Nat
  | [], target => ⟨.ok written, target⟩
  | tile :: rest, target =>
    match tile.scatter target with
    | ⟨.error e, target⟩ => ⟨.error e, target⟩
    | ⟨.ok n, target⟩ => scatterTiles (written + n) rest target

namespace Run

/-- Where the depths of a trace begin in the destination, when a trace is `depth` samples long. A
position that leaves the word is the largest word. -/
def targetOf (run : Run) (depth trace : Word) : Word :=
  ((Word.mul? trace depth).bind (Word.add? · run.depths.first)).getD Word.last

/-- Fills `count` traces, the first of which is `trace`, with the samples from `cursor` on. Returns
the cursor after them. -/
def fill (run : Run) (depth : Word) (source : Array Sample) (trace : Word) :
    (count : Nat) → (cursor : Word) → Array Sample → Scattered Word
  | 0, cursor, target => ⟨.ok cursor, target⟩
  | count + 1, cursor, target =>
    match withinBoth cursor (run.targetOf depth trace) run.depths.length source.size
        target.size with
    | .error e => ⟨.error e, target⟩
    | .ok () =>
      fill run depth source (trace + 1) count (cursor + run.depths.length)
        (copySamples source cursor run.depths.length target (run.targetOf depth trace))

end Run

/-- Scatters runs one after the other with the samples from `cursor` on. The depths of a run have to
end within the depth axis even where the run is empty. -/
def scatterRuns (depth : Word) (source : Array Sample) (cursor : Word) :
    List Run → Array Sample → Scattered Word
  | [], target => ⟨.ok cursor, target⟩
  | run :: rest, target =>
    if depth < run.depths.stop then
      ⟨.error (.outOfBounds .depth run.depths.stop depth.toNat), target⟩
    else if run.depths.length = 0 then scatterRuns depth source cursor rest target
    else
      match run.fill depth source run.traces.first run.traces.length.toNat cursor target with
      | ⟨.error e, target⟩ => ⟨.error e, target⟩
      | ⟨.ok cursor, target⟩ => scatterRuns depth source cursor rest target

/-- The length of the depth axis, which is the third. -/
def depthAxis? (index : List Int64) : Option Word :=
  match index[2]? with
  | some n => if 0 ≤ n then some n.toUInt64 else none
  | none => none

/-- Puts the samples of a bundle in their places and counts them. -/
def Bundle.scatter (bundle : Bundle) (index : List Int64) (target : Array Sample) :
    Scattered Nat :=
  match bundle with
  | .slice _ tiles => scatterTiles 0 tiles target
  | .curtain _ runs values =>
    match depthAxis? index with
    | none => ⟨.error (.noDepthAxis index.length), target⟩
    | some depth =>
      match Sample.listOf? #[] values with
      | none => ⟨.error (.misaligned values.length), target⟩
      | some source =>
        match scatterRuns depth source 0 runs target with
        | ⟨.error e, target⟩ => ⟨.error e, target⟩
        | ⟨.ok cursor, target⟩ => ⟨.ok cursor.toNat, target⟩

end SeismicStream
