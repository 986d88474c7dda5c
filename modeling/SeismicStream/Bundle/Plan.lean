import SeismicStream.Painting

namespace SeismicStream

/-- A number, or the largest word where the number is larger. -/
def Word.capped (n : Nat) : Word :=
  UInt64.ofNat (min n Word.last.toNat)

namespace Sample

/-- The samples that a payload holds. Bytes at its end that do not make a sample are left out. -/
def ofPayload : Bytes → List Sample
  | a :: b :: c :: d :: rest => ofBytes a b c d :: ofPayload rest
  | _ => []

/-- The sample that is put at a position last. -/
def lastAt? (writes : List (Nat × Sample)) (position : Nat) : Option Sample :=
  writes.reverse.lookup position

end Sample

/-- What a bundle asks for, step by step, in numbers without a bound: samples for some positions, or
something that cannot be done. -/
abbrev Plan := List (Except ScatterError (List (Nat × Sample)))

namespace Plan

/-- Why the first step that cannot be made cannot be made. -/
def fault? : Plan → Option ScatterError
  | [] => none
  | .error e :: _ => some e
  | .ok _ :: rest => fault? rest

/-- What is written by the steps before the first that cannot be made. -/
def writes : Plan → List (Nat × Sample)
  | [] => []
  | .error _ :: _ => []
  | .ok step :: rest => step ++ writes rest

end Plan

/-- A copy of `length` samples, from `source` on in a payload to `target` on in an output. -/
structure Copy where
  source : Nat
  target : Nat
  length : Nat

/-- A copy that ends behind its source cannot be made, and neither can one that ends behind its
destination. -/
def Copy.step (c : Copy) (samples : List Sample) (capacity : Nat) :
    Except ScatterError (List (Nat × Sample)) :=
  if samples.length < c.source + c.length then
    .error (.outOfBounds .source (Word.capped (c.source + c.length)) samples.length)
  else if capacity < c.target + c.length then
    .error (.outOfBounds .destination (Word.capped (c.target + c.length)) capacity)
  else .ok ((List.range' c.target c.length).zip (samples.drop c.source))

/-- Copy `i` of a tile. -/
def Strides.copyAt (s : Strides) (i : Nat) : Copy where
  source := i * s.substride.toNat
  target := i * s.superstride.toNat + s.initialSkip.toNat
  length := s.chunkSize.toNat

namespace Tile

/-- How many samples a tile copies. -/
def count (tile : Tile) : Nat :=
  tile.iterations.toNat * tile.chunkSize.toNat

/-- The steps of a tile, for an output of `capacity` samples. -/
def plan (capacity : Nat) (tile : Tile) : Plan :=
  let samples := Sample.ofPayload tile.values
  if tile.values.length % 4 ≠ 0 then [.error (.misaligned tile.values.length)]
  else if tile.chunkSize.toNat = 0 then []
  else if samples.length / tile.chunkSize.toNat < tile.iterations.toNat then
    [.error (.outOfBounds .source (Word.capped tile.count) samples.length)]
  else (List.range tile.iterations.toNat).map fun i => (tile.copyAt i).step samples capacity

end Tile

namespace Run

/-- How many samples a run takes. -/
def count (run : Run) : Nat :=
  run.traces.size * run.depths.size

/-- The copy for a trace, which takes the samples from `cursor` on. -/
def copyAt (run : Run) (depth trace cursor : Nat) : Copy where
  source := cursor
  target := trace * depth + run.depths.first.toNat
  length := run.depths.size

/-- The copies for `count` traces, one trace after the other. -/
def steps (run : Run) (samples : List Sample) (capacity depth trace cursor count : Nat) : Plan :=
  (List.range count).map fun k =>
    (run.copyAt depth (trace + k) (cursor + k * run.depths.size)).step samples capacity

/-- The steps of a run, when a trace is `depth` samples long. -/
def plan (samples : List Sample) (capacity depth cursor : Nat) (run : Run) : Plan :=
  if depth < run.depths.stop.toNat then [.error (.outOfBounds .depth run.depths.stop depth)]
  else if run.depths.size = 0 then []
  else run.steps samples capacity depth run.traces.first.toNat cursor run.traces.size

/-- The steps of some runs. Each takes the samples after those of the runs before. -/
def planAll (samples : List Sample) (capacity depth : Nat) : (cursor : Nat) → List Run → Plan
  | _, [] => []
  | cursor, run :: rest =>
    run.plan samples capacity depth cursor ++
      planAll samples capacity depth (cursor + run.count) rest

end Run

namespace Bundle

/-- How many samples a bundle puts into its output when all of it can be done. -/
def count : Bundle → Nat
  | .slice _ tiles => tiles.foldr (fun tile n => tile.count + n) 0
  | .curtain _ runs _ => runs.foldr (fun run n => run.count + n) 0

/-- The steps of a bundle. A curtain needs a depth axis, and then a payload that is made of
samples. -/
def plan (bundle : Bundle) (index : List Int64) (capacity : Nat) : Plan :=
  match bundle with
  | .slice _ tiles => tiles.flatMap (Tile.plan capacity)
  | .curtain _ runs values =>
    if ¬ (index[2]?).any (0 ≤ ·) then [.error (.noDepthAxis index.length)]
    else if values.length % 4 ≠ 0 then [.error (.misaligned values.length)]
    else Run.planAll (Sample.ofPayload values) capacity (traceLength index) 0 runs

end Bundle

/-- The steps of the plan were made up to the first that cannot be made. Without such a step all
samples, so many as counted, were put in their places. -/
structure Scattered.Follows (s : Scattered Nat) (plan : Plan) (count : Nat) (before : Array Sample) :
    Prop where
  outcome : s.outcome = match plan.fault? with
    | some e => .error e
    | none => .ok count
  size : s.target.size = before.size
  /-- A position holds the sample that was put there last, or else the one that it held before. -/
  samples : ∀ j (h : j < before.size),
    s.target[j]? = some ((Sample.lastAt? plan.writes j).getD before[j])

/-- There is a sample for each cell, and each is in its cell unless the cell comes again. -/
structure Sample.Landed (samples : List Sample) (cells : List Nat) (before after : Array Sample) :
    Prop where
  enough : cells.length ≤ samples.length
  placed : ∀ (k cell : Nat), cells[k]? = some cell → (∀ l, k < l → cells[l]? ≠ some cell) →
    after[cell]? = samples[k]?
  kept : ∀ j : Nat, j ∉ cells → after[j]? = before[j]?

end SeismicStream
