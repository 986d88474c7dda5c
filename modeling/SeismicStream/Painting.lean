import SeismicStream.Encoder
import SeismicStream.Response
import SeismicStream.Session.Runs

namespace SeismicStream

/-- Puts samples in their places, one after the other. -/
def Sample.paintAll (target : Array Sample) (writes : List (Nat × Sample)) : Array Sample :=
  writes.foldl (fun target (position, s) => target.setIfInBounds position s) target

/-- How many positions a span has. -/
def Span.size (s : Span) : Nat :=
  s.stop.toNat - s.first.toNat

/-- Copy `i` of a tile: samples from `i * substride` on go from `i * superstride + initialSkip`
on. -/
def Strides.copy (s : Strides) (samples : List Sample) (i : Nat) : List (Nat × Sample) :=
  (List.range' (i * s.superstride.toNat + s.initialSkip.toNat) s.chunkSize.toNat).zip
    (samples.drop (i * s.substride.toNat))

/-- The positions of a run, trace by trace, when a trace is `depth` samples long. -/
def Run.cells (run : Run) (depth : Nat) : List Nat :=
  (List.range' run.traces.first.toNat run.traces.size).flatMap fun trace =>
    List.range' (trace * depth + run.depths.first.toNat) run.depths.size

def SampledTile.writes (tile : SampledTile) : List (Nat × Sample) :=
  (List.range' 0 tile.iterations.toNat).flatMap (tile.copy tile.samples)

def SampledRun.writes (depth : Nat) (run : SampledRun) : List (Nat × Sample) :=
  (run.cells depth).zip run.samples

/-- The samples of a bundle, in order, with the positions that they are for. -/
def SampledBundle.writes (depth : Nat) : SampledBundle → List (Nat × Sample)
  | .slice _ tiles => tiles.flatMap SampledTile.writes
  | .curtain _ runs => runs.flatMap (SampledRun.writes depth)

/-- Every copy of a tile stays within its samples and within an output of so many samples. -/
def SampledTile.Fits (tile : SampledTile) (capacity : Nat) : Prop :=
  0 < tile.chunkSize.toNat →
    tile.iterations.toNat * tile.chunkSize.toNat ≤ tile.samples.length ∧
      ∀ i < tile.iterations.toNat,
        i * tile.substride.toNat + tile.chunkSize.toNat ≤ tile.samples.length ∧
          i * tile.superstride.toNat + tile.initialSkip.toNat + tile.chunkSize.toNat ≤ capacity

/-- A run is laid out as its ranges say, and ends within an output of so many samples. -/
structure SampledRun.Fits (run : SampledRun) (depth capacity : Nat) : Prop where
  traces : run.traces.first.toNat ≤ run.traces.stop.toNat
  depths : run.depths.first.toNat ≤ run.depths.stop.toNat
  within : run.depths.stop.toNat ≤ depth
  full : run.samples.length = run.traces.size * run.depths.size
  reach : 0 < run.traces.size → 0 < run.depths.size →
    (run.traces.stop.toNat - 1) * depth + run.depths.stop.toNat ≤ capacity

/-- The length of a trace, which is the third entry of the index. -/
def traceLength (index : List Int64) : Nat :=
  (index[2]?.map fun n => n.toInt.toNat).getD 0

def SampledBundle.Fits (index : List Int64) (capacity : Nat) : SampledBundle → Prop
  | .slice _ tiles => ∀ tile ∈ tiles, tile.Fits capacity
  | .curtain _ runs => (∃ n, index[2]? = some n ∧ 0 ≤ n) ∧
    ∀ run ∈ runs, run.Fits (traceLength index) capacity

/-- Every bundle stays within the output that it is for. -/
def Encoder.Fits (e : Encoder) : Prop :=
  ∀ b ∈ e.bundles, ∀ a ∈ e.attributes, b.output = a.name → b.Fits e.index a.shape.product

/-- An output of zeros with the samples of the bundles for it in their places. -/
def Encoder.painted (e : Encoder) (a : Attribute) : Buffer :=
  { a.zeros with
    samples := Sample.paintAll a.zeros.samples
      ((e.bundles.filter fun bundle => bundle.output = a.name).flatMap
        (SampledBundle.writes (traceLength e.index))) }

/-- A session that is fed the bytes in any pieces ends with what the encoder was told. -/
def Encoder.ReadsBack (e : Encoder) (limits : Limits) (bytes : Bytes) : Prop :=
  ∃ header, Header.ofWire e.header = .ok header ∧ ∀ pieces : List Bytes, pieces.flatten = bytes →
    ((Session.fresh limits).after (pieces.map some)).result? =
      some ⟨header, e.attributes.map e.painted⟩

end SeismicStream
