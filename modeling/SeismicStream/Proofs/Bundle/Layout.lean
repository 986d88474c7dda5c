import SeismicStream.Proofs.Outputs

namespace SeismicStream

/-- What does not change about a buffer: its name, its shape and how many samples it has. -/
def Buffer.layout (b : Buffer) : String × Shape × Nat :=
  (b.name, b.shape, b.samples.size)

/-- The layout of an output's buffer, which has as many samples as the shape says. -/
def Attribute.layout (a : Attribute) : String × Shape × Nat :=
  (a.name, a.shape, a.shape.product)

def Registry.layout (r : Registry) : List (String × Shape × Nat) :=
  r.buffers.map Buffer.layout

def Header.layout (h : Header) : List (String × Shape × Nat) :=
  h.attributes.map Attribute.layout

theorem size_copySamples (source target : Array Sample) (first length start : Word) :
    (copySamples source first length target start).size = target.size :=
  Sample.size_paint _ _ _

theorem Strides.size_copies (s : Strides) (source : Array Sample) (i : Word) (count : Nat)
    (target : Array Sample) : (s.copies source i count target).target.size = target.size := by
  induction count generalizing i target with
  | zero => rfl
  | succ count ih =>
    unfold copies
    split
    · rfl
    · rw [ih, size_copySamples]

theorem Tile.size_scatter (tile : Tile) (target : Array Sample) :
    (tile.scatter target).target.size = target.size := by
  unfold scatter
  split
  · rfl
  · rename_i source hs
    have hc := tile.size_copies source 0 tile.iterations.toNat target
    split
    · rfl
    split
    · rfl
    split
    · rename_i e after ha
      rwa [ha] at hc
    · rename_i u after ha
      rwa [ha] at hc

theorem size_scatterTiles (written : Nat) (tiles : List Tile) (target : Array Sample) :
    (scatterTiles written tiles target).target.size = target.size := by
  induction tiles generalizing written target with
  | nil => rfl
  | cons tile rest ih =>
    have ht := tile.size_scatter target
    unfold scatterTiles
    split
    · rename_i e after ha
      rwa [ha] at ht
    · rename_i n after ha
      rw [ha] at ht
      rw [ih, ← ht]

theorem Run.size_fill (run : Run) (depth : Word) (source : Array Sample) (trace : Word)
    (count : Nat) (cursor : Word) (target : Array Sample) :
    (run.fill depth source trace count cursor target).target.size = target.size := by
  induction count generalizing trace cursor target with
  | zero => rfl
  | succ count ih =>
    unfold fill
    split
    · rfl
    · rw [ih, size_copySamples]

theorem size_scatterRuns (depth : Word) (source : Array Sample) (cursor : Word) (runs : List Run)
    (target : Array Sample) :
    (scatterRuns depth source cursor runs target).target.size = target.size := by
  induction runs generalizing cursor target with
  | nil => rfl
  | cons run rest ih =>
    have hf := run.size_fill depth source run.traces.first run.traces.length.toNat cursor target
    unfold scatterRuns
    split
    · rfl
    split
    · exact ih cursor target
    split
    · rename_i e after ha
      rwa [ha] at hf
    · rename_i cursor after ha
      rw [ha] at hf
      rw [ih, ← hf]

/-- A bundle leaves an output as long as it was, even where it fails. -/
theorem Bundle.size_scatter (bundle : Bundle) (index : List Int64) (target : Array Sample) :
    (bundle.scatter index target).target.size = target.size := by
  unfold scatter
  split
  · exact size_scatterTiles 0 _ target
  · rename_i output runs values
    split
    · rfl
    rename_i depth _
    split
    · rfl
    rename_i source _
    have hr := size_scatterRuns depth source 0 runs target
    split
    · rename_i e after ha
      rwa [ha] at hr
    · rename_i cursor after ha
      rwa [ha] at hr

namespace Registry

/-- Work that keeps the number of samples keeps the layout. -/
theorem layout_update {α : Type} {f : Array Sample → α × Array Sample} {r after : Registry}
    {slot : Nat} {answer : Option α} (hu : r.update slot f = (answer, after))
    (h : ∀ samples, (f samples).2.size = samples.size) : after.layout = r.layout := by
  have all : ∀ buffers : List Buffer,
      (updateAt f slot buffers).2.map Buffer.layout = buffers.map Buffer.layout := by
    clear hu
    intro buffers
    induction buffers generalizing slot with
    | nil => simp [updateAt]
    | cons b rest ih =>
      cases slot with
      | zero => simp only [updateAt, List.map_cons, Buffer.layout, h]
      | succ slot => simp only [updateAt, List.map_cons, ih]
  have ha : (r.update slot f).2.layout = r.layout := all r.buffers
  rwa [hu] at ha

/-- Only a slot that is there gives an answer. -/
theorem le_of_update_none {α : Type} {f : Array Sample → α × Array Sample} {r after : Registry}
    {slot : Nat} (hu : r.update slot f = (none, after)) : r.buffers.length ≤ slot := by
  have ha : (r.update slot f).1 = r.buffers[slot]?.map fun b => (f b.samples).1 :=
    updateAt_fst f slot r.buffers
  rw [hu] at ha
  exact List.getElem?_eq_none_iff.mp (Option.map_eq_none_iff.mp ha.symm)

theorem layout_allocate {header : Header} {limits : Limits} {outputs : Registry}
    (h : allocate header limits = .ok outputs) : outputs.layout = header.layout := by
  have hz : ∀ a : Attribute, a.zeros.layout = a.layout := by
    intro a
    simp only [Attribute.zeros, Buffer.layout, Attribute.layout, Array.size_replicate]
  rw [layout, allocate_ok h, List.map_map, Header.layout]
  exact List.map_congr_left fun a _ => hz a

end Registry

end SeismicStream
