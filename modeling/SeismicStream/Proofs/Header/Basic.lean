import SeismicStream.Header.Basic

namespace SeismicStream.Header

/-- A checked header says what the wire says, with one shape and one group of labels for each
name. -/
theorem ofWire_ok {wire : WireHeader} {header : Header} (h : ofWire wire = .ok header) :
    Operation.ofWire? wire.function = some header.operation ∧ header.pid = wire.pid ∧
      header.bundleCount = wire.bundleCount ∧ header.ndims = wire.ndims ∧
      header.index = wire.index ∧
      ∃ shapes labels, Packed.shapes? wire.shapes = .ok shapes ∧
        Packed.labels? wire.labels = .ok labels ∧ shapes.length = wire.attributes.length ∧
        (spreadLabels wire.attributes.length labels).length = wire.attributes.length ∧
        header.attributes =
          declare wire.attributes shapes (spreadLabels wire.attributes.length labels) := by
  unfold ofWire at h
  split at h
  · cases h
  rename_i operation ho
  split at h
  · cases h
  rename_i shapes hs
  split at h
  · cases h
  rename_i hshapes
  split at h
  · cases h
  rename_i labels hl
  dsimp only at h
  split at h
  · cases h
  rename_i hlabels
  split at h
  · cases h
  · cases h
    exact ⟨ho, rfl, rfl, rfl, rfl, shapes, labels, hs, hl, Decidable.not_not.mp hshapes,
      Decidable.not_not.mp hlabels, rfl⟩

theorem declare_map (attributes : List Attribute) :
    declare (attributes.map Attribute.name) (attributes.map Attribute.shape)
      (attributes.map Attribute.labels) = attributes := by
  induction attributes with
  | nil => rfl
  | cons a rest ih =>
    rw [declare] at ih ⊢
    simp only [List.map_cons, List.zip_cons_cons, ih]

theorem spreadLabels_map (attributes : List Attribute) :
    spreadLabels (attributes.map Attribute.name).length (attributes.map Attribute.labels) =
      attributes.map Attribute.labels := by
  cases attributes <;> rfl

end SeismicStream.Header
