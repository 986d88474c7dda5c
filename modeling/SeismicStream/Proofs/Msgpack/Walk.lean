import SeismicStream.Msgpack.Walk
import SeismicStream.Proofs.Msgpack.Recognition

namespace SeismicStream.Msgpack

namespace Walk

variable {bs : Bytes} {first count last : Nat}

/-- Steps to a position on a walk are its first steps, and the others lead on from there. -/
theorem rest {more position : Nat} (h : Walk bs first count position)
    (hw : Walk bs first (count + more) last) : Walk bs position more last := by
  induction h with
  | none => rwa [Nat.zero_add] at hw
  | @step position size count _ measured onward ih =>
    rw [Nat.succ_add] at hw
    cases hw with
    | step measured' onward' =>
      rw [measured] at measured'
      cases measured'
      exact ih onward'

theorem snoc {size : Nat} (h : Walk bs first count last)
    (measured : extent (bs.drop last) = .ok (some size)) :
    Walk bs first (count + 1) (last + size) := by
  induction h with
  | none => exact .step measured .none
  | step measured' onward ih => exact .step measured' (ih measured)

/-- A walk goes over so many values. -/
theorem values {front rest : Bytes} (h : Walk bs first count last) (hb : bs = front ++ rest)
    (hf : first = front.length) : ∃ inside after, rest = inside ++ after ∧
      AreValues count inside ∧ last = front.length + inside.length := by
  induction h generalizing front rest with
  | none => exact ⟨[], rest, rfl, .none, hf⟩
  | @step position size count last measured onward ih =>
    subst hb hf
    rw [List.drop_left] at measured
    obtain ⟨value, others, rfl, hv, rfl⟩ := extent_eq_some_iff.mp measured
    obtain ⟨inside, after, rfl, hi, rfl⟩ := @ih (front ++ value) others (by simp) (by simp)
    refine ⟨value ++ inside, after, by simp, ?_, by simp [Nat.add_assoc]⟩
    rw [Nat.add_comm]
    exact hv.value.append hi

theorem of_values {front inside after : Bytes} (h : AreValues count inside)
    (hs : inside.length < UInt64.size) :
    Walk (front ++ (inside ++ after)) front.length count (front.length + inside.length) := by
  induction count generalizing front inside with
  | zero =>
    cases h
    exact .none
  | succ count ih =>
    rw [Nat.add_comm] at h
    obtain ⟨value, others, rfl, hv, ho⟩ := h.split
    rw [List.length_append] at hs
    refine @Walk.step _ _ value.length _ _ ?_ ?_
    · rw [List.drop_left, List.append_assoc]
      exact extent_eq_some_iff.mpr ⟨value, others ++ after, rfl, ⟨hv, by omega⟩, rfl⟩
    · have hw := @ih (front ++ value) others ho (by omega)
      simpa [Nat.add_assoc] using hw

end Walk

/-- Some items of a walk have an extent, and the next has none. -/
structure Stops (bs : Bytes) (first count items position : Nat) : Prop where
  fewer : items < count
  walk : Walk bs first items position
  stuck : ∀ size, extent (bs.drop position) ≠ .ok (some size)

theorem walk_or_stops (bs : Bytes) (first count : Nat) :
    (∃ last, Walk bs first count last) ∨
      ∃ items position, Stops bs first count items position := by
  induction count with
  | zero => exact .inl ⟨first, .none⟩
  | succ count ih =>
    rcases ih with ⟨last, hw⟩ | ⟨items, position, fewer, walk, stuck⟩
    · by_cases hm : ∃ size, extent (bs.drop last) = .ok (some size)
      · obtain ⟨size, hm⟩ := hm
        exact .inl ⟨last + size, hw.snoc hm⟩
      · exact .inr ⟨count, last, Nat.lt_succ_self count, hw, fun size h => hm ⟨size, h⟩⟩
    · exact .inr ⟨items, position, Nat.lt_succ_of_lt fewer, walk, stuck⟩

namespace Stops

variable {bs : Bytes} {first count items position : Nat}

theorem not_walk (h : Stops bs first count items position) {more last : Nat}
    (hw : Walk bs first more last) (hm : items < more) : False := by
  obtain ⟨k, rfl⟩ : ∃ k, more = items + (k + 1) := ⟨more - items - 1, by omega⟩
  cases h.walk.rest hw with
  | step measured onward => exact h.stuck _ measured

/-- A walk stops at one position only. -/
theorem unique (h : Stops bs first count items position) {items' position' : Nat}
    (h' : Stops bs first count items' position') : position = position' := by
  rcases Nat.lt_trichotomy items items' with hlt | rfl | hlt
  · exact (h.not_walk h'.walk hlt).elim
  · cases @Walk.rest _ _ _ _ 0 _ h.walk h'.walk
    rfl
  · exact (h'.not_walk h.walk hlt).elim

end Stops

namespace IsArrayHead

variable {count : Nat} {head tail rest : Bytes}

/-- A value that begins with the head of an array is the head and the items. -/
theorem of_value {value : Bytes} (h : IsArrayHead count head) (hv : IsValue value)
    (he : value ++ rest = head ++ tail) :
    ∃ inside, value = head ++ inside ∧ AreValues count inside := by
  cases hv with
  | @value own inside after children _ token within after =>
    cases after
    simp only [List.append_assoc, List.append_nil] at he ⊢
    obtain ⟨rfl, -, rfl⟩ := token.unique h.isToken he
    exact ⟨inside, rfl, within⟩

/-- A tag that is due behind the head of an array is due in one of its items. -/
theorem of_due {part : Bytes} (h : IsArrayHead count head) (hd : TagDue part)
    (he : part ++ 0xC1 :: rest = head ++ tail) : ∃ items < count, ∃ before item,
      part = head ++ (before ++ item) ∧ AreValues items before ∧ TagDue item := by
  cases hd with
  | start => exact absurd he.symm (not_isToken_reserved h.isToken)
  | @inside own before item children items token siblings more due =>
    simp only [List.append_assoc] at he ⊢
    obtain ⟨rfl, -, rfl⟩ := token.unique h.isToken he
    exact ⟨items, more, before, item, rfl, siblings, due⟩

end IsArrayHead

section

variable {bs : Bytes} {count size : Nat}

theorem extent_array_some (h : bs.length < UInt64.size)
    (ha : arrayHead bs = .ok (some (count, size))) {last : Nat} :
    extent bs = .ok (some last) ↔ Walk bs size count last := by
  obtain ⟨head, rest, rfl, hh, rfl⟩ := arrayHead_sound ha
  constructor
  · intro he
    obtain ⟨value, tail, hb, hv, rfl⟩ := extent_eq_some_iff.mp he
    obtain ⟨inside, rfl, hi⟩ := hh.of_value hv.value hb.symm
    have hs := hv.small
    rw [List.length_append] at hs
    rw [hb, List.append_assoc, List.length_append]
    exact .of_values hi (by omega)
  · intro hw
    obtain ⟨inside, after, rfl, hi, rfl⟩ := hw.values rfl rfl
    rw [← List.append_assoc] at h ⊢
    rw [List.length_append] at h
    exact extent_eq_some_iff.mpr
      ⟨head ++ inside, after, rfl, ⟨hh.isValue hi, by omega⟩, by simp⟩

theorem extent_array_reserved (h : bs.length < UInt64.size)
    (ha : arrayHead bs = .ok (some (count, size))) {p : Nat} :
    extent bs = .error (.reservedTag p) ↔ ∃ items < count, ∃ position offset,
      Walk bs size items position ∧ extent (bs.drop position) = .error (.reservedTag offset) ∧
        p = position + offset := by
  obtain ⟨head, rest, rfl, hh, rfl⟩ := arrayHead_sound ha
  constructor
  · intro he
    obtain ⟨part, tail, hb, hd, rfl⟩ := (extent_eq_reserved_iff h).mp he
    obtain ⟨items, hlt, before, item, rfl, hv, due⟩ := hh.of_due hd hb.symm
    have hb' : head ++ rest = (head ++ before) ++ (item ++ 0xC1 :: tail) := by rw [hb]; simp
    rw [hb'] at h ⊢
    simp only [List.length_append] at h
    refine ⟨items, hlt, head.length + before.length, item.length, ?_, ?_, by simp [Nat.add_assoc]⟩
    · rw [List.append_assoc]
      exact .of_values hv (by omega)
    · rw [← List.length_append, List.drop_left]
      refine (extent_eq_reserved_iff ?_).mpr ⟨item, tail, rfl, due, rfl⟩
      rw [List.length_append]
      omega
  · intro he
    obtain ⟨items, hlt, position, offset, hw, he, rfl⟩ := he
    obtain ⟨before, after, rfl, hv, rfl⟩ := hw.values rfl rfl
    rw [← List.append_assoc, ← List.length_append, List.drop_left] at he
    simp only [List.length_append] at h
    obtain ⟨item, tail, rfl, due, rfl⟩ := (extent_eq_reserved_iff (by omega)).mp he
    refine (extent_eq_reserved_iff (by simpa only [List.length_append] using h)).mpr ?_
    exact ⟨head ++ before ++ item, tail, by simp, .inside hh.isToken hv hlt due,
      by simp [Nat.add_assoc]⟩

/-- The first item without an extent decides about the array. -/
theorem extent_array_stops (h : bs.length < UInt64.size)
    (ha : arrayHead bs = .ok (some (count, size))) {items position : Nat}
    (hs : Stops bs size count items position) :
    extent bs = .ok none ↔ extent (bs.drop position) = .ok none := by
  have hlen : (bs.drop position).length < UInt64.size := by
    rw [List.length_drop]
    omega
  constructor
  · intro he
    cases hi : extent (bs.drop position) with
    | error e =>
      obtain ⟨offset, rfl⟩ := extent_eq_error hlen hi
      have hr := (extent_array_reserved h ha).mpr
        ⟨items, hs.fewer, position, offset, hs.walk, hi, rfl⟩
      rw [he] at hr
      cases hr
    | ok answer =>
      cases answer with
      | none => rfl
      | some size => exact absurd hi (hs.stuck size)
  · intro hi
    cases he : extent bs with
    | error e =>
      obtain ⟨p, rfl⟩ := extent_eq_error h he
      obtain ⟨items', hlt, position', offset, hw, hr, -⟩ := (extent_array_reserved h ha).mp he
      have hs' : Stops bs size count items' position' := ⟨hlt, hw, by rw [hr]; exact nofun⟩
      rw [← hs.unique hs', hi] at hr
      cases hr
    | ok answer =>
      cases answer with
      | none => rfl
      | some last =>
        exact (hs.not_walk ((extent_array_some h ha).mp he) hs.fewer).elim

theorem measuredByItems (h : bs.length < UInt64.size)
    (ha : arrayHead bs = .ok (some (count, size))) : MeasuredByItems bs count size where
  whole _ := extent_array_some h ha
  reserved _ := extent_array_reserved h ha
  cutOff := by
    constructor
    · intro he
      rcases walk_or_stops bs size count with ⟨last, hw⟩ | ⟨items, position, hs⟩
      · rw [(extent_array_some h ha).mpr hw] at he
        cases he
      · exact ⟨items, hs.fewer, position, hs.walk, (extent_array_stops h ha hs).mp he⟩
    · intro he
      obtain ⟨items, hlt, position, hw, hi⟩ := he
      have hs : Stops bs size count items position := ⟨hlt, hw, by rw [hi]; exact nofun⟩
      exact (extent_array_stops h ha hs).mpr hi

end

theorem wide_short {width : Nat} {rest : Bytes} (h : arrayHead.wide width rest = none)
    (make : Bytes → Token) : Lexed.fixed width rest make = .short := by
  rw [Lexed.fixed, Option.map_eq_none_iff.mp h]

/-- A head that is cut off is a token that is. -/
theorem lex_of_arrayHead_none {bs : Bytes} (ha : arrayHead bs = .ok none) : lex bs = .short := by
  cases bs with
  | nil => rfl
  | cons tag rest =>
    simp only [arrayHead] at ha
    split at ha
    · cases ha
    split at ha
    · rename_i ht
      subst ht
      exact wide_short (Except.ok.inj ha) arrayOf
    split at ha
    · rename_i ht
      subst ht
      exact wide_short (Except.ok.inj ha) arrayOf
    · cases ha

theorem extent_of_arrayHead_none {bs : Bytes} (ha : arrayHead bs = .ok none) :
    extent bs = .ok none := by
  rw [extent, scan]
  split <;> simp_all [lex_of_arrayHead_none ha]

theorem isArrayTag_iff {tag : UInt8} :
    IsArrayTag tag ↔ (0x90 ≤ tag ∧ tag < 0xA0) ∨ tag = 0xDC ∨ tag = 0xDD := by
  constructor
  · intro h
    obtain ⟨n, count, hn⟩ := h
    cases hn with
    | short hlt =>
      refine .inl ?_
      rw [UInt8.le_iff_toNat_le, UInt8.lt_iff_toNat_lt, toNat_ofNat_add (by omega)]
      simp only [UInt8.reduceToNat]
      omega
    | array16 => exact .inr (.inl rfl)
    | array32 => exact .inr (.inr rfl)
  · intro h
    rcases h with ⟨hl, hh⟩ | rfl | rfl
    · obtain ⟨n, hn, rfl⟩ :=
        exists_offset (UInt8.le_iff_toNat_le.mp hl) (UInt8.lt_iff_toNat_lt.mp hh)
      exact ⟨n, [], .short hn⟩
    · exact ⟨_, [0, 0], .array16 rfl⟩
    · exact ⟨_, [0, 0, 0, 0], .array32 rfl⟩

/-- Only a first byte that begins no array is refused. -/
theorem arrayHead_eq_error_iff {bs : Bytes} {e : FramingError} : arrayHead bs = .error e ↔
    ∃ tag rest, bs = tag :: rest ∧ ¬ IsArrayTag tag ∧ e = .notAnArray tag := by
  cases bs with
  | nil => simp [arrayHead]
  | cons tag rest =>
    simp only [List.cons.injEq, isArrayTag_iff, arrayHead]
    repeat' split
    all_goals simp_all [eq_comm]

/-- An envelope is an array of two. -/
theorem readAsEnvelope (bs : Bytes) : ReadAsEnvelope bs := by
  cases ha : arrayHead bs with
  | error e =>
    obtain ⟨tag, rest, -, -, rfl⟩ := arrayHead_eq_error_iff.mp ha
    constructor <;> simp [envelope, ha]
  | ok answer =>
    rcases answer with _ | ⟨n, size⟩
    · constructor <;> simp [envelope, ha]
    by_cases hn : n = 2
    · constructor <;> simp [envelope, ha, hn, eq_comm]
    · constructor <;> simp [envelope, ha, hn]

/-- Measuring an array item by item agrees with measuring it whole, and with its head. -/
theorem arrayHead_streams {bs : Bytes} (h : bs.length < UInt64.size) :
    (∀ count size, arrayHead bs = .ok (some (count, size)) → MeasuredByItems bs count size) ∧
      (arrayHead bs = .ok none → extent bs = .ok none) ∧
      (∀ e, arrayHead bs = .error e ↔
        ∃ tag rest, bs = tag :: rest ∧ ¬ IsArrayTag tag ∧ e = .notAnArray tag) ∧
      ReadAsEnvelope bs :=
  ⟨fun _ _ => measuredByItems h, extent_of_arrayHead_none, fun _ => arrayHead_eq_error_iff,
    readAsEnvelope bs⟩

/-- An array of a string and of an array whose second item begins with the reserved tag. -/
def reservedInside : Bytes := [0x92, 0xA2, 0x68, 0x69, 0xDC, 0x00, 0x02, 0x01, 0xC1]

theorem arrayHead_streams_reservedInside : reservedInside.length < UInt64.size ∧
    ∃ items < 2, ∃ position offset, Walk reservedInside 1 items position ∧
      extent (reservedInside.drop position) = .error (.reservedTag offset) ∧
        8 = position + offset := by
  have h : reservedInside.length < UInt64.size := by decide
  obtain ⟨streams, -⟩ := arrayHead_streams h
  have he : extent reservedInside = .error (.reservedTag 8) := by decide +kernel
  exact ⟨h, ((streams 2 1 rfl).reserved 8).mp he⟩

end SeismicStream.Msgpack
