import SeismicStream.Msgpack.Reader
import SeismicStream.Proofs.Lists

namespace SeismicStream.Msgpack

/-- How many bytes a token holds as a string or a byte string. -/
def Token.held : Token → Nat
  | .str bytes => bytes.length
  | .bin bytes => bytes.length
  | _ => 0

theorem Token.held_of_blob? {t : Token} {bytes : Bytes} (h : t.blob? = some bytes) :
    bytes.length ≤ t.held := by
  cases t <;> cases h <;> exact Nat.le_refl _

theorem Lexed.fixed_held {count : Nat} {bs rest : Bytes} {make : Bytes → Token} {t : Token}
    {size : Nat} (h : Lexed.fixed count bs make = .token t size rest)
    (hm : ∀ own, (make own).held ≤ own.length) : t.held + rest.length ≤ bs.length := by
  unfold Lexed.fixed at h
  split at h
  · rename_i own rest' ht
    cases h
    obtain ⟨rfl, -⟩ := Bytes.takeExact_eq_some_iff.mp ht
    have := hm own
    rw [List.length_append]
    omega
  · cases h

theorem Lexed.counted_held {width extra : Nat} {bs rest : Bytes} {make : Bytes → Token} {t : Token}
    {size : Nat} (h : Lexed.counted width extra bs make = .token t size rest)
    (hm : ∀ own, (make own).held ≤ own.length) : t.held + rest.length ≤ bs.length := by
  unfold Lexed.counted at h
  split at h
  · rename_i length body ht
    obtain ⟨rfl, -⟩ := Bytes.takeExact_eq_some_iff.mp ht
    rw [List.length_append]
    split at h
    · rename_i own rest' hr
      cases h
      obtain ⟨rfl, -⟩ := Bytes.takeExact_eq_some_iff.mp hr
      have := hm own
      rw [List.length_append]
      omega
    · cases h
  · cases h

theorem lex_held {bs rest : Bytes} {t : Token} {size : Nat} (h : lex bs = .token t size rest) :
    t.held + rest.length ≤ bs.length := by
  cases bs with
  | nil => cases h
  | cons tag bs =>
    refine Nat.le_trans ?_ (Nat.le_succ bs.length)
    unfold lex at h
    dsimp only at h
    repeat' split at h
    -- Behind a tag stand a field of fixed length, a counted string, no token, or nothing more.
    all_goals first
      | exact Lexed.fixed_held h fun own => by
          simp [Token.held, unsignedOf, signedOf, arrayOf, mapOf]
      | exact Lexed.counted_held h fun own => by simp [Token.held]
      | (cases h; done)
      | (obtain ⟨rfl, rfl, rfl⟩ := Lexed.token.inj h; simp [Token.held])

namespace Reader

variable {α : Type}

/-- What is read weighs no more than the bytes that it was read from. -/
def Weighs (read : Reader α) (weight : α → Nat) : Prop :=
  ∀ bs a rest, read bs = some (a, rest) → weight a + rest.length ≤ bs.length

theorem token_weighs : Weighs token Token.held := by
  intro bs t rest h
  unfold token at h
  split at h
  · rename_i hl
    cases h
    exact lex_held hl
  · cases h

theorem item_weighs {accept : Token → Option α} {weight : α → Nat}
    (hw : ∀ t a, accept t = some a → weight a ≤ t.held) : Weighs (item accept) weight := by
  intro bs a rest h
  unfold item at h
  split at h
  · rename_i t rest' ht
    obtain ⟨a', ha, he⟩ := Option.map_eq_some_iff.mp h
    obtain ⟨rfl, rfl⟩ := Prod.mk.inj he
    have := hw t a' ha
    have := token_weighs bs t rest' ht
    omega
  · cases h

/-- An item that weighs nothing still leaves no more than there was. -/
theorem item_shrinks (accept : Token → Option α) : Weighs (item accept) fun _ => 0 :=
  item_weighs fun _ _ _ => Nat.zero_le _

theorem word_shrinks : Weighs word fun _ => 0 :=
  item_shrinks _

theorem text_shrinks : Weighs text fun _ => 0 :=
  item_shrinks _

theorem blob_weighs : Weighs blob List.length :=
  item_weighs fun _ _ => Token.held_of_blob?

theorem times_weighs {read : Reader α} {weight : α → Nat} (hr : Weighs read weight) {count : Nat}
    {front items : List α} {bs rest : Bytes} (h : times read count front bs = some (items, rest)) :
    total weight items + rest.length ≤ total weight front + bs.length := by
  induction count generalizing front bs with
  | zero =>
    obtain ⟨rfl, rfl⟩ := Prod.mk.inj (Option.some.inj h)
    exact Nat.le_of_eq (by rw [total_reverse])
  | succ count ih =>
    unfold times at h
    split at h
    · rename_i a after ha
      have hfirst := hr bs a after ha
      have hrest := ih h
      rw [total_cons] at hrest
      omega
    · cases h

/-- The items of a list weigh together no more than its bytes, where a byte that stands for an item
weighs nothing. -/
theorem list_weighs {ofByte : UInt8 → Option α} {read : Reader α} {weight : α → Nat}
    (hb : ∀ b a, ofByte b = some a → weight a = 0) (hr : Weighs read weight) :
    Weighs (list ofByte read) (total weight) := by
  intro bs items rest h
  unfold list at h
  split at h
  · rename_i count body ht
    have := token_weighs bs _ body ht
    have := times_weighs hr h
    rw [total_nil] at this
    omega
  · rename_i bytes body ht
    obtain ⟨items', hm, he⟩ := Option.map_eq_some_iff.mp h
    obtain ⟨rfl, rfl⟩ := Prod.mk.inj he
    have := token_weighs bs _ body ht
    rw [total_eq_zero fun a ha => ?_]
    · omega
    · obtain ⟨b, -, hb'⟩ := exists_of_mem_mapM hm ha
      exact hb b a hb'
  · cases h

theorem words_shrinks : Weighs words fun _ => 0 := by
  intro bs items rest h
  have hl := list_weighs (fun _ _ _ => rfl) word_shrinks bs items rest h
  show 0 + rest.length ≤ bs.length
  omega

theorem tuple_weighs {size : Nat} {body : Reader α} {weight : α → Nat} (hb : Weighs body weight) :
    Weighs (tuple size body) weight := by
  intro bs a rest h
  unfold tuple at h
  split at h
  · rename_i count body ht
    split at h
    · have := token_weighs bs _ body ht
      have := hb body a rest h
      omega
    · cases h
  · cases h

end Reader

end SeismicStream.Msgpack
