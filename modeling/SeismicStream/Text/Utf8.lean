import SeismicStream.Bytes

namespace SeismicStream.Text

/-- The bytes of a text in UTF-8. -/
def encode (s : String) : Bytes :=
  s.toUTF8.data.toList

/-- The text that the bytes spell in UTF-8, if they spell one. -/
def decode? (bs : Bytes) : Option String :=
  String.fromUTF8? ⟨bs.toArray⟩

theorem decode?_encode (s : String) : decode? (encode s) = some s := by
  have h : (⟨(encode s).toArray⟩ : ByteArray) = s.toByteArray := by
    simp [encode]
  rw [decode?, String.fromUTF8?, h, dif_pos s.isValidUTF8]
  rfl

/-- What a character that has begun still needs: how many bytes, and the range of the next one. The
later ones lie between 0x80 and 0xBF. -/
structure Pending where
  more : Nat
  low : UInt8
  high : UInt8

/-- What the first byte of a character asks for, `none` for a byte that begins none. The narrower
ranges leave out long spellings, surrogates and code points past the last. -/
def Pending.ofLead (b : UInt8) : Option Pending :=
  if b < 0x80 then some ⟨0, 0x80, 0xBF⟩
  else if b < 0xC2 then none
  else if b < 0xE0 then some ⟨1, 0x80, 0xBF⟩
  else if b = 0xE0 then some ⟨2, 0xA0, 0xBF⟩
  else if b = 0xED then some ⟨2, 0x80, 0x9F⟩
  else if b < 0xF0 then some ⟨2, 0x80, 0xBF⟩
  else if b = 0xF0 then some ⟨3, 0x90, 0xBF⟩
  else if b < 0xF4 then some ⟨3, 0x80, 0xBF⟩
  else if b = 0xF4 then some ⟨3, 0x80, 0x8F⟩
  else none

/-- How many bytes after the first continue its character, at most as many as it asks for. -/
def Pending.run : Nat → UInt8 → UInt8 → Bytes → Nat
  | more + 1, low, high, b :: rest =>
    if low ≤ b ∧ b ≤ high then Pending.run more 0x80 0xBF rest + 1 else 0
  | _, _, _, _ => 0

/-- U+FFFD in UTF-8. -/
def replacement : Bytes :=
  [0xEF, 0xBF, 0xBD]

/-- The bytes with every part that spells no character replaced by U+FFFD, after those in `front`,
which are the last first. Such a part is a byte that cannot follow or begin, or as much of a
character as is there. -/
def mend (front bs : Bytes) : Bytes :=
  match bs with
  | [] => front.reverse
  | b :: rest =>
    match Pending.ofLead b with
    | none => mend (replacement.reverse ++ front) rest
    | some need =>
      let n := Pending.run need.more need.low need.high rest
      let part := if n = need.more then b :: rest.take n else replacement
      mend (part.reverse ++ front) (rest.drop n)
termination_by bs.length
decreasing_by all_goals (simp only [List.length_drop, List.length_cons]; omega)

/-- The text that the bytes spell, with U+FFFD where they spell none. -/
def decodeMended (bs : Bytes) : String :=
  (decode? (mend [] bs)).getD ""

end SeismicStream.Text
