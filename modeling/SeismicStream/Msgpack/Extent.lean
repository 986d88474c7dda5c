import SeismicStream.Msgpack.Token
import SeismicStream.Word

namespace SeismicStream.Msgpack

/-- Why bytes cannot be cut into values. Offsets count from the front of the bytes in question. -/
inductive FramingError
  /-- Another tag stands where an array has to begin. -/
  | notAnArray (found : UInt8)
  | reservedTag (offset : Nat)
  /-- The end of a token is no position that a word can hold. -/
  | lengthOutOfRange (offset : Nat)
  /-- The outer array does not hold a header and a list of bundles. -/
  | envelopeCount (found : Nat)
deriving DecidableEq, Repr

/-- A byte as two hexadecimal digits. -/
def hexByte (b : UInt8) : String :=
  String.ofList [digit (b.toNat / 16), digit (b.toNat % 16)]
where
  digit (n : Nat) : Char := if n < 10 then Char.ofNat (48 + n) else Char.ofNat (55 + n)

def FramingError.message : FramingError → String
  | .notAnArray found => s!"expected array at offset 0, found tag 0x{hexByte found}"
  | .reservedTag offset => s!"reserved tag 0xC1 at offset {offset}"
  | .lengthOutOfRange offset => s!"length at offset {offset} is out of range"
  | .envelopeCount found => s!"bad envelope: expected array(2), was array({found})"

/-- Steps over `pending` more values, from a position where all before it is read. A value that
holds others asks for these next. The number of values asked for is a word and stays at the largest
word rather than leave it. An end that leaves the word lies behind more bytes than there can be, so
it does not matter that a token is found cut off before its end is looked at. -/
def scan (bs : Bytes) (position pending : Nat) : Except FramingError (Option Nat) :=
  match pending with
  | 0 => .ok (some position)
  | pending + 1 =>
    match _h : lex bs with
    | .reserved => .error (.reservedTag position)
    | .short => .ok none
    | .token token size rest =>
      if UInt64.size ≤ position + size then .error (.lengthOutOfRange position)
      else scan rest (position + size) (min (pending + token.children) Word.last.toNat)
termination_by bs.length
decreasing_by have := lex_length _h; omega

/-- How many bytes the value at the front takes, `none` while it is cut off. -/
def extent (bs : Bytes) : Except FramingError (Option Nat) :=
  scan bs 0 1

/-- The count of the array at the front and the bytes of its head, `none` while the head is cut
off. The entries are not looked at. -/
def arrayHead : Bytes → Except FramingError (Option (Nat × Nat))
  | [] => .ok none
  | tag :: rest =>
    if 0x90 ≤ tag ∧ tag < 0xA0 then .ok (some (tag.toNat - 0x90, 1))
    else if tag = 0xDC then .ok (wide 2 rest)
    else if tag = 0xDD then .ok (wide 4 rest)
    else .error (.notAnArray tag)
where
  wide (width : Nat) (rest : Bytes) : Option (Nat × Nat) :=
    (Bytes.takeExact width rest).map fun (count, _) => (Bytes.toNat count, 1 + width)

/-- The bytes of the head of a response, which is an array of two. -/
def envelope (bs : Bytes) : Except FramingError (Option Nat) :=
  match arrayHead bs with
  | .error e => .error e
  | .ok none => .ok none
  | .ok (some (count, size)) =>
    if count = 2 then .ok (some size) else .error (.envelopeCount count)

end SeismicStream.Msgpack
