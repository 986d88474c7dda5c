import SeismicStream.Bytes

namespace SeismicStream.Msgpack

/-- What one tag says, with the bytes that belong to it alone. An array or a map holds its count
only; its entries follow it as tokens of their own. -/
inductive Token
  | nil
  | bool (value : Bool)
  | float
  | extension
  | unsigned (value : Nat)
  /-- An integer written in a signed form, whatever its sign. -/
  | signed (value : Int)
  | str (bytes : Bytes)
  | bin (bytes : Bytes)
  | array (count : Nat)
  | map (count : Nat)
deriving DecidableEq, Repr

/-- How many values stand directly inside the value that starts with this token. -/
def Token.children : Token → Nat
  | .array count => count
  | .map count => 2 * count
  | _ => 0

/-- The first token of a byte string. -/
inductive Lexed
  /-- A whole token, how many bytes it takes, and the bytes after it. -/
  | token (token : Token) (size : Nat) (rest : Bytes)
  /-- The token is cut off. -/
  | short
  /-- The tag is the one that the format never assigns. -/
  | reserved

/-- A token whose tag is followed by `count` bytes. -/
def Lexed.fixed (count : Nat) (rest : Bytes) (make : Bytes → Token) : Lexed :=
  match Bytes.takeExact count rest with
  | some (own, rest) => .token (make own) (1 + count) rest
  | none => .short

/-- A token whose tag is followed by a length of `width` bytes, `extra` bytes, and then as many
bytes as the length says. -/
def Lexed.counted (width extra : Nat) (rest : Bytes) (make : Bytes → Token) : Lexed :=
  match Bytes.takeExact width rest with
  | some (length, rest) =>
    match Bytes.takeExact (extra + Bytes.toNat length) rest with
    | some (own, rest) => .token (make own) (1 + width + extra + Bytes.toNat length) rest
    | none => .short
  | none => .short

def unsignedOf (bs : Bytes) : Token :=
  .unsigned (Bytes.toNat bs)

/-- Two's complement in as many bits as the bytes have. -/
def signedOf (bs : Bytes) : Token :=
  .signed (Int.bmod (Bytes.toNat bs) (Nat.pow 256 bs.length))

def arrayOf (bs : Bytes) : Token :=
  .array (Bytes.toNat bs)

def mapOf (bs : Bytes) : Token :=
  .map (Bytes.toNat bs)

/-- Reads the token at the front. A small number, count or length shares the byte of its tag. -/
def lex : Bytes → Lexed
  | [] => .short
  | tag :: rest =>
    if tag < 0x80 then .token (.unsigned tag.toNat) 1 rest
    else if tag < 0x90 then .token (.map (tag.toNat - 0x80)) 1 rest
    else if tag < 0xA0 then .token (.array (tag.toNat - 0x90)) 1 rest
    else if tag < 0xC0 then .fixed (tag.toNat - 0xA0) rest .str
    else if 0xE0 ≤ tag then .token (.signed (tag.toNat - 256)) 1 rest
    else match tag with
      | 0xC0 => .token .nil 1 rest
      | 0xC2 => .token (.bool false) 1 rest
      | 0xC3 => .token (.bool true) 1 rest
      | 0xC4 => .counted 1 0 rest .bin
      | 0xC5 => .counted 2 0 rest .bin
      | 0xC6 => .counted 4 0 rest .bin
      | 0xC7 => .counted 1 1 rest fun _ => .extension
      | 0xC8 => .counted 2 1 rest fun _ => .extension
      | 0xC9 => .counted 4 1 rest fun _ => .extension
      | 0xCA => .fixed 4 rest fun _ => .float
      | 0xCB => .fixed 8 rest fun _ => .float
      | 0xCC => .fixed 1 rest unsignedOf
      | 0xCD => .fixed 2 rest unsignedOf
      | 0xCE => .fixed 4 rest unsignedOf
      | 0xCF => .fixed 8 rest unsignedOf
      | 0xD0 => .fixed 1 rest signedOf
      | 0xD1 => .fixed 2 rest signedOf
      | 0xD2 => .fixed 4 rest signedOf
      | 0xD3 => .fixed 8 rest signedOf
      | 0xD4 => .fixed 2 rest fun _ => .extension
      | 0xD5 => .fixed 3 rest fun _ => .extension
      | 0xD6 => .fixed 5 rest fun _ => .extension
      | 0xD7 => .fixed 9 rest fun _ => .extension
      | 0xD8 => .fixed 17 rest fun _ => .extension
      | 0xD9 => .counted 1 0 rest .str
      | 0xDA => .counted 2 0 rest .str
      | 0xDB => .counted 4 0 rest .str
      | 0xDC => .fixed 2 rest arrayOf
      | 0xDD => .fixed 4 rest arrayOf
      | 0xDE => .fixed 2 rest mapOf
      | 0xDF => .fixed 4 rest mapOf
      | _ => .reserved

theorem Lexed.fixed_length {count : Nat} {bs rest : Bytes} {make : Bytes → Token} {t : Token}
    {size : Nat} (h : Lexed.fixed count bs make = .token t size rest) :
    bs.length + 1 = size + rest.length ∧ 0 < size := by
  unfold Lexed.fixed at h
  split at h
  · next hs =>
    cases h
    have := Bytes.takeExact_length hs
    omega
  · cases h

theorem Lexed.counted_length {width extra : Nat} {bs rest : Bytes} {make : Bytes → Token}
    {t : Token} {size : Nat} (h : Lexed.counted width extra bs make = .token t size rest) :
    bs.length + 1 = size + rest.length ∧ 0 < size := by
  unfold Lexed.counted at h
  split at h
  · next hs =>
    split at h
    · next hs' =>
      cases h
      have := Bytes.takeExact_length hs
      have := Bytes.takeExact_length hs'
      omega
    · cases h
  · cases h

/-- A token and what follows it are the whole input, and a token is never empty. -/
theorem lex_length {bs rest : Bytes} {t : Token} {size : Nat}
    (h : lex bs = .token t size rest) : bs.length = size + rest.length ∧ 0 < size := by
  cases bs with
  | nil => cases h
  | cons tag bs =>
    unfold lex at h
    dsimp only at h
    rw [List.length_cons]
    repeat' split at h
    all_goals first
      | exact Lexed.fixed_length h
      | exact Lexed.counted_length h
      | (cases h; done)
      | (obtain ⟨-, rfl, rfl⟩ := Lexed.token.inj h; omega)

end SeismicStream.Msgpack
