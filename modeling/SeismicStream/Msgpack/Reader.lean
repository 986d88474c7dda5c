import SeismicStream.Msgpack.Token
import SeismicStream.Text.Utf8
import SeismicStream.Word

namespace SeismicStream.Msgpack

namespace Token

/-- An integer in any form. -/
def int? : Token → Option Int
  | .unsigned n => some n
  | .signed n => some n
  | _ => none

def word? (t : Token) : Option Word :=
  match t.int? with
  | some n => if 0 ≤ n ∧ n < UInt64.size then some (UInt64.ofNat n.toNat) else none
  | none => none

def int64? (t : Token) : Option Int64 :=
  match t.int? with
  | some n => if Int64.minValue.toInt ≤ n ∧ n ≤ Int64.maxValue.toInt then some (Int64.ofInt n) else none
  | none => none

def uint32? (t : Token) : Option UInt32 :=
  match t.int? with
  | some n => if 0 ≤ n ∧ n < UInt32.size then some (UInt32.ofNat n.toNat) else none
  | none => none

/-- The bytes of a string or of a byte string. -/
def blob? : Token → Option Bytes
  | .str bytes => some bytes
  | .bin bytes => some bytes
  | _ => none

/-- A text may come as a byte string too, but has to be UTF-8. -/
def text? (t : Token) : Option String :=
  t.blob?.bind Text.decode?

end Token

/-- Reads what is asked for from the front and leaves the rest. It does not say why it fails. -/
abbrev Reader (α : Type) := Bytes → Option (α × Bytes)

namespace Reader

def token : Reader Token := fun bs =>
  match lex bs with
  | .token t _ rest => some (t, rest)
  | _ => none

/-- A value of one token. -/
def item {α : Type} (accept : Token → Option α) : Reader α := fun bs =>
  match token bs with
  | some (t, rest) => (accept t).map (·, rest)
  | none => none

/-- As many items as `count` says, after those in `front`, which are the last first. -/
def times {α : Type} (read : Reader α) : (count : Nat) → (front : List α) → Reader (List α)
  | 0, front, bs => some (front.reverse, bs)
  | count + 1, front, bs =>
    match read bs with
    | some (a, rest) => times read count (a :: front) rest
    | none => none

/-- An array of items. A byte string stands for the array of its bytes, where a byte can be an
item. -/
def list {α : Type} (ofByte : UInt8 → Option α) (read : Reader α) : Reader (List α) := fun bs =>
  match token bs with
  | some (.array count, rest) => times read count [] rest
  | some (.bin bytes, rest) => (bytes.mapM ofByte).map (·, rest)
  | _ => none

/-- An array of exactly `size` entries, which `body` reads one after the other. -/
def tuple {α : Type} (size : Nat) (body : Reader α) : Reader α := fun bs =>
  match token bs with
  | some (.array count, rest) => if count = size then body rest else none
  | _ => none

def word : Reader Word := item Token.word?

def int64 : Reader Int64 := item Token.int64?

def uint32 : Reader UInt32 := item Token.uint32?

def text : Reader String := item Token.text?

def blob : Reader Bytes := item Token.blob?

def words : Reader (List Word) := list (fun b => some b.toUInt64) word

def int64s : Reader (List Int64) := list (fun b => some (Int64.ofNat b.toNat)) int64

/-- A byte is no text, so a byte string is a list of texts only when it is empty. -/
def texts : Reader (List String) := list (fun _ => none) text

end Reader

end SeismicStream.Msgpack
