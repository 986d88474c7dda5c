import SeismicStream.Text.Utf8
import SeismicStream.Word

namespace SeismicStream.Msgpack.Writer

/-- The shortest form of a number that is not negative. -/
def nat (n : Nat) : Bytes :=
  if n < 0x80 then [UInt8.ofNat n]
  else if n < UInt8.size then 0xCC :: Bytes.ofNat 1 n
  else if n < UInt16.size then 0xCD :: Bytes.ofNat 2 n
  else if n < UInt32.size then 0xCE :: Bytes.ofNat 4 n
  else 0xCF :: Bytes.ofNat 8 n

/-- The shortest form of an integer; a negative one is written in two's complement. -/
def int (n : Int) : Bytes :=
  if 0 ≤ n then nat n.toNat
  else if -32 ≤ n then [UInt8.ofNat (n + UInt8.size).toNat]
  else if Int8.minValue.toInt ≤ n then 0xD0 :: Bytes.ofNat 1 (n + UInt8.size).toNat
  else if Int16.minValue.toInt ≤ n then 0xD1 :: Bytes.ofNat 2 (n + UInt16.size).toNat
  else if Int32.minValue.toInt ≤ n then 0xD2 :: Bytes.ofNat 4 (n + UInt32.size).toNat
  else 0xD3 :: Bytes.ofNat 8 (n + UInt64.size).toNat

def word (n : Word) : Bytes :=
  nat n.toNat

/-- The head of a string of `length` bytes. -/
def strHead (length : Nat) : Bytes :=
  if length < 32 then [UInt8.ofNat (0xA0 + length)]
  else if length < UInt8.size then 0xD9 :: Bytes.ofNat 1 length
  else if length < UInt16.size then 0xDA :: Bytes.ofNat 2 length
  else 0xDB :: Bytes.ofNat 4 length

def text (s : String) : Bytes :=
  strHead (Text.encode s).length ++ Text.encode s

/-- The head of a byte string of `length` bytes. -/
def binHead (length : Nat) : Bytes :=
  if length < UInt8.size then 0xC4 :: Bytes.ofNat 1 length
  else if length < UInt16.size then 0xC5 :: Bytes.ofNat 2 length
  else 0xC6 :: Bytes.ofNat 4 length

def bin (bytes : Bytes) : Bytes :=
  binHead bytes.length ++ bytes

/-- The head of an array of `count` entries. -/
def arrayHead (count : Nat) : Bytes :=
  if count < 16 then [UInt8.ofNat (0x90 + count)]
  else if count < UInt16.size then 0xDC :: Bytes.ofNat 2 count
  else 0xDD :: Bytes.ofNat 4 count

def list {α : Type} (write : α → Bytes) (items : List α) : Bytes :=
  arrayHead items.length ++ items.flatMap write

/-- The head of a map of `count` entries. -/
def mapHead (count : Nat) : Bytes :=
  if count < 16 then [UInt8.ofNat (0x80 + count)]
  else if count < UInt16.size then 0xDE :: Bytes.ofNat 2 count
  else 0xDF :: Bytes.ofNat 4 count

end SeismicStream.Msgpack.Writer
