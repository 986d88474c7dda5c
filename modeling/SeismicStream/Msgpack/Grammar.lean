import SeismicStream.Bytes

namespace SeismicStream.Msgpack

/-- How a token goes on after its tag. -/
inductive Form
  /-- So many bytes. -/
  | bytes (count : Nat)
  /-- A length of `width` bytes, `extra` bytes, and as many bytes as the length says. -/
  | counted (width extra : Nat)
  /-- So many values inside. -/
  | values (count : Nat)
  /-- A count of `width` bytes, and `each` values inside for every entry. -/
  | entries (width each : Nat)

/-- The tags of the format. Every byte is a tag but one, and no byte is a tag in two ways. -/
inductive Assigned : UInt8 → Form → Prop
  | positive {tag : UInt8} (h : tag < 0x80) : Assigned tag (.bytes 0)
  | shortMap {n : Nat} (h : n < 16) : Assigned (UInt8.ofNat (0x80 + n)) (.values (2 * n))
  | shortArray {n : Nat} (h : n < 16) : Assigned (UInt8.ofNat (0x90 + n)) (.values n)
  | shortStr {n : Nat} (h : n < 32) : Assigned (UInt8.ofNat (0xA0 + n)) (.bytes n)
  | nil : Assigned 0xC0 (.bytes 0)
  | bool {tag : UInt8} (h : tag ∈ [0xC2, 0xC3]) : Assigned tag (.bytes 0)
  | bin8 : Assigned 0xC4 (.counted 1 0)
  | bin16 : Assigned 0xC5 (.counted 2 0)
  | bin32 : Assigned 0xC6 (.counted 4 0)
  | ext8 : Assigned 0xC7 (.counted 1 1)
  | ext16 : Assigned 0xC8 (.counted 2 1)
  | ext32 : Assigned 0xC9 (.counted 4 1)
  | float32 : Assigned 0xCA (.bytes 4)
  | float64 : Assigned 0xCB (.bytes 8)
  | int8 {tag : UInt8} (h : tag ∈ [0xCC, 0xD0]) : Assigned tag (.bytes 1)
  | int16 {tag : UInt8} (h : tag ∈ [0xCD, 0xD1]) : Assigned tag (.bytes 2)
  | int32 {tag : UInt8} (h : tag ∈ [0xCE, 0xD2]) : Assigned tag (.bytes 4)
  | int64 {tag : UInt8} (h : tag ∈ [0xCF, 0xD3]) : Assigned tag (.bytes 8)
  | fixext {k : Nat} (h : k < 5) : Assigned (UInt8.ofNat (0xD4 + k)) (.bytes (1 + Nat.pow 2 k))
  | str8 : Assigned 0xD9 (.counted 1 0)
  | str16 : Assigned 0xDA (.counted 2 0)
  | str32 : Assigned 0xDB (.counted 4 0)
  | array16 : Assigned 0xDC (.entries 2 1)
  | array32 : Assigned 0xDD (.entries 4 1)
  | map16 : Assigned 0xDE (.entries 2 2)
  | map32 : Assigned 0xDF (.entries 4 2)
  | negative {tag : UInt8} (h : 0xE0 ≤ tag) : Assigned tag (.bytes 0)

/-- The bytes of one token, and how many values stand directly inside the value that it begins. -/
inductive IsToken : Bytes → Nat → Prop
  | bytes {tag : UInt8} {count : Nat} {body : Bytes} (form : Assigned tag (.bytes count))
      (size : body.length = count) : IsToken (tag :: body) 0
  | counted {tag : UInt8} {width extra : Nat} {length body : Bytes}
      (form : Assigned tag (.counted width extra)) (wide : length.length = width)
      (size : body.length = extra + Bytes.toNat length) : IsToken (tag :: (length ++ body)) 0
  | values {tag : UInt8} {count : Nat} (form : Assigned tag (.values count)) : IsToken [tag] count
  | entries {tag : UInt8} {width each : Nat} {count : Bytes}
      (form : Assigned tag (.entries width each)) (wide : count.length = width) :
      IsToken (tag :: count) (each * Bytes.toNat count)

/-- So many values, one after the other. A token is followed by the values inside the value that it
begins, and then by the values after that one. -/
inductive AreValues : Nat → Bytes → Prop
  | none : AreValues 0 []
  | value {head inside rest : Bytes} {children count : Nat} (token : IsToken head children)
      (within : AreValues children inside) (after : AreValues count rest) :
      AreValues (count + 1) (head ++ inside ++ rest)

/-- The bytes of exactly one value. -/
def IsValue (bs : Bytes) : Prop := AreValues 1 bs

/-- The bytes of exactly one value, no longer than a word can say. Every value that can be held is. -/
structure IsFrame (bs : Bytes) : Prop where
  value : IsValue bs
  small : bs.length < UInt64.size

/-- The bytes of a value up to where a tag has to come next: its own, or that of a value inside it.
All that is before the tag is whole. -/
inductive TagDue : Bytes → Prop
  | start : TagDue []
  | inside {head before part : Bytes} {children count : Nat} (token : IsToken head children)
      (siblings : AreValues count before) (more : count < children) (due : TagDue part) :
      TagDue (head ++ before ++ part)

/-- The head of an array of so many values, in one of its three forms. -/
inductive IsArrayHead : Nat → Bytes → Prop
  | short {n : Nat} (h : n < 16) : IsArrayHead n [UInt8.ofNat (0x90 + n)]
  | array16 {count : Bytes} (wide : count.length = 2) :
      IsArrayHead (Bytes.toNat count) (0xDC :: count)
  | array32 {count : Bytes} (wide : count.length = 4) :
      IsArrayHead (Bytes.toNat count) (0xDD :: count)

/-- A tag that begins the head of an array. -/
def IsArrayTag (tag : UInt8) : Prop := ∃ n count, IsArrayHead n (tag :: count)

/-- Bytes in which a structure is cut off: none is there yet, and more bytes can complete one. -/
structure Incomplete (structured : Bytes → Prop) (bs : Bytes) : Prop where
  missing : ∀ front, front <+: bs → ¬ structured front
  completes : ∃ more, structured (bs ++ more)

end SeismicStream.Msgpack
