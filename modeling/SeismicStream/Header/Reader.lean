import SeismicStream.Header.Wire
import SeismicStream.Msgpack.Reader

namespace SeismicStream

open Msgpack

/-- A count may come in any integer form; a label is a text. -/
def LabelToken.ofToken? (t : Token) : Option LabelToken :=
  match t.int? with
  | some _ => t.word?.map .count
  | none => t.text?.map .label

def LabelToken.read : Reader (List LabelToken) :=
  Reader.list (fun b => some (.count b.toUInt64)) (Reader.item LabelToken.ofToken?)

namespace WireHeader

/-- The fields met so far. -/
structure Draft where
  pid : Option String := none
  function : Option Int64 := none
  bundleCount : Option UInt32 := none
  ndims : Option UInt32 := none
  index : Option (List Int64) := none
  labels : Option (List LabelToken) := none
  shapes : Option (List Word) := none
  attributes : Option (List String) := none

namespace Draft

def has (draft : Draft) : Field → Bool
  | .pid => draft.pid.isSome
  | .function => draft.function.isSome
  | .bundleCount => draft.bundleCount.isSome
  | .ndims => draft.ndims.isSome
  | .index => draft.index.isSome
  | .labels => draft.labels.isSome
  | .shapes => draft.shapes.isSome
  | .attributes => draft.attributes.isSome

/-- Reads the value of a field into the draft. -/
def read (draft : Draft) (field : Field) : Reader Draft := fun bs =>
  match field with
  | .pid => (Reader.text bs).map fun (v, rest) => ({ draft with pid := some v }, rest)
  | .function => (Reader.int64 bs).map fun (v, rest) => ({ draft with function := some v }, rest)
  | .bundleCount =>
    (Reader.uint32 bs).map fun (v, rest) => ({ draft with bundleCount := some v }, rest)
  | .ndims => (Reader.uint32 bs).map fun (v, rest) => ({ draft with ndims := some v }, rest)
  | .index => (Reader.int64s bs).map fun (v, rest) => ({ draft with index := some v }, rest)
  | .labels => (LabelToken.read bs).map fun (v, rest) => ({ draft with labels := some v }, rest)
  | .shapes => (Reader.words bs).map fun (v, rest) => ({ draft with shapes := some v }, rest)
  | .attributes => (Reader.texts bs).map fun (v, rest) => ({ draft with attributes := some v }, rest)

/-- The header of the fields met. The request mark, the index and the labels default to nothing;
the first other field that is missing is named. -/
def finish (draft : Draft) : Except FieldError WireHeader :=
  match draft.function, draft.bundleCount, draft.ndims, draft.shapes, draft.attributes with
  | none, _, _, _, _ => .error (.missing .function)
  | _, none, _, _, _ => .error (.missing .bundleCount)
  | _, _, none, _, _ => .error (.missing .ndims)
  | _, _, _, none, _ => .error (.missing .shapes)
  | _, _, _, _, none => .error (.missing .attributes)
  | some function, some bundleCount, some ndims, some shapes, some attributes =>
    .ok {
      pid := draft.pid.getD ""
      function, bundleCount, ndims, shapes, attributes
      index := draft.index.getD []
      labels := draft.labels.getD [] }

end Draft

/-- What the key of a map entry names. -/
inductive Key
  | field (field : Field)
  | unknown (key : String)

def Key.ofText (key : String) : Key :=
  match Field.ofKey? key with
  | some known => .field known
  | none => .unknown key

/-- A key is a name, or the position of a field in an unsigned form. A name that comes as a byte
string need not be UTF-8. -/
def Key.ofToken? : Token → Option Key
  | .str bytes => (Text.decode? bytes).map Key.ofText
  | .bin bytes => some (Key.ofText (Text.decodeMended bytes))
  | .unsigned n => (Field.ofPosition? n).map .field
  | _ => none

/-- Reads `count` entries of a map. An unknown key and one met before are refused before their
values are looked at. -/
def entries (count : Nat) (draft : Draft) (bs : Bytes) : Except FieldError (Draft × Bytes) :=
  match count with
  | 0 => .ok (draft, bs)
  | count + 1 =>
    match Reader.item Key.ofToken? bs with
    | none => .error .malformed
    | some (.unknown key, _) => .error (.unknown key)
    | some (.field field, rest) =>
      if draft.has field then .error (.duplicate field)
      else
        match draft.read field rest with
        | none => .error .malformed
        | some (draft, rest) => entries count draft rest

/-- Reads the values of the fields given, without keys. -/
def values (draft : Draft) : List Field → Reader Draft
  | [], bs => some (draft, bs)
  | field :: fields, bs =>
    match draft.read field bs with
    | none => none
    | some (draft, rest) => values draft fields rest

/-- Reads a header from the front and leaves the rest. It is a map, or an array of all fields. -/
def read (bs : Bytes) : Except FieldError (WireHeader × Bytes) :=
  match Reader.token bs with
  | some (.map count, rest) =>
    match entries count {} rest with
    | .error e => .error e
    | .ok (draft, rest) => draft.finish.map (·, rest)
  | some (.array count, rest) =>
    if count = Field.all.length then
      match values {} Field.all rest with
      | none => .error .malformed
      | some (draft, rest) => draft.finish.map (·, rest)
    else .error .malformed
  | _ => .error .malformed

/-- The header at the front; the bytes after it do not matter. -/
def decode (bs : Bytes) : Except FieldError WireHeader :=
  (read bs).map Prod.fst

end WireHeader

end SeismicStream
