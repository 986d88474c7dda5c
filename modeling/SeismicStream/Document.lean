namespace SeismicStream

/-- A JSON value as text, for the depth at which it stands. Its first line continues a line, and
each deeper line is indented by two blanks a level. -/
abbrev Document := Nat → String

namespace Document

/-- A control character by its code unit, in four hexadecimal digits. -/
def escaped (c : Char) : List Char :=
  let digits := Nat.toDigits 16 c.toNat
  '\\' :: 'u' :: (List.replicate (4 - digits.length) '0' ++ digits)

/-- A character inside quotes. Only controls, quotes and backslashes are written otherwise; five
controls have a letter. -/
def quotedChar (c : Char) : List Char :=
  match c with
  | '"' => ['\\', '"']
  | '\\' => ['\\', '\\']
  | '\x08' => ['\\', 'b']
  | '\x0c' => ['\\', 'f']
  | '\n' => ['\\', 'n']
  | '\r' => ['\\', 'r']
  | '\t' => ['\\', 't']
  | c => if c.toNat < 0x20 then escaped c else [c]

def quoted (s : String) : String :=
  String.ofList ('"' :: s.toList.flatMap quotedChar ++ ['"'])

def text (s : String) : Document := fun _ => quoted s

def nat (n : Nat) : Document := fun _ => toString n

def int (n : Int) : Document := fun _ => toString n

/-- A number that is written out already, or nothing. -/
def number? (written : Option String) : Document := fun _ => written.getD "null"

def indent (depth : Nat) : String :=
  String.ofList (List.replicate (2 * depth) ' ')

/-- Entries between brackets, one a line. Brackets without entries stay on one line. -/
def block (opening closing : String) (entries : List Document) : Document := fun depth =>
  if entries.isEmpty then opening ++ closing
  else
    let lines := entries.map fun entry => indent (depth + 1) ++ entry (depth + 1)
    opening ++ "\n" ++ ",\n".intercalate lines ++ "\n" ++ indent depth ++ closing

def list {α : Type} (f : α → Document) (items : List α) : Document :=
  block "[" "]" (items.map f)

def object (fields : List (String × Document)) : Document :=
  block "\x7b" "\x7d" (fields.map fun (key, value) depth => quoted key ++ ": " ++ value depth)

end Document

end SeismicStream
