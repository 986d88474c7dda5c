import SeismicStream.File
import SeismicStream.Report

namespace SeismicStream

/-- What is asked for at the prompt. -/
inductive Command
  | inspect (file : String)
  | decode (file : String) (json : Bool) (pieceSize : Option Word)
  | validate (file : String)
  | version
  | help
deriving DecidableEq, Repr

/-- The file that a command looks into. -/
def Command.file? : Command → Option String
  | .inspect file => some file
  | .decode file _ _ => some file
  | .validate file => some file
  | _ => none

/-- Why a file cannot be read. -/
inductive FileError
  | notFound
  | other (reason : String)
deriving DecidableEq, Repr

def FileError.message : FileError → String
  | .notFound => "No such file or directory (os error 2)"
  | .other reason => reason

/-- What a run leaves: the exit code, the text for the standard output, and the lines for the
standard error. -/
structure Outcome where
  exit : UInt32
  stdout : String
  stderr : List String
deriving DecidableEq, Repr

namespace CommandLine

inductive Verb
  | inspect
  | decode
  | validate
deriving DecidableEq, Repr

def Verb.ofName? : String → Option Verb
  | "inspect" => some .inspect
  | "decode" => some .decode
  | "validate" => some .validate
  | _ => none

/-- A word in decimal digits, after a plus sign or without one. -/
def word? (s : String) : Option Word :=
  let digits := match s.toList with
    | '+' :: rest => rest
    | all => all
  if digits ≠ [] ∧ digits.all Char.isDigit then
    let n := digits.foldl (fun n c => n * 10 + (c.toNat - 48)) 0
    if n < UInt64.size then some (UInt64.ofNat n) else none
  else none

/-- A piece holds one byte at least. -/
def pieceSize? (s : String) : Option Word :=
  (word? s).filter (0 < ·)

/-- What was met after the verb so far. -/
structure Given where
  verbose : Bool := false
  json : Bool := false
  pieceSize : Option Word := none
  file : Option String := none
  /-- Whether all that follows is a file. -/
  plain : Bool := false

/-- What an argument leads to. -/
inductive Met (α : Type)
  | go (given : α)
  | help
  | version
  | refused

/-- The letters after a single dash; help and the version come up at once. -/
def letters (version verbose : Bool) : List Char → Met Bool
  | [] => .go verbose
  | 'v' :: rest => if verbose then .refused else letters version true rest
  | 'h' :: _ => .help
  | 'V' :: _ => if version then .version else .refused
  | _ => .refused

def Given.command? (verb : Verb) (given : Given) : Option Command :=
  given.file.map fun file =>
    match verb with
    | .inspect => .inspect file
    | .decode => .decode file given.json given.pieceSize
    | .validate => .validate file

/-- A file may be given once, and has a name. -/
def Given.withFile? (given : Given) (file : String) : Option Given :=
  if given.file.isNone ∧ file ≠ "" then some { given with file := some file } else none

def Given.withPieceSize? (given : Given) (value : String) : Option Given :=
  match pieceSize? value with
  | some size =>
    if given.pieceSize.isNone then some { given with pieceSize := some size } else none
  | none => none

/-- Whether an argument is no value of an option. -/
def isDashed (arg : String) : Bool :=
  arg.startsWith "-" && arg ≠ "-"

def pieceSizeOption : String := "--chunk-size"

/-- Reads the arguments after the verb. An option may stand before or after the file, and may not be
repeated. -/
def afterVerb (verb : Verb) (given : Given) (args : List String) : Option Command :=
  match args with
  | [] => given.command? verb
  | arg :: rest =>
    if given.plain ∨ ¬ isDashed arg then
      match given.withFile? arg with
      | some given => afterVerb verb given rest
      | none => none
    else if arg = "--" then afterVerb verb { given with plain := true } rest
    else if arg = "--help" then some .help
    else if arg = "--verbose" then
      if given.verbose then none else afterVerb verb { given with verbose := true } rest
    else if arg = "--json" then
      if verb ≠ .decode ∨ given.json then none
      else afterVerb verb { given with json := true } rest
    else if arg = pieceSizeOption then
      match rest with
      | [] => none
      | value :: rest =>
        if verb ≠ .decode ∨ isDashed value then none
        else
          match given.withPieceSize? value with
          | some given => afterVerb verb given rest
          | none => none
    else if arg.startsWith (pieceSizeOption ++ "=") then
      if verb ≠ .decode then none
      else
        match given.withPieceSize? (String.ofList (arg.toList.drop (pieceSizeOption.length + 1))) with
        | some given => afterVerb verb given rest
        | none => none
    else if arg.startsWith "--" then none
    else
      match letters false given.verbose (arg.toList.drop 1) with
      | .go verbose => afterVerb verb { given with verbose } rest
      | .help => some .help
      | _ => none

/-- Reads the arguments before the verb and then the rest. -/
def parse (verbose : Bool) : List String → Option Command
  | [] => none
  | arg :: rest =>
    match Verb.ofName? arg with
    | some verb => afterVerb verb {} rest
    | none =>
      if arg = "--version" then some .version
      else if arg = "--help" then some .help
      else if arg = "help" then helpOn rest
      else if arg = "--verbose" then if verbose then none else parse true rest
      else if isDashed arg ∧ ¬ arg.startsWith "--" then
        match letters true verbose (arg.toList.drop 1) with
        | .go verbose => parse verbose rest
        | .help => some .help
        | .version => some .version
        | .refused => none
      else none
where
  /-- Help may be asked for on one verb, or on help. -/
  helpOn : List String → Option Command
    | [] => some .help
    | [topic] => if (Verb.ofName? topic).isSome ∨ topic = "help" then some .help else none
    | _ => none

def usage : String :=
  "Usage: srf [-v] inspect FILE\n" ++
  "       srf [-v] decode [--json] [--chunk-size N] FILE\n" ++
  "       srf [-v] validate FILE\n"

def succeed (stdout : String) : Outcome := ⟨0, stdout, []⟩

def fail (reason : String) : Outcome := ⟨1, "", ["error: " ++ reason]⟩

def refuse : Outcome := ⟨2, "", ["error: invalid arguments", usage]⟩

/-- Runs a command; `contents` gives the bytes of a file. -/
def execute (command : Command) (contents : String → Except FileError Bytes) : Outcome :=
  match command with
  | .version => succeed "srf 0.1.0\n"
  | .help => succeed usage
  | .inspect file =>
    withFile file fun bytes =>
      match File.inspect bytes with
      | .ok header => succeed (Report.header header)
      | .error e => fail s!"failed to read header of {file}: {e.message}"
  | .decode file json pieceSize =>
    withFile file fun bytes =>
      match File.decode bytes pieceSize with
      | .ok result => succeed (if json then Report.document result else Report.table result)
      | .error e => fail s!"failed to decode {file}: {e.message}"
  | .validate file =>
    withFile file fun bytes =>
      match File.decode bytes none with
      | .ok result => succeed (Report.validity result)
      | .error e => ⟨1, s!"✗ Error: {e.message}\n", ["error: validation failed"]⟩
where
  withFile (file : String) (f : Bytes → Outcome) : Outcome :=
    match contents file with
    | .ok bytes => f bytes
    | .error e => fail s!"cannot read {file}: {e.message}"

/-- The whole run of a prompt. -/
def run (args : List String) (contents : String → Except FileError Bytes) : Outcome :=
  match parse false args with
  | some command => execute command contents
  | none => refuse

end CommandLine

end SeismicStream
