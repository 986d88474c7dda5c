import SeismicStream.Parser.Basic

namespace SeismicStream

/-- What a scripted parser does when it is asked to advance. -/
inductive Cue
  | answer (outcome : Except DecodeError Progress)
  /-- Puts samples at the beginning of a slot, and then needs more input. -/
  | write (slot : Nat) (samples : List Sample)

/-- A parser that does not look at bytes. It follows its script, and needs more input once that is
used up. -/
structure ScriptedParser where
  script : List Cue := []
  header : Option WireHeader := none

namespace ScriptedParser

def advance (p : ScriptedParser) (outputs : Registry) : Advanced ScriptedParser :=
  match p.script with
  | [] => ⟨.ok .needsMoreInput, p, outputs⟩
  | .answer outcome :: rest => ⟨outcome, { p with script := rest }, outputs⟩
  | .write slot samples :: rest =>
    ⟨.ok .needsMoreInput, { p with script := rest }, (outputs.write slot 0 samples).2⟩

instance : Parser ScriptedParser where
  reset p := p
  supply p _ := p
  advance := advance
  readHeader p := (p.header, p)
  register p _ _ := p
  release p := p

end ScriptedParser

end SeismicStream
