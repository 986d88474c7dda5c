import SeismicStream.Parser.Response
import SeismicStream.Session.Basic

namespace SeismicStream.Session

/-- A session that reads a response and was fed nothing yet. -/
def fresh (limits : Limits) : Session ResponseParser :=
  start (.ofLimits limits) limits

section

variable {σ : Type} [Parser σ]

/-- The session after some inputs, first input first. -/
def after (s : Session σ) (inputs : List (Option Bytes)) : Session σ :=
  inputs.foldl (fun s input => (s.accept input).2) s

/-- The last answer of a session that is fed some pieces and then the end of the input. -/
def settle (s : Session σ) (pieces : List Bytes) : Except DecodeError Feed :=
  ((s.after (pieces.map some)).accept none).1

/-- The pieces that were fed to a session while it could go on. -/
def heard (s : Session σ) : List (Option Bytes) → List Bytes
  | [] => []
  | input :: rest =>
    (if s.state.isTerminal then [] else input.toList) ++ heard (s.accept input).2 rest

end

end SeismicStream.Session
