import SeismicStream.Response
import SeismicStream.Session.Runs
import SeismicStream.Transfer

namespace SeismicStream

namespace Read

/-- The bytes that a source gives before it first fails or ends. -/
def given : List Read → Bytes
  | .bytes (b :: more) :: rest => b :: more ++ given rest
  | _ => []

/-- The failure that comes before a source ends, if one does. -/
def failure? : List Read → Option String
  | .bytes (_ :: _) :: rest => failure? rest
  | .failure reason :: _ => some reason
  | _ => none

end Read

namespace Transfer

/-- What a transfer comes to when its session was given `count` bytes at once: what it made of them,
or how the source stopped where it waits for more. -/
def ending {σ : Type} (count : Nat) (failure : Option String) :
    Except DecodeError Feed × Session σ → Except ReadError DecodeResult
  | (.ok (.ready result), _) => .ok result
  | (.error e, _) => .error (.decode e)
  | (.ok .pending, s) =>
    match failure with
    | some reason => .error (.source reason)
    | none => .error (.decode (.truncated s.state count))

/-- Two outcomes for the same bytes. Where the header is too long, both may refuse it, each in its own
words; other outcomes are equal. -/
def Agree (limits : Limits) (bytes : Bytes) (a b : Except ReadError DecodeResult) : Prop :=
  a = b ∨ HeaderOverruns limits bytes ∧ ∃ fault fault',
    a = .error (.decode (.malformedHeader fault)) ∧ b = .error (.decode (.malformedHeader fault'))

end Transfer

end SeismicStream
