namespace SeismicStream

/-- Where a session stands. It only moves forward, and never from done to failed or back. -/
inductive SessionState
  /-- Nothing was fed yet. -/
  | idle
  /-- Bytes have come, but not all of the header. -/
  | awaitingHeader
  /-- The outputs are there, and bundles are put into them. -/
  | awaitingPayload
  | done
  | failed
deriving DecidableEq, Repr

def SessionState.text : SessionState → String
  | .idle => "idle"
  | .awaitingHeader => "awaiting header"
  | .awaitingPayload => "awaiting payload"
  | .done => "done"
  | .failed => "failed"

/-- How far along its way a state is. Done and failed are the two ends of the way. -/
def SessionState.rank : SessionState → Nat
  | .idle => 0
  | .awaitingHeader => 1
  | .awaitingPayload => 2
  | .done => 3
  | .failed => 3

def SessionState.isTerminal : SessionState → Bool
  | .done => true
  | .failed => true
  | _ => false

end SeismicStream
