import SeismicStream.CommandLine
import SeismicStream.Session.Reach

namespace SeismicStream
open Msgpack

/-- What the commands make of a file with these bytes. -/
structure File.Agreement (bytes : Bytes) : Prop where
  /-- The header that is shown is the one that the response is decoded with. -/
  same : ∀ result, decode bytes none = .ok result → inspect bytes = .ok result.header
  /-- A header is shown where decoding succeeds or fails behind the header. -/
  shown : (∃ header, inspect bytes = .ok header) ↔
    (∃ result, decode bytes none = .ok result) ∨ ∃ e, decode bytes none = .error e ∧ e.pastHeader
  cut : inspect bytes = .error .incomplete ↔ ∃ state received,
    decode bytes none = .error (.truncated state received) ∧
      (state = .idle ∨ state = .awaitingHeader)
  refused : (∃ e, inspect bytes = .error e ∧ e ≠ .incomplete) ↔
    ∃ fault, decode bytes none = .error (.malformedHeader fault)
  /-- What is behind the header does not change the header that is shown. -/
  ahead : ∀ header, inspect bytes = .ok header → ∃ head value rest,
    bytes = head ++ (value ++ rest) ∧ IsArrayHead 2 head ∧ IsValue value ∧
      ∀ tail, inspect (head ++ (value ++ tail)) = .ok header
  pieces : ∀ size result, decode bytes (some size) = .ok result ↔ decode bytes none = .ok result
  /-- A file is decoded, in pieces of any size and for any report, when it holds a response. -/
  decodes : ∀ file json pieceSize contents, contents file = .ok bytes →
    ((CommandLine.execute (.decode file json pieceSize) contents).exit = 0 ↔
      ∃ result, decode bytes none = .ok result)
  /-- A file is valid when it can be decoded. -/
  validates : ∀ file json pieceSize contents, contents file = .ok bytes →
    ((CommandLine.execute (.validate file) contents).exit = 0 ↔
      (CommandLine.execute (.decode file json pieceSize) contents).exit = 0)

end SeismicStream
