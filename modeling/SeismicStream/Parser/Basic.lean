import SeismicStream.Header.Wire
import SeismicStream.Registry

namespace SeismicStream

/-- How far a parser got with the bytes it holds. -/
inductive Progress
  | needsMoreInput
  /-- The header can be read now. Nothing of the payload was touched. -/
  | headerReady
  | finished
deriving DecidableEq, Repr

/-- A parser and the outputs after it went as far as it could. A parser that fails leaves what it
did before it failed. -/
structure Advanced (σ : Type) where
  outcome : Except DecodeError Progress
  parser : σ
  outputs : Registry

/-- What a session drives. Each operation gives the parser that follows, so a parser may keep any
record of how it is used. -/
class Parser (σ : Type) where
  /-- Drops all bytes and all that was learned from them. -/
  reset : σ → σ
  /-- Appends bytes. -/
  supply : σ → Bytes → σ
  /-- Goes as far as the bytes allow, and puts bundles into the outputs. -/
  advance : σ → Registry → Advanced σ
  /-- The header, once it was parsed. -/
  readHeader : σ → Option WireHeader × σ
  /-- Binds an output's name to its slot. -/
  register : σ → String → Nat → σ
  /-- Gives up bytes and bindings. -/
  release : σ → σ

end SeismicStream
