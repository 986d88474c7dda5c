import SeismicStream.Main
import SeismicStream.Msgpack.Grammar
import SeismicStream.Encoder
import SeismicStream.Parser.Scripted
import SeismicStream.Parser.Traced
import SeismicStream.Transfer
import SeismicStream.Proofs.Msgpack.Token
import SeismicStream.Proofs.Msgpack.Extent
import SeismicStream.Proofs.Msgpack.ArrayHead
import SeismicStream.Proofs.Parser.Resume
import SeismicStream.Proofs.Parser.Phases
import SeismicStream.Proofs.Session.Turn
import SeismicStream.Proofs.Session.Chunking
import SeismicStream.Proofs.Outputs
import SeismicStream.Proofs.Parser.Bundles
import SeismicStream.Proofs.Header.Basic
import SeismicStream.Proofs.Session.Ready
import SeismicStream.Proofs.Session.Ending
import SeismicStream.Proofs.Msgpack.Writer
import SeismicStream.Proofs.Msgpack.Reader
import SeismicStream.Proofs.Header.Wire
import SeismicStream.Proofs.Packed
import SeismicStream.Proofs.Bundle.Wire
import SeismicStream.Painting
import SeismicStream.Proofs.Painting
import SeismicStream.Proofs.Bundle.Scatter
import SeismicStream.Proofs.RoundTrip
import SeismicStream.Parser.Guarded
import SeismicStream.Session.Protocol
import SeismicStream.Proofs.Session.Course
import SeismicStream.Proofs.Session.Guard
import SeismicStream.Proofs.Session.Calls
import SeismicStream.Proofs.Bundle.Layout
import SeismicStream.Proofs.Faults
import SeismicStream.Proofs.Parser.Serving
import SeismicStream.Proofs.Session.InStep
import SeismicStream.Proofs.Msgpack.Incomplete
import SeismicStream.Parser.Uses
import SeismicStream.Proofs.Parser.Proceeds
import SeismicStream.Proofs.Parser.Accounts
import SeismicStream.Bundle.Plan
import SeismicStream.Proofs.Bundle.Plan
import SeismicStream.Proofs.Bundle.Slice
import SeismicStream.Proofs.Bundle.Curtain
import SeismicStream.Session.Reach
import SeismicStream.Proofs.Parser.Refusals
import SeismicStream.Proofs.Session.HeaderGuard
import SeismicStream.Proofs.Session.Pieces
import SeismicStream.Agreement
import SeismicStream.Proofs.Agreement
import SeismicStream.Proofs.Msgpack.Recognition
import SeismicStream.Msgpack.Walk
import SeismicStream.Proofs.Msgpack.Walk
import SeismicStream.Occupancy
import SeismicStream.Proofs.Msgpack.Weight
import SeismicStream.Proofs.Bundle.Carried
import SeismicStream.Proofs.Amplification
import SeismicStream.Header.Checks
import SeismicStream.Proofs.Header.Checks
import SeismicStream.Packed.Faults
import SeismicStream.Proofs.Packed.Faults
import SeismicStream.Proofs.Transfer
import SeismicStream.Encoder.Checks
import SeismicStream.Proofs.Encoder
import SeismicStream.Msgpack.Framed
import SeismicStream.Proofs.Framed
import SeismicStream.Shape.Count
import SeismicStream.Proofs.Shape.Count
import SeismicStream.Header.Codec
import SeismicStream.Proofs.Header.Codec
import SeismicStream.Bundle.Checks
import SeismicStream.Proofs.Bundle.Checks
import SeismicStream.Registry.Allocation
import SeismicStream.Proofs.Session.Declined
import SeismicStream.Proofs.Registry.Allocation
