import SeismicStream.Bundle.Plan
import SeismicStream.Bundle.Reader
import SeismicStream.Bundle.Writer

namespace SeismicStream

/-- Span `n` of a list of ends, which begins at position `2 * n` of the list. -/
def Span.at? (ends : List Word) (n : Nat) : Option Span :=
  match ends[2 * n]?, ends[2 * n + 1]? with
  | some first, some stop => some ⟨first, stop⟩
  | _, _ => none

/-- The ends of `size` spans, none of which stops before it begins. -/
structure Span.Paired (size : Word) (ends : List Word) : Prop where
  count : ends.length = 2 * size.toNat
  ordered : ∀ n span, at? ends n = some span → span.first ≤ span.stop

/-- Why a list does not hold the ends of `size` spans. That it is of another length comes before the
first span that stops before it begins. -/
inductive CurtainAxis.Fault (axis : CurtainAxis) (size : Word) (ends : List Word) :
    BundleError → Prop
  | arity (count : ends.length ≠ 2 * size.toNat) :
      Fault axis size ends (.arity axis (Word.capped (2 * size.toNat)) ends.length)
  | inverted {n : Nat} {span : Span} (count : ends.length = 2 * size.toNat)
      (here : Span.at? ends n = some span) (inverted : span.stop < span.first)
      (before : ∀ m < n, ∀ other, Span.at? ends m = some other → other.first ≤ other.stop) :
      Fault axis size ends (.inverted span)

namespace WireCurtain

/-- Run `n` of a curtain. -/
def run? (w : WireCurtain) (n : Nat) : Option Run :=
  match Span.at? w.major n, Span.at? w.minor n with
  | some traces, some depths => some ⟨traces, depths⟩
  | _, _ => none

/-- Why a curtain is refused. The traces come before the depths. -/
inductive Refused (w : WireCurtain) : BundleError → Prop
  | major {e : BundleError} (fault : CurtainAxis.Fault .major w.size w.major e) : Refused w e
  | minor {e : BundleError} (paired : Span.Paired w.size w.major)
      (fault : CurtainAxis.Fault .minor w.size w.minor e) : Refused w e

/-- A curtain that was written is read where both lists hold the ends of its spans, run by run, and
refused otherwise, whatever comes behind it. It is no slice. -/
structure ReadsBack (w : WireCurtain) : Prop where
  accepted : ∀ more, (∃ bundle, Bundle.decode .curtain (w.write ++ more) = .ok bundle) ↔
    Span.Paired w.size w.major ∧ Span.Paired w.size w.minor
  runs : ∀ more bundle, Bundle.decode .curtain (w.write ++ more) = .ok bundle →
    ∃ runs, bundle = .curtain w.output runs w.values ∧ runs.length = w.size.toNat ∧
      ∀ n, runs[n]? = w.run? n
  refused : ∀ more e, Bundle.decode .curtain (w.write ++ more) = .error e ↔ w.Refused e
  slice : ∀ more, Bundle.decode .slice (w.write ++ more) = .error .malformed

end WireCurtain

end SeismicStream
