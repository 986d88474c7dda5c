import SeismicStream.Agreement
import SeismicStream.Proofs.Parser.Refusals
import SeismicStream.Proofs.Session.Pieces

namespace SeismicStream

namespace ResponseParser
open Msgpack

variable {p : ResponseParser}

theorem Sought.header {bytes : Bytes} {q : ResponseParser} (h : Sought p bytes (.ok .headerReady) q) :
    ∃ wire, q.header = some wire := by
  cases h with
  | @ready head front rest wire => exact ⟨wire, rfl⟩

end ResponseParser

/-- Where a turn leads behind a header whose outputs can be held. -/
inductive Turn.Behind (header : Header) : Turn → Prop
  | waiting {outputs : Registry} : Behind header (.waiting (.awaitingPayload header outputs))
  | complete {buffers : List Buffer} : Behind header (.complete ⟨header, buffers⟩)
  | failed {e : DecodeError} (past : e.pastHeader) (held : e ≠ .beyondMemory) :
      Behind header (.failed e)

/-- What a file's header comes to, and what decoding the file comes to. -/
inductive Alike : Except InspectError Header → Except DecodeError DecodeResult → Prop
  | decoded {result : DecodeResult} : Alike (.ok result.header) (.ok result)
  | behind {header : Header} {e : DecodeError} (past : e.pastHeader) (held : e ≠ .beyondMemory) :
      Alike (.ok header) (.error e)
  | cut {state : SessionState} {received : Nat} (early : state = .idle ∨ state = .awaitingHeader) :
      Alike (.error .incomplete) (.error (.truncated state received))
  | refused {e : InspectError} {fault : HeaderFault} (whole : e ≠ .incomplete) :
      Alike (.error e) (.error (.malformedHeader fault))

namespace Session
open ResponseParser

theorem pour_behind {header : Header} {outputs : Registry} {p : ResponseParser}
    (hc : p.Collecting) : (pour header outputs p).1.Behind header := by
  obtain ⟨hr, -⟩ := advance_collecting hc outputs
  rw [pour_eq]
  cases ho : (p.advance outputs).outcome with
  | error e =>
    obtain ⟨fault, rfl⟩ := hc.refused ho
    exact .failed trivial nofun
  | ok progress =>
    cases progress with
    | needsMoreInput => exact .waiting
    | headerReady => exact absurd ho hr
    | finished => exact .complete

variable {limits : Limits} {p : ResponseParser} {wire : WireHeader}

/-- A session whose header passes goes on behind it, unless there is no room for an output. -/
theorem seek_behind {header : Header} (hm : Memory.Holds limits.maxElements.toNat Sample.width)
    (ho : (p.advance {}).outcome = .ok .headerReady)
    (hc : (p.advance {}).parser.Collecting) (hw : (p.advance {}).parser.header = some wire)
    (hh : Header.ofWire wire = .ok header) : (seek limits p).1.Behind header := by
  rw [seek_eq, ho]
  dsimp only
  split
  · rename_i hb
    rcases bindOutputs_error hw hb with ⟨f, hf, -⟩ | ⟨header', -, ha⟩
    · rw [hh] at hf
      cases hf
    · rcases Registry.allocate_error ha with ⟨a, -, rfl⟩ | rfl
      · exact .failed trivial nofun
      · exact absurd ha (Registry.allocate_ne_beyondMemory hm header')
  · rename_i hb
    obtain ⟨wire', hw', hh', -, rfl⟩ := bindOutputs_ok hb
    obtain rfl : wire = wire' := Option.some.inj (hw.symm.trans hw')
    obtain rfl := Except.ok.inj (hh.symm.trans hh')
    exact pour_behind hc

theorem seek_unchecked {f : HeaderError} (ho : (p.advance {}).outcome = .ok .headerReady)
    (hw : (p.advance {}).parser.header = some wire) (hh : Header.ofWire wire = .error f) :
    (seek limits p).1 = .failed (.malformedHeader (.header f)) := by
  rw [seek_eq, ho]
  dsimp only
  rw [bindOutputs_header hw, hh]

end Session

namespace File
open ResponseParser Msgpack

theorem inspect_opens {head front tail : Bytes} {wire : WireHeader} {operation : Operation}
    (hh : IsArrayHead 2 head) (hx : (ofLimits {}).Opens front wire operation) :
    inspect (head ++ (front ++ tail)) = (Header.ofWire wire).mapError .header := by
  have hb : ((ofLimits {}).supply (head ++ (front ++ tail))).buffered = head ++ (front ++ tail) := rfl
  rw [inspect, advance_opens rfl hb hh ⟨hx.frame, hx.short, hx.read, hx.named⟩]
  rfl

theorem inspect_alike (bytes : Bytes) :
    Alike (inspect bytes) ((Session.fresh {}).decodePieces [bytes]).1 := by
  by_cases hb : bytes = []
  · subst hb
    exact .cut (.inl rfl)
  have hs : ((ofLimits {}).supply bytes).Seeking bytes := .inl ⟨rfl, rfl⟩
  obtain ⟨hx, -⟩ := advance_sought hs {}
  rw [Session.decodePieces_whole {} hb]
  cases ho : (((ofLimits {}).supply bytes).advance {}).outcome with
  | error e =>
    have hrefusal : HeaderRefusal {} bytes e := hs.refused rfl ho
    obtain ⟨fault, rfl⟩ := hrefusal.malformed
    have hi : inspect bytes = .error (.decode (.malformedHeader fault)) := by simp only [inspect, ho]
    have ht : (Session.seek {} ((ofLimits {}).supply bytes)).1 = .failed (.malformedHeader fault) := by
      rw [Session.seek_eq, ho]
    rw [hi, ht]
    exact .refused nofun
  | ok progress =>
    rw [ho] at hx
    cases progress with
    | finished => cases hx
    | needsMoreInput =>
      have hi : inspect bytes = .error .incomplete := by simp only [inspect, ho]
      have ht : (Session.seek {} ((ofLimits {}).supply bytes)).1 = .waiting .awaitingHeader := by
        rw [Session.seek_eq, ho]
      rw [hi, ht]
      exact .cut (.inr rfl)
    | headerReady =>
      obtain ⟨wire, hw⟩ := hx.header
      have hi : inspect bytes = (Header.ofWire wire).mapError .header := by
        simp only [inspect, ho, hw]
      rw [hi]
      cases hh : Header.ofWire wire with
      | error f =>
        rw [Session.seek_unchecked ho hw hh]
        exact .refused nofun
      | ok header =>
        have ht := @Session.seek_behind {} _ wire header (by decide) ho hx.collecting hw hh
        generalize (Session.seek {} ((ofLimits {}).supply bytes)).1 = turn at ht ⊢
        cases ht with
        | waiting => exact .behind rfl nofun
        | @complete buffers => exact @Alike.decoded ⟨header, buffers⟩
        | failed past held => exact .behind past held

/-- A size of the pieces matters only for the words that refuse a header. -/
theorem decode_agree (bytes : Bytes) (pieceSize : Option Word) :
    decode bytes pieceSize = ((Session.fresh {}).decodePieces [bytes]).1 ∨
      ∃ fault fault', decode bytes pieceSize = .error (.malformedHeader fault) ∧
        ((Session.fresh {}).decodePieces [bytes]).1 = .error (.malformedHeader fault') := by
  have h := Session.decodePieces_agree {}
    (pieces (max ((pieceSize.map UInt64.toNat).getD bytes.length) 1) bytes)
  rwa [pieces_flatten] at h

theorem decode_alike (bytes : Bytes) (pieceSize : Option Word) :
    Alike (inspect bytes) (decode bytes pieceSize) := by
  have hx := inspect_alike bytes
  rcases decode_agree bytes pieceSize with hd | ⟨fault, fault', hd, hw⟩
  · rwa [hd]
  · rw [hw] at hx
    rw [hd]
    generalize inspect bytes = shown at hx ⊢
    cases hx with
    | behind past held => exact past.elim
    | refused whole => exact .refused whole

/-- The commands take the limits as they are by default, which allow nothing that a buffer cannot
hold. -/
theorem decode_ne_beyondMemory (bytes : Bytes) (pieceSize : Option Word) :
    decode bytes pieceSize ≠ .error .beyondMemory := by
  have hx := decode_alike bytes pieceSize
  generalize inspect bytes = shown, decode bytes pieceSize = decoded at hx
  cases hx with
  | behind past held => exact fun he => held (Except.error.inj he)
  | decoded | cut | refused => nofun

theorem decode_ok_iff (bytes : Bytes) (pieceSize : Option Word) (result : DecodeResult) :
    decode bytes pieceSize = .ok result ↔
      ((Session.fresh {}).decodePieces [bytes]).1 = .ok result := by
  rcases decode_agree bytes pieceSize with hd | ⟨fault, fault', hd, hw⟩
  · rw [hd]
  · rw [hd, hw]
    exact ⟨nofun, nofun⟩

theorem exit_validate {bytes : Bytes} {file : String} {contents : String → Except FileError Bytes}
    (h : contents file = .ok bytes) :
    (CommandLine.execute (.validate file) contents).exit = 0 ↔
      ∃ result, decode bytes none = .ok result := by
  simp only [CommandLine.execute, CommandLine.execute.withFile, h]
  cases decode bytes none <;> simp [CommandLine.succeed]

theorem exit_decode {bytes : Bytes} {file : String} {contents : String → Except FileError Bytes}
    (h : contents file = .ok bytes) (json : Bool) (pieceSize : Option Word) :
    (CommandLine.execute (.decode file json pieceSize) contents).exit = 0 ↔
      ∃ result, decode bytes pieceSize = .ok result := by
  simp only [CommandLine.execute, CommandLine.execute.withFile, h]
  cases decode bytes pieceSize <;> simp [CommandLine.succeed, CommandLine.fail]

theorem inspect_ahead {bytes : Bytes} {header : Header} (h : inspect bytes = .ok header) :
    ∃ head value rest, bytes = head ++ (value ++ rest) ∧ IsArrayHead 2 head ∧ IsValue value ∧
      ∀ tail, inspect (head ++ (value ++ tail)) = .ok header := by
  obtain ⟨hx, -⟩ := advance_sought (p := (ofLimits {}).supply bytes) (.inl ⟨rfl, rfl⟩) {}
  cases ho : (((ofLimits {}).supply bytes).advance {}).outcome with
  | error e => simp [inspect, ho] at h
  | ok progress =>
    rw [ho] at hx
    cases progress with
    | finished => cases hx
    | needsMoreInput => simp [inspect, ho] at h
    | headerReady =>
      generalize (((ofLimits {}).supply bytes).advance {}).parser = q at hx
      cases hx with
      | @ready head front rest wire operation split envelope opens =>
        subst split
        have opens : (ofLimits {}).Opens front wire operation :=
          ⟨opens.frame, opens.short, opens.read, opens.named⟩
        rw [inspect_opens envelope opens] at h
        exact ⟨head, front, rest, rfl, envelope, opens.frame.value,
          fun tail => (inspect_opens envelope opens).trans h⟩

end File

theorem DecodeError.not_pastHeader {state : SessionState} {received : Nat}
    (h : state = .idle ∨ state = .awaitingHeader) : ¬ (truncated state received).pastHeader := by
  rcases h with rfl | rfl <;> nofun

namespace Alike

variable {shown : Except InspectError Header} {decoded : Except DecodeError DecodeResult}

theorem same (h : Alike shown decoded) {result : DecodeResult} (hd : decoded = .ok result) :
    shown = .ok result.header := by
  subst hd
  cases h
  rfl

theorem shown_iff (h : Alike shown decoded) : (∃ header, shown = .ok header) ↔
    (∃ result, decoded = .ok result) ∨ ∃ e, decoded = .error e ∧ e.pastHeader := by
  cases h with
  | @decoded result => exact ⟨fun _ => .inl ⟨result, rfl⟩, fun _ => ⟨_, rfl⟩⟩
  | @behind header e past held => exact ⟨fun _ => .inr ⟨e, rfl, past⟩, fun _ => ⟨header, rfl⟩⟩
  | cut early => simp [DecodeError.not_pastHeader early]
  | refused => simp [DecodeError.pastHeader]

theorem cut_iff (h : Alike shown decoded) : shown = .error .incomplete ↔ ∃ state received,
    decoded = .error (.truncated state received) ∧ (state = .idle ∨ state = .awaitingHeader) := by
  cases h with
  | decoded => simp
  | behind past held =>
    refine ⟨nofun, ?_⟩
    rintro ⟨state, received, he, early⟩
    cases he
    exact absurd past (DecodeError.not_pastHeader early)
  | @cut state received early => exact ⟨fun _ => ⟨state, received, rfl, early⟩, fun _ => rfl⟩
  | refused whole => simp [whole]

theorem refused_iff (h : Alike shown decoded) : (∃ e, shown = .error e ∧ e ≠ .incomplete) ↔
    ∃ fault, decoded = .error (.malformedHeader fault) := by
  cases h with
  | decoded => simp
  | behind past held =>
    refine ⟨nofun, ?_⟩
    rintro ⟨fault, he⟩
    cases he
    exact past.elim
  | cut => simp
  | @refused e fault whole => exact ⟨fun _ => ⟨fault, rfl⟩, fun _ => ⟨e, rfl, whole⟩⟩

end Alike

/-- The commands agree on every file. -/
theorem File.agreement (bytes : Bytes) : File.Agreement bytes := by
  have hx := decode_alike bytes none
  exact
    { same := fun _ => hx.same
      shown := hx.shown_iff
      cut := hx.cut_iff
      refused := hx.refused_iff
      ahead := fun _ => inspect_ahead
      pieces := fun size result => by rw [decode_ok_iff bytes (some size), decode_ok_iff bytes none]
      decodes := by
        intro file json pieceSize contents h
        rw [exit_decode h]
        simp only [decode_ok_iff]
      validates := by
        intro file json pieceSize contents h
        rw [exit_validate h, exit_decode h]
        simp only [decode_ok_iff] }

end SeismicStream
