import SeismicStream.Header.Codec
import SeismicStream.Proofs.Header.Checks
import SeismicStream.Proofs.Header.Wire
import SeismicStream.Proofs.Msgpack.Extent

namespace SeismicStream

variable {w : WireHeader} {header : Header}

/-- Labels that were left out are sent as counts alone, one for each name. -/
theorem Header.writable_toWire (hw : w.Writable) (h : ofWire w = .ok header) :
    header.toWire.Writable := by
  rw [ofWire_toWire h]
  split
  · refine { hw with labels := ?_, labelNames := ?_ }
    · simpa using hw.attributes
    · simp
  · exact hw

namespace WireHeader

/-- A header is read back as it was written, whatever its numbers, and whether or not its lists are
in groups. -/
theorem encode_reads_back (hw : w.Writable) : w.ReadsBack where
  whole := fun hs => Msgpack.IsFrame.extent ⟨isValue_encode hw, hs⟩
  same := decode_encode hw
  checked := by
    intro header h more
    rw [Header.decode, decode_encode (Header.writable_toWire hw h)]
    exact Header.ofWire_again h

/-- Numbers on both sides of the bounds of their forms, and lists that are in no groups. -/
def ungrouped : WireHeader where
  pid := "α"
  function := Int64.minValue
  bundleCount := UInt32.ofNat 65536
  index := [-129, -128, -33, -32, -1, 127, 128, Int64.maxValue]
  labels := [.label "", .count 127, .label "trace", .count Word.last]
  shapes := [Word.last, 255, 256, 65535, 65536]
  attributes := ["a", "a"]

theorem ungrouped_writable : ungrouped.Writable where
  pid := by decide
  index := by decide
  labels := by decide
  labelNames := by
    intro name h
    have hn : name = "" ∨ name = "trace" := by simpa [ungrouped] using h
    rcases hn with rfl | rfl <;> decide
  shapes := by decide
  attributes := by decide
  names := by decide

theorem encode_reads_back_ungrouped : ungrouped.Writable ∧
    Msgpack.extent ungrouped.encode = .ok (some ungrouped.encode.length) ∧
      decode (ungrouped.encode ++ [0xC1]) = .ok ungrouped ∧ Header.unlabelled.Writable ∧
      ∃ header, Header.ofWire Header.unlabelled = .ok header ∧
        Header.decode (header.toWire.encode ++ [0xC1]) = .ok header := by
  have reads := encode_reads_back ungrouped_writable
  have hw : Header.unlabelled.Writable :=
    ⟨by decide, by decide, by decide, nofun, by decide, by decide, by decide⟩
  have hd : Header.unlabelled.Declares [[5, 850], [12]] [[], []] :=
    ⟨⟨.inr rfl, ⟨by decide, rfl⟩, rfl⟩, .none rfl, by decide⟩
  obtain ⟨header, h⟩ := Header.exists_ofWire hd
  exact ⟨ungrouped_writable, reads.whole (by decide +kernel), reads.same [0xC1], hw, header, h,
    (encode_reads_back hw).checked header h [0xC1]⟩

end WireHeader

end SeismicStream
