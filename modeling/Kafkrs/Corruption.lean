import Kafkrs.Lib.Burst
import Kafkrs.WalScan

/-! Damage to a WAL file. A record's body and trailer are covered by CRC-32C, so up to four
adjacent bytes changed there never go unnoticed: recovery stops in front of the record. The length
prefix is not covered; changing it moves the trailer. -/
namespace Kafkrs.Corruption

open Lib Wal WalScan

variable {r : Record} {damaged rest : Bytes}

/-- The length prefix of a record's frame, and the bytes the checksum protects. -/
theorem encodeRecord_parts (crc32c : Bytes → UInt32) (r : Record) :
    (encodeRecord crc32c r).take 4 = toLeBytes 4 ((body r).length % 2 ^ 32) ∧
      (encodeRecord crc32c r).drop 4 = body r ++ toLeBytes 4 (crc32c (body r)).toNat := by
  simp [encodeRecord, body_length, List.append_assoc]

theorem decode_damaged (fits : Fits r) (burst : Burst 4 ((encodeRecord crc32c r).drop 4) damaged) :
    decodeRecord crc32c ((encodeRecord crc32c r).take 4 ++ (damaged ++ rest)) = .error .crcMismatch := by
  obtain ⟨lengthBytes, protected'⟩ := encodeRecord_parts crc32c r
  have wide : headerAfterLen ≤ (body r).length := by rw [body_length]; omega
  have short : (body r).length < 2 ^ 32 := by rw [body_length]; exact fits.body
  rw [protected'] at burst
  have length := burst.length
  rw [List.length_append, toLeBytes_length] at length
  generalize bodyLen : (body r).length = n at *
  obtain ⟨message, stored, rfl, messageLength⟩ : ∃ message stored, damaged = message ++ stored ∧
      message.length = n :=
    ⟨damaged.take n, damaged.drop n, (List.take_append_drop _ _).symm, by simp [length]⟩
  have storedLength : stored.length = 4 := by
    rw [List.length_append] at length
    omega
  have mismatch := crc32c_burst burst rfl (by rw [messageLength, bodyLen])
  rw [lengthBytes, Nat.mod_eq_of_lt short, List.append_assoc]
  have declared : fromLeBytes (toLeBytes 4 n) = n := fromLeBytes_toLeBytes (by omega)
  have lengthSlice : slice (toLeBytes 4 n ++ (message ++ (stored ++ rest))) 0 4 = toLeBytes 4 n :=
    slice_middle [] (toLeBytes 4 n) _ rfl (by simp)
  have bodySlice : slice (toLeBytes 4 n ++ (message ++ (stored ++ rest))) 4 (4 + n) = message :=
    slice_middle (toLeBytes 4 n) message _ (by simp) (by omega)
  have crcSlice : slice (toLeBytes 4 n ++ (message ++ (stored ++ rest))) (4 + n) (4 + n + 4) = stored := by
    rw [← List.append_assoc]
    exact slice_middle _ stored _ (by simp [messageLength]) (by omega)
  have enough : ¬ (toLeBytes 4 n ++ (message ++ (stored ++ rest))).length < 4 + n + 4 := by
    simp only [List.length_append, toLeBytes_length, messageLength, storedLength]
    omega
  have enoughPrefix : ¬ (toLeBytes 4 n ++ (message ++ (stored ++ rest))).length < 4 := by omega
  simp only [decodeRecord, enoughPrefix, lengthSlice, declared, enough, bodySlice, crcSlice,
    Nat.not_lt.mpr wide, mismatch, if_false, ne_eq, not_false_eq_true, if_true]

/-- However the file goes on after the damaged record, decoding it reports a checksum mismatch, the scan
returns the records in front of it, and recovery leaves their frames and nothing else. -/
theorem burst_detected {front : List Record} (whole : ∀ r ∈ front, Fits r) (fits : Fits r)
    (burst : Burst 4 ((encodeRecord crc32c r).drop 4) damaged) (rest : Bytes) :
    decodeRecord crc32c ((encodeRecord crc32c r).take 4 ++ (damaged ++ rest)) = .error .crcMismatch ∧
      scanWal crc32c (encodeAll crc32c front ++ ((encodeRecord crc32c r).take 4 ++ (damaged ++ rest))) =
        (front, framesLength crc32c front) ∧
      recoverWalFile crc32c
          (encodeAll crc32c front ++ ((encodeRecord crc32c r).take 4 ++ (damaged ++ rest))) =
        (encodeAll crc32c front, front) := by
  have stopped : scanWal crc32c ((encodeRecord crc32c r).take 4 ++ (damaged ++ rest)) = ([], 0) := by
    refine scan_stop ?_
    rw [decode_damaged fits burst]
    rfl
  have scanned : scanWal crc32c
      (encodeAll crc32c front ++ ((encodeRecord crc32c r).take 4 ++ (damaged ++ rest))) =
      (front, framesLength crc32c front) := by
    refine ((framing crc32c).reading.scan_append whole _).trans ?_
    have here := stopped
    unfold scanWal at here
    rw [here, List.append_nil, ← encodeAll_length]
    rfl
  exact ⟨decode_damaged fits burst, scanned, by rw [recoverWalFile_eq, scanned]⟩

def intact : List Record := [⟨0, 5, 0, [], [1]⟩, ⟨1, 6, 0, [], [2]⟩, ⟨2, 7, 0, [], [3]⟩]

theorem burst_detected_second :
    let frame := encodeRecord crc32c ⟨1, 6, 0, [], [2]⟩
    let struck := (frame.drop 4).take 26 ++ ([9, 9, 9, 9] ++ (frame.drop 4).drop 30)
    (recoverWalFile crc32c (encodeAll crc32c intact)).2 = intact ∧
      recoverWalFile crc32c (encodeAll crc32c (intact.take 1) ++
        (frame.take 4 ++ (struck ++ encodeAll crc32c (intact.drop 2)))) =
        (encodeAll crc32c (intact.take 1), intact.take 1) := by
  intro frame struck
  refine ⟨by decide +kernel, ?_⟩
  have burst : Burst 4 (frame.drop 4) struck :=
    ⟨(frame.drop 4).take 26, ((frame.drop 4).drop 26).take 4, [9, 9, 9, 9], (frame.drop 4).drop 30,
      by decide +kernel, rfl, by decide +kernel, by decide +kernel, by decide +kernel⟩
  have fits : ∀ r ∈ intact, Fits r := by simp [intact, fits_iff, headerAfterLen]
  exact (burst_detected (fun r member => fits r (List.mem_of_mem_take member))
    (fits ⟨1, 6, 0, [], [2]⟩ (by simp [intact])) burst (encodeAll crc32c (intact.drop 2))).2.2

end Kafkrs.Corruption
