import Kafkrs.Recovery

/-! The recovery scan of a WAL file: what it returns of a torn append, and that the file it
leaves behind takes further appends, whatever bytes it started from. -/
namespace Kafkrs.WalScan

open Lib Wal Recovery

section Scan

variable (crc32c : Bytes → UInt32)

/-- One round of the `while` loop of `scan_wal` on (records, pos). -/
def scanRound (buf : Bytes) : List Record × Nat → Option (List Record × Nat) :=
  round (fun rest => (decodeRecord crc32c rest).toOption) buf

/-- `recover_wal_file`: the contents afterwards and the records. -/
def recoverWalFile (bytes : Bytes) : Bytes × List Record :=
  let (records, validLen) := scanWal crc32c bytes
  (if validLen < bytes.length then bytes.take validLen else bytes, records)

/-- `append_and_sync` on a file opened for appending. -/
def appendAndSync (contents : Bytes) (records : List Record) : Bytes :=
  contents ++ encodeAll crc32c records

end Scan

variable {crc32c : Bytes → UInt32}

def framesLength (crc32c : Bytes → UInt32) (records : List Record) : Nat :=
  (records.map (fun r => (encodeRecord crc32c r).length)).sum

theorem encodeAll_length (records : List Record) :
    (encodeAll crc32c records).length = framesLength crc32c records := by
  simp [encodeAll, framesLength, List.length_flatMap]

theorem fits_iff {r : Record} : Fits r ↔ (-2 ^ 63 ≤ r.offset ∧ r.offset < 2 ^ 63) ∧
    r.key.length < 2 ^ 16 ∧ headerAfterLen + r.key.length + r.value.length < 2 ^ 32 :=
  ⟨fun fits => ⟨fits.offset, fits.key, fits.body⟩, fun ⟨offset, key, body⟩ => ⟨offset, key, body⟩⟩

/-- A file cut anywhere scans to the longest prefix of its records whose frames fit. -/
theorem scan_take (crc32c : Bytes → UInt32) {records : List Record} (fits : ∀ r ∈ records, Fits r)
    (cut : Nat) :
    ∃ n ≤ records.length,
      scanWal crc32c ((encodeAll crc32c records).take cut) =
        (records.take n, framesLength crc32c (records.take n)) ∧
      ∀ m ≤ records.length, framesLength crc32c (records.take m) ≤ cut ↔ m ≤ n := by
  obtain ⟨n, bound, same, longest⟩ := fitting_longest (encodeRecord crc32c) cut records
  have scanned := (framing crc32c).scan_cut fits cut
  rw [same] at scanned
  simp only [← encodeAll_length]
  exact ⟨n, bound, scanned, longest⟩

/-- Two frames of 35 bytes, and a cut inside the second one's header. -/
theorem scan_take_torn :
    scanWal (fun _ => 7) ((encodeAll (fun _ => 7) [⟨0, 5, 0, [], [1]⟩, ⟨1, 6, 0, [], [2]⟩]).take 40) =
      ([⟨0, 5, 0, [], [1]⟩], 35) := by
  have fits : ∀ r ∈ ([⟨0, 5, 0, [], [1]⟩, ⟨1, 6, 0, [], [2]⟩] : List Record), Fits r := by
    simp [fits_iff, headerAfterLen]
  obtain ⟨n, bound, scanned, longest⟩ := scan_take (fun _ => 7) fits 40
  have first := (longest 1 (by decide)).mp (by decide)
  have second := mt (longest 2 (by decide)).mpr (by decide)
  have one : n = 1 := by omega
  subst one
  exact scanned

theorem recoverWalFile_eq (bytes : Bytes) :
    recoverWalFile crc32c bytes =
      (encodeAll crc32c (scanWal crc32c bytes).1, (scanWal crc32c bytes).1) := by
  have canonical := @scan_truncated crc32c bytes
  simp only [recoverWalFile]
  split
  · rw [canonical]
  next whole => rw [← canonical, List.take_of_length_le (Nat.le_of_not_lt whole)]

/-- The round over an uncovered file is `recover_wal_file` on it. -/
theorem recoverFile_recovers {manifest : Manifest} {p : Progress} {base : Int} {bytes : Bytes}
    (uncovered : covered manifest base = false) (found : p.files[base]? = some bytes) :
    (recoverFile crc32c manifest p base).files[base]? = some (recoverWalFile crc32c bytes).1 := by
  rw [recoverFile_files, if_pos rfl, recoverWalFile_eq]
  simp [truncated, uncovered, found]

theorem scan_appended {bytes : Bytes} {batch : List Record} (fits : ∀ r ∈ batch, Fits r) :
    scanWal crc32c (appendAndSync crc32c (recoverWalFile crc32c bytes).1 batch) =
      ((scanWal crc32c bytes).1 ++ batch,
        framesLength crc32c ((scanWal crc32c bytes).1 ++ batch)) := by
  have fitsAll : ∀ r ∈ (scanWal crc32c bytes).1 ++ batch, Fits r := by
    intro r member
    rcases List.mem_append.mp member with old | new
    · exact scan_fits bytes r old
    · exact fits r new
  rw [appendAndSync, recoverWalFile_eq, ← encodeAll_append, ← encodeAll_length]
  exact (framing crc32c).reading.scan_encoded fitsAll

/-- Whatever a file holds, the scan leaves its loop, accepts exactly a prefix of frames, and the
recovered file keeps its records in front of those of any later append. -/
theorem recovered_file_appendable (crc32c : Bytes → UInt32) (buf : Bytes) :
    (∃ rounds ≤ buf.length, Leaves (scanRound crc32c buf) rounds ([], 0) (scanWal crc32c buf)) ∧
    (scanWal crc32c buf).2 ≤ buf.length ∧
    buf.take (scanWal crc32c buf).2 = encodeAll crc32c (scanWal crc32c buf).1 ∧
    (recoverWalFile crc32c buf).1 = buf.take (scanWal crc32c buf).2 ∧
    (recoverWalFile crc32c buf).2 = (scanWal crc32c buf).1 ∧
    ∀ batch : List Record, (∀ r ∈ batch, Fits r) →
      (scanWal crc32c (appendAndSync crc32c (recoverWalFile crc32c buf).1 batch)).1 =
        (scanWal crc32c buf).1 ++ batch := by
  have canonical := (framing crc32c).scan_canonical buf
  refine ⟨(framing crc32c).reading.scan_leaves buf, canonical.1, canonical.2.1, ?_, ?_, ?_⟩
  · rw [recoverWalFile_eq]
    exact (scan_truncated buf).symm
  · rw [recoverWalFile_eq]
  · intro batch fits
    rw [scan_appended fits]

/-- Garbage is cut away and the record appended after it is read. -/
theorem recovered_file_appendable_garbage :
    (scanWal (fun _ => 7) (appendAndSync (fun _ => 7) (recoverWalFile (fun _ => 7) [255, 255]).1
      [⟨0, 5, 0, [], [1]⟩])).1 = [⟨0, 5, 0, [], [1]⟩] := by
  obtain ⟨_, _, _, _, _, later⟩ := recovered_file_appendable (fun _ => 7) [255, 255]
  have fits : ∀ r ∈ ([⟨0, 5, 0, [], [1]⟩] : List Record), Fits r := by simp [fits_iff, headerAfterLen]
  have nothing : (scanWal (fun _ => 7) [255, 255]).1 = [] := by decide
  rw [later _ fits, nothing, List.nil_append]

end Kafkrs.WalScan
