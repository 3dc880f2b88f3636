import Kafkrs.Restart
import Kafkrs.WalScan

/-! Recovery run again over the files it left behind. Deleting listed files and cutting torn
ones changes nothing a later run looks at, however far the earlier one came. -/
namespace Kafkrs.Idempotence

open Lib Wal Recovery Restart

variable {crc32c : Bytes → UInt32} {manifest : Manifest} {files : WalDir}

def swept (crc32c : Bytes → UInt32) (manifest : Manifest) (bases : List Int) (files : WalDir) :
    WalDir :=
  (recoverFiles crc32c manifest bases (start manifest files)).files

theorem swept_get (crc32c : Bytes → UInt32) (manifest : Manifest) (files : WalDir)
    {bases : List Int} (distinct : bases.Nodup) (base : Int) :
    (swept crc32c manifest bases files)[base]? =
      if base ∈ bases then truncated crc32c manifest files base else files[base]? :=
  (recoverFiles_spec crc32c manifest bases distinct (start manifest files)).1 base

/-- Cutting a file keeps what it scans to. -/
theorem scanned_swept (crc32c : Bytes → UInt32) (files : WalDir) {bases : List Int}
    (distinct : bases.Nodup) {base : Int} (uncovered : covered manifest base = false) :
    (swept crc32c manifest bases files)[base]?.map (fun bytes => (scanWal crc32c bytes).1) =
      files[base]?.map (fun bytes => (scanWal crc32c bytes).1) := by
  rw [swept_get crc32c manifest files distinct]
  split
  · cases found : files[base]? with
    | none => simp [truncated, uncovered, found]
    | some bytes => simp [truncated, uncovered, found, scan_encodeAll (scan_fits bytes)]
  · rfl

theorem salvage_swept {bases : List Int} (distinct : bases.Nodup) (base : Int) :
    salvage crc32c manifest (swept crc32c manifest bases files) base =
      salvage crc32c manifest files base := by
  unfold salvage
  cases listed : covered manifest base with
  | true => rfl
  | false =>
    have scanned := scanned_swept crc32c files distinct listed
    cases before : files[base]? with
    | none =>
      rw [before, Option.map_none, Option.map_eq_none_iff] at scanned
      simp only [scanned]
    | some bytes =>
      rw [before, Option.map_some, Option.map_eq_some_iff] at scanned
      obtain ⟨cut, found, same⟩ := scanned
      simp only [found, same]

theorem truncated_swept {bases : List Int} (distinct : bases.Nodup) (base : Int) :
    truncated crc32c manifest (swept crc32c manifest bases files) base =
      truncated crc32c manifest files base := by
  unfold truncated
  cases listed : covered manifest base with
  | true => rfl
  | false =>
    have scanned := congrArg (Option.map (encodeAll crc32c))
      (scanned_swept crc32c files distinct listed)
    rw [Option.map_map, Option.map_map] at scanned
    exact scanned

theorem mem_salvaged_iff {segment : Int × List Record} :
    segment ∈ salvaged crc32c manifest files ↔
      salvage crc32c manifest files segment.1 = some segment := by
  simp only [salvaged, List.mem_filterMap]
  constructor
  · rintro ⟨base, _, kept⟩
    obtain ⟨same, _⟩ := salvage_eq_some.mp (show salvage crc32c manifest files base =
      some (segment.1, segment.2) from kept)
    rw [same]
    exact kept
  · intro kept
    obtain ⟨_, _, bytes, found, _⟩ := salvage_eq_some.mp (show salvage crc32c manifest files
      segment.1 = some (segment.1, segment.2) from kept)
    exact ⟨segment.1, (Dir.mem_keys files).mpr (by simp [found]), kept⟩

theorem salvaged_swept {bases : List Int} (distinct : bases.Nodup) :
    salvaged crc32c manifest (swept crc32c manifest bases files) =
      salvaged crc32c manifest files := by
  apply sorted_unique (salvaged_sorted crc32c manifest _) (salvaged_sorted crc32c manifest _)
  intro segment
  rw [mem_salvaged_iff, mem_salvaged_iff, salvage_swept distinct]

/-- A full run over all files leaves each of them as its round does. -/
theorem recovered_get (files : WalDir) (base : Int) :
    (recoverPartition crc32c manifest files).1[base]? = truncated crc32c manifest files base := by
  have after := swept_get crc32c manifest files (Dir.keys_nodup files) base
  rw [recoverPartition_eq]
  refine after.trans ?_
  split
  · rfl
  next absent =>
    rw [Dir.mem_keys, Bool.not_eq_true, Option.isSome_eq_false_iff, Option.isNone_iff_eq_none]
      at absent
    simp [truncated, absent]

/-- Whatever rounds an earlier run finished, recovery then gives what it would have given. -/
theorem recoverPartition_swept {bases : List Int} (distinct : bases.Nodup) :
    recoverPartition crc32c manifest (swept crc32c manifest bases files) =
      recoverPartition crc32c manifest files := by
  apply Prod.ext
  · apply Std.ExtTreeMap.ext_getElem?
    intro base
    rw [recovered_get, recovered_get, truncated_swept distinct]
  · simp only [recoverPartition_eq, salvaged_swept distinct]

/-- A second run right after a first returns the same recovery and leaves every file as it is. -/
theorem recoverPartition_again (crc32c : Bytes → UInt32) (manifest : Manifest) (files : WalDir) :
    recoverPartition crc32c manifest (recoverPartition crc32c manifest files).1 =
      recoverPartition crc32c manifest files :=
  recoverPartition_swept (Dir.keys_nodup files)

/-- So does a run after one that crashed between two files. -/
theorem recoverPartition_interrupted (rounds : Nat) :
    recoverPartition crc32c manifest (interrupted crc32c manifest rounds files) =
      recoverPartition crc32c manifest files :=
  recoverPartition_swept ((Dir.keys_nodup files).sublist (List.take_sublist _ _))

end Kafkrs.Idempotence
