import Kafkrs.Lib.Dir
import Kafkrs.Manifest
import Kafkrs.Wal

/-! Recovery of one partition from its WAL directory and its manifest. Files are named by the
base offset of their segment; listing them in key order is the source's sort. -/
namespace Kafkrs.Recovery

open Lib Wal

/-- The WAL directory of one partition: the bytes of `<base>.wal` under each base offset. -/
abbrev WalDir := Dir Bytes

structure PartitionRecovery where
  activeRecords : List Record
  orphanSegments : List (Int × List Record)
  nextOffset : Int
  deriving DecidableEq, Repr

structure Progress where
  files : WalDir
  segments : List (Int × List Record)
  nextOffset : Int

section Loop

variable (crc32c : Bytes → UInt32) (manifest : Manifest)

/-- Uploaded and listed: the WAL file outlived its manifest update and can go. -/
def covered (base : Int) : Bool :=
  (manifest.lastUploadedOffset.map (fun lu => decide (base ≤ lu))).getD false &&
    manifest.lists base

/-- One round: delete a covered file, otherwise truncate it to its valid records and keep
them when there are any. Offsets are integers here; the source's `last.offset + 1` is an `i64` and
overflows behind the largest one, which no log that counts from zero comes to. -/
def recoverFile (p : Progress) (base : Int) : Progress :=
  if covered manifest base then { p with files := p.files.erase base }
  else
    match p.files[base]? with
    | none => p
    | some bytes =>
      let (records, validLen) := scanWal crc32c bytes
      let files := p.files.insert base (bytes.take validLen)
      match records.getLast? with
      | none => { p with files := files }
      | some last =>
        { files := files
          segments := p.segments ++ [(base, records)]
          nextOffset := max p.nextOffset (last.offset + 1) }

def recoverFiles (bases : List Int) (p : Progress) : Progress :=
  bases.foldl (recoverFile crc32c manifest) p

def start (files : WalDir) : Progress :=
  ⟨files, [], (manifest.lastUploadedOffset.map (· + 1)).getD 0⟩

/-- The files left behind, and what was recovered: the segment with the largest base is the
active one, earlier ones are re-queued. -/
def recoverPartition (files : WalDir) : WalDir × PartitionRecovery :=
  let p := recoverFiles crc32c manifest files.keys (start manifest files)
  (p.files,
    { activeRecords := (p.segments.getLast?.map Prod.snd).getD []
      orphanSegments := p.segments.dropLast
      nextOffset := p.nextOffset })

/-- A crash after `rounds` files leaves only the side effects on those files. -/
def interrupted (rounds : Nat) (files : WalDir) : WalDir :=
  (recoverFiles crc32c manifest (files.keys.take rounds) (start manifest files)).files

end Loop

section Spec

variable {crc32c : Bytes → UInt32} {manifest : Manifest}

theorem covered_eq_lists (ordered : manifest.Ordered) (base : Int) :
    covered manifest base = manifest.lists base := by
  cases listed : manifest.lists base with
  | false => simp [covered, listed]
  | true =>
    obtain ⟨s, member, rfl⟩ := Manifest.lists_iff.mp listed
    obtain ⟨last, uploaded, bound⟩ := ordered.base_le_last member
    simp [covered, listed, uploaded, bound]

/-- What the loop keeps of one file: nothing when it is listed or holds no valid record. -/
def salvage (crc32c : Bytes → UInt32) (manifest : Manifest) (files : WalDir) (base : Int) :
    Option (Int × List Record) :=
  if covered manifest base then none
  else
    match files[base]? with
    | none => none
    | some bytes =>
      if (scanWal crc32c bytes).1 = [] then none else some (base, (scanWal crc32c bytes).1)

theorem salvage_eq_some {files : WalDir} {base b : Int} {records : List Record} :
    salvage crc32c manifest files base = some (b, records) ↔
      b = base ∧ covered manifest base = false ∧
      ∃ bytes, files[base]? = some bytes ∧ (scanWal crc32c bytes).1 = records ∧ records ≠ [] := by
  unfold salvage
  cases listed : covered manifest base with
  | true => simp
  | false =>
    cases found : files[base]? with
    | none => simp
    | some bytes =>
      by_cases nothing : (scanWal crc32c bytes).1 = []
      · simp [nothing]
      · simp only [Bool.false_eq_true, ↓reduceIte, nothing, Option.some.injEq, Prod.mk.injEq,
          true_and, exists_eq_left']
        constructor
        · rintro ⟨rfl, rfl⟩; exact ⟨rfl, rfl, nothing⟩
        · rintro ⟨rfl, rfl, _⟩; exact ⟨rfl, rfl⟩

def truncated (crc32c : Bytes → UInt32) (manifest : Manifest) (files : WalDir) (base : Int) :
    Option Bytes :=
  if covered manifest base then none
  else files[base]?.map (fun bytes => encodeAll crc32c (scanWal crc32c bytes).1)

theorem recoverFile_files (p : Progress) (base other : Int) :
    (recoverFile crc32c manifest p base).files[other]? =
      if base = other then truncated crc32c manifest p.files base else p.files[other]? := by
  unfold recoverFile truncated
  split
  next listed => simp
  next unlisted =>
    cases found : p.files[base]? with
    | none =>
      by_cases same : base = other
      · subst same; simp [found]
      · simp [same]
    | some bytes =>
      dsimp only
      cases last : (scanWal crc32c bytes).1.getLast? <;> simp [scan_truncated]

theorem recoverFile_segments (p : Progress) (base : Int) :
    (recoverFile crc32c manifest p base).segments =
      p.segments ++ (salvage crc32c manifest p.files base).toList := by
  unfold recoverFile salvage
  split
  · simp
  · cases found : p.files[base]? with
    | none => simp
    | some bytes =>
      dsimp only
      cases last : (scanWal crc32c bytes).1.getLast? with
      | none => simp [List.getLast?_eq_none_iff.mp last]
      | some r =>
        have nonempty : (scanWal crc32c bytes).1 ≠ [] := by
          intro h; simp [h] at last
        simp [nonempty]

/-- The next offset a salvaged segment asks for. -/
def above (records : List Record) : Int := (records.getLast?.map (·.offset + 1)).getD 0

theorem recoverFile_nextOffset (p : Progress) (base : Int) :
    (recoverFile crc32c manifest p base).nextOffset =
      match salvage crc32c manifest p.files base with
      | none => p.nextOffset
      | some segment => max p.nextOffset (above segment.2) := by
  unfold recoverFile salvage
  split
  · rfl
  · cases found : p.files[base]? with
    | none => rfl
    | some bytes =>
      dsimp only
      cases last : (scanWal crc32c bytes).1.getLast? with
      | none => simp [List.getLast?_eq_none_iff.mp last]
      | some r =>
        have nonempty : (scanWal crc32c bytes).1 ≠ [] := by
          intro h; simp [h] at last
        simp [nonempty, above, last]

/-- Rounds on distinct files do not see each other's effects. -/
theorem recoverFiles_spec (crc32c : Bytes → UInt32) (manifest : Manifest) (bases : List Int)
    (distinct : bases.Nodup) (p : Progress) :
    (∀ other, (recoverFiles crc32c manifest bases p).files[other]? =
      if other ∈ bases then truncated crc32c manifest p.files other else p.files[other]?) ∧
    (recoverFiles crc32c manifest bases p).segments =
      p.segments ++ bases.filterMap (salvage crc32c manifest p.files) ∧
    (recoverFiles crc32c manifest bases p).nextOffset =
      ((bases.filterMap (salvage crc32c manifest p.files)).map (above ·.2)).foldl max
        p.nextOffset := by
  induction bases generalizing p with
  | nil => simp [recoverFiles]
  | cons base rest ih =>
    obtain ⟨fresh, distinct⟩ := List.nodup_cons.mp distinct
    obtain ⟨files, segments, next⟩ := ih distinct (recoverFile crc32c manifest p base)
    have kept : ∀ b ∈ rest, (recoverFile crc32c manifest p base).files[b]? = p.files[b]? := by
      intro b member
      rw [recoverFile_files, if_neg]
      rintro rfl
      exact fresh member
    have sameSalvage : rest.filterMap (salvage crc32c manifest
        (recoverFile crc32c manifest p base).files) =
        rest.filterMap (salvage crc32c manifest p.files) := by
      apply List.filterMap_congr
      intro b member
      simp only [salvage, kept b member]
    have unfoldStep : recoverFiles crc32c manifest (base :: rest) p =
        recoverFiles crc32c manifest rest (recoverFile crc32c manifest p base) := rfl
    rw [unfoldStep]
    refine ⟨?_, ?_, ?_⟩
    · intro other
      rw [files other]
      by_cases later : other ∈ rest
      · simp only [later, List.mem_cons, or_true, ↓reduceIte, truncated, kept other later]
      · rw [recoverFile_files]
        by_cases same : base = other
        · subst same; simp [later]
        · simp [later, same, Ne.symm same]
    · rw [segments, sameSalvage, recoverFile_segments, List.filterMap_cons]
      cases salvage crc32c manifest p.files base <;> simp
    · rw [next, sameSalvage, recoverFile_nextOffset, List.filterMap_cons]
      cases salvage crc32c manifest p.files base <;> simp

end Spec
end Kafkrs.Recovery
