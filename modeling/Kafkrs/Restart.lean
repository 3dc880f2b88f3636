import Kafkrs.Pipeline

/-! Recovery as seen from the pipeline: the WAL files that are not listed and hold a record
become, in base order, the backlog and the active segment of the next life. -/
namespace Kafkrs.Restart

open Lib Wal Recovery Pipeline

def salvaged (crc32c : Bytes → UInt32) (manifest : Manifest) (files : WalDir) :
    List (Int × List Record) :=
  files.keys.filterMap (salvage crc32c manifest files)

section Recovered

variable {crc32c : Bytes → UInt32} {manifest : Manifest} {files : WalDir}

theorem foldl_max_spec (values : List Int) (init : Int) :
    init ≤ values.foldl max init ∧ (∀ x ∈ values, x ≤ values.foldl max init) ∧
    (values.foldl max init = init ∨ values.foldl max init ∈ values) := by
  induction values generalizing init with
  | nil => simp
  | cons x values ih =>
    obtain ⟨least, bound, attained⟩ := ih (max init x)
    simp only [List.foldl_cons]
    refine ⟨by omega, ?_, ?_⟩
    · intro y member
      rcases List.mem_cons.mp member with rfl | later
      · omega
      · exact bound y later
    · rcases attained with same | later
      · rw [same]
        rcases max_choice init x with h | h <;> simp [h]
      · simp [later]

theorem mem_salvaged (ordered : manifest.Ordered) {base : Int} {records : List Record} :
    (base, records) ∈ salvaged crc32c manifest files ↔
      manifest.lists base = false ∧ Holds crc32c files base records ∧ records ≠ [] := by
  simp only [salvaged, List.mem_filterMap, salvage_eq_some, covered_eq_lists ordered]
  constructor
  · rintro ⟨_, _, rfl, unlisted, bytes, found, scanned, nonempty⟩
    exact ⟨unlisted, ⟨bytes, found, scanned⟩, nonempty⟩
  · rintro ⟨unlisted, ⟨bytes, found, scanned⟩, nonempty⟩
    exact ⟨base, (Dir.mem_keys files).mpr (by simp [found]), rfl, unlisted, bytes, found, scanned,
      nonempty⟩

theorem salvaged_sorted (crc32c : Bytes → UInt32) (manifest : Manifest) (files : WalDir) :
    (salvaged crc32c manifest files).Pairwise (fun a b => a.1 < b.1) := by
  refine List.pairwise_filterMap.mpr ((Dir.keys_sorted files).imp ?_)
  intro a b less x left y right
  obtain ⟨rfl, _⟩ := salvage_eq_some.mp (show salvage crc32c manifest files a = some (x.1, x.2) from left)
  obtain ⟨rfl, _⟩ := salvage_eq_some.mp (show salvage crc32c manifest files b = some (y.1, y.2) from right)
  exact less

/-- The files after any number of rounds: listed ones gone, the others cut to whole records. -/
theorem holds_recovered (ordered : manifest.Ordered) {bases : List Int} (distinct : bases.Nodup)
    {base : Int} {records : List Record} :
    Holds crc32c (recoverFiles crc32c manifest bases (start manifest files)).files base records ↔
      Holds crc32c files base records ∧ (base ∈ bases → manifest.lists base = false) := by
  have spec := (recoverFiles_spec crc32c manifest bases distinct
    (start manifest files)).1 base
  have sameFiles : (start manifest files).files = files := rfl
  rw [sameFiles] at spec
  simp only [Holds, spec]
  by_cases member : base ∈ bases
  · simp only [member, ↓reduceIte, truncated, covered_eq_lists ordered, true_implies]
    cases listed : manifest.lists base with
    | true => simp
    | false =>
      cases found : files[base]? with
      | none => simp
      | some bytes => simp [scan_encodeAll (scan_fits bytes)]
  · simp [member]

theorem Durable.interrupted {stored : Record → Prop} {acked : List Record}
    (durable : Durable crc32c files manifest stored acked) (rounds : Nat) :
    Durable crc32c (Recovery.interrupted crc32c manifest rounds files) manifest stored acked := by
  have distinct : (files.keys.take rounds).Nodup := (Dir.keys_nodup files).sublist (List.take_sublist _ _)
  refine durable.shrink (fun base records held => ?_) (fun base records held unlisted => ?_)
  · exact ((holds_recovered durable.ordered distinct).mp held).1
  · exact (holds_recovered durable.ordered distinct).mpr ⟨held, fun _ => unlisted⟩

/-- `recover_partition` in terms of the salvaged segments. -/
theorem recoverPartition_eq :
    recoverPartition crc32c manifest files =
      ((recoverFiles crc32c manifest files.keys (start manifest files)).files,
        { activeRecords := ((salvaged crc32c manifest files).getLast?.map Prod.snd).getD []
          orphanSegments := (salvaged crc32c manifest files).dropLast
          nextOffset := ((salvaged crc32c manifest files).map (above ·.2)).foldl max
            ((manifest.lastUploadedOffset.map (· + 1)).getD 0) }) := by
  obtain ⟨_, segments, next⟩ := recoverFiles_spec crc32c manifest
    files.keys (Dir.keys_nodup files) (start manifest files)
  simp only [recoverPartition, segments, next]
  rfl

theorem holds_after (ordered : manifest.Ordered) {base : Int} {records : List Record} :
    Holds crc32c (recoverPartition crc32c manifest files).1 base records ↔
      Holds crc32c files base records ∧ manifest.lists base = false := by
  rw [recoverPartition_eq]
  refine (holds_recovered ordered (Dir.keys_nodup files)).trans (and_congr_right fun held => ?_)
  obtain ⟨bytes, found, _⟩ := held
  have member : base ∈ files.keys := (Dir.mem_keys files).mpr (by simp [found])
  exact ⟨fun h => h member, fun h _ => h⟩

/-- Every recovered file is the encoding of what it scans to. -/
theorem whole_after (base : Int) (bytes : Bytes)
    (found : (recoverPartition crc32c manifest files).1[base]? = some bytes) :
    bytes = encodeAll crc32c (scanWal crc32c bytes).1 := by
  have spec := (recoverFiles_spec crc32c manifest files.keys
    (Dir.keys_nodup files) (start manifest files)).1 base
  have sameFiles : (start manifest files).files = files := rfl
  rw [recoverPartition_eq] at found
  rw [sameFiles] at spec
  rw [spec] at found
  split at found
  next member =>
    unfold truncated at found
    split at found
    · cases found
    · obtain ⟨old, _, rfl⟩ := Option.map_eq_some_iff.mp found
      rw [scan_encodeAll (scan_fits old)]
  next absent =>
    exact absurd ((Dir.mem_keys files).mpr (by simp [found])) absent

theorem Durable.recovered {stored : Record → Prop} {acked : List Record}
    (durable : Durable crc32c files manifest stored acked) :
    Durable crc32c (recoverPartition crc32c manifest files).1 manifest stored acked := by
  refine durable.shrink (fun base records held => ?_) (fun base records held unlisted => ?_)
  · exact ((holds_after durable.ordered).mp held).1
  · exact (holds_after durable.ordered).mpr ⟨held, unlisted⟩

def startView (crc32c : Bytes → UInt32) (manifest : Manifest) (files : WalDir) : View :=
  let recovery := (recoverPartition crc32c manifest files).2
  { notified := []
    backlog := recovery.orphanSegments
    active := some ((recovery.activeRecords.head?.map (·.offset)).getD recovery.nextOffset,
      recovery.activeRecords)
    opened := false
    pending := []
    nextOffset := recovery.nextOffset }

variable {stored : Record → Prop} {acked : List Record}

theorem lt_above {records : List Record} (sorted : records.Pairwise (fun a b => a.offset < b.offset))
    {r : Record} (member : r ∈ records) : r.offset < above records := by
  have nonempty := List.ne_nil_of_mem member
  have split := List.dropLast_append_getLast nonempty
  simp only [above, List.getLast?_eq_getLast_of_ne_nil nonempty, Option.map_some, Option.getD_some]
  rw [← split, List.pairwise_append] at sorted
  rw [← split, List.mem_append, List.mem_singleton] at member
  rcases member with front | rfl
  · have := sorted.2.2 r front _ (List.mem_singleton_self _)
    omega
  · omega

/-- Recovered offsets and listed bases all lie below the recovered next offset. -/
theorem below_next (durable : Durable crc32c files manifest stored acked) :
    (∀ base records, (base, records) ∈ salvaged crc32c manifest files →
      ∀ r ∈ records, r.offset < (recoverPartition crc32c manifest files).2.nextOffset) ∧
    (∀ base, manifest.lists base = true →
      base < (recoverPartition crc32c manifest files).2.nextOffset) ∧
    0 ≤ (recoverPartition crc32c manifest files).2.nextOffset := by
  rw [recoverPartition_eq]
  obtain ⟨least, bound, _⟩ := foldl_max_spec
    ((salvaged crc32c manifest files).map (above ·.2))
    ((manifest.lastUploadedOffset.map (· + 1)).getD 0)
  dsimp only
  generalize List.foldl (max : Int → Int → Int) _ _ = next at *
  have listedBelow (base : Int) (listed : manifest.lists base = true) : base < next := by
    obtain ⟨seg, member, rfl⟩ := Manifest.lists_iff.mp listed
    obtain ⟨last, uploaded, under⟩ := durable.ordered.base_le_last member
    simp only [uploaded, Option.map_some, Option.getD_some] at least
    omega
  refine ⟨?_, listedBelow, ?_⟩
  · intro base records member r inside
    obtain ⟨_, holds, _⟩ := (mem_salvaged durable.ordered).mp member
    have := lt_above (durable.sorted base records holds) inside
    have top : above records ≤ next := bound _ (List.mem_map_of_mem member)
    omega
  · cases shape : manifest.segments with
    | nil => simpa [Manifest.lastUploadedOffset, shape] using least
    | cons seg rest =>
      have listed : manifest.lists seg.baseOffset = true :=
        Manifest.lists_iff.mpr ⟨seg, by simp [shape], rfl⟩
      have natural := durable.natural seg.baseOffset listed
      have := listedBelow seg.baseOffset listed
      omega

/-- A life starts in a running pipeline. -/
theorem Durable.running (durable : Durable crc32c files manifest stored acked) :
    Running crc32c (recoverPartition crc32c manifest files).1 manifest stored
      (startView crc32c manifest files) := by
  obtain ⟨offsets, listed, natural⟩ := below_next durable
  have orphans : (recoverPartition crc32c manifest files).2.orphanSegments =
      (salvaged crc32c manifest files).dropLast := by rw [recoverPartition_eq]
  have active : (recoverPartition crc32c manifest files).2.activeRecords =
      ((salvaged crc32c manifest files).getLast?.map Prod.snd).getD [] := by
    rw [recoverPartition_eq]
  have sorted := salvaged_sorted crc32c manifest files
  have facts (base : Int) (records : List Record)
      (member : (base, records) ∈ salvaged crc32c manifest files) :
      Holds crc32c (recoverPartition crc32c manifest files).1 base records ∧ records ≠ [] ∧
        manifest.lists base = false ∧
        (records.head?.map (·.offset)).getD
          (recoverPartition crc32c manifest files).2.nextOffset = base ∧
        base < (recoverPartition crc32c manifest files).2.nextOffset := by
    obtain ⟨unlisted, held, nonempty⟩ := (mem_salvaged durable.ordered).mp member
    obtain ⟨first, rest, rfl⟩ := List.exists_cons_of_ne_nil nonempty
    have head := durable.head base first rest held
    have := offsets base _ member first (by simp)
    exact ⟨(holds_after durable.ordered).mpr ⟨held, unlisted⟩, nonempty, unlisted,
      by simp [head], by omega⟩
  rw [startView, orphans, active]
  generalize (recoverPartition crc32c manifest files).2.nextOffset = next at *
  rcases List.eq_nil_or_concat (salvaged crc32c manifest files) with none | ⟨front, last, shape⟩
  · -- Nothing to replay: the new segment opens at the next offset.
    have empty (base : Int) (records : List Record)
        (held : Holds crc32c (recoverPartition crc32c manifest files).1 base records) :
        records = [] := by
      by_contra nonempty
      obtain ⟨old, unlisted⟩ := (holds_after durable.ordered).mp held
      have := (mem_salvaged durable.ordered).mpr ⟨unlisted, old, nonempty⟩
      simp [none] at this
    refine
      { whole := whole_after, order := by simp [none], below := by simp [none],
        backlog := by simp [none], notified := by simp, active := ?_,
        offsets := ?_, listed := listed, pending := trivial, fits := by simp, start := natural }
    · intro base records same
      simp only [none, List.getLast?_nil, Option.map_none, Option.getD_none, List.head?_nil,
        Option.some.injEq, Prod.mk.injEq] at same
      obtain ⟨rfl, rfl⟩ := same
      refine ⟨?_, fun _ => rfl, ?_⟩
      · cases present : manifest.lists next with
        | false => rfl
        | true => exact absurd (listed next present) (lt_irrefl _)
      · cases found : (recoverPartition crc32c manifest files).1[next]? with
        | none => exact .inr ⟨rfl, rfl, rfl⟩
        | some bytes => exact .inl ⟨bytes, found, empty next _ ⟨bytes, found, rfl⟩⟩
    · intro base records held r inside
      rw [empty base records held] at inside
      simp at inside
  · -- The last salvaged segment becomes the active one again.
    obtain ⟨base, records⟩ := last
    have here := facts base records (by simp [shape])
    simp only [shape, List.concat_eq_append, List.dropLast_concat, List.getLast?_concat,
      Option.map_some, Option.getD_some, here.2.2.2.1]
    have inFront (other : Int) (recs : List Record) (member : (other, recs) ∈ front) :
        (other, recs) ∈ salvaged crc32c manifest files := by simp [shape, member]
    refine
      { whole := whole_after, order := ?_, below := ?_, backlog := ?_, notified := by simp,
        active := ?_, offsets := ?_, listed := listed, pending := trivial, fits := by simp,
        start := natural }
    · rw [shape] at sorted
      simpa using List.pairwise_map.mpr sorted
    · intro other member
      simp only [List.nil_append, List.mem_map] at member
      obtain ⟨⟨_, recs⟩, member, rfl⟩ := member
      exact (facts _ recs (inFront _ _ member)).2.2.2.2
    · intro other recs member
      obtain ⟨held, nonempty, unlisted, _⟩ := facts other recs (inFront other recs member)
      exact ⟨held, nonempty, unlisted⟩
    · intro other recs same
      obtain ⟨rfl, rfl⟩ := Prod.mk.inj (Option.some.inj same)
      exact ⟨here.2.2.1, fun absurd => (here.2.1 absurd).elim, .inl here.1⟩
    · intro other recs held r inside
      obtain ⟨old, unlisted⟩ := (holds_after durable.ordered).mp held
      have nonempty := List.ne_nil_of_mem inside
      exact offsets other recs ((mem_salvaged durable.ordered).mpr ⟨unlisted, old, nonempty⟩) r inside

end Recovered
end Kafkrs.Restart
