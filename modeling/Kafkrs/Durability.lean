import Kafkrs.Refinement

/-! No acknowledged record is lost over any number of crashes and restarts. -/
namespace Kafkrs.Durability

open Lib Recovery Pipeline Restart Kafkrs.Partition Refinement

inductive Kept (store : Store) (recovery : PartitionRecovery) (r : Record) : Prop
  | listed (seg : SegmentEntry) (records : List Record) (entry : seg ∈ store.manifest.segments)
      (object : store.objects[seg.baseOffset]? = some records) (inside : r ∈ records)
  | orphan (segment : Int × List Record) (entry : segment ∈ recovery.orphanSegments)
      (inside : r ∈ segment.2)
  | active (inside : r ∈ recovery.activeRecords)

/-- What recovery salvages it hands on, as an orphan or in the active segment. -/
theorem salvaged_kept {crc32c : Bytes → UInt32} {store : Store} {files : WalDir}
    {segment : Int × List Record} {r : Record}
    (member : segment ∈ salvaged crc32c store.manifest files) (inside : r ∈ segment.2) :
    Kept store (recoverPartition crc32c store.manifest files).2 r := by
  rw [recoverPartition_eq]
  have nonempty := List.ne_nil_of_mem member
  rw [← List.dropLast_append_getLast nonempty] at member
  rcases List.mem_append.mp member with earlier | last
  · exact .orphan segment earlier inside
  · refine .active ?_
    rw [List.mem_singleton.mp last] at inside
    simpa [List.getLast?_eq_getLast_of_ne_nil nonempty] using inside

/-- A record acknowledged on a durable disk is evicted or kept. -/
theorem durable_kept {crc32c : Bytes → UInt32} {store : Store} {files : WalDir}
    {evicted acked : List Record} {r : Record}
    (durable : Durable crc32c files store.manifest (Lifecycle.Stored store evicted) acked)
    (member : r ∈ acked) :
    r ∈ evicted ∨ Kept store (recoverPartition crc32c store.manifest files).2 r := by
  rcases durable.acked r member with (gone | ⟨base, records, listed, found, inside⟩) |
      ⟨base, records, held, inside⟩
  · exact .inl gone
  · obtain ⟨seg, entry, rfl⟩ := Manifest.lists_iff.mp listed
    exact .inr (.listed seg records entry found inside)
  · cases listed : store.manifest.lists base with
    | true =>
      rcases durable.listed base records held listed r inside with
        gone | ⟨other, recs, listed, found, inside⟩
      · exact .inl gone
      · obtain ⟨seg, entry, rfl⟩ := Manifest.lists_iff.mp listed
        exact .inr (.listed seg recs entry found inside)
    | false =>
      have member : (base, records) ∈ salvaged crc32c store.manifest files :=
        (mem_salvaged durable.ordered).mpr ⟨listed, held, List.ne_nil_of_mem inside⟩
      exact .inr (salvaged_kept member inside)

/-- Whatever state a run has come to, the disk alone gives back every record acknowledged so
far, in any life, unless a retention pass evicted its segment. -/
theorem acked_survive (env : Externals) {s : State}
    (reached : (machine env).Reaches (Admits .any) s) (r : Record)
    (acked : r ∈ s.history.acked) :
    r ∈ s.history.evicted ∨
      Kept s.disk.store (recoverPartition env.crc32c s.disk.store.manifest s.disk.wal).2 r := by
  have durable := (reached_invariant reached).valid.durable
  exact durable_kept durable acked

/-- Two commits, the second sealing the segment, then a crash before anything is uploaded. -/
def crashRun : List Action :=
  [.start settings, .openWriter, .produce [sample 1] (fun _ => 0), .writer,
    .produce [sample 2] (fun _ => 0), .writer, .writer, .crash 0]

theorem acked_survive_crashRun : ∃ s, (machine externals).execute crashRun fresh = some s ∧
    s.live.isNone = true ∧ s.history.acked.length = 2 ∧ ∀ r ∈ s.history.acked,
      r ∈ s.history.evicted ∨
        Kept s.disk.store (recoverPartition crc32c s.disk.store.manifest s.disk.wal).2 r := by
  have runs : ((machine externals).execute crashRun fresh).any
      (fun s => s.live.isNone && s.history.acked.length == 2) = true := by decide +kernel
  have along : (machine externals).Along (Admits .any) crashRun fresh := by decide +kernel
  obtain ⟨s, ran, facts⟩ := Option.any_eq_true _ _ |>.mp runs
  simp only [Bool.and_eq_true, beq_iff_eq] at facts
  exact ⟨s, ran, facts.1, facts.2, fun r => acked_survive externals ⟨crashRun, along, ran⟩ r⟩

end Kafkrs.Durability
