import Kafkrs.Fetching
import Kafkrs.SegmentLookup

/-! Which committed offsets a fetch can serve. The writer keeps sealed batches in memory until
they are durable, but the fetcher never asks it for them: an offset is served from the active
batch or from a listed segment, and from nowhere in between. -/
namespace Kafkrs.FetchCoverage

open Lib Kafkrs.Partition Refinement Continuity RecoveredLog Fetching

/-- `fetchNow` is what the steps of a fetch come to when the writer is at its message loop. -/
theorem alone_runs (env : Externals) {s : State} {l : Live} (live : s.live = some l)
    (recv : l.writer.phase = .recv) (n : Nat) (f : Fetch) :
    ∃ k ≤ n, (Fetcher.machine env).execute (List.replicate k .fetch) ⟨s, some f⟩ =
      some ⟨s, some (Fetcher.alone l.writer s.disk.store n f)⟩ := by
  induction n generalizing f with
  | zero => exact ⟨0, le_refl _, rfl⟩
  | succ n ih =>
    by_cases finished : ∃ result, f.phase = .done result
    · obtain ⟨result, isDone⟩ := finished
      have still : { f with phase := Fetcher.advance l.writer s.disk.store f } = f := by
        simp only [Fetcher.advance, isDone]
        rw [← isDone]
      obtain ⟨k, short, ran⟩ := ih f
      refine ⟨k, by omega, ?_⟩
      rw [Fetcher.alone, still]
      exact ran
    · obtain ⟨k, short, ran⟩ := ih { f with phase := Fetcher.advance l.writer s.disk.store f }
      refine ⟨k + 1, by omega, ?_⟩
      have stepped : Fetcher.step l.writer s.disk.store f =
          some { f with phase := Fetcher.advance l.writer s.disk.store f } := by
        unfold Fetcher.step
        split
        next result isDone => exact absurd ⟨result, isDone⟩ finished
        · simp [recv]
      simp only [List.replicate_succ, Machine.execute, Fetcher.alone]
      simp only [Fetcher.machine, Fetcher.joint, live, stepped, Option.map_some, Option.bind_some]
      exact ran

section Coverage

variable {objects : Dir (List Record)} {segments : List SegmentEntry} {start offset : Int}

/-- Entries that list consecutive records lie apart. -/
theorem entries_apart
    (stored : ∀ seg ∈ segments, ∃ records, objects[seg.baseOffset]? = some records ∧
      Numbered Record.offset seg.baseOffset records ∧
      seg.lastOffset + 1 = seg.baseOffset + records.length)
    (ranges : ∀ seg ∈ segments, seg.baseOffset ≤ seg.lastOffset)
    (numbered : Numbered Record.offset start (segments.flatMap (objectRecords objects))) :
    segments.Pairwise (fun a b => a.lastOffset < b.baseOffset) := by
  induction segments generalizing start with
  | nil => exact List.Pairwise.nil
  | cons seg rest ih =>
    obtain ⟨records, found, own, last⟩ := stored seg (by simp)
    have range := ranges seg (by simp)
    have here : objectRecords objects seg = records := by simp [objectRecords, found]
    rw [List.flatMap_cons, here] at numbered
    obtain ⟨front, back⟩ := Numbered.append_iff.mp numbered
    refine List.Pairwise.cons (fun other behind => ?_)
      (ih (fun s member => stored s (by simp [member])) (fun s member => ranges s (by simp [member]))
        back)
    obtain ⟨theirs, theirsFound, theirsOwn, theirsLast⟩ := stored other (by simp [behind])
    have theirsRange := ranges other (by simp [behind])
    -- The record at `start` is this entry's, the one at the other base comes after all of them.
    obtain ⟨r, member, atStart⟩ := front.exists_mem (le_refl start) (by omega)
    obtain ⟨q, later, atBase⟩ := theirsOwn.exists_mem (le_refl other.baseOffset) (by omega)
    have := own.mem_bounds member
    have := back.mem_bounds (List.mem_flatMap.mpr
      ⟨other, behind, by simpa [objectRecords, theirsFound] using later⟩)
    omega

/-- The manifests of the running system meet what the segment lookup asks for. -/
theorem manifest_disjoint {store : Store} {history : History} {tail : List Record}
    (chained : Chained store history tail) (ordered : store.manifest.Ordered) :
    store.manifest.Disjoint := by
  have numbered := chained.numbered
  rw [chained.log, List.append_assoc, Numbered.append_iff, Numbered.append_iff] at numbered
  exact Manifest.disjoint_of_apart ordered.ranges
    (entries_apart chained.objects ordered.ranges numbered.2.1)

theorem segmentForOffset_found {store : Store} {history : History} {tail : List Record}
    (chained : Chained store history tail) (ordered : store.manifest.Ordered)
    (low : history.evicted.length ≤ offset) (high : offset < uploadedEnd store.manifest) :
    ∃ seg records, store.manifest.segmentForOffset offset = some seg ∧
      store.objects[seg.baseOffset]? = some records ∧
      Numbered Record.offset seg.baseOffset records ∧ seg.baseOffset ≤ offset ∧
      offset < seg.baseOffset + records.length := by
  have numbered := chained.numbered
  rw [chained.log, List.append_assoc, Numbered.append_iff, Numbered.append_iff] at numbered
  have ending := chained.ending
  rw [List.length_append] at ending
  push_cast at ending
  obtain ⟨r, uploaded, rfl⟩ := numbered.2.1.exists_mem (n := offset) (by omega) (by omega)
  obtain ⟨seg, member, inside⟩ := List.mem_flatMap.mp uploaded
  obtain ⟨records, found, own, last⟩ := chained.objects seg member
  rw [objectRecords, found] at inside
  have bounds := own.mem_bounds inside
  have disjoint := manifest_disjoint chained ordered
  refine ⟨seg, records, ?_, found, own, bounds.1, bounds.2⟩
  refine Manifest.segmentForOffset_of_covers disjoint.nonempty disjoint.apart member ?_
  simp only [SegmentEntry.covers_iff]
  omega

/-- The first record selected at an offset that is there. -/
theorem selection_head {records : List Record} (numbered : Numbered Record.offset start records)
    (low : start ≤ offset) (high : offset < start + records.length) {limit : Nat}
    (some' : 1 ≤ limit) :
    ((records.filter (fun r => decide (offset ≤ r.offset))).take limit).head?.map (·.offset) =
      some offset := by
  rw [numbered.filter_ge low]
  have short : (offset - start).toNat < records.length := by omega
  have dropped := numbered.drop _ (le_of_lt short)
  rw [List.drop_eq_getElem_cons short] at dropped ⊢
  obtain ⟨limit, rfl⟩ := Nat.exists_eq_add_of_le some'
  rw [Nat.add_comm, List.take_succ_cons]
  have := dropped.1
  simp only [List.head?_cons, Option.map_some, Option.some.injEq]
  omega

/-- An offset up to the high-water mark is in the active batch or below it. -/
theorem locate_cases (w : PartitionWriter) (inside : offset ≤ w.hwm) :
    (w.locate offset = .inActiveBatch ∧
        ∃ first, w.active.head? = some first ∧ first.offset ≤ offset) ∨
    ((w.locate offset = .inFlight ∨ w.locate offset = .belowInFlight) ∧
        ∀ first, w.active.head? = some first → offset < first.offset) := by
  simp only [PartitionWriter.locate, if_neg (not_lt.mpr inside)]
  cases head : w.active.head? with
  | none =>
    refine .inr ⟨?_, nofun⟩
    simp only [show offset ≠ w.hwm + 1 by omega, if_false]
    split
    · split <;> simp
    · simp
  | some first =>
    dsimp only
    by_cases high : offset ≥ first.offset
    · exact .inl ⟨if_pos high, first, rfl, high⟩
    · rw [if_neg high]
      refine .inr ⟨?_, fun other same => by obtain rfl := Option.some.inj same; omega⟩
      split
      · split <;> simp
      · simp

theorem fetchNow_active {w : PartitionWriter} {store : Store} {req : FetchRequest}
    (natural : 0 ≤ req.fromOffset) (located : w.locate req.fromOffset = .inActiveBatch) :
    Fetcher.fetchNow w store req = .done (.ok (Fetcher.activeRead req w)) := by
  simp [Fetcher.fetchNow, Fetcher.start, not_lt.mpr natural, Fetcher.alone, Fetcher.advance,
    located, Fetcher.located]

/-- A fetch that has ended takes no more steps. -/
theorem alone_done (w : PartitionWriter) (store : Store) (req : FetchRequest) (n : Nat)
    (result : Except FetchError FetchResponse) :
    (Fetcher.alone w store n ⟨req, .done result⟩).phase = .done result := by
  induction n with
  | zero => rfl
  | succ n ih => exact ih

/-- The two object-store reads. -/
theorem alone_readManifest (w : PartitionWriter) (store : Store) (req : FetchRequest)
    (inFlight : Bool) (n : Nat) :
    (Fetcher.alone w store (n + 2) ⟨req, .readManifest inFlight⟩).phase =
      match store.manifest.segmentForOffset req.fromOffset with
      | none => Fetcher.failed inFlight .offsetOutOfRange
      | some seg => Fetcher.segmentRead req store.objects seg
          (store.manifest.lastUploadedOffset.getD (-1)) inFlight := by
  simp only [Fetcher.alone, Fetcher.advance, Fetcher.manifestRead]
  cases store.manifest.segmentForOffset req.fromOffset with
  | none => exact alone_done w store req n _
  | some seg =>
    simp only [Fetcher.segmentRead]
    cases store.objects[seg.baseOffset]? with
    | none => exact alone_done w store req n _
    | some records => exact alone_done w store req n _

/-- Outside the active batch a fetch comes down to the two object-store reads. -/
theorem fetchNow_store {w : PartitionWriter} (store : Store) {req : FetchRequest}
    (natural : 0 ≤ req.fromOffset)
    (located : w.locate req.fromOffset = .inFlight ∨ w.locate req.fromOffset = .belowInFlight) :
    ∃ inFlight, (inFlight = true ↔ w.locate req.fromOffset = .inFlight) ∧
      Fetcher.fetchNow w store req =
        match store.manifest.segmentForOffset req.fromOffset with
        | none => Fetcher.failed inFlight .offsetOutOfRange
        | some seg => Fetcher.segmentRead req store.objects seg
            (store.manifest.lastUploadedOffset.getD (-1)) inFlight := by
  rcases located with located | located
  · refine ⟨true, by simp [located], ?_⟩
    rw [← alone_readManifest w store req true 2]
    simp [Fetcher.fetchNow, Fetcher.start, not_lt.mpr natural, Fetcher.alone, Fetcher.advance,
      located, Fetcher.located]
  · refine ⟨false, by simp [located], ?_⟩
    rw [← alone_readManifest w store req false 2]
    simp [Fetcher.fetchNow, Fetcher.start, not_lt.mpr natural, Fetcher.alone, Fetcher.advance,
      located, Fetcher.located]

/-- In every state reached through clean restarts, a committed offset that no eviction took is
served if and only if its segment is not waiting to be uploaded: it lies below the uploaded end
or in the active batch. -/
theorem fetchNow_serves_iff (env : Externals) {s : State} {l : Live}
    (reached : (machine env).Reaches (Admits (cleanly env)) s) (live : s.live = some l)
    (req : FetchRequest) (limit : 1 ≤ req.maxRecords)
    (committed : ∃ r ∈ s.history.log, r.offset = req.fromOffset)
    (unevicted : ∀ r ∈ s.history.evicted, r.offset ≠ req.fromOffset) :
    (∃ resp, Fetcher.fetchNow l.writer s.disk.store req = .done (.ok resp) ∧
        resp.records.head?.map (·.offset) = some req.fromOffset) ↔
      req.fromOffset < uploadedEnd s.disk.store.manifest ∨
        ∃ first, l.writer.active.head? = some first ∧ first.offset ≤ req.fromOffset := by
  have whole := reached_whole reached
  have linked := whole.continuous.live (view l) (by simp [abstract, live])
  have chained := linked.chained
  obtain ⟨r, member, offset⟩ := committed
  have bounds := chained.numbered.mem_bounds member
  rw [offset] at bounds
  have next := linked.next
  simp only [view, abstract] at next bounds
  have evictedBelow : (s.history.evicted.length : Int) ≤ req.fromOffset := by
    by_contra inside
    have numbered := chained.numbered
    rw [chained.log, List.append_assoc, Numbered.append_iff] at numbered
    obtain ⟨gone, wasEvicted, same⟩ := numbered.1.exists_mem bounds.1 (by dsimp only [abstract]; omega)
    exact unevicted gone wasEvicted same
  have reachable : req.fromOffset ≤ l.writer.hwm := by
    simp only [PartitionWriter.hwm]
    omega
  rcases locate_cases l.writer reachable with ⟨located, first, head, low⟩ | ⟨located, high⟩
  · refine ⟨fun _ => .inr ⟨first, head, low⟩, fun _ => ⟨_, fetchNow_active bounds.1 located, ?_⟩⟩
    obtain ⟨start, numbered, _, ending⟩ := active_numbered whole live
    have first' := numbered.head head
    exact selection_head numbered (by omega) (by omega) limit
  · obtain ⟨inFlight, _, outcome⟩ := fetchNow_store s.disk.store bounds.1 located
    rw [outcome]
    have notActive : ¬ ∃ first, l.writer.active.head? = some first ∧
        first.offset ≤ req.fromOffset := by
      rintro ⟨first, head, low⟩
      have := high first head
      omega
    by_cases uploaded : req.fromOffset < uploadedEnd s.disk.store.manifest
    · refine ⟨fun _ => .inl uploaded, fun _ => ?_⟩
      obtain ⟨seg, records, found, object, numbered, low, below⟩ := segmentForOffset_found chained
        whole.inv.valid.durable.ordered evictedBelow uploaded
      simp only [abstract] at found object
      simp only [found, Fetcher.segmentRead, object]
      exact ⟨_, rfl, selection_head numbered low below limit⟩
    · have none : s.disk.store.manifest.segmentForOffset req.fromOffset = none := by
        by_contra some'
        obtain ⟨seg, found⟩ := Option.ne_none_iff_exists'.mp some'
        obtain ⟨entry, _, top⟩ := segmentForOffset_mem found
        have := chained.last_lt_end whole.inv.valid.durable.ordered entry
        dsimp only [abstract] at this
        omega
      rw [none]
      refine ⟨?_, fun served => absurd served (by simp [uploaded, notActive])⟩
      rintro ⟨resp, answered, nonempty⟩
      cases inFlight with
      | true =>
        obtain rfl : (⟨[], -1⟩ : FetchResponse) = resp := by simpa [Fetcher.failed] using answered
        cases nonempty
      | false => simp [Fetcher.failed] at answered

/-- One segment, sealed and handed to an uploader that has not started on it. -/
def sealedRun : List Action :=
  [.start settings, .openWriter] ++ produceOne 1 ++ produceOne 2 ++ handOver

/-- Offset 0 is acknowledged and nothing is evicted, but a fetch from 0 comes back empty. -/
theorem sealedRun_unserved : ∃ s l, (machine externals).execute sealedRun fresh = some s ∧
    s.live = some l ∧ (∃ r ∈ s.history.log, r.offset = 0) ∧ s.history.evicted = [] ∧
    l.writer.phase = .recv ∧
    Fetcher.fetchNow l.writer s.disk.store ⟨0, 10, 0⟩ = .done (.ok ⟨[], -1⟩) := by
  have runs : ((machine externals).execute sealedRun fresh).any (fun s => s.live.any (fun l =>
      decide ((∃ r ∈ s.history.log, r.offset = 0) ∧ s.history.evicted = [] ∧
        l.writer.phase = .recv ∧
        Fetcher.fetchNow l.writer s.disk.store ⟨0, 10, 0⟩ = .done (.ok ⟨[], -1⟩)))) = true := by
    decide +kernel
  obtain ⟨s, ran, facts⟩ := Option.any_eq_true _ _ |>.mp runs
  obtain ⟨l, live, facts⟩ := Option.any_eq_true _ _ |>.mp facts
  exact ⟨s, l, ran, live, of_decide_eq_true facts⟩

/-- Once the segment is uploaded the same fetch returns it. -/
theorem fetchNow_serves_iff_uploaded : ∃ s l resp,
    (machine externals).execute (sealedRun ++ upload) fresh = some s ∧ s.live = some l ∧
    Fetcher.fetchNow l.writer s.disk.store ⟨0, 10, 0⟩ = .done (.ok resp) ∧
    resp.records.head?.map (·.offset) = some 0 := by
  have runs : ((machine externals).execute (sealedRun ++ upload) fresh).any (fun s =>
      s.live.any (fun l => decide ((∃ r ∈ s.history.log, r.offset = 0) ∧ s.history.evicted = [] ∧
        0 < uploadedEnd s.disk.store.manifest))) = true := by decide +kernel
  have along : (machine externals).Along (Admits (cleanly externals)) (sealedRun ++ upload)
      fresh := by decide +kernel
  obtain ⟨s, ran, facts⟩ := Option.any_eq_true _ _ |>.mp runs
  obtain ⟨l, live, facts⟩ := Option.any_eq_true _ _ |>.mp facts
  obtain ⟨committed, none, uploaded⟩ := of_decide_eq_true facts
  obtain ⟨resp, served⟩ := (fetchNow_serves_iff externals ⟨_, along, ran⟩ live ⟨0, 10, 0⟩
    (by decide) committed (by simp [none])).mpr (.inl uploaded)
  exact ⟨s, l, resp, ran, live, served⟩

end Coverage
end Kafkrs.FetchCoverage
