import Kafkrs.Fetching
import Kafkrs.Staffing

/-! A fetch that reads the object store while a retention pass runs. The pass rewrites the
manifest before it deletes, but a fetch goes by the manifest it has read, which may be an
older one. -/
namespace Kafkrs.EvictedRead

open Lib Kafkrs.Partition

section Store

variable {env : Externals} {st : Store} {phase : Uploader.Phase}

structure Shelf (st : Store) (phase : Uploader.Phase) : Prop where
  keys : ∀ seg ∈ st.manifest.segments, seg.objectKey = segmentName seg.baseOffset
  present : ∀ seg ∈ st.manifest.segments, ∃ records, st.objects[seg.baseOffset]? = some records
  staged : ∀ batch, phase = .putManifest batch → ∃ records, st.objects[batch.baseOffset]? = some records
  doomed : ∀ evict, phase = .delete evict →
    ∀ gone ∈ evict, ∀ seg ∈ st.manifest.segments, seg.baseOffset ≠ gone.baseOffset

/-- A phase that neither lists nor deletes asks nothing of the store. -/
theorem Shelf.idle (shelf : Shelf st phase) {later : Uploader.Phase}
    (listing : ∀ batch, later ≠ .putManifest batch) (deleting : ∀ evict, later ≠ .delete evict) :
    Shelf st later :=
  ⟨shelf.keys, shelf.present, fun batch busy => absurd busy (listing batch),
    fun evict busy => absurd busy (deleting evict)⟩

theorem mem_retain {m : Manifest} {evict : List SegmentEntry} {seg : SegmentEntry} :
    seg ∈ (Retention.retain m evict).segments ↔
      seg ∈ m.segments ∧ ∀ gone ∈ evict, gone.objectKey ≠ seg.objectKey := by
  simp [Retention.retain]

/-- The segment object is there before an entry names it. -/
theorem Shelf.put (shelf : Shelf st phase) (batch : SealedBatch) :
    Shelf { st with objects := st.objects.insert batch.baseOffset batch.records } (.putManifest batch) where
  keys := shelf.keys
  present := by
    intro seg member
    rw [Dir.get_insert]
    split
    · exact ⟨_, rfl⟩
    · exact shelf.present seg member
  staged := by
    rintro other same
    obtain rfl := Uploader.Phase.putManifest.inj same
    exact ⟨batch.records, by simp⟩
  doomed := by simp

theorem Shelf.list {batch : SealedBatch} (shelf : Shelf st (.putManifest batch)) :
    Shelf { st with manifest := st.manifest.add (Uploader.entry env.segmentSize batch) }
      (.notify batch) where
  keys := by
    intro seg member
    rcases Manifest.mem_add.mp member with old | rfl
    · exact shelf.keys seg old
    · rfl
  present := by
    intro seg member
    rcases Manifest.mem_add.mp member with old | rfl
    · exact shelf.present seg old
    · exact shelf.staged batch rfl
  staged := by simp
  doomed := by simp

/-- The rewritten manifest names none of the bases about to be deleted. -/
theorem Shelf.evict (shelf : Shelf st phase) {evict : List SegmentEntry}
    (front : evict ⊆ st.manifest.segments) :
    Shelf { st with manifest := Retention.retain st.manifest evict } (.delete evict) where
  keys := fun seg member => shelf.keys seg (mem_retain.mp member).1
  present := fun seg member => shelf.present seg (mem_retain.mp member).1
  staged := by simp
  doomed := by
    intro same busy gone member seg stays base
    obtain rfl := Uploader.Phase.delete.inj busy
    obtain ⟨old, kept⟩ := mem_retain.mp stays
    apply kept gone member
    rw [shelf.keys gone (front member), shelf.keys seg old, base]

theorem Shelf.delete {gone : SegmentEntry} {rest : List SegmentEntry}
    (shelf : Shelf st (.delete (gone :: rest))) :
    Shelf { st with objects := st.objects.erase gone.baseOffset } (.delete rest) where
  keys := shelf.keys
  present := by
    intro seg member
    have apart := shelf.doomed _ rfl gone List.mem_cons_self seg member
    obtain ⟨records, found⟩ := shelf.present seg member
    exact ⟨records, by rw [Dir.get_erase, if_neg (Ne.symm apart), found]⟩
  staged := by simp
  doomed := by
    intro same busy other member
    obtain rfl := Uploader.Phase.delete.inj busy
    exact shelf.doomed _ rfl other (List.mem_cons_of_mem _ member)

theorem Shelf.step {u : Uploader} {now : Int} {effect : Uploader.Effect} (shelf : Shelf st u.phase)
    (stepped : u.step env.segmentSize now .ok st = some effect) :
    Shelf effect.store effect.uploader.phase := by
  cases Uploader.step_moved stepped with
  | upload | retentionKick | shutdown | notify | spare | deleted => exact shelf.idle (by simp) (by simp)
  | updateConfig busy => exact shelf.idle (by simp [busy]) (by simp [busy])
  | putSegment busy => exact shelf.put _
  | putManifest busy =>
    rw [busy] at shelf
    simp only [Outcome.applied, true_and, if_true]
    split
    · exact shelf.list
    · exact shelf.idle (by simp) (by simp)
  | evict busy chosen =>
    have front := (Retention.evaluateEviction_front st.manifest u.cfg now).subset
    rw [chosen] at front
    exact shelf.evict fun seg member => List.dropLast_subset _ (front member)
  | delete busy =>
    rw [busy] at shelf
    exact shelf.delete

/-- Only the DELETE of its own base takes an object away. -/
theorem object_stays {u : Uploader} {now : Int} {effect : Uploader.Effect} {base : Int}
    (stepped : u.step env.segmentSize now .ok st = some effect)
    (present : ∃ records, st.objects[base]? = some records) :
    (∃ records, effect.store.objects[base]? = some records) ↔
      ∀ gone rest, u.phase = .delete (gone :: rest) → gone.baseOffset ≠ base := by
  -- every other phase leaves all objects, and is not a delete
  have kept (objects : effect.store.objects = st.objects)
      (quiet : ∀ gone rest, u.phase ≠ .delete (gone :: rest)) :
      (∃ records, effect.store.objects[base]? = some records) ↔
        ∀ gone rest, u.phase = .delete (gone :: rest) → gone.baseOffset ≠ base :=
    ⟨fun _ gone rest busy => absurd busy (quiet gone rest), fun _ => objects ▸ present⟩
  cases Uploader.step_moved stepped with
  | upload busy | retentionKick busy | updateConfig busy | shutdown busy | notify busy | spare busy
  | deleted busy | evict busy => exact kept rfl (by simp [busy])
  | putSegment busy =>
    simp only [busy, Outcome.applied, if_true, Dir.get_insert, reduceCtorEq, false_implies,
      implies_true, iff_true]
    split
    · exact ⟨_, rfl⟩
    · exact present
  | putManifest busy =>
    refine kept ?_ (by simp [busy])
    dsimp only
    split <;> rfl
  | delete busy =>
    obtain ⟨records, found⟩ := present
    simp [Outcome.applied, busy, Dir.get_erase, found]

end Store

section Partition

variable {env : Externals} {s next : Partition.State} {action : Partition.Action}

def uploaderPhase (s : Partition.State) : Uploader.Phase :=
  (s.live.map (·.uploader.phase)).getD .recv

theorem shelf_step (shelf : Shelf s.disk.store (uploaderPhase s))
    (taken : Partition.step env action s = some next) :
    Shelf next.disk.store (uploaderPhase next) := by
  cases Partition.step_stepped taken with
  | interrupt down | start down =>
    exact shelf.idle (by simp [uploaderPhase, down, Uploader.new]) (by simp [uploaderPhase, down, Uploader.new])
  | moved live moved =>
    simp only [uploaderPhase, live, Option.map_some, Option.getD_some] at shelf
    cases moved with
    | uploader stepped => exact shelf.step stepped
    | crash => exact shelf.idle (by simp [uploaderPhase]) (by simp [uploaderPhase])
    | _ => simpa only [uploaderPhase, Option.map_some, Option.getD_some] using shelf

/-- A step keeps the objects, except that the uploader may delete the next one it evicts. -/
theorem step_keeps_object {base : Int} {l : Live} (live : s.live = some l)
    (taken : Partition.step env action s = some next)
    (present : ∃ records, s.disk.store.objects[base]? = some records) :
    (∃ records, next.disk.store.objects[base]? = some records) ↔
      ∀ gone rest, (∃ now, action = .uploader now) →
        l.uploader.phase = .delete (gone :: rest) → gone.baseOffset ≠ base := by
  simp only [Partition.step, live] at taken
  cases liveStep_moved taken with
  | uploader stepped => simpa using object_stays stepped present
  | _ => simpa using present

end Partition

section Runs

open Fetcher (joint)
open RecoveredLog (produceOne handOver upload)

variable {env : Externals} {s next : Fetcher.State}

/-- A segment picked from a manifest can be read, and no fetch fails while the writer runs. -/
structure Unharmed (s : Fetcher.State) : Prop where
  held : ∀ f seg hwm inFlight, s.fetch = some f → f.phase = .readSegment seg hwm inFlight →
    seg.baseOffset ≤ f.req.fromOffset ∧ f.req.fromOffset ≤ seg.lastOffset ∧
    ∃ records, s.partition.disk.store.objects[seg.baseOffset]? = some records ∧
      Fetcher.segmentRead f.req s.partition.disk.store.objects seg hwm inFlight =
        .done (.ok ⟨Fetcher.selected f.req records, hwm⟩)
  answered : ∀ f, s.fetch = some f → f.phase = .done (.error .brokerNotReady) →
    ∃ l, s.partition.live = some l ∧ l.writer.phase = .stopped

/-- The uploader does not delete the object of the segment a fetch has picked and not yet read. -/
def Spares (s : Fetcher.State) : Fetcher.Action → Prop
  | .partition (.uploader _) => ∀ l f gone rest seg hwm inFlight, s.partition.live = some l →
      s.fetch = some f → l.uploader.phase = .delete (gone :: rest) →
      f.phase = .readSegment seg hwm inFlight → gone.baseOffset ≠ seg.baseOffset
  | _ => True

structure ReadInvariant (s : Fetcher.State) : Prop where
  shelf : Shelf s.partition.disk.store (uploaderPhase s.partition)
  alive : s.fetch.isSome → s.partition.live.isSome

theorem ReadInvariant.partition (inv : ReadInvariant s) {action : Partition.Action}
    (taken : joint env (.partition action) s = some next) : ReadInvariant next := by
  obtain ⟨after, stepped, rfl⟩ := Option.map_eq_some_iff.mp taken
  refine ⟨shelf_step inv.shelf stepped, fun fetching => ?_⟩
  by_contra down
  simp [down] at fetching

theorem ReadInvariant.step (inv : ReadInvariant s) {action : Fetcher.Action}
    (taken : joint env action s = some next) : ReadInvariant next := by
  cases action with
  | partition action => exact inv.partition taken
  | fetch =>
    obtain ⟨l, f, live, fetching, same, _⟩ := Fetching.fetch_step_cases taken
    exact ⟨same ▸ inv.shelf, fun _ => by simp [same, live]⟩
  | begin req =>
    have same := Fetching.begin_partition taken
    refine ⟨same ▸ inv.shelf, fun _ => ?_⟩
    simp only [joint] at taken
    split at taken
    next l live => simp [same, live]
    · cases taken

theorem segmentRead_present {req : FetchRequest} {objects : Dir (List Record)} {seg : SegmentEntry}
    {hwm : Int} {inFlight : Bool} {records : List Record}
    (found : objects[seg.baseOffset]? = some records) :
    Fetcher.segmentRead req objects seg hwm inFlight =
      .done (.ok ⟨Fetcher.selected req records, hwm⟩) := by
  simp only [Fetcher.segmentRead, found]

/-- Only a missing segment object makes a fetch that gets its answers fail so. -/
theorem advance_fails {w : PartitionWriter} {st : Store} {f : Fetch}
    (busy : ∀ result, f.phase ≠ .done result)
    (failed : Fetcher.advance w st f = .done (.error .brokerNotReady)) :
    ∃ seg hwm inFlight, f.phase = .readSegment seg hwm inFlight ∧ st.objects[seg.baseOffset]? = none := by
  cases phase : f.phase with
  | readSegment seg hwm flag =>
    simp only [Fetcher.advance, phase, Fetcher.segmentRead] at failed
    split at failed
    next missing => exact ⟨seg, hwm, flag, rfl, missing⟩
    · cases failed
  | readManifest flag =>
    simp only [Fetcher.advance, phase, Fetcher.manifestRead] at failed
    split at failed
    · cases flag <;> cases failed
    · cases failed
  | locate =>
    simp only [Fetcher.advance, phase, Fetcher.located] at failed
    split at failed <;> first | cases failed | (split at failed <;> cases failed)
  | relocate =>
    simp only [Fetcher.advance, phase, Fetcher.relocated] at failed
    split at failed <;> cases failed
  | waiting | readActive =>
    simp only [Fetcher.advance, phase] at failed
    cases failed
  | done result => exact absurd phase (busy result)

/-- The two reads themselves do no harm: an entry of the manifest has its object, and an object
that is there is answered with. -/
theorem fetch_unharmed (inv : ReadInvariant s) (unharmed : Unharmed s)
    (taken : joint env .fetch s = some next) : Unharmed next := by
  obtain ⟨l, f, live, fetching, same, ⟨stopped, moved⟩ | ⟨busy, _, moved⟩⟩ :=
    Fetching.fetch_step_cases taken
  · refine ⟨fun g seg hwm inFlight now reading => ?_, fun _ _ _ => ⟨l, same ▸ live, stopped⟩⟩
    rw [moved] at now
    obtain rfl := Option.some.inj now
    cases reading
  · constructor
    · intro g seg hwm inFlight now reading
      rw [moved] at now
      obtain rfl := Option.some.inj now
      rw [same]
      obtain ⟨_, found⟩ := Fetching.advance_picks reading
      obtain ⟨member, low, high⟩ := Fetching.segmentForOffset_mem found
      obtain ⟨records, object⟩ := inv.shelf.present seg member
      exact ⟨low, high, records, object, segmentRead_present object⟩
    · intro g now failed
      rw [moved] at now
      obtain rfl := Option.some.inj now
      obtain ⟨seg, hwm, inFlight, reading, missing⟩ := advance_fails busy failed
      obtain ⟨_, _, records, object, _⟩ := unharmed.held f seg hwm inFlight fetching reading
      rw [missing] at object
      cases object

theorem begin_unharmed {req : FetchRequest} (taken : joint env (.begin req) s = some next) :
    Unharmed next := by
  constructor
  · intro f seg hwm inFlight now reading
    obtain rfl := Fetching.begin_fetch taken now
    simp only [Fetcher.start] at reading
    split at reading <;> cases reading
  · intro f now failed
    obtain rfl := Fetching.begin_fetch taken now
    simp only [Fetcher.start] at failed
    split at failed <;> cases failed

/-- The fetch after a step of the partition is the one before it, and so is its partition's life. -/
theorem partition_fetch {action : Partition.Action} {f : Fetch} (inv : ReadInvariant s)
    (taken : joint env (.partition action) s = some next) (now : next.fetch = some f) :
    s.fetch = some f ∧ Partition.step env action s.partition = some next.partition ∧
      ∃ l l', s.partition.live = some l ∧ next.partition.live = some l' := by
  obtain ⟨after, stepped, rfl⟩ := Option.map_eq_some_iff.mp taken
  dsimp only at now ⊢
  split at now
  next running =>
    obtain ⟨l, live⟩ := Option.isSome_iff_exists.mp (inv.alive (by simp [now]))
    obtain ⟨l', later⟩ := Option.isSome_iff_exists.mp running
    exact ⟨now, stepped, l, l', live, later⟩
  · cases now

theorem partition_unharmed_iff (inv : ReadInvariant s) (unharmed : Unharmed s)
    {action : Partition.Action} (taken : joint env (.partition action) s = some next) :
    Unharmed next ↔ Spares s (.partition action) := by
  constructor
  · intro after
    cases action with
    | uploader now =>
      intro l f gone rest seg hwm inFlight live fetching deleting reading
      obtain ⟨moved, stepped, rfl⟩ := Option.map_eq_some_iff.mp taken
      have running : moved.live.isSome := by
        simp only [Partition.step, live, liveStep, uploaderStep] at stepped
        obtain ⟨effect, _, rfl⟩ := Option.map_eq_some_iff.mp stepped
        rfl
      obtain ⟨_, _, before, object, _⟩ := unharmed.held f seg hwm inFlight fetching reading
      have kept := after.held f seg hwm inFlight (by simp [running, fetching]) reading
      obtain ⟨_, _, records, found, _⟩ := kept
      exact (step_keeps_object live stepped ⟨before, object⟩).mp ⟨records, found⟩ gone rest ⟨now, rfl⟩
        deleting
    | _ => trivial
  · intro spares
    constructor
    · intro f seg hwm inFlight now reading
      obtain ⟨fetching, stepped, l, _, live, _⟩ := partition_fetch inv taken now
      obtain ⟨low, high, before, object, _⟩ := unharmed.held f seg hwm inFlight fetching reading
      obtain ⟨records, found⟩ := (step_keeps_object live stepped ⟨before, object⟩).mpr (by
        rintro gone rest ⟨at', rfl⟩ deleting
        exact spares l f gone rest seg hwm inFlight live fetching deleting reading)
      exact ⟨low, high, records, found, segmentRead_present found⟩
    · intro f now failed
      obtain ⟨fetching, stepped, l, l', live, later⟩ := partition_fetch inv taken now
      obtain ⟨_, same, stopped⟩ := unharmed.answered f fetching failed
      obtain rfl := Option.some.inj (live.symm.trans same)
      simp only [Partition.step, live] at stepped
      exact ⟨l', later, ((Broker.liveStep_move stepped later).gone stopped).1⟩

/-- Along every run without store failures, a fetch can read the segment it has picked, and fails
only when the writer is gone, if and only if the uploader never deletes a segment between the two
reads of a fetch that has picked it. -/
theorem unharmed_iff_spared (env : Externals) (schedule : List Fetcher.Action) :
    (Fetcher.machine env).Throughout Unharmed schedule ⟨Partition.fresh, none⟩ ↔
      (Fetcher.machine env).Along Spares schedule ⟨Partition.fresh, none⟩ := by
  have preserved (s : Fetcher.State) (action : Fetcher.Action) (next : Fetcher.State)
      (inv : ReadInvariant s) (_ : True) (taken : (Fetcher.machine env).step action s = some next) :
      ReadInvariant next := inv.step taken
  have fresh : ReadInvariant ⟨Partition.fresh, none⟩ :=
    ⟨⟨by simp [Partition.fresh, Manifest.empty], by simp [Partition.fresh, Manifest.empty],
      by simp [uploaderPhase, Partition.fresh], by simp [uploaderPhase, Partition.fresh]⟩, by simp⟩
  have idle : Unharmed ⟨Partition.fresh, none⟩ :=
    ⟨fun _ _ _ _ begun => (by cases begun), fun _ begun => (by cases begun)⟩
  refine Machine.throughout_iff_along preserved ?_ ?_ fresh idle (Machine.along_true _ _)
  · intro s action disabled
    cases action with
    | partition action =>
      cases action with
      | uploader now =>
        intro l f gone rest seg hwm inFlight live fetching deleting reading
        simp [Fetcher.machine, joint, Partition.step, live, liveStep, uploaderStep, Uploader.step,
          deleting] at disabled
      | _ => trivial
    | _ => trivial
  · intro s action next inv _ unharmed taken
    cases action with
    | partition action => exact partition_unharmed_iff inv unharmed taken
    | fetch =>
      have stepped : joint env .fetch s = some next := taken
      exact iff_of_true (fetch_unharmed inv unharmed stepped) trivial
    | begin req =>
      have stepped : joint env (.begin req) s = some next := taken
      exact iff_of_true (begin_unharmed stepped) trivial

/-- Two uploads under a size cap of one segment. A fetch reads the manifest before the second
pass rewrites it, and the segment after that pass has deleted it. -/
def overtakenFetch : List Fetcher.Action :=
  ([.start { settings with retentionBytes := 100 }, .openWriter] ++ produceOne 1 ++ produceOne 2 ++
      handOver ++ upload ++ [.segmentDurable] ++ produceOne 3 ++ produceOne 4 ++ handOver ++
      List.replicate 4 (.uploader 0) : List Partition.Action).map .partition ++
    [.begin ⟨0, 10, 0⟩, .fetch, .fetch, .partition (.uploader 0), .partition (.uploader 0), .fetch]

theorem overtakenFetch_fails : ¬ (Fetcher.machine externals).Throughout Unharmed overtakenFetch
    ⟨Partition.fresh, none⟩ := by
  have runs : ((Fetcher.machine externals).execute overtakenFetch ⟨Partition.fresh, none⟩).any (fun s =>
      s.fetch.any (fun f => decide (f.phase = .done (.error .brokerNotReady))) &&
        s.partition.live.any (fun l => decide (l.writer.phase = .recv))) = true := by
    decide +kernel
  intro always
  obtain ⟨s, ran, facts⟩ := Option.any_eq_true _ _ |>.mp runs
  obtain ⟨fails, runs⟩ := Bool.and_eq_true_iff.mp facts
  obtain ⟨f, fetching, failed⟩ := Option.any_eq_true _ _ |>.mp fails
  obtain ⟨l, live, running⟩ := Option.any_eq_true _ _ |>.mp runs
  obtain ⟨_, same, stopped⟩ := (always.final ran).answered f fetching (of_decide_eq_true failed)
  obtain rfl := Option.some.inj (live.symm.trans same)
  rw [of_decide_eq_true running] at stopped
  cases stopped

end Runs

end Kafkrs.EvictedRead
