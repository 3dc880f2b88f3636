import Kafkrs.Handover
import Kafkrs.OldHandle
import Mathlib.Data.List.TakeWhile

/-! The two-stage shutdown of a deletion: when the writer and then the uploader of a partition
have acknowledged it, whatever the partition has acknowledged is stored, and its store stays as
it is. -/
namespace Kafkrs.Handover

open Lib Recovery Pipeline Kafkrs.Partition Refinement
open Kafkrs.Lifecycle (Stored)
open Kafkrs.Faults (settled settled_of insert_same openFailed storeStep)

def inHand (store : Store) (u : Uploader) : List SealedBatch :=
  uploading (settled store u.phase) ++ queued u.rx

structure Desk (store : Store) (u : Uploader) : Prop where
  uploads : ∀ batch ∈ uploading u.phase ++ queued u.rx, Sealed batch
  staged : ∀ batch, u.phase = .putManifest batch →
    store.objects[batch.baseOffset]? = some batch.records
  doomed : ∀ evict, u.phase = .delete evict → ∀ seg ∈ evict, store.manifest.lists seg.baseOffset = false
  retrying : ∀ batch ∈ uploading u.phase, store.manifest.lists batch.baseOffset = true →
    store.objects[batch.baseOffset]? = some batch.records

section Desk

variable {segmentSize : List Record → Nat} {now : Int} {outcome : Outcome} {u : Uploader}
  {store : Store} {effect : Uploader.Effect}

theorem Desk.idle {phase : Uploader.Phase} (desk : Desk store u) {rx : List UploaderMsg}
    (fewer : ∀ batch ∈ queued rx, batch ∈ queued u.rx) {cfg : ResolvedTopicConfig} {after : Store}
    (rest : uploading phase = [])
    (doomed : ∀ evict, phase = .delete evict → ∀ seg ∈ evict, after.manifest.lists seg.baseOffset = false) :
    Desk after ⟨cfg, rx, phase⟩ where
  uploads := fun batch member => by
    rw [rest, List.nil_append] at member
    exact desk.uploads batch (List.mem_append_right _ (fewer batch member))
  staged := by
    rintro batch rfl
    simp [uploading] at rest
  doomed := doomed
  retrying := by simp [rest]

/-- An uploader keeps its desk in order, however its store calls end. -/
theorem Desk.step (desk : Desk store u) (ordered : store.manifest.Ordered)
    (unlisted : ∀ batch ∈ inHand store u, store.manifest.lists batch.baseOffset = false)
    (stepped : u.step segmentSize now outcome store = some effect) :
    Desk effect.store effect.uploader := by
  have all (batch : SealedBatch) (member : batch ∈ queued u.rx) : batch ∈ queued u.rx := member
  cases Uploader.step_moved stepped with
  | @upload batch rest idle shape =>
    have fresh := unlisted batch (by simp [inHand, shape])
    refine ⟨fun other member => desk.uploads other ?_, by simp, by simp, fun other busy listed => ?_⟩
    · simpa [idle, shape, uploading] using member
    · obtain rfl : other = batch := by simpa [uploading] using busy
      rw [fresh] at listed
      cases listed
  | retentionKick idle shape | shutdown idle shape =>
    exact desk.idle (by simp [shape]) (by simp [uploading]) (by simp)
  | updateConfig idle shape => exact desk.idle (by simp [shape]) (by simp [idle, uploading]) (by simp [idle])
  | @putSegment batch phase =>
    have uploads := desk.uploads
    have retrying := desk.retrying
    rw [phase] at uploads retrying
    refine ⟨?_, fun other same => ?_, ?_, fun other busy listed => ?_⟩
    · dsimp only
      split <;> exact uploads
    · dsimp only at same
      split at same
      next ok =>
        obtain rfl := Uploader.Phase.putManifest.inj same
        simp [ok, Outcome.applied]
      next => cases same
    · dsimp only
      split <;> simp
    · obtain rfl : other = batch := by
        dsimp only at busy
        split at busy <;> simpa [uploading] using busy
      dsimp only at listed ⊢
      split
      next => simp
      next unapplied =>
        rw [if_neg unapplied] at listed
        exact retrying other (by simp [uploading]) listed
  | @putManifest batch phase =>
    have object := desk.staged batch phase
    have uploads := desk.uploads
    rw [phase] at uploads
    cases outcome with
    | ok => exact desk.idle all rfl (by simp)
    | failed applied =>
      refine ⟨uploads, by simp, by simp, fun other busy _ => ?_⟩
      obtain rfl : other = batch := by simpa [uploading] using busy
      dsimp only
      split <;> exact object
  | notify | spare | deleted => exact desk.idle all rfl (by simp)
  | evict _ chosen =>
    cases outcome with
    | ok =>
      refine desk.idle all rfl fun evict same seg member => ?_
      obtain rfl := Uploader.Phase.delete.inj same
      subst chosen
      exact Lifecycle.evicted_unlisted ordered member
    | failed applied => exact desk.idle all rfl (by simp)
  | delete phase =>
    have doomed := desk.doomed _ phase
    refine desk.idle all rfl fun evict same other member => ?_
    obtain rfl := Uploader.Phase.delete.inj same
    dsimp only
    split <;> exact doomed other (List.mem_cons_of_mem _ member)

/-- What the belt sees of a step of the uploader; `behind` are the batches not sent to it yet. -/
theorem Desk.moves (desk : Desk store u) {b : Belt} (here : b.store = store)
    {behind : List (Int × List Record)} (backlog : b.backlog = (inHand store u).map segment ++ behind)
    (unlisted : ∀ batch ∈ inHand store u, store.manifest.lists batch.baseOffset = false)
    (stepped : u.step segmentSize now outcome store = some effect) :
    Move segmentSize b
      { b with
        store := effect.store
        evicted := b.evicted ++ evictedRecords store effect.evicted
        backlog := (inHand effect.store effect.uploader).map segment ++ behind } := by
  subst here
  -- A step that changes neither the store nor what is in hand.
  have idle (same : effect.store = b.store) (none : effect.evicted = [])
      (kept : inHand b.store effect.uploader = inHand b.store u) : Move segmentSize b
        { b with
          store := effect.store
          evicted := b.evicted ++ evictedRecords b.store effect.evicted
          backlog := (inHand effect.store effect.uploader).map segment ++ behind } := by
    rw [same, none, kept, ← backlog]
    simpa [evictedRecords] using Move.idle b
  cases Uploader.step_moved stepped with
  | @upload batch rest phase shape =>
    have fresh := unlisted batch (by simp [inHand, shape])
    exact idle rfl rfl (by simp [inHand, settled, phase, shape, fresh, uploading])
  | retentionKick phase shape | updateConfig phase shape | shutdown phase shape =>
    exact idle rfl rfl (by simp [inHand, settled, phase, shape, uploading])
  | @putSegment batch phase =>
    by_cases listed : b.store.manifest.lists batch.baseOffset = true
    · have object := desk.retrying batch (by simp [phase, uploading]) listed
      refine idle ?_ rfl ?_
      · simp only [insert_same object, ite_self]
      · dsimp only
        split <;> simp [inHand, settled, phase, listed]
    · by_cases applied : outcome.applied = true
      · have oldest : b.backlog =
            (batch.baseOffset, batch.records) :: ((queued u.rx).map segment ++ behind) := by
          simp [backlog, inHand, settled, phase, listed, uploading, Refinement.segment]
        convert Move.put oldest using 1
        simp only [applied, if_true, evictedRecords, List.flatMap_nil, List.append_nil, oldest]
        split <;> simp [inHand, settled, listed, uploading, Refinement.segment]
      · refine idle (by simp [applied]) rfl ?_
        dsimp only
        split <;> simp [inHand, settled, phase, listed, uploading]
  | @putManifest batch phase =>
    by_cases listed : b.store.manifest.lists batch.baseOffset = true
    · refine idle (by simp [listed]) rfl ?_
      dsimp only
      split <;> simp [inHand, settled, phase, listed]
    · by_cases applied : outcome.applied = true
      · obtain ⟨first, rest, shape⟩ := desk.uploads batch (by simp [phase, uploading])
        have records : batch.records = first :: rest := by rw [shape]; rfl
        have oldest : b.backlog =
            (batch.baseOffset, first :: rest) :: ((queued u.rx).map segment ++ behind) := by
          simp [backlog, inHand, settled, phase, listed, uploading, Refinement.segment, records]
        have staged := desk.staged batch phase
        rw [records] at staged
        have added : (b.store.manifest.add (Uploader.entry segmentSize batch)).lists
            batch.baseOffset = true := Lifecycle.lists_add.mpr (.inr rfl)
        convert Move.list oldest staged using 1
        simp only [applied, listed, and_self, if_true, evictedRecords, List.flatMap_nil,
          List.append_nil, ← shape]
        split <;> simp [inHand, settled, added, uploading]
      · refine idle (by simp [applied]) rfl ?_
        have failed : outcome ≠ .ok := by
          rintro rfl
          exact applied rfl
        simp [inHand, settled, phase, listed, uploading, failed]
  | notify phase | spare phase | deleted phase =>
    exact idle rfl rfl (by simp [inHand, settled, phase, uploading])
  | evict phase chosen =>
    subst chosen
    have rest : inHand b.store u = queued u.rx := by simp [inHand, settled, phase, uploading]
    by_cases applied : outcome.applied = true
    · convert Move.evict u.cfg now using 1
      rw [rest] at backlog
      simp only [applied, if_true, backlog]
      split <;> simp [inHand, settled, uploading]
    · refine idle (by simp [applied]) (by simp [applied]) ?_
      rw [rest]
      dsimp only
      split <;> simp [inHand, settled, uploading]
  | delete phase =>
    have rest : inHand b.store u = queued u.rx := by simp [inHand, settled, phase, uploading]
    by_cases applied : outcome.applied = true
    · have doomed := desk.doomed _ phase _ List.mem_cons_self
      convert Move.delete doomed using 1
      rw [rest] at backlog
      simp [applied, backlog, evictedRecords, inHand, settled, uploading]
    · exact idle (by simp [applied]) rfl (by rw [rest]; simp [inHand, settled, uploading])

end Desk

section Shutdown

def fromShutdown (rx : List UploaderMsg) : List UploaderMsg :=
  rx.dropWhile (fun msg => decide (msg ≠ .control .shutdown))

theorem fromShutdown_absent {rx : List UploaderMsg} (absent : .control .shutdown ∉ rx) : fromShutdown rx = [] := by
  refine List.dropWhile_eq_nil_iff.mpr fun msg member => ?_
  simp only [decide_eq_true_eq]
  rintro rfl
  exact absent member

theorem queued_fromShutdown_control {rx : List UploaderMsg} (behind : queued (fromShutdown rx) = [])
    (msg : ControlMsg) : queued (fromShutdown (rx ++ [.control msg])) = [] := by
  rw [fromShutdown, List.dropWhile_append]
  split
  · cases msg <;> simp
  · rw [queued_append, ← fromShutdown, behind]
    rfl

/-- What a live writer keeps, whichever file it writes to. -/
structure Writing (w : PartitionWriter) : Prop where
  handed : ∀ batch ∈ handing w.phase, Sealed batch
  committed : w.phase ≠ .recv → w.phase ≠ .commit → w.pending = []
  sealedOff : between w.phase = true → w.active = []
  pending : Numbered Record.offset (w.nextOffset - w.pending.length) w.pending
  emptied : w.phase = .stopped → w.active = []

/-- The uploader hears of a shutdown after the writer has answered its own, and no batch is
behind it in the channel. -/
structure Ending (l : Live) : Prop where
  told : .control .shutdown ∈ l.uploader.rx ∨ l.uploader.phase = .stopped → l.writer.phase = .stopped
  behind : queued (fromShutdown l.uploader.rx) = []
  drained : l.uploader.phase = .stopped → queued l.uploader.rx = []

def belt (store : Store) (history : History) (l : Live) : Belt :=
  { store := store
    evicted := history.evicted
    acked := history.acked
    backlog := (inHand store l.uploader).map segment ++ (l.orphans ++ (handing l.writer.phase).map segment)
    active := l.writer.active
    next := l.writer.nextOffset - l.writer.pending.length }

structure Working (store : Store) (history : History) (l : Live) : Prop where
  sound : (belt store history l).Sound
  desk : Desk store l.uploader
  orphans : l.writer.phase ≠ .starting → l.orphans = []
  writing : Writing l.writer
  ending : Ending l

def TwoStage (s : State) : Faults.Action → Prop
  | .step (.crash _) => False
  | .step (.enqueue .shutdown) => ∀ l ∈ s.live, l.writer.phase = .stopped
  | _ => True

variable {env : Externals} {store : Store} {history : History} {l : Live}

theorem Working.unlisted (working : Working store history l) {batch : SealedBatch}
    (member : batch ∈ inHand store l.uploader) : store.manifest.lists batch.baseOffset = false :=
  working.sound.unlisted (segment batch) (List.mem_append_left _ (List.mem_map_of_mem member))

/-- Nothing but a shutdown stops a writer, and a stopped one stays stopped. -/
theorem Ending.running (ending : Ending l) (busy : l.writer.phase ≠ .stopped) :
    .control .shutdown ∉ l.uploader.rx ∧ l.uploader.phase ≠ .stopped :=
  ⟨fun member => busy (ending.told (.inl member)), fun stopped => busy (ending.told (.inr stopped))⟩

/-- A step inside the writer. -/
theorem Working.writer (working : Working store history l) {w : PartitionWriter} (writing : Writing w)
    (active : w.active = l.writer.active)
    (free : w.nextOffset - w.pending.length = l.writer.nextOffset - l.writer.pending.length)
    (handed : handing w.phase = handing l.writer.phase) (orphans : w.phase ≠ .starting → l.orphans = [])
    (busy : l.writer.phase ≠ .stopped) (durable : List Int) :
    Working store history { l with writer := w, durable := durable } where
  sound := by simpa only [belt, active, free, handed] using working.sound
  desk := working.desk
  orphans := orphans
  writing := writing
  ending :=
    { working.ending with told := fun heard => absurd (working.ending.told heard) busy }

/-- The uploader is sent a batch, the oldest of those that wait. -/
theorem Working.upload (working : Working store history l) {batch : SealedBatch} {w : PartitionWriter}
    {orphans : List (Int × List Record)} (good : Sealed batch) (writing : Writing w)
    (waiting : l.orphans ++ (handing l.writer.phase).map segment =
      segment batch :: (orphans ++ (handing w.phase).map segment))
    (active : w.active = l.writer.active)
    (free : w.nextOffset - w.pending.length = l.writer.nextOffset - l.writer.pending.length)
    (none : w.phase ≠ .starting → orphans = []) (busy : l.writer.phase ≠ .stopped) :
    Working store history { l with
      writer := w
      orphans := orphans
      uploader := { l.uploader with rx := l.uploader.rx ++ [.upload batch] } } where
  sound := by
    have sound := working.sound
    simp only [belt, waiting] at sound
    simpa [belt, inHand, active, free] using sound
  desk := by
    refine ⟨fun other member => ?_, working.desk.staged, working.desk.doomed, working.desk.retrying⟩
    simp only [queued_append, queued_upload, queued_nil, ← List.append_assoc] at member
    rcases List.mem_append.mp member with old | new
    · exact working.desk.uploads other old
    · rw [List.mem_singleton.mp new]
      exact good
  orphans := none
  writing := writing
  ending := by
    obtain ⟨absent, running⟩ := working.ending.running busy
    refine ⟨fun heard => ?_, ?_, fun stopped => absurd stopped running⟩
    · rcases heard with member | stopped
      · exact absurd (by simpa using member) absent
      · exact absurd stopped running
    · rw [fromShutdown_absent (by simpa using absent)]
      rfl

section Writer

variable {w w' : PartitionWriter}

/-- A handler that only changes where the writer is. -/
theorem Writing.goto (writing : Writing w) {phase : PartitionWriter.Phase}
    (plain : handing phase = [] ∧ between phase = false)
    (committed : phase ≠ .recv → phase ≠ .commit → w.pending = [])
    (emptied : phase = .stopped → w.active = []) : Writing { w with phase := phase } where
  handed := by simp [plain.1]
  committed := committed
  sealedOff := by simp [plain.2]
  pending := writing.pending
  emptied := emptied

theorem Writing.receive (writing : Writing w) {records : List IncomingRecord} {now : Nat → Int64}
    (stored : w.onProduce records now = some w') : Writing w' ∧ w'.active = w.active ∧
      handing w'.phase = [] ∧ w'.phase ≠ .starting ∧
      w'.nextOffset - w'.pending.length = w.nextOffset - w.pending.length := by
  obtain ⟨_, phase, goes, rfl⟩ := PartitionWriter.onProduce_some stored
  have more := PartitionWriter.stamp_numbered now w.nextOffset records
  have length := PartitionWriter.stamp_length now w.nextOffset records
  have free : w.nextOffset + records.length -
      (w.pending ++ PartitionWriter.stamp now w.nextOffset records).length =
        w.nextOffset - w.pending.length := by
    rw [List.length_append, length]
    push_cast
    omega
  have numbered : Numbered Record.offset (w.nextOffset - w.pending.length)
      (w.pending ++ PartitionWriter.stamp now w.nextOffset records) := by
    refine Numbered.append_iff.mpr ⟨writing.pending, ?_⟩
    rwa [Int.sub_add_cancel]
  have quiet : handing phase = [] ∧ between phase = false ∧ phase ≠ .starting ∧ phase ≠ .stopped := by
    rcases goes with rfl | rfl <;> simp [handing, between]
  obtain ⟨handed, closed, started, running⟩ := quiet
  refine ⟨⟨?_, ?_, ?_, ?_, ?_⟩, rfl, handed, started, free⟩
  · simp [handed]
  · rcases goes with rfl | rfl <;> simp
  · simp [closed]
  · dsimp only
    rwa [free]
  · simp [running]

theorem flushCommit_fields (w : PartitionWriter) : w.flushCommit.active = w.active ++ w.pending ∧
    w.flushCommit.pending = [] ∧ w.flushCommit.nextOffset = w.nextOffset ∧
    (w.flushCommit.phase = .seal ∨ w.flushCommit.phase = .recv) := by
  unfold PartitionWriter.flushCommit
  split
  next empty =>
    have none := List.isEmpty_iff.mp empty
    refine ⟨by simp [none], none, rfl, ?_⟩
    dsimp only
    split <;> simp
  next =>
    refine ⟨rfl, rfl, rfl, ?_⟩
    dsimp only
    split <;> simp

theorem resume_plain (w : PartitionWriter) : handing w.resume = [] ∧ between w.resume = false ∧
    w.resume ≠ .starting := by
  unfold PartitionWriter.resume
  split <;> simp [handing, between]

end Writer

section Steps

/-- A group commit. -/
theorem Working.commit (working : Working store history l) (phase : l.writer.phase = .commit) :
    Working store
      { history with
        acked := history.acked ++ l.writer.pending
        log := history.log ++ l.writer.pending }
      { l with writer := l.writer.flushCommit } := by
  obtain ⟨active, pending, same, after⟩ := flushCommit_fields l.writer
  have appended := working.sound.append working.writing.pending
  refine ⟨?_, working.desk, fun _ => working.orphans (by simp [phase]), ⟨?_, fun _ _ => pending, ?_, ?_, ?_⟩,
    { working.ending with told := fun heard => absurd (working.ending.told heard) (by simp [phase]) }⟩
  · have none : handing l.writer.flushCommit.phase = handing l.writer.phase := by
      rcases after with there | there <;> rw [there, phase] <;> rfl
    convert appended using 1
    simp [belt, active, pending, same, none]
  · rcases after with there | there <;> simp [there, handing]
  · rcases after with there | there <;> simp [there, between]
  · rw [pending]
    trivial
  · rcases after with there | there <;> simp [there]

theorem Working.sealActive (working : Working store history l) (phase : l.writer.phase = .seal) :
    Working store history { l with writer := l.writer.sealActive } := by
  have none := working.writing.committed (by simp [phase]) (by simp [phase])
  have orphans := working.orphans (by simp [phase])
  cases active : l.writer.active with
  | nil =>
    have stays : l.writer.sealActive = { l.writer with phase := l.writer.resume } := by
      simp [PartitionWriter.sealActive, active]
    obtain ⟨handed, closed, started⟩ := resume_plain l.writer
    rw [stays]
    refine working.writer (working.writing.goto ⟨handed, closed⟩ (fun _ _ => none) fun _ => active) rfl rfl
      (handed.trans (by rw [phase]; rfl)) (fun _ => orphans) (by simp [phase]) l.durable
  | cons first rest =>
    have after : l.writer.sealActive =
        { l.writer with
          active := [], activeBytes := 0
          inFlight := l.writer.inFlight.insert first.offset (first :: rest)
          phase := .handoff (SealedBatch.ofRecords first.offset first rest) } := by
      simp [PartitionWriter.sealActive, active]
    have moved := working.sound.sealActive active
    rw [after]
    refine ⟨?_, working.desk, fun _ => orphans, ⟨?_, fun _ _ => none, fun _ => rfl, ?_, by simp⟩,
      { working.ending with told := fun heard => absurd (working.ending.told heard) (by simp [phase]) }⟩
    · convert moved using 1
      simp [belt, orphans, phase, handing]
    · intro batch member
      rw [List.mem_singleton.mp member]
      exact ⟨first, rest, rfl⟩
    · rw [none]
      trivial

/-- A control message is put behind whatever waits. -/
theorem Working.enqueue (working : Working store history l) {msg : ControlMsg}
    (stopped : msg = .shutdown → l.writer.phase = .stopped) :
    Working store history { l with uploader := { l.uploader with rx := l.uploader.rx ++ [.control msg] } } where
  sound := by simpa [belt, inHand] using working.sound
  desk := ⟨by simpa using working.desk.uploads, working.desk.staged, working.desk.doomed, working.desk.retrying⟩
  orphans := working.orphans
  writing := working.writing
  ending := by
    refine ⟨fun heard => ?_, queued_fromShutdown_control working.ending.behind msg,
      fun stopped => by simpa using working.ending.drained stopped⟩
    rcases heard with member | ended
    · rcases List.mem_append.mp member with old | new
      · exact working.ending.told (.inl old)
      · exact stopped (by simpa using (List.mem_singleton.mp new).symm)
    · exact working.ending.told (.inr ended)

theorem Ending.serve (ending : Ending l) {segmentSize : List Record → Nat} {now : Int} {outcome : Outcome}
    {store : Store} {effect : Uploader.Effect}
    (stepped : l.uploader.step segmentSize now outcome store = some effect) (durable : List Int) :
    Ending { l with uploader := effect.uploader, durable := durable } := by
  -- Any step that leaves the uploader running.
  have busy (fewer : .control .shutdown ∈ effect.uploader.rx → .control .shutdown ∈ l.uploader.rx)
      (behind : queued (fromShutdown effect.uploader.rx) = []) (runs : effect.uploader.phase ≠ .stopped) :
      Ending { l with uploader := effect.uploader, durable := durable } := by
    refine ⟨fun heard => ?_, behind, fun stopped => absurd stopped runs⟩
    rcases heard with member | stopped
    · exact ending.told (.inl (fewer member))
    · exact absurd stopped runs
  have behind := ending.behind
  cases Uploader.step_moved stepped with
  | upload _ shape | retentionKick _ shape =>
    rw [shape] at behind
    exact busy (by simp [shape]) (by simpa [fromShutdown] using behind) (by simp)
  | updateConfig idle shape =>
    rw [shape] at behind
    exact busy (by simp [shape]) (by simpa [fromShutdown] using behind) (by simp [idle])
  | @shutdown rest _ shape =>
    rw [shape] at behind
    have none : queued rest = [] := by simpa [fromShutdown] using behind
    refine ⟨fun _ => ending.told (.inl (by simp [shape])), ?_, fun _ => none⟩
    have fewer : (queued (fromShutdown rest)).Sublist (queued rest) :=
      (List.dropWhile_suffix _).sublist.filterMap _
    rw [none] at fewer
    exact List.sublist_nil.mp fewer
  | putSegment | putManifest | evict =>
    refine busy id behind ?_
    dsimp only
    split <;> simp
  | notify | spare | deleted | delete => exact busy id behind (by simp)

variable {s next : State}

theorem Working.serve (working : Working s.disk.store s.history l) {now : Int} {outcome : Outcome}
    (taken : storeStep env now outcome s l = some next) :
    ∃ l', next.live = some l' ∧ Working next.disk.store next.history l' := by
  obtain ⟨effect, stepped, rfl⟩ := Option.map_eq_some_iff.mp taken
  have unlisted (batch : SealedBatch) (member : batch ∈ inHand s.disk.store l.uploader) :=
    working.unlisted member
  have moves := working.desk.moves (b := belt s.disk.store s.history l) rfl rfl unlisted stepped
  exact ⟨_, rfl, working.sound.move moves, working.desk.step working.sound.ordered unlisted stepped,
    working.orphans, working.writing, working.ending.serve stepped _⟩

theorem Working.step {action : Faults.Action} (working : Working s.disk.store s.history l) (live : s.live = some l)
    (guarded : TwoStage s action) (taken : Faults.step env action s = some next) :
    ∃ l', next.live = some l' ∧ Working next.disk.store next.history l' := by
  have writing := working.writing
  cases action with
  | uploader now outcome =>
    simp only [Faults.step, live, Option.bind_some] at taken
    exact working.serve taken
  | openFails =>
    simp only [Faults.step, live, Option.bind_some] at taken
    split at taken
    next phase =>
      cases taken
      have sealedOff := writing.sealedOff (by simp [phase, between])
      have committed := writing.committed (by simp [phase]) (by simp [phase])
      obtain ⟨handed, closed, started⟩ := resume_plain l.writer
      have after : Writing (openFailed l.writer) := by
        have moved := writing.goto ⟨handed, closed⟩ (fun _ _ => committed) fun _ => sealedOff
        exact ⟨moved.handed, moved.committed, moved.sealedOff, moved.pending, moved.emptied⟩
      exact ⟨_, rfl, working.writer after rfl rfl (handed.trans (by rw [phase]; rfl))
        (fun _ => working.orphans (by simp [phase])) (by simp [phase]) l.durable⟩
    next => cases taken
  | step action =>
    by_cases served : ∃ now, action = .uploader now
    · obtain ⟨now, rfl⟩ := served
      rw [Faults.step_uploader] at taken
      simp only [Faults.step, live, Option.bind_some] at taken
      exact working.serve taken
    simp only [Faults.step, Partition.step, live] at taken
    -- What every handler that returns to the `select!` without touching a batch leaves.
    have ready (phase : l.writer.phase = .recv) : l.orphans = [] ∧ handing l.writer.phase = [] ∧
        l.writer.phase ≠ .stopped :=
      ⟨working.orphans (by simp [phase]), by simp [phase, handing], by simp [phase]⟩
    cases liveStep_moved taken with
    | sendOrphan first made =>
      obtain ⟨base, record, records, rfl, rfl⟩ := orphanBatch_some made
      have starting : l.writer.phase = .starting := by
        by_contra other
        simp [working.orphans other] at first
      exact ⟨_, rfl, working.upload ⟨record, records, rfl⟩ writing (by simp [first]) rfl rfl
        (fun other => absurd starting other) (by simp [starting])⟩
    | openWriter starting sent =>
      have after : Writing { l.writer with phase := .recv } := writing.goto ⟨rfl, rfl⟩ (by simp) (by simp)
      exact ⟨_, rfl, working.writer after rfl rfl (by simp [starting, handing]) (fun _ => sent)
        (by simp [starting]) l.durable⟩
    | produce phase filled stored =>
      obtain ⟨orphans, none, busy⟩ := ready phase
      obtain ⟨after, active, handed, started, free⟩ := writing.receive stored
      exact ⟨_, rfl, working.writer after active free (handed.trans none.symm) (fun _ => orphans) busy
        l.durable⟩
    | commitTimeout phase waiting =>
      obtain ⟨orphans, none, busy⟩ := ready phase
      have after : Writing { l.writer with phase := .commit } := writing.goto ⟨rfl, rfl⟩ (by simp) (by simp)
      exact ⟨_, rfl, working.writer after rfl rfl none.symm (fun _ => orphans) busy l.durable⟩
    | updateWriter phase =>
      rename_i cfg
      obtain ⟨orphans, _, busy⟩ := ready phase
      have after : Writing { l.writer with cfg := cfg } :=
        ⟨writing.handed, writing.committed, writing.sealedOff, writing.pending, writing.emptied⟩
      exact ⟨_, rfl, working.writer after rfl rfl rfl (fun _ => orphans) busy l.durable⟩
    | segmentDurable first phase =>
      rename_i base rest
      obtain ⟨orphans, _, busy⟩ := ready phase
      have after : Writing (l.writer.onDurable base) :=
        ⟨writing.handed, writing.committed, writing.sealedOff, writing.pending, writing.emptied⟩
      exact ⟨_, rfl, working.writer after rfl rfl rfl (fun _ => orphans) busy rest⟩
    | shutdownWriter phase =>
      obtain ⟨orphans, none, busy⟩ := ready phase
      have after : Writing { l.writer with phase := .commit, stopping := true } :=
        ⟨by simp [handing], by simp, by simp [between], writing.pending, by simp⟩
      exact ⟨_, rfl, working.writer after rfl rfl none.symm (fun _ => orphans) busy l.durable⟩
    | commit phase => exact ⟨_, rfl, working.commit phase⟩
    | sealActive phase => exact ⟨_, rfl, working.sealActive phase⟩
    | handoff phase =>
      rename_i batch
      have none := working.orphans (by simp [phase])
      have sealedOff := writing.sealedOff (by simp [phase, between])
      have committed := writing.committed (by simp [phase]) (by simp [phase])
      have good := writing.handed batch (by simp [phase, handing])
      have after : Writing { l.writer with phase := .openNext } :=
        ⟨by simp [handing], fun _ _ => committed, fun _ => sealedOff, writing.pending, by simp⟩
      have waiting : l.orphans ++ (handing l.writer.phase).map segment =
          segment batch :: (l.orphans ++ (handing .openNext).map segment) := by
        rw [none, phase]
        rfl
      exact ⟨_, rfl, working.upload good after waiting rfl rfl (fun _ => none) (by simp [phase])⟩
    | openNext phase =>
      have sealedOff := writing.sealedOff (by simp [phase, between])
      have committed := writing.committed (by simp [phase]) (by simp [phase])
      obtain ⟨handed, closed, started⟩ := resume_plain l.writer
      have after : Writing l.writer.openNext := by
        have moved := writing.goto ⟨handed, closed⟩ (fun _ _ => committed) fun _ => sealedOff
        exact ⟨moved.handed, moved.committed, moved.sealedOff, moved.pending, moved.emptied⟩
      exact ⟨_, rfl, working.writer after rfl rfl (handed.trans (by rw [phase]; rfl))
        (fun _ => working.orphans (by simp [phase])) (by simp [phase]) l.durable⟩
    | enqueue =>
      refine ⟨_, rfl, working.enqueue ?_⟩
      rintro rfl
      exact guarded l live
    | uploader => exact absurd ⟨_, rfl⟩ served
    | crash => exact absurd guarded id

end Steps

section Recovered

variable {crc32c : Bytes → UInt32} {files : WalDir} {stored : Record → Prop} {acked : List Record}
  {v : View} {b : Belt} {base : Int}

/-- The records of a WAL file lie from its base on. -/
theorem held_above {manifest : Manifest} (durable : Durable crc32c files manifest stored acked)
    {records : List Record} (held : Holds crc32c files base records) : ∀ r ∈ records, base ≤ r.offset := by
  intro r member
  cases records with
  | nil => cases member
  | cons first rest =>
    have head := (durable.head base first rest held).1
    rcases List.mem_cons.mp member with rfl | later
    · omega
    · have := (List.pairwise_cons.mp (durable.sorted base _ held)).1 r later
      omega

/-- A belt that says what the WAL files say. -/
theorem Belt.Sound.recovered (durable : Durable crc32c files b.store.manifest stored acked)
    (running : Running crc32c files b.store.manifest stored v) (backlog : v.backlog = b.backlog)
    (active : v.active = some (base, b.active)) (free : v.nextOffset = b.next)
    (kept : ∀ r ∈ b.acked, Stored b.store b.evicted r ∨ (∃ seg ∈ b.backlog, r ∈ seg.2) ∨ r ∈ b.active) :
    b.Sound := by
  obtain ⟨unlisted, _, opened⟩ := running.active base b.active active
  have held : b.active ≠ [] → Holds crc32c files base b.active := fun filled =>
    opened.resolve_right fun closed => filled closed.2.1
  have order := running.order
  rw [backlog, active, List.append_assoc] at order
  obtain ⟨bases, _, before⟩ := List.pairwise_append.mp (List.pairwise_append.mp order).2.1
  refine
    { ordered := durable.ordered, bases := bases, filled := ?_, below := ?_, unlisted := ?_, fresh := ?_,
      sorted := ?_, bounded := ?_, listed := fun base listed => free ▸ running.listed base listed,
      acked := kept }
  · intro seg member
    obtain ⟨held, filled, _⟩ := running.backlog seg.1 seg.2 (backlog ▸ member)
    obtain ⟨first, rest, shape⟩ := List.exists_cons_of_ne_nil filled
    rw [shape] at held
    exact ⟨first, rest, shape, (durable.head seg.1 first rest held).1, durable.sorted seg.1 _ held⟩
  · intro seg member
    have inside : seg.1 ∈ b.backlog.map Prod.fst := List.mem_map_of_mem member
    refine ⟨?_, fun r later => ?_⟩
    · rw [← free]
      exact running.below seg.1 (List.mem_append_right _ (backlog ▸ inside))
    · have := before seg.1 inside base (by simp)
      have := held_above durable (held (List.ne_nil_of_mem later)) r later
      omega
  · intro seg member
    exact (running.backlog seg.1 seg.2 (backlog ▸ member)).2.2
  · intro r isHead
    cases shape : b.active with
    | nil => simp [shape] at isHead
    | cons first rest =>
      have file := held (by simp [shape])
      rw [shape] at file isHead
      obtain rfl := Option.some.inj isHead
      rw [(durable.head base first rest file).1]
      exact unlisted
  · cases shape : b.active with
    | nil => exact List.Pairwise.nil
    | cons first rest => exact durable.sorted base _ (shape ▸ held (by simp [shape]))
  · intro r member
    rw [← free]
    exact running.offsets base _ (held (List.ne_nil_of_mem member)) r member

end Recovered

section Start

open Durability

variable {s next : State} {cfg : ResolvedTopicConfig}

/-- A partition starts with all it has acknowledged in the store or in its own hands. -/
theorem Working.start (reached : (Faults.machine env).Reaches (Faults.Guarded .any) s)
    (booted : Partition.step env (.start cfg) s = some next) :
    ∃ l, next.live = some l ∧ Working next.disk.store next.history l := by
  have down := down_of_start booted
  have guarded : Faults.Guarded .any s (.step (.start cfg)) :=
    ⟨⟨trivial, trivial⟩, fun l live => by rw [down] at live; cases live⟩
  have before := (Faults.reached_mended reached).mended.valid.durable
  have after := (Faults.reached_mended (reached.next guarded booted)).mended.valid
  simp only [Partition.step, down, downStep, Option.some.injEq] at booted
  subst booted
  rw [Faults.mend_begun fun l live => by cases live; exact ⟨rfl, rfl, rfl⟩] at after
  refine ⟨_, rfl, ?_, ⟨by simp [Uploader.new, uploading], by simp [Uploader.new], by simp [Uploader.new],
    by simp [Uploader.new, uploading]⟩, fun other => absurd rfl other, ⟨by simp [PartitionWriter.new, handing],
    fun _ _ => rfl, by simp [PartitionWriter.new, between], trivial, by simp [PartitionWriter.new]⟩,
    ⟨by simp [Uploader.new], rfl, fun _ => rfl⟩⟩
  refine Belt.Sound.recovered after.durable (after.running _ rfl) (by simp [view, belt, inHand, settled, Uploader.new, uploading]) rfl rfl
    fun r member => ?_
  rcases durable_kept before member with gone | kept
  · exact .inl (.inl gone)
  · cases kept with
    | listed seg records entry object inside =>
      exact .inl (.inr ⟨_, records, Manifest.lists_iff.mpr ⟨seg, entry, rfl⟩, object, inside⟩)
    | orphan segment entry inside =>
      exact .inr (.inl ⟨segment, List.mem_append_right _ (List.mem_append_left _ entry), inside⟩)
    | active inside => exact .inr (.inr inside)

end Start

def InService (s : State) : Prop := ∃ l, s.live = some l ∧ Working s.disk.store s.history l

/-- A broker that has just started a partition, and what may happen to it from there. -/
def life (env : Externals) (s : State) : Machine State Faults.Action := ⟨s, Faults.step env⟩

theorem reached_working {s booted next : State} {cfg : ResolvedTopicConfig}
    (reached : (Faults.machine env).Reaches (Faults.Guarded .any) s)
    (start : Partition.step env (.start cfg) s = some booted)
    (lived : (life env booted).Reaches TwoStage next) : InService next := by
  have begun : InService booted := Working.start reached start
  refine lived.invariant begun fun s action next inv guarded taken => ?_
  obtain ⟨l, live, working⟩ := inv
  exact working.step live guarded taken

/-- Both actors at rest: nothing is left to hand over. -/
theorem Working.settled (working : Working store history l) (writer : l.writer.phase = .stopped)
    (uploader : l.uploader.phase = .stopped) : ∀ r ∈ history.acked, Stored store history.evicted r := by
  intro r member
  have backlog : (belt store history l).backlog = [] := by
    simp [belt, inHand, Faults.settled, uploading, uploader, working.ending.drained uploader,
      working.orphans (by simp [writer]), writer, handing]
  rcases working.sound.acked r member with stored | ⟨seg, waiting, _⟩ | active
  · exact stored
  · rw [backlog] at waiting
    cases waiting
  · have none : (belt store history l).active = [] := working.writing.emptied writer
    rw [none] at active
    cases active

def Final (store : Store) (s : State) : Prop :=
  s.disk.store = store ∧ ∃ l, s.live = some l ∧ l.uploader.phase = .stopped

/-- Only the uploader writes to the store. -/
theorem Final.step {s next : State} {action : Faults.Action} (settled : Final store s)
    (guarded : TwoStage s action) (taken : Faults.step env action s = some next) : Final store next := by
  obtain ⟨same, l, live, stopped⟩ := settled
  cases action with
  | uploader now outcome =>
    simp [Faults.step, live, storeStep, Uploader.step, stopped] at taken
  | openFails =>
    simp only [Faults.step, live, Option.bind_some] at taken
    split at taken
    · cases taken
      exact ⟨same, _, rfl, stopped⟩
    · cases taken
  | step action =>
    simp only [Faults.step, Partition.step, live] at taken
    cases liveStep_moved taken with
    | uploader stepped => simp [Uploader.step, stopped] at stepped
    | crash => exact absurd guarded id
    | _ => exact ⟨same, _, rfl, stopped⟩

/-- However produces, kicks, updates, completions and failing calls come between the two
shutdowns of a partition, once both are acknowledged every record the partition has ever
acknowledged is evicted or in the object of a listed segment, and its store is final. -/
theorem shutdown_drains (env : Externals) {s booted final : State} {cfg : ResolvedTopicConfig} {l : Live}
    (reached : (Faults.machine env).Reaches (Faults.Guarded .any) s)
    (start : Partition.step env (.start cfg) s = some booted)
    (lived : (life env booted).Reaches TwoStage final) (live : final.live = some l)
    (writer : l.writer.phase = .stopped) (uploader : l.uploader.phase = .stopped) :
    (∀ r ∈ final.history.acked, Stored final.disk.store final.history.evicted r) ∧
      ∀ later, (life env final).Reaches TwoStage later → later.disk.store = final.disk.store := by
  constructor
  · obtain ⟨l', same, working⟩ := reached_working reached start lived
    obtain rfl := Option.some.inj (live.symm.trans same)
    exact working.settled writer uploader
  · intro later reaches
    have settled : Final final.disk.store final := ⟨rfl, l, live, uploader⟩
    have after : Final final.disk.store later :=
      reaches.invariant settled fun s action next inv guarded taken => inv.step guarded taken
    exact after.1

instance (s : State) : DecidablePred (TwoStage s)
  | .step (.crash _) => .isFalse id
  | .step (.enqueue .shutdown) => inferInstanceAs (Decidable (∀ l ∈ s.live, _))
  | .step (.enqueue .retentionKick) | .step (.enqueue (.updateConfig _)) | .step (.interrupt _)
  | .step (.start _) | .step .sendOrphan | .step .openWriter | .step (.produce _ _)
  | .step .commitTimeout | .step (.updateWriter _) | .step .segmentDurable | .step .shutdownWriter
  | .step .writer | .step (.uploader _) | .uploader _ _ | .openFails => .isTrue trivial

/-- A record that waits for its group commit is flushed and sealed by the shutdown; a kick is
queued in front of its batch, and the first PUT of the segment fails. -/
def drainedRun : List Faults.Action :=
  ([.openWriter, .produce [sample 1] (fun _ => 0), .enqueue .retentionKick, .writer, .shutdownWriter] ++
    List.replicate 4 .writer ++ [.enqueue .shutdown] : List Partition.Action).map .step ++
  List.replicate 3 (.uploader 0 .ok) ++ [.uploader 0 (.failed true)] ++
  List.replicate 5 (.uploader 0 .ok)

theorem shutdown_drains_drainedRun : ∃ booted final,
    Partition.step externals (.start settings) fresh = some booted ∧
    (life externals booted).execute drainedRun booted = some final ∧
    final.history.acked.length = 1 ∧ final.history.evicted = [] ∧
    (∀ r ∈ final.history.acked, Stored final.disk.store final.history.evicted r) ∧
    ∀ later, (life externals final).Reaches TwoStage later → later.disk.store = final.disk.store := by
  have runs : (Partition.step externals (.start settings) fresh).any (fun booted =>
      decide ((life externals booted).Along TwoStage drainedRun booted) &&
      ((life externals booted).execute drainedRun booted).any (fun final =>
        final.live.any (fun l => decide (l.writer.phase = .stopped ∧ l.uploader.phase = .stopped ∧
          final.history.acked.length = 1 ∧ final.history.evicted = [])))) = true := by
    decide +kernel
  obtain ⟨booted, started, facts⟩ := Option.any_eq_true _ _ |>.mp runs
  obtain ⟨along, facts⟩ := Bool.and_eq_true_iff.mp facts
  obtain ⟨final, ran, facts⟩ := Option.any_eq_true _ _ |>.mp facts
  obtain ⟨l, live, facts⟩ := Option.any_eq_true _ _ |>.mp facts
  obtain ⟨writer, uploader, acked, evicted⟩ := of_decide_eq_true facts
  obtain ⟨stored, settled⟩ := shutdown_drains externals (Machine.Reaches.initial _) started
    ⟨drainedRun, of_decide_eq_true along, ran⟩ live writer uploader
  exact ⟨booted, final, started, ran, acked, evicted, stored, settled⟩

end Shutdown

end Kafkrs.Handover
