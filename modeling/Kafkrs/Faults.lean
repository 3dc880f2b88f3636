import Kafkrs.RecoveredLog

/-! A partition whose store calls may fail, and whose writer may fail to open the next WAL file
at a seal and goes on with the old handle. Seen from the segment life cycle, a segment whose
manifest entry is written but not answered for is a listed one, and a writer on an old handle
is one that has not opened its next file yet. -/
namespace Kafkrs.Faults

open Lib Wal Pipeline Kafkrs.Partition Refinement
open Kafkrs.Lifecycle (Stored Valid appendFile_nil)

inductive Action where
  | step (action : Partition.Action)
  /-- A step of the uploader whose store call ends as `outcome`. -/
  | uploader (now : Int) (outcome : Outcome)
  /-- `seal_and_handoff` fails to open the WAL file of the next segment. -/
  | openFails

/-- The error is returned after `segment_base` has moved on, and logged; the handle stays. -/
def openFailed (w : PartitionWriter) : PartitionWriter :=
  { w with segmentBase := w.nextOffset, phase := w.resume }

def storeStep (env : Externals) (now : Int) (outcome : Outcome) (s : State) (l : Live) : Option State :=
  (l.uploader.step env.segmentSize now outcome s.disk.store).map fun effect =>
    { disk := { s.disk with store := effect.store }
      live := some { l with uploader := effect.uploader, durable := l.durable ++ effect.durable }
      history := { s.history with
        evicted := s.history.evicted ++ evictedRecords s.disk.store effect.evicted } }

def step (env : Externals) : Action → State → Option State
  | .step action, s => Partition.step env action s
  | .uploader now outcome, s => s.live.bind (storeStep env now outcome s)
  | .openFails, s => s.live.bind fun l =>
    if l.writer.phase = .openNext then some { s with live := some { l with writer := openFailed l.writer } }
    else none

/-- A call that succeeds. -/
theorem step_uploader (env : Externals) (now : Int) (s : State) :
    step env (.step (.uploader now)) s = step env (.uploader now .ok) s := by
  cases live : s.live with
  | none => simp only [step, Partition.step, live, downStep, Option.bind_none]
  | some l =>
    simp only [step, Partition.step, live, Option.bind_some]
    rfl

def machine (env : Externals) : Machine State Action := ⟨fresh, step env⟩

/-- No group commit with records is written through the handle of an older segment. -/
def Attached (s : State) : Prop :=
  ∀ l, s.live = some l → l.writer.phase = .commit → l.writer.pending ≠ [] →
    l.writer.wal = l.writer.segmentBase

def Admitted (regime : Regime) (s : State) : Action → Prop
  | .step action => Admits regime s action
  | .uploader _ _ | .openFails => True

def Guarded (regime : Regime) (s : State) (action : Action) : Prop :=
  Admitted regime s action ∧ Attached s

section Mend

/-- A segment whose manifest entry is there counts as reported. -/
def settled (store : Store) : Uploader.Phase → Uploader.Phase
  | .putSegment batch =>
    if store.manifest.lists batch.baseOffset then .notify batch else .putSegment batch
  | .putManifest batch =>
    if store.manifest.lists batch.baseOffset then .notify batch else .putManifest batch
  | phase => phase

/-- A writer on an old handle counts as one that has yet to open its file and take requests. -/
def reattached (w : PartitionWriter) : PartitionWriter :=
  if w.wal = w.segmentBase then w
  else
    { w with
      phase := .openNext
      wal := w.segmentBase
      pending := []
      pendingAcks := []
      pendingFirstArrival := false
      nextOffset := w.nextOffset - w.pending.length }

def mendLive (store : Store) (l : Live) : Live :=
  { l with
    writer := reattached l.writer
    uploader := { l.uploader with phase := settled store l.uploader.phase } }

def mend (s : State) : State := { s with live := s.live.map (mendLive s.disk.store) }

end Mend

structure Detached (w : PartitionWriter) : Prop where
  sealedOff : w.active = []
  past : between w.phase = false ∧ w.phase ≠ .starting
  committed : w.phase ≠ .recv → w.phase ≠ .commit → w.pending = []

structure FaultInvariant (env : Externals) (regime : Regime) (s : State) : Prop where
  mended : Invariant env regime (mend s)
  detached : ∀ l, s.live = some l → l.writer.wal ≠ l.writer.segmentBase → Detached l.writer
  ahead : ∀ l, s.live = some l → between l.writer.phase = true → l.writer.wal < l.writer.nextOffset
  retrying : ∀ l, s.live = some l → ∀ batch ∈ uploading l.uploader.phase,
    s.disk.store.manifest.lists batch.baseOffset = true →
      s.disk.store.objects[batch.baseOffset]? = some batch.records

/-- What a step comes to, seen without the faults. -/
structure Mended (env : Externals) (regime : Regime) (s next : State) : Prop where
  invariant : FaultInvariant env regime next
  event : Lifecycle.Step env regime (abstract (mend s)) (abstract (mend next))

section Uploading

variable {env : Externals} {regime : Regime} {s next : State} {l : Live} {now : Int} {outcome : Outcome}

theorem settled_of {store : Store} {phase : Uploader.Phase}
    (unlisted : ∀ batch ∈ uploading phase, store.manifest.lists batch.baseOffset = false) :
    settled store phase = phase := by
  cases phase with
  | putSegment batch | putManifest batch => simp [settled, unlisted batch (by simp [uploading])]
  | _ => rfl

theorem insert_same {objects : Dir (List Record)} {base : Int} {records : List Record}
    (found : objects[base]? = some records) : objects.insert base records = objects := by
  apply Std.ExtTreeMap.ext_getElem?
  intro other
  rw [Dir.get_insert]
  split
  next same => rw [← same, found]
  next => rfl

/-- Writing an object that is not listed yet, whether or not the call is answered. -/
theorem put_simulated {batch : SealedBatch} (live : s.live = some l)
    (shape : Shape regime s.disk.store l) (busy : l.uploader.phase = .putSegment batch) :
    Simulated env regime s { s with disk := { s.disk with store := { s.disk.store with
      objects := s.disk.store.objects.insert batch.baseOffset batch.records } } } where
  event := by
    simp only [abstract, live, Option.map_some]
    exact .put (v := view l) (by simp [view, busy, uploading, Refinement.segment]; rfl)
  shape := by
    intro l' same
    obtain rfl := Option.some.inj (live.symm.trans same)
    exact ⟨shape.writer, ⟨shape.uploader.uploads, by simp [busy], by simp [busy], shape.uploader.policy,
      shape.uploader.updates⟩, shape.orphans⟩

/-- Giving up on a step of the uploader without a trace. -/
theorem restart_simulated {phase : Uploader.Phase} (live : s.live = some l)
    (shape : Shape regime s.disk.store l) (uploads : uploading phase = uploading l.uploader.phase)
    (reports : reporting phase = reporting l.uploader.phase) (before : ∀ batch, phase ≠ .putManifest batch)
    (fewer : ∀ evict, phase = .delete evict → ∀ seg ∈ evict,
      s.disk.store.manifest.lists seg.baseOffset = false) :
    Simulated env regime s
      { s with live := some { l with uploader := { l.uploader with phase := phase } } } := by
  refine .quiet live (by simp [view, uploads, reports]) ⟨shape.writer, ?_, shape.orphans⟩
  exact ⟨by simpa [uploads] using shape.uploader.uploads, fun batch same => absurd same (before batch),
    fewer, shape.uploader.policy, shape.uploader.updates⟩

/-- A manifest rewrite of a retention pass that is not answered for. -/
theorem evict_simulated (now : Int) (live : s.live = some l) (shape : Shape regime s.disk.store l)
    (passing : l.uploader.phase = .retention) :
    Simulated env regime s
      { disk := { s.disk with store := { s.disk.store with
          manifest := Retention.retain s.disk.store.manifest
            (Retention.evaluateEviction s.disk.store.manifest l.uploader.cfg now) } }
        live := some { l with uploader := { l.uploader with phase := .recv } }
        history := { s.history with
          evicted := (s.history.evicted ++ evictedRecords s.disk.store
            (Retention.evaluateEviction s.disk.store.manifest l.uploader.cfg now)) } } where
  event := by
    simp only [abstract, live, Option.map_some]
    have same : view { l with uploader := { l.uploader with phase := .recv } } = view l := by
      simp [view, passing, uploading, reporting]
    rw [same]
    exact .evict now shape.uploader.policy
  shape := by
    intro l' same
    obtain rfl := Option.some.inj same
    have uploads := shape.uploader.uploads
    rw [passing] at uploads
    exact ⟨shape.writer, ⟨by simpa [uploading] using uploads, by simp, by simp, shape.uploader.policy,
      shape.uploader.updates⟩, shape.orphans⟩

def after (s : State) (l : Live) (effect : Uploader.Effect) : State :=
  { disk := { s.disk with store := effect.store }
    live := some { l with uploader := effect.uploader, durable := l.durable ++ effect.durable }
    history := { s.history with
      evicted := s.history.evicted ++ evictedRecords s.disk.store effect.evicted } }

theorem mend_live (live : s.live = some l) : (mend s).live = some (mendLive s.disk.store l) := by
  simp [mend, live]

/-- A step that comes, once settled, to what an answered one does. -/
theorem answered_simulated (now : Int) (inv : FaultInvariant env regime s) (live : s.live = some l)
    {effect answered : Uploader.Effect} (here : settled s.disk.store l.uploader.phase = l.uploader.phase)
    (stepped : l.uploader.step env.segmentSize now .ok s.disk.store = some answered)
    (same : { effect with uploader := { effect.uploader with
      phase := settled effect.store effect.uploader.phase } } = answered) :
    Simulated env regime (mend s) (mend (after s l effect)) := by
  have own := mend_live live
  have taken : uploaderStep env now (mend s) (mendLive s.disk.store l) = some (mend (after s l effect)) := by
    subst same
    simp only [uploaderStep, mendLive, here]
    rw [show (mend s).disk = s.disk from rfl, stepped]
    rfl
  exact uploader_simulated own (inv.mended.shape _ own) inv.mended.valid taken

/-- Batches the uploader has yet to take are not listed. -/
theorem queued_unlisted (inv : FaultInvariant env regime s) (live : s.live = some l)
    {batch : SealedBatch} (waiting : batch ∈ queued l.uploader.rx) :
    s.disk.store.manifest.lists batch.baseOffset = false := by
  have running := inv.mended.valid.running (view (mendLive s.disk.store l))
    (by simp [abstract, mend_live live])
  refine (running.backlog batch.baseOffset batch.records ?_).2.2
  simp only [view, mendLive, List.map_append, List.mem_append]
  exact .inl (.inl (.inr (List.mem_map_of_mem waiting)))

/-- The step of an upload whose entry is listed already changes nothing that counts. -/
theorem retry_simulated {batch : SealedBatch} {phase : Uploader.Phase} (inv : FaultInvariant env regime s)
    (live : s.live = some l) (busy : batch ∈ uploading l.uploader.phase)
    (listed : s.disk.store.manifest.lists batch.baseOffset = true)
    (before : settled s.disk.store l.uploader.phase = .notify batch)
    (later : settled s.disk.store phase = .notify batch) {store : Store}
    (kept : store = s.disk.store ∨ store =
      { s.disk.store with objects := s.disk.store.objects.insert batch.baseOffset batch.records }) :
    Simulated env regime (mend s)
      (mend (after s l { uploader := { l.uploader with phase := phase }, store := store })) := by
  have object := inv.retrying l live batch busy listed
  have same : store = s.disk.store := by
    rcases kept with rfl | rfl
    · rfl
    · rw [insert_same object]
  subst same
  have unchanged : mend (after s l
      { uploader := { l.uploader with phase := phase }, store := s.disk.store }) = mend s := by
    simp [mend, after, live, mendLive, before, later, evictedRecords]
  rw [unchanged]
  exact ⟨.idle _, inv.mended.shape⟩

/-- An uploader at rest between two calls has nothing in hand. -/
theorem settled_idle {store : Store} {phase : Uploader.Phase} (idle : uploading phase = []) :
    settled store phase = phase :=
  settled_of (by simp [idle])

theorem putSegment_step {batch : SealedBatch} {effect : Uploader.Effect}
    (inv : FaultInvariant env regime s) (live : s.live = some l)
    (busy : l.uploader.phase = .putSegment batch)
    (stepped : l.uploader.step env.segmentSize now outcome s.disk.store = some effect) :
    Simulated env regime (mend s) (mend (after s l effect)) := by
  simp only [Uploader.step, busy, Option.some.injEq] at stepped
  subst stepped
  by_cases listed : s.disk.store.manifest.lists batch.baseOffset = true
  · refine retry_simulated inv live (by simp [busy, uploading]) listed (by simp [settled, busy, listed]) ?_ ?_
    · split <;> simp [settled, listed]
    · split
      · exact .inr rfl
      · exact .inl rfl
  · have unlisted := Bool.not_eq_true _ |>.mp listed
    have here : settled s.disk.store l.uploader.phase = l.uploader.phase :=
      settled_of (by simp [busy, uploading, unlisted])
    cases outcome with
    | ok =>
      refine answered_simulated now inv live here ?_ rfl
      simp [Uploader.step, busy, Outcome.applied, settled, unlisted]
    | failed applied =>
      have own := mend_live live
      have busy' : (mendLive s.disk.store l).uploader.phase = .putSegment batch := here.trans busy
      cases applied with
      | true =>
        have put : Simulated env regime (mend s) _ := put_simulated own (inv.mended.shape _ own) busy'
        convert put using 1
        simp [mend, after, live, mendLive, Outcome.applied, settled, busy, unlisted, evictedRecords]
      | false =>
        have quiet : Simulated env regime (mend s) (mend s) := ⟨.idle _, inv.mended.shape⟩
        convert quiet using 1
        simp [mend, after, live, mendLive, Outcome.applied, settled, busy, unlisted, evictedRecords]

theorem putManifest_step {batch : SealedBatch} {effect : Uploader.Effect}
    (inv : FaultInvariant env regime s) (live : s.live = some l)
    (busy : l.uploader.phase = .putManifest batch)
    (stepped : l.uploader.step env.segmentSize now outcome s.disk.store = some effect) :
    Simulated env regime (mend s) (mend (after s l effect)) := by
  simp only [Uploader.step, busy, Option.some.injEq] at stepped
  subst stepped
  by_cases listed : s.disk.store.manifest.lists batch.baseOffset = true
  · refine retry_simulated inv live (by simp [busy, uploading]) listed (by simp [settled, busy, listed]) ?_ ?_
    · split <;> simp [settled, listed]
    · simp [listed]
  · have unlisted := Bool.not_eq_true _ |>.mp listed
    have here : settled s.disk.store l.uploader.phase = l.uploader.phase :=
      settled_of (by simp [busy, uploading, unlisted])
    have added : (s.disk.store.manifest.add (Uploader.entry env.segmentSize batch)).lists
        batch.baseOffset = true := Lifecycle.lists_add.mpr (.inr rfl)
    cases outcome with
    | ok =>
      refine answered_simulated now inv live here ?_ rfl
      simp [Uploader.step, busy, Outcome.applied, settled, unlisted]
    | failed applied =>
      cases applied with
      | true =>
        -- Listed and not answered for: settled, it is as good as answered.
        refine answered_simulated now inv live here ?_ rfl
        simp [Uploader.step, busy, Outcome.applied, settled, unlisted, added]
      | false =>
        have own := mend_live live
        have busy' : (mendLive s.disk.store l).uploader.phase = .putManifest batch := here.trans busy
        have quiet : Simulated env regime (mend s) _ := restart_simulated own (inv.mended.shape _ own)
          (show uploading (.putSegment batch) = _ by rw [busy']; rfl)
          (by rw [busy']; rfl) (by simp) (by simp)
        convert quiet using 1
        simp [mend, after, live, mendLive, Outcome.applied, settled, unlisted, evictedRecords]

theorem recv_step {effect : Uploader.Effect} (inv : FaultInvariant env regime s)
    (live : s.live = some l) (idle : l.uploader.phase = .recv)
    (stepped : l.uploader.step env.segmentSize now outcome s.disk.store = some effect) :
    Simulated env regime (mend s) (mend (after s l effect)) := by
  have here : settled s.disk.store l.uploader.phase = l.uploader.phase :=
    settled_idle (by simp [idle, uploading])
  have unlisted (batch : SealedBatch) (waiting : batch ∈ queued l.uploader.rx) :=
    queued_unlisted inv live waiting
  simp only [Uploader.step, idle] at stepped
  have answered : l.uploader.step env.segmentSize now .ok s.disk.store = some effect := by
    simpa only [Uploader.step, idle] using stepped
  refine answered_simulated now inv live here answered ?_
  unfold Uploader.receive at stepped
  split at stepped
  · cases stepped
  next batch rest shape =>
    cases stepped
    simp [settled, unlisted batch (by simp [shape])]
  all_goals
    cases stepped
    simp [settled, idle]

theorem retention_step {effect : Uploader.Effect} (inv : FaultInvariant env regime s)
    (live : s.live = some l) (passing : l.uploader.phase = .retention)
    (stepped : l.uploader.step env.segmentSize now outcome s.disk.store = some effect) :
    Simulated env regime (mend s) (mend (after s l effect)) := by
  have here : settled s.disk.store l.uploader.phase = l.uploader.phase :=
    settled_idle (by simp [passing, uploading])
  have own := mend_live live
  have passing' : (mendLive s.disk.store l).uploader.phase = .retention := here.trans passing
  by_cases nothing : (Retention.evaluateEviction s.disk.store.manifest l.uploader.cfg now).isEmpty
  · simp only [Uploader.step, passing, nothing, if_true, Option.some.injEq] at stepped
    subst stepped
    refine answered_simulated now inv live here ?_ rfl
    simp [Uploader.step, passing, nothing, settled]
  · simp only [Uploader.step, passing, nothing, Bool.false_eq_true, if_false, Option.some.injEq] at stepped
    subst stepped
    cases outcome with
    | ok =>
      refine answered_simulated now inv live here ?_ rfl
      simp [Uploader.step, passing, nothing, settled, Outcome.applied]
    | failed applied =>
      cases applied with
      | true =>
        have evict : Simulated env regime (mend s) _ := evict_simulated now own (inv.mended.shape _ own) passing'
        convert evict using 1
        simp [mend, after, live, mendLive, Outcome.applied, settled]
      | false =>
        have quiet : Simulated env regime (mend s) _ := restart_simulated own (inv.mended.shape _ own)
          (show uploading .recv = _ by rw [passing']; rfl) (by rw [passing']; rfl) (by simp) (by simp)
        convert quiet using 1
        simp [mend, after, live, mendLive, Outcome.applied, settled, evictedRecords]

theorem delete_step {evict : List SegmentEntry} {effect : Uploader.Effect}
    (inv : FaultInvariant env regime s) (live : s.live = some l)
    (deleting : l.uploader.phase = .delete evict)
    (stepped : l.uploader.step env.segmentSize now outcome s.disk.store = some effect) :
    Simulated env regime (mend s) (mend (after s l effect)) := by
  have here : settled s.disk.store l.uploader.phase = l.uploader.phase :=
    settled_idle (by simp [deleting, uploading])
  have own := mend_live live
  have deleting' : (mendLive s.disk.store l).uploader.phase = .delete evict := here.trans deleting
  cases evict with
  | nil =>
    simp only [Uploader.step, deleting, Option.some.injEq] at stepped
    subst stepped
    refine answered_simulated now inv live here ?_ rfl
    simp [Uploader.step, deleting, settled]
  | cons seg rest =>
    simp only [Uploader.step, deleting, Option.some.injEq] at stepped
    subst stepped
    cases applied : outcome.applied with
    | true =>
      refine answered_simulated now inv live here ?_ rfl
      simp [Uploader.step, deleting, settled, Outcome.applied]
    | false =>
      have doomed := (inv.mended.shape _ own).uploader.doomed _ deleting'
      have quiet : Simulated env regime (mend s) _ := restart_simulated own (inv.mended.shape _ own)
        (show uploading (.delete rest) = _ by rw [deleting']; rfl) (by rw [deleting']; rfl) (by simp)
        (fun evict same => by
          obtain rfl := Uploader.Phase.delete.inj same
          exact fun other member => doomed other (List.mem_cons_of_mem _ member))
      convert quiet using 1
      simp [mend, after, live, mendLive, settled, evictedRecords]

theorem uploader_step {effect : Uploader.Effect} (inv : FaultInvariant env regime s)
    (live : s.live = some l)
    (stepped : l.uploader.step env.segmentSize now outcome s.disk.store = some effect) :
    Simulated env regime (mend s) (mend (after s l effect)) := by
  cases phase : l.uploader.phase with
  | recv => exact recv_step inv live phase stepped
  | putSegment batch => exact putSegment_step inv live phase stepped
  | putManifest batch => exact putManifest_step inv live phase stepped
  | retention => exact retention_step inv live phase stepped
  | delete evict => exact delete_step inv live phase stepped
  | notify batch =>
    have here : settled s.disk.store l.uploader.phase = l.uploader.phase :=
      settled_idle (by simp [phase, uploading])
    simp only [Uploader.step, phase, Option.some.injEq] at stepped
    subst stepped
    refine answered_simulated now inv live here ?_ rfl
    simp [Uploader.step, phase, settled]
  | stopped => simp [Uploader.step, phase] at stepped

/-- What a retry writes is there already. -/
theorem retrying_step {effect : Uploader.Effect} (inv : FaultInvariant env regime s)
    (live : s.live = some l)
    (stepped : l.uploader.step env.segmentSize now outcome s.disk.store = some effect) :
    ∀ batch ∈ uploading effect.uploader.phase, effect.store.manifest.lists batch.baseOffset = true →
      effect.store.objects[batch.baseOffset]? = some batch.records := by
  have kept := inv.retrying l live
  intro batch busy listed
  cases Uploader.step_moved stepped with
  | @upload other rest idle shape =>
    obtain rfl : batch = other := by simpa [uploading] using busy
    have unlisted := queued_unlisted inv live (show batch ∈ queued l.uploader.rx by simp [shape])
    rw [unlisted] at listed
    cases listed
  | updateConfig idle => simp [idle, uploading] at busy
  | retentionKick | shutdown | notify | spare | deleted | delete => simp [uploading] at busy
  | evict =>
    dsimp only at busy
    split at busy <;> simp [uploading] at busy
  | @putSegment other putting =>
    obtain rfl : batch = other := by
      dsimp only at busy
      split at busy <;> simpa [uploading] using busy
    rw [putting] at kept
    dsimp only at listed ⊢
    split
    · simp
    next still =>
      rw [if_neg still] at listed
      exact kept batch (by simp [uploading]) listed
  | @putManifest other listing =>
    cases outcome with
    | ok => simp [uploading] at busy
    | failed applied =>
      obtain rfl : batch = other := by simpa [uploading] using busy
      have object : s.disk.store.objects[batch.baseOffset]? = some batch.records := by
        cases before : s.disk.store.manifest.lists batch.baseOffset with
        | true => exact kept batch (by simp [listing, uploading]) before
        | false =>
          have own := mend_live live
          refine (inv.mended.shape _ own).uploader.staged batch ?_
          simp [mendLive, settled, listing, before]
      dsimp only
      split <;> exact object

theorem store_step (inv : FaultInvariant env regime s)
    (taken : step env (.uploader now outcome) s = some next) : Mended env regime s next := by
  obtain ⟨l, live, taken⟩ := Option.bind_eq_some_iff.mp taken
  obtain ⟨effect, stepped, rfl⟩ := Option.map_eq_some_iff.mp taken
  have simulated := uploader_step inv live stepped
  refine ⟨⟨⟨simulated.shape, inv.mended.valid.step simulated.event⟩, fun l' now => ?_,
    fun l' now => ?_, fun l' now => ?_⟩, simulated.event⟩
  all_goals cases now
  · exact inv.detached l live
  · exact inv.ahead l live
  · exact retrying_step inv live stepped

end Uploading

end Kafkrs.Faults
