import Kafkrs.Lifecycle

/-! The actors of a partition refine the segment life cycle: each of their steps is one event
on the view of who holds which segment. -/
namespace Kafkrs.Refinement

open Lib Wal Pipeline Kafkrs.Partition Lifecycle

def segment (batch : SealedBatch) : Int × List Record := (batch.baseOffset, batch.records)

def queued (rx : List UploaderMsg) : List SealedBatch :=
  rx.filterMap fun
    | .upload batch => some batch
    | .control _ => none

def uploading : Uploader.Phase → List SealedBatch
  | .putSegment batch | .putManifest batch => [batch]
  | _ => []

def reporting : Uploader.Phase → List Int
  | .notify batch => [batch.baseOffset]
  | _ => []

def handing : PartitionWriter.Phase → List SealedBatch
  | .handoff batch => [batch]
  | _ => []

/-- Between sealing and opening the next file the writer has no active segment. -/
def between : PartitionWriter.Phase → Bool
  | .handoff _ | .openNext => true
  | _ => false

def view (l : Live) : View :=
  { notified := l.durable ++ reporting l.uploader.phase
    backlog := (uploading l.uploader.phase ++ queued l.uploader.rx).map segment ++ l.orphans ++
      (handing l.writer.phase).map segment
    active := if between l.writer.phase then none else some (l.writer.segmentBase, l.writer.active)
    opened := decide (l.writer.phase ≠ .starting)
    pending := l.writer.pending
    nextOffset := l.writer.nextOffset - l.writer.pending.length }

def abstract (s : Partition.State) : Lifecycle.State := ⟨s.disk, s.history, s.live.map view⟩

def Sealed (batch : SealedBatch) : Prop :=
  ∃ first rest, batch = SealedBatch.ofRecords batch.baseOffset first rest

structure WriterShape (w : PartitionWriter) : Prop where
  handed : ∀ batch ∈ handing w.phase, Sealed batch
  committed : w.phase ≠ .recv → w.phase ≠ .commit → w.pending = []
  sealedOff : between w.phase = true → w.active = []
  wal : w.wal = w.segmentBase

structure UploaderShape (regime : Regime) (store : Store) (u : Uploader) : Prop where
  uploads : ∀ batch ∈ uploading u.phase ++ queued u.rx, Sealed batch
  staged : ∀ batch, u.phase = .putManifest batch →
    store.objects[batch.baseOffset]? = some batch.records
  doomed : ∀ evict, u.phase = .delete evict →
    ∀ seg ∈ evict, store.manifest.lists seg.baseOffset = false
  policy : regime.policy u.cfg
  updates : ∀ cfg, .control (.updateConfig cfg) ∈ u.rx → regime.policy cfg

structure Shape (regime : Regime) (store : Store) (l : Live) : Prop where
  writer : WriterShape l.writer
  uploader : UploaderShape regime store l.uploader
  orphans : l.writer.phase ≠ .starting → l.orphans = []

structure Invariant (env : Externals) (regime : Regime) (s : Partition.State) : Prop where
  shape : ∀ l, s.live = some l → Shape regime s.disk.store l
  valid : Valid env (abstract s)

structure Simulated (env : Externals) (regime : Regime) (s s' : Partition.State) : Prop where
  event : Step env regime (abstract s) (abstract s')
  shape : ∀ l, s'.live = some l → Shape regime s'.disk.store l

section Queue

@[simp] theorem queued_append (front back : List UploaderMsg) :
    queued (front ++ back) = queued front ++ queued back := List.filterMap_append

@[simp] theorem queued_upload (batch : SealedBatch) (rest : List UploaderMsg) :
    queued (.upload batch :: rest) = batch :: queued rest := rfl

@[simp] theorem queued_control (msg : ControlMsg) (rest : List UploaderMsg) :
    queued (.control msg :: rest) = queued rest := rfl

@[simp] theorem queued_nil : queued [] = [] := rfl

@[simp] theorem segment_ofRecords (base : Int) (first : Record) (rest : List Record) :
    segment (SealedBatch.ofRecords base first rest) = (base, first :: rest) := rfl

end Queue

section Stamp

open PartitionWriter

theorem stamp_encodable {now : Nat → Int64} {next : Int} {incoming : List IncomingRecord}
    (framed : Framed incoming) (room : next + incoming.length ≤ i64Max) :
    ∀ r ∈ stamp now next incoming, Encodable r := by
  intro r member
  have bounds := (stamp_numbered now next incoming).mem_bounds member
  rw [stamp_length] at bounds
  obtain ⟨inc, inside, key, value⟩ := stamp_payload member
  have := framed inc inside
  exact ⟨by omega, by rw [key]; exact this.1, by rw [key, value]; exact this.2⟩

end Stamp

theorem UploaderShape.enqueue {regime : Regime} {store : Store} {u : Uploader}
    (shape : UploaderShape regime store u) {batch : SealedBatch} (good : Sealed batch) :
    UploaderShape regime store { u with rx := u.rx ++ [.upload batch] } :=
  { shape with
    uploads := fun other member => by
      simp only [queued_append, queued_upload, queued_nil, ← List.append_assoc] at member
      rcases List.mem_append.mp member with old | new
      · exact shape.uploads other old
      · rw [List.mem_singleton.mp new]; exact good
    updates := fun cfg member => shape.updates cfg (by simpa using member) }

section Writer

variable {env : Externals} {regime : Regime} {s s' : Partition.State} {l : Live}

/-- A step that leaves disk, history and view as they are. -/
theorem Simulated.quiet {l' : Live} (live : s.live = some l) (same : view l' = view l)
    (shape : Shape regime s.disk.store l') :
    Simulated env regime s { s with live := some l' } where
  event := by
    simp only [abstract, live, Option.map_some, same]
    exact .idle _
  shape := fun _ now => Option.some.inj now ▸ shape

theorem sendOrphan_simulated (live : s.live = some l) (shape : Shape regime s.disk.store l)
    (taken : liveStep env s l .sendOrphan = some s') : Simulated env regime s s' := by
  simp only [liveStep] at taken
  split at taken
  · cases taken
  next orphan rest pending =>
    obtain ⟨batch, isBatch, rfl⟩ := Option.map_eq_some_iff.mp taken
    obtain ⟨base, first, records, rfl, rfl⟩ := orphanBatch_some isBatch
    have starting : l.writer.phase = .starting := by
      by_contra other
      simp [shape.orphans other] at pending
    refine .quiet live (by simp [view, pending]) ?_
    exact ⟨shape.writer, shape.uploader.enqueue ⟨first, records, rfl⟩,
      fun other => absurd starting other⟩

theorem openWriter_simulated (live : s.live = some l) (shape : Shape regime s.disk.store l)
    (taken : liveStep env s l .openWriter = some s') : Simulated env regime s s' := by
  simp only [liveStep] at taken
  split at taken
  next ready =>
    obtain ⟨starting, noOrphans⟩ := ready
    obtain rfl := Option.some.inj taken
    constructor
    · simp only [abstract, live, Option.map_some]
      have after : view { l with writer := { l.writer with phase := .recv } } =
          { view l with opened := true } := by
        simp [view, starting, between, handing]
      rw [after]
      have isActive : (view l).active = some (l.writer.segmentBase, l.writer.active) := by
        simp [view, starting, between]
      exact .openFirst isActive (by simp [view, starting])
    · intro l' now
      obtain rfl := Option.some.inj now
      refine ⟨⟨by simp [handing], by simp, by simp [between], shape.writer.wal⟩,
        shape.uploader, fun _ => noOrphans⟩
  · cases taken

theorem produce_simulated {records : List IncomingRecord} {now : Nat → Int64}
    (live : s.live = some l) (shape : Shape regime s.disk.store l) (framed : Framed records)
    (taken : liveStep env s l (.produce records now) = some s') : Simulated env regime s s' := by
  simp only [liveStep] at taken
  split at taken
  next ready =>
    obtain ⟨recv, _⟩ := ready
    obtain ⟨w, stored, rfl⟩ := Option.map_eq_some_iff.mp taken
    obtain ⟨room, phase, goes, rfl⟩ := PartitionWriter.onProduce_some stored
    constructor
    · simp only [abstract, live, Option.map_some]
      have numbered : Numbered Record.offset
          ((view l).nextOffset + (view l).pending.length)
          (PartitionWriter.stamp now l.writer.nextOffset records) := by
        have here : (view l).nextOffset + (view l).pending.length = l.writer.nextOffset := by
          simp [view]
        rw [here]
        exact PartitionWriter.stamp_numbered _ _ _
      have received : Step env regime ⟨s.disk, s.history, some (view l)⟩ _ :=
        .receive numbered (stamp_encodable framed room)
      convert received using 3
      simp only [view, PartitionWriter.stamp_length, List.length_append, recv]
      rcases goes with rfl | rfl <;> simp [between, handing]
    · intro l' same
      obtain rfl := Option.some.inj same
      refine ⟨⟨?_, ?_, ?_, shape.writer.wal⟩, shape.uploader, fun _ => shape.orphans (by simp [recv])⟩
      all_goals rcases goes with rfl | rfl <;> simp [handing, between]
  · cases taken

theorem commitTimeout_simulated (live : s.live = some l) (shape : Shape regime s.disk.store l)
    (taken : liveStep env s l .commitTimeout = some s') : Simulated env regime s s' := by
  simp only [liveStep] at taken
  split at taken
  next ready =>
    obtain rfl := Option.some.inj taken
    refine .quiet live (by simp [view, ready.1, between, handing]) ?_
    exact ⟨⟨by simp [handing], by simp, by simp [between], shape.writer.wal⟩, shape.uploader,
      fun _ => shape.orphans (by simp [ready.1])⟩
  · cases taken

theorem updateWriter_simulated {cfg : ResolvedTopicConfig} (live : s.live = some l)
    (shape : Shape regime s.disk.store l)
    (taken : liveStep env s l (.updateWriter cfg) = some s') : Simulated env regime s s' := by
  simp only [liveStep] at taken
  split at taken
  · obtain rfl := Option.some.inj taken
    exact .quiet live rfl ⟨⟨shape.writer.handed, shape.writer.committed, shape.writer.sealedOff,
      shape.writer.wal⟩, shape.uploader, shape.orphans⟩
  · cases taken

theorem segmentDurable_simulated (live : s.live = some l) (shape : Shape regime s.disk.store l)
    (taken : liveStep env s l .segmentDurable = some s') : Simulated env regime s s' := by
  simp only [liveStep] at taken
  split at taken
  · cases taken
  next base rest reported =>
    split at taken
    · obtain rfl := Option.some.inj taken
      constructor
      · simp only [abstract, live, Option.map_some]
        have after : view { l with writer := l.writer.onDurable base, durable := rest } =
            { view l with notified := rest ++ reporting l.uploader.phase } := rfl
        rw [after]
        exact .remove (by simp [view, reported])
      · intro l' now
        obtain rfl := Option.some.inj now
        exact ⟨⟨shape.writer.handed, shape.writer.committed, shape.writer.sealedOff,
          shape.writer.wal⟩, shape.uploader, shape.orphans⟩
    · cases taken

theorem shutdownWriter_simulated (live : s.live = some l) (shape : Shape regime s.disk.store l)
    (taken : liveStep env s l .shutdownWriter = some s') : Simulated env regime s s' := by
  simp only [liveStep] at taken
  split at taken
  next recv =>
    obtain rfl := Option.some.inj taken
    refine .quiet live (by simp [view, recv, between, handing]) ?_
    exact ⟨⟨by simp [handing], by simp, by simp [between], shape.writer.wal⟩, shape.uploader,
      fun _ => shape.orphans (by simp [recv])⟩
  · cases taken

theorem enqueue_simulated {msg : ControlMsg} (live : s.live = some l)
    (shape : Shape regime s.disk.store l) (admits : Admits regime s (.enqueue msg))
    (taken : liveStep env s l (.enqueue msg) = some s') : Simulated env regime s s' := by
  obtain rfl := Option.some.inj taken
  refine .quiet live (by simp [view]) ⟨shape.writer, ?_, shape.orphans⟩
  refine
    { uploads := by simpa using shape.uploader.uploads, staged := shape.uploader.staged,
      doomed := shape.uploader.doomed, policy := shape.uploader.policy, updates := ?_ }
  intro cfg member
  rcases List.mem_append.mp member with old | new
  · exact shape.uploader.updates cfg old
  · obtain rfl : msg = .updateConfig cfg := by simpa using (List.mem_singleton.mp new).symm
    exact admits

theorem commit_simulated (live : s.live = some l) (shape : Shape regime s.disk.store l)
    (commit : l.writer.phase = .commit)
    (taken : liveStep env s l .writer = some s') : Simulated env regime s s' := by
  simp only [liveStep, writerStep, commit] at taken
  obtain rfl := Option.some.inj taken
  have orphans := shape.orphans (by simp [commit])
  cases pending : l.writer.pending with
  | nil =>
    have after : view { l with writer := l.writer.flushCommit } = view l := by
      simp only [PartitionWriter.flushCommit, pending, List.isEmpty_nil, if_true, view, commit]
      split <;> simp [between, handing]
    constructor
    · simp only [abstract, live, Option.map_some, after, List.isEmpty_nil, if_true,
        List.append_nil]
      exact .idle _
    · intro l' now
      obtain rfl := Option.some.inj now
      refine ⟨⟨?_, fun _ _ => ?_, ?_, ?_⟩, shape.uploader, fun _ => orphans⟩
      all_goals
        simp only [PartitionWriter.flushCommit, pending, List.isEmpty_nil, if_true]
      · split <;> simp [handing]
      · split <;> simp [between]
      · exact shape.writer.wal
  | cons first rest =>
    have after : view { l with writer := l.writer.flushCommit } =
        { view l with
          active := some (l.writer.segmentBase, l.writer.active ++ (view l).pending)
          pending := []
          nextOffset := (view l).nextOffset + (view l).pending.length } := by
      simp only [PartitionWriter.flushCommit, pending, List.isEmpty_cons, Bool.false_eq_true,
        if_false, view, commit]
      split <;> simp [between, handing]
    constructor
    · simp only [abstract, live, Option.map_some, after, List.isEmpty_cons, Bool.false_eq_true,
        if_false]
      rw [shape.writer.wal, ← pending]
      exact .append (v := view l) (by simp [view, commit, between]) (by simp [view, commit])
    · intro l' now
      obtain rfl := Option.some.inj now
      refine ⟨⟨?_, fun _ _ => ?_, ?_, ?_⟩, shape.uploader, fun _ => orphans⟩
      all_goals
        simp only [PartitionWriter.flushCommit, pending, List.isEmpty_cons, Bool.false_eq_true,
          if_false]
      · split <;> simp [handing]
      · split <;> simp [between]
      · exact shape.writer.wal

theorem seal_simulated (live : s.live = some l) (shape : Shape regime s.disk.store l)
    (valid : Valid env (abstract s)) (sealing : l.writer.phase = .seal)
    (taken : liveStep env s l .writer = some s') : Simulated env regime s s' := by
  simp only [liveStep, writerStep, sealing] at taken
  obtain rfl := Option.some.inj taken
  have committed := shape.writer.committed (by simp [sealing]) (by simp [sealing])
  have orphans := shape.orphans (by simp [sealing])
  cases active : l.writer.active with
  | nil =>
    have sealedEq : l.writer.sealActive = { l.writer with phase := l.writer.resume } := by
      simp only [PartitionWriter.sealActive, active]
    rw [sealedEq]
    refine .quiet live ?_ ⟨⟨?_, fun _ _ => committed, fun _ => active, shape.writer.wal⟩,
      shape.uploader, fun _ => orphans⟩
    · simp only [view, PartitionWriter.resume, sealing]
      split <;> simp [between, handing]
    · simp only [PartitionWriter.resume]
      split <;> simp [handing]
  | cons first rest =>
    have running := valid.running (view l) (by simp [abstract, live])
    have isActive : (view l).active = some (l.writer.segmentBase, first :: rest) := by
      simp [view, sealing, between, active]
    have opened : (view l).opened = true := by simp [view, sealing]
    have head := (valid.durable.head _ _ _ (running.activeFile isActive opened).1).1
    constructor
    · simp only [abstract, live, Option.map_some]
      have after : view { l with writer := l.writer.sealActive } =
          { view l with
            backlog := (view l).backlog ++ [(l.writer.segmentBase, first :: rest)]
            active := none } := by
        simp [PartitionWriter.sealActive, active, view, sealing, between, handing, head]
      rw [after]
      exact .sealActive isActive opened (by simp)
    · intro l' now
      obtain rfl := Option.some.inj now
      refine ⟨⟨?_, fun _ _ => ?_, ?_, ?_⟩, shape.uploader, fun _ => orphans⟩
      all_goals simp only [PartitionWriter.sealActive, active]
      · intro batch member
        rw [List.mem_singleton.mp member]
        exact ⟨first, rest, rfl⟩
      · exact committed
      · exact fun _ => trivial
      · exact shape.writer.wal

theorem handoff_simulated {batch : SealedBatch} (live : s.live = some l)
    (shape : Shape regime s.disk.store l) (sending : l.writer.phase = .handoff batch)
    (taken : liveStep env s l .writer = some s') : Simulated env regime s s' := by
  simp only [liveStep, writerStep, sending] at taken
  obtain rfl := Option.some.inj taken
  have orphans := shape.orphans (by simp [sending])
  have good : Sealed batch := shape.writer.handed batch (by simp [sending, handing])
  refine .quiet live (by simp [view, sending, orphans, between, handing]) ?_
  refine ⟨⟨by simp [handing], fun _ _ => ?_, fun _ => ?_, shape.writer.wal⟩,
    shape.uploader.enqueue good, fun _ => orphans⟩
  · exact shape.writer.committed (by simp [sending]) (by simp [sending])
  · exact shape.writer.sealedOff (by simp [sending, between])

theorem openNext_simulated (live : s.live = some l) (shape : Shape regime s.disk.store l)
    (opening : l.writer.phase = .openNext)
    (taken : liveStep env s l .writer = some s') : Simulated env regime s s' := by
  simp only [liveStep, writerStep, opening] at taken
  obtain rfl := Option.some.inj taken
  have orphans := shape.orphans (by simp [opening])
  have committed := shape.writer.committed (by simp [opening]) (by simp [opening])
  have sealedOff := shape.writer.sealedOff (by simp [opening, between])
  have next : (view l).nextOffset = l.writer.nextOffset := by simp [view, committed]
  constructor
  · simp only [abstract, live, Option.map_some]
    have after : view { l with writer := l.writer.openNext } =
        { view l with active := some ((view l).nextOffset, []) } := by
      simp only [PartitionWriter.openNext, PartitionWriter.resume, view, opening, committed,
        sealedOff]
      split <;> simp [between, handing]
    rw [after, ← next]
    exact .openNext (by simp [view, opening, between]) (by simp [view, opening])
  · intro l' now
    obtain rfl := Option.some.inj now
    refine ⟨⟨?_, fun _ _ => committed, fun _ => sealedOff, rfl⟩, shape.uploader,
      fun _ => orphans⟩
    simp only [PartitionWriter.openNext, PartitionWriter.resume]
    split <;> simp [handing]

theorem writer_simulated (live : s.live = some l) (shape : Shape regime s.disk.store l)
    (valid : Valid env (abstract s)) (taken : liveStep env s l .writer = some s') :
    Simulated env regime s s' := by
  cases phase : l.writer.phase with
  | commit => exact commit_simulated live shape phase taken
  | «seal» => exact seal_simulated live shape valid phase taken
  | handoff batch => exact handoff_simulated live shape phase taken
  | openNext => exact openNext_simulated live shape phase taken
  | starting | recv | stopped => simp [liveStep, writerStep, phase] at taken

theorem crash_simulated {cut : Nat} (live : s.live = some l)
    (shape : Shape regime s.disk.store l)
    (taken : liveStep env s l (.crash cut) = some s') : Simulated env regime s s' := by
  obtain rfl := Option.some.inj taken
  refine ⟨?_, fun l' now => by cases now⟩
  simp only [abstract, live, Option.map_some, Option.map_none]
  by_cases commit : l.writer.phase = .commit
  · simp only [appending, commit, if_true, shape.writer.wal]
    have isActive : (view l).active = some (l.writer.segmentBase, l.writer.active) := by
      simp [view, commit, between]
    exact .tear cut isActive (by simp [view, commit])
  · have nothing : fitting (encodeRecord env.crc32c) cut [] = [] := rfl
    simp only [appending, commit, if_false, encodeAll_nil, List.take_nil, appendFile_nil, nothing,
      List.append_nil]
    exact .crash

end Writer

section Uploading

variable {env : Externals} {regime : Regime} {s s' : Partition.State} {l : Live} {now : Int}

theorem receive_simulated (live : s.live = some l) (shape : Shape regime s.disk.store l)
    (idle : l.uploader.phase = .recv) (taken : uploaderStep env now s l = some s') :
    Simulated env regime s s' := by
  obtain ⟨effect, received, rfl⟩ := Option.map_eq_some_iff.mp taken
  simp only [Uploader.step, idle, Uploader.receive] at received
  have uploads := shape.uploader.uploads
  have updates := shape.uploader.updates
  cases rx : l.uploader.rx with
  | nil => simp [rx] at received
  | cons msg rest =>
    rw [rx] at received updates
    rw [rx, idle] at uploads
    have later : ∀ cfg, .control (.updateConfig cfg) ∈ rest → regime.policy cfg :=
      fun cfg member => updates cfg (List.mem_cons_of_mem _ member)
    cases msg with
    | upload batch =>
      obtain rfl := Option.some.inj received
      simp only [evictedRecords, List.flatMap_nil, List.append_nil]
      refine .quiet live (by simp [view, rx, idle, uploading, reporting]) ⟨shape.writer, ?_, shape.orphans⟩
      exact ⟨by simpa [uploading] using uploads, by simp, by simp, shape.uploader.policy, later⟩
    | control msg =>
      have rest' : ∀ batch ∈ queued rest, Sealed batch := by simpa [uploading] using uploads
      cases msg with
      | retentionKick =>
        obtain rfl := Option.some.inj received
        simp only [evictedRecords, List.flatMap_nil, List.append_nil]
        refine .quiet live (by simp [view, rx, idle, uploading, reporting])
          ⟨shape.writer, ?_, shape.orphans⟩
        exact ⟨by simpa [uploading] using rest', by simp, by simp, shape.uploader.policy, later⟩
      | updateConfig cfg =>
        obtain rfl := Option.some.inj received
        simp only [evictedRecords, List.flatMap_nil, List.append_nil]
        refine .quiet live (by simp [view, rx, idle, uploading, reporting])
          ⟨shape.writer, ?_, shape.orphans⟩
        exact ⟨by simpa [idle, uploading] using rest', by simp, by simp, updates cfg (by simp), later⟩
      | shutdown =>
        obtain rfl := Option.some.inj received
        simp only [evictedRecords, List.flatMap_nil, List.append_nil]
        refine .quiet live (by simp [view, rx, idle, uploading, reporting])
          ⟨shape.writer, ?_, shape.orphans⟩
        exact ⟨by simpa [uploading] using rest', by simp, by simp, shape.uploader.policy, later⟩

theorem putSegment_simulated {batch : SealedBatch} (live : s.live = some l)
    (shape : Shape regime s.disk.store l) (busy : l.uploader.phase = .putSegment batch)
    (taken : uploaderStep env now s l = some s') : Simulated env regime s s' := by
  obtain ⟨effect, stepped, rfl⟩ := Option.map_eq_some_iff.mp taken
  simp only [Uploader.step, busy, Outcome.applied, if_true, Option.some.injEq] at stepped
  subst stepped
  have uploads := shape.uploader.uploads
  rw [busy] at uploads
  constructor
  · simp only [abstract, live, Option.map_some, evictedRecords, List.flatMap_nil, List.append_nil]
    have after : view { l with uploader := { l.uploader with phase := .putManifest batch } } =
        view l := by
      simp [view, busy, uploading, reporting]
    rw [after]
    exact .put (v := view l) (by simp [view, busy, uploading, segment]; rfl)
  · intro l' same
    obtain rfl := Option.some.inj same
    refine ⟨shape.writer, ⟨by simpa [uploading] using uploads, ?_, by simp,
      shape.uploader.policy, shape.uploader.updates⟩, shape.orphans⟩
    intro other same
    obtain rfl : batch = other := by simpa using same
    simp

theorem putManifest_simulated {batch : SealedBatch} (live : s.live = some l)
    (shape : Shape regime s.disk.store l) (busy : l.uploader.phase = .putManifest batch)
    (taken : uploaderStep env now s l = some s') : Simulated env regime s s' := by
  obtain ⟨effect, stepped, rfl⟩ := Option.map_eq_some_iff.mp taken
  simp only [Uploader.step, busy, Outcome.applied, if_true, true_and, Option.some.injEq] at stepped
  subst stepped
  have uploads := shape.uploader.uploads
  rw [busy] at uploads
  have staged := shape.uploader.staged batch busy
  obtain ⟨first, rest, good⟩ := uploads batch (by simp [uploading])
  constructor
  · simp only [abstract, live, Option.map_some, evictedRecords, List.flatMap_nil, List.append_nil]
    have after : view { l with uploader := { l.uploader with phase := .notify batch } } =
        { view l with
          backlog := (queued l.uploader.rx).map segment ++ l.orphans ++
            (handing l.writer.phase).map segment
          notified := (view l).notified ++ [batch.baseOffset] } := by
      simp [view, busy, uploading, reporting]
    rw [after]
    rw [good] at staged ⊢
    exact .list (v := view l)
      (by rw [good] at busy; simp [view, busy, uploading]; rfl) staged
  · intro l' same
    obtain rfl := Option.some.inj same
    refine ⟨shape.writer, ⟨?_, by simp, by simp, shape.uploader.policy, shape.uploader.updates⟩,
      shape.orphans⟩
    intro other member
    exact uploads other (by simpa [uploading] using .inr (by simpa [uploading] using member))

theorem retention_simulated (live : s.live = some l) (shape : Shape regime s.disk.store l)
    (valid : Valid env (abstract s)) (passing : l.uploader.phase = .retention)
    (taken : uploaderStep env now s l = some s') : Simulated env regime s s' := by
  obtain ⟨effect, stepped, rfl⟩ := Option.map_eq_some_iff.mp taken
  simp only [Uploader.step, passing, Outcome.applied, if_true] at stepped
  have uploads := shape.uploader.uploads
  rw [passing] at uploads
  split at stepped
  · obtain rfl := Option.some.inj stepped
    simp only [evictedRecords, List.flatMap_nil, List.append_nil]
    refine .quiet live (by simp [view, passing, uploading, reporting])
      ⟨shape.writer, ?_, shape.orphans⟩
    exact ⟨by simpa [uploading] using uploads, by simp, by simp, shape.uploader.policy,
      shape.uploader.updates⟩
  · obtain rfl := Option.some.inj stepped
    constructor
    · simp only [abstract, live, Option.map_some, List.append_nil]
      have same : view { l with uploader := { l.uploader with
          phase := .delete (Retention.evaluateEviction s.disk.store.manifest l.uploader.cfg now) } } =
          view l := by
        simp [view, passing, uploading, reporting]
      rw [same]
      exact .evict now shape.uploader.policy
    · intro l' same
      obtain rfl := Option.some.inj same
      refine ⟨shape.writer, ⟨by simpa [uploading] using uploads, by simp, ?_, shape.uploader.policy,
        shape.uploader.updates⟩, shape.orphans⟩
      intro evict same seg member
      obtain rfl := Uploader.Phase.delete.inj same
      exact evicted_unlisted valid.durable.ordered member

theorem uploader_simulated (live : s.live = some l) (shape : Shape regime s.disk.store l)
    (valid : Valid env (abstract s)) (taken : uploaderStep env now s l = some s') :
    Simulated env regime s s' := by
  cases phase : l.uploader.phase with
  | recv => exact receive_simulated live shape phase taken
  | putSegment batch => exact putSegment_simulated live shape phase taken
  | putManifest batch => exact putManifest_simulated live shape phase taken
  | retention => exact retention_simulated live shape valid phase taken
  | notify batch =>
    obtain ⟨effect, stepped, rfl⟩ := Option.map_eq_some_iff.mp taken
    simp only [Uploader.step, phase, Option.some.injEq] at stepped
    subst stepped
    have uploads := shape.uploader.uploads
    rw [phase] at uploads
    simp only [evictedRecords, List.flatMap_nil, List.append_nil]
    refine .quiet live (by simp [view, phase, uploading, reporting])
      ⟨shape.writer, ?_, shape.orphans⟩
    exact ⟨by simpa [uploading] using uploads, by simp, by simp, shape.uploader.policy,
      shape.uploader.updates⟩
  | delete evict =>
    obtain ⟨effect, stepped, rfl⟩ := Option.map_eq_some_iff.mp taken
    have uploads := shape.uploader.uploads
    have doomed := shape.uploader.doomed evict phase
    rw [phase] at uploads
    cases evict with
    | nil =>
      simp only [Uploader.step, phase, Option.some.injEq] at stepped
      subst stepped
      simp only [evictedRecords, List.flatMap_nil, List.append_nil]
      refine .quiet live (by simp [view, phase, uploading, reporting])
        ⟨shape.writer, ?_, shape.orphans⟩
      exact ⟨by simpa [uploading] using uploads, by simp, by simp, shape.uploader.policy,
        shape.uploader.updates⟩
    | cons seg rest =>
      simp only [Uploader.step, phase, Outcome.applied, if_true, Option.some.injEq] at stepped
      subst stepped
      constructor
      · simp only [abstract, live, Option.map_some, evictedRecords, List.flatMap_nil,
          List.append_nil]
        have same : view { l with uploader := { l.uploader with phase := .delete rest } } =
            view l := by
          simp [view, phase, uploading, reporting]
        rw [same]
        exact .delete (doomed seg (by simp))
      · intro l' same
        obtain rfl := Option.some.inj same
        refine ⟨shape.writer, ⟨by simpa [uploading] using uploads, by simp, ?_,
          shape.uploader.policy, shape.uploader.updates⟩, shape.orphans⟩
        intro evict same other member
        obtain rfl := Uploader.Phase.delete.inj same
        exact doomed other (by simp [member])
  | stopped =>
    obtain ⟨effect, stepped, rfl⟩ := Option.map_eq_some_iff.mp taken
    simp [Uploader.step, phase] at stepped

end Uploading

section Machine

variable {env : Externals} {regime : Regime} {s s' : Partition.State} {action : Action}

theorem down_simulated (down : s.live = none) (admits : Admits regime s action)
    (taken : downStep env s action = some s') : Simulated env regime s s' := by
  cases action with
  | interrupt rounds =>
    obtain rfl := Option.some.inj taken
    refine ⟨?_, fun l live => by rw [down] at live; cases live⟩
    simp only [abstract, down, Option.map_none]
    exact .interrupt rounds
  | start cfg =>
    obtain rfl := Option.some.inj taken
    constructor
    · simp only [abstract, down, Option.map_none, Option.map_some]
      have started : Step env regime ⟨s.disk, s.history, none⟩ _ := .start admits.2
      convert started using 3
      simp [view, Restart.startView, PartitionWriter.new, Uploader.new, between, handing,
        uploading, queued, reporting]
    · intro l same
      obtain rfl := Option.some.inj same
      refine ⟨⟨by simp [PartitionWriter.new, handing], fun _ _ => rfl,
        by simp [PartitionWriter.new, between], rfl⟩, ?_, fun other => absurd rfl other⟩
      exact ⟨by simp [Uploader.new, uploading], by simp [Uploader.new], by simp [Uploader.new],
        admits.1, by simp [Uploader.new]⟩
  | _ => cases taken

theorem step_simulated (inv : Invariant env regime s) (admits : Admits regime s action)
    (taken : step env action s = some s') : Simulated env regime s s' := by
  simp only [step] at taken
  cases live : s.live with
  | none => rw [live] at taken; exact down_simulated live admits taken
  | some l =>
    rw [live] at taken
    have shape := inv.shape l live
    cases action with
    | sendOrphan => exact sendOrphan_simulated live shape taken
    | openWriter => exact openWriter_simulated live shape taken
    | produce records now => exact produce_simulated live shape admits taken
    | commitTimeout => exact commitTimeout_simulated live shape taken
    | updateWriter cfg => exact updateWriter_simulated live shape taken
    | segmentDurable => exact segmentDurable_simulated live shape taken
    | shutdownWriter => exact shutdownWriter_simulated live shape taken
    | writer => exact writer_simulated live shape inv.valid taken
    | enqueue msg => exact enqueue_simulated live shape admits taken
    | uploader now => exact uploader_simulated live shape inv.valid taken
    | crash cut => exact crash_simulated live shape taken
    | interrupt rounds => cases taken
    | start cfg => cases taken

theorem Invariant.step (inv : Invariant env regime s) (admits : Admits regime s action)
    (taken : step env action s = some s') : Invariant env regime s' := by
  have simulated := step_simulated inv admits taken
  exact ⟨simulated.shape, inv.valid.step simulated.event⟩

theorem fresh_durable (crc32c : Bytes → UInt32) (stored : Record → Prop) :
    Durable crc32c ∅ Manifest.empty stored [] where
  ordered := Manifest.ordered_empty
  natural := by simp [Manifest.lists, Manifest.empty]
  head := by simp [Holds]
  sorted := by simp [Holds]
  listed := by simp [Holds]
  acked := by simp

theorem reached_invariant (reached : (machine env).Reaches (Admits regime) s) :
    Invariant env regime s := by
  refine reached.invariant ?_ (fun _ _ _ inv admits taken => inv.step admits taken)
  refine ⟨fun l live => ?_, .of_down rfl (fresh_durable _ _)⟩
  cases (show none = some l from live)

end Machine
end Kafkrs.Refinement
