import Kafkrs.Faults

/-! What becomes of acknowledged records when a writer cannot open its next WAL file: nothing is
lost as long as no group commit goes through the old handle, since until then the writer looks
like one that has yet to open the file. -/
namespace Kafkrs.Faults

open Lib Wal Pipeline Kafkrs.Partition Refinement
open Kafkrs.RecoveredLog (produceOne)
open Kafkrs.Lifecycle (Stored Valid appendFile_nil)

section Writing

variable {env : Externals} {regime : Regime} {s next : State} {l : Live} {action : Partition.Action}

/-- The writer's steps do not look at what the uploader is doing. -/
theorem liveStep_blind (phase : Uploader.Phase) (other : ∀ now, action ≠ .uploader now)
    (taken : liveStep env s l action = some next) :
    liveStep env s { l with uploader := { l.uploader with phase := phase } } action =
      some { next with live := (next.live.map fun l' =>
        { l' with uploader := { l'.uploader with phase := phase } }) } := by
  cases liveStep_moved taken with
  | sendOrphan first made => simp [liveStep, first, made]
  | openWriter starting sent => simp [liveStep, starting, sent]
  | produce ready filled stored => simp [liveStep, ready, filled, stored]
  | commitTimeout ready waiting => simp [liveStep, ready, waiting]
  | updateWriter ready => simp [liveStep, ready]
  | segmentDurable first ready => simp [liveStep, first, ready]
  | shutdownWriter ready => simp [liveStep, ready]
  | commit phase => simp [liveStep, writerStep, phase]
  | sealActive phase => simp [liveStep, writerStep, phase]
  | handoff phase => simp [liveStep, writerStep, phase]
  | openNext phase => simp [liveStep, writerStep, phase]
  | enqueue => simp [liveStep]
  | uploader => exact absurd rfl (other _)
  | crash => simp [liveStep, appending]

/-- What the writer's steps leave to the uploader: its phase and the store. -/
theorem liveStep_aside (other : ∀ now, action ≠ .uploader now)
    (taken : liveStep env s l action = some next) :
    next.disk.store = s.disk.store ∧ next.live.all (fun l' => l'.uploader.phase = l.uploader.phase) := by
  cases liveStep_moved taken with
  | uploader => exact absurd rfl (other _)
  | _ => simp

theorem liveStep_attached (attached : l.writer.wal = l.writer.segmentBase)
    (taken : liveStep env s l action = some next) :
    ∀ l', next.live = some l' → l'.writer.wal = l'.writer.segmentBase := by
  intro l' still
  cases liveStep_moved taken with
  | produce ready filled stored =>
    cases still
    obtain ⟨_, _, _, rfl⟩ := PartitionWriter.onProduce_some stored
    exact attached
  | commit =>
    cases still
    simp only [PartitionWriter.flushCommit]
    split <;> exact attached
  | sealActive =>
    cases still
    simp only [PartitionWriter.sealActive]
    split <;> exact attached
  | openNext =>
    cases still
    rfl
  | crash => cases still
  | _ =>
    cases still
    exact attached

/-- A file whose batch has been handed over starts below the next offset. -/
theorem liveStep_ahead (inv : FaultInvariant env regime s) (live : s.live = some l)
    (attached : l.writer.wal = l.writer.segmentBase) (taken : liveStep env s l action = some next) :
    ∀ l', next.live = some l' → between l'.writer.phase = true → l'.writer.wal < l'.writer.nextOffset := by
  have kept := inv.ahead l live
  intro l' still
  cases liveStep_moved taken with
  | produce ready filled stored =>
    cases still
    obtain ⟨_, phase, goes, rfl⟩ := PartitionWriter.onProduce_some stored
    rcases goes with rfl | rfl <;> simp [between]
  | commit =>
    cases still
    simp only [PartitionWriter.flushCommit]
    split <;> (dsimp only; split <;> simp [between])
  | sealActive phase =>
    cases still
    cases active : l.writer.active with
    | nil =>
      simp only [PartitionWriter.sealActive, active, PartitionWriter.resume]
      split <;> simp [between]
    | cons first rest =>
      intro _
      have same : reattached l.writer = l.writer := if_pos attached
      have running := inv.mended.valid.running (view (mendLive s.disk.store l))
        (by simp [abstract, mend_live live])
      have isActive : (view (mendLive s.disk.store l)).active =
          some (l.writer.segmentBase, first :: rest) := by
        simp [view, mendLive, same, phase, between, active]
      have file := (running.activeFile isActive (by simp [view, mendLive, same, phase])).1
      have head := (inv.mended.valid.durable.head _ _ _ file).1
      have low := running.offsets _ _ file first (by simp)
      simp only [view, mendLive, same] at low
      simp only [PartitionWriter.sealActive, active]
      rw [attached]
      omega
  | handoff phase =>
    cases still
    exact fun _ => kept (by simp [phase, between])
  | openNext =>
    cases still
    simp only [PartitionWriter.openNext, PartitionWriter.resume]
    split <;> simp [between]
  | crash => cases still
  | openWriter | commitTimeout | updateWriter | shutdownWriter =>
    cases still
    simp [between, *]
  | sendOrphan | segmentDurable | enqueue | uploader =>
    cases still
    exact kept

theorem liveStep_retrying (inv : FaultInvariant env regime s) (live : s.live = some l)
    (other : ∀ now, action ≠ .uploader now) (taken : liveStep env s l action = some next) :
    ∀ l', next.live = some l' → ∀ batch ∈ uploading l'.uploader.phase,
      next.disk.store.manifest.lists batch.baseOffset = true →
        next.disk.store.objects[batch.baseOffset]? = some batch.records := by
  intro l' still batch busy
  obtain ⟨store, phase⟩ := liveStep_aside other taken
  rw [still] at phase
  simp only [Option.all_some, decide_eq_true_eq] at phase
  rw [phase] at busy
  rw [store]
  exact inv.retrying l live batch busy

/-- A step on the right file is one of the partition whose calls all succeed. -/
theorem attached_step (inv : FaultInvariant env regime s) (live : s.live = some l)
    (attached : l.writer.wal = l.writer.segmentBase) (other : ∀ now, action ≠ .uploader now)
    (admits : Admits regime s action) (taken : liveStep env s l action = some next) :
    Mended env regime s next := by
  have own := mend_live live
  have still := liveStep_attached attached taken
  obtain ⟨store, phase⟩ := liveStep_aside other taken
  have blind := liveStep_blind (settled s.disk.store l.uploader.phase) other taken
  have after : Partition.step env action (mend s) = some (mend next) := by
    have same : mendLive s.disk.store l =
        { l with uploader := { l.uploader with phase := settled s.disk.store l.uploader.phase } } := by
      simp [mendLive, reattached, attached]
    have alike : liveStep env (mend s) (mendLive s.disk.store l) action =
        liveStep env s (mendLive s.disk.store l) action := by
      cases action <;> rfl
    simp only [Partition.step, own]
    rw [alike, same, blind]
    cases live' : next.live with
    | none => simp [mend, live']
    | some l' =>
      rw [live'] at phase
      simp only [Option.all_some, decide_eq_true_eq] at phase
      simp [mend, live', mendLive, reattached, still l' live', store, phase]
  have simulated := step_simulated inv.mended (show Admits regime (mend s) action by
    cases action <;> exact admits) after
  exact ⟨⟨⟨simulated.shape, inv.mended.valid.step simulated.event⟩,
    fun l' now lost => absurd (still l' now) lost, liveStep_ahead inv live attached taken,
    liveStep_retrying inv live other taken⟩, simulated.event⟩

/-- A live state on the wrong file, from one that has the same uploader and store. -/
theorem FaultInvariant.of_detached (inv : FaultInvariant env regime s) (live : s.live = some l)
    {l' : Live} (still : next.live = some l') (simulated : Simulated env regime (mend s) (mend next))
    (detached : Detached l'.writer) (store : next.disk.store = s.disk.store)
    (phase : l'.uploader.phase = l.uploader.phase) : Mended env regime s next := by
  have only : ∀ other, next.live = some other → other = l' := by
    intro other same
    exact (Option.some.inj (still.symm.trans same)).symm
  refine ⟨⟨⟨simulated.shape, inv.mended.valid.step simulated.event⟩, fun other same _ => ?_,
    fun other same off => ?_, fun other same batch busy => ?_⟩, simulated.event⟩
  all_goals obtain rfl := only other same
  · exact detached
  · rw [detached.past.1] at off
    cases off
  · rw [phase] at busy
    rw [store]
    exact inv.retrying l live batch busy

theorem Detached.moved {w w' : PartitionWriter} (detached : Detached w)
    (active : w'.active = w.active) (past : between w'.phase = false ∧ w'.phase ≠ .starting)
    (committed : w'.phase ≠ .recv → w'.phase ≠ .commit → w'.pending = []) : Detached w' :=
  ⟨active.trans detached.sealedOff, past, committed⟩

theorem Detached.shape {w : PartitionWriter} (detached : Detached w) (lost : w.wal ≠ w.segmentBase) :
    WriterShape (reattached w) := by
  simp only [reattached, lost, if_false]
  exact ⟨by simp [handing], fun _ _ => rfl, fun _ => detached.sealedOff, rfl⟩

section Detached

variable {w w' : PartitionWriter} (detached : Detached w) (lost : w.wal ≠ w.segmentBase)
include detached lost

theorem Detached.receive {records : List IncomingRecord} {now : Nat → Int64}
    (stored : w.onProduce records now = some w') : Detached w' ∧ reattached w' = reattached w := by
  obtain ⟨_, phase, goes, rfl⟩ := PartitionWriter.onProduce_some stored
  refine ⟨detached.moved rfl ?_ ?_, ?_⟩
  · rcases goes with rfl | rfl <;> simp [between]
  · rcases goes with rfl | rfl <;> simp
  · simp only [reattached, lost, if_false, List.length_append, PartitionWriter.stamp_length]
    push_cast
    congr 1
    omega

theorem Detached.flush (empty : w.pending = []) :
    Detached w.flushCommit ∧ reattached w.flushCommit = reattached w := by
  have flushed : w.flushCommit = { w with phase := if w.stopping then .seal else .recv } := by
    simp [PartitionWriter.flushCommit, empty]
  rw [flushed]
  refine ⟨detached.moved rfl ?_ fun _ _ => empty, by simp [reattached, lost]⟩
  dsimp only
  split <;> simp [between]

theorem Detached.sealActive (phase : w.phase = .seal) :
    Detached w.sealActive ∧ reattached w.sealActive = reattached w := by
  have none := detached.committed (by simp [phase]) (by simp [phase])
  have stays : w.sealActive = { w with phase := w.resume } := by
    simp [PartitionWriter.sealActive, detached.sealedOff]
  rw [stays]
  refine ⟨detached.moved rfl ?_ fun _ _ => none, by simp [reattached, lost]⟩
  simp only [PartitionWriter.resume]
  split <;> simp [between]

end Detached

section OldHandle

variable (inv : FaultInvariant env regime s) (live : s.live = some l)
include inv live

/-- A step of the writer that does not show. -/
theorem FaultInvariant.hidden {w : PartitionWriter} (detached : Detached w)
    (same : reattached w = reattached l.writer) :
    Mended env regime s { s with live := some { l with writer := w } } := by
  refine inv.of_detached live rfl ?_ detached rfl rfl
  have unchanged : mend { s with live := some { l with writer := w } } = mend s := by
    simp [mend, live, mendLive, same]
  rw [unchanged]
  exact ⟨.idle _, inv.mended.shape⟩

variable (lost : l.writer.wal ≠ l.writer.segmentBase)
include lost

/-- Nothing was recovered that the uploader has not got yet. -/
theorem FaultInvariant.sent : l.orphans = [] :=
  (inv.mended.shape _ (mend_live live)).orphans (by simp [mendLive, reattached, lost])

/-- A step of the writer that only its own policy or shutdown depends on. -/
theorem FaultInvariant.turned {w : PartitionWriter} (detached : Detached w) (lost' : w.wal ≠ w.segmentBase)
    (sight : view (mendLive s.disk.store { l with writer := w }) = view (mendLive s.disk.store l)) :
    Mended env regime s { s with live := some { l with writer := w } } := by
  have shape := inv.mended.shape _ (mend_live live)
  have sent := inv.sent live lost
  refine inv.of_detached live rfl ?_ detached rfl rfl
  exact .quiet (mend_live live) sight ⟨detached.shape lost', shape.uploader, fun _ => sent⟩

theorem FaultInvariant.forget {base : Int} {rest : List Int} (first : l.durable = base :: rest) :
    Mended env regime s { s with
      disk := { s.disk with wal := s.disk.wal.erase base }
      live := some { l with writer := l.writer.onDurable base, durable := rest } } := by
  have own := mend_live live
  have detached := inv.detached l live lost
  have shape := inv.mended.shape _ own
  have sent := inv.sent live lost
  have moved : Detached (l.writer.onDurable base) :=
    detached.moved rfl detached.past detached.committed
  have after : view (mendLive s.disk.store
      { l with writer := l.writer.onDurable base, durable := rest }) =
        { view (mendLive s.disk.store l) with
          notified := rest ++ reporting (settled s.disk.store l.uploader.phase) } := by
    simp [view, mendLive, reattached, lost, PartitionWriter.onDurable]
  have simulated : Simulated env regime (mend s) (mend { s with
      disk := { s.disk with wal := s.disk.wal.erase base }
      live := some { l with writer := l.writer.onDurable base, durable := rest } }) := by
    constructor
    · simp only [abstract, own]
      simp only [mend, Option.map_some]
      rw [after]
      exact .remove (by simp [view, mendLive, first])
    · intro l' now
      obtain rfl := Option.some.inj now
      exact ⟨moved.shape lost, shape.uploader, fun _ => sent⟩
  exact inv.of_detached live rfl simulated moved rfl rfl

/-- A crash finds nothing half written. -/
theorem FaultInvariant.crash (guarded : Attached s) {cut : Nat}
    (taken : liveStep env s l (.crash cut) = some next) : Mended env regime s next := by
  have nothing : appending l = [] := by
    simp only [appending, ite_eq_right_iff]
    intro phase
    by_contra filled
    exact lost (guarded l live phase filled)
  have none : fitting (encodeRecord env.crc32c) cut [] = [] := rfl
  simp only [liveStep, nothing, encodeAll_nil, List.take_nil, appendFile_nil, none, List.append_nil,
    Option.some.injEq] at taken
  subst taken
  have simulated : Simulated env regime (mend s) ⟨s.disk, Option.none, s.history⟩ := by
    refine ⟨?_, fun l' now => by cases now⟩
    simp only [abstract, mend_live live, Option.map_some, Option.map_none]
    exact .crash
  refine ⟨⟨⟨simulated.shape, inv.mended.valid.step simulated.event⟩, ?_, ?_, ?_⟩, simulated.event⟩
  all_goals
    intro l' now
    cases now

/-- On an old handle only the shutdown and the uploader's reports still do something. -/
theorem detached_step (guarded : Attached s) (other : ∀ now, action ≠ .uploader now)
    (admits : Admits regime s action) (taken : liveStep env s l action = some next) :
    Mended env regime s next := by
  have detached := inv.detached l live lost
  cases liveStep_moved taken with
  | sendOrphan first made =>
    rw [inv.sent live lost] at first
    cases first
  | openWriter starting sent => exact absurd starting detached.past.2
  | produce ready filled stored =>
    obtain ⟨moved, same⟩ := detached.receive lost stored
    exact inv.hidden live moved same
  | commitTimeout ready waiting =>
    have moved : Detached { l.writer with phase := .commit } :=
      detached.moved rfl (by simp [between]) (by simp)
    exact inv.hidden live moved (by simp [reattached, lost])
  | updateWriter ready =>
    rename_i cfg
    have moved : Detached { l.writer with cfg := cfg } :=
      detached.moved rfl detached.past detached.committed
    exact inv.turned live lost moved lost (by simp [view, mendLive, reattached, lost])
  | segmentDurable first ready => exact inv.forget live lost first
  | shutdownWriter ready =>
    have moved : Detached { l.writer with phase := .commit, stopping := true } :=
      detached.moved rfl (by simp [between]) (by simp)
    exact inv.turned live lost moved lost (by simp [view, mendLive, reattached, lost])
  | commit phase =>
    have empty : l.writer.pending = [] := by
      by_contra filled
      exact lost (guarded l live phase filled)
    obtain ⟨moved, same⟩ := detached.flush lost empty
    simp only [empty, List.isEmpty_nil, if_true, List.append_nil]
    exact inv.hidden live moved same
  | sealActive phase =>
    obtain ⟨moved, same⟩ := detached.sealActive lost phase
    exact inv.hidden live moved same
  | handoff phase | openNext phase =>
    have := detached.past.1
    simp [phase, between] at this
  | enqueue =>
    rename_i msg
    have after : Partition.step env (.enqueue msg) (mend s) = some (mend { s with live := some { l with
        uploader := { l.uploader with rx := l.uploader.rx ++ [.control msg] } } }) := by
      simp only [Partition.step, mend_live live]
      rfl
    exact inv.of_detached live rfl (step_simulated inv.mended admits after) detached rfl rfl
  | uploader => exact absurd rfl (other _)
  | crash => exact inv.crash live lost guarded taken

end OldHandle

theorem openFails_step (inv : FaultInvariant env regime s) (taken : step env .openFails s = some next) :
    Mended env regime s next := by
  obtain ⟨l, live, taken⟩ := Option.bind_eq_some_iff.mp taken
  split at taken
  next phase =>
    cases taken
    have own := mend_live live
    have attached : l.writer.wal = l.writer.segmentBase := by
      by_contra lost
      have := (inv.detached l live lost).past.1
      simp [phase, between] at this
    have same : reattached l.writer = l.writer := if_pos attached
    have ahead := inv.ahead l live (by simp [phase, between])
    have shape := inv.mended.shape _ own
    have writer : WriterShape l.writer := same ▸ shape.writer
    have empty := writer.committed (by simp [phase]) (by simp [phase])
    have lost : (openFailed l.writer).wal ≠ (openFailed l.writer).segmentBase := ne_of_lt ahead
    have detached : Detached (openFailed l.writer) := by
      refine ⟨writer.sealedOff (by simp [phase, between]), ?_, fun _ _ => empty⟩
      simp only [openFailed, PartitionWriter.resume]
      split <;> simp [between]
    have after : reattached (openFailed l.writer) =
        { l.writer with
          segmentBase := l.writer.nextOffset, phase := .openNext, wal := l.writer.nextOffset,
          pending := [], pendingAcks := [], pendingFirstArrival := false } := by
      rw [reattached, if_neg lost]
      simp [openFailed, empty]
    have simulated : Simulated env regime (mend s)
        (mend { s with live := some { l with writer := openFailed l.writer } }) := by
      refine .quiet own ?_ ⟨detached.shape lost, shape.uploader,
        fun _ => shape.orphans (by simp [mendLive, same, phase])⟩
      simp [view, mendLive, after, same, phase, between, handing, empty]
    exact inv.of_detached live rfl simulated detached rfl rfl
  next => cases taken

end Writing

section Runs

variable {env : Externals} {regime : Regime} {s next : State} {action : Action}

theorem mend_begun (attached : ∀ l, s.live = some l → l.writer.wal = l.writer.segmentBase ∧
    between l.writer.phase = false ∧ uploading l.uploader.phase = []) : mend s = s := by
  cases live : s.live with
  | none => rw [mend, live, Option.map_none, ← live]
  | some l =>
    obtain ⟨onFile, _, idle⟩ := attached l live
    simp only [mend, live, Option.map_some, mendLive, reattached, if_pos onFile, settled_idle idle]
    rw [← live]

theorem FaultInvariant.down (inv : Invariant env regime s) (attached : ∀ l, s.live = some l →
    l.writer.wal = l.writer.segmentBase ∧ between l.writer.phase = false ∧
      uploading l.uploader.phase = []) : FaultInvariant env regime s := by
  refine ⟨(mend_begun attached).symm ▸ inv, fun l live lost => absurd (attached l live).1 lost, fun l live off => ?_,
    fun l live batch busy => ?_⟩
  · rw [(attached l live).2.1] at off
    cases off
  · rw [(attached l live).2.2] at busy
    cases busy

theorem FaultInvariant.step (inv : FaultInvariant env regime s) (guarded : Guarded regime s action)
    (taken : step env action s = some next) : Mended env regime s next := by
  cases action with
  | uploader now outcome => exact store_step inv taken
  | openFails => exact openFails_step inv taken
  | step action =>
    by_cases stored : ∃ now, action = .uploader now
    · obtain ⟨now, rfl⟩ := stored
      rw [step_uploader] at taken
      exact store_step inv taken
    · have other (now : Int) : action ≠ .uploader now := fun same => stored ⟨now, same⟩
      simp only [Faults.step, Partition.step] at taken
      cases live : s.live with
      | some l =>
        simp only [live] at taken
        by_cases attached : l.writer.wal = l.writer.segmentBase
        · exact attached_step inv live attached other guarded.1 taken
        · exact detached_step inv live attached guarded.2 other guarded.1 taken
      | none =>
        have same : mend s = s := by rw [mend, live, Option.map_none, ← live]
        have before : Invariant env regime s := same ▸ inv.mended
        have simulated := step_simulated before guarded.1 (by simpa only [Partition.step, live] using taken)
        simp only [live] at taken
        have begun : ∀ l, next.live = some l → l.writer.wal = l.writer.segmentBase ∧
            between l.writer.phase = false ∧ uploading l.uploader.phase = [] := by
          intro l' now
          cases action with
          | start cfg =>
            cases taken
            cases now
            exact ⟨rfl, rfl, rfl⟩
          | interrupt rounds =>
            cases taken
            exact absurd (live.symm.trans now) (by simp)
          | _ => cases taken
        refine ⟨.down ⟨simulated.shape, before.valid.step simulated.event⟩ begun, ?_⟩
        rw [same, mend_begun begun]
        exact simulated.event

theorem reached_mended (reached : (machine env).Reaches (Guarded regime) s) :
    FaultInvariant env regime s := by
  refine reached.invariant (.down (reached_invariant (Machine.Reaches.initial _)) fun l live => ?_)
    (fun _ _ _ inv guarded taken => (inv.step guarded taken).invariant)
  cases (show none = some l from live)

end Runs

/-- Every acknowledged record is evicted, in the object of a listed segment or in a WAL file, and
the file `on_durable` removes next holds none that only it has. -/
structure Safe (crc32c : Bytes → UInt32) (s : State) : Prop where
  acked : ∀ r ∈ s.history.acked, Stored s.disk.store s.history.evicted r ∨
    ∃ base records, Holds crc32c s.disk.wal base records ∧ r ∈ records
  removed : ∀ l base rest, s.live = some l → l.durable = base :: rest →
    ∀ records, Holds crc32c s.disk.wal base records →
      ∀ r ∈ records, Stored s.disk.store s.history.evicted r

/-- Over any number of lives in which store calls and the opens at seals may fail, no
acknowledged record is lost as long as no group commit goes through the handle of an older
segment. -/
theorem acked_safe (env : Externals) {s : State}
    (reached : (machine env).Reaches (Guarded .any) s) : Safe env.crc32c s := by
  have valid := (reached_mended reached).mended.valid
  refine ⟨valid.durable.acked, fun l base rest live reported records held => ?_⟩
  have running := valid.running (view (mendLive s.disk.store l)) (by simp [abstract, mend_live live])
  exact running.notified base (by simp [view, mendLive, reported]) records held

instance (s : State) : Decidable (Attached s) :=
  decidable_of_iff (∀ l ∈ s.live, l.writer.phase = .commit → l.writer.pending ≠ [] →
    l.writer.wal = l.writer.segmentBase)
    ⟨fun all l live => all l live, fun all l live => all l live⟩

instance (regime : Regime) [DecidablePred regime.policy] [DecidablePred regime.boot] (s : State) :
    DecidablePred (Guarded regime s)
  | .step action => inferInstanceAs (Decidable (Admits regime s action ∧ Attached s))
  | .uploader _ _ | .openFails => inferInstanceAs (Decidable (True ∧ Attached s))

/-- A segment is sealed and handed over, and its successor cannot be opened. -/
def failedOpen : List Action :=
  ([.start settings, .openWriter] ++ produceOne 1 ++ produceOne 2 ++ [.writer, .writer] :
    List Partition.Action).map .step ++ [.openFails]

/-- The manifest is written but not answered for, and the upload made again; the segment's file
goes only when it is listed. -/
def retriedUpload : List Action :=
  [.uploader 0 .ok, .uploader 0 .ok, .uploader 0 (.failed true), .uploader 0 .ok, .uploader 0 .ok,
    .uploader 0 .ok, .step .segmentDurable]

theorem acked_safe_retriedUpload : ∃ s,
    (machine externals).execute (failedOpen ++ retriedUpload) fresh = some s ∧
    s.history.acked.length = 2 ∧ s.disk.wal.keys = [] ∧ Safe crc32c s := by
  have runs : ((machine externals).execute (failedOpen ++ retriedUpload) fresh).any
      (fun s => decide (s.history.acked.length = 2 ∧ s.disk.wal.keys = [])) = true := by
    decide +kernel
  have along : (machine externals).Along (Guarded .any) (failedOpen ++ retriedUpload) fresh := by
    decide +kernel
  obtain ⟨s, ran, facts⟩ := Option.any_eq_true _ _ |>.mp runs
  obtain ⟨acked, empty⟩ := of_decide_eq_true facts
  exact ⟨s, ran, acked, empty, acked_safe externals ⟨_, along, ran⟩⟩

/-- A record committed after the failed open goes to the old file, which the completion of the
old segment removes. -/
def lostRun : List Action :=
  failedOpen ++ (produceOne 3).map .step ++ List.replicate 4 (.uploader 0 .ok) ++ [.step .segmentDurable]

theorem lostRun_loses : ∃ s r, (machine externals).execute lostRun fresh = some s ∧
    r ∈ s.history.acked ∧ s.history.evicted = [] ∧ s.disk.wal.keys = [] ∧
    ¬ Stored s.disk.store s.history.evicted r ∧ ¬ Safe crc32c s := by
  have runs : ((machine externals).execute lostRun fresh).any (fun s =>
      s.history.acked.any (fun r => decide (s.history.evicted = [] ∧ s.disk.wal.keys = [] ∧
        ∀ base ∈ s.disk.store.objects.keys, r ∉ (s.disk.store.objects[base]?).getD []))) = true := by
    decide +kernel
  obtain ⟨s, ran, facts⟩ := Option.any_eq_true _ _ |>.mp runs
  obtain ⟨r, acked, facts⟩ := List.any_eq_true.mp facts
  obtain ⟨unevicted, empty, absent⟩ := of_decide_eq_true facts
  have unstored : ¬ Stored s.disk.store s.history.evicted r := by
    rintro (gone | ⟨base, records, _, found, inside⟩)
    · rw [unevicted] at gone
      cases gone
    · have known : base ∈ s.disk.store.objects.keys := (Dir.mem_keys _).mpr (by simp [found])
      exact absent base known (by simpa [found] using inside)
  refine ⟨s, r, ran, acked, unevicted, empty, unstored, fun safe => ?_⟩
  rcases safe.acked r acked with stored | ⟨base, records, ⟨bytes, found, _⟩, _⟩
  · exact unstored stored
  · have known : base ∈ s.disk.wal.keys := (Dir.mem_keys _).mpr (by simp [found])
    rw [empty] at known
    cases known

end Kafkrs.Faults
