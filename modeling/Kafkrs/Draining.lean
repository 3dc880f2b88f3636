import Kafkrs.Channels
import Kafkrs.Durability
import Kafkrs.InMemory
import Kafkrs.Lib.Ranked

/-! What happens to a partition that is left alone. Its actors pass records on in one direction
only, so without new requests they come to rest, and at rest nothing is left on the way: every
request is answered, and every record is in an uploaded segment or in the one active WAL file. -/
namespace Kafkrs.Draining

open Lib Wal Pipeline Refinement Continuity RecoveredLog
open Kafkrs.Partition (Externals Framed Admits Regime liveStep)
open Kafkrs.Channels

section Work

/-- Steps a message in the uploader's inbox gives rise to, with those of its completion. -/
def msgWork : UploaderMsg → Nat
  | .upload _ => 10
  | .control .retentionKick => 3
  | .control _ => 1

def passWork : Uploader.Phase → Nat
  | .recv | .stopped => 0
  | .putSegment _ => 9
  | .putManifest _ => 8
  | .notify _ => 6
  | .retention => 2
  | .delete evict => evict.length + 1

/-- Each listed segment may still have to be deleted once. -/
def uploaderWork (u : Uploader) (st : Store) : Nat :=
  passWork u.phase + (u.rx.map msgWork).sum + st.manifest.segments.length

def writerWork (w : PartitionWriter) : Nat :=
  match w.phase with
  | .recv => if w.pendingFirstArrival then 15 else 0
  | .commit => 14
  | .seal => 13
  | .handoff _ => 12
  | .openNext => 1
  | .starting | .stopped => 0

def inboxWork : PwMsg → Nat
  | .client (.produce _ _) => 16
  | _ => 1

/-- A bound on the steps the actors can still take by themselves. -/
def work (s : State) : Nat :=
  (s.inbox.map inboxWork).sum + writerWork s.writer + uploaderWork s.uploader s.disk.store +
    3 * s.durable.length + 2 * s.hand.toList.length

theorem add_length (m : Manifest) (entry : SegmentEntry) :
    (m.add entry).segments.length = m.segments.length + 1 := by
  simp [Manifest.add, List.length_insertionSort]

/-- Each step of the uploader takes off its work, and what it reports is paid for. -/
theorem uploader_falls {segmentSize : List Record → Nat} {now : Int} {u : Uploader} {st : Store}
    {effect : Uploader.Effect} (ordered : st.manifest.Ordered)
    (stepped : u.step segmentSize now .ok st = some effect) :
    uploaderWork effect.uploader effect.store + 3 * effect.durable.length < uploaderWork u st := by
  cases Uploader.step_moved stepped with
  | upload phase shape | retentionKick phase shape | updateConfig phase shape | shutdown phase shape =>
    simp only [uploaderWork, phase, shape, passWork, msgWork, List.map_cons, List.sum_cons,
      List.length_nil]
    omega
  | putSegment phase | notify phase | spare phase | deleted phase | delete phase =>
    simp only [uploaderWork, phase, passWork, if_true, Outcome.applied, List.length_nil,
      List.length_cons]
    omega
  | putManifest phase =>
    simp only [uploaderWork, phase, passWork, if_true, Outcome.applied, true_and, List.length_nil]
    split
    · rw [add_length]
      omega
    · omega
  | evict phase chosen =>
    obtain ⟨kept, split, after, _⟩ := Lifecycle.evict_split ordered u.cfg now
    rw [chosen] at split after
    simp only [uploaderWork, phase, passWork, if_true, Outcome.applied, after, split,
      List.length_append, List.length_nil]
    omega

/-- A writer past its construction that has not been asked to stop: the arrival time is set exactly
while records wait. -/
structure Timed (w : PartitionWriter) : Prop where
  arrival : w.pendingFirstArrival = true ↔ w.pending ≠ []
  committed : w.phase ≠ .recv → w.phase ≠ .commit → w.pending = []

/-- A writer that is back at its loop without waiting records has nothing to do. -/
theorem resume_idle {w : PartitionWriter} (serving : Serving w) (quiet : w.pendingFirstArrival = false) :
    writerWork { w with phase := w.resume } = 0 := by
  simp [writerWork, PartitionWriter.resume, serving.stopping, quiet]

theorem flushCommit_falls {w : PartitionWriter} (serving : Serving w) (timed : Timed w) :
    writerWork w.flushCommit < 14 := by
  have stopping := serving.stopping
  unfold PartitionWriter.flushCommit
  by_cases empty : w.pending = []
  · have quiet : w.pendingFirstArrival = false := by simpa [empty] using timed.arrival
    simp [empty, stopping, writerWork, quiet]
  · have filled : w.pending.isEmpty = false := by simpa using empty
    simp only [filled, Bool.false_eq_true, if_false, stopping, or_false]
    by_cases full : w.cfg.segmentSizeBytes ≤ w.activeBytes + (w.pending.map Record.size).sum
    all_goals simp [writerWork, full]

/-- A step of the writer's handler takes off its work, and a batch it hands over is paid for. -/
theorem writer_falls {env : Externals} {s t : State} (serving : Serving s.writer)
    (timed : Timed s.writer) (taken : handle env s .writer = some t) : work t < work s := by
  obtain ⟨p, worked, installed⟩ := Option.bind_eq_some_iff.mp taken
  have quiet (settled : s.writer.pending = []) : s.writer.pendingFirstArrival = false := by
    simpa [settled] using timed.arrival
  simp only [liveStep, Kafkrs.Partition.writerStep, State.live, State.partition] at worked
  cases phase : s.writer.phase with
  | commit =>
    simp only [phase, Option.some.injEq] at worked
    subst worked
    cases installed
    have falls := flushCommit_falls serving timed
    have before : writerWork s.writer = 14 := by simp [writerWork, phase]
    simp only [work]
    omega
  | «seal» =>
    simp only [phase, Option.some.injEq] at worked
    subst worked
    cases installed
    have committed := timed.committed (by simp [phase]) (by simp [phase])
    have before : writerWork s.writer = 13 := by simp [writerWork, phase]
    have falls : writerWork s.writer.sealActive < 13 := by
      unfold PartitionWriter.sealActive
      split
      · rw [resume_idle serving (quiet committed)]
        decide
      · simp [writerWork]
    simp only [work]
    omega
  | handoff batch =>
    simp only [phase, Option.some.injEq] at worked
    subst worked
    cases installed
    simp [work, writerWork, uploaderWork, phase, msgWork]
    omega
  | openNext =>
    simp only [phase, Option.some.injEq] at worked
    subst worked
    cases installed
    have committed := timed.committed (by simp [phase]) (by simp [phase])
    have before : writerWork s.writer = 1 := by simp [writerWork, phase]
    have idle : writerWork s.writer.openNext = 0 := by
      simp [writerWork, PartitionWriter.openNext, PartitionWriter.resume, serving.stopping,
        quiet committed]
    simp only [work]
    omega
  | starting | recv | stopped => simp [phase] at worked

/-- What the handler of a message starts is paid for by the message. -/
theorem message_falls {env : Externals} {s t : State} {now : Nat → Int64} {msg : PwMsg}
    (idle : s.writer.phase = .recv) (taken : onMessage env now s msg = some t) :
    work t < work s + inboxWork msg := by
  rcases msg with (⟨first, more⟩ | _ | _ | cfg) | base
  · simp only [onMessage] at taken
    cases handled : handle env s (.produce (first :: more) now) with
    | none =>
      rw [handled] at taken
      cases taken
      simp [inboxWork]
    | some next =>
      rw [handled] at taken
      cases taken
      rw [handle_produce idle] at handled
      obtain ⟨w, produced, rfl⟩ := Option.map_eq_some_iff.mp handled
      have most : writerWork w ≤ 15 := by
        obtain ⟨_, phase, goes, rfl⟩ := PartitionWriter.onProduce_some produced
        rcases goes with rfl | rfl <;> simp [writerWork]
      simp only [work, inboxWork]
      omega
  · cases taken
    simp [inboxWork]
  · cases taken
    simp [inboxWork]
  · rw [onMessage, handle_updateWriter idle] at taken
    cases taken
    simp [work, writerWork, inboxWork]
  · cases taken
    exact Nat.lt_succ_self (work s)

end Work

section Steps

variable {env : Externals} {s t : State}

/-- Every step of an actor takes off the work that is left. -/
theorem actor_falls {action : Action} (invariant : Invariant s) (timed : Timed s.writer)
    (ordered : s.disk.store.manifest.Ordered) (actor : action.isActor = true)
    (taken : step env action s = some t) : work t < work s := by
  cases action with
  | client msg | control msg => cases actor
  | receive now =>
    simp only [step] at taken
    split at taken
    · cases taken
    next msg rest inbox =>
      split at taken
      next idle =>
        have popped : { s with inbox := rest }.writer.phase = .recv := idle
        have paid := message_falls popped taken
        simp only [work, inbox, List.map_cons, List.sum_cons] at paid ⊢
        omega
      · cases taken
  | commitTimeout =>
    have ready : s.writer.phase = .recv ∧ s.writer.pendingFirstArrival = true := by
      obtain ⟨p, worked, _⟩ := Option.bind_eq_some_iff.mp
        (show handle env s .commitTimeout = some t from taken)
      cases Kafkrs.Partition.liveStep_moved worked with
      | commitTimeout ready waiting => exact ⟨ready, waiting⟩
    rw [handle_commitTimeout taken]
    simp [work, writerWork, ready]
  | writer =>
    simp only [step] at taken
    split at taken
    · cases taken
    · exact writer_falls invariant.serving timed taken
  | uploader now =>
    simp only [step] at taken
    split at taken
    · cases taken
    · obtain ⟨effect, history, stepped, rfl⟩ := handle_uploader taken
      have falls := uploader_falls ordered stepped
      simp only [work, List.length_append]
      omega
  | forward =>
    simp only [step] at taken
    split at taken
    next base hand =>
      split at taken
      · cases taken
        simp [work, hand, inboxWork]
        omega
      · cases taken
    next hand =>
      split at taken
      · cases taken
      next base rest durable =>
        cases taken
        simp [work, hand, durable]
        omega

theorem handle_inbox {action : Kafkrs.Partition.Action} (taken : handle env s action = some t) :
    t.inbox = s.inbox := by
  obtain ⟨p, _, installed⟩ := Option.bind_eq_some_iff.mp taken
  obtain ⟨l, _, rfl⟩ := Option.map_eq_some_iff.mp installed
  rfl

/-- Client messages come into the inbox from clients only. -/
theorem inbox_step {action : Action} {msg : ClientMsg} (taken : step env action s = some t)
    (member : .client msg ∈ t.inbox) : .client msg ∈ s.inbox ∨ action = .client msg := by
  cases action with
  | client other =>
    simp only [step] at taken
    split at taken
    · cases taken
      simpa [eq_comm] using member
    · cases taken
  | control other =>
    simp only [step] at taken
    split at taken
    · rw [handle_inbox taken] at member
      exact .inl member
    · cases taken
  | receive now =>
    simp only [step] at taken
    split at taken
    · cases taken
    next first rest inbox =>
      rw [inbox]
      split at taken
      · refine .inl (List.mem_cons_of_mem _ ?_)
        rcases first with (⟨inc, more⟩ | _ | _ | cfg) | base
        · simp only [onMessage] at taken
          cases handled : handle env { s with inbox := rest } (.produce (inc :: more) now) with
          | none =>
            rw [handled] at taken
            cases taken
            exact member
          | some next =>
            rw [handled] at taken
            cases taken
            rwa [handle_inbox handled] at member
        · cases taken; exact member
        · cases taken; exact member
        · rwa [handle_inbox taken] at member
        · cases taken; exact member
      · cases taken
  | commitTimeout =>
    rw [@handle_inbox env s t .commitTimeout taken] at member
    exact .inl member
  | writer =>
    simp only [step] at taken
    split at taken
    · cases taken
    · rw [handle_inbox taken] at member
      exact .inl member
  | uploader now =>
    simp only [step] at taken
    split at taken
    · cases taken
    · rw [handle_inbox taken] at member
      exact .inl member
  | forward =>
    simp only [step] at taken
    split at taken
    · split at taken
      · cases taken
        simpa using member
      · cases taken
    · split at taken
      · cases taken
      · cases taken
        exact .inl member

def Arrived (p : Kafkrs.Partition.State) : Prop :=
  ∀ l, p.live = some l → (l.writer.pendingFirstArrival = true ↔ l.writer.pending ≠ [])

theorem Arrived.step {p next : Kafkrs.Partition.State} {action : Kafkrs.Partition.Action}
    (arrival : Arrived p) (taken : Kafkrs.Partition.step env action p = some next) :
    Arrived next := by
  intro l' live'
  cases Kafkrs.Partition.step_stepped taken with
  | interrupt down => rw [show p.live = some l' from live'] at down; cases down
  | start =>
    cases live'
    simp [PartitionWriter.new]
  | @moved l _ _ live moved =>
    have before := arrival l live
    cases moved with
    | crash => cases live'
    | @produce records now w ready filled stored =>
      cases live'
      obtain ⟨_, phase, _, rfl⟩ := PartitionWriter.onProduce_some stored
      have stamped : PartitionWriter.stamp now l.writer.nextOffset records ≠ [] := by
        intro empty
        have length := PartitionWriter.stamp_length now l.writer.nextOffset records
        rw [empty] at length
        exact filled (List.length_eq_zero_iff.mp length.symm)
      simp [stamped]
    | commit =>
      cases live'
      simp only [PartitionWriter.flushCommit]
      split
      · exact before
      · simp
    | sealActive =>
      cases live'
      simp only [PartitionWriter.sealActive]
      split <;> exact before
    | _ => cases live'; exact before

end Steps

section Rest

variable {env : Externals} {regime : Regime} {s t : State}

structure Sound (env : Externals) (regime : Regime) (s : State) : Prop where
  channels : Invariant s
  reached : (Kafkrs.Partition.machine env).Reaches (Admits regime) s.unbounded
  framed : ∀ first rest, .client (.produce first rest) ∈ s.inbox → Framed (first :: rest)

/-- Clients send records the wire layer lets through, and the path stays uncongested. -/
def Admitted (s : State) : Action → Prop
  | .client (.produce first rest) => Framed (first :: rest)
  | action => Uncongested s action

instance (s : State) : DecidablePred (Admitted s)
  | .client (.produce first rest) => inferInstanceAs (Decidable (Framed (first :: rest)))
  | .client (.locate _) | .client (.readActive _ _) | .client (.updateConfig _) =>
    inferInstanceAs (Decidable True)
  | .control msg => inferInstanceAs (Decidable (Uncongested s (.control msg)))
  | .writer => inferInstanceAs (Decidable (Uncongested s .writer))
  | .receive _ | .commitTimeout | .uploader _ | .forward => inferInstanceAs (Decidable True)

theorem Admitted.uncongested {action : Action} (admitted : Admitted s action) :
    Uncongested s action := by
  unfold Admitted at admitted
  split at admitted
  · trivial
  · exact admitted

theorem Sound.step (sound : Sound env regime s) (free : ∀ cfg, regime.policy cfg)
    {action : Action} (admitted : Admitted s action) (taken : step env action s = some t) :
    Sound env regime t := by
  refine ⟨sound.channels.step admitted.uncongested taken, ?_, fun first rest member => ?_⟩
  · rcases step_refines taken with same | ⟨b, source, refined⟩
    · rw [same]
      exact sound.reached
    · refine sound.reached.next ?_ refined
      cases b with
      | produce records now =>
        obtain ⟨first, rest, rfl, inside⟩ := source records now rfl
        exact sound.framed first rest inside
      | start cfg => cases Kafkrs.Partition.down_of_start refined
      | enqueue msg =>
        cases msg with
        | updateConfig cfg => exact free cfg
        | retentionKick | shutdown => trivial
      | _ => trivial
  · rcases inbox_step taken member with old | new
    · exact sound.framed first rest old
    · rw [new] at admitted
      exact admitted

theorem Sound.timed (sound : Sound env regime s) : Timed s.writer := by
  have arrival : Arrived s.unbounded :=
    sound.reached.invariant (fun l none => by cases none)
      fun _ _ _ arrival _ taken => arrival.step taken
  have shape := (reached_invariant sound.reached).shape _ rfl
  exact ⟨arrival _ rfl, shape.writer.committed⟩

theorem Sound.ordered (sound : Sound env regime s) : s.disk.store.manifest.Ordered :=
  (reached_invariant sound.reached).valid.durable.ordered

theorem falls (env : Externals) (start : State) :
    Machine.Falls (machine env start) (fun s action => Uncongested s action ∧ action.isActor = true)
      (Sound env (cleanly env)) work := by
  intro s action next sound admitted taken
  have admitted' : Admitted s action := by
    unfold Admitted
    split
    · cases admitted.2
    · exact admitted.1
  exact ⟨sound.step (fun _ => trivial) admitted' taken,
    actor_falls sound.channels sound.timed sound.ordered admitted.2 taken⟩

/-- Nothing is on its way any more: no message in any channel, no request without its answer, no
sealed batch in memory. The log is what was evicted, the listed segments and the active batch, and
no WAL file but the active one holds a record. -/
structure Drained (env : Externals) (s : State) : Prop where
  inbox : s.inbox = []
  rx : s.uploader.rx = []
  completions : s.completions = []
  writer : s.writer.phase = .recv
  uploader : s.uploader.phase = .recv
  pending : s.writer.pending = []
  answered : s.writer.pendingAcks = []
  inFlight : s.writer.inFlight.toList = []
  log : s.history.log = s.history.evicted ++ uploadedRecords s.disk.store ++ s.writer.active
  files : ∀ base records, Holds env.crc32c s.disk.wal base records → records ≠ [] →
    base = s.writer.segmentBase ∧ records = s.writer.active

/-- Where no actor can move, nothing is on its way. -/
theorem Sound.drained (sound : Sound env (cleanly env) s)
    (rest : ∀ action : Action, action.isActor = true → Channels.step env action s = none) : Drained env s := by
  have serving := sound.channels.serving
  have empty : s.inbox = [] ∧ s.uploader.rx = [] ∧ s.durable = [] := by
    have free := @Invariant.not_deadlocked env s sound.channels
    simp only [Deadlocked, not_and] at free
    by_contra some'
    refine free ?_ rest
    tauto
  obtain ⟨inbox, rx, durable⟩ := empty
  have hand : s.hand = none := by
    cases hand : s.hand with
    | none => rfl
    | some base =>
      have stuck := rest .forward rfl
      simp [Channels.step, hand, inbox, inboxCapacity] at stuck
  have uploader : s.uploader.phase = .recv := by
    by_contra busy
    have free : Startup.Waits s.uploader.phase s.durable = false := by
      by_contra waits
      have := (Startup.holds_of_waits (Bool.not_eq_false _ ▸ waits)).2
      simp [durable, Startup.durableCapacity] at this
    obtain ⟨effect, stepped⟩ := Startup.uploader_enabled env 0 s.disk.store sound.channels.running
      (fun idle => absurd idle busy)
    have stuck := rest (.uploader 0) rfl
    simp [Channels.step, free, handle, liveStep, Kafkrs.Partition.uploaderStep, State.live, State.partition,
      State.install, stepped] at stuck
  have writer : s.writer.phase = .recv := by
    by_contra busy
    obtain ⟨next, taken⟩ := handle_writer env serving busy
    have stuck := rest .writer rfl
    simp [Channels.step, rx, Startup.uploaderCapacity, taken] at stuck
  have pending : s.writer.pending = [] := by
    by_contra waiting
    have arrived := sound.timed.arrival.mpr waiting
    have stuck := rest .commitTimeout rfl
    simp [Channels.step, handle, liveStep, State.live, State.install, writer, arrived] at stuck
  have shape := (reached_invariant sound.reached).shape _ rfl
  have whole := reached_whole sound.reached
  have linked := whole.continuous.live (view { s.live with durable := s.completions }) rfl
  have completions : s.completions = [] := by
    simp [State.completions, inbox, hand, durable]
  have nothing : (view { s.live with durable := s.completions }).notified = [] ∧
      (view { s.live with durable := s.completions }).backlog = [] ∧
      (view { s.live with durable := s.completions }).active =
        some (s.writer.segmentBase, s.writer.active) := by
    simp [view, State.live, completions, uploader, rx, writer, reporting, uploading, handing,
      between]
  obtain ⟨notified, backlog, active⟩ := nothing
  refine ⟨inbox, rx, completions, writer, uploader, pending, ?_, ?_, ?_, ?_⟩
  · -- the waiting requests make up the pending records
    have initially : ∀ l, Kafkrs.Partition.fresh.live = some l → GroupCommit.Grouped l.writer :=
      fun l none => by cases none
    have grouped := @Machine.Reaches.invariant _ _ _ _
      (fun p => ∀ l, p.live = some l → GroupCommit.Grouped l.writer) initially
      (fun _ _ _ grouped _ taken => GroupCommit.step_grouped grouped taken) _ sound.reached
    have here := grouped _ rfl
    have flat : s.writer.pendingAcks.flatten = [] := here.flat.trans pending
    refine List.eq_nil_iff_forall_not_mem.mpr fun stored member => ?_
    exact here.waiting stored member (List.flatten_eq_nil_iff.mp flat stored member)
  · -- a batch in flight is one the uploader has still to report
    have tracked := (InMemory.reached_loaded sound.reached).tracked _ rfl
    refine List.eq_nil_iff_forall_not_mem.mpr fun entry member => ?_
    have owed := tracked.known member
    simp only [InMemory.bases, notified, backlog] at owed
    cases owed
  · have split := linked.chained.log
    rw [backlog, active] at split
    simpa [abstract, State.unbounded] using split
  · intro base records held filled
    have known := linked.known base records held filled
    rw [notified, backlog, active] at known
    simpa using known

/-- Where nothing is on its way, no actor can move. -/
theorem Drained.still (drained : Drained env s) (timed : Timed s.writer) (action : Action)
    (actor : action.isActor = true) : step env action s = none := by
  have completions := drained.completions
  simp only [State.completions, List.append_eq_nil_iff, drained.inbox, List.filterMap_nil,
    Option.toList_eq_nil_iff, true_and] at completions
  cases action with
  | client msg | control msg => cases actor
  | receive now => simp [step, drained.inbox]
  | commitTimeout =>
    have quiet : s.writer.pendingFirstArrival = false := by
      simpa [drained.pending] using timed.arrival
    simp [step, handle, liveStep, State.live, quiet]
  | writer =>
    simp [step, handle, liveStep, Kafkrs.Partition.writerStep, State.live, drained.writer]
  | uploader now =>
    simp [step, handle, liveStep, Kafkrs.Partition.uploaderStep, State.live, Uploader.step,
      Uploader.receive, drained.uploader, drained.rx]
  | forward => simp [step, completions]

end Rest

def ofPartition (p : Kafkrs.Partition.State) (l : Kafkrs.Partition.Live) : State :=
  ⟨p.disk, p.history, l.writer, [], l.uploader, l.durable, none⟩

theorem ofPartition_unbounded {p : Kafkrs.Partition.State} {l : Kafkrs.Partition.Live}
    (live : p.live = some l) (sent : l.orphans = []) : (ofPartition p l).unbounded = p := by
  obtain ⟨disk, _, history⟩ := p
  obtain ⟨orphans, writer, uploader, durable⟩ := l
  cases live
  cases sent
  simp [ofPartition, State.unbounded, State.live, State.completions]

theorem served_sound {p : Kafkrs.Partition.State} {l : Kafkrs.Partition.Live} {regime : Regime}
    {env : Externals} (free : ∀ cfg, regime.policy cfg)
    (booted : (Kafkrs.Partition.machine env).Reaches (Admits regime) p)
    (live : p.live = some l) (started : Started (ofPartition p l)) {s : State}
    (served : (machine env (ofPartition p l)).Reaches Admitted s) : Sound env regime s := by
  have sent : l.orphans = [] := by
    refine ((reached_invariant booted).shape l live).orphans fun starting => ?_
    have idle : l.writer.phase = .recv := started.idle
    rw [starting] at idle
    cases idle
  refine served.invariant ⟨started.invariant, ?_, fun _ _ none => by cases none⟩
    fun _ _ _ sound admitted taken => sound.step free admitted taken
  exact (ofPartition_unbounded live sent).symm ▸ booted

/-- In every life a partition comes to, once clients are silent its actors take no more than `work`
steps, in whatever order they move; and none of them can move any more exactly when everything is
answered, and uploaded or in the active segment. -/
theorem drains (env : Externals) {p : Kafkrs.Partition.State} {l : Kafkrs.Partition.Live}
    (booted : (Kafkrs.Partition.machine env).Reaches (Admits (cleanly env)) p)
    (live : p.live = some l) (started : Started (ofPartition p l)) {s t : State}
    (served : (machine env (ofPartition p l)).Reaches Admitted s) {schedule : List Action}
    (silent : (machine env (ofPartition p l)).Along
      (fun s action => Uncongested s action ∧ action.isActor = true) schedule s)
    (ran : (machine env (ofPartition p l)).execute schedule s = some t) :
    schedule.length + work t ≤ work s ∧
      ((∀ action, action.isActor = true → step env action t = none) ↔ Drained env t) := by
  have sound := served_sound (fun _ => trivial) booted live started served
  obtain ⟨sound', short⟩ := (falls env (ofPartition p l)).length_le sound silent ran
  exact ⟨short, sound'.drained, fun drained => drained.still sound'.timed⟩

def twoRequests : List Action := [Channels.produceOne, Channels.produceOne]

/-- Two requests fill a segment each; the actors then commit, hand over, upload and clean up. -/
def silentRun : List Action :=
  [.receive (fun _ => 0), .writer, .writer, .writer, .writer, .receive (fun _ => 0), .writer,
    .writer, .writer, .writer] ++ List.replicate 10 (.uploader 0) ++
    [.forward, .forward, .receive (fun _ => 0), .forward, .forward, .receive (fun _ => 0)]

def sealingStart : List Kafkrs.Partition.Action :=
  [.start { Kafkrs.Partition.settings with segmentSizeBytes := 1 }, .openWriter]

theorem sealing_started : ∃ p l s t,
    (Kafkrs.Partition.machine Kafkrs.Partition.externals).execute sealingStart
      Kafkrs.Partition.fresh = some p ∧ p.live = some l ∧ Started (ofPartition p l) ∧
    (machine Kafkrs.Partition.externals (ofPartition p l)).Along Admitted
      (twoRequests ++ silentRun) (ofPartition p l) ∧
    (machine Kafkrs.Partition.externals (ofPartition p l)).execute twoRequests
      (ofPartition p l) = some s ∧
    (machine Kafkrs.Partition.externals (ofPartition p l)).Along
      (fun s action => Uncongested s action ∧ action.isActor = true) silentRun s ∧
    (machine Kafkrs.Partition.externals (ofPartition p l)).execute silentRun s = some t ∧
    t.history.acked.length = 2 := by
  have runs : ((Kafkrs.Partition.machine Kafkrs.Partition.externals).execute sealingStart
      Kafkrs.Partition.fresh).any (fun p => p.live.any fun l =>
        decide (l.writer.phase = .recv ∧ l.writer.stopping = false ∧ l.uploader.phase = .recv ∧
          l.uploader.rx = [] ∧ l.durable = []) &&
        decide ((machine Kafkrs.Partition.externals (ofPartition p l)).Along Admitted
          (twoRequests ++ silentRun) (ofPartition p l)) &&
        ((machine Kafkrs.Partition.externals (ofPartition p l)).execute twoRequests
          (ofPartition p l)).any fun s =>
          decide ((machine Kafkrs.Partition.externals (ofPartition p l)).Along
            (fun s action => Uncongested s action ∧ action.isActor = true) silentRun s) &&
          ((machine Kafkrs.Partition.externals (ofPartition p l)).execute silentRun s).any fun t =>
            decide (t.history.acked.length = 2)) =
      true := by decide +kernel
  obtain ⟨p, ran, facts⟩ := Option.any_eq_true _ _ |>.mp runs
  obtain ⟨l, live, facts⟩ := Option.any_eq_true _ _ |>.mp facts
  simp only [Bool.and_eq_true, decide_eq_true_eq] at facts
  obtain ⟨⟨⟨idle, stopping, uploader, rx, durable⟩, served⟩, facts⟩ := facts
  obtain ⟨s, ran', facts⟩ := Option.any_eq_true _ _ |>.mp facts
  simp only [Bool.and_eq_true, decide_eq_true_eq] at facts
  obtain ⟨silent, final⟩ := facts
  obtain ⟨t, ran'', acked⟩ := Option.any_eq_true _ _ |>.mp final
  have started : Started (ofPartition p l) := by
    refine ⟨⟨stopping, ?_, ?_⟩, idle, ?_, ?_, ?_, ?_, ?_⟩
    all_goals simp [ofPartition, idle, uploader, rx, durable]
  exact ⟨p, l, s, t, ran, live, started, served, ran', silent, ran'', of_decide_eq_true acked⟩

theorem drains_silentRun : ∃ p l s t,
    (Kafkrs.Partition.machine Kafkrs.Partition.externals).execute sealingStart
      Kafkrs.Partition.fresh = some p ∧ p.live = some l ∧
    (machine Kafkrs.Partition.externals (ofPartition p l)).execute twoRequests
      (ofPartition p l) = some s ∧
    (machine Kafkrs.Partition.externals (ofPartition p l)).execute silentRun s = some t ∧
    silentRun.length + work t ≤ work s := by
  have clean : (Kafkrs.Partition.machine Kafkrs.Partition.externals).Along
      (Admits (cleanly Kafkrs.Partition.externals)) sealingStart Kafkrs.Partition.fresh := by
    decide +kernel
  obtain ⟨p, l, s, t, ran, live, started, served, ran', silent, ran'', _⟩ := sealing_started
  have before := ((Machine.along_append ran').mp served).1
  exact ⟨p, l, s, t, ran, live, ran', ran'', (drains _ ⟨sealingStart, clean, ran⟩ live started
    ⟨_, before, ran'⟩ silent ran'').1⟩

/-- Bounded channels lose nothing: every state a partition reaches over them is, with the
completions on their way in one queue, a state of its unbounded runs, and in it the disk alone
gives back every record acknowledged so far in any life, unless its segment was evicted. -/
theorem bounded_keeps (env : Externals) {p : Kafkrs.Partition.State} {l : Kafkrs.Partition.Live}
    (booted : (Kafkrs.Partition.machine env).Reaches (Admits .any) p) (live : p.live = some l)
    (started : Started (ofPartition p l)) {s : State}
    (served : (machine env (ofPartition p l)).Reaches Admitted s) :
    (Kafkrs.Partition.machine env).Reaches (Admits .any) s.unbounded ∧
      ∀ r ∈ s.history.acked, r ∈ s.history.evicted ∨ Durability.Kept s.disk.store
        (Recovery.recoverPartition env.crc32c s.disk.store.manifest s.disk.wal).2 r := by
  have sound := served_sound (fun _ => trivial) booted live started served
  exact ⟨sound.reached, fun r acked =>
    Durability.durable_kept (reached_invariant sound.reached).valid.durable acked⟩

theorem bounded_keeps_silentRun : ∃ p l t,
    (Kafkrs.Partition.machine Kafkrs.Partition.externals).execute sealingStart
      Kafkrs.Partition.fresh = some p ∧ p.live = some l ∧
    (machine Kafkrs.Partition.externals (ofPartition p l)).execute
      (twoRequests ++ silentRun) (ofPartition p l) = some t ∧
    t.history.acked.length = 2 ∧ ∀ r ∈ t.history.acked, r ∈ t.history.evicted ∨
      Durability.Kept t.disk.store
        (Recovery.recoverPartition crc32c t.disk.store.manifest t.disk.wal).2 r := by
  have framed : (Kafkrs.Partition.machine Kafkrs.Partition.externals).Along (Admits .any)
      sealingStart Kafkrs.Partition.fresh := by decide +kernel
  obtain ⟨p, l, s, t, ran, live, started, served, ran', _, ran'', acked⟩ := sealing_started
  have whole : (machine Kafkrs.Partition.externals (ofPartition p l)).execute
      (twoRequests ++ silentRun) (ofPartition p l) = some t := by
    rw [Machine.execute_append, ran', Option.bind_some, ran'']
  exact ⟨p, l, t, ran, live, whole, acked,
    (bounded_keeps _ ⟨sealingStart, framed, ran⟩ live started ⟨_, served, whole⟩).2⟩

end Kafkrs.Draining
