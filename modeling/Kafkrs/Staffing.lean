import Kafkrs.Spawning

/-! Which actors there are: how a writer comes and goes, and whose they are. -/
namespace Kafkrs.Broker

open Lib

section Writer

variable {env : Partition.Externals} {p after : Partition.State} {l live : Partition.Live}
  {move : Partition.Action}

/-- How a writer leaves: only a `Shutdown` makes it stop, and once it has returned it stays so
and no longer touches its WAL. -/
structure WriterMove (p after : Partition.State) (l live : Partition.Live)
    (move : Partition.Action) : Prop where
  stopping : live.writer.stopping = l.writer.stopping ∨ move = .shutdownWriter
  started : l.writer.phase ≠ .starting → live.writer.phase ≠ .starting
  stops : live.writer.phase = .stopped → l.writer.phase = .stopped ∨ l.writer.stopping = true
  gone : l.writer.phase = .stopped → live.writer.phase = .stopped ∧ after.disk.wal = p.disk.wal

theorem WriterMove.unchanged (same : live.writer = l.writer) (wal : after.disk.wal = p.disk.wal) :
    WriterMove p after l live move :=
  ⟨.inl (by rw [same]), fun started => same ▸ started, fun stopped => .inl (same ▸ stopped),
    fun stopped => ⟨same ▸ stopped, wal⟩⟩

/-- A move that neither starts nor ends in a stopped writer. -/
theorem WriterMove.running (stopping : live.writer.stopping = l.writer.stopping)
    (before : l.writer.phase ≠ .stopped)
    (later : live.writer.phase ≠ .stopped ∧ live.writer.phase ≠ .starting) :
    WriterMove p after l live move :=
  ⟨.inl stopping, fun _ => later.2, fun stopped => absurd stopped later.1,
    fun stopped => absurd stopped before⟩

theorem resume_started (w : PartitionWriter) : w.resume ≠ .starting := by
  simp only [PartitionWriter.resume]
  split <;> simp

theorem resume_stopped {w : PartitionWriter} (stopped : w.resume = .stopped) : w.stopping = true := by
  by_contra running
  simp [PartitionWriter.resume, running] at stopped

theorem flushCommit_running (w : PartitionWriter) : w.flushCommit.stopping = w.stopping ∧
    w.flushCommit.phase ≠ .stopped ∧ w.flushCommit.phase ≠ .starting := by
  unfold PartitionWriter.flushCommit
  split <;> (dsimp only; split <;> simp)

theorem liveStep_move (taken : Partition.liveStep env p l move = some after)
    (alive : after.live = some live) : WriterMove p after l live move := by
  cases Partition.liveStep_moved taken with
  | crash => cases alive
  | sendOrphan | enqueue | uploader =>
    cases alive
    exact .unchanged rfl rfl
  | openWriter phase | handoff phase =>
    cases alive
    exact .running rfl (by simp [phase]) (by simp)
  | produce ready filled stored =>
    cases alive
    obtain ⟨_, phase, goes, rfl⟩ := PartitionWriter.onProduce_some stored
    refine .running rfl (by simp [ready]) ?_
    rcases goes with rfl | rfl <;> simp
  | commitTimeout ready | updateWriter ready | segmentDurable _ ready =>
    cases alive
    exact .running rfl (by simp [ready]) (by simp [PartitionWriter.onDurable, ready])
  | shutdownWriter ready =>
    cases alive
    exact ⟨.inr rfl, by simp, by simp, by simp [ready]⟩
  | commit phase =>
    cases alive
    have committed := flushCommit_running l.writer
    exact .running committed.1 (by simp [phase]) committed.2
  | sealActive phase =>
    cases alive
    simp only [PartitionWriter.sealActive]
    split
    · exact ⟨.inl rfl, fun _ => resume_started _, fun stopped => .inr (resume_stopped stopped),
        by simp [phase]⟩
    · exact .running rfl (by simp [phase]) (by simp)
  | openNext phase =>
    cases alive
    exact ⟨.inl rfl, fun _ => resume_started _, fun stopped => .inr (resume_stopped stopped),
      by simp [phase]⟩

/-- How an uploader leaves: only a `Shutdown` in its inbox makes it stop. -/
structure UploaderMove (l live : Partition.Live) (move : Partition.Action) : Prop where
  asked : .control .shutdown ∈ live.uploader.rx →
    .control .shutdown ∈ l.uploader.rx ∨ move = .enqueue .shutdown
  stops : live.uploader.phase = .stopped →
    l.uploader.phase = .stopped ∨ .control .shutdown ∈ l.uploader.rx

theorem UploaderMove.unchanged (same : live.uploader = l.uploader) : UploaderMove l live move :=
  ⟨fun asked => .inl (same ▸ asked), fun stopped => .inl (same ▸ stopped)⟩

theorem UploaderMove.queued {batch : SealedBatch} {u : Uploader} (same : live.uploader = u)
    (rx : u.rx = l.uploader.rx ++ [.upload batch]) (phase : u.phase = l.uploader.phase) :
    UploaderMove l live move := by
  subst same
  refine ⟨fun asked => .inl ?_, fun stopped => .inl (phase ▸ stopped)⟩
  simpa [rx] using asked

theorem uploader_move {effect : Uploader.Effect} {now : Int} {st : Store}
    (stepped : l.uploader.step env.segmentSize now .ok st = some effect)
    (same : live.uploader = effect.uploader) : UploaderMove l live move := by
  -- away from `recv` the inbox is not read and the loop goes on
  have busy (rx : effect.uploader.rx = l.uploader.rx) (on : effect.uploader.phase ≠ .stopped) :
      UploaderMove l live move := by
    rw [← same] at rx on
    exact ⟨fun asked => .inl (rx ▸ asked), fun stopped => absurd stopped on⟩
  cases phase : l.uploader.phase with
  | recv =>
    simp only [Uploader.step, phase, Uploader.receive] at stepped
    split at stepped
    · cases stepped
    all_goals
      next rx =>
        obtain rfl := Option.some.inj stepped
        refine ⟨fun asked => .inl ?_, fun stopped => ?_⟩
        · rw [same] at asked
          rw [rx]
          exact List.mem_cons_of_mem _ asked
        · simp_all
  | stopped => simp [Uploader.step, phase] at stepped
  | putSegment | putManifest | notify =>
    simp only [Uploader.step, phase, Option.some.injEq] at stepped
    subst stepped
    exact busy rfl (by simp)
  | retention =>
    simp only [Uploader.step, phase] at stepped
    split at stepped
    all_goals
      obtain rfl := Option.some.inj stepped
      exact busy rfl (by simp)
  | delete evict =>
    cases evict with
    | nil | cons =>
      simp only [Uploader.step, phase, Option.some.injEq] at stepped
      subst stepped
      exact busy rfl (by simp)

theorem liveStep_uploader (taken : Partition.liveStep env p l move = some after)
    (alive : after.live = some live) : UploaderMove l live move := by
  cases Partition.liveStep_moved taken with
  | crash => cases alive
  | sendOrphan | handoff =>
    cases alive
    exact .queued rfl rfl rfl
  | openWriter | produce | commitTimeout | updateWriter | segmentDurable | shutdownWriter | commit
  | sealActive | openNext =>
    cases alive
    exact .unchanged rfl
  | uploader stepped =>
    cases alive
    exact uploader_move stepped rfl
  | enqueue =>
    cases alive
    refine ⟨fun asked => ?_, fun stopped => .inl stopped⟩
    rcases List.mem_append.mp asked with old | last
    · exact .inl old
    · simp only [List.mem_singleton, UploaderMsg.control.injEq] at last
      exact .inr (by rw [last])

end Writer

section Actors

variable {Name : Type}

def Keeps (actors later : List (Actor Name)) : Prop :=
  ∀ (i : Nat) a', later[i]? = some a' → ∃ a, actors[i]? = some a ∧ a'.key = a.key ∧
    a'.uuid = a.uuid ∧ (a.stopped → a'.stopped)

theorem Keeps.refl (actors : List (Actor Name)) : Keeps actors actors :=
  fun _ a found => ⟨a, found, rfl, rfl, id⟩

theorem Keeps.mem {actors later : List (Actor Name)} (keeps : Keeps actors later)
    {a' : Actor Name} (member : a' ∈ later) :
    ∃ a ∈ actors, a'.key = a.key ∧ a'.uuid = a.uuid ∧ (a.stopped → a'.stopped) := by
  obtain ⟨i, found⟩ := List.getElem?_of_mem member
  obtain ⟨a, before, facts⟩ := keeps i a' found
  exact ⟨a, List.mem_of_getElem? before, facts⟩

theorem keeps_requestStop (s : State Name) (id : Nat) : Keeps s.actors (requestStop s id).actors := by
  intro i a' found
  rcases Slots.modify_cases found with ⟨_, a, before, rfl⟩ | ⟨_, before⟩
  · exact ⟨a, before, rfl, rfl, fun stopped => stopped⟩
  · exact ⟨a', before, rfl, rfl, fun stopped => stopped⟩

end Actors

section Steps

variable {Name : Type} [DecidableEq Name] {env : Partition.Externals} {s next : State Name}
  {action : Action Name}

theorem Acts.keeps {id : Nat} {move : Partition.Action} (acts : Acts env s id move next) :
    Keeps s.actors next.actors := by
  cases acts with
  | intro found taken alive =>
    intro i a' at'
    rcases Slots.set_cases at' with ⟨rfl, rfl⟩ | ⟨_, before⟩
    · exact ⟨_, found, rfl, rfl, fun stopped => ((liveStep_move taken alive).gone stopped).1⟩
    · exact ⟨a', before, rfl, rfl, fun stopped => stopped⟩

inductive Staffing (env : Partition.Externals) (s : State Name) (next : State Name) : Prop
  | keeps (keeps : Keeps s.actors next.actors) (recoveries : next.recoveries = s.recoveries)
  /-- `spawn_partition` recovers the partition it is at and starts an actor for it. -/
  | hires (id lock : Nat) (job : Job Name) (rest : List (Job Name)) (a : Actor Name)
      (found : s.tasks[id]? = some (.spawning (job :: rest) (.recover lock)))
      (tasks : next.tasks = s.tasks.set id (.spawning (job :: rest) (.opening lock s.actors.length)))
      (actors : next.actors = s.actors ++ [a]) (key : a.key = job.key) (uuid : a.uuid = job.uuid)
      (recoveries : next.recoveries = s.recoveries ++ [⟨job.uuid, job.key.2,
        (Recovery.recoverPartition env.crc32c (s.stores (job.uuid, job.key.2)).manifest
          (s.wal job.key)).2⟩])

theorem Acts.recoveries {id : Nat} {move : Partition.Action} (acts : Acts env s id move next) :
    next.recoveries = s.recoveries := by
  cases acts
  rfl

theorem Effect.staffing (effect : Effect env s action next) : Staffing env s next := by
  cases effect with
  | recover found taken =>
    obtain rfl := Option.some.inj taken
    exact .hires _ _ _ _ _ found rfl rfl rfl rfl rfl
  | sendOrphan _ acts | openWriter _ acts | stopUploader _ acts | actor _ _ acts =>
    exact .keeps acts.keeps acts.recoveries
  | stopWriter => exact .keeps (keeps_requestStop s _) rfl
  | crash =>
    obtain ⟨wal, stores, histories, same⟩ := crashed_frame env _ s
    rw [same]
    exact .keeps (fun i a found => by cases found) rfl
  | _ => exact .keeps (.refl _) rfl

theorem Acts.stays {id : Nat} {move : Partition.Action} (acts : Acts env s id move next) (i : Nat)
    (a : Actor Name) (found : s.actors[i]? = some a) :
    ∃ a', next.actors[i]? = some a' ∧ a'.key = a.key ∧ a'.uuid = a.uuid ∧
      (a.opened → a'.opened) := by
  cases acts with
  | intro here taken alive =>
    by_cases same : i = id
    · subst same
      obtain rfl := Option.some.inj (found.symm.trans here)
      exact ⟨_, Slots.set_self found, rfl, rfl, (liveStep_move taken alive).started⟩
    · exact ⟨a, (Slots.set_other same).trans found, rfl, rfl, fun opened => opened⟩

/-- An actor keeps its place, its partition and its UUID until a crash ends all tasks. -/
theorem Effect.stays (effect : Effect env s action next) :
    (∀ (i : Nat) a, s.actors[i]? = some a →
      ∃ a', next.actors[i]? = some a' ∧ a'.key = a.key ∧ a'.uuid = a.uuid ∧
        (a.opened → a'.opened)) ∨
    (next.tasks = [] ∧ ∀ k, next.partitions k = none) := by
  cases effect with
  | recover found taken =>
    obtain rfl := Option.some.inj taken
    refine .inl fun i a at' => ⟨a, ?_, rfl, rfl, fun opened => opened⟩
    exact (List.getElem?_append_left (List.getElem?_eq_some_iff.mp at').1).trans at'
  | sendOrphan _ acts | openWriter _ acts | stopUploader _ acts | actor _ _ acts =>
    have stays := acts.stays
    exact .inl stays
  | @stopWriter id p d h =>
    refine .inl fun i a at' => ?_
    by_cases same : i = h.actor
    · subst same
      refine ⟨{ a with stopRequested := true }, ?_, rfl, rfl, fun opened => opened⟩
      simp [State.setTask, requestStop, at']
    · exact ⟨a, (Slots.modify_other same).trans at', rfl, rfl, fun opened => opened⟩
  | crash => exact .inr ⟨rfl, fun _ => rfl⟩
  | _ => exact .inl fun i a at' => ⟨a, at', rfl, rfl, fun opened => opened⟩

/-- Whatever carries a UUID belongs to the topic the UUID was made for. -/
structure Owned {Name : Type} (s : State Name) : Prop where
  entries : ∀ e ∈ s.registry, s.incarnations[e.uuid]? = some e.name
  jobs : ∀ task ∈ s.tasks, ∀ job ∈ task.jobs, s.incarnations[job.uuid]? = some job.key.1
  actors : ∀ a ∈ s.actors, s.incarnations[a.uuid]? = some a.key.1

theorem Owned.step (inv : Owned s) (effect : Effect env s action next) : Owned next := by
  have actors : ∀ a ∈ next.actors, s.incarnations[a.uuid]? = some a.key.1 := by
    cases effect.staffing with
    | keeps keeps _ =>
      intro a' member
      obtain ⟨a, before, key, uuid, _⟩ := keeps.mem member
      rw [key, uuid]
      exact inv.actors a before
    | hires id lock job rest new found _ actors key uuid _ =>
      rw [actors]
      intro a member
      rcases List.mem_append.mp member with old | last
      · exact inv.actors a old
      · rw [List.mem_singleton.mp last, key, uuid]
        exact inv.jobs _ (List.mem_of_getElem? found) job List.mem_cons_self
  cases effect.growth with
  | thin thins registry incarnations =>
    rw [← incarnations] at actors
    refine ⟨fun e member => ?_, fun task member job inside => ?_, actors⟩
    · rw [incarnations]
      exact inv.entries e (registry.subset member)
    · obtain ⟨before, old, jobs, _⟩ := thins.mem member inside
      rw [incarnations]
      exact inv.jobs before old job (jobs.subset inside)
  | create id entry _ _ uuid same =>
    subst same
    have kept {u : Nat} {name : Name} (known : s.incarnations[u]? = some name) :
        (s.incarnations ++ [entry.name])[u]? = some name := by
      rw [List.getElem?_append_left (List.getElem?_eq_some_iff.mp known).1]
      exact known
    have new : (s.incarnations ++ [entry.name])[entry.uuid]? = some entry.name := by
      simp [uuid]
    refine ⟨fun e member => ?_, fun task member job inside => ?_, fun a member => kept (actors a member)⟩
    · rcases List.mem_append.mp member with old | last
      · exact kept (inv.entries e old)
      · rw [List.mem_singleton.mp last]
        exact new
    · rcases List.mem_or_eq_of_mem_set member with old | rfl
      · exact kept (inv.jobs task old job inside)
      · obtain ⟨name, _, uuid, _⟩ := mem_jobsOf.mp inside
        rw [name, uuid]
        exact new
  | boot down same =>
    subst same
    refine ⟨inv.entries, fun task member job inside => ?_, inv.actors⟩
    rcases List.mem_cons.mp member with rfl | sweep
    · obtain ⟨e, entry, job⟩ := List.mem_flatMap.mp inside
      obtain ⟨name, _, uuid, _⟩ := mem_jobsOf.mp job
      rw [name, uuid]
      exact inv.entries e entry
    · obtain ⟨d, _, rfl⟩ := List.mem_map.mp sweep
      cases inside

end Steps

end Kafkrs.Broker
