import Kafkrs.Broker
import Kafkrs.Lib.Slots

/-! What one step can do to the broker, said once. Most steps only move a task along; the
others are listed with the parts of the state they touch. -/
namespace Kafkrs.Broker

open Lib

section Tasks

variable {Name : Type}

/-- Before `recover_partition` runs. -/
def Spawn.early : Spawn → Bool
  | .opening _ _ | .insert _ _ => false
  | _ => true

def Task.jobs : Task Name → List (Job Name)
  | .spawning jobs _ => jobs
  | _ => []

def Task.pending : Task Name → List (Job Name)
  | .spawning jobs phase => bif phase.early then jobs else jobs.tail
  | _ => []

def Actor.opened (a : Actor Name) : Prop := a.live.writer.phase ≠ .starting

def Task.tearing : Task Name → Option Name
  | .deleting d .removeHandles | .deleting d .removeWal => some d.name
  | .deleting _ .persist => none
  | .deleting d _ => if d.deleteData then some d.name else none
  | _ => none

/-- Between the removal of the handles and the removal of the WAL directory. -/
def Teardown.middle : Teardown → Bool
  | .removeHandles | .removeWal | .persist => false
  | _ => true

def Teardown.handles : Teardown → List (Nat × PartitionHandle)
  | .stopWriters handles rest _ => handles ++ rest
  | .stopUploaders rest _ => rest
  | _ => []

theorem Task.pending_sublist (task : Task Name) : task.pending.Sublist task.jobs := by
  cases task with
  | spawning jobs phase =>
    simp only [pending, Task.jobs]
    cases phase.early with
    | true => exact .refl _
    | false => exact List.tail_sublist _
  | register | unregister | deleting | sweeping | finished => exact .refl _

theorem Task.pending_early {phase : Spawn} (early : phase.early = true) (jobs : List (Job Name)) :
    (Task.spawning jobs phase).pending = jobs := by
  simp [pending, early]

theorem Task.tearing_middle {d : Deletion Name} {phase : Teardown} (middle : phase.middle = true) :
    (Task.deleting d phase).tearing = if d.deleteData then some d.name else none := by
  cases phase <;> first | rfl | cases middle

/-- Changes of one task that touch nothing but the locks, the status and the list of sweeps
to resume. -/
inductive Shift [DecidableEq Name] (s : State Name) : Task Name → Task Name → Prop
  | refused {name : Name} {partitionCount : Nat} {cfg : ResolvedTopicConfig}
      {entry : TopicEntry Name} (known : s.lookup name = some entry) :
      Shift s (.register name partitionCount cfg) .finished
  | unknown {name : Name} {deleteData : Bool} (unknown : s.lookup name = none) :
      Shift s (.unregister name deleteData) .finished
  | spawned {phase : Spawn} : Shift s (.spawning [] phase) .finished
  | prepare {job : Job Name} {rest : List (Job Name)} {phase later : Spawn}
      (early : phase.early = true) (early' : later.early = true) :
      Shift s (.spawning (job :: rest) phase) (.spawning (job :: rest) later)
  | present {job : Job Name} {rest : List (Job Name)} {lock : Nat} {handle : PartitionHandle}
      (found : s.partitions job.key = some handle) :
      Shift s (.spawning (job :: rest) (.check lock)) (.spawning rest .lookup)
  | teardown {d : Deletion Name} {phase later : Teardown} (middle : phase.middle = true)
      (middle' : later.middle = true) (fewer : later.handles ⊆ phase.handles) :
      Shift s (.deleting d phase) (.deleting d later)
  | erase {d : Deletion Name} (data : d.deleteData = true) :
      Shift s (.deleting d .clearLocks) (.deleting d .removeWal)
  | detached {d : Deletion Name} (kept : d.deleteData = false) :
      Shift s (.deleting d .clearLocks) .finished
  | swept {uuid : Nat} : Shift s (.sweeping uuid 0) .finished

end Tasks

section Intents

variable {Name : Type}

def creates [DecidableEq Name] (s : State Name) : Action Name → Option Name
  | .task id =>
    match s.tasks[id]? with
    | some (.register name _ _) => if (s.lookup name).isNone then some name else none
    | _ => none
  | _ => none

theorem creates_unknown [DecidableEq Name] {s : State Name} {action : Action Name} {name : Name}
    (created : creates s action = some name) : s.lookup name = none := by
  cases action with
  | task id =>
    simp only [creates] at created
    split at created
    · split at created
      next unknown =>
        obtain rfl := Option.some.inj created
        exact Option.isNone_iff_eq_none.mp unknown
      next => cases created
    · cases created
  | submit | timeout | abort | fail | actor | crash | boot => cases created

def removes (s : State Name) : Action Name → Option Name
  | .task id =>
    match s.tasks[id]? with
    | some (.deleting d .removeWal) => some d.name
    | _ => none
  | _ => none

/-- The `delete_data` of a delete the registry is about to accept. -/
def deletes [DecidableEq Name] (s : State Name) : Action Name → Option Bool
  | .task id =>
    match s.tasks[id]? with
    | some (.unregister name deleteData) => if (s.lookup name).isSome then some deleteData else none
    | _ => none
  | _ => none

def unregisters [DecidableEq Name] (s : State Name) : Action Name → Option Name
  | .task id =>
    match s.tasks[id]? with
    | some (.unregister name _) => if (s.lookup name).isSome then some name else none
    | _ => none
  | _ => none

/-- The task a disconnect or a failure cuts short. -/
def aborts (s : State Name) : Action Name → Option (Task Name)
  | .abort id | .fail id => s.tasks[id]?
  | _ => none

def interrupts (s : State Name) : Action Name → List (Task Name)
  | .crash _ => s.tasks
  | action => (aborts s action).toList

theorem interrupts_of_aborts {s : State Name} {action : Action Name} {task : Task Name}
    (cut : aborts s action = some task) : task ∈ interrupts s action := by
  cases action with
  | abort id | fail id => simp [interrupts, cut]
  | submit | task | timeout | actor | crash | boot => cases cut

end Intents

section Effects

variable {Name : Type} [DecidableEq Name] (env : Partition.Externals)

inductive Acts (s : State Name) (id : Nat) (action : Partition.Action) : State Name → Prop
  | intro {a : Actor Name} {p : Partition.State} {live : Partition.Live}
      (found : s.actors[id]? = some a)
      (taken : Partition.liveStep env (s.slot a) a.live action = some p)
      (alive : p.live = some live) :
      Acts s id action { s.withSlot a p with actors := s.actors.set id { a with live := live } }

inductive Effect (s : State Name) : Action Name → State Name → Prop
  | submit {rpc : Rpc Name} (up : s.status = .up) :
      Effect s (.submit rpc) { s with tasks := s.tasks ++ [rpc.task] }
  | shift {id : Nat} {task later : Task Name} {locks : Key Name → Option Nat} {held : List Bool}
      {status : Status} {sweeps : List (Nat × Nat)} (found : s.tasks[id]? = some task)
      (shift : Shift s task later) (running : status = s.status ∨ status = .up)
      (fewer : sweeps ⊆ s.pendingDeletes) :
      Effect s (.task id) { s with
        tasks := s.tasks.set id later
        spawnLocks := locks
        held := held
        status := status
        pendingDeletes := sweeps }
  | timeout {id : Nat} {task later : Task Name} (found : s.tasks[id]? = some task)
      (shift : Shift s task later) : Effect s (.timeout id) (s.setTask id later)
  | abort {action : Action Name} {id : Nat} {task : Task Name} {held : List Bool}
      (found : s.tasks[id]? = some task) (cut : aborts s action = some task) :
      Effect s action { s with tasks := s.tasks.set id .finished, held := held }
  | register {id : Nat} {name : Name} {partitionCount : Nat} {cfg : ResolvedTopicConfig}
      {entry : TopicEntry Name} (found : s.tasks[id]? = some (.register name partitionCount cfg))
      (unknown : s.lookup name = none)
      (named : entry = ⟨name, s.incarnations.length, partitionCount, cfg⟩) :
      Effect s (.task id) { s with
        registry := s.registry ++ [entry]
        incarnations := s.incarnations ++ [name]
        tasks := s.tasks.set id (.spawning (jobsOf entry) .lookup) }
  | unregister {id : Nat} {name : Name} {deleteData : Bool} {entry : TopicEntry Name}
      (found : s.tasks[id]? = some (.unregister name deleteData))
      (known : s.lookup name = some entry) :
      Effect s (.task id) { s with
        registry := s.registry.filter (fun e => decide (e.name ≠ name))
        tasks := (s.tasks.set id
          (.deleting ⟨name, entry.uuid, entry.partitionCount, deleteData⟩ .removeHandles)) }
  | recover {id lock : Nat} {job : Job Name} {rest : List (Job Name)} {next : State Name}
      (found : s.tasks[id]? = some (.spawning (job :: rest) (.recover lock)))
      (taken : spawnStep env s id job rest (.recover lock) = some next) :
      Effect s (.task id) next
  | sendOrphan {id lock actor : Nat} {job : Job Name} {rest : List (Job Name)} {next : State Name}
      (found : s.tasks[id]? = some (.spawning (job :: rest) (.opening lock actor)))
      (acts : Acts env s actor .sendOrphan next) : Effect s (.task id) next
  | openWriter {id lock actor : Nat} {job : Job Name} {rest : List (Job Name)} {next : State Name}
      (found : s.tasks[id]? = some (.spawning (job :: rest) (.opening lock actor)))
      (acts : Acts env s actor .openWriter next) :
      Effect s (.task id) (next.setTask id (.spawning (job :: rest) (.insert lock actor)))
  | insert {id lock actor : Nat} {job : Job Name} {rest : List (Job Name)} {held : List Bool}
      (found : s.tasks[id]? = some (.spawning (job :: rest) (.insert lock actor))) :
      Effect s (.task id) { s with
        partitions := Function.update s.partitions job.key (some ⟨job.uuid, actor, job.cfg⟩)
        tasks := s.tasks.set id (.spawning rest .lookup)
        held := held }
  | removeHandles {id : Nat} {d : Deletion Name}
      (found : s.tasks[id]? = some (.deleting d .removeHandles)) :
      Effect s (.task id) { s with
        partitions := (fun k =>
          if k.1 = d.name ∧ k.2 < d.partitionCount then none else s.partitions k)
        tasks := (s.tasks.set id
          (.deleting d (.stopWriters (handlesOf s d) (handlesOf s d) false))) }
  | stopWriter {id p : Nat} {d : Deletion Name} {h : PartitionHandle}
      {handles rest : List (Nat × PartitionHandle)}
      (found : s.tasks[id]? = some (.deleting d (.stopWriters handles ((p, h) :: rest) false))) :
      Effect s (.task id) ((requestStop s h.actor).setTask id
        (.deleting d (.stopWriters handles ((p, h) :: rest) true)))
  | stopUploader {id p : Nat} {d : Deletion Name} {h : PartitionHandle}
      {rest : List (Nat × PartitionHandle)} {next : State Name}
      (found : s.tasks[id]? = some (.deleting d (.stopUploaders ((p, h) :: rest) false)))
      (acts : Acts env s h.actor (.enqueue .shutdown) next) :
      Effect s (.task id) (next.setTask id (.deleting d (.stopUploaders ((p, h) :: rest) true)))
  | removeWal {id : Nat} {d : Deletion Name}
      (found : s.tasks[id]? = some (.deleting d .removeWal)) :
      Effect s (.task id) { s with
        wal := fun k => if k.1 = d.name then ∅ else s.wal k
        tasks := s.tasks.set id (.deleting d .persist) }
  | persist {id : Nat} {d : Deletion Name}
      (found : s.tasks[id]? = some (.deleting d .persist)) :
      Effect s (.task id) { s with
        pendingDeletes := s.pendingDeletes ++ [(d.uuid, d.partitionCount)]
        tasks := s.tasks.set id .finished ++ [.sweeping d.uuid d.partitionCount] }
  | sweep {id uuid p : Nat} (found : s.tasks[id]? = some (.sweeping uuid (p + 1))) :
      Effect s (.task id) { s with
        stores := Function.update s.stores (uuid, p) emptyStore
        tasks := s.tasks.set id (.sweeping uuid p) }
  | actor {id : Nat} {action : Partition.Action} {a : Actor Name} {next : State Name}
      (found : s.actors[id]? = some a) (allowed : external a action = true)
      (acts : Acts env s id action next) : Effect s (.actor id action) next
  | crash {cut : Nat → Nat} (running : s.status ≠ .down) :
      Effect s (.crash cut) (crashed env cut s)
  | boot (down : s.status = .down) : Effect s .boot (booted s)

section Crash

variable (cut : Nat → Nat)

/-- The death of an actor changes only files, objects and histories. -/
theorem crashActor_frame (s : State Name) (id : Nat) : ∃ wal stores histories,
    crashActor env cut s id = { s with wal := wal, stores := stores, histories := histories } := by
  simp only [crashActor]
  split
  · exact ⟨_, _, _, rfl⟩
  · split
    · exact ⟨_, _, _, rfl⟩
    · exact ⟨_, _, _, rfl⟩

theorem crashFold_frame (ids : List Nat) (s : State Name) : ∃ wal stores histories,
    ids.foldl (crashActor env cut) s =
      { s with wal := wal, stores := stores, histories := histories } := by
  induction ids generalizing s with
  | nil => exact ⟨_, _, _, rfl⟩
  | cons id ids ih =>
    obtain ⟨wal, stores, histories, first⟩ := crashActor_frame env cut s id
    obtain ⟨wal', stores', histories', rest⟩ := ih (crashActor env cut s id)
    refine ⟨wal', stores', histories', ?_⟩
    rw [List.foldl_cons, rest, first]

/-- The memory is gone after a crash; registry and pending sweeps are files. -/
theorem crashed_frame (s : State Name) : ∃ wal stores histories, crashed env cut s =
    { s with
      wal := wal
      stores := stores
      histories := histories
      status := .down
      partitions := fun _ => none
      spawnLocks := fun _ => none
      held := []
      actors := []
      tasks := [] } := by
  obtain ⟨wal, stores, histories, same⟩ := crashFold_frame env cut (List.range s.actors.length) s
  refine ⟨wal, stores, histories, ?_⟩
  rw [crashed, same]

end Crash

section Inversion

variable {env} {s next : State Name} {id : Nat}

theorem acts_of_runActor {action : Partition.Action} (ran : s.runActor env id action = some next) :
    Acts env s id action next := by
  obtain ⟨a, found, ran⟩ := Option.bind_eq_some_iff.mp ran
  obtain ⟨p, taken, ran⟩ := Option.bind_eq_some_iff.mp ran
  obtain ⟨live, alive, rfl⟩ := Option.map_eq_some_iff.mp ran
  exact .intro found taken alive

/-- A shift that leaves status and sweeps as they are. -/
theorem Effect.retask {task later : Task Name} {locks : Key Name → Option Nat} {held : List Bool}
    (found : s.tasks[id]? = some task) (shift : Shift s task later) :
    Effect env s (.task id) { s with
      tasks := s.tasks.set id later
      spawnLocks := locks
      held := held } :=
  .shift found shift (.inl rfl) (List.Subset.refl _)

theorem effect_of_spawnStep {job : Job Name} {rest : List (Job Name)} {phase : Spawn}
    (found : s.tasks[id]? = some (.spawning (job :: rest) phase))
    (taken : spawnStep env s id job rest phase = some next) : Effect env s (.task id) next := by
  cases phase with
  | lookup =>
    simp only [spawnStep] at taken
    split at taken
    all_goals
      obtain rfl := Option.some.inj taken
      exact .retask found (.prepare rfl rfl)
  | acquire lock =>
    simp only [spawnStep] at taken
    split at taken
    · obtain rfl := Option.some.inj taken
      exact .retask found (.prepare rfl rfl)
    · cases taken
  | check lock =>
    simp only [spawnStep] at taken
    split at taken
    next handle present =>
      obtain rfl := Option.some.inj taken
      exact .retask found (.present present)
    next =>
      obtain rfl := Option.some.inj taken
      exact .retask found (.prepare rfl rfl)
  | recover lock => exact .recover found taken
  | opening lock actor =>
    simp only [spawnStep] at taken
    split at taken
    next after ran =>
      obtain rfl := Option.some.inj taken
      exact .sendOrphan found (acts_of_runActor ran)
    next =>
      obtain ⟨after, ran, rfl⟩ := Option.map_eq_some_iff.mp taken
      exact .openWriter found (acts_of_runActor ran)
  | insert lock actor =>
    obtain rfl := Option.some.inj taken
    exact .insert found

theorem effect_of_teardownStep {d : Deletion Name} {phase : Teardown}
    (found : s.tasks[id]? = some (.deleting d phase))
    (taken : teardownStep env s id d phase = some next) : Effect env s (.task id) next := by
  match phase with
  | .removeHandles =>
    obtain rfl := Option.some.inj taken
    exact .removeHandles found
  | .stopWriters handles [] sent =>
    obtain rfl := Option.some.inj taken
    exact .retask found (.teardown rfl rfl (by simp [Teardown.handles]))
  | .stopWriters handles ((p, h) :: rest) false =>
    obtain rfl := Option.some.inj taken
    exact .stopWriter found
  | .stopWriters handles ((p, h) :: rest) true =>
    simp only [teardownStep] at taken
    split at taken
    · obtain rfl := Option.some.inj taken
      exact .retask found (.teardown rfl rfl (by simp [Teardown.handles]))
    · cases taken
  | .stopUploaders [] sent =>
    obtain rfl := Option.some.inj taken
    exact .retask found (.teardown rfl rfl (by simp [Teardown.handles]))
  | .stopUploaders ((p, h) :: rest) false =>
    obtain rfl := Option.some.inj taken
    cases ran : s.runActor env h.actor (.enqueue .shutdown) with
    | none => exact .retask found (.teardown rfl rfl (by simp [Teardown.handles]))
    | some after => exact .stopUploader found (acts_of_runActor ran)
  | .stopUploaders ((p, h) :: rest) true =>
    simp only [teardownStep] at taken
    split at taken
    · obtain rfl := Option.some.inj taken
      exact .retask found (.teardown rfl rfl (by simp [Teardown.handles]))
    · cases taken
  | .clearLocks =>
    obtain rfl := Option.some.inj taken
    cases data : d.deleteData with
    | true => exact .retask found (.erase data)
    | false => exact .retask found (.detached data)
  | .removeWal =>
    obtain rfl := Option.some.inj taken
    exact .removeWal found
  | .persist =>
    obtain rfl := Option.some.inj taken
    exact .persist found

theorem effect_of_taskStep {task : Task Name} (found : s.tasks[id]? = some task)
    (taken : taskStep env s id task = some next) : Effect env s (.task id) next := by
  match task with
  | .register name partitionCount cfg =>
    simp only [taskStep] at taken
    split at taken
    next entry known =>
      obtain rfl := Option.some.inj taken
      exact .retask found (.refused known)
    next unknown =>
      obtain rfl := Option.some.inj taken
      exact .register found unknown rfl
  | .spawning [] phase =>
    obtain rfl := Option.some.inj taken
    exact .shift found .spawned (.inr rfl) (List.Subset.refl _)
  | .spawning (job :: rest) phase => exact effect_of_spawnStep found taken
  | .unregister name deleteData =>
    simp only [taskStep] at taken
    split at taken
    next unknown =>
      obtain rfl := Option.some.inj taken
      exact .retask found (.unknown unknown)
    next entry known =>
      obtain rfl := Option.some.inj taken
      exact .unregister found known
  | .deleting d phase => exact effect_of_teardownStep found taken
  | .sweeping uuid 0 =>
    obtain rfl := Option.some.inj taken
    exact .shift found .swept (.inl rfl) List.filter_sublist.subset
  | .sweeping uuid (p + 1) =>
    obtain rfl := Option.some.inj taken
    exact .sweep found
  | .finished => cases taken

theorem effect_of_timeoutStep {task : Task Name} (found : s.tasks[id]? = some task)
    (taken : timeoutStep s id task = some next) : Effect env s (.timeout id) next := by
  simp only [timeoutStep] at taken
  split at taken
  · obtain rfl := Option.some.inj taken
    exact .timeout found (.teardown rfl rfl (by simp [Teardown.handles]))
  · obtain rfl := Option.some.inj taken
    exact .timeout found (.teardown rfl rfl (by simp [Teardown.handles]))
  · cases taken

theorem effect_of_abortStep {task : Task Name} (found : s.tasks[id]? = some task)
    (taken : abortStep s id task = some next) : Effect env s (.abort id) next := by
  simp only [abortStep] at taken
  split at taken
  all_goals first
    | cases taken; done
    | obtain rfl := Option.some.inj taken
      exact .abort found found

theorem effect_of_failStep {task : Task Name} (found : s.tasks[id]? = some task)
    (taken : failStep s id task = some next) : Effect env s (.fail id) next := by
  simp only [failStep] at taken
  split at taken
  · obtain rfl := Option.some.inj taken
    exact .abort found found
  · obtain rfl := Option.some.inj taken
    exact .abort found found
  · cases taken

/-- One inversion for all steps. -/
theorem effect_of_step {action : Action Name} (taken : step env action s = some next) :
    Effect env s action next := by
  cases action with
  | submit rpc =>
    simp only [step] at taken
    split at taken
    next up =>
      obtain rfl := Option.some.inj taken
      exact .submit up
    next => cases taken
  | task id =>
    obtain ⟨task, found, taken⟩ := Option.bind_eq_some_iff.mp taken
    exact effect_of_taskStep found taken
  | timeout id =>
    obtain ⟨task, found, taken⟩ := Option.bind_eq_some_iff.mp taken
    exact effect_of_timeoutStep found taken
  | abort id =>
    simp only [step] at taken
    split at taken
    · obtain ⟨task, found, taken⟩ := Option.bind_eq_some_iff.mp taken
      exact effect_of_abortStep found taken
    · cases taken
  | fail id =>
    simp only [step] at taken
    split at taken
    · obtain ⟨task, found, taken⟩ := Option.bind_eq_some_iff.mp taken
      exact effect_of_failStep found taken
    · cases taken
  | actor id action =>
    obtain ⟨a, found, taken⟩ := Option.bind_eq_some_iff.mp taken
    split at taken
    next allowed => exact .actor found allowed (acts_of_runActor taken)
    next => cases taken
  | crash cut =>
    simp only [step] at taken
    split at taken
    · cases taken
    next running =>
      obtain rfl := Option.some.inj taken
      exact .crash running
  | boot =>
    simp only [step] at taken
    split at taken
    next down =>
      obtain rfl := Option.some.inj taken
      exact .boot down
    next => cases taken

end Inversion

section Turnover

variable {env} {s next : State Name} {action : Action Name}

inductive Moves (s : State Name) (action : Action Name) (next : State Name) :
    Task Name → Task Name → Prop
  | shift {task later : Task Name} (shift : Shift s task later) : Moves s action next task later
  | abort {task : Task Name} (cut : aborts s action = some task) :
      Moves s action next task .finished
  | register {name : Name} {partitionCount : Nat} {cfg : ResolvedTopicConfig}
      {entry : TopicEntry Name} (created : creates s action = some entry.name) :
      Moves s action next (.register name partitionCount cfg) (.spawning (jobsOf entry) .lookup)
  | unregister {name : Name} {deleteData : Bool} {entry : TopicEntry Name}
      (deleted : deletes s action = some deleteData) (known : s.lookup name = some entry)
      (registry : next.registry = s.registry.filter (fun e => decide (e.name ≠ name)))
      (incarnations : next.incarnations = s.incarnations) :
      Moves s action next (.unregister name deleteData)
        (.deleting ⟨name, entry.uuid, entry.partitionCount, deleteData⟩ .removeHandles)
  | recover {job : Job Name} {rest : List (Job Name)} {lock : Nat} {a : Actor Name}
      (key : a.key = job.key) (uuid : a.uuid = job.uuid) (actors : next.actors = s.actors ++ [a]) :
      Moves s action next (.spawning (job :: rest) (.recover lock))
        (.spawning (job :: rest) (.opening lock s.actors.length))
  | openWriter {job : Job Name} {rest : List (Job Name)} {lock actor : Nat}
      (opened : ∀ a, next.actors[actor]? = some a → a.opened) :
      Moves s action next (.spawning (job :: rest) (.opening lock actor))
        (.spawning (job :: rest) (.insert lock actor))
  | insert {job : Job Name} {rest : List (Job Name)} {lock actor : Nat}
      (mapped : next.partitions job.key = some ⟨job.uuid, actor, job.cfg⟩) :
      Moves s action next (.spawning (job :: rest) (.insert lock actor)) (.spawning rest .lookup)
  | removeHandles {d : Deletion Name} (actors : next.actors = s.actors)
      (registry : next.registry = s.registry)
      (unmapped : ∀ p < d.partitionCount, next.partitions (d.name, p) = none) :
      Moves s action next (.deleting d .removeHandles)
        (.deleting d (.stopWriters (handlesOf s d) (handlesOf s d) false))
  | removeWal {d : Deletion Name} (removed : removes s action = some d.name)
      (wal : ∀ p, next.wal (d.name, p) = ∅) :
      Moves s action next (.deleting d .removeWal) (.deleting d .persist)
  | sweep {uuid p : Nat} : Moves s action next (.sweeping uuid (p + 1)) (.sweeping uuid p)

inductive Turnover (s : State Name) (action : Action Name) (next : State Name) : Prop
  | same (tasks : next.tasks = s.tasks)
  | move {id : Nat} {task later : Task Name} (found : s.tasks[id]? = some task)
      (moves : Moves s action next task later) (tasks : next.tasks = s.tasks.set id later)
  | submit (rpc : Rpc Name) (tasks : next.tasks = s.tasks ++ [rpc.task])
  | persist {id : Nat} {d : Deletion Name} (found : s.tasks[id]? = some (.deleting d .persist))
      (tasks : next.tasks = s.tasks.set id .finished ++ [.sweeping d.uuid d.partitionCount])
  | crash (cut : interrupts s action = s.tasks) (tasks : next.tasks = [])
      (memory : next.status = .down ∧ ∀ k, next.partitions k = none)
  | boot (down : s.status = .down) (tasks : next.tasks = (booted s).tasks)

theorem creates_register {id : Nat} {name : Name} {partitionCount : Nat}
    {cfg : ResolvedTopicConfig} (found : s.tasks[id]? = some (.register name partitionCount cfg))
    (unknown : s.lookup name = none) : creates s (.task id) = some name := by
  simp [creates, found, unknown]

theorem Acts.tasks {id : Nat} {move : Partition.Action} (acts : Acts env s id move next) :
    next.tasks = s.tasks := by
  cases acts
  rfl

theorem Acts.opened {id : Nat} (acts : Acts env s id .openWriter next) (a : Actor Name)
    (found : next.actors[id]? = some a) : a.opened := by
  cases acts with
  | intro here taken alive =>
    obtain rfl := Option.some.inj ((Slots.set_self here).symm.trans found)
    simp only [Partition.liveStep] at taken
    split at taken
    · obtain rfl := Option.some.inj taken
      obtain rfl := Option.some.inj alive
      simp [Actor.opened]
    · cases taken

theorem Effect.turnover (effect : Effect env s action next) : Turnover s action next := by
  cases effect with
  | submit => exact .submit _ rfl
  | shift found shift | timeout found shift => exact .move found (.shift shift) rfl
  | abort found cut => exact .move found (.abort cut) rfl
  | register found unknown named =>
    subst named
    exact .move found (.register (creates_register found unknown)) rfl
  | unregister found known =>
    exact .move found (.unregister (by simp [deletes, found, known]) known rfl rfl) rfl
  | recover found taken =>
    obtain rfl := Option.some.inj taken
    exact .move found (.recover rfl rfl rfl) rfl
  | sendOrphan _ acts | actor _ _ acts => exact .same acts.tasks
  | openWriter found acts =>
    refine .move found (.openWriter acts.opened) ?_
    simp only [State.setTask, acts.tasks]
  | insert found => exact .move found (.insert (Function.update_self _ _ _)) rfl
  | removeHandles found =>
    exact .move found (.removeHandles rfl rfl fun p below => if_pos ⟨rfl, below⟩) rfl
  | @stopWriter id p d h handles rest found =>
    have waits : Shift s (.deleting d (.stopWriters handles ((p, h) :: rest) false))
      (.deleting d (.stopWriters handles ((p, h) :: rest) true)) :=
      .teardown rfl rfl fun _ member => member
    exact .move found (.shift waits) rfl
  | @stopUploader id p d h rest _ found acts =>
    have waits : Shift s (.deleting d (.stopUploaders ((p, h) :: rest) false))
      (.deleting d (.stopUploaders ((p, h) :: rest) true)) :=
      .teardown rfl rfl fun _ member => member
    refine .move found (.shift waits) ?_
    simp only [State.setTask, acts.tasks]
  | removeWal found =>
    exact .move found (.removeWal (by simp [removes, found]) fun p => if_pos rfl) rfl
  | persist found => exact .persist found rfl
  | sweep found => exact .move found .sweep rfl
  | crash => exact .crash rfl rfl ⟨rfl, fun _ => rfl⟩
  | boot down => exact .boot down rfl

/-- Tasks that come from no earlier one: RPCs, sweeps, and what boot starts. -/
inductive Begins (s : State Name) : Task Name → Prop
  | rpc (rpc : Rpc Name) : Begins s rpc.task
  | returned : Begins s .finished
  | sweep {d : Deletion Name} (member : .deleting d .persist ∈ s.tasks) :
      Begins s (.sweeping d.uuid d.partitionCount)
  | boot (down : s.status = .down) : Begins s (.spawning (s.registry.flatMap jobsOf) .lookup)
  | resume {d : Nat × Nat} (member : d ∈ s.pendingDeletes) : Begins s (.sweeping d.1 d.2)

/-- Where the tasks after a step come from. -/
theorem Effect.origin (effect : Effect env s action next) {task : Task Name}
    (member : task ∈ next.tasks) :
    task ∈ s.tasks ∨ (∃ before ∈ s.tasks, Moves s action next before task) ∨ Begins s task := by
  cases effect.turnover with
  | same tasks => exact .inl (tasks ▸ member)
  | move found moves tasks =>
    rw [tasks] at member
    rcases List.mem_or_eq_of_mem_set member with old | rfl
    · exact .inl old
    · exact .inr (.inl ⟨_, List.mem_of_getElem? found, moves⟩)
  | submit rpc tasks =>
    rw [tasks] at member
    rcases List.mem_append.mp member with old | last
    · exact .inl old
    · rw [List.mem_singleton.mp last]
      exact .inr (.inr (.rpc rpc))
  | persist found tasks =>
    rw [tasks] at member
    rcases List.mem_append.mp member with earlier | last
    · rcases List.mem_or_eq_of_mem_set earlier with old | rfl
      · exact .inl old
      · exact .inr (.inr .returned)
    · rw [List.mem_singleton.mp last]
      exact .inr (.inr (.sweep (List.mem_of_getElem? found)))
  | crash _ tasks =>
    rw [tasks] at member
    cases member
  | boot down tasks =>
    rw [tasks] at member
    rcases List.mem_cons.mp member with rfl | resumed
    · exact .inr (.inr (.boot down))
    · obtain ⟨d, pending, rfl⟩ := List.mem_map.mp resumed
      exact .inr (.inr (.resume pending))

end Turnover
end Effects
end Kafkrs.Broker
