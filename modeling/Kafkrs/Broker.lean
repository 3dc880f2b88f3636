import Kafkrs.Partition
import Mathlib.Logic.Function.Basic

/-! The broker around its partitions: the topic registry, the partition map, the spawn locks and
the lifecycle RPCs that move through them one await at a time. WAL directories are named by
topic, objects by topic and UUID; distinct names are taken to have disjoint WAL directories, as plain
ones do (`Paths.clears_of_plain`). UUIDs are handed out in order, so they never repeat. A recovery
or an opening may fail; the calls of running actors succeed. -/
namespace Kafkrs.Broker

open Lib

section Data

variable (Name : Type)

structure TopicEntry where
  name : Name
  uuid : Nat
  partitionCount : Nat
  cfg : ResolvedTopicConfig

abbrev Key := Name × Nat

structure PartitionHandle where
  uuid : Nat
  actor : Nat
  cfg : ResolvedTopicConfig
  deriving DecidableEq, Repr

structure Actor where
  key : Key Name
  uuid : Nat
  live : Partition.Live
  /-- A `Shutdown` is in the writer's inbox. -/
  stopRequested : Bool

structure Job where
  key : Key Name
  uuid : Nat
  cfg : ResolvedTopicConfig

/-- Where a call of `spawn_partition` stands; from `check` on it holds its lock. -/
inductive Spawn where
  | lookup
  | acquire (lock : Nat)
  | check (lock : Nat)
  | recover (lock : Nat)
  | opening (lock actor : Nat)
  | insert (lock actor : Nat)
  deriving DecidableEq, Repr

structure Deletion where
  name : Name
  uuid : Nat
  partitionCount : Nat
  deleteData : Bool

/-- Where `handle_delete_topic` stands after the registry step. `sent` says whether the
`Shutdown` to the first handle of the list has gone out. -/
inductive Teardown where
  | removeHandles
  | stopWriters (handles rest : List (Nat × PartitionHandle)) (sent : Bool)
  | stopUploaders (rest : List (Nat × PartitionHandle)) (sent : Bool)
  | clearLocks
  | removeWal
  | persist
  deriving DecidableEq, Repr

inductive Task where
  /-- `CreateTopic`, or the `EnsureExists` of an auto-creating `Produce`. -/
  | register (name : Name) (partitionCount : Nat) (cfg : ResolvedTopicConfig)
  /-- The partitions still to spawn; the first is in progress. -/
  | spawning (jobs : List (Job Name)) (phase : Spawn)
  | unregister (name : Name) (deleteData : Bool)
  | deleting (d : Deletion Name) (phase : Teardown)
  /-- `sweep_deletion`: the partitions below `rest` still to clean. -/
  | sweeping (uuid rest : Nat)
  | finished

inductive Status where
  | down
  | booting
  | up
  deriving DecidableEq, Repr

/-- A finished recovery, kept only to speak about it. -/
structure Recovered where
  uuid : Nat
  partition : Nat
  recovery : Recovery.PartitionRecovery

/-- Locks, actors and tasks are named by their place in the list. -/
structure State where
  registry : List (TopicEntry Name)
  /-- The name of every topic ever created; a UUID is a place in this list. -/
  incarnations : List Name
  wal : Key Name → Recovery.WalDir
  stores : Nat × Nat → Store
  histories : Nat × Nat → Partition.History
  pendingDeletes : List (Nat × Nat)
  status : Status
  partitions : Key Name → Option PartitionHandle
  spawnLocks : Key Name → Option Nat
  held : List Bool
  actors : List (Actor Name)
  tasks : List (Task Name)
  recoveries : List Recovered

inductive Rpc where
  | create (name : Name) (partitionCount : Nat) (cfg : ResolvedTopicConfig)
  | delete (name : Name) (deleteData : Bool)

inductive Action where
  | submit (rpc : Rpc Name)
  /-- The next step of a task. -/
  | task (id : Nat)
  /-- The wait for a shutdown ack gives up. -/
  | timeout (id : Nat)
  /-- The connection of an RPC is closed. -/
  | abort (id : Nat)
  /-- `recover_partition` or the opening of the writer fails, and the RPC panics. -/
  | fail (id : Nat)
  | actor (id : Nat) (action : Partition.Action)
  | crash (cut : Nat → Nat)
  | boot

end Data

section Steps

variable {Name : Type} [DecidableEq Name] (env : Partition.Externals)

abbrev emptyStore : Store := ⟨∅, Manifest.empty⟩

abbrev emptyHistory : Partition.History := ⟨[], [], []⟩

def fresh : State Name :=
  { registry := []
    incarnations := []
    wal := fun _ => ∅
    stores := fun _ => emptyStore
    histories := fun _ => emptyHistory
    pendingDeletes := []
    status := .down
    partitions := fun _ => none
    spawnLocks := fun _ => none
    held := []
    actors := []
    tasks := []
    recoveries := [] }

def Actor.stopped (a : Actor Name) : Prop := a.live.writer.phase = .stopped

instance (a : Actor Name) : Decidable a.stopped := inferInstanceAs (Decidable (_ = _))

def Rpc.task : Rpc Name → Task Name
  | .create name partitionCount cfg => .register name partitionCount cfg
  | .delete name deleteData => .unregister name deleteData

namespace State

def lookup (s : State Name) (name : Name) : Option (TopicEntry Name) :=
  s.registry.find? (fun e => decide (e.name = name))

def setTask (s : State Name) (id : Nat) (task : Task Name) : State Name :=
  { s with tasks := s.tasks.set id task }

def release (s : State Name) (lock : Nat) : State Name :=
  { s with held := s.held.set lock false }

def slot (s : State Name) (a : Actor Name) : Partition.State :=
  ⟨⟨s.wal a.key, s.stores (a.uuid, a.key.2)⟩, some a.live, s.histories (a.uuid, a.key.2)⟩

def withSlot (s : State Name) (a : Actor Name) (p : Partition.State) : State Name :=
  { s with
    wal := Function.update s.wal a.key p.disk.wal
    stores := Function.update s.stores (a.uuid, a.key.2) p.disk.store
    histories := Function.update s.histories (a.uuid, a.key.2) p.history }

def runActor (s : State Name) (id : Nat) (action : Partition.Action) : Option (State Name) :=
  s.actors[id]?.bind fun a =>
    (Partition.liveStep env (s.slot a) a.live action).bind fun p =>
      p.live.map fun live =>
        { s.withSlot a p with actors := s.actors.set id { a with live := live } }

end State

def jobsOf (e : TopicEntry Name) : List (Job Name) :=
  (List.range e.partitionCount).map fun p => ⟨(e.name, p), e.uuid, e.cfg⟩

/-- `recover_partition` is one step here. In the source it awaits the manifest between listing the
WAL directory and reading the files, and what goes wrong then is a `fail`. -/
def spawnStep (s : State Name) (id : Nat) (job : Job Name) (rest : List (Job Name)) :
    Spawn → Option (State Name)
  | .lookup =>
    match s.spawnLocks job.key with
    | some lock => some (s.setTask id (.spawning (job :: rest) (.acquire lock)))
    | none =>
      some ({ s with
          spawnLocks := Function.update s.spawnLocks job.key (some s.held.length)
          held := s.held ++ [false] }.setTask id (.spawning (job :: rest) (.acquire s.held.length)))
  | .acquire lock =>
    if s.held[lock]? = some false then
      some ({ s with held := s.held.set lock true }.setTask id
        (.spawning (job :: rest) (.check lock)))
    else none
  | .check lock =>
    match s.partitions job.key with
    | some _ => some ((s.release lock).setTask id (.spawning rest .lookup))
    | none => some (s.setTask id (.spawning (job :: rest) (.recover lock)))
  | .recover lock =>
    let recovered := Recovery.recoverPartition env.crc32c
      (s.stores (job.uuid, job.key.2)).manifest (s.wal job.key)
    let live : Partition.Live :=
      { orphans := recovered.2.orphanSegments
        writer := PartitionWriter.new job.cfg recovered.2.nextOffset recovered.2.activeRecords
        uploader := Uploader.new job.cfg
        durable := [] }
    let actor : Actor Name := ⟨job.key, job.uuid, live, false⟩
    let recovery : Recovered := ⟨job.uuid, job.key.2, recovered.2⟩
    some ({ s with
        wal := Function.update s.wal job.key recovered.1
        actors := s.actors ++ [actor]
        recoveries := s.recoveries ++ [recovery] }.setTask id
      (.spawning (job :: rest) (.opening lock s.actors.length)))
  | .opening lock actor =>
    match s.runActor env actor .sendOrphan with
    | some next => some next
    | none =>
      (s.runActor env actor .openWriter).map fun next =>
        next.setTask id (.spawning (job :: rest) (.insert lock actor))
  | .insert lock actor =>
    some ({ s.release lock with
        partitions := Function.update s.partitions job.key (some ⟨job.uuid, actor, job.cfg⟩) }.setTask id
      (.spawning rest .lookup))

def handlesOf (s : State Name) (d : Deletion Name) : List (Nat × PartitionHandle) :=
  (List.range d.partitionCount).filterMap fun p =>
    (s.partitions (d.name, p)).map fun h => (p, h)

def writerGone (s : State Name) (actor : Nat) : Prop :=
  ∀ a ∈ s.actors[actor]?, a.stopped

def uploaderGone (s : State Name) (actor : Nat) : Prop :=
  ∀ a ∈ s.actors[actor]?, a.live.uploader.phase = .stopped

instance (s : State Name) (actor : Nat) : Decidable (writerGone s actor) :=
  inferInstanceAs (Decidable (∀ a ∈ s.actors[actor]?, _))

instance (s : State Name) (actor : Nat) : Decidable (uploaderGone s actor) :=
  inferInstanceAs (Decidable (∀ a ∈ s.actors[actor]?, _))

def requestStop (s : State Name) (actor : Nat) : State Name :=
  { s with actors := s.actors.modify actor fun a => { a with stopRequested := true } }

def teardownStep (s : State Name) (id : Nat) (d : Deletion Name) : Teardown → Option (State Name)
  | .removeHandles =>
    let handles := handlesOf s d
    some ({ s with
        partitions := fun k =>
          if k.1 = d.name ∧ k.2 < d.partitionCount then none else s.partitions k }.setTask id
      (.deleting d (.stopWriters handles handles false)))
  | .stopWriters handles [] _ => some (s.setTask id (.deleting d (.stopUploaders handles false)))
  | .stopWriters handles ((p, h) :: rest) false =>
    some ((requestStop s h.actor).setTask id
      (.deleting d (.stopWriters handles ((p, h) :: rest) true)))
  | .stopWriters handles ((_, h) :: rest) true =>
    if writerGone s h.actor then
      some (s.setTask id (.deleting d (.stopWriters handles rest false)))
    else none
  | .stopUploaders [] _ => some (s.setTask id (.deleting d .clearLocks))
  | .stopUploaders ((p, h) :: rest) false =>
    some (((s.runActor env h.actor (.enqueue .shutdown)).getD s).setTask id
      (.deleting d (.stopUploaders ((p, h) :: rest) true)))
  | .stopUploaders ((_, h) :: rest) true =>
    if uploaderGone s h.actor then
      some (s.setTask id (.deleting d (.stopUploaders rest false)))
    else none
  | .clearLocks =>
    some ({ s with
        spawnLocks := fun k =>
          if k.1 = d.name ∧ k.2 < d.partitionCount then none else s.spawnLocks k }.setTask id
      (if d.deleteData then .deleting d .removeWal else .finished))
  | .removeWal =>
    some ({ s with wal := fun k => if k.1 = d.name then ∅ else s.wal k }.setTask id
      (.deleting d .persist))
  | .persist =>
    some { s with
      pendingDeletes := s.pendingDeletes ++ [(d.uuid, d.partitionCount)]
      tasks := s.tasks.set id .finished ++ [.sweeping d.uuid d.partitionCount] }

def taskStep (s : State Name) (id : Nat) : Task Name → Option (State Name)
  | .register name partitionCount cfg =>
    match s.lookup name with
    | some _ => some (s.setTask id .finished)
    | none =>
      let entry : TopicEntry Name := ⟨name, s.incarnations.length, partitionCount, cfg⟩
      some ({ s with
          registry := s.registry ++ [entry]
          incarnations := s.incarnations ++ [name] }.setTask id (.spawning (jobsOf entry) .lookup))
  | .spawning [] _ => some { s.setTask id .finished with status := .up }
  | .spawning (job :: rest) phase => spawnStep env s id job rest phase
  | .unregister name deleteData =>
    match s.lookup name with
    | none => some (s.setTask id .finished)
    | some entry =>
      some ({ s with
          registry := s.registry.filter (fun e => decide (e.name ≠ name)) }.setTask id
        (.deleting ⟨name, entry.uuid, entry.partitionCount, deleteData⟩ .removeHandles))
  | .deleting d phase => teardownStep env s id d phase
  | .sweeping uuid 0 =>
    some { s.setTask id .finished with
      pendingDeletes := s.pendingDeletes.filter (fun d => d.1 ≠ uuid) }
  | .sweeping uuid (p + 1) =>
    some ({ s with stores := Function.update s.stores (uuid, p) emptyStore }.setTask id
      (.sweeping uuid p))
  | .finished => none

def timeoutStep (s : State Name) (id : Nat) : Task Name → Option (State Name)
  | .deleting d (.stopWriters handles (_ :: rest) true) =>
    some (s.setTask id (.deleting d (.stopWriters handles rest false)))
  | .deleting d (.stopUploaders (_ :: rest) true) =>
    some (s.setTask id (.deleting d (.stopUploaders rest false)))
  | _ => none

/-- Aborting an RPC drops the lock guard it holds; the boot sequence and sweeps have no
connection. From the lock cleanup to the WAL removal there is no await. A message that waits for the
registry is executed also when its sender is gone: such an RPC is aborted after that step. -/
def abortStep (s : State Name) (id : Nat) : Task Name → Option (State Name)
  | .register _ _ _ | .unregister _ _ => some (s.setTask id .finished)
  | .spawning _ (.check lock) | .spawning _ (.recover lock) | .spawning _ (.opening lock _)
  | .spawning _ (.insert lock _) => some ((s.release lock).setTask id .finished)
  | .spawning _ (.lookup) | .spawning _ (.acquire _) => some (s.setTask id .finished)
  | .deleting _ .clearLocks | .deleting _ .removeWal | .sweeping _ _ | .finished => none
  | .deleting _ _ => some (s.setTask id .finished)

/-- The guard is dropped as by an abort, and nothing else is undone. The files a failing recovery had
got to are not shown as it leaves them: the next recovery comes to the same (`Idempotence`). -/
def failStep (s : State Name) (id : Nat) : Task Name → Option (State Name)
  | .spawning _ (.recover lock) | .spawning _ (.opening lock _) =>
    some ((s.release lock).setTask id .finished)
  | _ => none

def external (a : Actor Name) : Partition.Action → Bool
  | .produce _ _ | .commitTimeout | .updateWriter _ | .segmentDurable | .writer | .uploader _ => true
  | .enqueue .shutdown => false
  | .enqueue _ => true
  | .shutdownWriter => a.stopRequested
  | .interrupt _ | .start _ | .sendOrphan | .openWriter | .crash _ => false

def crashActor (cut : Nat → Nat) (s : State Name) (id : Nat) : State Name :=
  match s.actors[id]? with
  | none => s
  | some a =>
    match Partition.liveStep env (s.slot a) a.live (.crash (cut id)) with
    | some p => s.withSlot a p
    | none => s

def crashed (cut : Nat → Nat) (s : State Name) : State Name :=
  { (List.range s.actors.length).foldl (crashActor env cut) s with
    status := .down
    partitions := fun _ => none
    spawnLocks := fun _ => none
    held := []
    actors := []
    tasks := [] }

/-- Boot spawns every registered partition and resumes the pending sweeps. -/
def booted (s : State Name) : State Name :=
  { s with
    status := .booting
    tasks := .spawning (s.registry.flatMap jobsOf) .lookup ::
      s.pendingDeletes.map fun d => .sweeping d.1 d.2 }

def step (action : Action Name) (s : State Name) : Option (State Name) :=
  match action with
  | .submit rpc => if s.status = .up then some { s with tasks := s.tasks ++ [rpc.task] } else none
  | .task id => s.tasks[id]?.bind (taskStep env s id)
  | .timeout id => s.tasks[id]?.bind (timeoutStep s id)
  | .abort id => if s.status = .up then s.tasks[id]?.bind (abortStep s id) else none
  -- at boot the panic is the end of the process
  | .fail id => if s.status = .up then s.tasks[id]?.bind (failStep s id) else none
  | .actor id action =>
    s.actors[id]?.bind fun a => if external a action then s.runActor env id action else none
  | .crash cut => if s.status = .down then none else some (crashed env cut s)
  | .boot => if s.status = .down then some (booted s) else none

def machine (Name : Type) [DecidableEq Name] : Machine (State Name) (Action Name) :=
  ⟨fresh, step env⟩

end Steps
end Kafkrs.Broker
