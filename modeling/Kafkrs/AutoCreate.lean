import Kafkrs.Agreement
import Kafkrs.GroupCommit
import Kafkrs.Produce

/-! Produce requests to a topic that is not there yet, with `auto_create_topics` on. Each first
has the registry ensure the topic: the one that creates it spawns its partitions as well, the
others go straight on to the lookup of their handle. -/
namespace Kafkrs.AutoCreate

open Lib Broker
open Kafkrs.Partition (Externals)
open Kafkrs.Produce (InRecordMeta produceInner)

structure Defaults (Name : Type) where
  topic : Name
  partitionCount : Nat
  cfg : ResolvedTopicConfig

inductive Phase where
  /-- `EnsureExists` and the spawns it may lead to, as a task of the broker. -/
  | ensuring (task : Nat)
  /-- In the inbox of the writer. -/
  | sending (actor : Nat) (records : List IncomingRecord)
  /-- Taken by the writer, as the request of that number. -/
  | waiting (actor place : Nat)
  | answered (actor place : Nat) (response : ProduceResponse)
  | refused (error : Produce.Error)
  /-- Answered `ErrUnknownTopic`. -/
  | unknownTopic

structure Request where
  partition : Nat
  metas : List InRecordMeta
  payload : Bytes
  phase : Phase

structure State (Name : Type) where
  broker : Broker.State Name
  requests : List Request

inductive Action (Name : Type) where
  | broker (action : Broker.Action Name)
  | submit (partition : Nat) (metas : List InRecordMeta) (payload : Bytes)
  /-- The next step of a request; `now` is the clock of the writer. -/
  | request (id : Nat) (now : Nat → Int64)

section Steps

variable {Name : Type} [DecidableEq Name] (env : Externals) (D : Defaults Name)

def State.setPhase (s : State Name) (id : Nat) (phase : Phase) : State Name :=
  { s with requests := s.requests.modify id fun r => { r with phase := phase } }

def ensured (b : Broker.State Name) (task : Nat) : Bool :=
  match b.tasks[task]? with
  | some .finished => true
  | _ => false

/-- `resolve_or_ensure_partition` from the lookup on, and the checks after it. -/
def resolve (b : Broker.State Name) (r : Request) : Phase :=
  match b.partitions (D.topic, r.partition) with
  | none => .unknownTopic
  | some handle =>
    match produceInner handle.cfg r.metas r.payload with
    | .ok records => .sending handle.actor records
    | .error e => .refused e

def ledger (w : PartitionWriter) : List (List Record) := w.produced.map (·.stored) ++ w.pendingAcks

def requestStep (s : State Name) (id : Nat) (now : Nat → Int64) (r : Request) : Option (State Name) :=
  match r.phase with
  | .ensuring task =>
    if ensured s.broker task then some (s.setPhase id (resolve D s.broker r)) else none
  | .sending actor records =>
    s.broker.actors[actor]?.bind fun a =>
      (Broker.step env (.actor actor (.produce records now)) s.broker).map fun b =>
        { s.setPhase id (.waiting actor (ledger a.live.writer).length) with broker := b }
  | .waiting actor place =>
    s.broker.actors[actor]?.bind fun a =>
      a.live.writer.produced[place]?.map fun p => s.setPhase id (.answered actor place p.response)
  | .answered _ _ _ | .refused _ | .unknownTopic => none

def step : Action Name → State Name → Option (State Name)
  | .broker action, s => (Broker.step env action s.broker).map fun b => { s with broker := b }
  | .submit partition metas payload, s =>
    (Broker.step env (.submit (.create D.topic D.partitionCount D.cfg)) s.broker).map fun b =>
      { broker := b
        requests := s.requests ++ [⟨partition, metas, payload, .ensuring s.broker.tasks.length⟩] }
  | .request id now, s => s.requests[id]?.bind (requestStep env D s id now)

def machine (start : Broker.State Name) : Machine (State Name) (Action Name) :=
  ⟨⟨start, []⟩, step env D⟩

inductive Turn (s : State Name) (id : Nat) (now : Nat → Int64) (r : Request) : State Name → Prop
  | resolved {task : Nat} (phase : r.phase = .ensuring task) (finished : ensured s.broker task = true) :
      Turn s id now r (s.setPhase id (resolve D s.broker r))
  | sent {actor : Nat} {records : List IncomingRecord} {a : Actor Name} {b : Broker.State Name}
      (phase : r.phase = .sending actor records) (there : s.broker.actors[actor]? = some a)
      (stepped : Broker.step env (.actor actor (.produce records now)) s.broker = some b) :
      Turn s id now r { s.setPhase id (.waiting actor (ledger a.live.writer).length) with broker := b }
  | answered {actor place : Nat} {a : Actor Name} {p : Produced} (phase : r.phase = .waiting actor place)
      (there : s.broker.actors[actor]? = some a) (acked : a.live.writer.produced[place]? = some p) :
      Turn s id now r (s.setPhase id (.answered actor place p.response))

theorem requestStep_turn {s next : State Name} {id : Nat} {now : Nat → Int64} {r : Request}
    (taken : requestStep env D s id now r = some next) : Turn env D s id now r next := by
  unfold requestStep at taken
  split at taken
  next phase =>
    split at taken
    next finished =>
      cases taken
      exact .resolved phase finished
    next => cases taken
  next phase =>
    obtain ⟨a, there, taken⟩ := Option.bind_eq_some_iff.mp taken
    obtain ⟨b, stepped, rfl⟩ := Option.map_eq_some_iff.mp taken
    exact .sent phase there stepped
  next phase =>
    obtain ⟨a, there, taken⟩ := Option.bind_eq_some_iff.mp taken
    obtain ⟨p, acked, rfl⟩ := Option.map_eq_some_iff.mp taken
    exact .answered phase there acked
  all_goals cases taken

/-- No deletes, disconnects, failures or crashes, and no create of the topic that asks for something
else. -/
def Undisturbed : Broker.Action Name → Prop
  | .submit (.create name partitionCount _) => name = D.topic → partitionCount = D.partitionCount
  | .submit (.delete _ _) | .abort _ | .fail _ | .crash _ => False
  | _ => True

/-- Requests ask for one of the default partitions and are well formed, also by the config of the
handle they find. -/
def Admits (s : State Name) : Action Name → Prop
  | .broker action => Undisturbed D action
  | .submit partition metas payload =>
    partition < D.partitionCount ∧ (produceInner D.cfg metas payload).toOption.isSome
  | .request id _ => ∀ r ∈ s.requests[id]?, ∀ h ∈ s.broker.partitions (D.topic, r.partition),
      (produceInner h.cfg r.metas r.payload).toOption.isSome

def looksUp (s : State Name) : Action Name → Option (Key Name)
  | .request id _ => s.requests[id]?.bind fun r =>
    match r.phase with
    | .ensuring task => if ensured s.broker task then some (D.topic, r.partition) else none
    | _ => none
  | _ => none

/-- No handle is looked up while the spawn of its partition is still under way. -/
def Patient (s : State Name) (action : Action Name) : Prop :=
  ∀ key ∈ looksUp D s action, ∀ task ∈ s.broker.tasks, ∀ job ∈ task.jobs, job.key ≠ key

end Steps

section Ledger

variable {env : Externals}

/-- What a writer has taken it keeps, in order, and so with its answers. -/
structure Onward (w w' : PartitionWriter) : Prop where
  ledger : ledger w <+: ledger w'
  produced : w.produced <+: w'.produced

theorem Onward.refl (w : PartitionWriter) : Onward w w := ⟨List.prefix_rfl, List.prefix_rfl⟩

theorem Onward.untouched {w w' : PartitionWriter} (same : GroupCommit.Untouched w w') : Onward w w' := by
  have kept : AutoCreate.ledger w' = AutoCreate.ledger w := by
    simp only [AutoCreate.ledger, same.produced, same.pendingAcks]
  exact ⟨kept ▸ List.prefix_rfl, same.produced ▸ List.prefix_rfl⟩

theorem flushCommit_ledger (w : PartitionWriter) : Onward w w.flushCommit := by
  by_cases empty : w.pending = []
  · exact .untouched (GroupCommit.flushCommit_empty w empty)
  · obtain ⟨_, _, acks, produced⟩ := GroupCommit.flushCommit_requests w empty
    constructor
    · simp [ledger, acks, produced, Function.comp_def]
    · rw [produced]
      exact List.prefix_append _ _

theorem onProduce_ledger {w w' : PartitionWriter} {records : List IncomingRecord} {now : Nat → Int64}
    (stored : w.onProduce records now = some w') :
    ledger w' = ledger w ++ [PartitionWriter.stamp now w.nextOffset records] ∧ w'.produced = w.produced := by
  obtain ⟨_, _, _, rfl⟩ := PartitionWriter.onProduce_some stored
  simp [ledger]

theorem liveStep_onward {p after : Partition.State} {l live : Partition.Live} {move : Partition.Action}
    (own : p.live = some l) (taken : Partition.liveStep env p l move = some after)
    (alive : after.live = some live) : Onward l.writer live.writer := by
  have stepped : Partition.step env move p = some after := by simpa only [Partition.step, own] using taken
  rcases GroupCommit.step_requests stepped alive with ⟨down, _⟩ | ⟨l', same, moved⟩
  · rw [own] at down
    cases down
  · obtain rfl := Option.some.inj (own.symm.trans same)
    rcases moved with ⟨untouched, _⟩ | ⟨records, now, _, _, stored⟩ | ⟨_, _, flushed⟩
    · exact .untouched untouched
    · obtain ⟨longer, produced⟩ := onProduce_ledger stored
      exact ⟨longer ▸ List.prefix_append _ _, produced ▸ List.prefix_rfl⟩
    · rw [flushed]
      exact flushCommit_ledger l.writer

variable {Name : Type} [DecidableEq Name] {b next : Broker.State Name} {action : Broker.Action Name}

def Remembers (actors later : List (Actor Name)) : Prop :=
  ∀ (i : Nat) a, actors[i]? = some a →
    ∃ a', later[i]? = some a' ∧ a'.key = a.key ∧ Onward a.live.writer a'.live.writer

omit [DecidableEq Name] in
theorem Remembers.refl (actors : List (Actor Name)) : Remembers actors actors :=
  fun _ a found => ⟨a, found, rfl, .refl _⟩

theorem acts_remembers {id : Nat} {move : Partition.Action} (acts : Acts env b id move next) :
    Remembers b.actors next.actors := by
  cases acts with
  | @intro a p live here taken alive =>
    intro i other found
    by_cases same : i = id
    · subst same
      obtain rfl := Option.some.inj (found.symm.trans here)
      exact ⟨_, Slots.set_self found, rfl, liveStep_onward (p := b.slot other) rfl taken alive⟩
    · exact ⟨other, (Slots.set_other same).trans found, rfl, .refl _⟩

theorem effect_remembers (effect : Effect env b action next) (on : next.status ≠ .down) :
    Remembers b.actors next.actors := by
  cases effect with
  | recover _ taken =>
    cases taken
    exact fun i a found =>
      ⟨a, (List.getElem?_append_left (List.getElem?_eq_some_iff.mp found).1).trans found, rfl, .refl _⟩
  | sendOrphan _ acts | openWriter _ acts | stopUploader _ acts | actor _ _ acts =>
    have remembers := acts_remembers acts
    exact remembers
  | @stopWriter id p d h =>
    intro i a found
    by_cases same : i = h.actor
    · subst same
      exact ⟨{ a with stopRequested := true }, by simp [State.setTask, requestStop, found], rfl, .refl _⟩
    · exact ⟨a, (Slots.modify_other same).trans found, rfl, .refl _⟩
  | crash => exact absurd rfl on
  | _ => exact .refl _

end Ledger

section Calm

variable {Name : Type} [DecidableEq Name] {env : Externals} {D : Defaults Name} {before : Nat}
  {b next : Broker.State Name} {action : Broker.Action Name}

def Quiet (D : Defaults Name) : Broker.Task Name → Prop
  | .register name partitionCount _ => name = D.topic → partitionCount = D.partitionCount
  | .unregister _ _ | .deleting _ _ => False
  | .spawning _ _ | .sweeping _ _ | .finished => True

/-- The broker while the topic is being created; it had been `before` times in the past. -/
structure Calm (D : Defaults Name) (before : Nat) (b : Broker.State Name) : Prop where
  agreeing : Agreeing b
  up : b.status = .up
  tasks : ∀ task ∈ b.tasks, Quiet D task
  entries : ∀ e ∈ b.registry, e.name = D.topic → e.partitionCount = D.partitionCount
  absent : ¬Registered b D.topic → b.incarnations.count D.topic = before
  created : Registered b D.topic → b.incarnations.count D.topic = before + 1

theorem Calm.unregisters (calm : Calm D before b) : unregisters b action = none := by
  cases action with
  | task id =>
    simp only [Broker.unregisters]
    split
    next found => exact absurd (calm.tasks _ (List.mem_of_getElem? found)) fun never => never
    next => rfl
  | _ => rfl

omit [DecidableEq Name] in
theorem Undisturbed.uncut (undisturbed : Undisturbed D action) : aborts b action = none := by
  cases action with
  | abort | fail => exact absurd undisturbed id
  | _ => rfl

theorem Calm.unbroken (calm : Calm D before b) (undisturbed : Undisturbed D action) :
    Unbroken b action := by
  refine ⟨fun name created => ⟨?_, ?_⟩, fun name gone => ?_, fun task cut => ?_⟩
  · -- a spawn under way is one of a registered topic
    intro task member job inside same
    obtain ⟨_, e, listed, named, _⟩ := calm.agreeing.jobs task member job inside
    exact lookup_none.mp (creates_unknown created) e listed (named.trans same)
  · rintro ⟨task, member, unmapping⟩
    have quiet := calm.tasks task member
    cases task with
    | deleting => exact quiet
    | _ => cases unmapping
  · rw [calm.unregisters] at gone
    cases gone
  · rw [undisturbed.uncut] at cut
    cases cut

theorem shift_quiet {task later : Broker.Task Name} (shift : Shift b task later) (quiet : Quiet D task) :
    Quiet D later := by
  cases shift with
  | teardown | erase => exact quiet
  | _ => trivial

theorem Calm.tasks_step (calm : Calm D before b) (undisturbed : Undisturbed D action)
    (effect : Effect env b action next) : ∀ task ∈ next.tasks, Quiet D task := by
  have moved {id : Nat} {later : Broker.Task Name} (quiet : Quiet D later) :
      ∀ task ∈ b.tasks.set id later, Quiet D task := by
    intro task member
    rcases List.mem_or_eq_of_mem_set member with old | rfl
    · exact calm.tasks task old
    · exact quiet
  have here {id : Nat} {task : Broker.Task Name} (found : b.tasks[id]? = some task) : Quiet D task :=
    calm.tasks task (List.mem_of_getElem? found)
  cases effect with
  | @submit rpc =>
    intro task member
    rcases List.mem_append.mp member with old | new
    · exact calm.tasks task old
    · rw [List.mem_singleton.mp new]
      cases rpc with
      | create => exact undisturbed
      | delete => exact undisturbed
  | shift found shift | timeout found shift => exact moved (shift_quiet shift (here found))
  | abort _ cut =>
    rw [undisturbed.uncut] at cut
    cases cut
  | crash => exact absurd undisturbed id
  | register | insert | sweep => exact moved trivial
  | recover _ taken =>
    cases taken
    exact moved trivial
  | sendOrphan _ acts | actor _ _ acts =>
    rw [acts.tasks]
    exact calm.tasks
  | openWriter _ acts =>
    simp only [State.setTask, acts.tasks]
    exact moved trivial
  | unregister found | removeHandles found | stopWriter found | stopUploader found | removeWal found
  | persist found => exact absurd (here found) id
  | boot down =>
    rw [calm.up] at down
    cases down

/-- An entry is an old one or comes from an `EnsureExists`. -/
theorem entry_origin (undisturbed : Undisturbed D action) (effect : Effect env b action next)
    {e : TopicEntry Name} (member : e ∈ next.registry) : e ∈ b.registry ∨
      ∃ task ∈ b.tasks, ∃ cfg, task = .register e.name e.partitionCount cfg := by
  cases effect with
  | register found _ named =>
    rcases List.mem_append.mp member with old | new
    · exact .inl old
    · obtain rfl := (List.mem_singleton.mp new).trans named
      exact .inr ⟨_, List.mem_of_getElem? found, _, rfl⟩
  | unregister => exact .inl (List.mem_filter.mp member).1
  | recover _ taken =>
    cases taken
    exact .inl member
  | sendOrphan _ acts | openWriter _ acts | stopUploader _ acts | actor _ _ acts =>
    cases acts
    exact .inl member
  | crash => exact absurd undisturbed fun never => never
  | _ => exact .inl member

/-- Without deletes a topic stays registered. -/
theorem Calm.stays (calm : Calm D before b) (effect : Effect env b action next) {name : Name}
    (known : Registered b name) : Registered next name := by
  obtain ⟨e, member, named⟩ := known
  rcases effect.entry calm.agreeing.spawns member with kept | ⟨gone, _⟩
  · exact ⟨e, kept, named⟩
  · rw [calm.unregisters] at gone
    cases gone

/-- Only the registration of a topic adds to its incarnations. -/
theorem Calm.count_step (calm : Calm D before b) (effect : Effect env b action next) :
    (¬Registered next D.topic → next.incarnations.count D.topic = before) ∧
      (Registered next D.topic → next.incarnations.count D.topic = before + 1) := by
  have stays (known : Registered b D.topic) : Registered next D.topic := calm.stays effect known
  cases effect.growth with
  | create id entry _ unknown _ same =>
    subst same
    by_cases own : entry.name = D.topic
    · rw [own] at unknown
      have count := calm.absent fun ⟨e, member, named⟩ => lookup_none.mp unknown e member named
      refine ⟨fun never => absurd ⟨entry, List.mem_concat_self, own⟩ never, fun _ => ?_⟩
      simp [List.count_append, own, count]
    · have count : (b.incarnations ++ [entry.name]).count D.topic = b.incarnations.count D.topic := by
        simp [List.count_append, own]
      dsimp only
      rw [count]
      refine ⟨fun never => calm.absent fun known => never (stays known), fun ⟨e, member, named⟩ => ?_⟩
      rcases List.mem_append.mp member with old | new
      · exact calm.created ⟨e, old, named⟩
      · rw [List.mem_singleton.mp new] at named
        exact absurd named own
  | thin _ registry same =>
    rw [same]
    exact ⟨fun never => calm.absent fun known => never (stays known),
      fun ⟨e, member, named⟩ => calm.created ⟨e, registry.subset member, named⟩⟩
  | boot down =>
    rw [calm.up] at down
    cases down

theorem Calm.step (calm : Calm D before b) (undisturbed : Undisturbed D action)
    (effect : Effect env b action next) : Calm D before next := by
  refine ⟨calm.agreeing.step (calm.unbroken undisturbed) effect, ?_, calm.tasks_step undisturbed effect,
    fun e member named => ?_, (calm.count_step effect).1, (calm.count_step effect).2⟩
  · cases effect with
    | shift _ _ running =>
      rcases running with same | up
      · exact same.trans calm.up
      · exact up
    | recover _ taken =>
      cases taken
      exact calm.up
    | sendOrphan _ acts | openWriter _ acts | stopUploader _ acts | actor _ _ acts =>
      cases acts
      exact calm.up
    | crash => exact absurd undisturbed fun never => never
    | boot down =>
      rw [calm.up] at down
      cases down
    | _ => exact calm.up
  · rcases entry_origin undisturbed effect member with old | ⟨_, waiting, cfg, rfl⟩
    · exact calm.entries e old named
    · exact calm.tasks _ waiting named

end Calm

section Requests

variable {Name : Type} [DecidableEq Name] {env : Externals} {D : Defaults Name} {before : Nat}
  {b next : Broker.State Name} {action : Broker.Action Name}

/-- What the task of an `EnsureExists` may have become. -/
def Serves (D : Defaults Name) (b : Broker.State Name) : Broker.Task Name → Prop
  | .register name _ _ => name = D.topic
  | .spawning _ _ | .finished => Registered b D.topic
  | _ => False

theorem shift_serves {task later : Broker.Task Name} (shift : Shift b task later)
    (stays : Registered b D.topic → Registered next D.topic) (serves : Serves D b task) :
    Serves D next later := by
  cases shift with
  | @refused name _ _ entry known =>
    obtain rfl : name = D.topic := serves
    exact stays ⟨entry, lookup_some known⟩
  | spawned | prepare | present => exact stays serves
  | unknown | teardown | erase | detached | swept => exact absurd serves fun never => never

def Ensuring (D : Defaults Name) (b : Broker.State Name) (id : Nat) : Prop :=
  ∃ task, b.tasks[id]? = some task ∧ Serves D b task

theorem Ensuring.step {t : Nat} (ensuring : Ensuring D b t) (calm : Calm D before b)
    (undisturbed : Undisturbed D action) (effect : Effect env b action next) : Ensuring D next t := by
  obtain ⟨task, at', serves⟩ := ensuring
  have stays (known : Registered b D.topic) : Registered next D.topic := calm.stays effect known
  have kept : Serves D next task := by
    cases task with
    | register => exact serves
    | spawning | finished => exact stays serves
    | _ => exact serves
  have moved {id : Nat} {old later : Broker.Task Name} (found : b.tasks[id]? = some old)
      (tasks : next.tasks = b.tasks.set id later) (goes : Serves D b old → Serves D next later) :
      Ensuring D next t := by
    by_cases here : t = id
    · subst here
      obtain rfl := Option.some.inj (at'.symm.trans found)
      exact ⟨later, by rw [tasks]; exact Slots.set_self found, goes serves⟩
    · exact ⟨task, by rw [tasks]; exact (Slots.set_other here).trans at', kept⟩
  cases effect with
  | submit => exact ⟨task, (List.getElem?_append_left (List.getElem?_eq_some_iff.mp at').1).trans at', kept⟩
  | shift found shift | timeout found shift => exact moved found rfl (shift_serves shift stays)
  | abort _ cut =>
    rw [undisturbed.uncut] at cut
    cases cut
  | crash => exact absurd undisturbed fun never => never
  | register found unknown named =>
    subst named
    exact moved found rfl fun same => ⟨_, List.mem_concat_self, same⟩
  | insert found => exact moved found rfl stays
  | sweep found | unregister found | removeHandles found | stopWriter found | removeWal found =>
    exact moved found rfl fun never => absurd never fun never => never
  | recover found taken =>
    cases taken
    exact moved found rfl stays
  | sendOrphan _ acts | actor _ _ acts => exact ⟨task, acts.tasks ▸ at', kept⟩
  | @openWriter id lock actor job rest after found acts =>
    have tasks : (after.setTask id (.spawning (job :: rest) (.insert lock actor))).tasks =
        b.tasks.set id (.spawning (job :: rest) (.insert lock actor)) := by
      simp only [State.setTask, acts.tasks]
    exact moved found tasks stays
  | stopUploader found acts | persist found =>
    exact absurd (calm.tasks _ (List.mem_of_getElem? found)) fun never => never
  | boot down =>
    rw [calm.up] at down
    cases down

def Carries (stored : List Record) (records : List IncomingRecord) : Prop :=
  ∃ now next, stored = PartitionWriter.stamp now next records

def Stands (D : Defaults Name) (b : Broker.State Name) (partition : Nat) (records : List IncomingRecord) :
    Phase → Prop
  | .ensuring id => Ensuring D b id
  | .sending actor sent => Registered b D.topic ∧ sent = records ∧
    ∃ a, b.actors[actor]? = some a ∧ a.key = (D.topic, partition)
  | .waiting actor place => Registered b D.topic ∧
    ∃ a stored, b.actors[actor]? = some a ∧ a.key = (D.topic, partition) ∧
      (ledger a.live.writer)[place]? = some stored ∧ Carries stored records
  | .answered actor place response => Registered b D.topic ∧
    ∃ a stored, b.actors[actor]? = some a ∧ a.key = (D.topic, partition) ∧
      a.live.writer.produced[place]? = some ⟨stored, response⟩ ∧ Carries stored records
  | .refused _ => False
  | .unknownTopic => Registered b D.topic

theorem prefix_get {α : Type} {front whole : List α} (front' : front <+: whole) {i : Nat} {x : α}
    (found : front[i]? = some x) : whole[i]? = some x := by
  obtain ⟨rest, rfl⟩ := front'
  exact (List.getElem?_append_left (List.getElem?_eq_some_iff.mp found).1).trans found

theorem stands_step {partition : Nat} {records : List IncomingRecord} {phase : Phase}
    (stands : Stands D b partition records phase) (calm : Calm D before b)
    (undisturbed : Undisturbed D action) (effect : Effect env b action next) :
    Stands D next partition records phase := by
  have stays (known : Registered b D.topic) : Registered next D.topic := calm.stays effect known
  have on : next.status ≠ .down := by simp [(calm.step undisturbed effect).up]
  have remembers := effect_remembers effect on
  cases phase with
  | ensuring id => exact stands.step calm undisturbed effect
  | sending actor sent =>
    obtain ⟨known, same, a, found, key⟩ := stands
    obtain ⟨a', found', key', _⟩ := remembers actor a found
    exact ⟨stays known, same, a', found', key'.trans key⟩
  | waiting actor place =>
    obtain ⟨known, a, stored, found, key, taken, carries⟩ := stands
    obtain ⟨a', found', key', onward⟩ := remembers actor a found
    exact ⟨stays known, a', stored, found', key'.trans key, prefix_get onward.ledger taken, carries⟩
  | answered actor place response =>
    obtain ⟨known, a, stored, found, key, acked, carries⟩ := stands
    obtain ⟨a', found', key', onward⟩ := remembers actor a found
    exact ⟨stays known, a', stored, found', key'.trans key, prefix_get onward.produced acked, carries⟩
  | refused => exact stands
  | unknownTopic => exact stays stands

end Requests

section Runs

variable {Name : Type} [DecidableEq Name] {env : Externals} {D : Defaults Name} {before : Nat}
  {b : Broker.State Name} {s next : State Name} {action : Action Name}

structure Invariant (D : Defaults Name) (before : Nat) (s : State Name) : Prop where
  calm : Calm D before s.broker
  requests : ∀ r ∈ s.requests, r.partition < D.partitionCount ∧
    ∃ records, produceInner D.cfg r.metas r.payload = .ok records ∧
      Stands D s.broker r.partition records r.phase

omit [DecidableEq Name] in
theorem ensured_iff {id : Nat} : ensured b id = true ↔ b.tasks[id]? = some .finished := by
  unfold ensured
  cases found : b.tasks[id]? with
  | none => simp
  | some task => cases task <;> simp

/-- A request taken by a writer is the last of its ledger. -/
theorem produce_taken {after : Broker.State Name} {actor : Nat} {a : Actor Name}
    {records : List IncomingRecord} {now : Nat → Int64} (found : b.actors[actor]? = some a)
    (taken : Broker.step env (.actor actor (.produce records now)) b = some after) :
    ∃ a', after.actors[actor]? = some a' ∧ a'.key = a.key ∧
      ledger a'.live.writer =
        ledger a.live.writer ++ [PartitionWriter.stamp now a.live.writer.nextOffset records] := by
  cases effect_of_step taken with
  | abort _ cut => cases cut
  | actor _ _ acts =>
    cases acts with
    | intro here moved alive =>
      obtain rfl := Option.some.inj (found.symm.trans here)
      cases Partition.liveStep_moved moved with
      | produce _ _ stored =>
        cases alive
        exact ⟨_, Slots.set_self found, rfl, (onProduce_ledger stored).1⟩

/-- A handle of the created topic is in the map once no spawn has it before it. -/
theorem Calm.handle_iff (calm : Calm D before b) (known : Registered b D.topic) {p : Nat}
    (below : p < D.partitionCount) : (∃ h, b.partitions (D.topic, p) = some h) ↔
      ∀ task ∈ b.tasks, ∀ job ∈ task.jobs, job.key ≠ (D.topic, p) := by
  constructor
  · rintro ⟨h, found⟩ task member job inside same
    have empty := (calm.agreeing.jobs task member job inside).1
    rw [same, found] at empty
    cases empty
  · intro idle
    obtain ⟨e, member, named⟩ := known
    have on : b.status ≠ .down := by simp [calm.up]
    rw [← calm.entries e member named] at below
    have placed := calm.agreeing.placed on e member p below
    rw [named] at placed
    rcases placed with mapped | ⟨task, there, job, inside, same⟩
    · exact mapped
    · exact absurd same (idle task there job inside)

omit [DecidableEq Name] in
/-- Both configs admit the same records. -/
theorem produceInner_fits {cfg : ResolvedTopicConfig} {metas : List InRecordMeta} {payload : Bytes}
    {records : List IncomingRecord} (good : produceInner D.cfg metas payload = .ok records)
    (fits : (produceInner cfg metas payload).toOption.isSome) :
    produceInner cfg metas payload = .ok records := by
  cases admitted : produceInner cfg metas payload with
  | error e => simp [admitted, Except.toOption] at fits
  | ok other =>
    exact congrArg Except.ok (Except.ok.inj
      ((Produce.produceInner_sliced admitted).symm.trans (Produce.produceInner_sliced good)))

/-- What a lookup makes of a well-formed request. -/
theorem Calm.resolved (calm : Calm D before b) (known : Registered b D.topic) {r : Request}
    {records : List IncomingRecord} (good : produceInner D.cfg r.metas r.payload = .ok records)
    (fits : ∀ h ∈ b.partitions (D.topic, r.partition), (produceInner h.cfg r.metas r.payload).toOption.isSome) :
    Stands D b r.partition records (resolve D b r) := by
  unfold resolve
  split
  · exact known
  next handle found =>
    obtain ⟨a, actor, key, _⟩ := calm.agreeing.custody.handles _ handle found
    rw [produceInner_fits good (fits handle found)]
    exact ⟨known, rfl, a, actor, key⟩

theorem Invariant.broker (inv : Invariant D before s) {action : Broker.Action Name}
    (undisturbed : Undisturbed D action) {after : Broker.State Name}
    (taken : Broker.step env action s.broker = some after) : Invariant D before { s with broker := after } := by
  have effect := effect_of_step taken
  refine ⟨inv.calm.step undisturbed effect, fun r member => ?_⟩
  obtain ⟨below, records, good, stands⟩ := inv.requests r member
  exact ⟨below, records, good, stands_step stands inv.calm undisturbed effect⟩

/-- One request goes on, the others stay. -/
theorem Invariant.setPhase (inv : Invariant D before s) {id : Nat} {r : Request} {phase : Phase}
    (found : s.requests[id]? = some r)
    (stands : ∀ records, produceInner D.cfg r.metas r.payload = .ok records →
      Stands D s.broker r.partition records phase) : Invariant D before (s.setPhase id phase) := by
  refine ⟨inv.calm, fun r' member => ?_⟩
  obtain ⟨i, at'⟩ := List.getElem?_of_mem member
  rcases Slots.modify_cases at' with ⟨rfl, old, here, rfl⟩ | ⟨_, here⟩
  · obtain rfl := Option.some.inj (found.symm.trans here)
    obtain ⟨below, records, good, _⟩ := inv.requests r (List.mem_of_getElem? found)
    exact ⟨below, records, good, stands records good⟩
  · exact inv.requests r' (List.mem_of_getElem? here)

theorem Invariant.request (inv : Invariant D before s) {id : Nat} {now : Nat → Int64}
    (admits : Admits D s (.request id now)) (taken : step env D (.request id now) s = some next) : Invariant D before next := by
  obtain ⟨r, found, taken⟩ := Option.bind_eq_some_iff.mp taken
  obtain ⟨below, records, good, stands⟩ := inv.requests r (List.mem_of_getElem? found)
  cases requestStep_turn env D taken with
  | resolved phase finished =>
    rw [phase] at stands
    obtain ⟨other, at', serves⟩ := stands
    obtain rfl := Option.some.inj ((ensured_iff.mp finished).symm.trans at')
    exact inv.setPhase found fun records good => inv.calm.resolved serves good (admits r found)
  | @sent actor sent a b phase there stepped =>
    rw [phase] at stands
    obtain ⟨known, rfl, a', found', key⟩ := stands
    obtain rfl := Option.some.inj (there.symm.trans found')
    have undisturbed : Undisturbed D (.actor actor (.produce sent now)) := trivial
    have later := inv.broker undisturbed stepped
    refine later.setPhase found fun records' good' => ?_
    obtain rfl := Except.ok.inj (good.symm.trans good')
    obtain ⟨a', now', key', longer⟩ := produce_taken there stepped
    refine ⟨inv.calm.stays (effect_of_step stepped) known, a', _, now', key'.trans key, ?_, now,
      a.live.writer.nextOffset, rfl⟩
    rw [longer]
    simp
  | @answered actor place a p phase there acked =>
    rw [phase] at stands
    obtain ⟨known, a', stored, found', key, placed, carries⟩ := stands
    obtain rfl := Option.some.inj (there.symm.trans found')
    refine inv.setPhase found fun records' good' => ?_
    obtain rfl := Except.ok.inj (good.symm.trans good')
    have own : (ledger a.live.writer)[place]? = some p.stored := by
      exact prefix_get (List.prefix_append _ _) (Slots.map_found acked)
    obtain rfl := Option.some.inj (own.symm.trans placed)
    exact ⟨known, a, p.stored, there, key, acked, carries⟩

theorem Invariant.step (inv : Invariant D before s) (admits : Admits D s action)
    (taken : step env D action s = some next) : Invariant D before next := by
  cases action with
  | broker action =>
    obtain ⟨after, stepped, rfl⟩ := Option.map_eq_some_iff.mp taken
    exact inv.broker admits stepped
  | submit partition metas payload =>
    obtain ⟨after, stepped, rfl⟩ := Option.map_eq_some_iff.mp taken
    have undisturbed : Undisturbed D (.submit (.create D.topic D.partitionCount D.cfg)) := fun _ => rfl
    have later := inv.broker undisturbed stepped
    refine ⟨later.calm, fun r member => ?_⟩
    rcases List.mem_append.mp member with old | new
    · exact later.requests r old
    · rw [List.mem_singleton.mp new]
      obtain ⟨below, accepted⟩ := admits
      cases good : produceInner D.cfg metas payload with
      | error e => simp [good, Except.toOption] at accepted
      | ok records =>
        refine ⟨below, records, rfl, .register D.topic D.partitionCount D.cfg, ?_, rfl⟩
        cases effect_of_step stepped with
        | submit => simp [Rpc.task]
        | abort _ cut => cases cut
  | request id now => exact inv.request admits taken

structure AtRest (env : Externals) (D : Defaults Name) (s : State Name) : Prop where
  tasks : ∀ task ∈ s.broker.tasks, task.resting = true
  inboxes : ∀ r ∈ s.requests, ∀ actor records, r.phase ≠ .sending actor records
  commits : ∀ a ∈ s.broker.actors, a.live.writer.pendingAcks = []
  requests : ∀ id now, step env D (.request id now) s = none

def Committed (D : Defaults Name) (s : State Name) (r : Request) : Prop :=
  ∃ actor place response a stored records, r.phase = .answered actor place response ∧
    s.broker.actors[actor]? = some a ∧ a.key = (D.topic, r.partition) ∧
    a.live.writer.produced[place]? = some ⟨stored, response⟩ ∧
    produceInner D.cfg r.metas r.payload = .ok records ∧ Carries stored records

/-- The topic is created once, however many requests ensure it, and each of them finds its
partition and is committed. -/
structure Served (env : Externals) (D : Defaults Name) (before : Nat) (s : State Name) : Prop where
  most : s.broker.incarnations.count D.topic ≤ before + 1
  once : ∀ r ∈ s.requests, (∀ id, r.phase ≠ .ensuring id) →
    s.broker.incarnations.count D.topic = before + 1
  found : ∀ r ∈ s.requests, r.phase ≠ .unknownTopic
  answered : ∀ r ∈ s.requests, ∀ actor place response, r.phase = .answered actor place response →
    Committed D s r
  settled : AtRest env D s → ∀ r ∈ s.requests, Committed D s r

/-- The answers of `ErrUnknownTopic` are all that can go wrong. -/
theorem Invariant.served_iff (inv : Invariant D before s) :
    Served env D before s ↔ ∀ r ∈ s.requests, r.phase ≠ .unknownTopic := by
  refine ⟨Served.found, fun found => ?_⟩
  have answered : ∀ r ∈ s.requests, ∀ actor place response, r.phase = .answered actor place response →
      Committed D s r := by
    intro r member actor place response phase
    obtain ⟨_, records, good, stands⟩ := inv.requests r member
    rw [phase] at stands
    obtain ⟨_, a, stored, at', key, acked, carries⟩ := stands
    exact ⟨actor, place, response, a, stored, records, phase, at', key, acked, good, carries⟩
  refine ⟨?_, fun r member past => inv.calm.created ?_, found, answered, fun rest r member => ?_⟩
  · by_cases known : Registered s.broker D.topic
    · rw [inv.calm.created known]
    · rw [inv.calm.absent known]
      omega
  · obtain ⟨_, records, good, stands⟩ := inv.requests r member
    cases phase : r.phase with
    | ensuring id => exact absurd phase (past id)
    | unknownTopic => exact absurd phase (found r member)
    | refused => rw [phase] at stands; exact absurd stands fun never => never
    | sending | waiting | answered =>
      rw [phase] at stands
      exact stands.1
  · obtain ⟨i, at'⟩ := List.getElem?_of_mem member
    obtain ⟨_, records, good, stands⟩ := inv.requests r member
    have stuck := rest.requests i fun _ => 0
    simp only [AutoCreate.step, at', Option.bind_some, requestStep] at stuck
    cases phase : r.phase with
    | ensuring id =>
      rw [phase] at stands
      obtain ⟨task, there, serves⟩ := stands
      have resting := rest.tasks task (List.mem_of_getElem? there)
      cases task with
      | finished =>
        simp only [phase, ensured_iff.mpr there, if_true] at stuck
        cases stuck
      | sweeping => exact absurd serves fun never => never
      | register | spawning | unregister | deleting => cases resting
    | sending actor sent => exact absurd phase (rest.inboxes r member actor sent)
    | waiting actor place =>
      rw [phase] at stands
      obtain ⟨_, a, stored, there, key, placed, carries⟩ := stands
      have none := rest.commits a (List.mem_of_getElem? there)
      rw [ledger, none, List.append_nil, List.getElem?_map] at placed
      obtain ⟨p, acked, _⟩ := Option.map_eq_some_iff.mp placed
      simp [phase, there, acked] at stuck
    | answered actor place response => exact answered r member actor place response phase
    | refused => rw [phase] at stands; exact absurd stands fun never => never
    | unknownTopic => exact absurd phase (found r member)

omit [DecidableEq Name] in
theorem setPhase_found {id : Nat} {r : Request} (here : s.requests[id]? = some r) (phase : Phase)
    (found : ∀ r ∈ s.requests, r.phase ≠ .unknownTopic) :
    (∀ r ∈ (s.setPhase id phase).requests, r.phase ≠ .unknownTopic) ↔ phase ≠ .unknownTopic := by
  constructor
  · intro all
    refine all { r with phase := phase } (List.mem_of_getElem? (i := id) ?_)
    simp [State.setPhase, here]
  · intro good r' member
    obtain ⟨i, at'⟩ := List.getElem?_of_mem member
    rcases Slots.modify_cases at' with ⟨rfl, old, _, rfl⟩ | ⟨_, same⟩
    · exact good
    · exact found r' (List.mem_of_getElem? same)

/-- A step answers no request `ErrUnknownTopic` exactly when it is patient. -/
theorem Invariant.found_iff (inv : Invariant D before s) (admits : Admits D s action)
    (found : ∀ r ∈ s.requests, r.phase ≠ .unknownTopic) (taken : AutoCreate.step env D action s = some next) :
    (∀ r ∈ next.requests, r.phase ≠ .unknownTopic) ↔ Patient D s action := by
  cases action with
  | broker action =>
    obtain ⟨after, _, rfl⟩ := Option.map_eq_some_iff.mp taken
    exact ⟨fun _ key looks => by simp [looksUp] at looks, fun _ => found⟩
  | submit partition metas payload =>
    obtain ⟨after, _, rfl⟩ := Option.map_eq_some_iff.mp taken
    refine ⟨fun _ key looks => by simp [looksUp] at looks, fun _ r member => ?_⟩
    rcases List.mem_append.mp member with old | new
    · exact found r old
    · rw [List.mem_singleton.mp new]
      simp
  | request id now =>
    obtain ⟨r, here, taken⟩ := Option.bind_eq_some_iff.mp taken
    obtain ⟨below, records, good, stands⟩ := inv.requests r (List.mem_of_getElem? here)
    -- Past the lookup a request cannot fail for want of a handle any more.
    have past (looks : looksUp D s (.request id now) = none) {phase : Phase} {b : Broker.State Name}
        (same : next = { s.setPhase id phase with broker := b }) (fine : phase ≠ .unknownTopic) :
        (∀ r ∈ next.requests, r.phase ≠ .unknownTopic) ↔ Patient D s (.request id now) := by
      subst same
      refine ⟨fun _ key looked => ?_, fun _ => (setPhase_found here phase found).mpr fine⟩
      rw [looks] at looked
      cases looked
    cases requestStep_turn env D taken with
    | resolved phase finished =>
      rw [phase] at stands
      obtain ⟨other, at', serves⟩ := stands
      obtain rfl := Option.some.inj ((ensured_iff.mp finished).symm.trans at')
      have looks : looksUp D s (.request id now) = some (D.topic, r.partition) := by
        simp [looksUp, here, phase, finished]
      rw [setPhase_found here _ found, Patient, looks]
      simp only [Option.mem_some_iff, forall_eq']
      rw [← inv.calm.handle_iff serves below, resolve]
      cases mapped : s.broker.partitions (D.topic, r.partition) with
      | none => simp
      | some handle => simp [produceInner_fits good (admits r here handle mapped)]
    | sent phase => exact past (by simp [looksUp, here, phase]) rfl (by simp)
    | answered phase => exact past (by simp [looksUp, here, phase]) rfl (by simp)

/-- In every run of Produce requests to a topic the broker does not have, it is created once and
all of them are committed if and only if none looks its partition up while the spawn of that
partition is still under way. -/
theorem served_iff_patient (env : Externals) (D : Defaults Name) {start : Broker.State Name}
    (reached : (Broker.machine env Name).Reaches Unbroken start) (up : start.status = .up)
    (absent : ¬Registered start D.topic) (quiet : ∀ task ∈ start.tasks, Quiet D task)
    (schedule : List (Action Name))
    (admitted : (machine env D start).Along (Admits D) schedule ⟨start, []⟩) :
    (machine env D start).Throughout (Served env D (start.incarnations.count D.topic)) schedule ⟨start, []⟩ ↔
      (machine env D start).Along (Patient D) schedule ⟨start, []⟩ := by
  have agreeing : Agreeing start := by
    refine reached.invariant agreeing_fresh fun s action next inv meets taken => ?_
    exact inv.step meets (effect_of_step taken)
  have begun : Invariant D (start.incarnations.count D.topic) (⟨start, []⟩ : State Name) :=
    ⟨⟨agreeing, up, quiet, fun e member named => absurd ⟨e, member, named⟩ absent, fun _ => rfl,
      fun known => absurd known absent⟩, by simp⟩
  refine Machine.throughout_iff_along (fun s action next inv admits taken => inv.step admits taken)
    (fun s action disabled => ?_) (fun s action next inv admits served taken => ?_) begun
    (begun.served_iff.mpr (by simp)) admitted
  · intro key looks
    cases action with
    | request id now =>
      simp only [looksUp] at looks
      obtain ⟨r, here, looks⟩ := Option.bind_eq_some_iff.mp looks
      split at looks
      next task phase =>
        split at looks
        next finished => simp [machine, AutoCreate.step, here, requestStep, phase, finished] at disabled
        next => cases looks
      next => cases looks
    | _ => simp [looksUp] at looks
  · rw [(inv.step admits taken).served_iff]
    exact inv.found_iff admits served.found taken

end Runs

section Samples

open Kafkrs.Partition (externals settings)

variable {Name : Type} [DecidableEq Name] (D : Defaults Name)

instance : DecidablePred (Undisturbed D)
  | .submit (.create name partitionCount _) =>
    inferInstanceAs (Decidable (name = D.topic → partitionCount = D.partitionCount))
  | .submit (.delete _ _) | .abort _ | .fail _ | .crash _ => .isFalse id
  | .task _ | .timeout _ | .actor _ _ | .boot => .isTrue trivial

instance (s : State Name) : DecidablePred (Admits D s)
  | .broker action => inferInstanceAs (Decidable (Undisturbed D action))
  | .submit _ _ _ => inferInstanceAs (Decidable (_ ∧ _))
  | .request _ _ => inferInstanceAs (Decidable (∀ r ∈ _, ∀ h ∈ _, _))

instance (s : State Name) (action : Action Name) : Decidable (Patient D s action) :=
  inferInstanceAs (Decidable (∀ key ∈ looksUp D s action, _))

def defaults : Defaults String := ⟨"a", 1, settings⟩

def bootRun : List (Broker.Action String) := [.boot, .task 0]

def request : Action String := .submit 0 [⟨1, 4, 7, 1000⟩] [107, 1, 1, 1, 1]

/-- Both requests look their partition up after the first has spawned it. -/
def patientRun : List (Action String) :=
  [request, request] ++ List.replicate 8 (.broker (.task 1)) ++
    [.broker (.task 2), .request 0 (fun _ => 0), .request 1 (fun _ => 0), .request 0 (fun _ => 0),
      .broker (.actor 0 .writer), .request 1 (fun _ => 0), .broker (.actor 0 .writer),
      .request 0 (fun _ => 0), .request 1 (fun _ => 0)]

theorem served_iff_patient_patientRun : ∃ start s,
    (Broker.machine externals String).execute bootRun fresh = some start ∧
    (machine externals defaults start).execute patientRun ⟨start, []⟩ = some s ∧
    s.requests.length = 2 ∧ s.broker.incarnations = ["a"] ∧ ∀ r ∈ s.requests, Committed defaults s r := by
  have boots : ((Broker.machine externals String).execute bootRun fresh).any (fun start =>
      decide (start.status = .up ∧ start.incarnations = [] ∧ start.registry.length = 0 ∧
        start.tasks.all (fun task => task.resting)) &&
      decide ((machine externals defaults start).Along (Admits defaults) patientRun ⟨start, []⟩) &&
      decide ((machine externals defaults start).Along (Patient defaults) patientRun ⟨start, []⟩) &&
      ((machine externals defaults start).execute patientRun ⟨start, []⟩).any (fun s =>
        decide (s.requests.length = 2 ∧ s.broker.incarnations = ["a"] ∧ s.requests.all (fun r =>
          match r.phase with
          | .answered _ _ _ => true
          | _ => false)))) = true := by
    decide +kernel
  have along : (Broker.machine externals String).Along Unbroken bootRun fresh := by decide +kernel
  obtain ⟨start, booted, facts⟩ := Option.any_eq_true _ _ |>.mp boots
  simp only [Bool.and_eq_true, decide_eq_true_eq] at facts
  obtain ⟨⟨⟨⟨up, none, empty, rest⟩, admitted⟩, patient⟩, runs⟩ := facts
  obtain ⟨s, ran, facts⟩ := Option.any_eq_true _ _ |>.mp runs
  obtain ⟨two, names, answered⟩ := of_decide_eq_true facts
  have quiet : ∀ task ∈ start.tasks, Quiet defaults task := by
    intro task member
    have resting := List.all_eq_true.mp rest task member
    cases task with
    | sweeping | finished => trivial
    | _ => cases resting
  have absent : ¬Registered start defaults.topic := by
    rintro ⟨e, member, _⟩
    rw [List.length_eq_zero_iff.mp empty] at member
    cases member
  have served := (served_iff_patient externals defaults ⟨bootRun, along, booted⟩ up absent quiet patientRun
    admitted).mpr patient
  refine ⟨start, s, booted, ran, two, names, fun r member => ?_⟩
  have past := List.all_eq_true.mp answered r member
  cases phase : r.phase with
  | answered actor place response => exact (served.final ran).answered r member actor place response phase
  | _ => simp [phase] at past

/-- The second request is told that the topic exists, and looks its partition up while the first
is still spawning it. -/
def racingRun : List (Action String) :=
  [request, request, .broker (.task 1), .broker (.task 2), .request 1 (fun _ => 0)]

theorem racingRun_unserved : ∃ start s,
    (Broker.machine externals String).execute bootRun fresh = some start ∧
    (machine externals defaults start).Along (Admits defaults) racingRun ⟨start, []⟩ ∧
    (machine externals defaults start).execute racingRun ⟨start, []⟩ = some s ∧
    (∃ r ∈ s.requests, r.phase = .unknownTopic) ∧
    ¬(machine externals defaults start).Throughout (Served externals defaults 0) racingRun ⟨start, []⟩ := by
  have boots : ((Broker.machine externals String).execute bootRun fresh).any (fun start =>
      decide ((machine externals defaults start).Along (Admits defaults) racingRun ⟨start, []⟩) &&
      ((machine externals defaults start).execute racingRun ⟨start, []⟩).any (fun s =>
        s.requests.any (fun r =>
          match r.phase with
          | .unknownTopic => true
          | _ => false))) = true := by
    decide +kernel
  obtain ⟨start, booted, facts⟩ := Option.any_eq_true _ _ |>.mp boots
  simp only [Bool.and_eq_true, decide_eq_true_eq] at facts
  obtain ⟨admitted, runs⟩ := facts
  obtain ⟨s, ran, facts⟩ := Option.any_eq_true _ _ |>.mp runs
  obtain ⟨r, member, failed⟩ := List.any_eq_true.mp facts
  have phase : r.phase = .unknownTopic := by
    cases phase : r.phase with
    | unknownTopic => rfl
    | _ => simp [phase] at failed
  exact ⟨start, s, booted, admitted, ran, ⟨r, member, phase⟩,
    fun served => (served.final ran).found r member phase⟩

end Samples

end Kafkrs.AutoCreate
