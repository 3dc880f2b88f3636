import Kafkrs.Staffing

/-! What is in whose hands: the actor of a spawn in progress, the handles a delete has taken
out, and those in the partition map. A delete holds nothing of a registered incarnation. -/
namespace Kafkrs.Broker

open Lib

section Hands

variable {Name : Type}

/-- A UUID that was given out and is no longer registered. -/
def Retired (s : State Name) (uuid : Nat) : Prop :=
  uuid < s.incarnations.length ∧ ∀ e ∈ s.registry, e.uuid ≠ uuid

def Actor.dismissed (a : Actor Name) : Prop :=
  .control .shutdown ∈ a.live.uploader.rx ∨ a.live.uploader.phase = .stopped

/-- Asked to stop, stopping or stopped. -/
def Actor.leaving (a : Actor Name) : Prop :=
  a.stopRequested = true ∨ a.live.writer.stopping = true ∨ a.stopped ∨ a.dismissed

/-- What a task has in hand: a spawn its own actor, a delete only retired ones. -/
def Task.Holds (s : State Name) : Task Name → Prop
  | .deleting d phase => Retired s d.uuid ∧ s.incarnations[d.uuid]? = some d.name ∧
    ∀ x ∈ phase.handles, ∃ a, s.actors[x.2.actor]? = some a ∧ Retired s a.uuid
  | .spawning (job :: _) (.opening _ i) =>
    ∃ a, s.actors[i]? = some a ∧ a.key = job.key ∧ a.uuid = job.uuid
  | .spawning (job :: _) (.insert _ i) =>
    ∃ a, s.actors[i]? = some a ∧ a.key = job.key ∧ a.uuid = job.uuid ∧ a.opened
  | _ => True

def Task.unmapping : Task Name → Option Name
  | .deleting d .removeHandles => some d.name
  | _ => none

/-- The topic has left the registry, but not yet the partition map. -/
def Unmapping (s : State Name) (name : Name) : Prop := ∃ task ∈ s.tasks, task.unmapping = some name

instance [DecidableEq Name] (s : State Name) (name : Name) : Decidable (Unmapping s name) :=
  inferInstanceAs (Decidable (∃ task ∈ s.tasks, _))

structure Custody (s : State Name) : Prop where
  tasks : ∀ task ∈ s.tasks, task.Holds s
  leaving : ∀ a ∈ s.actors, a.leaving → Retired s a.uuid
  handles : ∀ k h, s.partitions k = some h →
    ∃ a, s.actors[h.actor]? = some a ∧ a.key = k ∧ a.uuid = h.uuid ∧ a.opened
  unlisted : ∀ name, Unmapping s name → ¬Registered s name

theorem custody_fresh : Custody (fresh : State Name) where
  tasks := by simp [fresh]
  leaving := by simp [fresh]
  handles := by simp [fresh]
  unlisted := by simp [Unmapping, fresh]

theorem Owned.retired {s : State Name} (owned : Owned s) {a : Actor Name} (present : a ∈ s.actors)
    (unknown : ¬Registered s a.key.1) : Retired s a.uuid := by
  have made := owned.actors a present
  refine ⟨(List.getElem?_eq_some_iff.mp made).1, fun e member same => unknown ⟨e, member, ?_⟩⟩
  have name := owned.entries e member
  rw [same] at name
  exact Option.some.inj (name.symm.trans made)

theorem mem_handlesOf {s : State Name} {d : Deletion Name} {x : Nat × PartitionHandle} :
    x ∈ handlesOf s d ↔ x.1 < d.partitionCount ∧ s.partitions (d.name, x.1) = some x.2 := by
  obtain ⟨p, h⟩ := x
  simp only [handlesOf, List.mem_filterMap, List.mem_range, Option.map_eq_some_iff, Prod.mk.injEq]
  constructor
  · rintro ⟨q, below, _, found, rfl, rfl⟩
    exact ⟨below, found⟩
  · rintro ⟨below, found⟩
    exact ⟨p, below, h, found, rfl, rfl⟩

end Hands

section Steps

variable {Name : Type} [DecidableEq Name] {env : Partition.Externals} {s next : State Name}
  {action : Action Name} {name : Name} {uuid : Nat}

theorem Retired.step (retired : Retired s uuid) (effect : Effect env s action next) :
    Retired next uuid := by
  refine ⟨Nat.lt_of_lt_of_le retired.1 effect.incarnations, fun e member => ?_⟩
  cases effect.growth with
  | thin _ registry _ => exact retired.2 e (registry.subset member)
  | create _ entry _ _ fresh same =>
    subst same
    rcases List.mem_append.mp member with old | last
    · exact retired.2 e old
    · rw [List.mem_singleton.mp last, fresh]
      exact Nat.ne_of_gt retired.1
  | boot _ same =>
    subst same
    exact retired.2 e member

/-- A UUID is made for one name. -/
theorem Effect.made (effect : Effect env s action next) (made : s.incarnations[uuid]? = some name) :
    next.incarnations[uuid]? = some name := by
  cases effect.growth with
  | thin _ _ same =>
    rw [same]
    exact made
  | create _ _ _ _ _ same =>
    rw [same]
    exact (List.getElem?_append_left (List.getElem?_eq_some_iff.mp made).1).trans made
  | boot _ same =>
    rw [same]
    exact made

/-- What a task has in hand stays as it is while others move. -/
theorem Task.Holds.step {task : Task Name} (holds : task.Holds s)
    (effect : Effect env s action next) (on : next.tasks ≠ []) : task.Holds next := by
  have stays := effect.stays.resolve_right fun ended => on ended.1
  match task with
  | .deleting d phase =>
    obtain ⟨retired, made, handles⟩ := holds
    refine ⟨retired.step effect, effect.made made, fun x member => ?_⟩
    obtain ⟨a, found, gone⟩ := handles x member
    obtain ⟨a', found', _, uuid, _⟩ := stays _ a found
    exact ⟨a', found', uuid ▸ gone.step effect⟩
  | .spawning (job :: rest) (.opening lock i) =>
    obtain ⟨a, found, key, uuid⟩ := holds
    obtain ⟨a', found', key', uuid', _⟩ := stays i a found
    exact ⟨a', found', key'.trans key, uuid'.trans uuid⟩
  | .spawning (job :: rest) (.insert lock i) =>
    obtain ⟨a, found, key, uuid, opened⟩ := holds
    obtain ⟨a', found', key', uuid', still⟩ := stays i a found
    exact ⟨a', found', key'.trans key, uuid'.trans uuid, still opened⟩
  | .spawning [] phase | .spawning (job :: rest) .lookup | .spawning (job :: rest) (.acquire lock)
  | .spawning (job :: rest) (.check lock) | .spawning (job :: rest) (.recover lock)
  | .register _ _ _ | .unregister _ _ | .sweeping _ _ | .finished => trivial

theorem Shift.holds {task later : Task Name} (shift : Shift s task later)
    (holds : task.Holds next) : later.Holds next := by
  cases shift with
  | teardown _ _ fewer => exact ⟨holds.1, holds.2.1, fun x member => holds.2.2 x (fewer member)⟩
  | erase => exact ⟨holds.1, holds.2.1, fun _ inside => by cases inside⟩
  | @prepare job rest phase later _ early =>
    cases later with
    | opening | insert => cases early
    | lookup | acquire | check | recover => trivial
  | @present job rest => cases rest <;> trivial
  | refused | unknown | spawned | detached | swept => trivial

/-- A task that goes on has in hand what it should. -/
theorem Moves.holds {task later : Task Name} (moves : Moves s action next task later)
    (inv : Custody s) (owned : Owned s) (effect : Effect env s action next)
    (member : task ∈ s.tasks) (holds : task.Holds next) : later.Holds next := by
  cases moves with
  | shift shift => exact shift.holds holds
  | abort => trivial
  | @register _ _ _ entry => cases h : jobsOf entry <;> trivial
  | @unregister name _ entry _ known registry incarnations =>
    obtain ⟨listed, named⟩ := lookup_some known
    have made := owned.entries entry listed
    rw [named] at made
    refine ⟨⟨?_, fun e kept same => ?_⟩, incarnations ▸ made, fun _ x => by cases x⟩
    · rw [incarnations]
      exact (List.getElem?_eq_some_iff.mp made).1
    · -- an entry with its UUID would have its name, and that one is gone
      rw [registry] at kept
      obtain ⟨old, other⟩ := List.mem_filter.mp kept
      have name := owned.entries e old
      rw [same, made] at name
      simp [Option.some.inj name] at other
  | recover key uuid actors => exact ⟨_, by simp [actors], key, uuid⟩
  | openWriter opened =>
    obtain ⟨a, found, key, uuid⟩ := holds
    exact ⟨a, found, key, uuid, opened a found⟩
  | @insert job rest => cases rest <;> trivial
  | @removeHandles d actors registry =>
    obtain ⟨retired, made, _⟩ := holds
    refine ⟨retired, made, fun x inside => ?_⟩
    have inside : x ∈ handlesOf s d := by simpa [Teardown.handles] using inside
    obtain ⟨a, found, key, _⟩ := inv.handles _ _ (mem_handlesOf.mp inside).2
    refine ⟨a, by rw [actors]; exact found, ?_⟩
    refine Retired.step (owned.retired (List.mem_of_getElem? found) ?_) effect
    -- the delete at hand has taken this name out of the registry
    rw [key]
    exact inv.unlisted d.name ⟨_, member, rfl⟩
  | @removeWal d removed => exact ⟨holds.1, holds.2.1, fun _ inside => by cases inside⟩
  | sweep => trivial

theorem Custody.tasks_step (inv : Custody s) (owned : Owned s)
    (effect : Effect env s action next) : ∀ task ∈ next.tasks, task.Holds next := by
  intro task member
  have on := List.ne_nil_of_mem member
  have old (t : Task Name) (there : t ∈ s.tasks) : t.Holds next :=
    (inv.tasks t there).step effect on
  rcases effect.origin member with before | ⟨t, there, moves⟩ | begins
  · exact old task before
  · exact moves.holds inv owned effect there (old t there)
  · cases begins with
    | rpc rpc => cases rpc <;> trivial
    | boot => cases h : s.registry.flatMap jobsOf <;> trivial
    | returned | sweep | resume => trivial

/-- An actor leaves after a `Shutdown` to its writer or its uploader. -/
theorem Acts.leaving {id : Nat} {move : Partition.Action} (acts : Acts env s id move next)
    {a' : Actor Name} (present : a' ∈ next.actors) (leaves : a'.leaving) :
    ∃ a ∈ s.actors, a.uuid = a'.uuid ∧ (a.leaving ∨
      (s.actors[id]? = some a ∧ (move = .shutdownWriter ∨ move = .enqueue .shutdown))) := by
  cases acts with
  | @intro a p live found taken alive =>
    rcases List.mem_or_eq_of_mem_set present with old | rfl
    · exact ⟨a', old, rfl, .inl leaves⟩
    · refine ⟨a, List.mem_of_getElem? found, rfl, ?_⟩
      have writer := liveStep_move taken alive
      have uploader := liveStep_uploader taken alive
      rcases leaves with requested | stopping | stopped | asked | stopped
      · exact .inl (.inl requested)
      · rcases writer.stopping with same | shutdown
        · exact .inl (.inr (.inl (same ▸ stopping)))
        · exact .inr ⟨found, .inl shutdown⟩
      · rcases writer.stops stopped with stopped | stopping
        · exact .inl (.inr (.inr (.inl stopped)))
        · exact .inl (.inr (.inl stopping))
      · rcases uploader.asked asked with asked | shutdown
        · exact .inl (.inr (.inr (.inr (.inl asked))))
        · exact .inr ⟨found, .inr shutdown⟩
      · rcases uploader.stops stopped with stopped | asked
        · exact .inl (.inr (.inr (.inr (.inr stopped))))
        · exact .inl (.inr (.inr (.inr (.inl asked))))

theorem Custody.leaving_step (inv : Custody s) (effect : Effect env s action next) :
    ∀ a ∈ next.actors, a.leaving → Retired next a.uuid := by
  intro a present leaves
  have acted {id : Nat} {move : Partition.Action} {after : State Name}
      (acts : Acts env s id move after) (present : a ∈ after.actors)
      (asked : ∀ a, s.actors[id]? = some a → move = .shutdownWriter ∨ move = .enqueue .shutdown →
        Retired s a.uuid) : Retired next a.uuid := by
    obtain ⟨a₀, before, uuid, leaving | ⟨found, shutdown⟩⟩ := acts.leaving present leaves
    · exact uuid ▸ (inv.leaving a₀ before leaving).step effect
    · exact uuid ▸ (asked a₀ found shutdown).step effect
  have unmoved (same : a ∈ s.actors) : Retired next a.uuid :=
    (inv.leaving a same leaves).step effect
  cases effect with
  | recover found taken =>
    obtain rfl := Option.some.inj taken
    rcases List.mem_append.mp present with old | last
    · exact unmoved old
    · rw [List.mem_singleton.mp last] at leaves
      simp [Actor.leaving, Actor.dismissed, Actor.stopped, PartitionWriter.new,
        Uploader.new] at leaves
  | sendOrphan _ acts | openWriter _ acts =>
    exact acted acts present fun _ _ shutdown => by rcases shutdown with same | same <;> cases same
  | @actor id move a₀ _ found allowed acts =>
    refine acted acts present fun b there shutdown => ?_
    obtain rfl := Option.some.inj (found.symm.trans there)
    rcases shutdown with rfl | rfl
    · exact inv.leaving a₀ (List.mem_of_getElem? found) (.inl allowed)
    · cases allowed
  | @stopUploader id p d h rest _ found acts =>
    refine acted acts present fun b there _ => ?_
    have holds := inv.tasks _ (List.mem_of_getElem? found)
    obtain ⟨c, at', retired⟩ := holds.2.2 (p, h) (by simp [Teardown.handles])
    obtain rfl := Option.some.inj (at'.symm.trans there)
    exact retired
  | @stopWriter id p d h handles rest found =>
    obtain ⟨i, at'⟩ := List.getElem?_of_mem present
    rcases Slots.modify_cases at' with ⟨rfl, a₀, before, rfl⟩ | ⟨_, before⟩
    · have holds := inv.tasks _ (List.mem_of_getElem? found)
      obtain ⟨b, there, retired⟩ := holds.2.2 (p, h) (by simp [Teardown.handles])
      obtain rfl := Option.some.inj (before.symm.trans there)
      exact retired
    · exact unmoved (List.mem_of_getElem? before)
  | crash => cases present
  | submit | shift | timeout | abort | register | unregister | insert | removeHandles | removeWal
  | persist | sweep | boot => exact unmoved present

inductive Inserted (s next : State Name) (k : Key Name) (h : PartitionHandle) : Prop
  | intro {id lock : Nat} {job : Job Name} {rest : List (Job Name)}
      (found : s.tasks[id]? = some (.spawning (job :: rest) (.insert lock h.actor)))
      (key : job.key = k) (uuid : h.uuid = job.uuid) (actors : next.actors = s.actors)
      (registry : next.registry = s.registry)
      (tasks : next.tasks = s.tasks.set id (.spawning rest .lookup))

/-- A handle is inserted by the spawn that holds its actor, and never changed. -/
theorem Effect.partitions (effect : Effect env s action next) {k : Key Name} {h : PartitionHandle}
    (found : next.partitions k = some h) : s.partitions k = some h ∨ Inserted s next k h := by
  cases effect with
  | recover _ taken =>
    obtain rfl := Option.some.inj taken
    exact .inl found
  | sendOrphan _ acts | openWriter _ acts | stopUploader _ acts | actor _ _ acts =>
    cases acts
    exact .inl found
  | @insert id lock actor job rest held task =>
    by_cases here : k = job.key
    · subst here
      simp only [Function.update_self, Option.some.injEq] at found
      subst found
      exact .inr (.intro task rfl rfl rfl rfl rfl)
    · exact .inl (by simpa [Function.update_of_ne here] using found)
  | removeHandles =>
    dsimp only at found
    split at found
    · cases found
    · exact .inl found
  | crash => cases found
  | submit | shift | timeout | abort | register | unregister | stopWriter | removeWal | persist
  | sweep | boot => exact .inl found

theorem Custody.handles_step (inv : Custody s) (effect : Effect env s action next)
    (k : Key Name) (h : PartitionHandle) (found : next.partitions k = some h) :
    ∃ a, next.actors[h.actor]? = some a ∧ a.key = k ∧ a.uuid = h.uuid ∧ a.opened := by
  rcases effect.partitions found with old | inserted
  · have stays := effect.stays.resolve_right fun ended => by rw [ended.2 k] at found; cases found
    obtain ⟨a, before, key, uuid, opened⟩ := inv.handles k h old
    obtain ⟨a', after, key', uuid', still⟩ := stays _ a before
    exact ⟨a', after, key'.trans key, uuid'.trans uuid, still opened⟩
  · cases inserted with
    | intro task key uuid actors _ _ =>
      obtain ⟨a, before, key', uuid', opened⟩ := inv.tasks _ (List.mem_of_getElem? task)
      exact ⟨a, actors ▸ before, key'.trans key, uuid'.trans uuid.symm, opened⟩

theorem Custody.unlisted_step (inv : Custody s) (meets : ∀ name ∈ creates s action, ¬Unmapping s name)
    (effect : Effect env s action next) (name : Name) (unmapping : Unmapping next name) :
    ¬Registered next name := by
  obtain ⟨task, member, unmaps⟩ := unmapping
  rcases effect.origin member with old | ⟨before, _, moves⟩ | begins
  · intro known
    have still : Unmapping s name := ⟨task, old, unmaps⟩
    rcases known.before effect with known | created
    · exact inv.unlisted name still known
    · exact meets name created still
  · cases moves with
    | unregister _ _ registry =>
      obtain rfl := Option.some.inj unmaps
      rintro ⟨e, kept, named⟩
      rw [registry] at kept
      simpa [named] using (List.mem_filter.mp kept).2
    | shift shift =>
      cases shift with
      | @teardown d phase later _ middle _ =>
        cases later with
        | removeHandles => cases middle
        | stopWriters | stopUploaders | clearLocks | removeWal | persist => cases unmaps
      | refused | unknown | spawned | prepare | present | erase | detached | swept => cases unmaps
    | abort | register | recover | openWriter | insert | removeHandles | removeWal | sweep =>
      cases unmaps
  · cases begins with
    | rpc rpc => cases rpc <;> cases unmaps
    | returned | sweep | boot | resume => cases unmaps

theorem Custody.step (inv : Custody s) (owned : Owned s)
    (meets : ∀ name ∈ creates s action, ¬Unmapping s name)
    (effect : Effect env s action next) : Custody next where
  tasks := inv.tasks_step owned effect
  leaving := inv.leaving_step effect
  handles := inv.handles_step effect
  unlisted := inv.unlisted_step meets effect

end Steps
end Kafkrs.Broker
