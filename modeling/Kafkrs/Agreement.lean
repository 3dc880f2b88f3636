import Kafkrs.Custody
import Kafkrs.SoleWriter

/-! The partition map and the registry. They agree whenever no lifecycle RPC is running,
provided that none is accepted while another of the same topic is between the two, and that
no disconnect and no failure cuts one short there. -/
namespace Kafkrs.Broker

open Lib

section Map

variable {Name : Type}

def Actor.serving (a : Actor Name) : Prop := a.opened ∧ ¬a.leaving

/-- Registry and partition map say the same. -/
structure Agrees (s : State Name) : Prop where
  served : ∀ e ∈ s.registry, ∀ p < e.partitionCount, ∃ h a,
    s.partitions (e.name, p) = some h ∧ h.uuid = e.uuid ∧ s.actors[h.actor]? = some a ∧
      a.key = (e.name, p) ∧ a.uuid = e.uuid ∧ a.serving
  registered : ∀ k h, s.partitions k = some h → Registered s k.1

/-- No RPC; sweeps go on in the background. -/
def Task.resting : Task Name → Bool
  | .sweeping _ _ | .finished => true
  | _ => false

def Task.asking : Task Name → Bool
  | .register _ _ _ | .unregister _ _ => true
  | _ => false

/-- Creates and deletes are accepted only when no spawn of the topic is under way, creates
besides only when no delete has still to take its handles out, and no disconnect or failure cuts
short a spawn or a delete that has. -/
def Unbroken [DecidableEq Name] (s : State Name) (action : Action Name) : Prop :=
  (∀ name ∈ creates s action, Idle s name ∧ ¬Unmapping s name) ∧
  (∀ name ∈ unregisters s action, Idle s name) ∧
  (∀ task ∈ aborts s action, task.jobs = [] ∧ task.unmapping = none)

instance [DecidableEq Name] (s : State Name) (action : Action Name) :
    Decidable (Unbroken s action) :=
  inferInstanceAs (Decidable ((∀ name ∈ creates s action, _) ∧
    (∀ name ∈ unregisters s action, _) ∧ (∀ task ∈ aborts s action, _)))

/-- Nor does a disconnect cut short an RPC whose message the registry may still execute. -/
def Attended [DecidableEq Name] (s : State Name) (action : Action Name) : Prop :=
  Unbroken s action ∧ ∀ task ∈ aborts s action, task.asking = false

instance [DecidableEq Name] (s : State Name) (action : Action Name) :
    Decidable (Attended s action) :=
  inferInstanceAs (Decidable (Unbroken s action ∧ (∀ task ∈ aborts s action, _)))

def Placed (s : State Name) (k : Key Name) : Prop :=
  (∃ h, s.partitions k = some h) ∨ ∃ task ∈ s.tasks, ∃ job ∈ task.jobs, job.key = k

structure Agreeing (s : State Name) : Prop where
  spawns : Spawns s
  owned : Owned s
  custody : Custody s
  jobs : ∀ task ∈ s.tasks, ∀ job ∈ task.jobs, s.partitions job.key = none ∧
    ∃ e ∈ s.registry, e.name = job.key.1 ∧ e.uuid = job.uuid ∧ job.key.2 < e.partitionCount
  mapped : ∀ k h, s.partitions k = some h →
    (∃ e ∈ s.registry, e.name = k.1 ∧ e.uuid = h.uuid ∧ k.2 < e.partitionCount) ∨
      ∃ d, .deleting d .removeHandles ∈ s.tasks ∧ d.name = k.1 ∧ k.2 < d.partitionCount
  placed : s.status ≠ .down → ∀ e ∈ s.registry, ∀ p < e.partitionCount, Placed s (e.name, p)
  off : s.status = .down → ∀ k, s.partitions k = none

theorem agreeing_fresh : Agreeing (fresh : State Name) where
  spawns := exclusive_fresh.spawns
  owned := exclusive_fresh.owned
  custody := custody_fresh
  jobs := by simp [fresh]
  mapped := by simp [fresh]
  placed := by simp [fresh]
  off := fun _ _ => rfl

/-- At rest nothing is left to be put into the map or taken out of it. -/
theorem Agreeing.agrees {s : State Name} (inv : Agreeing s) (up : s.status = .up)
    (rest : ∀ task ∈ s.tasks, task.resting = true) : Agrees s := by
  constructor
  · intro e member p below
    have on : s.status ≠ .down := by simp [up]
    rcases inv.placed on e member p below with ⟨h, found⟩ | ⟨task, there, job, inside, _⟩
    · obtain ⟨a, actor, key, uuid, opened⟩ := inv.custody.handles _ h found
      have same : h.uuid = e.uuid := by
        rcases inv.mapped _ h found with ⟨e', listed, name, mine, _⟩ | ⟨d, deleting, name, _⟩
        · rw [← mine, inv.spawns.entry_unique listed member name]
        · cases rest _ deleting
      have serving : a.serving := by
        refine ⟨opened, fun leaves => ?_⟩
        exact (inv.custody.leaving a (List.mem_of_getElem? actor) leaves).2 e member
          (same.symm.trans uuid.symm)
      exact ⟨h, a, found, same, actor, key, uuid.trans same, serving⟩
    · have resting := rest task there
      cases task with
      | spawning => cases resting
      | register | unregister | deleting | sweeping | finished => cases inside
  · intro k h found
    rcases inv.mapped k h found with ⟨e, listed, name, _⟩ | ⟨d, deleting, _⟩
    · exact ⟨e, listed, name⟩
    · cases rest _ deleting

end Map

section Steps

variable {Name : Type} [DecidableEq Name] {env : Partition.Externals} {s next : State Name}
  {action : Action Name}

theorem Unbroken.unhurried (meets : Unbroken s action) : Unhurried s action :=
  fun name created => (meets.1 name created).1

/-- A topic that is neither registered nor being taken out has no handles. -/
theorem Agreeing.unmapped (inv : Agreeing s) {name : Name} (unknown : s.lookup name = none)
    (out : ¬Unmapping s name) (p : Nat) : s.partitions (name, p) = none := by
  cases found : s.partitions (name, p) with
  | none => rfl
  | some h =>
    rcases inv.mapped _ h found with ⟨e, listed, same, _⟩ | ⟨d, deleting, same, _⟩
    · exact absurd same (lookup_none.mp unknown e listed)
    · exact absurd ⟨_, deleting, congrArg some same⟩ out

theorem Agreeing.jobs_step (inv : Agreeing s) (meets : Unbroken s action)
    (effect : Effect env s action next) :
    ∀ task ∈ next.tasks, ∀ job ∈ task.jobs, next.partitions job.key = none ∧
      ∃ e ∈ next.registry, e.name = job.key.1 ∧ e.uuid = job.uuid ∧
        job.key.2 < e.partitionCount := by
  intro task member job inside
  cases effect.growth with
  | thin thins _ _ =>
    obtain ⟨before, old, jobs, _⟩ := thins.mem member inside
    obtain ⟨empty, e, listed, name, facts⟩ := inv.jobs before old job (jobs.subset inside)
    constructor
    · cases found : next.partitions job.key with
      | none => rfl
      | some h =>
        rcases effect.partitions found with there | inserted
        · rw [empty] at there
          cases there
        · -- the job just finished is in no list any more
          cases inserted with
          | intro task' key _ _ _ tasks =>
            rw [tasks] at member
            refine absurd key.symm (inv.spawns.alone task' member inside ?_)
            rintro rfl
            exact inside
    · rcases effect.entry inv.spawns listed with kept | ⟨unregistered, _⟩
      · exact ⟨e, kept, name, facts⟩
      · exact absurd name.symm
          (meets.2.1 _ unregistered before old job (jobs.subset inside))
  | create id entry created unknown _ same =>
    subst same
    rcases List.mem_or_eq_of_mem_set member with old | rfl
    · obtain ⟨empty, e, listed, facts⟩ := inv.jobs task old job inside
      exact ⟨empty, e, List.mem_append_left _ listed, facts⟩
    · obtain ⟨name, below, uuid, _⟩ := mem_jobsOf.mp inside
      have empty := inv.unmapped unknown (meets.1 _ created).2 job.key.2
      rw [← name] at empty
      exact ⟨empty, entry, List.mem_concat_self, name.symm, uuid.symm, below⟩
  | boot down same =>
    subst same
    refine ⟨inv.off down _, ?_⟩
    rcases List.mem_cons.mp member with rfl | sweep
    · obtain ⟨e, listed, own⟩ := List.mem_flatMap.mp inside
      obtain ⟨name, below, uuid, _⟩ := mem_jobsOf.mp own
      exact ⟨e, listed, name.symm, uuid.symm, below⟩
    · obtain ⟨d, _, rfl⟩ := List.mem_map.mp sweep
      cases inside

/-- A delete that has still to take its handles out is not cut short. -/
theorem Agreeing.unmaps_step (inv : Agreeing s) (meets : Unbroken s action)
    (effect : Effect env s action next) {d : Deletion Name}
    (deleting : .deleting d .removeHandles ∈ s.tasks) :
    .deleting d .removeHandles ∈ next.tasks ∨
      ∀ p < d.partitionCount, next.partitions (d.name, p) = none := by
  cases effect.turnover with
  | same tasks => exact .inl (tasks ▸ deleting)
  | @move id task later found moves tasks =>
    rw [tasks]
    obtain ⟨i, at'⟩ := List.getElem?_of_mem deleting
    by_cases this : i = id
    · subst this
      obtain rfl := Option.some.inj (at'.symm.trans found)
      cases moves with
      | removeHandles _ _ unmapped => exact .inr unmapped
      | abort cut => cases (meets.2.2 _ cut).2
      | shift shift =>
        cases shift with
        | teardown middle => cases middle
    · exact .inl (List.mem_of_getElem? ((Slots.set_other this).trans at'))
  | submit rpc tasks =>
    rw [tasks]
    exact .inl (List.mem_append_left _ deleting)
  | @persist id d' found tasks =>
    rw [tasks]
    obtain ⟨i, at'⟩ := List.getElem?_of_mem deleting
    have other : i ≠ id := by
      rintro rfl
      cases at'.symm.trans found
    refine .inl (List.mem_append_left _ ?_)
    exact List.mem_of_getElem? ((Slots.set_other other).trans at')
  | crash _ _ memory => exact .inr fun p _ => memory.2 _
  | boot down =>
    rw [(inv.spawns.down down).1] at deleting
    cases deleting

theorem Agreeing.mapped_step (inv : Agreeing s) (meets : Unbroken s action)
    (effect : Effect env s action next) (k : Key Name) (h : PartitionHandle)
    (found : next.partitions k = some h) :
    (∃ e ∈ next.registry, e.name = k.1 ∧ e.uuid = h.uuid ∧ k.2 < e.partitionCount) ∨
      ∃ d, .deleting d .removeHandles ∈ next.tasks ∧ d.name = k.1 ∧ k.2 < d.partitionCount := by
  rcases effect.partitions found with old | inserted
  · rcases inv.mapped k h old with ⟨e, listed, name, uuid, below⟩ | ⟨d, deleting, name, below⟩
    · rcases effect.entry inv.spawns listed with kept | ⟨_, _, deleting⟩
      · exact .inl ⟨e, kept, name, uuid, below⟩
      · exact .inr ⟨_, deleting, name, below⟩
    · rcases inv.unmaps_step meets effect deleting with still | none
      · exact .inr ⟨d, still, name, below⟩
      · have gone := none k.2 below
        rw [name, found] at gone
        cases gone
  · cases inserted with
    | intro task key uuid _ registry _ =>
      obtain ⟨_, e, listed, name, mine, below⟩ :=
        inv.jobs _ (List.mem_of_getElem? task) _ List.mem_cons_self
      subst key
      exact .inl ⟨e, registry ▸ listed, name, mine.trans uuid.symm, below⟩

/-- Only a delete of the topic takes a handle out, or the end of the process. -/
theorem Effect.handle (effect : Effect env s action next) {k : Key Name} {h : PartitionHandle}
    (found : s.partitions k = some h) :
    (∃ h', next.partitions k = some h') ∨ Unmapping s k.1 ∨ next.status = .down := by
  cases effect with
  | recover _ taken =>
    obtain rfl := Option.some.inj taken
    exact .inl ⟨h, found⟩
  | sendOrphan _ acts | openWriter _ acts | stopUploader _ acts | actor _ _ acts =>
    cases acts
    exact .inl ⟨h, found⟩
  | @insert id lock actor job =>
    by_cases here : k = job.key
    · subst here
      exact .inl ⟨_, Function.update_self _ _ _⟩
    · exact .inl ⟨h, (Function.update_of_ne here _ _).trans found⟩
  | @removeHandles id d task =>
    by_cases here : k.1 = d.name ∧ k.2 < d.partitionCount
    · exact .inr (.inl ⟨_, List.mem_of_getElem? task, congrArg some here.1.symm⟩)
    · exact .inl ⟨h, (if_neg here).trans found⟩
  | crash => exact .inr (.inr rfl)
  | submit | shift | timeout | abort | register | unregister | stopWriter | removeWal | persist
  | sweep | boot => exact .inl ⟨h, found⟩

/-- A job goes on until its handle is in the map. -/
theorem Moves.placed {task later : Task Name} (moves : Moves s action next task later)
    (inv : Agreeing s) (meets : Unbroken s action) (member : task ∈ s.tasks) {job : Job Name}
    (inside : job ∈ task.jobs) :
    job ∈ later.jobs ∨ ∃ h, next.partitions job.key = some h := by
  cases moves with
  | shift shift =>
    cases shift with
    | prepare => exact .inl inside
    | @present first rest lock handle found =>
      rcases List.mem_cons.mp inside with rfl | later
      · have empty := (inv.jobs _ member job inside).1
        rw [found] at empty
        cases empty
      · exact .inl later
    | refused | unknown | spawned | teardown | erase | detached | swept => cases inside
  | abort cut =>
    rw [(meets.2.2 task cut).1] at inside
    cases inside
  | recover | openWriter => exact .inl inside
  | insert mapped =>
    rcases List.mem_cons.mp inside with rfl | later
    · exact .inr ⟨_, mapped⟩
    · exact .inl later
  | register | unregister | removeHandles | removeWal | sweep => cases inside

theorem Placed.step {k : Key Name} (placed : Placed s k) (inv : Agreeing s)
    (meets : Unbroken s action) (effect : Effect env s action next) (on : next.status ≠ .down)
    (known : Registered next k.1) : Placed next k := by
  rcases placed with ⟨h, found⟩ | ⟨task, member, job, inside, rfl⟩
  · rcases effect.handle found with mapped | unmapping | stopped
    · exact .inl mapped
    · rcases known.before effect with known | created
      · exact absurd known (inv.custody.unlisted _ unmapping)
      · exact absurd unmapping (meets.1 _ created).2
    · exact absurd stopped on
  · obtain ⟨i, at'⟩ := List.getElem?_of_mem member
    cases effect.turnover with
    | same tasks => exact .inr ⟨task, tasks ▸ member, job, inside, rfl⟩
    | @move id before later found moves tasks =>
      by_cases this : i = id
      · subst this
        obtain rfl := Option.some.inj (at'.symm.trans found)
        rcases moves.placed inv meets member inside with still | mapped
        · refine .inr ⟨later, ?_, job, still, rfl⟩
          rw [tasks]
          exact List.mem_of_getElem? (Slots.set_self found)
        · exact .inl mapped
      · refine .inr ⟨task, ?_, job, inside, rfl⟩
        rw [tasks]
        exact List.mem_of_getElem? ((Slots.set_other this).trans at')
    | submit rpc tasks => exact .inr ⟨task, tasks ▸ List.mem_append_left _ member, job, inside, rfl⟩
    | @persist id d found tasks =>
      have other : i ≠ id := by
        rintro rfl
        obtain rfl := Option.some.inj (at'.symm.trans found)
        cases inside
      refine .inr ⟨task, ?_, job, inside, rfl⟩
      rw [tasks]
      exact List.mem_append_left _ (List.mem_of_getElem? ((Slots.set_other other).trans at'))
    | crash _ _ memory => exact absurd memory.1 on
    | boot down =>
      rw [(inv.spawns.down down).1] at member
      cases member

theorem Agreeing.placed_step (inv : Agreeing s) (meets : Unbroken s action)
    (effect : Effect env s action next) (on : next.status ≠ .down) :
    ∀ e ∈ next.registry, ∀ p < e.partitionCount, Placed next (e.name, p) := by
  intro e member p below
  have known : Registered next e.name := ⟨e, member, rfl⟩
  rcases effect.status inv.spawns.down with ⟨_, rfl⟩ | ⟨cut, rfl⟩ | ⟨running, _⟩
  · have own : ⟨(e.name, p), e.uuid, e.cfg⟩ ∈ jobsOf e := mem_jobsOf.mpr ⟨rfl, below, rfl, rfl⟩
    exact .inr ⟨_, List.mem_cons_self, _, List.mem_flatMap.mpr ⟨e, member, own⟩, rfl⟩
  · exact absurd rfl on
  · cases effect.growth with
    | thin _ registry _ =>
      exact (inv.placed running e (registry.subset member) p below).step inv meets effect on known
    | create id entry _ _ _ same begun =>
      rw [same] at member
      rcases List.mem_append.mp member with old | last
      · exact (inv.placed running e old p below).step inv meets effect on known
      · rw [List.mem_singleton.mp last] at below ⊢
        have own : ⟨(entry.name, p), entry.uuid, entry.cfg⟩ ∈ jobsOf entry :=
          mem_jobsOf.mpr ⟨rfl, below, rfl, rfl⟩
        exact .inr ⟨_, begun, _, own, rfl⟩
    | boot down => exact absurd down running

theorem Agreeing.off_step (inv : Agreeing s) (effect : Effect env s action next)
    (stopped : next.status = .down) (k : Key Name) : next.partitions k = none := by
  rcases effect.status inv.spawns.down with ⟨_, rfl⟩ | ⟨cut, rfl⟩ | ⟨_, running⟩
  · cases stopped
  · rfl
  · exact absurd stopped running

theorem Agreeing.step (inv : Agreeing s) (meets : Unbroken s action)
    (effect : Effect env s action next) : Agreeing next where
  spawns := inv.spawns.step meets.unhurried effect
  owned := inv.owned.step effect
  custody := inv.custody.step inv.owned (fun name created => (meets.1 name created).2) effect
  jobs := inv.jobs_step meets effect
  mapped := inv.mapped_step meets effect
  placed := inv.placed_step meets effect
  off := inv.off_step effect

/-- In every state of an attended run in which no lifecycle RPC is running, every registered
partition has a live handle with its topic's UUID, and only registered topics have handles. -/
theorem map_agrees (env : Partition.Externals) {s : State Name}
    (reached : (machine env Name).Reaches Attended s) (up : s.status = .up)
    (rest : ∀ task ∈ s.tasks, task.resting = true) : Agrees s := by
  have preserved (s : State Name) (action : Action Name) (next : State Name) (inv : Agreeing s)
      (meets : Attended s action) (taken : (machine env Name).step action s = some next) :
      Agreeing next := inv.step meets.1 (effect_of_step taken)
  exact (reached.invariant agreeing_fresh preserved).agrees up rest

end Steps

section Samples

open Kafkrs.Partition (externals settings)

theorem map_agrees_recreated : ∃ s, (machine externals String).execute recreated fresh = some s ∧
    s.registry.map (·.uuid) = [1] ∧ s.status = .up ∧
      (∀ task ∈ s.tasks, task.resting = true) ∧ Agrees s := by
  have runs : ((machine externals String).execute recreated fresh).any (fun s =>
      s.registry.map (·.uuid) == [1] && (s.status == .up && s.tasks.all Task.resting)) = true := by
    decide +kernel
  have along : (machine externals String).Along Attended recreated fresh := by decide +kernel
  obtain ⟨s, ran, facts⟩ := Option.any_eq_true _ _ |>.mp runs
  simp only [Bool.and_eq_true, beq_iff_eq, List.all_eq_true] at facts
  obtain ⟨uuids, up, rest⟩ := facts
  exact ⟨s, ran, uuids, up, rest, map_agrees externals ⟨recreated, along, ran⟩ up rest⟩

/-- The client that creates the topic disconnects once the registry has answered. -/
def disconnected : List (Action String) :=
  [.boot, .task 0, .submit (.create "a" 1 settings), .task 1, .abort 1]

theorem disconnected_unserved : ∃ s,
    (machine externals String).execute disconnected fresh = some s ∧ s.status = .up ∧
      (∀ task ∈ s.tasks, task.resting = true) ∧ ¬Agrees s := by
  have runs : ((machine externals String).execute disconnected fresh).any (fun s =>
      (s.status == .up && s.tasks.all Task.resting) &&
        s.registry.any fun e => decide (0 < e.partitionCount) &&
          (s.partitions (e.name, 0)).isNone) = true := by
    decide +kernel
  obtain ⟨s, ran, facts⟩ := Option.any_eq_true _ _ |>.mp runs
  simp only [Bool.and_eq_true, beq_iff_eq, List.all_eq_true, List.any_eq_true, decide_eq_true_eq,
    Option.isNone_iff_eq_none] at facts
  obtain ⟨⟨up, rest⟩, e, member, below, empty⟩ := facts
  refine ⟨s, ran, up, rest, fun agrees => ?_⟩
  obtain ⟨h, _, found, _⟩ := agrees.served e member 0 below
  rw [empty] at found
  cases found

end Samples
end Kafkrs.Broker
