import Kafkrs.Staffing

/-! A partition has one running writer at a time, provided that no create of a topic is
accepted while writers or spawns of an earlier incarnation are still about. -/
namespace Kafkrs.Broker

open Lib

section Exclusion

variable {Name : Type}

/-- Nothing of the topic is running or being spawned. -/
def Vacant (s : State Name) (name : Name) : Prop :=
  Idle s name ∧ ∀ a ∈ s.actors, a.key.1 = name → a.stopped

def Actor.running (a : Actor Name) : Prop :=
  a.live.writer.phase ≠ .starting ∧ a.live.writer.phase ≠ .stopped

instance (a : Actor Name) : Decidable a.running := inferInstanceAs (Decidable (_ ∧ _))

instance [DecidableEq Name] (s : State Name) (name : Name) : Decidable (Vacant s name) :=
  inferInstanceAs (Decidable (_ ∧ ∀ a ∈ s.actors, _))

/-- At most one running writer for each partition. -/
def Sole (s : State Name) : Prop :=
  s.actors.Pairwise fun a b => a.key = b.key → ¬(a.running ∧ b.running)

instance [DecidableEq Name] (s : State Name) : Decidable (Sole s) :=
  inferInstanceAs (Decidable (List.Pairwise _ _))

structure Exclusive (s : State Name) : Prop where
  spawns : Spawns s
  owned : Owned s
  apart : ∀ (i j : Nat) a b, s.actors[i]? = some a → s.actors[j]? = some b → i ≠ j →
    a.key = b.key → a.uuid ≠ b.uuid ∧ (a.stopped ∨ b.stopped)
  unclaimed : ∀ task ∈ s.tasks, ∀ job ∈ task.pending, ∀ a ∈ s.actors, a.key = job.key →
    a.uuid ≠ job.uuid ∧ a.stopped

theorem Exclusive.sole {s : State Name} (inv : Exclusive s) : Sole s := by
  apply List.pairwise_iff_getElem.mpr
  intro i j left right before same running
  have here := List.getElem?_eq_getElem left
  have there := List.getElem?_eq_getElem right
  rcases (inv.apart i j _ _ here there (Nat.ne_of_lt before) same).2 with stopped | stopped
  · exact running.1.2 stopped
  · exact running.2.2 stopped

variable [DecidableEq Name] {env : Partition.Externals} {s next : State Name}
  {action : Action Name}

def Spaced (s : State Name) (action : Action Name) : Prop :=
  ∀ name ∈ creates s action, Vacant s name

instance (s : State Name) (action : Action Name) : Decidable (Spaced s action) :=
  inferInstanceAs (Decidable (∀ name ∈ creates s action, _))

theorem Exclusive.apart_step (inv : Exclusive s) (effect : Effect env s action next) :
    ∀ (i j : Nat) a b, next.actors[i]? = some a → next.actors[j]? = some b → i ≠ j →
      a.key = b.key → a.uuid ≠ b.uuid ∧ (a.stopped ∨ b.stopped) := by
  cases effect.staffing with
  | keeps keeps _ =>
    intro i j a b here there different same
    obtain ⟨a₀, before, key, uuid, stays⟩ := keeps i a here
    obtain ⟨b₀, before', key', uuid', stays'⟩ := keeps j b there
    rw [key, key'] at same
    obtain ⟨apart, one⟩ := inv.apart i j a₀ b₀ before before' different same
    exact ⟨by rwa [uuid, uuid'], one.imp stays stays'⟩
  | hires id lock job rest new found _ actors key uuid _ =>
    -- the new actor meets only writers that are gone
    have alone (a : Actor Name) (member : a ∈ s.actors) (same : a.key = new.key) :
        a.uuid ≠ new.uuid ∧ a.stopped := by
      rw [key] at same
      rw [uuid]
      exact inv.unclaimed _ (List.mem_of_getElem? found) job List.mem_cons_self a member same
    rw [actors]
    intro i j a b here there different same
    rcases Slots.append_cases here with ⟨rfl, rfl⟩ | old <;>
      rcases Slots.append_cases there with ⟨rfl, rfl⟩ | old'
    · exact absurd rfl different
    · obtain ⟨other, stopped⟩ := alone b (List.mem_of_getElem? old') same.symm
      exact ⟨Ne.symm other, .inr stopped⟩
    · obtain ⟨other, stopped⟩ := alone a (List.mem_of_getElem? old) same
      exact ⟨other, .inl stopped⟩
    · exact inv.apart i j a b old old' different same

theorem Exclusive.unclaimed_step (inv : Exclusive s) (meets : Spaced s action)
    (effect : Effect env s action next) :
    ∀ task ∈ next.tasks, ∀ job ∈ task.pending, ∀ a ∈ next.actors, a.key = job.key →
      a.uuid ≠ job.uuid ∧ a.stopped := by
  cases effect.growth with
  | thin thins _ _ =>
    intro task member job inside a present same
    obtain ⟨before, old, _, pending⟩ := thins.mem member (task.pending_sublist.subset inside)
    have waiting := pending.subset inside
    cases effect.staffing with
    | keeps keeps _ =>
      obtain ⟨a₀, there, key, uuid, stays⟩ := keeps.mem present
      rw [key] at same
      obtain ⟨other, stopped⟩ := inv.unclaimed before old job waiting a₀ there same
      exact ⟨by rwa [uuid], stays stopped⟩
    | hires id lock first rest new found tasks actors key uuid _ =>
      rw [actors] at present
      rcases List.mem_append.mp present with there | last
      · exact inv.unclaimed before old job waiting a there same
      · -- the job just recovered is no longer pending, and its key is nowhere else
        rw [List.mem_singleton.mp last, key] at same
        rw [tasks] at member
        refine absurd same.symm (inv.spawns.alone found member
          (task.pending_sublist.subset inside) ?_)
        rintro rfl
        exact inside
  | create id entry created _ uuid same =>
    obtain ⟨idle, writers⟩ := meets _ created
    subst same
    intro task member job inside a present same
    rcases List.mem_or_eq_of_mem_set member with old | rfl
    · exact inv.unclaimed task old job inside a present same
    · obtain ⟨name, _, jobUuid, _⟩ := mem_jobsOf.mp inside
      refine ⟨?_, writers a present (by rw [same, name])⟩
      -- no actor carries a UUID that has only just been made
      have known := inv.owned.actors a present
      have below := (List.getElem?_eq_some_iff.mp known).1
      omega
  | boot down same =>
    subst same
    intro task _ job _ a present
    rw [show (booted s).actors = [] from (inv.spawns.down down).2] at present
    cases present

theorem Spaced.unhurried (meets : Spaced s action) : Unhurried s action :=
  fun name created => (meets name created).1

theorem Exclusive.step (inv : Exclusive s) (meets : Spaced s action)
    (effect : Effect env s action next) : Exclusive next where
  spawns := inv.spawns.step meets.unhurried effect
  owned := inv.owned.step effect
  apart := inv.apart_step effect
  unclaimed := inv.unclaimed_step meets effect

omit [DecidableEq Name] in
theorem exclusive_fresh : Exclusive (fresh : State Name) where
  spawns := ⟨List.nodup_nil, by simp [fresh], by simp [fresh], fun _ => ⟨rfl, rfl⟩⟩
  owned := ⟨by simp [fresh], by simp [fresh], by simp [fresh]⟩
  apart := by simp [fresh]
  unclaimed := by simp [fresh]

/-- Whatever the interleaving of creates, deletes, shutdowns, disconnects and crashes, a
partition never has two running writers, as long as each create finds its topic vacant. -/
theorem sole_writer (env : Partition.Externals) {s : State Name}
    (reached : (machine env Name).Reaches Spaced s) : Sole s := by
  have preserved (s : State Name) (action : Action Name) (next : State Name) (inv : Exclusive s)
      (meets : Spaced s action) (taken : (machine env Name).step action s = some next) :
      Exclusive next := inv.step meets (effect_of_step taken)
  exact (reached.invariant exclusive_fresh preserved).sole

/-- Whatever runs or is spawned under a registered name belongs to its entry. -/
structure Current (s : State Name) : Prop where
  actors : ∀ e ∈ s.registry, ∀ a ∈ s.actors, a.key.1 = e.name → ¬a.stopped → a.uuid = e.uuid
  jobs : ∀ e ∈ s.registry, ∀ task ∈ s.tasks, ∀ job ∈ task.jobs, job.key.1 = e.name →
    job.uuid = e.uuid

theorem Current.step (inv : Current s) (spawns : Spawns s) (meets : Spaced s action)
    (effect : Effect env s action next) : Current next := by
  cases effect.growth with
  | thin thins registry _ =>
    constructor
    · intro e member a present same running
      have entry := registry.subset member
      cases effect.staffing with
      | keeps keeps _ =>
        obtain ⟨a₀, before, key, uuid, stays⟩ := keeps.mem present
        rw [uuid]
        exact inv.actors e entry a₀ before (key ▸ same) (fun stopped => running (stays stopped))
      | hires id lock job rest new found _ actors key uuid _ =>
        rw [actors] at present
        rcases List.mem_append.mp present with old | last
        · exact inv.actors e entry a old same running
        · rw [List.mem_singleton.mp last] at same ⊢
          rw [uuid]
          exact inv.jobs e entry _ (List.mem_of_getElem? found) job List.mem_cons_self
            (key ▸ same)
    · intro e member task there job inside same
      obtain ⟨before, old, jobs, _⟩ := thins.mem there inside
      exact inv.jobs e (registry.subset member) before old job (jobs.subset inside) same
  | create id entry created unknown uuid same =>
    obtain ⟨idle, writers⟩ := meets _ created
    subst same
    constructor
    · intro e member a present same running
      rcases List.mem_append.mp member with old | last
      · exact inv.actors e old a present same running
      · rw [List.mem_singleton.mp last] at same
        exact absurd (writers a present same) running
    · intro e member task there job inside same
      rcases List.mem_append.mp member with old | last <;>
        rcases List.mem_or_eq_of_mem_set there with old' | rfl
      · exact inv.jobs e old task old' job inside same
      · have name := (mem_jobsOf.mp inside).1
        exact absurd (same.symm.trans name) (lookup_none.mp unknown e old)
      · rw [List.mem_singleton.mp last] at same
        exact absurd same (idle task old' job inside)
      · rw [List.mem_singleton.mp last]
        exact (mem_jobsOf.mp inside).2.2.1
  | boot down same =>
    subst same
    constructor
    · intro e member a present
      rw [show (booted s).actors = [] from (spawns.down down).2] at present
      cases present
    · intro e member task there job inside same
      rcases List.mem_cons.mp there with rfl | sweep
      · obtain ⟨e', entry, job⟩ := List.mem_flatMap.mp inside
        obtain ⟨name, _, uuid, _⟩ := mem_jobsOf.mp job
        rw [uuid, spawns.entry_unique entry member (name.symm.trans same)]
      · obtain ⟨d, _, rfl⟩ := List.mem_map.mp sweep
        cases inside

end Exclusion

section Samples

open Kafkrs.Partition (externals settings sample)

def createA : List (Action String) :=
  [.boot, .task 0, .submit (.create "a" 1 settings)] ++ List.replicate 8 (.task 1)

def produceA : List (Action String) :=
  [.actor 0 (.produce [sample 1] fun _ => 0), .actor 0 .writer]

/-- Delete the topic as task 2, up to the wait for the writer's ack; let the writer seal and
leave, then the uploader upload and leave; and go on to the WAL removal. -/
def deleteA : List (Action String) :=
  [.submit (.delete "a" true), .task 2, .task 2, .task 2, .actor 0 .shutdownWriter] ++
    List.replicate 4 (.actor 0 .writer) ++ [.task 2, .task 2, .task 2] ++
    List.replicate 6 (.actor 0 (.uploader 0)) ++ [.task 2, .task 2, .task 2]

/-- The topic is created again once the delete has returned. -/
def recreated : List (Action String) :=
  createA ++ produceA ++ deleteA ++ [.task 2, .task 2, .submit (.create "a" 1 settings)] ++
    List.replicate 8 (.task 4)

theorem sole_writer_recreated : ∃ s, (machine externals String).execute recreated fresh = some s ∧
    s.actors.map (·.key) = [("a", 0), ("a", 0)] ∧ Sole s := by
  have runs : ((machine externals String).execute recreated fresh).any
      (fun s => s.actors.map (·.key) == [("a", 0), ("a", 0)]) = true := by decide +kernel
  have along : (machine externals String).Along Spaced recreated fresh := by decide +kernel
  obtain ⟨s, ran, keys⟩ := Option.any_eq_true _ _ |>.mp runs
  exact ⟨s, ran, by simpa using keys, sole_writer externals ⟨recreated, along, ran⟩⟩

/-- The topic is created again while the delete still waits for the old writer. -/
def overlapping : List (Action String) :=
  createA ++ [.submit (.delete "a" true), .task 2, .task 2, .submit (.create "a" 1 settings)] ++
    List.replicate 6 (.task 3)

theorem overlapping_two_writers : ∃ s,
    (machine externals String).execute overlapping fresh = some s ∧ ¬Sole s := by
  have runs : ((machine externals String).execute overlapping fresh).any
      (fun s => !decide (Sole s)) = true := by decide +kernel
  obtain ⟨s, ran, two⟩ := Option.any_eq_true _ _ |>.mp runs
  exact ⟨s, ran, by simpa using two⟩

end Samples
end Kafkrs.Broker
