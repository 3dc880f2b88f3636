import Kafkrs.Footprint

/-! What a delete in progress has still to remove, and when a topic is out of its reach. -/
namespace Kafkrs.Broker

open Lib

section Deletes

variable {Name : Type}

/-- A delete of the topic has still handles or the WAL directory to remove. -/
def Torn (s : State Name) (name : Name) : Prop := ∃ task ∈ s.tasks, task.tearing = some name

instance [DecidableEq Name] (s : State Name) (name : Name) : Decidable (Torn s name) :=
  inferInstanceAs (Decidable (∃ task ∈ s.tasks, _))

/-- Who may still come to recover a partition: its registered incarnation, or a spawn. -/
def Tenant (s : State Name) (key : Key Name) (uuid : Nat) : Prop :=
  (∃ e ∈ s.registry, e.name = key.1 ∧ e.uuid = uuid) ∨
    ∃ task ∈ s.tasks, ∃ job ∈ task.pending, job.key = key ∧ job.uuid = uuid

/-- A spawn on a partition is its tenant's. -/
theorem Tenant.job_uuid {s : State Name} {uuid : Nat} {task : Task Name} {job : Job Name}
    (tenant : Tenant s job.key uuid) (spawns : Spawns s) (current : Current s)
    (member : task ∈ s.tasks) (inside : job ∈ task.jobs) : job.uuid = uuid := by
  rcases tenant with ⟨e, known, name, rfl⟩ | ⟨other, there, job', waiting, same, rfl⟩
  · exact current.jobs e known task member job inside name.symm
  · rw [spawns.job_unique there member (other.pending_sublist.subset waiting) inside same]

/-- So is a writer that is still running on it. -/
theorem Tenant.actor_uuid {s : State Name} {uuid : Nat} {a : Actor Name}
    (tenant : Tenant s a.key uuid) (exclusive : Exclusive s) (current : Current s)
    (present : a ∈ s.actors) (running : ¬a.stopped) : a.uuid = uuid := by
  rcases tenant with ⟨e, known, name, rfl⟩ | ⟨task, member, job, waiting, same, rfl⟩
  · exact current.actors e known a present name.symm running
  · exact absurd (exclusive.unclaimed task member job waiting a present same.symm).2 running

theorem Tenant.owned {s : State Name} {key : Key Name} {uuid : Nat} (tenant : Tenant s key uuid)
    (owned : Owned s) : s.incarnations[uuid]? = some key.1 := by
  rcases tenant with ⟨e, known, name, rfl⟩ | ⟨task, member, job, waiting, rfl, rfl⟩
  · exact name ▸ owned.entries e known
  · exact owned.jobs task member job (task.pending_sublist.subset waiting)

theorem Torn.set {s : State Name} {name : Name} {id : Nat} {task later : Task Name}
    (torn : Torn s name) (found : s.tasks[id]? = some task)
    (kept : task.tearing = some name → later.tearing = some name) :
    ∃ t ∈ s.tasks.set id later, t.tearing = some name := by
  obtain ⟨t, member, tearing⟩ := torn
  obtain ⟨i, at'⟩ := List.getElem?_of_mem member
  by_cases same : i = id
  · subst same
    obtain rfl := Option.some.inj (at'.symm.trans found)
    exact ⟨later, List.mem_of_getElem? (Slots.set_self found), kept tearing⟩
  · exact ⟨t, List.mem_of_getElem? ((Slots.set_other same).trans at'), tearing⟩

theorem Shift.tearing [DecidableEq Name] {s : State Name} {task later : Task Name} {name : Name}
    (shift : Shift s task later) (tears : task.tearing = some name) :
    later.tearing = some name := by
  cases shift with
  | teardown middle middle' =>
    rw [Task.tearing_middle middle] at tears
    rw [Task.tearing_middle middle']
    exact tears
  | erase data => simpa [Task.tearing, data] using tears
  | detached kept => simp [Task.tearing, kept] at tears
  | refused | unknown | spawned | prepare | present | swept => cases tears

end Deletes

section Vacancy

variable {Name : Type} [DecidableEq Name] {env : Partition.Externals} {s next : State Name}
  {action : Action Name} {name : Name}

/-- A vacant topic stays vacant until it is registered. -/
theorem Vacant.step (vacant : Vacant s name) (effect : Effect env s action next) :
    Vacant next name ∨ Registered next name := by
  obtain ⟨idle, writers⟩ := vacant
  have stopped : ∀ a ∈ next.actors, a.key.1 = name → a.stopped := by
    intro a present same
    cases effect.staffing with
    | keeps keeps _ =>
      obtain ⟨a₀, before, key, _, stays⟩ := keeps.mem present
      exact stays (writers a₀ before (key ▸ same))
    | hires id lock job rest new found _ actors key _ _ =>
      rw [actors] at present
      rcases List.mem_append.mp present with old | last
      · exact writers a old same
      · rw [List.mem_singleton.mp last, key] at same
        exact absurd same (idle _ (List.mem_of_getElem? found) job List.mem_cons_self)
  cases effect.growth with
  | thin thins _ _ =>
    refine .inl ⟨fun task member job inside => ?_, stopped⟩
    obtain ⟨before, old, jobs, _⟩ := thins.mem member inside
    exact idle before old job (jobs.subset inside)
  | create id entry _ _ _ same =>
    subst same
    by_cases this : entry.name = name
    · exact .inr ⟨entry, List.mem_concat_self, this⟩
    · refine .inl ⟨fun task member job inside => ?_, stopped⟩
      rcases List.mem_or_eq_of_mem_set member with old | rfl
      · exact idle task old job inside
      · rw [(mem_jobsOf.mp inside).1]
        exact this
  | boot down same =>
    subst same
    by_cases known : Registered s name
    · exact .inr known
    · refine .inl ⟨fun task member job inside => ?_, stopped⟩
      rcases List.mem_cons.mp member with rfl | sweep
      · obtain ⟨e, entry, job⟩ := List.mem_flatMap.mp inside
        rw [(mem_jobsOf.mp job).1]
        exact fun same => known ⟨e, entry, same⟩
      · obtain ⟨d, _, rfl⟩ := List.mem_map.mp sweep
        cases inside

/-- A tenant was one before or has just been registered. -/
theorem Tenant.before {key : Key Name} {uuid : Nat} (tenant : Tenant next key uuid)
    (effect : Effect env s action next) :
    Tenant s key uuid ∨ (creates s action = some key.1 ∧ uuid = s.incarnations.length ∧
      next.wal = s.wal ∧ next.stores = s.stores ∧ next.histories = s.histories) := by
  cases effect.growth with
  | thin thins registry _ =>
    left
    rcases tenant with ⟨e, member, facts⟩ | ⟨task, member, job, waiting, facts⟩
    · exact .inl ⟨e, registry.subset member, facts⟩
    · obtain ⟨before, old, _, pending⟩ := thins.mem member (task.pending_sublist.subset waiting)
      exact .inr ⟨before, old, job, pending.subset waiting, facts⟩
  | create id entry created _ fresh same =>
    subst same
    rcases tenant with ⟨e, member, name, rfl⟩ | ⟨task, member, job, waiting, rfl, rfl⟩
    · rcases List.mem_append.mp member with old | last
      · exact .inl (.inl ⟨e, old, name, rfl⟩)
      · rw [List.mem_singleton.mp last] at name ⊢
        exact .inr ⟨name ▸ created, fresh, rfl, rfl, rfl⟩
    · rcases List.mem_or_eq_of_mem_set member with old | rfl
      · exact .inl (.inr ⟨task, old, job, waiting, rfl, rfl⟩)
      · obtain ⟨name, _, uuid, _⟩ := mem_jobsOf.mp waiting
        exact .inr ⟨name ▸ created, uuid.trans fresh, rfl, rfl, rfl⟩
  | boot down same =>
    subst same
    left
    rcases tenant with known | ⟨task, member, job, waiting, rfl, rfl⟩
    · exact .inl known
    · rcases List.mem_cons.mp member with rfl | sweep
      · obtain ⟨e, entry, inside⟩ := List.mem_flatMap.mp waiting
        obtain ⟨name, _, uuid, _⟩ := mem_jobsOf.mp inside
        exact .inl ⟨e, entry, name.symm, uuid.symm⟩
      · obtain ⟨d, _, rfl⟩ := List.mem_map.mp sweep
        cases waiting

end Vacancy
end Kafkrs.Broker
