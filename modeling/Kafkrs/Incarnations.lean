import Kafkrs.Custody
import Kafkrs.Teardown

/-! Old and new incarnations of a topic kept apart: whatever a delete still has in hand, a
handle, an actor or a UUID to sweep, is no registered incarnation's. -/
namespace Kafkrs.Broker

open Lib

section Retirement

variable {Name : Type}

/-- A retired UUID under which nothing will write any more. -/
structure Dead (s : State Name) (uuid : Nat) : Prop where
  retired : Retired s uuid
  jobs : ∀ task ∈ s.tasks, ∀ job ∈ task.jobs, job.uuid ≠ uuid
  actors : ∀ a ∈ s.actors, a.uuid = uuid → a.stopped

def Task.erasing : Task Name → Option Nat
  | .deleting d .persist => some d.uuid
  | .sweeping uuid _ => some uuid
  | _ => none

structure Separated (s : State Name) : Prop where
  exclusive : Exclusive s
  current : Current s
  custody : Custody s
  torn : ∀ e ∈ s.registry, ¬Torn s e.name
  erasing : ∀ task ∈ s.tasks, ∀ uuid ∈ task.erasing, Dead s uuid
  sweeps : ∀ d ∈ s.pendingDeletes, Dead s d.1

theorem Unmapping.torn {s : State Name} {name : Name} (unmapping : Unmapping s name) :
    Torn s name := by
  obtain ⟨task, member, unmaps⟩ := unmapping
  refine ⟨task, member, ?_⟩
  match task with
  | .deleting d .removeHandles => exact unmaps
  | .deleting d (.stopWriters _ _ _) | .deleting d (.stopUploaders _ _) | .deleting d .clearLocks
  | .deleting d .removeWal | .deleting d .persist | .register _ _ _ | .spawning _ _
  | .unregister _ _ | .sweeping _ _ | .finished => cases unmaps

end Retirement

section Steps

variable {Name : Type} [DecidableEq Name] {env : Partition.Externals} {s next : State Name}
  {action : Action Name} {name : Name} {uuid : Nat}

theorem Dead.step (dead : Dead s uuid) (effect : Effect env s action next) : Dead next uuid := by
  refine ⟨dead.retired.step effect, fun task member job inside => ?_, fun a present same => ?_⟩
  · cases effect.growth with
    | thin thins _ _ =>
      obtain ⟨before, old, jobs, _⟩ := thins.mem member inside
      exact dead.jobs before old job (jobs.subset inside)
    | create _ entry _ _ fresh same =>
      subst same
      rcases List.mem_or_eq_of_mem_set member with old | rfl
      · exact dead.jobs task old job inside
      · rw [(mem_jobsOf.mp inside).2.2.1, fresh]
        exact Nat.ne_of_gt dead.retired.1
    | boot _ same =>
      subst same
      rcases List.mem_cons.mp member with rfl | sweep
      · obtain ⟨e, entry, job⟩ := List.mem_flatMap.mp inside
        rw [(mem_jobsOf.mp job).2.2.1]
        exact dead.retired.2 e entry
      · obtain ⟨d, _, rfl⟩ := List.mem_map.mp sweep
        cases inside
  · cases effect.staffing with
    | keeps keeps _ =>
      obtain ⟨a₀, before, _, uuid, stays⟩ := keeps.mem present
      exact stays (dead.actors a₀ before (uuid ▸ same))
    | hires id lock job rest new found _ actors _ uuid _ =>
      rw [actors] at present
      rcases List.mem_append.mp present with old | last
      · exact dead.actors a old same
      · rw [List.mem_singleton.mp last, uuid] at same
        exact absurd same (dead.jobs _ (List.mem_of_getElem? found) job List.mem_cons_self)

theorem Shift.tore {task later : Task Name} (shift : Shift s task later)
    (tears : later.tearing = some name) : task.tearing = some name := by
  cases shift with
  | teardown middle middle' =>
    rw [Task.tearing_middle middle'] at tears
    rw [Task.tearing_middle middle]
    exact tears
  | erase data => simpa [Task.tearing, data] using tears
  | refused | unknown | spawned | prepare | present | detached | swept => cases tears

/-- A delete under way was so before, or its topic has just left the registry. -/
theorem Torn.before (torn : Torn next name) (effect : Effect env s action next) :
    Torn s name ∨ ¬Registered next name := by
  obtain ⟨task, member, tears⟩ := torn
  rcases effect.origin member with old | ⟨before, there, moves⟩ | begins
  · exact .inl ⟨task, old, tears⟩
  · cases moves with
    | shift shift => exact .inl ⟨before, there, shift.tore tears⟩
    | unregister _ _ registry =>
      obtain rfl := Option.some.inj tears
      refine .inr fun ⟨e, kept, named⟩ => ?_
      rw [registry] at kept
      simpa [named] using (List.mem_filter.mp kept).2
    | removeHandles =>
      rw [Task.tearing_middle rfl] at tears
      split at tears
      · exact .inl ⟨_, there, tears⟩
      · cases tears
    | abort | register | recover | openWriter | insert | removeWal | sweep => cases tears
  · cases begins with
    | rpc rpc => cases rpc <;> cases tears
    | returned | sweep | boot | resume => cases tears

/-- A create finds its topic vacant and out of reach of earlier deletes, and a WAL directory
is removed only once its topic is vacant. -/
def Secluded (s : State Name) (action : Action Name) : Prop :=
  (∀ name ∈ creates s action, Vacant s name ∧ ¬Torn s name) ∧
  (∀ name ∈ removes s action, Vacant s name)

instance (s : State Name) (action : Action Name) : Decidable (Secluded s action) :=
  inferInstanceAs (Decidable ((∀ name ∈ creates s action, _) ∧ (∀ name ∈ removes s action, _)))

theorem Secluded.spaced (meets : Secluded s action) : Spaced s action :=
  fun name created => (meets.1 name created).1

omit [DecidableEq Name] in
/-- With its topic vacant, the UUID of a delete is dead. -/
theorem Separated.dead (inv : Separated s) {d : Deletion Name} (vacant : Vacant s d.name)
    (retired : Retired s d.uuid) (made : s.incarnations[d.uuid]? = some d.name) :
    Dead s d.uuid where
  retired := retired
  jobs := by
    intro task member job inside same
    have name := inv.exclusive.owned.jobs task member job inside
    rw [same] at name
    exact vacant.1 task member job inside (Option.some.inj (name.symm.trans made))
  actors := by
    intro a present same
    have name := inv.exclusive.owned.actors a present
    rw [same] at name
    exact vacant.2 a present (Option.some.inj (name.symm.trans made))

theorem Separated.erasing_step (inv : Separated s) (meets : Secluded s action)
    (effect : Effect env s action next) :
    ∀ task ∈ next.tasks, ∀ uuid ∈ task.erasing, Dead next uuid := by
  intro task member uuid erases
  rcases effect.origin member with old | ⟨before, there, moves⟩ | begins
  · exact (inv.erasing task old uuid erases).step effect
  · cases moves with
    | @removeWal d removed =>
      obtain rfl := Option.some.inj erases
      obtain ⟨retired, made, _⟩ := inv.custody.tasks _ there
      exact (inv.dead (meets.2 _ removed) retired made).step effect
    | sweep => exact (inv.erasing _ there uuid erases).step effect
    | shift shift =>
      cases shift with
      | @teardown d phase later _ middle _ =>
        cases later with
        | persist => cases middle
        | removeHandles | stopWriters | stopUploaders | clearLocks | removeWal => cases erases
      | refused | unknown | spawned | prepare | present | erase | detached | swept => cases erases
    | abort | register | unregister | recover | openWriter | insert | removeHandles => cases erases
  · cases begins with
    | rpc rpc => cases rpc <;> cases erases
    | sweep persists => exact (inv.erasing _ persists uuid erases).step effect
    | resume pending =>
      obtain rfl := Option.some.inj erases
      exact (inv.sweeps _ pending).step effect
    | returned | boot => cases erases

theorem Separated.torn_step (inv : Separated s) (meets : Secluded s action)
    (effect : Effect env s action next) : ∀ e ∈ next.registry, ¬Torn next e.name := by
  intro e member torn
  have known : Registered next e.name := ⟨e, member, rfl⟩
  have before := (torn.before effect).resolve_right fun unknown => unknown known
  rcases known.before effect with ⟨e₀, old, name⟩ | created
  · exact inv.torn e₀ old (name ▸ before)
  · exact (meets.1 _ created).2 before

theorem Separated.sweeps_step (inv : Separated s) (effect : Effect env s action next) :
    ∀ d ∈ next.pendingDeletes, Dead next d.1 := by
  intro d member
  have old (before : d ∈ s.pendingDeletes) : Dead next d.1 := (inv.sweeps d before).step effect
  have last {id : Nat} {deletion : Deletion Name}
      (found : s.tasks[id]? = some (.deleting deletion .persist)) : Dead next deletion.uuid := by
    have dead := inv.erasing _ (List.mem_of_getElem? found) _ rfl
    exact dead.step effect
  cases effect with
  | shift _ _ _ fewer => exact old (fewer member)
  | recover _ taken =>
    obtain rfl := Option.some.inj taken
    exact old member
  | sendOrphan _ acts | openWriter _ acts | stopUploader _ acts | actor _ _ acts =>
    cases acts
    exact old member
  | persist found =>
    rcases List.mem_append.mp member with before | new
    · exact old before
    · rw [List.mem_singleton.mp new]
      exact last found
  | crash =>
    obtain ⟨wal, stores, histories, same⟩ := crashed_frame env _ s
    rw [same] at member
    exact old member
  | submit | timeout | abort | register | unregister | insert | removeHandles | stopWriter
  | removeWal | sweep | boot => exact old member

theorem Separated.step (inv : Separated s) (meets : Secluded s action)
    (effect : Effect env s action next) : Separated next where
  exclusive := inv.exclusive.step meets.spaced effect
  current := inv.current.step inv.exclusive.spawns meets.spaced effect
  custody := inv.custody.step inv.exclusive.owned
    (fun name created unmapping => (meets.1 name created).2 unmapping.torn) effect
  torn := inv.torn_step meets effect
  erasing := inv.erasing_step meets effect
  sweeps := inv.sweeps_step effect

omit [DecidableEq Name] in
theorem separated_fresh : Separated (fresh : State Name) where
  exclusive := exclusive_fresh
  current := ⟨by simp [fresh], by simp [fresh]⟩
  custody := custody_fresh
  torn := by simp [fresh]
  erasing := by simp [fresh]
  sweeps := by simp [fresh]

end Steps
end Kafkrs.Broker
