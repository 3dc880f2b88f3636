import Kafkrs.Teardown

/-! A newly created topic starts empty, provided that every delete erases its data, gets as far
as removing the WAL directory, and does so when nothing of the topic is running any more. -/
namespace Kafkrs.Broker

open Lib

section Start

variable {Name : Type} {s : State Name}

def firstRecovery (s : State Name) (slot : Nat × Nat) : Option Recovery.PartitionRecovery :=
  (s.recoveries.find? fun r => decide ((r.uuid, r.partition) = slot)).map (·.recovery)

/-- Every incarnation starts with nothing. -/
def StartsEmpty (s : State Name) : Prop :=
  ∀ slot, ∀ recovery ∈ firstRecovery s slot,
    recovery.activeRecords = [] ∧ recovery.orphanSegments = [] ∧ recovery.nextOffset = 0

/-- Deletes erase, are not cut short, remove the directory of a vacant topic, and no create is
accepted before they have. -/
def Thorough [DecidableEq Name] (s : State Name) (action : Action Name) : Prop :=
  (∀ name ∈ creates s action, ¬Torn s name) ∧
  (∀ deleteData ∈ deletes s action, deleteData = true) ∧
  (∀ name ∈ removes s action, Vacant s name) ∧
  (∀ task ∈ interrupts s action, task.tearing = none)

instance [DecidableEq Name] (s : State Name) (action : Action Name) :
    Decidable (Thorough s action) :=
  inferInstanceAs (Decidable ((∀ name ∈ creates s action, _) ∧
    (∀ deleteData ∈ deletes s action, _) ∧ (∀ name ∈ removes s action, _) ∧
    (∀ task ∈ interrupts s action, _)))

def Task.erases : Task Name → Prop
  | .deleting d _ => d.deleteData = true
  | _ => True

/-- Between the deletes, a name is registered or there is nothing under it; and no partition
has files or objects before it is first recovered. -/
structure Orderly (s : State Name) : Prop where
  exclusive : Exclusive s
  current : Current s
  erasing : ∀ task ∈ s.tasks, task.erases
  settled : ∀ name, Registered s name ∨ Torn s name ∨
    (Vacant s name ∧ ∀ p, s.wal (name, p) = ∅)
  recovered : ∀ a ∈ s.actors, s.recovered (a.uuid, a.key.2)
  blank : ∀ key uuid, Tenant s key uuid → ¬s.recovered (uuid, key.2) →
    s.wal key = ∅ ∧ s.stores (uuid, key.2) = emptyStore
  unborn : ∀ slot, s.incarnations.length ≤ slot.1 →
    s.stores slot = emptyStore ∧ ¬s.recovered slot
  starts : StartsEmpty s

/-- Before the first recovery of its tenant, no writer is left on a partition. -/
theorem Orderly.gone (inv : Orderly s) {key : Key Name} {uuid : Nat}
    (tenant : Tenant s key uuid) (unrecovered : ¬s.recovered (uuid, key.2)) :
    ∀ a ∈ s.actors, a.key = key → a.stopped := by
  rintro a present rfl
  by_contra running
  rw [← tenant.actor_uuid inv.exclusive inv.current present running] at unrecovered
  exact unrecovered (inv.recovered a present)

theorem vacant_fresh (name : Name) : Vacant fresh name := by
  simp [Vacant, Idle, fresh]

theorem orderly_fresh : Orderly (fresh : State Name) where
  exclusive := exclusive_fresh
  current := ⟨by simp [fresh], by simp [fresh]⟩
  erasing := by simp [fresh]
  settled := fun name => .inr (.inr ⟨vacant_fresh name, fun _ => rfl⟩)
  recovered := by simp [fresh]
  blank := fun _ _ _ _ => ⟨rfl, rfl⟩
  unborn := fun _ _ => ⟨rfl, by simp [State.recovered, fresh]⟩
  starts := by simp [StartsEmpty, firstRecovery, fresh]

end Start

section Steps

variable {Name : Type} [DecidableEq Name] {env : Partition.Externals} {s next : State Name}
  {action : Action Name} {name : Name}

/-- A create finds its topic vacant and its WAL directory empty. -/
theorem Orderly.creates_vacant (inv : Orderly s) (meets : Thorough s action)
    (created : creates s action = some name) (unknown : s.lookup name = none) :
    Vacant s name ∧ ∀ p, s.wal (name, p) = ∅ := by
  rcases inv.settled name with ⟨e, member, same⟩ | torn | vacant
  · exact absurd same (lookup_none.mp unknown e member)
  · exact absurd torn (meets.1 name created)
  · exact vacant

theorem Orderly.spaced (inv : Orderly s) (meets : Thorough s action) : Spaced s action :=
  fun _ created => (inv.creates_vacant meets created (creates_unknown created)).1

theorem Orderly.erasing_step (inv : Orderly s) (meets : Thorough s action)
    (effect : Effect env s action next) : ∀ task ∈ next.tasks, task.erases := by
  intro task member
  rcases effect.origin member with old | ⟨before, there, moves⟩ | begins
  · exact inv.erasing task old
  · have erases := inv.erasing before there
    cases moves with
    | shift shift =>
      cases shift with
      | teardown | erase => exact erases
      | refused | unknown | spawned | prepare | present | detached | swept => trivial
    | unregister deleted => exact meets.2.1 _ deleted
    | removeHandles | removeWal => exact erases
    | abort | register | recover | openWriter | insert | sweep => trivial
  · cases begins with
    | rpc rpc => cases rpc <;> trivial
    | returned | sweep | boot | resume => trivial

/-- A delete under way goes on until it removes the directory. -/
theorem Torn.step (torn : Torn s name) (inv : Orderly s) (meets : Thorough s action)
    (effect : Effect env s action next) :
    Torn next name ∨ (removes s action = some name ∧ ∀ p, next.wal (name, p) = ∅) := by
  cases effect.turnover with
  | same tasks => exact .inl (by rwa [Torn, tasks])
  | @move id before later found moves tasks =>
    simp only [Torn, tasks]
    cases moves with
    | shift shift => exact .inl (torn.set found shift.tearing)
    | abort cut =>
      have whole := meets.2.2.2 before (interrupts_of_aborts cut)
      exact .inl (torn.set found fun tears => by rw [whole] at tears; cases tears)
    | removeHandles =>
      refine .inl (torn.set found fun tears => ?_)
      rw [Task.tearing_middle rfl,
        show _ = true from inv.erasing _ (List.mem_of_getElem? found)]
      exact tears
    | @removeWal d removed wal =>
      by_cases this : d.name = name
      · exact .inr ⟨this ▸ removed, this ▸ wal⟩
      · refine .inl (torn.set found fun tears => ?_)
        exact absurd (Option.some.inj tears) this
    | register | unregister | recover | openWriter | insert | sweep =>
      exact .inl (torn.set found fun tears => by cases tears)
  | submit rpc tasks =>
    obtain ⟨task, member, tearing⟩ := torn
    exact .inl ⟨task, tasks ▸ List.mem_append_left _ member, tearing⟩
  | persist found tasks =>
    obtain ⟨task, member, tearing⟩ : ∃ t ∈ s.tasks.set _ .finished, t.tearing = some name :=
      torn.set found fun tears => by cases tears
    exact .inl ⟨task, tasks ▸ List.mem_append_left _ member, tearing⟩
  | crash cut =>
    obtain ⟨task, member, tearing⟩ := torn
    rw [meets.2.2.2 task (cut ▸ member)] at tearing
    cases tearing
  | boot down =>
    obtain ⟨task, member, _⟩ := torn
    rw [(inv.exclusive.spawns.down down).1] at member
    cases member

theorem Registered.step (known : Registered s name) (spawns : Spawns s)
    (effect : Effect env s action next) : Registered next name ∨ Torn next name := by
  obtain ⟨e, member, rfl⟩ := known
  rcases effect.entry spawns member with kept | ⟨_, _, deleting⟩
  · exact .inl ⟨e, kept, rfl⟩
  · exact .inr ⟨_, deleting, rfl⟩

theorem Orderly.settled_step (inv : Orderly s) (meets : Thorough s action)
    (effect : Effect env s action next) (name : Name) :
    Registered next name ∨ Torn next name ∨ (Vacant next name ∧ ∀ p, next.wal (name, p) = ∅) := by
  rcases inv.settled name with known | torn | ⟨vacant, empty⟩
  · exact (known.step inv.exclusive.spawns effect).imp_right .inl
  · rcases torn.step inv meets effect with still | ⟨removed, empty⟩
    · exact .inr (.inl still)
    · rcases (meets.2.2.1 name removed).step effect with vacant | known
      · exact .inr (.inr ⟨vacant, empty⟩)
      · exact .inl known
  · rcases vacant.step effect with vacant' | known
    · refine .inr (.inr ⟨vacant', fun p => ?_⟩)
      rcases effect.wal (k := (name, p)) fun a present same =>
          vacant.2 a present (congrArg Prod.fst same) with
        same | ⟨_, _, _, _, removed⟩ | ⟨id, lock, job, rest, found, same, _⟩
      · rw [same]
        exact empty p
      · exact removed
      · exact absurd (congrArg Prod.fst same)
          (vacant.1 _ (List.mem_of_getElem? found) job List.mem_cons_self)
    · exact .inl known

theorem Effect.recovered (effect : Effect env s action next) {slot : Nat × Nat}
    (before : s.recovered slot) : next.recovered slot := by
  obtain ⟨r, member, same⟩ := before
  cases effect.staffing with
  | keeps _ recoveries => exact ⟨r, recoveries ▸ member, same⟩
  | hires _ _ _ _ _ _ _ _ _ _ recoveries =>
    exact ⟨r, recoveries ▸ List.mem_append_left _ member, same⟩

theorem Orderly.recovered_step (inv : Orderly s) (effect : Effect env s action next) :
    ∀ a ∈ next.actors, next.recovered (a.uuid, a.key.2) := by
  intro a present
  cases effect.staffing with
  | keeps keeps _ =>
    obtain ⟨a₀, before, key, uuid, _⟩ := keeps.mem present
    rw [key, uuid]
    exact effect.recovered (inv.recovered a₀ before)
  | hires id lock job rest new found _ actors key uuid recoveries =>
    rw [actors] at present
    rcases List.mem_append.mp present with old | last
    · exact effect.recovered (inv.recovered a old)
    · rw [List.mem_singleton.mp last, key, uuid]
      exact ⟨_, recoveries ▸ List.mem_concat_self, rfl⟩

theorem Orderly.blank_step (inv : Orderly s) (meets : Thorough s action)
    (effect : Effect env s action next) (key : Key Name) (uuid : Nat)
    (tenant : Tenant next key uuid) (untouched : ¬next.recovered (uuid, key.2)) :
    next.wal key = ∅ ∧ next.stores (uuid, key.2) = emptyStore := by
  rcases tenant.before effect with tenant | ⟨created, rfl, wal, stores, _⟩
  · have unrecovered : ¬s.recovered (uuid, key.2) := fun before => untouched (effect.recovered before)
    obtain ⟨empty, bare⟩ := inv.blank key uuid tenant unrecovered
    constructor
    · rcases effect.wal (inv.gone tenant unrecovered) with
        same | ⟨_, _, _, _, removed⟩ | ⟨id, lock, job, rest, found, rfl, recovered⟩
      · rw [same]
        exact empty
      · exact removed
      · have uuid := tenant.job_uuid inv.exclusive.spawns inv.current (List.mem_of_getElem? found)
          List.mem_cons_self
        rw [uuid] at recovered
        exact absurd recovered untouched
    · have unowned : ∀ a ∈ s.actors, (a.uuid, a.key.2) ≠ (uuid, key.2) :=
        fun a present same => unrecovered (same ▸ inv.recovered a present)
      rcases effect.stores unowned with same | ⟨_, _, _, swept⟩
      · rw [same]
        exact bare
      · exact swept
  · rw [wal, stores]
    exact ⟨(inv.creates_vacant meets created (creates_unknown created)).2 key.2,
      (inv.unborn (_, key.2) (Nat.le_refl _)).1⟩

theorem Orderly.unborn_step (inv : Orderly s) (effect : Effect env s action next)
    (slot : Nat × Nat) (future : next.incarnations.length ≤ slot.1) :
    next.stores slot = emptyStore ∧ ¬next.recovered slot := by
  have unmade := Nat.le_trans effect.incarnations future
  obtain ⟨bare, unrecovered⟩ := inv.unborn slot unmade
  constructor
  · have unowned : ∀ a ∈ s.actors, (a.uuid, a.key.2) ≠ slot :=
      fun a present same => unrecovered (same ▸ inv.recovered a present)
    rcases effect.stores unowned with same | ⟨_, _, _, swept⟩
    · rw [same]
      exact bare
    · exact swept
  · rintro ⟨r, member, same⟩
    cases effect.staffing with
    | keeps _ recoveries => exact unrecovered ⟨r, recoveries ▸ member, same⟩
    | hires id lock job rest new found _ _ _ _ recoveries =>
      rw [recoveries] at member
      rcases List.mem_append.mp member with old | last
      · exact unrecovered ⟨r, old, same⟩
      · rw [List.mem_singleton.mp last] at same
        have known := inv.exclusive.owned.jobs _ (List.mem_of_getElem? found) job
          List.mem_cons_self
        have made := (List.getElem?_eq_some_iff.mp known).1
        rw [← same] at unmade
        exact absurd made (Nat.not_lt.mpr unmade)

/-- Nothing comes back from nothing. -/
theorem recover_empty (crc32c : Bytes → UInt32) :
    (Recovery.recoverPartition crc32c Manifest.empty ∅).2 = ⟨[], [], 0⟩ := by
  have keys : (∅ : Recovery.WalDir).keys = [] := rfl
  simp [Recovery.recoverPartition, Recovery.recoverFiles, keys, Recovery.start,
    Manifest.lastUploadedOffset, Manifest.empty]

theorem Orderly.starts_step (inv : Orderly s) (effect : Effect env s action next) :
    StartsEmpty next := by
  cases effect.staffing with
  | keeps _ recoveries =>
    simp only [StartsEmpty, firstRecovery, recoveries]
    exact inv.starts
  | hires id lock job rest new found _ _ _ _ recoveries =>
    intro slot recovery first
    simp only [firstRecovery, recoveries, List.find?_append] at first
    cases earlier : s.recoveries.find? (fun r => decide ((r.uuid, r.partition) = slot)) with
    | some r =>
      refine inv.starts slot recovery ?_
      simpa [firstRecovery, earlier] using first
    | none =>
      -- the first one for its slot: the partition is still blank
      simp only [earlier, Option.none_or, List.find?_singleton] at first
      split at first
      next here =>
        simp only [decide_eq_true_eq] at here
        have unrecovered : ¬s.recovered (job.uuid, job.key.2) := by
          rintro ⟨r, member, same⟩
          have other := List.find?_eq_none.mp earlier r member
          exact other (by simp [same, here])
        have tenant : Tenant s job.key job.uuid :=
          .inr ⟨_, List.mem_of_getElem? found, job, List.mem_cons_self, rfl, rfl⟩
        obtain ⟨empty, bare⟩ := inv.blank job.key job.uuid tenant unrecovered
        simp only [empty, bare, recover_empty, Option.map_some, Option.mem_def,
          Option.some.injEq] at first
        subst first
        exact ⟨rfl, rfl, rfl⟩
      next => cases first

theorem Orderly.step (inv : Orderly s) (meets : Thorough s action)
    (effect : Effect env s action next) : Orderly next :=
  have spaced := inv.spaced meets
  { exclusive := inv.exclusive.step spaced effect
    current := inv.current.step inv.exclusive.spawns spaced effect
    erasing := inv.erasing_step meets effect
    settled := inv.settled_step meets effect
    recovered := inv.recovered_step effect
    blank := inv.blank_step meets effect
    unborn := inv.unborn_step effect
    starts := inv.starts_step effect }

end Steps

section Samples

open Kafkrs.Partition (externals settings)

def cutShort : List (Action String) :=
  createA ++ produceA ++ [.submit (.delete "a" true), .task 2, .crash fun _ => 0, .boot, .task 0,
    .submit (.create "a" 1 settings)] ++ List.replicate 5 (.task 1)

end Samples
end Kafkrs.Broker
