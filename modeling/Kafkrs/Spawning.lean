import Kafkrs.Effects
import Mathlib.Data.List.Nodup

/-! Which partitions are being spawned by whom. As long as the registry accepts a create only
when no spawn of that topic is under way, each partition is spawned by one task at a time. -/
namespace Kafkrs.Broker

open Lib

section Tasks

variable {Name : Type}

def Idle (s : State Name) (name : Name) : Prop :=
  ∀ task ∈ s.tasks, ∀ job ∈ task.jobs, job.key.1 ≠ name

instance [DecidableEq Name] (s : State Name) (name : Name) : Decidable (Idle s name) :=
  inferInstanceAs (Decidable (∀ task ∈ s.tasks, ∀ job ∈ task.jobs, _))

def Registered (s : State Name) (name : Name) : Prop := ∃ e ∈ s.registry, e.name = name

/-- Every job of the later tasks was there before, in the same place. -/
def Thins (tasks later : List (Task Name)) : Prop :=
  ∀ (i : Nat) task', later[i]? = some task' → task'.jobs = [] ∨
    ∃ task, tasks[i]? = some task ∧ task'.jobs.Sublist task.jobs ∧
      task'.pending.Sublist task.pending

theorem Thins.refl (tasks : List (Task Name)) : Thins tasks tasks :=
  fun _ task found => .inr ⟨task, found, .refl _, .refl _⟩

theorem Thins.set {tasks later : List (Task Name)} {id : Nat} {task task' : Task Name}
    (thins : Thins tasks later) (found : tasks[id]? = some task)
    (jobs : task'.jobs.Sublist task.jobs) (pending : task'.pending.Sublist task.pending) :
    Thins tasks (later.set id task') := by
  intro i other at'
  rcases Slots.set_cases at' with ⟨rfl, rfl⟩ | ⟨_, old⟩
  · exact .inr ⟨task, found, jobs, pending⟩
  · exact thins i other old

theorem Thins.clear {tasks later : List (Task Name)} {id : Nat} {task' : Task Name}
    (thins : Thins tasks later) (none : task'.jobs = []) : Thins tasks (later.set id task') := by
  intro i other at'
  rcases Slots.set_cases at' with ⟨rfl, rfl⟩ | ⟨_, old⟩
  · exact .inl none
  · exact thins i other old

theorem Thins.append {tasks later : List (Task Name)} {task' : Task Name}
    (thins : Thins tasks later) (none : task'.jobs = []) : Thins tasks (later ++ [task']) := by
  intro i other at'
  rcases Slots.append_cases at' with ⟨_, rfl⟩ | old
  · exact .inl none
  · exact thins i other old

theorem Thins.nil (tasks : List (Task Name)) : Thins tasks [] := by
  intro i task found
  cases found

theorem Thins.mem {tasks later : List (Task Name)} (thins : Thins tasks later)
    {task' : Task Name} (member : task' ∈ later) {job : Job Name} (inside : job ∈ task'.jobs) :
    ∃ task ∈ tasks, task'.jobs.Sublist task.jobs ∧ task'.pending.Sublist task.pending := by
  obtain ⟨i, found⟩ := List.getElem?_of_mem member
  rcases thins i task' found with none | ⟨task, found', jobs, pending⟩
  · rw [none] at inside
    cases inside
  · exact ⟨task, List.mem_of_getElem? found', jobs, pending⟩

theorem Rpc.task_jobs (rpc : Rpc Name) : rpc.task.jobs = [] := by
  cases rpc <;> rfl

theorem Shift.thins [DecidableEq Name] {s : State Name} {task later : Task Name}
    (shift : Shift s task later) :
    later.jobs.Sublist task.jobs ∧ later.pending.Sublist task.pending := by
  cases shift with
  | prepare early early' =>
    rw [Task.pending_early early, Task.pending_early early']
    exact ⟨.refl _, .refl _⟩
  | present => exact ⟨List.sublist_cons_self _ _, List.sublist_cons_self _ _⟩
  | refused | unknown | spawned | teardown | erase | detached | swept =>
    exact ⟨List.nil_sublist _, List.nil_sublist _⟩

end Tasks

section Steps

variable {Name : Type} [DecidableEq Name] {env : Partition.Externals} {s next : State Name}
  {action : Action Name}

theorem Acts.registry {id : Nat} {move : Partition.Action} (acts : Acts env s id move next) :
    next.registry = s.registry ∧ next.incarnations = s.incarnations := by
  cases acts
  exact ⟨rfl, rfl⟩

inductive Growth (s : State Name) (action : Action Name) (next : State Name) : Prop
  /-- Nothing new. -/
  | thin (thins : Thins s.tasks next.tasks) (registry : next.registry.Sublist s.registry)
      (incarnations : next.incarnations = s.incarnations)
  | create (id : Nat) (entry : TopicEntry Name) (created : creates s action = some entry.name)
      (unknown : s.lookup entry.name = none) (uuid : entry.uuid = s.incarnations.length)
      (same : next = { s with
        registry := s.registry ++ [entry]
        incarnations := s.incarnations ++ [entry.name]
        tasks := s.tasks.set id (.spawning (jobsOf entry) .lookup) })
      (begun : .spawning (jobsOf entry) .lookup ∈ next.tasks)
  | boot (down : s.status = .down) (same : next = booted s)

theorem Effect.growth (effect : Effect env s action next) : Growth s action next := by
  have same := Thins.refl s.tasks
  have all := List.Sublist.refl s.registry
  cases effect with
  | submit => exact .thin (same.append (Rpc.task_jobs _)) all rfl
  | shift found shift | timeout found shift =>
    exact .thin (same.set found shift.thins.1 shift.thins.2) all rfl
  | unregister => exact .thin (same.clear rfl) List.filter_sublist rfl
  | abort | removeHandles | stopWriter | removeWal | sweep => exact .thin (same.clear rfl) all rfl
  | register found unknown named =>
    subst named
    refine .create _ _ (creates_register found unknown) unknown rfl rfl ?_
    exact List.mem_of_getElem? (Slots.set_self found)
  | recover found taken =>
    obtain rfl := Option.some.inj taken
    exact .thin (same.set found (.refl _) (List.sublist_cons_self _ _)) all rfl
  | sendOrphan _ acts | actor _ _ acts =>
    exact .thin (acts.tasks ▸ same) (acts.registry.1 ▸ all) acts.registry.2
  | openWriter found acts =>
    refine .thin ?_ (acts.registry.1 ▸ all) acts.registry.2
    simp only [State.setTask, acts.tasks]
    exact same.set found (.refl _) (.refl _)
  | stopUploader found acts =>
    refine .thin ?_ (acts.registry.1 ▸ all) acts.registry.2
    simp only [State.setTask, acts.tasks]
    exact same.clear rfl
  | insert found => exact .thin (same.set found (List.sublist_cons_self _ _) (.refl _)) all rfl
  | persist => exact .thin ((same.clear rfl).append rfl) all rfl
  | crash =>
    obtain ⟨wal, stores, histories, after⟩ := crashed_frame env _ s
    rw [after]
    exact .thin (.nil _) all rfl
  | boot down => exact .boot down rfl

theorem Effect.incarnations (effect : Effect env s action next) :
    s.incarnations.length ≤ next.incarnations.length := by
  cases effect.growth with
  | thin _ _ same => rw [same]
  | create _ _ _ _ _ same => simp [same]
  | boot _ same => simp [same, booted]

theorem Registered.before {name : Name} (known : Registered next name)
    (effect : Effect env s action next) : Registered s name ∨ creates s action = some name := by
  obtain ⟨e, member, rfl⟩ := known
  cases effect.growth with
  | thin _ registry _ => exact .inl ⟨e, registry.subset member, rfl⟩
  | create _ entry created _ _ same =>
    subst same
    rcases List.mem_append.mp member with old | last
    · exact .inl ⟨e, old, rfl⟩
    · rw [List.mem_singleton.mp last]
      exact .inr created
  | boot _ same =>
    subst same
    exact .inl ⟨e, member, rfl⟩

end Steps

structure Spawns {Name : Type} (s : State Name) : Prop where
  names : (s.registry.map (·.name)).Nodup
  separate : ∀ (i j : Nat) task other, s.tasks[i]? = some task → s.tasks[j]? = some other →
    ∀ x ∈ task.jobs, ∀ y ∈ other.jobs, x.key.1 = y.key.1 → i = j
  distinct : ∀ task ∈ s.tasks, (task.jobs.map (·.key)).Nodup
  down : s.status = .down → s.tasks = [] ∧ s.actors = []

section Invariant

variable {Name : Type} [DecidableEq Name] {env : Partition.Externals} {s next : State Name}
  {action : Action Name}

omit [DecidableEq Name] in
theorem jobsOf_keys (e : TopicEntry Name) :
    (jobsOf e).map (·.key) = (List.range e.partitionCount).map (fun p => (e.name, p)) := by
  simp [jobsOf]

omit [DecidableEq Name] in
theorem mem_jobsOf {e : TopicEntry Name} {job : Job Name} :
    job ∈ jobsOf e ↔ job.key.1 = e.name ∧ job.key.2 < e.partitionCount ∧ job.uuid = e.uuid ∧
      job.cfg = e.cfg := by
  obtain ⟨⟨name, p⟩, uuid, cfg⟩ := job
  simp only [jobsOf, List.mem_map, List.mem_range, Job.mk.injEq, Prod.mk.injEq]
  constructor
  · rintro ⟨q, below, ⟨rfl, rfl⟩, rfl, rfl⟩
    exact ⟨rfl, below, rfl, rfl⟩
  · rintro ⟨rfl, below, rfl, rfl⟩
    exact ⟨p, below, ⟨rfl, rfl⟩, rfl, rfl⟩

omit [DecidableEq Name] in
theorem jobsOf_distinct (e : TopicEntry Name) : ((jobsOf e).map (·.key)).Nodup := by
  rw [jobsOf_keys]
  exact List.nodup_range.map fun p q same => (Prod.mk.inj same).2

omit [DecidableEq Name] in
theorem registry_jobs_distinct {registry : List (TopicEntry Name)}
    (names : (registry.map (·.name)).Nodup) :
    ((registry.flatMap jobsOf).map (·.key)).Nodup := by
  induction registry with
  | nil => exact List.nodup_nil
  | cons e registry ih =>
    simp only [List.map_cons, List.nodup_cons] at names
    simp only [List.flatMap_cons, List.map_append]
    refine List.nodup_append'.mpr ⟨jobsOf_distinct e, ih names.2, ?_⟩
    -- a key of this topic in the rest would be a second entry under its name
    intro key here later
    obtain ⟨x, mine, rfl⟩ := List.mem_map.mp here
    obtain ⟨y, theirs, same⟩ := List.mem_map.mp later
    obtain ⟨e', entry, job⟩ := List.mem_flatMap.mp theirs
    apply names.1
    rw [← (mem_jobsOf.mp mine).1, ← same, (mem_jobsOf.mp job).1]
    exact List.mem_map_of_mem entry

theorem lookup_none {name : Name} : s.lookup name = none ↔ ∀ e ∈ s.registry, e.name ≠ name := by
  simp [State.lookup]

theorem lookup_some {name : Name} {entry : TopicEntry Name} (known : s.lookup name = some entry) :
    entry ∈ s.registry ∧ entry.name = name := by
  refine ⟨List.mem_of_find?_eq_some known, ?_⟩
  simpa using List.find?_some known

omit [DecidableEq Name] in
theorem Spawns.entry_unique (inv : Spawns s) {e e' : TopicEntry Name} (member : e ∈ s.registry)
    (member' : e' ∈ s.registry) (same : e.name = e'.name) : e = e' :=
  List.inj_on_of_nodup_map inv.names member member' same

/-- An entry stays, or the delete that takes it out goes on with what it says. -/
theorem Effect.entry (effect : Effect env s action next) (inv : Spawns s) {e : TopicEntry Name}
    (member : e ∈ s.registry) :
    e ∈ next.registry ∨ (unregisters s action = some e.name ∧ ∃ deleteData,
      .deleting ⟨e.name, e.uuid, e.partitionCount, deleteData⟩ .removeHandles ∈ next.tasks) := by
  cases effect with
  | register => exact .inl (List.mem_append_left _ member)
  | @unregister id name deleteData entry found known =>
    obtain ⟨listed, rfl⟩ := lookup_some known
    by_cases this : e.name = entry.name
    · obtain rfl := inv.entry_unique member listed this
      refine .inr ⟨by simp [unregisters, found, known], deleteData, ?_⟩
      exact List.mem_of_getElem? (Slots.set_self found)
    · exact .inl (List.mem_filter.mpr ⟨member, by simpa using this⟩)
  | recover _ taken =>
    obtain rfl := Option.some.inj taken
    exact .inl member
  | sendOrphan _ acts | openWriter _ acts | stopUploader _ acts | actor _ _ acts =>
    exact .inl (acts.registry.1 ▸ member)
  | crash =>
    obtain ⟨wal, stores, histories, after⟩ := crashed_frame env _ s
    rw [after]
    exact .inl member
  | submit | shift | timeout | abort | insert | removeHandles | stopWriter | removeWal | persist
  | sweep | boot => exact .inl member

omit [DecidableEq Name] in
theorem Spawns.thin (inv : Spawns s) (names : (next.registry.map (·.name)).Nodup)
    (thins : Thins s.tasks next.tasks) (down : next.status = .down → next.tasks = [] ∧ next.actors = []) : Spawns next where
  names := names
  separate := by
    intro i j task other here there x mine y theirs same
    rcases thins i task here with none | ⟨task₀, before, jobs, _⟩
    · rw [none] at mine; cases mine
    · rcases thins j other there with none | ⟨other₀, before', jobs', _⟩
      · rw [none] at theirs; cases theirs
      · exact inv.separate i j task₀ other₀ before before' x (jobs.subset mine) y
          (jobs'.subset theirs) same
  distinct := by
    intro task member
    cases shape : task.jobs with
    | nil => exact List.nodup_nil
    | cons job rest =>
      have inside : job ∈ task.jobs := by rw [shape]; exact List.mem_cons_self
      obtain ⟨task₀, before, jobs, _⟩ := thins.mem member inside
      rw [← shape]
      exact (inv.distinct task₀ before).sublist (jobs.map _)
  down := down

omit [DecidableEq Name] in
/-- A partition is spawned in one place only. -/
theorem Spawns.job_unique (inv : Spawns s) {task other : Task Name} {x y : Job Name}
    (here : task ∈ s.tasks) (there : other ∈ s.tasks) (mine : x ∈ task.jobs)
    (theirs : y ∈ other.jobs) (same : x.key = y.key) : x = y := by
  obtain ⟨i, at'⟩ := List.getElem?_of_mem here
  obtain ⟨j, at''⟩ := List.getElem?_of_mem there
  obtain rfl := inv.separate i j task other at' at'' x mine y theirs (congrArg Prod.fst same)
  obtain rfl := Option.some.inj (at'.symm.trans at'')
  exact List.inj_on_of_nodup_map (inv.distinct task here) mine theirs same

omit [DecidableEq Name] in
/-- The partition a spawn is at is no other spawn's, and is not spawned again. -/
theorem Spawns.alone (inv : Spawns s) {id : Nat} {job other : Job Name} {rest : List (Job Name)}
    {phase : Spawn} {task later : Task Name}
    (found : s.tasks[id]? = some (.spawning (job :: rest) phase))
    (member : task ∈ s.tasks.set id later) (inside : other ∈ task.jobs)
    (own : task = later → other ∈ rest) : other.key ≠ job.key := by
  intro same
  obtain ⟨i, at'⟩ := List.getElem?_of_mem member
  rcases Slots.set_cases at' with ⟨rfl, rfl⟩ | ⟨elsewhere, at'⟩
  · have distinct := inv.distinct _ (List.mem_of_getElem? found)
    simp only [Task.jobs, List.map_cons, List.nodup_cons] at distinct
    exact distinct.1 (same ▸ List.mem_map_of_mem (own rfl))
  · exact elsewhere (inv.separate i id _ _ at' found other inside job List.mem_cons_self
      (congrArg Prod.fst same))

/-- The registry accepts a create only when no spawn of that topic is under way. -/
def Unhurried (s : State Name) (action : Action Name) : Prop :=
  ∀ name ∈ creates s action, Idle s name

/-- A stopped broker can only boot, and only a crash stops it. -/
theorem Effect.status (effect : Effect env s action next)
    (down : s.status = .down → s.tasks = [] ∧ s.actors = []) :
    (s.status = .down ∧ next = booted s) ∨ (∃ cut, next = crashed env cut s) ∨
      (s.status ≠ .down ∧ next.status ≠ .down) := by
  by_cases off : s.status = .down
  · -- without tasks and actors nothing else can happen
    obtain ⟨tasks, actors⟩ := down off
    cases effect with
    | boot => exact .inl ⟨off, rfl⟩
    | submit up => rw [up] at off; cases off
    | crash running => exact absurd off running
    | actor found => rw [actors] at found; cases found
    | shift found | timeout found | abort found | register found | unregister found
    | recover found | sendOrphan found | openWriter found | insert found | removeHandles found
    | stopWriter found | stopUploader found | removeWal found | persist found | sweep found =>
      rw [tasks] at found
      cases found
  · cases effect with
    | shift _ _ running =>
      refine .inr (.inr ⟨off, ?_⟩)
      rcases running with same | up
      · exact fun stopped => off (same ▸ stopped)
      · simp [up]
    | recover _ taken =>
      obtain rfl := Option.some.inj taken
      exact .inr (.inr ⟨off, off⟩)
    | sendOrphan _ acts | openWriter _ acts | stopUploader _ acts | actor _ _ acts =>
      cases acts
      exact .inr (.inr ⟨off, off⟩)
    | crash => exact .inr (.inl ⟨_, rfl⟩)
    | boot down => exact absurd down off
    | _ => exact .inr (.inr ⟨off, off⟩)

theorem Effect.down (effect : Effect env s action next)
    (down : s.status = .down → s.tasks = [] ∧ s.actors = []) (stopped : next.status = .down) :
    next.tasks = [] ∧ next.actors = [] := by
  rcases effect.status down with ⟨_, rfl⟩ | ⟨cut, rfl⟩ | ⟨_, running⟩
  · cases stopped
  · exact ⟨rfl, rfl⟩
  · exact absurd stopped running

theorem Spawns.step (inv : Spawns s) (meets : Unhurried s action)
    (effect : Effect env s action next) : Spawns next := by
  have down := effect.down inv.down
  cases effect.growth with
  | thin thins registry _ => exact inv.thin (inv.names.sublist (registry.map _)) thins down
  | create id entry created unknown _ same =>
    have idle := meets _ created
    subst same
    refine ⟨?_, ?_, ?_, down⟩
    · simp only [List.map_append, List.map_cons, List.map_nil]
      refine List.nodup_append'.mpr ⟨inv.names, List.nodup_singleton _, ?_⟩
      intro name old new
      obtain ⟨e, member, rfl⟩ := List.mem_map.mp old
      exact lookup_none.mp unknown e member (List.mem_singleton.mp new)
    · intro i j task other here there x mine y theirs same
      rcases Slots.set_cases here with ⟨rfl, rfl⟩ | ⟨_, old⟩ <;>
        rcases Slots.set_cases there with ⟨rfl, rfl⟩ | ⟨_, old'⟩
      · rfl
      · exact absurd (same.symm.trans (mem_jobsOf.mp mine).1)
          (idle other (List.mem_of_getElem? old') y theirs)
      · exact absurd (same.trans (mem_jobsOf.mp theirs).1)
          (idle task (List.mem_of_getElem? old) x mine)
      · exact inv.separate i j task other old old' x mine y theirs same
    · intro task member
      rcases List.mem_or_eq_of_mem_set member with old | rfl
      · exact inv.distinct task old
      · exact jobsOf_distinct entry
  | boot _ same =>
    subst same
    refine ⟨inv.names, ?_, ?_, down⟩
    · intro i j task other here there x mine y theirs _
      -- the sweeps of a boot spawn nothing
      have only (k : Nat) (t : Task Name) (at' : (booted s).tasks[k]? = some t) (job : Job Name)
          (inside : job ∈ t.jobs) : k = 0 := by
        cases k with
        | zero => rfl
        | succ k =>
          obtain ⟨d, _, rfl⟩ := List.mem_map.mp (List.mem_of_getElem? at')
          cases inside
      rw [only i task here x mine, only j other there y theirs]
    · intro task member
      rcases List.mem_cons.mp member with rfl | sweep
      · exact registry_jobs_distinct inv.names
      · obtain ⟨d, _, rfl⟩ := List.mem_map.mp sweep
        exact List.nodup_nil

end Invariant
end Kafkrs.Broker
