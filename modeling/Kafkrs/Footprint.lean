import Kafkrs.Lifecycle
import Kafkrs.SoleWriter

/-! What a step leaves alone: the WAL of partitions nobody is running or recovering, and the
objects of incarnations without an actor. -/
namespace Kafkrs.Broker

open Lib

variable {Name : Type} [DecidableEq Name] {env : Partition.Externals} {s next : State Name}
  {action : Action Name}

def State.recovered (s : State Name) (slot : Nat × Nat) : Prop :=
  ∃ r ∈ s.recoveries, (r.uuid, r.partition) = slot

section Crash

variable {cut : Nat → Nat}

omit [DecidableEq Name] in
/-- A writer that has returned has no append to lose. -/
theorem liveStep_crash_stopped {p after : Partition.State} {l : Partition.Live} {bytes : Nat}
    (stopped : l.writer.phase = .stopped)
    (taken : Partition.liveStep env p l (.crash bytes) = some after) :
    after.disk.wal = p.disk.wal := by
  obtain rfl := Option.some.inj taken
  have nothing : Partition.appending l = [] := by simp [Partition.appending, stopped]
  simp [nothing, Wal.encodeAll_nil, Lifecycle.appendFile_nil]

theorem crashActor_wal {k : Key Name} {id : Nat}
    (gone : ∀ a, s.actors[id]? = some a → a.key = k → a.stopped) :
    (crashActor env cut s id).wal k = s.wal k := by
  simp only [crashActor]
  split
  · rfl
  next a found =>
    split
    next p taken =>
      by_cases here : k = a.key
      · subst here
        have stopped := gone a found rfl
        simp [State.withSlot, liveStep_crash_stopped stopped taken, State.slot]
      · simp [State.withSlot, here]
    next => rfl

theorem crashActor_stores (id : Nat) : (crashActor env cut s id).stores = s.stores := by
  simp only [crashActor]
  split
  · rfl
  · split
    next p taken =>
      obtain rfl := Option.some.inj taken
      exact Function.update_eq_self _ _
    next => rfl

theorem crashActor_actors (id : Nat) : (crashActor env cut s id).actors = s.actors := by
  obtain ⟨wal, stores, histories, same⟩ := crashActor_frame env cut s id
  rw [same]

theorem crashFold_actors (ids : List Nat) :
    (ids.foldl (crashActor env cut) s).actors = s.actors := by
  obtain ⟨wal, stores, histories, same⟩ := crashFold_frame env cut ids s
  rw [same]

/-- The deaths of stopped actors and of actors elsewhere leave a WAL alone. -/
theorem crashFold_wal {k : Key Name} {ids : List Nat}
    (gone : ∀ id ∈ ids, ∀ a, s.actors[id]? = some a → a.key = k → a.stopped) :
    (ids.foldl (crashActor env cut) s).wal k = s.wal k := by
  induction ids generalizing s with
  | nil => rfl
  | cons id ids ih =>
    rw [List.foldl_cons, ih ?_, crashActor_wal (gone id List.mem_cons_self)]
    rw [crashActor_actors]
    exact fun other member => gone other (List.mem_cons_of_mem _ member)

theorem crashed_wal {k : Key Name} (gone : ∀ a ∈ s.actors, a.key = k → a.stopped) :
    (crashed env cut s).wal k = s.wal k :=
  crashFold_wal fun _ _ a found => gone a (List.mem_of_getElem? found)

/-- Where one writer is running, the crash is its own. -/
theorem crashed_wal_running {i : Nat} {a : Actor Name} {p : Partition.State}
    (found : s.actors[i]? = some a)
    (alone : ∀ j b, s.actors[j]? = some b → j ≠ i → b.key = a.key → b.stopped)
    (taken : Partition.liveStep env (s.slot a) a.live (.crash (cut i)) = some p) :
    (crashed env cut s).wal a.key = p.disk.wal := by
  obtain rfl := Option.some.inj taken
  have below := (List.getElem?_eq_some_iff.mp found).1
  obtain ⟨front, back, split⟩ := List.append_of_mem (List.mem_range.mpr below)
  have once : (front ++ i :: back).Nodup := split ▸ List.nodup_range
  rw [List.nodup_middle, List.nodup_cons, List.mem_append, not_or] at once
  have others {ids : List Nat} (absent : i ∉ ids) :
      ∀ id ∈ ids, ∀ b, s.actors[id]? = some b → b.key = a.key → b.stopped :=
    fun id member b there => alone id b there fun same => absent (same ▸ member)
  -- the deaths before and after its own do not concern this partition
  have before : (front.foldl (crashActor env cut) s).wal a.key = s.wal a.key :=
    crashFold_wal (others once.1.1)
  have found' : (front.foldl (crashActor env cut) s).actors[i]? = some a := by
    rw [crashFold_actors]
    exact found
  simp only [crashed, split, List.foldl_append, List.foldl_cons]
  rw [crashFold_wal (by
    rw [crashActor_actors, crashFold_actors]
    exact others once.1.2)]
  simp [crashActor, found', Partition.liveStep, State.withSlot, State.slot, before]

/-- A crash acknowledges nothing and evicts nothing. -/
theorem crashed_histories (slot : Nat × Nat) :
    ((crashed env cut s).histories slot).acked = (s.histories slot).acked ∧
      ((crashed env cut s).histories slot).evicted = (s.histories slot).evicted := by
  have fold (ids : List Nat) :
      ((ids.foldl (crashActor env cut) s).histories slot).acked = (s.histories slot).acked ∧
        ((ids.foldl (crashActor env cut) s).histories slot).evicted =
          (s.histories slot).evicted := by
    induction ids generalizing s with
    | nil => exact ⟨rfl, rfl⟩
    | cons id ids ih =>
      rw [List.foldl_cons, ih.1, ih.2]
      simp only [crashActor]
      split
      · exact ⟨rfl, rfl⟩
      next a found =>
        simp only [Partition.liveStep, State.withSlot, State.slot]
        by_cases here : slot = (a.uuid, a.key.2)
        · simp [here]
        · simp [Function.update_of_ne here]
  exact fold _

theorem crashed_stores : (crashed env cut s).stores = s.stores := by
  have fold (ids : List Nat) : (ids.foldl (crashActor env cut) s).stores = s.stores := by
    induction ids generalizing s with
    | nil => rfl
    | cons id ids ih => rw [List.foldl_cons, ih, crashActor_stores]
  exact fold _

end Crash

theorem Acts.wal {id : Nat} {move : Partition.Action} {k : Key Name}
    (acts : Acts env s id move next) (gone : ∀ a ∈ s.actors, a.key = k → a.stopped) :
    next.wal k = s.wal k := by
  cases acts with
  | @intro a p live found taken alive =>
    by_cases here : k = a.key
    · subst here
      have stopped := gone a (List.mem_of_getElem? found) rfl
      simp [State.withSlot, ((liveStep_move taken alive).gone stopped).2, State.slot]
    · simp [State.withSlot, here]

/-- Without a writer on it, a partition's WAL changes only by being removed or recovered. -/
theorem Effect.wal {k : Key Name} (effect : Effect env s action next)
    (gone : ∀ a ∈ s.actors, a.key = k → a.stopped) :
    next.wal k = s.wal k ∨
      (∃ (id : Nat) (d : Deletion Name), s.tasks[id]? = some (.deleting d .removeWal) ∧
        d.name = k.1 ∧ next.wal k = ∅) ∨
      (∃ (id lock : Nat) (job : Job Name) (rest : List (Job Name)),
        s.tasks[id]? = some (.spawning (job :: rest) (.recover lock)) ∧ job.key = k ∧
          next.recovered (job.uuid, job.key.2)) := by
  cases effect with
  | @recover id lock job rest _ found taken =>
    obtain rfl := Option.some.inj taken
    by_cases here : job.key = k
    · exact .inr (.inr ⟨id, lock, job, rest, found, here, _, List.mem_concat_self, rfl⟩)
    · exact .inl (Function.update_of_ne (Ne.symm here) _ _)
  | sendOrphan _ acts | openWriter _ acts | stopUploader _ acts | actor _ _ acts =>
    exact .inl (acts.wal gone)
  | @removeWal id d found =>
    by_cases here : k.1 = d.name
    · exact .inr (.inl ⟨id, d, found, here.symm, if_pos here⟩)
    · exact .inl (if_neg here)
  | crash => exact .inl (crashed_wal gone)
  | _ => exact .inl rfl

theorem Acts.stores {id : Nat} {move : Partition.Action} {slot : Nat × Nat}
    (acts : Acts env s id move next) (unowned : ∀ a ∈ s.actors, (a.uuid, a.key.2) ≠ slot) :
    next.stores slot = s.stores slot := by
  cases acts with
  | intro found =>
    have elsewhere := unowned _ (List.mem_of_getElem? found)
    exact Function.update_of_ne (Ne.symm elsewhere) _ _

/-- Objects of an incarnation without an actor change only by being swept. -/
theorem Effect.stores {slot : Nat × Nat} (effect : Effect env s action next)
    (unowned : ∀ a ∈ s.actors, (a.uuid, a.key.2) ≠ slot) :
    next.stores slot = s.stores slot ∨
      ∃ id rest : Nat, s.tasks[id]? = some (.sweeping slot.1 rest) ∧ next.stores slot = emptyStore := by
  cases effect with
  | recover found taken =>
    obtain rfl := Option.some.inj taken
    exact .inl rfl
  | sendOrphan _ acts | openWriter _ acts | stopUploader _ acts | actor _ _ acts =>
    exact .inl (acts.stores unowned)
  | @sweep id uuid p found =>
    by_cases here : slot = (uuid, p)
    · subst here
      exact .inr ⟨id, p + 1, found, Function.update_self _ _ _⟩
    · exact .inl (Function.update_of_ne here _ _)
  | crash => exact .inl (congrFun crashed_stores slot)
  | _ => exact .inl rfl

structure Moved (s next : State Name) (id : Nat) (a : Actor Name) (p : Partition.State)
    (live : Partition.Live) : Prop where
  wal : next.wal = Function.update s.wal a.key p.disk.wal
  stores : next.stores = Function.update s.stores (a.uuid, a.key.2) p.disk.store
  histories : next.histories = Function.update s.histories (a.uuid, a.key.2) p.history
  actors : next.actors = s.actors.set id { a with live := live }

inductive DiskChange (env : Partition.Externals) (s : State Name) (action : Action Name)
    (next : State Name) : Prop
  | same (wal : next.wal = s.wal) (stores : next.stores = s.stores)
      (histories : next.histories = s.histories)
      (actors : ∀ (i : Nat) a', next.actors[i]? = some a' → ∃ a, s.actors[i]? = some a ∧
        a'.key = a.key ∧ a'.uuid = a.uuid ∧ a'.live = a.live)
  | acts {id : Nat} {move : Partition.Action} {a : Actor Name} {p : Partition.State}
      {live : Partition.Live} (found : s.actors[id]? = some a)
      (taken : Partition.liveStep env (s.slot a) a.live move = some p) (alive : p.live = some live)
      (chosen : ∀ records now, move = .produce records now → action = .actor id move)
      (moved : Moved s next id a p live)
  | recover {id lock : Nat} {job : Job Name} {rest : List (Job Name)} {a : Actor Name}
      {p : Partition.State} (found : s.tasks[id]? = some (.spawning (job :: rest) (.recover lock)))
      (started : Partition.downStep env ⟨⟨s.wal job.key, s.stores (job.uuid, job.key.2)⟩, none,
        s.histories (job.uuid, job.key.2)⟩ (.start job.cfg) = some p)
      (spawned : a.key = job.key ∧ a.uuid = job.uuid ∧ p.live = some a.live)
      (wal : next.wal = Function.update s.wal job.key p.disk.wal) (stores : next.stores = s.stores)
      (histories : next.histories = s.histories) (actors : next.actors = s.actors ++ [a])
  | removeWal {d : Deletion Name} (member : .deleting d .removeWal ∈ s.tasks)
      (removed : removes s action = some d.name)
      (wal : next.wal = fun k => if k.1 = d.name then ∅ else s.wal k)
      (stores : next.stores = s.stores) (histories : next.histories = s.histories)
      (actors : next.actors = s.actors)
  | sweep {uuid p : Nat} (member : .sweeping uuid (p + 1) ∈ s.tasks) (wal : next.wal = s.wal)
      (stores : next.stores = Function.update s.stores (uuid, p) emptyStore)
      (histories : next.histories = s.histories) (actors : next.actors = s.actors)
  | crash (cut : Nat → Nat) (after : next = crashed env cut s)

theorem Effect.disk (effect : Effect env s action next) : DiskChange env s action next := by
  have unmoved (i : Nat) (a : Actor Name) (found : s.actors[i]? = some a) :
      ∃ a₀, s.actors[i]? = some a₀ ∧ a.key = a₀.key ∧ a.uuid = a₀.uuid ∧ a.live = a₀.live :=
    ⟨a, found, rfl, rfl, rfl⟩
  cases effect with
  | recover found taken =>
    obtain rfl := Option.some.inj taken
    exact .recover found rfl ⟨rfl, rfl, rfl⟩ rfl rfl rfl rfl
  | sendOrphan _ acts | openWriter _ acts | stopUploader _ acts =>
    obtain ⟨found, taken, alive⟩ := acts
    exact .acts found taken alive (fun _ _ same => by cases same) ⟨rfl, rfl, rfl, rfl⟩
  | actor _ _ acts =>
    obtain ⟨found, taken, alive⟩ := acts
    exact .acts found taken alive (fun _ _ _ => rfl) ⟨rfl, rfl, rfl, rfl⟩
  | stopWriter =>
    refine .same rfl rfl rfl fun i a' found => ?_
    rcases Slots.modify_cases found with ⟨_, a, before, rfl⟩ | ⟨_, before⟩
    · exact ⟨a, before, rfl, rfl, rfl⟩
    · exact unmoved i a' before
  | removeWal found =>
    exact .removeWal (List.mem_of_getElem? found) (by simp [removes, found]) rfl rfl rfl rfl
  | sweep found => exact .sweep (List.mem_of_getElem? found) rfl rfl rfl rfl
  | crash => exact .crash _ rfl
  | submit | shift | timeout | abort | register | unregister | insert | removeHandles | persist
  | boot => exact .same rfl rfl rfl unmoved

end Kafkrs.Broker
