import Kafkrs.Durability
import Kafkrs.Incarnations

/-! The records acknowledged under an incarnation are durable for as long as it may come back to
its partitions, whatever earlier and later incarnations do to the same directories. -/
namespace Kafkrs.Broker

open Lib

section Disks

open Pipeline Lifecycle Refinement Recovery

/-- WAL files fit to recover from, whoever wrote them. -/
structure Tidy (crc32c : Bytes → UInt32) (files : WalDir) : Prop where
  head : ∀ base first rest, Holds crc32c files base (first :: rest) → first.offset = base ∧ 0 ≤ base
  sorted : ∀ base records, Holds crc32c files base records →
    records.Pairwise (fun a b => a.offset < b.offset)

variable {crc32c : Bytes → UInt32} {files : WalDir}

theorem tidy_of_durable {manifest : Manifest} {stored : Record → Prop} {acked : List Record}
    (durable : Durable crc32c files manifest stored acked) : Tidy crc32c files :=
  ⟨durable.head, durable.sorted⟩

theorem tidy_empty : Tidy crc32c ∅ := tidy_of_durable (fresh_durable crc32c fun _ => True)

/-- Files left by others are no burden to an incarnation that has acknowledged nothing. -/
theorem Tidy.durable (tidy : Tidy crc32c files) (stored : Record → Prop) :
    Durable crc32c files Manifest.empty stored [] where
  ordered := Manifest.ordered_empty
  natural := by simp [Manifest.lists, Manifest.empty]
  head := tidy.head
  sorted := tidy.sorted
  listed := by simp [Manifest.lists, Manifest.empty]
  acked := by simp

variable {Name : Type}

/-- Every record acknowledged to a producer of this incarnation is durable. -/
def Held (env : Partition.Externals) (s : State Name) (key : Key Name) (uuid : Nat) : Prop :=
  Durable env.crc32c (s.wal key) (s.stores (uuid, key.2)).manifest
    (Stored (s.stores (uuid, key.2)) (s.histories (uuid, key.2)).evicted)
    (s.histories (uuid, key.2)).acked

structure Safe (env : Partition.Externals) (s : State Name) : Prop where
  separated : Separated s
  tidy : ∀ key, Tidy env.crc32c (s.wal key)
  running : ∀ (i : Nat) a, s.actors[i]? = some a → ¬a.stopped → Invariant env .any (s.slot a)
  held : ∀ key uuid, Tenant s key uuid → Held env s key uuid
  unborn : ∀ slot, s.incarnations.length ≤ slot.1 →
    s.stores slot = emptyStore ∧ (s.histories slot).acked = []

variable {env : Partition.Externals} {s after : State Name}

/-- Two partitions with the same objects are the same. -/
theorem Owned.elsewhere (owned : Owned s) {a : Actor Name} {key : Key Name} {uuid : Nat}
    (present : a ∈ s.actors) (made : s.incarnations[uuid]? = some key.1) (other : key ≠ a.key) :
    (uuid, key.2) ≠ (a.uuid, a.key.2) := by
  intro same
  obtain ⟨rfl, part⟩ := Prod.mk.inj same
  have name := Option.some.inj (made.symm.trans (owned.actors a present))
  exact other (Prod.ext name part)

/-- What is left alone is as safe as before. -/
theorem Held.frame {key : Key Name} {uuid : Nat} (held : Held env s key uuid)
    (wal : after.wal key = s.wal key)
    (stores : after.stores (uuid, key.2) = s.stores (uuid, key.2))
    (histories : after.histories (uuid, key.2) = s.histories (uuid, key.2)) :
    Held env after key uuid := by
  simp only [Held, wal, stores, histories]
  exact held

theorem slot_frame {a : Actor Name} (wal : after.wal a.key = s.wal a.key)
    (stores : after.stores (a.uuid, a.key.2) = s.stores (a.uuid, a.key.2))
    (histories : after.histories (a.uuid, a.key.2) = s.histories (a.uuid, a.key.2)) :
    after.slot a = s.slot a := by
  simp only [State.slot, wal, stores, histories]

end Disks

section Durable

open Pipeline Lifecycle Refinement Recovery

variable {Name : Type} [DecidableEq Name] {env : Partition.Externals} {s next : State Name}
  {action : Action Name}

structure Upheld (env : Partition.Externals) (s after : State Name) : Prop where
  tidy : ∀ key, Tidy env.crc32c (after.wal key)
  running : ∀ (i : Nat) a, after.actors[i]? = some a → ¬a.stopped → Invariant env .any (after.slot a)
  held : ∀ key uuid, Tenant s key uuid → Held env after key uuid

section Acts

variable {id : Nat} {a : Actor Name} {p : Partition.State} {live : Partition.Live}
  {move : Partition.Action}

/-- A stopped writer's uploader works on objects no tenant needs. -/
theorem Safe.acts_stopped (inv : Safe env s) (found : s.actors[id]? = some a)
    (taken : Partition.liveStep env (s.slot a) a.live move = some p) (alive : p.live = some live)
    (moved : Moved s next id a p live) (stopped : a.stopped) : Upheld env s next := by
  have present := List.mem_of_getElem? found
  have exclusive := inv.separated.exclusive
  have gone := (liveStep_move taken alive).gone stopped
  have wal : next.wal = s.wal := by
    rw [moved.wal, gone.2]
    exact Function.update_eq_self _ _
  have stores {slot : Nat × Nat} (apart : slot ≠ (a.uuid, a.key.2)) :
      next.stores slot = s.stores slot ∧ next.histories slot = s.histories slot := by
    rw [moved.stores, moved.histories]
    exact ⟨Function.update_of_ne apart _ _, Function.update_of_ne apart _ _⟩
  refine ⟨wal ▸ inv.tidy, ?_, ?_⟩
  · intro i b there running
    rw [moved.actors] at there
    rcases Slots.set_cases there with ⟨rfl, rfl⟩ | ⟨elsewhere, there⟩
    · exact absurd gone.1 running
    · have apart : (b.uuid, b.key.2) ≠ (a.uuid, a.key.2) := by
        by_cases same : b.key = a.key
        · exact fun slot => (exclusive.apart i id b a there found elsewhere same).1
            (congrArg Prod.fst slot)
        · exact exclusive.owned.elsewhere present
            (exclusive.owned.actors b (List.mem_of_getElem? there)) same
      rw [slot_frame (by rw [wal]) (stores apart).1 (stores apart).2]
      exact inv.running i b there running
  · intro key uuid tenant
    have apart : (uuid, key.2) ≠ (a.uuid, a.key.2) := by
      by_cases same : key = a.key
      · subst same
        intro slot
        have uuid := congrArg Prod.fst slot
        rcases tenant with ⟨e, known, _, mine⟩ | ⟨task, member, job, waiting, key, mine⟩
        · exact (inv.separated.custody.leaving a present (.inr (.inr (.inl stopped)))).2 e known (mine.trans uuid)
        · exact (exclusive.unclaimed task member job waiting a present key.symm).1
            (uuid.symm.trans mine.symm)
      · exact exclusive.owned.elsewhere present (tenant.owned exclusive.owned) same
    exact (inv.held key uuid tenant).frame (by rw [wal]) (stores apart).1 (stores apart).2

/-- A running writer works on the files and objects of its own tenant only. -/
theorem Safe.acts_running (inv : Safe env s) (found : s.actors[id]? = some a)
    (taken : Partition.liveStep env (s.slot a) a.live move = some p) (alive : p.live = some live)
    (moved : Moved s next id a p live) (running : ¬a.stopped)
    (framed : Partition.Admits .any (s.slot a) move) : Upheld env s next := by
  have present := List.mem_of_getElem? found
  have exclusive := inv.separated.exclusive
  have stepped : Invariant env .any p := (inv.running id a found running).step framed taken
  have wal {key : Key Name} (other : key ≠ a.key) : next.wal key = s.wal key := by
    rw [moved.wal]
    exact Function.update_of_ne other _ _
  have stores {slot : Nat × Nat} (apart : slot ≠ (a.uuid, a.key.2)) :
      next.stores slot = s.stores slot ∧ next.histories slot = s.histories slot := by
    rw [moved.stores, moved.histories]
    exact ⟨Function.update_of_ne apart _ _, Function.update_of_ne apart _ _⟩
  refine ⟨?_, ?_, ?_⟩
  · intro key
    by_cases same : key = a.key
    · subst same
      rw [moved.wal, Function.update_self]
      exact tidy_of_durable stepped.valid.durable
    · rw [wal same]
      exact inv.tidy key
  · intro i b there busy
    rw [moved.actors] at there
    rcases Slots.set_cases there with ⟨rfl, rfl⟩ | ⟨elsewhere, there⟩
    · have own : next.slot { a with live := live } = p := by
        simp [State.slot, moved.wal, moved.stores, moved.histories, ← alive]
      exact own ▸ stepped
    · have other : b.key ≠ a.key := fun same =>
        ((exclusive.apart i id b a there found elsewhere same).2).elim busy running
      have apart := exclusive.owned.elsewhere present
        (exclusive.owned.actors b (List.mem_of_getElem? there)) other
      rw [slot_frame (wal other) (stores apart).1 (stores apart).2]
      exact inv.running i b there busy
  · intro key uuid tenant
    by_cases same : key = a.key
    · subst same
      obtain rfl := tenant.actor_uuid exclusive inv.separated.current present running
      simp only [Held, moved.wal, moved.stores, moved.histories, Function.update_self]
      exact stepped.valid.durable
    · have apart := exclusive.owned.elsewhere present (tenant.owned exclusive.owned) same
      exact (inv.held key uuid tenant).frame (wal same) (stores apart).1 (stores apart).2

end Acts

/-- A recovery starts from what its tenant has on disk. -/
theorem Safe.recover (inv : Safe env s) {id lock : Nat} {job : Job Name} {rest : List (Job Name)}
    {a : Actor Name} {p : Partition.State}
    (found : s.tasks[id]? = some (.spawning (job :: rest) (.recover lock)))
    (started : Partition.downStep env ⟨⟨s.wal job.key, s.stores (job.uuid, job.key.2)⟩, none,
      s.histories (job.uuid, job.key.2)⟩ (.start job.cfg) = some p)
    (spawned : a.key = job.key ∧ a.uuid = job.uuid ∧ p.live = some a.live)
    (wal : next.wal = Function.update s.wal job.key p.disk.wal) (stores : next.stores = s.stores)
    (histories : next.histories = s.histories) (actors : next.actors = s.actors ++ [a]) :
    Upheld env s next := by
  have member := List.mem_of_getElem? found
  have exclusive := inv.separated.exclusive
  have tenant : Tenant s job.key job.uuid :=
    .inr ⟨_, member, job, List.mem_cons_self, rfl, rfl⟩
  have down : Invariant env .any ⟨⟨s.wal job.key, s.stores (job.uuid, job.key.2)⟩, none,
      s.histories (job.uuid, job.key.2)⟩ := by
    refine ⟨fun _ live => ?_, .of_down rfl (inv.held _ _ tenant)⟩
    cases live
  have admits : Partition.Admits .any ⟨⟨s.wal job.key, s.stores (job.uuid, job.key.2)⟩, none,
      s.histories (job.uuid, job.key.2)⟩ (.start job.cfg) := ⟨trivial, trivial⟩
  have running : Invariant env .any p := down.step admits started
  have kept : p.disk.store = s.stores (job.uuid, job.key.2) ∧
      p.history = s.histories (job.uuid, job.key.2) := by
    rw [← Option.some.inj started]
    exact ⟨rfl, rfl⟩
  have elsewhere {key : Key Name} (other : key ≠ job.key) : next.wal key = s.wal key := by
    rw [wal]
    exact Function.update_of_ne other _ _
  refine ⟨?_, ?_, ?_⟩
  · intro key
    by_cases same : key = job.key
    · subst same
      rw [wal, Function.update_self]
      exact tidy_of_durable running.valid.durable
    · rw [elsewhere same]
      exact inv.tidy key
  · intro i b there busy
    rw [actors] at there
    rcases Slots.append_cases there with ⟨_, rfl⟩ | there
    · have own : next.slot b = p := by
        simp only [State.slot, spawned.1, spawned.2.1, wal, stores, histories,
          Function.update_self, ← spawned.2.2, ← kept.1, ← kept.2]
      exact own ▸ running
    · have other : b.key ≠ job.key := fun same =>
        busy (exclusive.unclaimed _ member job List.mem_cons_self b
          (List.mem_of_getElem? there) same).2
      rw [slot_frame (elsewhere other) (by rw [stores]) (by rw [histories])]
      exact inv.running i b there busy
  · intro key uuid theirs
    by_cases same : key = job.key
    · subst same
      obtain rfl := theirs.job_uuid exclusive.spawns inv.separated.current member
        List.mem_cons_self
      simp only [Held, wal, stores, histories, Function.update_self, ← kept.1, ← kept.2]
      exact running.valid.durable
    · exact (inv.held key uuid theirs).frame (elsewhere same) (by rw [stores]) (by rw [histories])

/-- The directory of a vacant topic is nobody's. -/
theorem Safe.removeWal (inv : Safe env s) {d : Deletion Name}
    (member : .deleting d .removeWal ∈ s.tasks) (vacant : Vacant s d.name)
    (wal : next.wal = fun k => if k.1 = d.name then ∅ else s.wal k)
    (stores : next.stores = s.stores) (histories : next.histories = s.histories)
    (actors : next.actors = s.actors) : Upheld env s next := by
  have elsewhere {key : Key Name} (other : key.1 ≠ d.name) : next.wal key = s.wal key := by
    rw [wal]
    exact if_neg other
  refine ⟨?_, ?_, ?_⟩
  · intro key
    by_cases here : key.1 = d.name
    · rw [wal]
      simp only [here, if_true]
      exact tidy_empty
    · rw [elsewhere here]
      exact inv.tidy key
  · intro i a there busy
    rw [actors] at there
    have other : a.key.1 ≠ d.name := fun here =>
      busy (vacant.2 a (List.mem_of_getElem? there) here)
    rw [slot_frame (elsewhere other) (by rw [stores]) (by rw [histories])]
    exact inv.running i a there busy
  · intro key uuid tenant
    have other : key.1 ≠ d.name := by
      intro here
      rcases tenant with ⟨e, known, name, _⟩ | ⟨task, there, job, waiting, rfl, _⟩
      · exact inv.separated.torn e known ⟨_, member, congrArg some (name.trans here).symm⟩
      · exact vacant.1 task there job (task.pending_sublist.subset waiting) here
    exact (inv.held key uuid tenant).frame (elsewhere other) (by rw [stores]) (by rw [histories])

omit [DecidableEq Name] in
/-- A sweep deletes the objects of a dead UUID. -/
theorem Safe.sweep (inv : Safe env s) {uuid p : Nat} (member : .sweeping uuid (p + 1) ∈ s.tasks)
    (wal : next.wal = s.wal) (stores : next.stores = Function.update s.stores (uuid, p) emptyStore)
    (histories : next.histories = s.histories) (actors : next.actors = s.actors) :
    Upheld env s next := by
  have dead : Dead s uuid := inv.separated.erasing _ member _ rfl
  have elsewhere {slot : Nat × Nat} (other : slot.1 ≠ uuid) : next.stores slot = s.stores slot := by
    rw [stores]
    exact Function.update_of_ne (fun same => other (congrArg Prod.fst same)) _ _
  refine ⟨wal ▸ inv.tidy, ?_, ?_⟩
  · intro i a there busy
    rw [actors] at there
    have other : a.uuid ≠ uuid := fun same =>
      busy (dead.actors a (List.mem_of_getElem? there) same)
    rw [slot_frame (by rw [wal]) (elsewhere other) (by rw [histories])]
    exact inv.running i a there busy
  · intro key owner tenant
    have other : owner ≠ uuid := by
      rcases tenant with ⟨e, known, _, rfl⟩ | ⟨task, there, job, waiting, _, rfl⟩
      · exact dead.retired.2 e known
      · exact dead.jobs task there job (task.pending_sublist.subset waiting)
    exact (inv.held key owner tenant).frame (by rw [wal]) (elsewhere other) (by rw [histories])

/-- A crash tears at most the append its own writer was at. -/
theorem Safe.crashed (inv : Safe env s) (cut : Nat → Nat) : Upheld env s (crashed env cut s) := by
  have exclusive := inv.separated.exclusive
  -- the state a running writer's partition is left in
  have torn (i : Nat) (a : Actor Name) (found : s.actors[i]? = some a) (busy : ¬a.stopped) :
      Durable env.crc32c ((Broker.crashed env cut s).wal a.key)
        (s.stores (a.uuid, a.key.2)).manifest
        (Stored (s.stores (a.uuid, a.key.2)) (s.histories (a.uuid, a.key.2)).evicted)
        (s.histories (a.uuid, a.key.2)).acked := by
    have alone : ∀ j b, s.actors[j]? = some b → j ≠ i → b.key = a.key → b.stopped :=
      fun j b there other same => ((exclusive.apart j i b a there found other same).2).resolve_right busy
    have taken : Partition.step env (.crash (cut i)) (s.slot a) = some _ := rfl
    have admits : Partition.Admits .any (s.slot a) (.crash (cut i)) := trivial
    have stepped := (inv.running i a found busy).step admits taken
    rw [crashed_wal_running found alone rfl]
    exact stepped.valid.durable
  have whole {key : Key Name}
      (quiet : ¬∃ (i : Nat) (a : Actor Name), s.actors[i]? = some a ∧ a.key = key ∧ ¬a.stopped) :
      (Broker.crashed env cut s).wal key = s.wal key := by
    apply crashed_wal
    intro a present same
    by_contra running
    obtain ⟨i, found⟩ := List.getElem?_of_mem present
    exact quiet ⟨i, a, found, same, running⟩
  refine ⟨?_, ?_, ?_⟩
  · intro key
    by_cases busy : ∃ (i : Nat) (a : Actor Name), s.actors[i]? = some a ∧ a.key = key ∧ ¬a.stopped
    · obtain ⟨i, a, found, rfl, running⟩ := busy
      exact tidy_of_durable (torn i a found running)
    · rw [whole busy]
      exact inv.tidy key
  · intro i a there
    cases there
  · intro key uuid tenant
    simp only [Held, crashed_stores, crashed_histories]
    by_cases busy : ∃ (i : Nat) (a : Actor Name), s.actors[i]? = some a ∧ a.key = key ∧ ¬a.stopped
    · obtain ⟨i, a, found, rfl, running⟩ := busy
      rw [← tenant.actor_uuid exclusive inv.separated.current (List.mem_of_getElem? found) running]
      exact torn i a found running
    · rw [whole busy]
      exact inv.held key uuid tenant

/-- A produce brings records that fit their wire frame. -/
def Fitting : Action Name → Prop
  | .actor _ (.produce records _) => Partition.Framed records
  | _ => True

theorem Safe.upheld (inv : Safe env s) (meets : Secluded s action) (fitting : Fitting action)
    (effect : Effect env s action next) : Upheld env s next := by
  cases effect.disk with
  | same wal stores histories actors =>
    refine ⟨wal ▸ inv.tidy, ?_, ?_⟩
    · intro i a' there busy
      obtain ⟨a, before, key, uuid, live⟩ := actors i a' there
      have same : next.slot a' = s.slot a := by
        simp only [State.slot, key, uuid, live, wal, stores, histories]
      rw [same]
      exact inv.running i a before fun stopped => busy (by rwa [Actor.stopped, live])
    · intro key uuid tenant
      exact (inv.held key uuid tenant).frame (by rw [wal]) (by rw [stores]) (by rw [histories])
  | @acts id move a p live found taken alive chosen moved =>
    by_cases stopped : a.stopped
    · exact inv.acts_stopped found taken alive moved stopped
    · apply inv.acts_running found taken alive moved stopped
      cases move with
      | produce records now =>
        rw [chosen records now rfl] at fitting
        exact fitting
      | enqueue msg => cases msg <;> trivial
      | start => exact ⟨trivial, trivial⟩
      | interrupt | sendOrphan | openWriter | commitTimeout | updateWriter | segmentDurable
      | shutdownWriter | writer | uploader | crash => trivial
  | recover found started spawned wal stores histories actors =>
    exact inv.recover found started spawned wal stores histories actors
  | removeWal member removed wal stores histories actors =>
    exact inv.removeWal member (meets.2 _ removed) wal stores histories actors
  | sweep member wal stores histories actors => exact inv.sweep member wal stores histories actors
  | crash cut after =>
    subst after
    exact inv.crashed cut

/-- Nothing is stored or acknowledged under a UUID before it is given out. -/
theorem Safe.unborn_step (inv : Safe env s) (effect : Effect env s action next) (slot : Nat × Nat)
    (future : next.incarnations.length ≤ slot.1) :
    next.stores slot = emptyStore ∧ (next.histories slot).acked = [] := by
  have unmade := Nat.le_trans effect.incarnations future
  have before := inv.unborn slot unmade
  cases effect.disk with
  | same _ stores histories _ | recover _ _ _ _ stores histories _
  | removeWal _ _ _ stores histories _ =>
    rw [stores, histories]
    exact before
  | @acts id move a p live found _ _ _ moved =>
    have made := inv.separated.exclusive.owned.actors a (List.mem_of_getElem? found)
    have other : slot ≠ (a.uuid, a.key.2) := by
      rintro rfl
      exact absurd (List.getElem?_eq_some_iff.mp made).1 (Nat.not_lt.mpr unmade)
    rw [moved.stores, moved.histories, Function.update_of_ne other, Function.update_of_ne other]
    exact before
  | @sweep uuid p member _ stores histories _ =>
    have dead : Dead s uuid := inv.separated.erasing _ member _ rfl
    have other : slot ≠ (uuid, p) := by
      rintro rfl
      exact absurd dead.retired.1 (Nat.not_lt.mpr unmade)
    rw [stores, histories, Function.update_of_ne other]
    exact before
  | crash cut after =>
    subst after
    rw [crashed_stores, (crashed_histories slot).1]
    exact before

theorem Safe.step (inv : Safe env s) (meets : Secluded s action) (fitting : Fitting action)
    (effect : Effect env s action next) : Safe env next := by
  have upheld := inv.upheld meets fitting effect
  refine ⟨inv.separated.step meets effect, upheld.tidy, upheld.running, ?_, inv.unborn_step effect⟩
  intro key uuid tenant
  rcases tenant.before effect with old | ⟨_, rfl, wal, stores, histories⟩
  · exact upheld.held key uuid old
  · -- a new incarnation has acknowledged nothing, and what it finds on disk is fit to recover
    obtain ⟨empty, none⟩ := inv.unborn (_, key.2) (Nat.le_refl _)
    simp only [Held, wal, stores, histories, empty, none]
    exact (inv.tidy key).durable _

omit [DecidableEq Name] in
theorem safe_fresh : Safe env (fresh : State Name) where
  separated := separated_fresh
  tidy := fun _ => tidy_empty
  running := by simp [fresh]
  held := fun _ _ _ => fresh_durable _ _
  unborn := fun _ _ => ⟨rfl, rfl⟩

end Durable
end Kafkrs.Broker
