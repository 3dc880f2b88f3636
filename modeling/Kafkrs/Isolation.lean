import Kafkrs.Tenancy

/-! No step of a delete or of a retired incarnation reaches the files, objects or handles of
a registered topic, and every record acknowledged under its UUID stays durable. -/
namespace Kafkrs.Broker

open Lib

section Reach

variable {Name : Type} [DecidableEq Name] {env : Partition.Externals} {s next : State Name}
  {action : Action Name} {e : TopicEntry Name}

def Task.deletes : Task Name → Bool
  | .deleting _ _ | .sweeping _ _ => true
  | _ => false

/-- Steps of deletes, and of actors that work for another incarnation. -/
def Foreign (s : State Name) (e : TopicEntry Name) : Action Name → Prop
  | .task id | .timeout id | .abort id => ∃ task, s.tasks[id]? = some task ∧ task.deletes = true
  | .actor id _ => ∃ a, s.actors[id]? = some a ∧ a.uuid ≠ e.uuid
  | _ => False

/-- The topic keeps its files, its objects, its handles and its actors. -/
structure Untouched (s next : State Name) (e : TopicEntry Name) : Prop where
  wal : ∀ p, next.wal (e.name, p) = s.wal (e.name, p)
  objects : ∀ p, next.stores (e.uuid, p) = s.stores (e.uuid, p)
  handles : ∀ p, next.partitions (e.name, p) = s.partitions (e.name, p)
  actors : ∀ (i : Nat) a, s.actors[i]? = some a → a.uuid = e.uuid → next.actors[i]? = some a

theorem Separated.untouched_acts (inv : Separated s) {id : Nat} {move : Partition.Action}
    {a : Actor Name} (acts : Acts env s id move next) (found : s.actors[id]? = some a)
    (foreign : a.uuid ≠ e.uuid) (member : e ∈ s.registry) : Untouched s next e := by
  cases acts with
  | @intro b p live here taken alive =>
    obtain rfl := Option.some.inj (found.symm.trans here)
    refine ⟨fun q => ?_, fun q => ?_, fun _ => rfl, fun i b there same => ?_⟩
    · by_cases onto : (e.name, q) = a.key
      · -- a writer still running under this name would be the entry's own
        have stopped : a.stopped := by
          by_contra running
          exact foreign (inv.current.actors e member a (List.mem_of_getElem? found)
            (congrArg Prod.fst onto.symm) running)
        have wal := ((liveStep_move taken alive).gone stopped).2
        simp [State.withSlot, onto, wal, State.slot]
      · exact Function.update_of_ne onto _ _
    · exact Function.update_of_ne (fun onto => foreign (congrArg Prod.fst onto).symm) _ _
    · by_cases self : i = id
      · subst self
        obtain rfl := Option.some.inj (found.symm.trans there)
        exact absurd same foreign
      · exact (Slots.set_other self).trans there

theorem Separated.untouched (inv : Separated s) (effect : Effect env s action next)
    (member : e ∈ s.registry) (foreign : Foreign s e action) : Untouched s next e := by
  have same : Untouched s s e := ⟨fun _ => rfl, fun _ => rfl, fun _ => rfl, fun _ _ found _ => found⟩
  cases effect with
  | shift => exact ⟨same.wal, same.objects, same.handles, same.actors⟩
  | timeout => exact ⟨same.wal, same.objects, same.handles, same.actors⟩
  | abort => exact ⟨same.wal, same.objects, same.handles, same.actors⟩
  | persist => exact ⟨same.wal, same.objects, same.handles, same.actors⟩
  | register found | unregister found | insert found | recover found | sendOrphan found
  | openWriter found =>
    obtain ⟨task, there, deletes⟩ := foreign
    obtain rfl := Option.some.inj (found.symm.trans there)
    cases deletes
  | @removeHandles id d found =>
    refine ⟨same.wal, same.objects, fun p => if_neg ?_, same.actors⟩
    rintro ⟨name, _⟩
    exact inv.torn e member ⟨_, List.mem_of_getElem? found, congrArg some name.symm⟩
  | @stopWriter id p d h handles rest found =>
    refine ⟨same.wal, same.objects, same.handles, fun i a there uuid => ?_⟩
    have holds := inv.custody.tasks _ (List.mem_of_getElem? found)
    obtain ⟨b, at', retired⟩ := holds.2.2 (p, h) (by simp [Teardown.handles])
    have other : i ≠ h.actor := by
      rintro rfl
      obtain rfl := Option.some.inj (at'.symm.trans there)
      exact retired.2 e member uuid.symm
    exact (Slots.modify_other other).trans there
  | @stopUploader id p d h rest _ found acts =>
    have holds := inv.custody.tasks _ (List.mem_of_getElem? found)
    obtain ⟨b, at', retired⟩ := holds.2.2 (p, h) (by simp [Teardown.handles])
    have after := inv.untouched_acts acts at' (Ne.symm (retired.2 e member)) member
    exact ⟨after.wal, after.objects, after.handles, after.actors⟩
  | @removeWal id d found =>
    refine ⟨fun p => if_neg fun name => ?_, same.objects, same.handles, same.actors⟩
    exact inv.torn e member ⟨_, List.mem_of_getElem? found, congrArg some name.symm⟩
  | @sweep id uuid p found =>
    have dead : Dead s uuid := inv.erasing _ (List.mem_of_getElem? found) _ rfl
    refine ⟨same.wal, fun q => Function.update_of_ne ?_ _ _, same.handles, same.actors⟩
    exact fun onto => dead.retired.2 e member (congrArg Prod.fst onto)
  | actor _ _ acts =>
    obtain ⟨a, found, other⟩ := foreign
    exact inv.untouched_acts acts found other member
  | submit | crash | boot => exact foreign.elim

end Reach

section Main

variable {Name : Type} [DecidableEq Name]

instance : DecidablePred (@Fitting Name)
  | .actor _ (.produce records _) => inferInstanceAs (Decidable (Partition.Framed records))
  | .actor _ (.start _) | .actor _ (.interrupt _) | .actor _ .sendOrphan | .actor _ .openWriter
  | .actor _ .commitTimeout | .actor _ (.updateWriter _) | .actor _ .segmentDurable
  | .actor _ .shutdownWriter | .actor _ .writer | .actor _ (.enqueue _) | .actor _ (.uploader _)
  | .actor _ (.crash _) | .submit _ | .task _ | .timeout _ | .abort _ | .fail _ | .crash _ | .boot =>
    .isTrue trivial

/-- Creates and WAL removals find their topic as they should, and produces fit their frame. -/
def Admissible (s : State Name) (action : Action Name) : Prop := Secluded s action ∧ Fitting action

instance (s : State Name) (action : Action Name) : Decidable (Admissible s action) :=
  inferInstanceAs (Decidable (_ ∧ _))

theorem reached_safe {env : Partition.Externals} {s : State Name}
    (reached : (machine env Name).Reaches Admissible s) : Safe env s := by
  apply reached.invariant safe_fresh
  intro s action next inv meets taken
  exact inv.step meets.1 meets.2 (effect_of_step taken)

/-- In every admissible run, every record acknowledged under a registered incarnation is on
disk or evicted by retention, and no step of a delete or of another incarnation's actors
touches its files, objects, handles or actors. -/
theorem acked_isolated (env : Partition.Externals) {s : State Name}
    (reached : (machine env Name).Reaches Admissible s) {e : TopicEntry Name}
    (member : e ∈ s.registry) :
    (∀ p, ∀ r ∈ (s.histories (e.uuid, p)).acked, r ∈ (s.histories (e.uuid, p)).evicted ∨
      Durability.Kept (s.stores (e.uuid, p)) (Recovery.recoverPartition env.crc32c
        (s.stores (e.uuid, p)).manifest (s.wal (e.name, p))).2 r) ∧
    ∀ action next, step env action s = some next → Foreign s e action → Untouched s next e := by
  have safe := reached_safe reached
  constructor
  · intro p r acked
    have held := safe.held (e.name, p) e.uuid (.inl ⟨e, member, rfl, rfl⟩)
    exact Durability.durable_kept held acked
  · intro action next taken foreign
    exact safe.separated.untouched (effect_of_step taken) member foreign

end Main

section Samples

open Kafkrs.Partition (externals settings sample)

/-- The new incarnation commits a record while the sweep of the old one is still to come. -/
def isolated : List (Action String) :=
  recreated ++ [.actor 1 (.produce [sample 2] fun _ => 0), .actor 1 .writer]

theorem acked_isolated_recreated : ∃ s e next,
    (machine externals String).execute isolated fresh = some s ∧ e ∈ s.registry ∧
      (s.histories (e.uuid, 0)).acked.length = 1 ∧ step externals (.task 3) s = some next ∧
      Foreign s e (.task 3) ∧
      (∀ r ∈ (s.histories (e.uuid, 0)).acked, r ∈ (s.histories (e.uuid, 0)).evicted ∨
        Durability.Kept (s.stores (e.uuid, 0)) (Recovery.recoverPartition externals.crc32c
          (s.stores (e.uuid, 0)).manifest (s.wal (e.name, 0))).2 r) ∧
      Untouched s next e := by
  have runs : ((machine externals String).execute isolated fresh).any (fun s =>
      s.registry.any (fun e => (s.histories (e.uuid, 0)).acked.length == 1) &&
        (s.tasks[3]?.any Task.deletes && (step externals (.task 3) s).isSome)) = true := by
    decide +kernel
  have along : (machine externals String).Along Admissible isolated fresh := by decide +kernel
  obtain ⟨s, ran, facts⟩ := Option.any_eq_true _ _ |>.mp runs
  simp only [Bool.and_eq_true, List.any_eq_true, beq_iff_eq] at facts
  obtain ⟨⟨e, member, one⟩, sweeping, enabled⟩ := facts
  obtain ⟨next, taken⟩ := Option.isSome_iff_exists.mp enabled
  have foreign : Foreign s e (.task 3) := Option.any_eq_true _ _ |>.mp sweeping
  have safe := acked_isolated externals ⟨isolated, along, ran⟩ member
  exact ⟨s, e, next, ran, member, one, taken, foreign, safe.1 0, safe.2 _ next taken foreign⟩

/-- The topic is created again while its delete waits for the old uploader; the delete goes on
to remove the WAL directory after the new incarnation has acknowledged a record. -/
def clobbered : List (Action String) :=
  createA ++ [.submit (.delete "a" true), .task 2, .task 2, .task 2, .actor 0 .shutdownWriter] ++
    List.replicate 2 (.actor 0 .writer) ++ [.task 2, .task 2, .task 2] ++
    [.submit (.create "a" 1 settings)] ++ List.replicate 8 (.task 3) ++
    [.actor 1 (.produce [sample 2] fun _ => 0), .actor 1 .writer] ++
    [.actor 0 (.uploader 0)] ++ List.replicate 4 (.task 2)

theorem clobbered_loses : ∃ s e r,
    (machine externals String).execute clobbered fresh = some s ∧ e ∈ s.registry ∧
      r ∈ (s.histories (e.uuid, 0)).acked ∧ ¬(r ∈ (s.histories (e.uuid, 0)).evicted ∨
        Durability.Kept (s.stores (e.uuid, 0)) (Recovery.recoverPartition externals.crc32c
          (s.stores (e.uuid, 0)).manifest (s.wal (e.name, 0))).2 r) := by
  have runs : ((machine externals String).execute clobbered fresh).any (fun s =>
      s.registry.any (fun e =>
        let recovery := (Recovery.recoverPartition externals.crc32c
          (s.stores (e.uuid, 0)).manifest (s.wal (e.name, 0))).2
        (s.histories (e.uuid, 0)).acked.any (fun _ => true) &&
          ((s.histories (e.uuid, 0)).evicted == [] &&
            ((s.stores (e.uuid, 0)).manifest.segments.isEmpty &&
              (recovery.orphanSegments.isEmpty && recovery.activeRecords.isEmpty))))) = true := by
    decide +kernel
  obtain ⟨s, ran, facts⟩ := Option.any_eq_true _ _ |>.mp runs
  simp only [List.any_eq_true, Bool.and_eq_true, beq_iff_eq, List.isEmpty_iff] at facts
  obtain ⟨e, member, ⟨r, acked, _⟩, evicted, segments, orphans, active⟩ := facts
  refine ⟨s, e, r, ran, member, acked, ?_⟩
  rintro (gone | kept)
  · simp [evicted] at gone
  · cases kept with
    | listed seg records entry => simp [segments] at entry
    | orphan segment entry => simp [orphans] at entry
    | active inside => simp [active] at inside

end Samples
end Kafkrs.Broker
