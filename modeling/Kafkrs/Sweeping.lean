import Kafkrs.Deletion

/-! What is left of a deleted incarnation: after a sweep has removed its record, nothing; before
that, always something that a restart acts on. -/
namespace Kafkrs.Deletion

open Lib

section States

variable {n : Nat}

/-- No writer of the incarnation is running, and none is about to be spawned. -/
def Still (s : State n) : Prop := s.jobs = [] ∧ ∀ p, (s.slots p).WriterGone

def NoObjects (s : State n) : Prop := ∀ key, ¬ s.Holds key

def NoWal (s : State n) : Prop := ∀ p, (s.slots p).wal = ∅

/-- A sweep is past its LIST, or has removed the record. -/
def State.listed (s : State n) : Bool :=
  !s.removals.isEmpty ||
    match s.sweep with
    | some ⟨.orphans _, _⟩ => true
    | _ => false

def Teardown.cleaned : Teardown n → Bool
  | .snapshot _ _ | .persist _ => true
  | _ => false

/-- No PUT of an uploader takes effect after the LIST, and no delete of a listed key fails. -/
def Tidy (s : State n) : Action n → Prop
  | .uploader p _ outcome =>
    s.listed = true → outcome.applied = true → (s.slots p).puts = false
  | .sweep outcome =>
    match s.sweep with
    | some ⟨.orphans (_ :: _), _⟩ => outcome = .ok
    | _ => True
  | _ => True

/-- The delete is not cut short between the registry step and its record, its WAL removal
succeeds with the writers gone, its record is written, and the sweep is tidy. -/
def Orderly (s : State n) : Action n → Prop
  | .teardown outcome =>
    match s.delete with
    | some .removeWal => outcome = .ok ∧ Still s
    | some (.persist _) => outcome = .ok
    | _ => True
  | .abort | .crash _ => s.delete = none
  | action => Tidy s action

instance (s : State n) : Decidable (Still s) :=
  inferInstanceAs (Decidable (s.jobs = [] ∧ ∀ p, (s.slots p).WriterGone))

instance (s : State n) : DecidablePred (Tidy s)
  | .uploader p _ outcome =>
    inferInstanceAs (Decidable (s.listed = true → outcome.applied = true → (s.slots p).puts = false))
  | .sweep outcome =>
    match found : s.sweep with
    | some ⟨.orphans (_ :: _), _⟩ => decidable_of_iff (outcome = .ok) (by simp [Tidy, found])
    | none | some ⟨.snapshot _, _⟩ | some ⟨.orphans [], _⟩ => .isTrue (by simp [Tidy, found])
  | .spawn _ | .abortSpawn | .actor _ _ | .delete | .teardown _ | .timeout | .abort | .listError
  | .crash _ | .boot => .isTrue trivial

instance (s : State n) : DecidablePred (Orderly s)
  | .teardown outcome =>
    match found : s.delete with
    | some .removeWal => decidable_of_iff (outcome = .ok ∧ Still s) (by simp [Orderly, found])
    | some (.persist _) => decidable_of_iff (outcome = .ok) (by simp [Orderly, found])
    | none | some .removeHandles | some (.stopWriters _ _ _) | some (.stopUploaders _ _)
    | some (.snapshot _ _) => .isTrue (by simp [Orderly, found])
  | .abort | .crash _ => inferInstanceAs (Decidable (s.delete = none))
  | .uploader p now outcome => inferInstanceAs (Decidable (Tidy s (.uploader p now outcome)))
  | .sweep outcome => inferInstanceAs (Decidable (Tidy s (.sweep outcome)))
  | .spawn _ | .abortSpawn | .actor _ _ | .delete | .timeout | .listError | .boot => .isTrue trivial

/-- Steps of spawns, of the actors and of a delete in progress: no record changes, and of the
objects and WAL files only what running actors change. -/
structure Calm (s next : State n) : Prop where
  registered : next.registered = s.registered
  pending : next.pending = s.pending
  sweep : next.sweep = s.sweep
  removals : next.removals = s.removals
  objects : s.listed = true → ∀ p, Shrinks (s.slots p) (next.slots p)
  jobs : s.jobs = [] → next.jobs = []
  wal : s.jobs = [] → ∀ p, Settled (s.slots p) (next.slots p)

variable {env : Partition.Externals} {s next : State n}

theorem Settled.refl (x : Slot) : Settled x x := .of_same rfl (.inl rfl)

/-- What holds of the slot that changes and of slots that do not. -/
theorem update_slot {R : Slot → Slot → Prop} (refl : ∀ x, R x x) {q : Fin n} {y : Slot}
    (changed : R (s.slots q) y) (p : Fin n) : R (s.slots p) (Function.update s.slots q y p) := by
  by_cases here : p = q
  · subst here
    simpa using changed
  · simpa [here] using refl _

theorem holds_of_shrinks (shrinks : ∀ p, Shrinks (s.slots p) (next.slots p)) {key : Key n}
    (held : next.Holds key) : s.Holds key := by
  cases key with
  | segment p base => exact (shrinks p).objects base held
  | manifest p => exact (shrinks p).manifest held

/-- A step of the actors or of the delete that is given by what it does to the slots. -/
theorem Calm.moved {slots : Fin n → Slot} {delete : Option (Teardown n)}
    (objects : s.listed = true → ∀ p, Shrinks (s.slots p) (slots p))
    (wal : ∀ p, Settled (s.slots p) (slots p)) :
    Calm s { s with slots := slots, delete := delete } :=
  ⟨rfl, rfl, rfl, rfl, objects, id, fun _ => wal⟩

theorem Calm.still (calm : Calm s next) (still : Still s) : Still next :=
  ⟨calm.jobs still.1, fun p => (calm.wal still.1 p (still.2 p)).1⟩

theorem Calm.noWal (calm : Calm s next) (still : Still s) (none : NoWal s) : NoWal next := by
  intro p
  rcases (calm.wal still.1 p (still.2 p)).2 with same | empty
  · exact same.trans (none p)
  · exact empty

theorem spawn_calm {cfg : ResolvedTopicConfig} (taken : step env (.spawn cfg) s = some next) :
    Calm s next ∧ next.delete = s.delete := by
  cases jobs : s.jobs with
  | nil => simp [step, jobs] at taken
  | cons p rest =>
    have busy {P : Prop} (none : s.jobs = []) : P := by simp [jobs] at none
    simp only [step, jobs] at taken
    split at taken
    · cases taken
      exact ⟨⟨rfl, rfl, rfl, rfl, fun _ _ => .refl _, busy, busy⟩, rfl⟩
    · split at taken
      next y spawned =>
        cases taken
        exact ⟨⟨rfl, rfl, rfl, rfl, fun _ => update_slot Shrinks.refl (spawn_shrinks spawned),
          busy, busy⟩, rfl⟩
      next =>
        split at taken
        · cases taken
          refine ⟨⟨rfl, rfl, rfl, rfl, fun _ => update_slot Shrinks.refl ?_, busy, busy⟩, rfl⟩
          exact .of_same rfl rfl
        · cases taken

theorem abortSpawn_calm (taken : step env .abortSpawn s = some next) :
    Calm s next ∧ next.delete = s.delete := by
  cases taken
  exact ⟨⟨rfl, rfl, rfl, rfl, fun _ _ => .refl _, fun _ => rfl, fun _ _ => .refl _⟩, rfl⟩

theorem actor_calm {p : Fin n} {move : Partition.Action}
    (taken : step env (.actor p move) s = some next) : Calm s next ∧ next.delete = s.delete := by
  simp only [step] at taken
  split at taken
  next outside =>
    obtain ⟨y, moved, rfl⟩ := Option.map_eq_some_iff.mp taken
    have uncut : ∀ cut, move ≠ .crash cut := by
      rintro cut rfl
      cases outside
    refine ⟨.moved ?_ ?_, rfl⟩
    · exact fun _ => update_slot Shrinks.refl (move_shrinks moved)
    · exact update_slot Settled.refl (move_settled uncut moved)
  next => cases taken

theorem uploader_calm {p : Fin n} {now : Int} {outcome : Outcome}
    (tidy : Tidy s (.uploader p now outcome))
    (taken : step env (.uploader p now outcome) s = some next) :
    Calm s next ∧ next.delete = s.delete := by
  obtain ⟨y, called, rfl⟩ := Option.map_eq_some_iff.mp taken
  refine ⟨.moved ?_ ?_, rfl⟩
  · exact fun listed => update_slot Shrinks.refl (upload_shrinks called (tidy listed))
  · exact update_slot Settled.refl (upload_settled called)

/-- A step of a delete before its record is written. -/
theorem teardown_calm {outcome : Outcome} {phase : Teardown n}
    (unrecorded : ∀ manifests, phase ≠ .persist manifests)
    (taken : teardownStep env outcome s phase = some next) :
    Calm s next ∧ ∃ later, next.delete = some later ∧
      (later.cleaned = true → phase.cleaned = true ∨ phase = .removeWal) := by
  have unchanged {delete : Option (Teardown n)} : Calm s { s with delete := delete } :=
    .moved (fun _ _ => .refl _) fun _ => .refl _
  have dirty {P : Prop} {later : Teardown n} (before : later.cleaned = false)
      (after : later.cleaned = true) : P := by
    rw [before] at after
    cases after
  cases phase with
  | removeHandles =>
    cases taken
    refine ⟨.moved ?_ ?_, _, rfl, dirty rfl⟩
    · exact fun _ _ => .of_same rfl rfl
    · exact fun _ => .of_same rfl (.inl rfl)
  | stopWriters handles rest sent =>
    rcases rest with _ | ⟨p, rest⟩
    · cases taken
      exact ⟨unchanged, _, rfl, dirty rfl⟩
    · cases sent with
      | false =>
        cases taken
        refine ⟨.moved ?_ ?_, _, rfl, dirty rfl⟩
        · exact fun _ => update_slot Shrinks.refl (.of_same rfl rfl)
        · exact update_slot Settled.refl (.of_same rfl (.inl rfl))
      | true =>
        simp only [teardownStep] at taken
        split at taken
        · cases taken
          exact ⟨unchanged, _, rfl, dirty rfl⟩
        · cases taken
  | stopUploaders rest sent =>
    rcases rest with _ | ⟨p, rest⟩
    · cases taken
      exact ⟨unchanged, _, rfl, dirty rfl⟩
    · cases sent with
      | false =>
        cases taken
        cases moved : (s.slots p).move env (.enqueue .shutdown) with
        | none =>
          refine ⟨.moved ?_ ?_, _, rfl, dirty rfl⟩
          · exact fun _ => update_slot Shrinks.refl (.refl _)
          · exact update_slot Settled.refl (.refl _)
        | some y =>
          refine ⟨.moved ?_ ?_, _, rfl, dirty rfl⟩
          · exact fun _ => update_slot Shrinks.refl (move_shrinks moved)
          · exact update_slot Settled.refl (move_settled (by simp) moved)
      | true =>
        simp only [teardownStep] at taken
        split at taken
        · cases taken
          exact ⟨unchanged, _, rfl, dirty rfl⟩
        · cases taken
  | removeWal =>
    cases taken
    refine ⟨.moved ?_ ?_, _, rfl, fun _ => .inr rfl⟩
    · intro _ p
      split
      · exact .of_same rfl rfl
      · exact .refl _
    · intro p
      split
      · exact .of_same rfl (.inr rfl)
      · exact .refl _
  | snapshot manifests rest =>
    rcases rest with _ | ⟨p, rest⟩
    all_goals
      cases taken
      exact ⟨unchanged, _, rfl, fun _ => .inl rfl⟩
  | persist manifests => exact absurd rfl (unrecorded manifests)

/-- The step after a shutdown ack that never came. -/
theorem timeout_calm {phase : Teardown n} (taken : timeoutStep s phase = some next) :
    Calm s next ∧ ∃ later, next.delete = some later ∧ later.cleaned = false := by
  simp only [timeoutStep] at taken
  split at taken
  all_goals cases taken
  all_goals exact ⟨.moved (fun _ _ => .refl _) fun _ => .refl _, _, rfl, rfl⟩

/-- What a LIST returns, and what the keys it returned stand for. -/
theorem mem_list {key : Key n} : key ∈ s.list ↔ s.Holds key := by
  cases key with
  | segment p base => simp [State.list, State.Holds]
  | manifest p =>
    simp only [State.list, State.Holds, List.mem_flatMap, List.mem_finRange, true_and]
    constructor
    · rintro ⟨q, member⟩
      rcases List.mem_append.mp member with segment | manifest
      · simp at segment
      · split at manifest
        next present =>
          cases List.mem_singleton.mp manifest
          exact present
        next => cases manifest
    · intro present
      exact ⟨p, by simp [present]⟩

theorem holds_deleteObject {key other : Key n} (held : (s.deleteObject key).Holds other) :
    s.Holds other ∧ other ≠ key := by
  cases key with
  | segment p base =>
    cases other with
    | segment q at' =>
      by_cases here : q = p
      · subst here
        have kept : (if base = at' then none else (s.slots q).objects[at']?).isSome = true := by
          simpa [State.Holds, State.deleteObject, State.setSlot, Slot.erase] using held
        split at kept
        · cases kept
        next apart => exact ⟨kept, by simpa using fun same => apart same.symm⟩
      · exact ⟨by simpa [State.Holds, State.deleteObject, State.setSlot, here] using held,
          by simp [here]⟩
    | manifest q =>
      refine ⟨?_, by simp⟩
      by_cases here : q = p
      · subst here
        simpa [State.Holds, State.deleteObject, State.setSlot, Slot.erase] using held
      · simpa [State.Holds, State.deleteObject, State.setSlot, here] using held
  | manifest p =>
    by_cases here : other = .manifest p
    · subst here
      simp [State.Holds, State.deleteObject, State.setSlot] at held
    · refine ⟨?_, here⟩
      cases other with
      | segment q at' =>
        by_cases same : q = p
        · subst same
          simpa [State.Holds, State.deleteObject, State.setSlot] using held
        · simpa [State.Holds, State.deleteObject, State.setSlot, same] using held
      | manifest q =>
        have apart : q ≠ p := fun same => here (same ▸ rfl)
        simpa [State.Holds, State.deleteObject, State.setSlot, apart] using held

/-- After its LIST a sweep has every object that is left among its keys; after the removal of
the record there is none. -/
structure Swept (s : State n) : Prop where
  listed : ∀ rest failed, s.sweep = some ⟨.orphans rest, failed⟩ →
    failed = false ∧ ∀ key, s.Holds key → key ∈ rest
  started : ∀ rest failed, s.sweep = some ⟨.snapshot rest, failed⟩ → failed = false
  cleared : s.removals ≠ [] → NoObjects s
  honest : ∀ failed ∈ s.removals, failed = false

theorem listed_of_removals (removed : s.removals ≠ []) : s.listed = true := by
  simp [State.listed, removed]

theorem listed_of_orphans {rest : List (Key n)} {failed : Bool}
    (found : s.sweep = some ⟨.orphans rest, failed⟩) : s.listed = true := by
  simp [State.listed, found]

theorem Swept.calm (swept : Swept s) (calm : Calm s next) : Swept next := by
  constructor
  · intro rest failed found
    rw [calm.sweep] at found
    have before := swept.listed rest failed found
    refine ⟨before.1, fun key held => before.2 key ?_⟩
    exact holds_of_shrinks (calm.objects (listed_of_orphans found)) held
  · intro rest failed found
    rw [calm.sweep] at found
    exact swept.started rest failed found
  · intro removed key held
    rw [calm.removals] at removed
    exact swept.cleared removed key (holds_of_shrinks (calm.objects (listed_of_removals removed)) held)
  · intro failed member
    rw [calm.removals] at member
    exact swept.honest failed member

/-- No sweep, and no object that was not there. -/
theorem Swept.unswept (swept : Swept s) (sweep : next.sweep = none)
    (removals : next.removals = s.removals)
    (shrinks : ∀ p, Shrinks (s.slots p) (next.slots p)) : Swept next := by
  constructor
  · intro rest failed found
    simp [sweep] at found
  · intro rest failed found
    simp [sweep] at found
  · intro removed key held
    exact swept.cleared (removals ▸ removed) key (holds_of_shrinks shrinks held)
  · intro failed member
    exact swept.honest failed (removals ▸ member)

/-- A sweep from its beginning. -/
theorem Swept.begun (swept : Swept s) {manifests : Snapshot n} (slots : next.slots = s.slots)
    (removals : next.removals = s.removals) (sweep : next.sweep = some (.start manifests)) :
    Swept next := by
  constructor
  · intro rest failed found
    simp [sweep, Sweep.start] at found
  · intro rest failed found
    rw [sweep] at found
    cases found
    rfl
  · intro removed key held
    refine swept.cleared (removals ▸ removed) key (holds_of_shrinks (fun p => ?_) held)
    rw [slots]
    exact .refl _
  · intro failed member
    exact swept.honest failed (removals ▸ member)

theorem deleteObject_removals (key : Key n) : (s.deleteObject key).removals = s.removals := by
  cases key <;> rfl

/-- A call of the sweep that may delete a key, and what the sweep goes on with. -/
theorem Swept.call (swept : Swept s) {key : Key n} {outcome : Outcome} {sweep : Option (Sweep n)}
    (orphans : ∀ rest failed, sweep = some ⟨.orphans rest, failed⟩ → failed = false ∧
      ∀ other, s.Holds other → other ∈ rest ∨ (other = key ∧ outcome.applied = true))
    (snapshot : ∀ rest failed, sweep = some ⟨.snapshot rest, failed⟩ → failed = false) :
    Swept { (if outcome.applied then s.deleteObject key else s) with sweep := sweep } := by
  have fewer (other : Key n)
      (held : State.Holds { (if outcome.applied then s.deleteObject key else s) with sweep := sweep } other) :
      s.Holds other ∧ (outcome.applied = true → other ≠ key) := by
    cases applied : outcome.applied with
    | false =>
      simp only [applied] at held
      exact ⟨by cases other <;> exact held, by simp⟩
    | true =>
      simp only [applied] at held
      have gone : s.Holds other ∧ other ≠ key := holds_deleteObject (by cases other <;> exact held)
      exact ⟨gone.1, fun _ => gone.2⟩
  have removals : (if outcome.applied then s.deleteObject key else s).removals = s.removals := by
    split
    · exact deleteObject_removals key
    · rfl
  constructor
  · intro rest failed found
    obtain ⟨fine, every⟩ := orphans rest failed found
    refine ⟨fine, fun other held => ?_⟩
    have before := fewer other held
    rcases every other before.1 with later | ⟨same, applied⟩
    · exact later
    · exact absurd same (before.2 applied)
  · exact snapshot
  · intro removed other held
    exact swept.cleared (removals ▸ removed) other (fewer other held).1
  · intro failed member
    exact swept.honest failed (removals ▸ member)

/-- The LIST returns every object there is. -/
theorem Swept.list (swept : Swept s) : Swept { s with sweep := some ⟨.orphans s.list, false⟩ } := by
  have kept {key : Key n}
      (held : State.Holds { s with sweep := some ⟨.orphans s.list, false⟩ } key) : s.Holds key := by
    cases key <;> exact held
  constructor
  · intro rest failed same
    cases same
    exact ⟨rfl, fun key held => mem_list.mpr (kept held)⟩
  · intro rest failed same
    cases same
  · intro removed key held
    exact swept.cleared removed key (kept held)
  · exact swept.honest

/-- The record is removed when nothing is left. -/
theorem Swept.remove (swept : Swept s) (empty : NoObjects s) :
    Swept { s with pending := none, sweep := none, removals := s.removals ++ [false] } := by
  constructor
  · intro rest failed same
    cases same
  · intro rest failed same
    cases same
  · intro _ key held
    exact empty key (by cases key <;> exact held)
  · intro failed member
    rcases List.mem_append.mp member with old | new
    · exact swept.honest failed old
    · exact List.mem_singleton.mp new

theorem Swept.sweepStep {outcome : Outcome} (swept : Swept s) {sweep : Sweep n}
    (found : s.sweep = some sweep) (tidy : Tidy s (.sweep outcome)) :
    Swept (sweepStep outcome s sweep) := by
  obtain ⟨phase, failed⟩ := sweep
  cases phase with
  | snapshot rest =>
    obtain rfl := swept.started rest failed found
    cases rest with
    | nil =>
      by_cases ok : outcome = .ok
      · simp only [Deletion.sweepStep, if_pos ok]
        exact swept.list
      · simp only [Deletion.sweepStep, if_neg ok]
        exact swept.unswept rfl rfl fun p => .refl _
    | cons key rest =>
      apply swept.call
      · intro rest' failed' same
        split at same <;> simp at same
      · intro rest' failed' same
        split at same
        · cases same
          rfl
        · cases same
  | orphans rest =>
    obtain ⟨rfl, every⟩ := swept.listed rest failed found
    cases rest with
    | nil =>
      have empty : NoObjects s := by
        intro key held
        simpa using every key held
      by_cases ok : outcome = .ok
      · simp only [Deletion.sweepStep, if_pos ok]
        exact swept.remove empty
      · simp only [Deletion.sweepStep, if_neg ok]
        exact swept.unswept rfl rfl fun p => .refl _
    | cons key rest =>
      have done : outcome = .ok := by simpa [Tidy, found] using tidy
      apply swept.call
      · intro rest' failed' same
        cases same
        refine ⟨by simp [done], fun other held => ?_⟩
        rcases List.mem_cons.mp (every other held) with here | later
        · exact .inr ⟨here, by simp [done, Outcome.applied]⟩
        · exact .inl later
      · intro rest' failed' same
        cases same

/-- One step of any kind, the guard bearing on uploads and sweeps. -/
theorem Swept.step {action : Action n} (swept : Swept s) (tidy : Tidy s action)
    (taken : Deletion.step env action s = some next) : Swept next := by
  cases action with
  | spawn cfg => exact swept.calm (spawn_calm taken).1
  | abortSpawn => exact swept.calm (abortSpawn_calm taken).1
  | actor p move => exact swept.calm (actor_calm taken).1
  | uploader p now outcome => exact swept.calm (uploader_calm tidy taken).1
  | delete =>
    simp only [Deletion.step] at taken
    split at taken
    · cases taken
      exact ⟨swept.listed, swept.started, swept.cleared, swept.honest⟩
    · cases taken
  | teardown outcome =>
    obtain ⟨phase, found, taken⟩ := Option.bind_eq_some_iff.mp taken
    by_cases recorded : ∃ manifests, phase = .persist manifests
    · obtain ⟨manifests, rfl⟩ := recorded
      simp only [teardownStep] at taken
      split at taken
      · cases taken
        exact swept.begun rfl rfl rfl
      · cases taken
        exact ⟨swept.listed, swept.started, swept.cleared, swept.honest⟩
    · exact swept.calm (teardown_calm (fun m same => recorded ⟨m, same⟩) taken).1
  | timeout =>
    obtain ⟨phase, found, taken⟩ := Option.bind_eq_some_iff.mp taken
    exact swept.calm (timeout_calm taken).1
  | abort =>
    obtain ⟨phase, found, rfl⟩ := Option.map_eq_some_iff.mp taken
    exact ⟨swept.listed, swept.started, swept.cleared, swept.honest⟩
  | sweep outcome =>
    obtain ⟨sweep, found, rfl⟩ := Option.map_eq_some_iff.mp taken
    exact swept.sweepStep found tidy
  | listError =>
    simp only [Deletion.step] at taken
    split at taken
    · cases taken
      exact swept.unswept rfl rfl fun p => .refl _
    · cases taken
  | crash cut =>
    cases taken
    exact swept.unswept rfl rfl fun p => crash_shrinks (cut p)
  | boot =>
    simp only [Deletion.step] at taken
    split at taken
    · cases taken
    · cases taken
      cases record : s.pending with
      | none => exact swept.unswept rfl rfl fun p => .refl _
      | some manifests => exact swept.begun rfl rfl rfl

theorem Swept.initial : Swept (created n) :=
  ⟨by simp [created], by simp [created], by simp [created], by simp [created]⟩

/-- Something a restart acts on is left until the sweep is done, and from the removal of the
WAL on there is no WAL file and nobody to write one. -/
structure Kept (s : State n) : Prop where
  traced : s.delete = none → s.registered = true ∨ s.pending.isSome = true ∨ s.removals ≠ []
  sweeping : s.sweep.isSome = true → s.pending.isSome = true
  unregistered : s.delete.isSome = true ∨ s.pending.isSome = true ∨ s.removals ≠ [] →
    s.registered = false
  cleaned : s.pending.isSome = true ∨ s.removals ≠ [] ∨
    (∃ phase, s.delete = some phase ∧ phase.cleaned = true) → Still s ∧ NoWal s

/-- Steps that keep or replace the traces of the incarnation and leave the delete where it is. -/
theorem Kept.steady (kept : Kept s) (registered : next.registered = s.registered)
    (delete : next.delete = s.delete)
    (traces : next.pending.isSome = true ∨ next.removals ≠ [] ↔
      s.pending.isSome = true ∨ s.removals ≠ [])
    (sweeping : next.sweep.isSome = true → next.pending.isSome = true)
    (jobs : s.jobs = [] → s.registered = false → next.jobs = [])
    (slots : s.jobs = [] → ∀ p, Settled (s.slots p) (next.slots p)) : Kept next := by
  refine ⟨?_, sweeping, ?_, ?_⟩
  · intro idle
    rw [registered, traces]
    exact kept.traced (delete ▸ idle)
  · rw [registered, delete, traces]
    exact kept.unregistered
  · intro clean
    rw [delete, ← or_assoc, traces, or_assoc] at clean
    have before := kept.cleaned clean
    have unregistered : s.registered = false := by
      apply kept.unregistered
      rcases clean with recorded | removed | ⟨phase, found, _⟩
      · exact .inr (.inl recorded)
      · exact .inr (.inr removed)
      · exact .inl (by simp [found])
    have after p := slots before.1.1 p (before.1.2 p)
    refine ⟨⟨jobs before.1.1 unregistered, fun p => (after p).1⟩, fun p => ?_⟩
    rcases (after p).2 with same | empty
    · exact same.trans (before.2 p)
    · exact empty

theorem Kept.aside (kept : Kept s) (calm : Calm s next ∧ next.delete = s.delete) : Kept next := by
  obtain ⟨calm, delete⟩ := calm
  apply kept.steady calm.registered delete
  · rw [calm.pending, calm.removals]
  · rw [calm.sweep, calm.pending]
    exact kept.sweeping
  · exact fun none _ => calm.jobs none
  · exact calm.wal

/-- A delete that moves on without having removed the WAL in this step. -/
theorem Kept.onward (kept : Kept s) (calm : Calm s next) {phase later : Teardown n}
    (found : s.delete = some phase) (found' : next.delete = some later)
    (past : later.cleaned = true → phase.cleaned = true) : Kept next := by
  have unregistered : s.registered = false := kept.unregistered (.inl (by simp [found]))
  refine ⟨?_, ?_, fun _ => calm.registered.trans unregistered, ?_⟩
  · intro idle
    rw [found'] at idle
    cases idle
  · rw [calm.sweep, calm.pending]
    exact kept.sweeping
  · rw [calm.pending, calm.removals]
    intro clean
    have before : Still s ∧ NoWal s := by
      apply kept.cleaned
      rcases clean with recorded | removed | ⟨other, same, clean⟩
      · exact .inl recorded
      · exact .inr (.inl removed)
      · rw [found'] at same
        cases same
        exact .inr (.inr ⟨phase, found, past clean⟩)
    exact ⟨calm.still before.1, calm.noWal before.1 before.2⟩

theorem Kept.teardown {outcome : Outcome} {phase : Teardown n} (kept : Kept s)
    (found : s.delete = some phase) (orderly : Orderly s (.teardown outcome))
    (taken : teardownStep env outcome s phase = some next) : Kept next := by
  have unregistered : s.registered = false := kept.unregistered (.inl (by simp [found]))
  by_cases recorded : ∃ manifests, phase = .persist manifests
  · obtain ⟨manifests, rfl⟩ := recorded
    have done : outcome = .ok := by simpa [Orderly, found] using orderly
    have before := kept.cleaned (.inr (.inr ⟨_, found, rfl⟩))
    simp only [teardownStep, done, if_true, Option.some.injEq] at taken
    subst taken
    exact ⟨fun _ => .inr (.inl rfl), fun _ => rfl, fun _ => unregistered, fun _ => before⟩
  · obtain ⟨calm, later, found', past⟩ :=
      teardown_calm (fun m same => recorded ⟨m, same⟩) taken
    by_cases removal : phase = .removeWal
    · subst removal
      obtain ⟨done, still⟩ : outcome = .ok ∧ Still s := by simpa [Orderly, found] using orderly
      have empty : NoWal next := by
        intro p
        cases taken
        simp [done, Outcome.applied]
      refine ⟨?_, ?_, fun _ => calm.registered.trans unregistered, fun _ => ?_⟩
      · intro idle
        rw [found'] at idle
        cases idle
      · rw [calm.sweep, calm.pending]
        exact kept.sweeping
      · exact ⟨calm.still still, empty⟩
    · exact kept.onward calm found found' fun clean => (past clean).resolve_right removal

theorem deleteObject_settled (key : Key n) (p : Fin n) :
    Settled (s.slots p) ((s.deleteObject key).slots p) := by
  cases key with
  | segment q base =>
    exact update_slot (s := s) (q := q) (y := (s.slots q).erase base) Settled.refl
      (.of_same rfl (.inl rfl)) p
  | manifest q =>
    exact update_slot (s := s) (q := q) (y := { s.slots q with manifest := none }) Settled.refl
      (.of_same rfl (.inl rfl)) p

/-- A delete of one key, whether it takes effect or not, and the sweep it leaves. -/
theorem Kept.call (kept : Kept s) {key : Key n} {outcome : Outcome} {sweep : Option (Sweep n)}
    (recorded : s.pending.isSome = true) :
    Kept { (if outcome.applied then s.deleteObject key else s) with sweep := sweep } := by
  cases outcome.applied with
  | false => exact kept.steady rfl rfl .rfl (fun _ => recorded) (fun none _ => none) fun _ p => .refl _
  | true =>
    cases key with
    | segment p base =>
      exact kept.steady rfl rfl .rfl (fun _ => recorded) (fun none _ => none)
        fun _ => deleteObject_settled (.segment p base)
    | manifest p =>
      exact kept.steady rfl rfl .rfl (fun _ => recorded) (fun none _ => none)
        fun _ => deleteObject_settled (.manifest p)

theorem Kept.sweepStep {outcome : Outcome} (kept : Kept s) {sweep : Sweep n}
    (found : s.sweep = some sweep) : Kept (sweepStep outcome s sweep) := by
  have recorded := kept.sweeping (by simp [found])
  obtain ⟨phase, failed⟩ := sweep
  rcases phase with (_ | ⟨key, rest⟩) | (_ | ⟨key, rest⟩)
  · exact kept.steady rfl rfl .rfl (fun _ => recorded) (fun none _ => none) fun _ p => .refl _
  · exact kept.call recorded
  · simp only [Deletion.sweepStep]
    split
    · exact kept.steady rfl rfl (by simp [recorded]) (by simp)
        (fun none _ => none) fun _ p => .refl _
    · exact kept.steady rfl rfl .rfl (by simp) (fun none _ => none)
        fun _ p => .refl _
  · exact kept.call recorded

theorem Kept.step {action : Action n} (kept : Kept s) (orderly : Orderly s action)
    (taken : Deletion.step env action s = some next) : Kept next := by
  cases action with
  | spawn cfg => exact kept.aside (spawn_calm taken)
  | abortSpawn => exact kept.aside (abortSpawn_calm taken)
  | actor p move => exact kept.aside (actor_calm taken)
  | uploader p now outcome => exact kept.aside (uploader_calm orderly taken)
  | delete =>
    simp only [Deletion.step] at taken
    split at taken
    next known =>
      cases taken
      have fresh : ¬ (s.pending.isSome = true ∨ s.removals ≠ []) := by
        intro trace
        have gone := kept.unregistered (.inr trace)
        simp [known.2] at gone
      refine ⟨(fun idle => nomatch idle), kept.sweeping, fun _ => rfl, ?_⟩
      rintro (recorded | removed | ⟨phase, same, clean⟩)
      · exact absurd (.inl recorded) fresh
      · exact absurd (.inr removed) fresh
      · cases same
        cases clean
    next => cases taken
  | teardown outcome =>
    obtain ⟨phase, found, taken⟩ := Option.bind_eq_some_iff.mp taken
    exact kept.teardown found orderly taken
  | timeout =>
    obtain ⟨phase, found, taken⟩ := Option.bind_eq_some_iff.mp taken
    obtain ⟨calm, later, found', dirty⟩ := timeout_calm taken
    exact kept.onward calm found found' (by simp [dirty])
  | abort =>
    obtain ⟨phase, found, rfl⟩ := Option.map_eq_some_iff.mp taken
    exact absurd orderly (by simp [Orderly, found])
  | sweep outcome =>
    obtain ⟨sweep, found, rfl⟩ := Option.map_eq_some_iff.mp taken
    exact kept.sweepStep found
  | listError =>
    simp only [Deletion.step] at taken
    split at taken
    · cases taken
      exact kept.steady rfl rfl .rfl (by simp) (fun none _ => none)
        fun _ p => .refl _
    · cases taken
  | crash cut =>
    cases taken
    have idle : s.delete = none := orderly
    exact kept.steady rfl idle.symm .rfl (by simp) (fun _ _ => rfl)
      fun _ p => crash_settled (cut p)
  | boot =>
    simp only [Deletion.step] at taken
    split at taken
    · cases taken
    · cases taken
      refine kept.steady rfl rfl .rfl ?_ ?_ fun _ p => .refl _
      · simp
      · intro _ unregistered
        simp [unregistered]

theorem Orderly.tidy {action : Action n} (orderly : Orderly s action) : Tidy s action := by
  cases action with
  | uploader | sweep => exact orderly
  | spawn | abortSpawn | actor | delete | teardown | timeout | abort | listError | crash | boot =>
    trivial

theorem Kept.initial : Kept (created n) :=
  ⟨by simp [created], by simp [created], by simp [created], by simp [created]⟩

end States

/-- Over any number of lives in which no upload follows a LIST and no delete of a listed key
fails: once a sweep has removed the record there is no object under the prefix, then or later,
and no sweep of which a call failed has removed it. -/
theorem swept_clean (env : Partition.Externals) {n : Nat} {s : State n}
    (reached : (machine env n).Reaches Tidy s) :
    (s.removals ≠ [] → NoObjects s) ∧ ∀ failed ∈ s.removals, failed = false := by
  have swept := reached.invariant Swept.initial
    (fun _ _ _ swept tidy taken => swept.step tidy taken)
  exact ⟨swept.cleared, swept.honest⟩

section Runs

def spawnRun : List (Action 1) :=
  [.spawn Partition.settings, .spawn Partition.settings, .spawn Partition.settings]

/-- Two records fill a segment, and the writer hands it off. -/
def produceRun : List (Action 1) :=
  [.actor 0 (.produce [Partition.sample 1, Partition.sample 2] (fun _ => 5)), .actor 0 .writer,
    .actor 0 .writer, .actor 0 .writer, .actor 0 .writer]

/-- The segment and the manifest are put, and a retention pass finds nothing to evict. -/
def uploadRun : List (Action 1) := List.replicate 7 (.uploader 0 0 .ok)

/-- The registry step, and the shutdown of the writer. -/
def stopWriterRun : List (Action 1) :=
  [.delete, .teardown .ok, .teardown .ok, .actor 0 .shutdownWriter, .actor 0 .writer,
    .actor 0 .writer, .teardown .ok, .teardown .ok, .teardown .ok]

/-- From the end of the uploader's shutdown to the record, with the manifest read as given. -/
def recordRun (read : Outcome) : List (Action 1) :=
  [.teardown .ok, .teardown .ok, .teardown read, .teardown .ok, .teardown .ok]

/-- A sweep that fails at the manifest is replayed after a crash. -/
def replayRun : List (Action 1) :=
  spawnRun ++ produceRun ++ uploadRun ++ stopWriterRun ++ [.uploader 0 0 .ok, .teardown .ok] ++
    recordRun .ok ++ [.sweep .ok, .sweep (.failed false), .crash (fun _ => 0), .boot] ++
    List.replicate 4 (.sweep .ok)

end Runs

theorem swept_clean_replayRun : ∃ s,
    (machine Partition.externals 1).execute replayRun (created 1) = some s ∧ s.removals = [false] ∧
      NoObjects s := by
  have runs : ((machine Partition.externals 1).execute replayRun (created 1)).any
      (fun s => s.removals == [false]) = true := by decide +kernel
  have along : (machine Partition.externals 1).Along Tidy replayRun (created 1) := by decide +kernel
  obtain ⟨s, ran, removed⟩ := Option.any_eq_true _ _ |>.mp runs
  rw [beq_iff_eq] at removed
  exact ⟨s, ran, removed, (swept_clean _ ⟨replayRun, along, ran⟩).1 (by simp [removed])⟩

/-- The manifest read of the delete fails, so that the segment is left to the LIST, and its
delete there fails: the record is removed all the same. -/
def lostDeleteRun : List (Action 1) :=
  spawnRun ++ produceRun ++ uploadRun ++ stopWriterRun ++ [.uploader 0 0 .ok, .teardown .ok] ++
    recordRun (.failed false) ++ [.sweep .ok, .sweep .ok, .sweep (.failed false), .sweep .ok]

/-- The uploader is retrying when the wait for it gives up, and succeeds after the sweep. -/
def lateUploadRun : List (Action 1) :=
  spawnRun ++ produceRun ++ [.uploader 0 0 .ok, .uploader 0 0 (.failed false)] ++ stopWriterRun ++
    [.timeout] ++ recordRun .ok ++ List.replicate 3 (.sweep .ok) ++ [.uploader 0 0 .ok]

theorem swept_dirty_lostDelete_lateUpload :
    (∃ s, (machine Partition.externals 1).execute lostDeleteRun (created 1) = some s ∧
      s.removals = [true] ∧ ¬ NoObjects s) ∧
    ∃ s, (machine Partition.externals 1).execute lateUploadRun (created 1) = some s ∧
      s.removals = [false] ∧ ¬ NoObjects s := by
  have lost : ((machine Partition.externals 1).execute lostDeleteRun (created 1)).any
      (fun s => s.removals == [true] && (s.slots 0).objects[(0 : Int)]?.isSome) = true := by
    decide +kernel
  have late : ((machine Partition.externals 1).execute lateUploadRun (created 1)).any
      (fun s => s.removals == [false] && (s.slots 0).objects[(0 : Int)]?.isSome) = true := by
    decide +kernel
  constructor
  · obtain ⟨s, ran, facts⟩ := Option.any_eq_true _ _ |>.mp lost
    simp only [Bool.and_eq_true, beq_iff_eq] at facts
    exact ⟨s, ran, facts.1, fun none => none (.segment 0 0) facts.2⟩
  · obtain ⟨s, ran, facts⟩ := Option.any_eq_true _ _ |>.mp late
    simp only [Bool.and_eq_true, beq_iff_eq] at facts
    exact ⟨s, ran, facts.1, fun none => none (.segment 0 0) facts.2⟩

/-- Over any number of lives in which no delete is cut short between the registry step and its
record: whenever no delete is under way, and so after every startup, the topic is registered, or
its record is there, or neither an object nor a WAL file of it is left. -/
theorem not_leaked (env : Partition.Externals) {n : Nat} {s : State n}
    (reached : (machine env n).Reaches Orderly s) (idle : s.delete = none) :
    s.registered = true ∨ s.pending.isSome = true ∨ (NoObjects s ∧ NoWal s) := by
  have swept := reached.invariant Swept.initial
    (fun _ _ _ swept orderly taken => swept.step orderly.tidy taken)
  have kept := reached.invariant Kept.initial
    (fun _ _ _ kept orderly taken => kept.step orderly taken)
  rcases kept.traced idle with known | recorded | removed
  · exact .inl known
  · exact .inr (.inl recorded)
  · exact .inr (.inr ⟨swept.cleared removed, (kept.cleaned (.inr (.inl removed))).2⟩)

theorem not_leaked_replayRun : ∃ s,
    (machine Partition.externals 1).execute replayRun (created 1) = some s ∧
      s.registered = false ∧ s.pending = none ∧ NoObjects s ∧ NoWal s := by
  have runs : ((machine Partition.externals 1).execute replayRun (created 1)).any
      (fun s => s.delete.isNone && !s.registered && s.pending.isNone) = true := by decide +kernel
  have along : (machine Partition.externals 1).Along Orderly replayRun (created 1) := by
    decide +kernel
  obtain ⟨s, ran, facts⟩ := Option.any_eq_true _ _ |>.mp runs
  simp only [Bool.and_eq_true, Option.isNone_iff_eq_none, Bool.not_eq_true'] at facts
  obtain ⟨⟨idle, unregistered⟩, unrecorded⟩ := facts
  have kept := not_leaked _ ⟨replayRun, along, ran⟩ idle
  simp only [unregistered, unrecorded, Option.isSome_none, Bool.false_eq_true, false_or] at kept
  exact ⟨s, ran, unregistered, unrecorded, kept⟩

/-- The process dies right after the registry has removed the topic. -/
def cutShortRun : List (Action 1) :=
  spawnRun ++ produceRun ++ uploadRun ++ [.delete, .crash (fun _ => 0), .boot]

theorem leaked_cutShortRun : ∃ s,
    (machine Partition.externals 1).execute cutShortRun (created 1) = some s ∧ s.up = true ∧
      s.registered = false ∧ s.pending = none ∧ ¬ NoObjects s ∧ ¬ NoWal s := by
  have runs : ((machine Partition.externals 1).execute cutShortRun (created 1)).any
      (fun s => s.up && !s.registered && s.pending.isNone &&
        (s.slots 0).objects[(0 : Int)]?.isSome && (s.slots 0).wal[(0 : Int)]?.isSome) = true := by
    decide +kernel
  obtain ⟨s, ran, facts⟩ := Option.any_eq_true _ _ |>.mp runs
  simp only [Bool.and_eq_true, Option.isNone_iff_eq_none, Bool.not_eq_true'] at facts
  obtain ⟨⟨⟨⟨up, unregistered⟩, unrecorded⟩, object⟩, file⟩ := facts
  refine ⟨s, ran, up, unregistered, unrecorded, fun none => none (.segment 0 0) object, ?_⟩
  intro empty
  simp [empty 0] at file

end Kafkrs.Deletion
