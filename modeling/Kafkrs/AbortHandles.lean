import Kafkrs.Connection
import Kafkrs.Lib.Slots

/-! The in-flight map of a connection. A task is spawned before its abort handle is inserted, and
removes an entry by its correlation id, which the client chose. -/
namespace Kafkrs.AbortHandles

open Lib Kafkrs.Wire Kafkrs.Connection

def Unfinished (task : Task) : Prop := task.phase = .running ∨ task.phase = .replied

instance (task : Task) : Decidable (Unfinished task) := inferInstanceAs (Decidable (_ ∨ _))

/-- Until the drain every unfinished task has its handle in the map, but for one that the dispatcher
is about to insert; at the drain there is no such exception. Afterwards all of them are aborted.
A task that has finished, if only by a panic, has no entry. -/
structure Tracked (s : State) : Prop where
  held : (∀ left, s.phase ≠ .closed left) → ∀ (id : Nat) (task : Task), s.tasks[id]? = some task →
    Unfinished task → s.phase ≠ .insert id → (task.correlationId, id) ∈ s.inflight
  aborted : ∀ left, s.phase = .closed left → ∀ (id : Nat) (task : Task), s.tasks[id]? = some task →
    Unfinished task → task.aborted = true
  gone : ∀ (cid : UInt64) (id : Nat) (task : Task), (cid, id) ∈ s.inflight →
    s.tasks[id]? = some task → task.phase ≠ .finished ∧ task.phase ≠ .panicked

/-- When the dispatcher inserts a handle, its task is not finished and the correlation id has no
entry; a task that removes before its handle is inserted finds no entry either; and no task panics
whose handle is in the map. -/
def Separate (s : State) : Action → Prop
  | .dispatch => ∀ (id : Nat) (task : Task), s.phase = .insert id → s.tasks[id]? = some task →
      Unfinished task ∧ ∀ other, (task.correlationId, other) ∉ s.inflight
  | .retire id => ∀ task : Task, s.phase = .insert id → s.tasks[id]? = some task →
      task.phase = .replied → ∀ other, (task.correlationId, other) ∉ s.inflight
  | .panic id => ∀ task : Task, s.tasks[id]? = some task → task.phase = .running →
      ∀ cid, (cid, id) ∉ s.inflight
  | _ => True

structure Registered (phase : Phase) (inflight : List (UInt64 × Nat)) (tasks : List Task) : Prop where
  owner : ∀ (cid : UInt64) (id : Nat), (cid, id) ∈ inflight →
    ∃ task, tasks[id]? = some task ∧ task.correlationId = cid ∧ Unfinished task
  keys : (inflight.map Prod.fst).Nodup
  entries : (∀ left, phase ≠ .closed left) → ∀ (id : Nat) (task : Task), tasks[id]? = some task →
    Unfinished task → phase ≠ .insert id → (task.correlationId, id) ∈ inflight
  unlisted : ∀ id, phase = .insert id → ∀ cid, (cid, id) ∉ inflight
  calm : (∀ left, phase ≠ .closed left) → ∀ task ∈ tasks,
    task.aborted = false ∧ task.phase ≠ .dropped
  drained : ∀ left, phase = .closed left → inflight = [] ∧
    ∀ (id : Nat) (task : Task), tasks[id]? = some task → Unfinished task → task.aborted = true

section Map

variable {phase : Phase} {inflight : List (UInt64 × Nat)} {tasks : List Task} {id : Nat} {task : Task}

/-- Each correlation id has one entry. -/
theorem Registered.unique (registered : Registered phase inflight tasks) {cid : UInt64} {a b : Nat}
    (first : (cid, a) ∈ inflight) (second : (cid, b) ∈ inflight) : a = b :=
  congrArg Prod.snd (List.inj_on_of_nodup_map registered.keys first second rfl)

/-- The loop is left. -/
theorem Registered.leave (registered : Registered .recv inflight tasks) (left : Bool) :
    Registered (.draining left) inflight tasks where
  owner := registered.owner
  keys := registered.keys
  entries := fun _ id task found on _ => registered.entries (by simp) id task found on (by simp)
  unlisted := by simp
  calm := fun _ => registered.calm (by simp)
  drained := by simp

theorem Registered.spawn (registered : Registered .recv inflight tasks)
    (running : task.phase = .running) (calm : task.aborted = false) :
    Registered (.insert tasks.length) inflight (tasks ++ [task]) where
  owner := by
    intro cid id member
    obtain ⟨other, found, facts⟩ := registered.owner cid id member
    exact ⟨other, Slots.append_old found, facts⟩
  keys := registered.keys
  entries := by
    intro _ id other found on apart
    rcases Slots.append_cases found with ⟨rfl, _⟩ | old
    · exact absurd rfl apart
    · exact registered.entries (by simp) id other old on (by simp)
  unlisted := by
    intro id same cid member
    obtain rfl : tasks.length = id := by simpa using same
    obtain ⟨other, found, _⟩ := registered.owner cid _ member
    simp at found
  calm := by
    intro _ other member
    rcases List.mem_append.mp member with old | new
    · exact registered.calm (by simp) other old
    · rw [List.mem_singleton.mp new]
      exact ⟨calm, by simp [running]⟩
  drained := by simp

/-- A handle under a correlation id that has none replaces no other. -/
theorem Registered.insert (registered : Registered (.insert id) inflight tasks)
    (found : tasks[id]? = some task) (on : Unfinished task)
    (unused : ∀ other, (task.correlationId, other) ∉ inflight) :
    Registered .recv ((task.correlationId, id) :: inflight.filter (·.1 ≠ task.correlationId)) tasks := by
  have untouched : inflight.filter (·.1 ≠ task.correlationId) = inflight := by
    apply List.filter_eq_self.mpr
    rintro ⟨cid, other⟩ member
    simp only [ne_eq, decide_not, Bool.not_eq_true', decide_eq_false_iff_not]
    rintro rfl
    exact unused other member
  rw [untouched]
  refine ⟨?_, ?_, ?_, by simp, fun _ => registered.calm (by simp), by simp⟩
  · intro cid other member
    rcases List.mem_cons.mp member with new | old
    · obtain ⟨rfl, rfl⟩ := Prod.mk.inj new
      exact ⟨task, found, rfl, on⟩
    · exact registered.owner cid other old
  · rw [List.map_cons, List.nodup_cons]
    refine ⟨?_, registered.keys⟩
    intro member
    obtain ⟨⟨cid, other⟩, there, rfl⟩ := List.mem_map.mp member
    exact unused other there
  · intro _ other task' found' on' _
    by_cases same : other = id
    · subst same
      obtain rfl := Option.some.inj (found.symm.trans found')
      exact List.mem_cons_self
    · exact List.mem_cons_of_mem _ (registered.entries (by simp) other task' found' on'
        (by simpa using Ne.symm same))

theorem Registered.drain {left : Bool} (registered : Registered (.draining left) inflight tasks) :
    Registered (.closed left) [] (tasks.mapIdx fun id task =>
      { task with aborted := task.aborted || inflight.any (·.2 = id) }) where
  owner := by simp
  keys := by simp
  entries := fun open' => absurd rfl (open' left)
  unlisted := by simp
  calm := fun open' => absurd rfl (open' left)
  drained := by
    refine fun _ _ => ⟨rfl, fun id task found on => ?_⟩
    rw [List.getElem?_mapIdx] at found
    obtain ⟨before, there, rfl⟩ := Option.map_eq_some_iff.mp found
    have member := registered.entries (by simp) id before there on (by simp)
    have handle : inflight.any (·.2 = id) = true := List.any_eq_true.mpr ⟨_, member, by simp⟩
    simp [handle]

/-- A task that goes on is no more aborted than before. -/
theorem Registered.calm_set (registered : Registered phase inflight tasks) {after : Task}
    (found : tasks[id]? = some task) (aborted : after.aborted = task.aborted)
    (kept : after.phase ≠ .dropped) (open' : ∀ left, phase ≠ .closed left) :
    ∀ other ∈ tasks.set id after, other.aborted = false ∧ other.phase ≠ .dropped := by
  intro other member
  rcases List.mem_or_eq_of_mem_set member with old | rfl
  · exact registered.calm open' other old
  · exact ⟨aborted.trans (registered.calm open' task (List.mem_of_getElem? found)).1, kept⟩

/-- A task moves on without coming to its end. -/
theorem Registered.advance (registered : Registered phase inflight tasks) {after : Task}
    (found : tasks[id]? = some task) (same : after.correlationId = task.correlationId)
    (aborted : after.aborted = task.aborted) (before : Unfinished task) (on : Unfinished after) :
    Registered phase inflight (tasks.set id after) where
  owner := by
    intro cid other member
    obtain ⟨owner, there, key, still⟩ := registered.owner cid other member
    by_cases here : other = id
    · subst here
      obtain rfl := Option.some.inj (found.symm.trans there)
      exact ⟨after, Slots.set_self found, same.trans key, on⟩
    · exact ⟨owner, (Slots.set_other here).trans there, key, still⟩
  keys := registered.keys
  entries := by
    intro open' other task' found' on' apart
    rcases Slots.set_cases found' with ⟨rfl, rfl⟩ | ⟨_, old⟩
    · rw [same]
      exact registered.entries open' other task found before apart
    · exact registered.entries open' other task' old on' apart
  unlisted := registered.unlisted
  calm := by
    refine registered.calm_set found aborted ?_
    rcases on with running | replied
    · simp [running]
    · simp [replied]
  drained := by
    refine fun left closed => ⟨(registered.drained left closed).1, fun other task' found' on' => ?_⟩
    rcases Slots.set_cases found' with ⟨rfl, rfl⟩ | ⟨_, old⟩
    · rw [aborted]
      exact (registered.drained left closed).2 other task found before
    · exact (registered.drained left closed).2 other task' old on'

/-- A task comes to its end: its own entry is gone, no other's is. -/
theorem Registered.ended (registered : Registered phase inflight tasks) {after : Task}
    {less : List (UInt64 × Nat)} (found : tasks[id]? = some task) (off : ¬ Unfinished after)
    (kept : after.phase ≠ .dropped) (aborted : after.aborted = task.aborted)
    (fewer : less.Sublist inflight) (own : ∀ cid, (cid, id) ∉ less)
    (others : ∀ cid other, (cid, other) ∈ inflight → other ≠ id → (cid, other) ∈ less) :
    Registered phase less (tasks.set id after) where
  owner := by
    intro cid other member
    obtain ⟨owner, slot, key, still⟩ := registered.owner cid other (fewer.mem member)
    have elsewhere : other ≠ id := by
      rintro rfl
      exact own cid member
    exact ⟨owner, (Slots.set_other elsewhere).trans slot, key, still⟩
  keys := registered.keys.sublist (fewer.map _)
  entries := by
    intro open' other task' found' on' apart
    rcases Slots.set_cases found' with ⟨_, rfl⟩ | ⟨different, old⟩
    · exact absurd on' off
    · exact others _ other (registered.entries open' other task' old on' apart) different
  unlisted := fun other inserting cid member =>
    registered.unlisted other inserting cid (fewer.mem member)
  calm := registered.calm_set found aborted kept
  drained := by
    intro left closed
    have empty := (registered.drained left closed).1
    subst empty
    refine ⟨List.sublist_nil.mp fewer, fun other task' found' on' => ?_⟩
    rcases Slots.set_cases found' with ⟨_, rfl⟩ | ⟨_, old⟩
    · exact absurd on' off
    · exact (registered.drained left closed).2 other task' old on'

/-- A task removes what stands under its correlation id, which is no other's entry. -/
theorem Registered.finish (registered : Registered phase inflight tasks)
    (found : tasks[id]? = some task)
    (own : ∀ other, (task.correlationId, other) ∈ inflight → other = id) :
    Registered phase (inflight.filter (·.1 ≠ task.correlationId))
      (tasks.set id { task with phase := .finished }) := by
  refine registered.ended found (by simp [Unfinished]) (by simp) rfl List.filter_sublist ?_ ?_
  · intro cid member
    obtain ⟨there, different⟩ := List.mem_filter.mp member
    obtain ⟨owner, slot, key, _⟩ := registered.owner cid id there
    obtain rfl := Option.some.inj (found.symm.trans slot)
    simp [key] at different
  · intro cid other there different
    refine List.mem_filter.mpr ⟨there, ?_⟩
    simp only [ne_eq, decide_not, Bool.not_eq_true', decide_eq_false_iff_not]
    rintro rfl
    exact different (own other there)

/-- A task panics that has no entry. -/
theorem Registered.panic (registered : Registered phase inflight tasks)
    (found : tasks[id]? = some task) (unlisted : ∀ cid, (cid, id) ∉ inflight) :
    Registered phase inflight (tasks.set id { task with phase := .panicked }) :=
  registered.ended found (by simp [Unfinished]) (by simp) rfl (List.Sublist.refl _) unlisted
    fun _ _ there _ => there

/-- An abort takes effect, which it does only after the drain. -/
theorem Registered.drop (registered : Registered phase inflight tasks)
    (found : tasks[id]? = some task) (aborted : task.aborted = true) :
    Registered phase inflight (tasks.set id { task with phase := .dropped }) := by
  have closed : ∃ left, phase = .closed left := by
    by_contra open'
    have calm := registered.calm (fun left same => open' ⟨left, same⟩) task
      (List.mem_of_getElem? found)
    rw [calm.1] at aborted
    cases aborted
  obtain ⟨left, rfl⟩ := closed
  obtain ⟨rfl, all⟩ := registered.drained left rfl
  refine ⟨by simp, by simp, fun open' => absurd rfl (open' left), by simp,
    fun open' => absurd rfl (open' left), fun _ _ => ⟨rfl, fun other task' found' on' => ?_⟩⟩
  rcases Slots.set_cases found' with ⟨_, rfl⟩ | ⟨_, old⟩
  · simp [Unfinished] at on'
  · exact all other task' old on'

end Map

section Runs

variable {identity : Identity} {s next : State} {action : Action} {inbound : Inbound}

def Valid (s : State) : Prop := Registered s.phase s.inflight s.tasks

theorem Valid.initial : Valid fresh :=
  ⟨by simp [fresh], by simp [fresh], by simp [fresh], by simp [fresh], by simp [fresh], by simp [fresh]⟩

theorem Valid.tracked (valid : Valid s) : Tracked s where
  held := valid.entries
  aborted := fun left closed => (valid.drained left closed).2
  gone := by
    intro cid id task member found
    obtain ⟨other, there, _, on⟩ := valid.owner cid id member
    obtain rfl := Option.some.inj (found.symm.trans there)
    rcases on with running | replied
    · simp [running]
    · simp [replied]

/-- A turn of the loop spawns a task or leaves the map and the tasks alone. -/
theorem receive_cases (identity : Identity) (s : State) (inbound : Inbound) :
    (∃ body, receive identity s inbound = s.spawn inbound body) ∨
      (receive identity s inbound).inflight = s.inflight ∧
      (receive identity s inbound).tasks = s.tasks ∧
      ((receive identity s inbound).phase = s.phase ∨
        (receive identity s inbound).phase = .draining true) := by
  simp only [receive]
  split
  · exact .inr ⟨rfl, rfl, .inr rfl⟩
  · split
    · exact .inr ⟨rfl, rfl, .inr rfl⟩
    · split
      · exact .inr ⟨rfl, rfl, .inr rfl⟩
      · exact .inr ⟨rfl, rfl, .inl rfl⟩
  · split
    · exact .inl ⟨_, rfl⟩
    · exact .inr ⟨rfl, rfl, .inr rfl⟩
  · split
    · exact .inr ⟨rfl, rfl, .inl rfl⟩
    · exact .inr ⟨rfl, rfl, .inr rfl⟩

theorem Valid.receive (valid : Valid s) (recv : s.phase = .recv) (rest : List Inbound) :
    Valid (Connection.receive identity { s with inbox := rest } inbound) := by
  unfold Valid at valid ⊢
  rw [recv] at valid
  rcases receive_cases identity { s with inbox := rest } inbound with
    ⟨body, spawned⟩ | ⟨inflight, tasks, phase | phase⟩
  · rw [spawned]
    exact valid.spawn rfl rfl
  · rw [inflight, tasks, phase]
    simpa [recv] using valid
  · rw [inflight, tasks, phase]
    exact valid.leave true

/-- The entries under the correlation id of a task that retires. -/
theorem Valid.own (valid : Valid s) {id : Nat} {task : Task} (separate : Separate s (.retire id))
    (found : s.tasks[id]? = some task) (replied : task.phase = .replied) {other : Nat}
    (member : (task.correlationId, other) ∈ s.inflight) : other = id := by
  by_cases inserting : s.phase = .insert id
  · exact absurd member (separate task inserting found replied other)
  · have open' : ∀ left, s.phase ≠ .closed left := by
      intro left closed
      rw [(valid.drained left closed).1] at member
      cases member
    exact valid.unique member (valid.entries open' id task found (.inr replied) inserting)

theorem Valid.step (valid : Valid s) (separate : Separate s action)
    (taken : Connection.step identity action s = some next) : Valid next := by
  cases step_moved taken with
  | deliver | malformed | hangUp | write | unwritable => exact valid
  | receive recv => exact valid.receive recv _
  | leave recv =>
    unfold Valid at valid
    rw [recv] at valid
    exact valid.leave false
  | insert inserting found =>
    obtain ⟨on, unused⟩ := separate _ _ inserting found
    unfold Valid at valid
    rw [inserting] at valid
    exact valid.insert found on unused
  | drain draining =>
    unfold Valid at valid
    rw [draining] at valid
    exact valid.drain
  | respond found running => exact valid.advance found rfl rfl (.inl running) (.inr rfl)
  | retire found replied =>
    exact valid.finish found fun _ => valid.own separate found replied
  | drop found _ aborted => exact valid.drop found aborted
  | panic found running => exact valid.panic found (separate _ found running)

/-- Another task's entry, once gone, does not come back. -/
theorem Valid.lost (valid : Valid s) {cid : UInt64} {other : Nat} (member : (cid, other) ∈ s.inflight)
    (phase : (∀ left, next.phase ≠ .closed left) ∧ next.phase ≠ .insert other)
    (kept : next.tasks[other]? = s.tasks[other]?) (removed : (cid, other) ∉ next.inflight) :
    ¬ Tracked next := by
  intro tracked
  obtain ⟨task, found, rfl, on⟩ := valid.owner cid other member
  exact removed (tracked.held phase.1 other task (kept.trans found) on phase.2)

/-- A handle is inserted late, or in the place of another. -/
theorem insert_untracked (valid : Valid s) {id : Nat} {task : Task}
    (inserting : s.phase = .insert id) (found : s.tasks[id]? = some task)
    (fails : ¬ (Unfinished task ∧ ∀ other, (task.correlationId, other) ∉ s.inflight))
    (taken : Connection.dispatch identity s = some next) : ¬ Tracked next := by
  simp only [Connection.dispatch, inserting, found] at taken
  rw [← Option.some.inj taken]
  by_cases on : Unfinished task
  · obtain ⟨other, member⟩ : ∃ other, (task.correlationId, other) ∈ s.inflight := by
      by_contra unused
      exact fails ⟨on, fun other member => unused ⟨other, member⟩⟩
    have different : other ≠ id := by
      rintro rfl
      exact valid.unlisted other inserting _ member
    exact valid.lost member (by simp) rfl (by simp [different])
  · have calm := valid.calm (by simp [inserting]) task (List.mem_of_getElem? found)
    have ended : ¬ (task.phase ≠ .finished ∧ task.phase ≠ .panicked) := by
      cases phase : task.phase with
      | running => exact absurd (.inl phase) on
      | replied => exact absurd (.inr phase) on
      | finished => simp
      | panicked => simp
      | dropped => exact absurd phase calm.2
    intro tracked
    exact ended (tracked.gone task.correlationId id task List.mem_cons_self found)

/-- A task that is done before its handle is inserted removes another's. -/
theorem retire_untracked (valid : Valid s) {id other : Nat} {task : Task}
    (inserting : s.phase = .insert id) (found : s.tasks[id]? = some task)
    (replied : task.phase = .replied) (member : (task.correlationId, other) ∈ s.inflight)
    (taken : Connection.step identity (.retire id) s = some next) : ¬ Tracked next := by
  simp only [Connection.step, found, Option.bind_some, replied, if_true] at taken
  rw [← Option.some.inj taken]
  have different : other ≠ id := by
    rintro rfl
    exact valid.unlisted other inserting _ member
  refine valid.lost member (by simp [inserting, Ne.symm different]) (Slots.set_other different) ?_
  simp

/-- A task whose handle is in the map panics, and the entry stays. -/
theorem panic_untracked {id : Nat} {task : Task} {cid : UInt64} (found : s.tasks[id]? = some task)
    (running : task.phase = .running) (member : (cid, id) ∈ s.inflight)
    (taken : Connection.step identity (.panic id) s = some next) : ¬ Tracked next := by
  simp only [Connection.step, found, Option.bind_some, running, if_true] at taken
  rw [← Option.some.inj taken]
  intro tracked
  exact (tracked.gone cid id _ member (Slots.set_self found)).2 rfl

theorem untracked (valid : Valid s) (fails : ¬ Separate s action)
    (taken : Connection.step identity action s = some next) : ¬ Tracked next := by
  cases action with
  | dispatch =>
    simp only [Separate, not_forall] at fails
    obtain ⟨id, task, inserting, found, fails⟩ := fails
    exact insert_untracked valid inserting found fails taken
  | retire id =>
    simp only [Separate, not_forall, not_not] at fails
    obtain ⟨task, inserting, found, replied, other, member⟩ := fails
    exact retire_untracked valid inserting found replied member taken
  | panic id =>
    simp only [Separate, not_forall, not_not] at fails
    obtain ⟨task, found, running, cid, member⟩ := fails
    exact panic_untracked found running member taken
  | _ => exact absurd trivial fails

theorem separate_of_disabled (disabled : Connection.step identity action s = none) :
    Separate s action := by
  cases action with
  | dispatch =>
    intro id task inserting found
    simp [Connection.step, Connection.dispatch, inserting, found] at disabled
  | retire id =>
    intro task inserting found replied
    simp [Connection.step, found, replied] at disabled
  | panic id =>
    intro task found running
    simp [Connection.step, found, running] at disabled
  | _ => trivial

/-- In exactly the runs whose inserts and removals keep apart, the map holds the unfinished tasks
and no others, so that the drain aborts all that are still on. -/
theorem tracked_iff_separate (identity : Identity) (schedule : List Action) :
    (machine identity).Throughout Tracked schedule fresh ↔
      (machine identity).Along Separate schedule fresh :=
  Machine.throughout_iff_guarded (fun _ valid => Valid.tracked valid)
    (fun _ _ _ valid separate taken => Valid.step valid separate taken)
    (fun _ _ _ valid fails taken => untracked valid fails taken)
    (fun _ _ disabled => separate_of_disabled disabled) Valid.initial

end Runs

section Samples

def identity : Identity := ⟨"broker", "cluster"⟩

def hello : Frame := ⟨⟨1, some (.connect ⟨1, "client", []⟩)⟩, []⟩

def ping (cid : UInt64) : Frame := ⟨⟨cid, some .ping⟩, []⟩

/-- A long poll and a ping under one correlation id: the ping takes the entry of the fetch away, and
the fetch is not aborted when the client has gone. -/
def reusedRun : List Action :=
  [.deliver hello, .dispatch,
    .deliver ⟨⟨7, some (.fetch ⟨"t", 0, 0, 10, 30000⟩)⟩, []⟩, .dispatch, .dispatch,
    .deliver (ping 7), .dispatch, .dispatch, .respond 1 .ping, .retire 1,
    .hangUp, .dispatch, .dispatch]

/-- A ping that is done before its handle is inserted. -/
def overtakenRun : List Action :=
  [.deliver hello, .dispatch, .deliver (ping 5), .dispatch, .respond 0 .ping, .retire 0, .dispatch]

theorem reusedRun_leaks : ∃ s task, (machine identity).execute reusedRun fresh = some s ∧
    s.phase = .closed false ∧ s.tasks[0]? = some task ∧ task.phase = .running ∧
    task.aborted = false := by
  have runs : ((machine identity).execute reusedRun fresh).any (fun s => s.phase = .closed false ∧
      s.tasks[0]?.any (fun task => task.phase = .running ∧ task.aborted = false)) = true := by
    decide +kernel
  obtain ⟨s, ran, facts⟩ := Option.any_eq_true _ _ |>.mp runs
  obtain ⟨closed, found⟩ := of_decide_eq_true facts
  obtain ⟨task, here, running⟩ := Option.any_eq_true _ _ |>.mp found
  obtain ⟨running, aborted⟩ := of_decide_eq_true running
  exact ⟨s, task, ran, closed, here, running, aborted⟩

theorem overtakenRun_lingers : ∃ s task, (machine identity).execute overtakenRun fresh = some s ∧
    (5, 0) ∈ s.inflight ∧ s.tasks[0]? = some task ∧ task.phase = .finished := by
  have runs : ((machine identity).execute overtakenRun fresh).any (fun s => (5, 0) ∈ s.inflight ∧
      s.tasks[0]?.any (fun task => task.phase = .finished)) = true := by
    decide +kernel
  obtain ⟨s, ran, facts⟩ := Option.any_eq_true _ _ |>.mp runs
  obtain ⟨stale, found⟩ := of_decide_eq_true facts
  obtain ⟨task, here, finished⟩ := Option.any_eq_true _ _ |>.mp found
  exact ⟨s, task, ran, stale, here, of_decide_eq_true finished⟩

/-- The first run leaves a task on after the drain, the second an entry of a finished task. -/
theorem runs_untracked :
    (∃ s task, (machine identity).execute reusedRun fresh = some s ∧ s.phase = .closed false ∧
      s.tasks[0]? = some task ∧ task.phase = .running ∧ task.aborted = false) ∧
    (∃ s task, (machine identity).execute overtakenRun fresh = some s ∧ (5, 0) ∈ s.inflight ∧
      s.tasks[0]? = some task ∧ task.phase = .finished) ∧
    ¬ (machine identity).Throughout Tracked reusedRun fresh ∧
    ¬ (machine identity).Throughout Tracked overtakenRun fresh := by
  refine ⟨reusedRun_leaks, overtakenRun_lingers, ?_, ?_⟩
  · intro always
    obtain ⟨s, task, ran, closed, found, running, calm⟩ := reusedRun_leaks
    rw [(always.final ran).aborted false closed 0 task found (.inl running)] at calm
    cases calm
  · intro always
    obtain ⟨s, task, ran, stale, found, finished⟩ := overtakenRun_lingers
    exact ((always.final ran).gone 5 0 task stale found).1 finished

end Samples

end Kafkrs.AbortHandles
