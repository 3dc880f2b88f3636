import Kafkrs.TopicRegistry

/-! The registry over any number of lives. A create is cut into its I/O operations, so that a
crash may fall between any two of them; a delete or alter has one durable operation. -/
namespace Kafkrs.TopicRegistry

open Lib

structure State where
  /-- The in-memory map; `none` while the process is down. -/
  memory : Option (List TopicEntry)
  disk : Disk
  /-- The create under way and the operations it still has to do. -/
  task : Option (TopicEntry × List DiskOp)

inductive Action where
  /-- A `Create` or `EnsureExists` of the given entry. -/
  | begin (entry : TopicEntry)
  /-- The next operation of the create under way. -/
  | io (result : IoResult)
  | delete (name : String) (result : IoResult)
  | alter (name : String) (patch : TopicConfigOverrides) (result : IoResult)
  | crash
  | restart

/-- What startup needs of a topic: `load` accepts its config, and `recover_partition` finds the
manifest of each partition. -/
def Ready (disk : Disk) (t : TopicEntry) : Prop :=
  t.config.validate = .ok () ∧ ∀ p < t.partitionCount, (disk.manifests t.uuid p).isSome = true

instance (disk : Disk) (t : TopicEntry) : Decidable (Ready disk t) := inferInstanceAs (Decidable (_ ∧ _))

/-- The next startup finds every config valid and every manifest there. What else `spawn_partition` may
fail on, the WAL files, is not looked at. -/
def Startable (disk : Disk) : Prop := ∀ t ∈ disk.topics, Ready disk t

instance (disk : Disk) : Decidable (Startable disk) :=
  inferInstanceAs (Decidable (∀ t ∈ disk.topics, Ready disk t))

def load (disk : Disk) : List TopicEntry := disk.topics.foldl insert []

def step : Action → State → Option State
  | .begin entry, ⟨some topics, disk, none⟩ =>
    match refusal topics entry with
    | some _ => some ⟨some topics, disk, none⟩
    | none => some ⟨some topics, disk, some (entry, createOps topics entry)⟩
  | .io result, ⟨some topics, disk, some (entry, op :: rest)⟩ =>
    if result ≠ .ok then some ⟨some topics, op.apply result disk, none⟩
    else if rest = [] then some ⟨some (insert topics entry), op.apply result disk, none⟩
    else some ⟨some topics, op.apply result disk, some (entry, rest)⟩
  | .delete name result, ⟨some topics, disk, none⟩ =>
    let r := (delete (fun _ => result) ⟨topics, disk⟩ name).1
    some ⟨some r.topics, r.disk, none⟩
  | .alter name patch result, ⟨some topics, disk, none⟩ =>
    let r := (alter (fun _ => result) ⟨topics, disk⟩ name patch).1
    some ⟨some r.topics, r.disk, none⟩
  | .crash, s => some ⟨none, s.disk, none⟩
  -- A startup that panics leaves the process down.
  | .restart, ⟨none, disk, task⟩ =>
    if Startable disk then some ⟨some (load disk), disk, task⟩ else some ⟨none, disk, task⟩
  | _, _ => none

def machine : Machine State Action := ⟨⟨some [], ⟨none, [], fun _ _ => none⟩, none⟩, step⟩

/-- The process crashes only when every entry of `topics.json` is in the in-memory map: no
create is past its rewrite, and none has failed there since the last rewrite. -/
def Synced (s : State) : Action → Prop
  | .crash => ∀ topics, s.memory = some topics → ∀ t ∈ s.disk.topics, t ∈ topics
  | _ => True

structure Invariant (s : State) : Prop where
  registered : ∀ topics, s.memory = some topics → ∀ t ∈ topics, Ready s.disk t
  task : ∀ entry ops, s.task = some (entry, ops) → entry.config.validate = .ok () ∧
    ∀ p < entry.partitionCount,
      DiskOp.putManifest entry.uuid p ∈ ops ∨ (s.disk.manifests entry.uuid p).isSome = true
  down : s.memory = none → Startable s.disk

section Steps

variable {s next : State}

/-- No operation of the registry takes a manifest away. -/
theorem apply_manifest (op : DiskOp) (result : IoResult) {disk : Disk} {uuid : String} {p : Nat}
    (present : (disk.manifests uuid p).isSome = true) :
    ((op.apply result disk).manifests uuid p).isSome = true := by
  cases op with
  | writeRegistry topics =>
    simp only [DiskOp.apply]
    split <;> exact present
  | createDir name q =>
    simp only [DiskOp.apply]
    split <;> exact present
  | putManifest u q =>
    simp only [DiskOp.apply]
    split
    · dsimp only
      split
      · rfl
      · exact present
    · exact present

theorem Ready.apply {t : TopicEntry} {disk : Disk} (ready : Ready disk t) (op : DiskOp)
    (result : IoResult) : Ready (op.apply result disk) t :=
  ⟨ready.1, fun p bound => apply_manifest op result (ready.2 p bound)⟩

theorem mem_remove {topics : List TopicEntry} {name : String} {t : TopicEntry}
    (member : t ∈ remove topics name) : t ∈ topics :=
  (List.mem_filter.mp member).1

theorem mem_insert {topics : List TopicEntry} {entry t : TopicEntry}
    (member : t ∈ insert topics entry) : t ∈ topics ∨ t = entry := by
  rcases List.mem_append.mp member with old | new
  · exact .inl (mem_remove old)
  · exact .inr (List.mem_singleton.mp new)

theorem mem_load {disk : Disk} {t : TopicEntry} (member : t ∈ load disk) : t ∈ disk.topics := by
  have from_fold (entries start : List TopicEntry) (member : t ∈ entries.foldl insert start) :
      t ∈ entries ∨ t ∈ start := by
    induction entries generalizing start with
    | nil => exact .inr member
    | cons entry rest ih =>
      rcases ih _ member with later | here
      · exact .inl (List.mem_cons_of_mem _ later)
      · rcases mem_insert here with old | rfl
        · exact .inr old
        · exact .inl List.mem_cons_self
  rcases from_fold disk.topics [] member with entry | nothing
  · exact entry
  · cases nothing

theorem find_mem {topics : List TopicEntry} {name : String} {entry : TopicEntry}
    (found : find topics name = some entry) : entry ∈ topics :=
  List.mem_of_find?_eq_some found

theorem ready_remove {topics : List TopicEntry} {disk : Disk} (ready : ∀ t ∈ topics, Ready disk t)
    (name : String) : ∀ t ∈ remove topics name, Ready disk t :=
  fun t member => ready t (mem_remove member)

theorem ready_insert {topics : List TopicEntry} {disk : Disk} (ready : ∀ t ∈ topics, Ready disk t)
    {entry : TopicEntry} (new : Ready disk entry) : ∀ t ∈ insert topics entry, Ready disk t := by
  intro t member
  rcases mem_insert member with old | rfl
  · exact ready t old
  · exact new

theorem ready_setConfig {topics : List TopicEntry} {disk : Disk} (ready : ∀ t ∈ topics, Ready disk t)
    (name : String) {config : TopicConfigOverrides} (valid : config.validate = .ok ()) :
    ∀ t ∈ setConfig topics name config, Ready disk t := by
  intro t member
  obtain ⟨old, known, rfl⟩ := List.mem_map.mp member
  have before := ready old known
  split
  · exact ⟨valid, before.2⟩
  · exact before

theorem ready_apply {topics : List TopicEntry} {disk : Disk} (ready : ∀ t ∈ topics, Ready disk t)
    (op : DiskOp) (result : IoResult) : ∀ t ∈ topics, Ready (op.apply result disk) t :=
  fun t member => (ready t member).apply op result

/-- One operation leaves what it leaves whether or not it succeeds. -/
theorem perform_single (io : Nat → IoResult) (op : DiskOp) (disk : Disk) :
    (perform io [op] disk).1 = op.apply (io 0) disk := by
  cases first : io 0 with
  | ok => simp [perform, first]
  | failed applied message => simp [perform, first]

theorem delete_ready {topics : List TopicEntry} {disk : Disk} (ready : ∀ t ∈ topics, Ready disk t)
    (io : Nat → IoResult) (name : String) :
    ∀ t ∈ (delete io ⟨topics, disk⟩ name).1.topics,
      Ready (delete io ⟨topics, disk⟩ name).1.disk t := by
  cases found : find topics name with
  | none =>
    simp only [delete, found]
    exact ready
  | some entry =>
    have kept := ready_remove (ready_apply ready (.writeRegistry (remove topics name)) (io 0)) name
    simp only [delete, found]
    split
    · simp only [perform_single]
      exact kept
    · simp only [perform_single]
      exact ready_insert kept ((ready entry (find_mem found)).apply _ _)

theorem alter_ready {topics : List TopicEntry} {disk : Disk} (ready : ∀ t ∈ topics, Ready disk t)
    (io : Nat → IoResult) (name : String) (patch : TopicConfigOverrides) :
    ∀ t ∈ (alter io ⟨topics, disk⟩ name patch).1.topics,
      Ready (alter io ⟨topics, disk⟩ name patch).1.disk t := by
  cases found : find topics name with
  | none =>
    simp only [alter, found]
    exact ready
  | some entry =>
    cases checked : (entry.config.merge patch).validate with
    | error e =>
      simp only [alter, found, checked]
      exact ready
    | ok _ =>
      have swapped := ready_setConfig (ready_apply ready
        (.writeRegistry (setConfig topics name (entry.config.merge patch))) (io 0)) name checked
      simp only [alter, found, checked]
      split
      · simp only [perform_single]
        exact swapped
      · simp only [perform_single]
        exact ready_setConfig swapped name (ready entry (find_mem found)).1

/-- A create that is let in has a valid config and a put ahead of it for each partition. -/
theorem createOps_task {topics : List TopicEntry} {entry : TopicEntry}
    (admitted : refusal topics entry = none) : entry.config.validate = .ok () ∧
      ∀ p < entry.partitionCount, DiskOp.putManifest entry.uuid p ∈ createOps topics entry := by
  constructor
  · cases checked : entry.config.validate with
    | error e => simp [refusal, checked] at admitted
    | ok _ => rfl
  · intro p bound
    simp [createOps, bound]

/-- What is left of a create after one successful operation. -/
theorem task_apply {disk : Disk} {entry : TopicEntry} {op : DiskOp} {rest : List DiskOp}
    (pending : ∀ p < entry.partitionCount, DiskOp.putManifest entry.uuid p ∈ op :: rest ∨
      (disk.manifests entry.uuid p).isSome = true) :
    ∀ p < entry.partitionCount, DiskOp.putManifest entry.uuid p ∈ rest ∨
      ((op.apply .ok disk).manifests entry.uuid p).isSome = true := by
  intro p bound
  rcases pending p bound with ahead | present
  · rcases List.mem_cons.mp ahead with rfl | later
    · exact .inr (by simp [DiskOp.apply, IoResult.applied])
    · exact .inl later
  · exact .inr (apply_manifest op .ok present)

section Taken

variable {topics : List TopicEntry} {disk : Disk} {entry : TopicEntry} {op : DiskOp}
  {rest : List DiskOp}

theorem step_refused {e : RegistryError} (refused : refusal topics entry = some e) :
    step (.begin entry) ⟨some topics, disk, none⟩ = some ⟨some topics, disk, none⟩ := by
  simp only [step, refused]

theorem step_begun (admitted : refusal topics entry = none) :
    step (.begin entry) ⟨some topics, disk, none⟩ =
      some ⟨some topics, disk, some (entry, createOps topics entry)⟩ := by
  simp only [step, admitted]

theorem step_failed {result : IoResult} (failed : result ≠ .ok) :
    step (.io result) ⟨some topics, disk, some (entry, op :: rest)⟩ =
      some ⟨some topics, op.apply result disk, none⟩ :=
  if_pos failed

theorem step_last : step (.io .ok) ⟨some topics, disk, some (entry, [op])⟩ =
    some ⟨some (insert topics entry), op.apply .ok disk, none⟩ := rfl

theorem step_further {second : DiskOp} :
    step (.io .ok) ⟨some topics, disk, some (entry, op :: second :: rest)⟩ =
      some ⟨some topics, op.apply .ok disk, some (entry, second :: rest)⟩ := rfl

end Taken

/-- A state between two requests of a running registry. -/
theorem Invariant.idle {topics : List TopicEntry} {disk : Disk}
    (ready : ∀ t ∈ topics, Ready disk t) : Invariant ⟨some topics, disk, none⟩ := by
  constructor
  · rintro _ ⟨⟩ t member
    exact ready t member
  · rintro entry ops ⟨⟩
  · rintro ⟨⟩

/-- A state in the middle of a create. -/
theorem Invariant.working {topics : List TopicEntry} {disk : Disk} {entry : TopicEntry}
    {ops : List DiskOp} (ready : ∀ t ∈ topics, Ready disk t) (config : entry.config.validate = .ok ())
    (pending : ∀ p < entry.partitionCount, DiskOp.putManifest entry.uuid p ∈ ops ∨
      (disk.manifests entry.uuid p).isSome = true) :
    Invariant ⟨some topics, disk, some (entry, ops)⟩ := by
  constructor
  · rintro _ ⟨⟩ t member
    exact ready t member
  · rintro _ _ ⟨⟩
    exact ⟨config, pending⟩
  · rintro ⟨⟩

theorem Invariant.begin (valid : Invariant s) {entry : TopicEntry}
    (taken : step (.begin entry) s = some next) : Invariant next := by
  obtain ⟨_ | topics, disk, _ | task⟩ := s
  case some.none =>
    have ready := valid.registered topics rfl
    cases refused : refusal topics entry with
    | some e =>
      rw [step_refused refused] at taken
      cases taken
      exact valid
    | none =>
      rw [step_begun refused] at taken
      cases taken
      have ahead := createOps_task refused
      exact .working ready ahead.1 fun p bound => .inl (ahead.2 p bound)
  all_goals cases taken

theorem Invariant.io (valid : Invariant s) {result : IoResult}
    (taken : step (.io result) s = some next) : Invariant next := by
  obtain ⟨_ | topics, disk, _ | ⟨entry, _ | ⟨op, rest⟩⟩⟩ := s
  case some.some.cons =>
    have ready := ready_apply (valid.registered topics rfl) op result
    obtain ⟨config, pending⟩ := valid.task entry (op :: rest) rfl
    by_cases failed : result ≠ .ok
    · rw [step_failed failed] at taken
      cases taken
      exact .idle ready
    · obtain rfl := not_not.mp failed
      have pending := task_apply pending
      cases rest with
      | nil =>
        rw [step_last] at taken
        cases taken
        apply Invariant.idle
        apply ready_insert ready
        refine ⟨config, fun p bound => ?_⟩
        simpa using pending p bound
      | cons second rest =>
        rw [step_further] at taken
        cases taken
        exact .working ready config pending
  all_goals cases taken

theorem Invariant.delete (valid : Invariant s) {name : String} {result : IoResult}
    (taken : step (.delete name result) s = some next) : Invariant next := by
  obtain ⟨_ | topics, disk, _ | task⟩ := s
  case some.none =>
    rw [← Option.some.inj taken]
    exact .idle (delete_ready (valid.registered topics rfl) _ name)
  all_goals cases taken

theorem Invariant.alter (valid : Invariant s) {name : String} {patch : TopicConfigOverrides}
    {result : IoResult} (taken : step (.alter name patch result) s = some next) :
    Invariant next := by
  obtain ⟨_ | topics, disk, _ | task⟩ := s
  case some.none =>
    rw [← Option.some.inj taken]
    exact .idle (alter_ready (valid.registered topics rfl) _ name patch)
  all_goals cases taken

/-- The crash finds every entry of `topics.json` in memory, and so with its manifests. -/
theorem Invariant.crash (valid : Invariant s) (synced : Synced s .crash)
    (taken : step .crash s = some next) : Invariant next := by
  rw [← Option.some.inj taken]
  constructor
  · rintro _ ⟨⟩
  · rintro _ _ ⟨⟩
  · intro _
    cases memory : s.memory with
    | none => exact valid.down memory
    | some topics =>
      intro t listed
      exact valid.registered topics memory t (synced topics memory t listed)

theorem Invariant.restart (valid : Invariant s) (taken : step .restart s = some next) :
    Invariant next := by
  obtain ⟨_ | topics, disk, task⟩ := s
  case none =>
    have startable := valid.down rfl
    have started : step .restart ⟨none, disk, task⟩ = some ⟨some (load disk), disk, task⟩ :=
      if_pos startable
    rw [started] at taken
    cases taken
    refine ⟨?_, valid.task, fun running => nomatch running⟩
    rintro _ ⟨⟩ t member
    exact startable t (mem_load member)
  case some => cases taken

/-- One step of any kind, the guard bearing on crashes only. -/
theorem Invariant.step {action : Action} (valid : Invariant s) (synced : Synced s action)
    (taken : TopicRegistry.step action s = some next) : Invariant next := by
  cases action with
  | begin entry => exact valid.begin taken
  | io result => exact valid.io taken
  | delete name result => exact valid.delete taken
  | alter name patch result => exact valid.alter taken
  | crash => exact valid.crash synced taken
  | restart => exact valid.restart taken

end Steps

theorem Invariant.initial : Invariant machine.initial := by
  apply Invariant.idle
  intro t member
  cases member

/-- The operations of a create one by one come to what `perform` makes of them at once. -/
theorem perform_leads (io : Nat → IoResult) (topics : List TopicEntry) (entry : TopicEntry)
    (op : DiskOp) (rest : List DiskOp) (disk : Disk) :
    machine.Leads ⟨some topics, disk, some (entry, op :: rest)⟩
      ⟨some (if (perform io (op :: rest) disk).2 = .ok () then insert topics entry else topics),
        (perform io (op :: rest) disk).1, none⟩ := by
  have fails : ∀ (op : DiskOp) (ops : List DiskOp) (disk : Disk) (applied : Bool) (message : String),
      machine.Leads ⟨some topics, disk, some (entry, op :: ops)⟩
        ⟨some topics, op.apply (.failed applied message) disk, none⟩ :=
    fun _ _ _ _ _ => Machine.Leads.step (.io _) (step_failed IoResult.noConfusion)
  induction rest generalizing io op disk with
  | nil =>
    cases first : io 0 with
    | ok =>
      have last : machine.Leads ⟨some topics, disk, some (entry, [op])⟩
          ⟨some (insert topics entry), op.apply .ok disk, none⟩ :=
        Machine.Leads.step (.io .ok) step_last
      simpa [perform, first] using last
    | failed applied message => simpa [perform, first] using fails op [] disk applied message
  | cons second rest ih =>
    cases first : io 0 with
    | ok =>
      have unfolded : perform io (op :: second :: rest) disk =
          perform (fun i => io (i + 1)) (second :: rest) (op.apply .ok disk) := by
        rw [perform, first]
      rw [unfolded]
      exact (Machine.Leads.step (.io .ok) step_further).trans (ih _ second _)
    | failed applied message => simpa [perform, first] using fails op (second :: rest) disk applied message

/-- A create that is not cut short is `create`. -/
theorem create_leads (io : Nat → IoResult) (r : Registry) (entry : TopicEntry) :
    machine.Leads ⟨some r.topics, r.disk, none⟩
      ⟨some (create io r entry).1.topics, (create io r entry).1.disk, none⟩ := by
  cases refused : refusal r.topics entry with
  | some e =>
    rw [create_refused refused]
    exact Machine.Leads.step (.begin entry) (step_refused refused)
  | none =>
    have begun : machine.Leads ⟨some r.topics, r.disk, none⟩
        ⟨some r.topics, r.disk, some (entry, createOps r.topics entry)⟩ :=
      Machine.Leads.step (.begin entry) (step_begun refused)
    apply begun.trans
    have performed : machine.Leads ⟨some r.topics, r.disk, some (entry, createOps r.topics entry)⟩
        ⟨some (if (perform io (createOps r.topics entry) r.disk).2 = .ok () then
            insert r.topics entry else r.topics),
          (perform io (createOps r.topics entry) r.disk).1, none⟩ :=
      perform_leads io r.topics entry _ _ r.disk
    cases result : (perform io (createOps r.topics entry) r.disk).2 with
    | ok _ => simpa [create, refused, result] using performed
    | error e => simpa [create, refused, result] using performed

instance (s : State) (action : Action) : Decidable (Synced s action) :=
  match action, s with
  | .crash, ⟨none, _, _⟩ => .isTrue fun _ same => nomatch same
  | .crash, ⟨some topics, disk, _⟩ =>
    decidable_of_iff (∀ t ∈ disk.topics, t ∈ topics)
      ⟨fun all _ same => Option.some.inj same ▸ all, fun all => all topics rfl⟩
  | .begin _, _ | .io _, _ | .delete _ _, _ | .alter _ _ _, _ | .restart, _ => .isTrue trivial

/-- Over any number of lives whose crashes all find `topics.json` in step with memory, the next
startup finds every topic with all of its manifests in place, and gets through. -/
theorem restart_succeeds {s : State} (reached : machine.Reaches Synced s)
    (down : s.memory = none) :
    Startable s.disk ∧ step .restart s = some { s with memory := some (load s.disk) } := by
  have valid := reached.invariant Invariant.initial
    (fun _ _ _ valid synced taken => valid.step synced taken)
  have startable := valid.down down
  obtain ⟨_ | topics, disk, task⟩ := s
  · exact ⟨startable, if_pos startable⟩
  · cases down

def orders : TopicEntry := ⟨"orders", "u1", 2, 1000, {}⟩

/-- A create, a delete that fails, an alter and a crash. -/
def crashedRun : List Action :=
  [.begin orders, .io .ok, .io .ok, .io .ok, .io .ok, .io .ok,
    .delete "orders" (.failed false "disk full"),
    .alter "orders" { retentionMs := some 1000 } .ok, .crash]

theorem restart_succeeds_crashedRun : ∃ s,
    machine.execute crashedRun machine.initial = some s ∧ s.disk.topics.map (·.name) = ["orders"] ∧
      Startable s.disk ∧ step .restart s = some { s with memory := some (load s.disk) } := by
  have runs : (machine.execute crashedRun machine.initial).any
      (fun s => s.memory.isNone && s.disk.topics.map (·.name) == ["orders"]) = true := by
    decide +kernel
  have along : machine.Along Synced crashedRun machine.initial := by decide +kernel
  obtain ⟨s, ran, facts⟩ := Option.any_eq_true _ _ |>.mp runs
  simp only [Bool.and_eq_true, beq_iff_eq, Option.isNone_iff_eq_none] at facts
  exact ⟨s, ran, facts.2, restart_succeeds ⟨crashedRun, along, ran⟩ facts.1⟩

/-- The process dies between the rewrite of `topics.json` and the first manifest put. -/
def halfCreatedRun : List Action := [.begin orders, .io .ok, .crash]

theorem restart_panics_halfCreatedRun : ∃ s,
    machine.execute halfCreatedRun machine.initial = some s ∧ s.memory = none ∧
      ¬ Startable s.disk ∧ step .restart s = some s := by
  have runs : (machine.execute halfCreatedRun machine.initial).any
      (fun s => s.memory.isNone && !decide (Startable s.disk)) = true := by
    decide +kernel
  obtain ⟨s, ran, facts⟩ := Option.any_eq_true _ _ |>.mp runs
  simp only [Bool.and_eq_true, Bool.not_eq_true', decide_eq_false_iff_not,
    Option.isNone_iff_eq_none] at facts
  obtain ⟨down, stuck⟩ := facts
  refine ⟨s, ran, down, stuck, ?_⟩
  obtain ⟨_ | topics, disk, task⟩ := s
  · exact if_neg stuck
  · cases down

end Kafkrs.TopicRegistry
