import Kafkrs.Lib.Machine
import Kafkrs.Lib.Slots
import Kafkrs.TopicConfig

/-! One topic's settings on their way from `topics.json` to its actors. The registry merges and
persists alters one at a time; each alter's handler then pushes its own result, in steps that
interleave with those of other alters and with the create that is still spawning partitions.
A blocked send is a step not taken yet. -/
namespace Kafkrs.AlterConfig

open Lib

/-- A partition in the handle map. Only `UpdateConfig` messages of the inboxes are kept. -/
structure Cell where
  writer : ResolvedTopicConfig
  writerInbox : List ResolvedTopicConfig
  uploader : ResolvedTopicConfig
  uploaderInbox : List ResolvedTopicConfig
  handle : ResolvedTopicConfig
  deriving DecidableEq, Repr

inductive Target where
  | writer
  | uploader
  | handle
  deriving DecidableEq, Repr

/-- The create that won the registration, with the config resolved from its own request. -/
inductive Creator where
  | absent
  | spawning (cfg : ResolvedTopicConfig)
  | returned
  deriving DecidableEq, Repr

inductive Alter where
  /-- Merged and persisted; the handles not read yet. -/
  | accepted (cfg : ResolvedTopicConfig)
  /-- The `UpdateConfig` sends to do, then the write to the handle map. -/
  | sending (cfg : ResolvedTopicConfig) (todo : List (Nat × Target))
  | returned
  deriving DecidableEq, Repr

structure State where
  /-- The overrides in `topics.json`, once the topic is registered. -/
  overrides : Option TopicConfigOverrides
  partitionCount : Nat
  creator : Creator
  /-- Partitions are inserted in order; the position is the partition number. -/
  cells : List Cell
  /-- In the order the registry accepted them. -/
  alters : List Alter
  deriving DecidableEq, Repr

inductive Action where
  | create (overrides : TopicConfigOverrides) (partitionCount : Nat)
  /-- The next `spawn_partition` of the create, or its reply after the last. -/
  | spawn
  | alter (patch : TopicConfigOverrides)
  /-- An alter reads the handle map; a hash map lists its entries in any order. -/
  | snapshot (alter : Nat) (order : List Nat)
  | send (alter : Nat)
  /-- The alter's write to the handle map, and its reply. -/
  | update (alter : Nat)
  | receive (partition : Nat) (target : Target)
  deriving DecidableEq, Repr

def Cell.new (cfg : ResolvedTopicConfig) : Cell := ⟨cfg, [], cfg, [], cfg⟩

def Cell.push (cfg : ResolvedTopicConfig) (c : Cell) : Target → Cell
  | .writer => { c with writerInbox := c.writerInbox ++ [cfg] }
  | .uploader => { c with uploaderInbox := c.uploaderInbox ++ [cfg] }
  | .handle => { c with handle := cfg }

def Cell.receive (c : Cell) : Target → Option Cell
  | .writer =>
    match c.writerInbox with
    | [] => none
    | cfg :: rest => some { c with writer := cfg, writerInbox := rest }
  | .uploader =>
    match c.uploaderInbox with
    | [] => none
    | cfg :: rest => some { c with uploader := cfg, uploaderInbox := rest }
  | .handle => none

def merged (overrides : Option TopicConfigOverrides) (patch : TopicConfigOverrides) :
    Option TopicConfigOverrides :=
  overrides.bind fun current =>
    if (current.merge patch).validate = .ok () then some (current.merge patch) else none

def step (disk : DiskType) : Action → State → Option State
  | .create overrides partitionCount, s =>
    if s.overrides = none ∧ overrides.validate = .ok () then
      some { s with
        overrides := some overrides
        partitionCount := partitionCount
        creator := .spawning (.resolve overrides disk) }
    else none
  | .spawn, s =>
    match s.creator with
    | .spawning cfg =>
      if s.cells.length < s.partitionCount then some { s with cells := s.cells ++ [.new cfg] }
      else some { s with creator := .returned }
    | _ => none
  | .alter patch, s =>
    (merged s.overrides patch).map fun result =>
      { s with
        overrides := some result
        alters := s.alters ++ [.accepted (.resolve result disk)] }
  | .snapshot alter order, s =>
    match s.alters[alter]? with
    | some (.accepted cfg) =>
      let todo := order.flatMap fun p => [(p, Target.writer), (p, Target.uploader)]
      if order.Perm (List.range s.cells.length) then
        some { s with alters := s.alters.set alter (.sending cfg todo) }
      else none
    | _ => none
  | .send alter, s =>
    match s.alters[alter]? with
    | some (.sending cfg ((p, target) :: todo)) =>
      some { s with
        cells := s.cells.modify p (fun c => c.push cfg target)
        alters := s.alters.set alter (.sending cfg todo) }
    | _ => none
  | .update alter, s =>
    match s.alters[alter]? with
    | some (.sending cfg []) =>
      some { s with
        cells := s.cells.map (fun c => c.push cfg .handle)
        alters := s.alters.set alter .returned }
    | _ => none
  | .receive p target, s =>
    s.cells[p]?.bind fun c => (c.receive target).map fun c' => { s with cells := s.cells.set p c' }

def machine (disk : DiskType) : Machine State Action := ⟨⟨none, 0, .absent, [], []⟩, step disk⟩

structure Quiescent (s : State) : Prop where
  created : s.creator = .returned
  altered : ∀ a ∈ s.alters, a = .returned
  received : ∀ c ∈ s.cells, c.writerInbox = [] ∧ c.uploaderInbox = []

instance (s : State) : Decidable (Quiescent s) :=
  decidable_of_iff (s.creator = .returned ∧ (∀ a ∈ s.alters, a = .returned) ∧
      ∀ c ∈ s.cells, c.writerInbox = [] ∧ c.uploaderInbox = [])
    ⟨fun h => ⟨h.1, h.2.1, h.2.2⟩, fun h => ⟨h.created, h.altered, h.received⟩⟩

def current (disk : DiskType) (s : State) : Option ResolvedTopicConfig :=
  s.overrides.map (ResolvedTopicConfig.resolve · disk)

/-- Every actor and handle of the topic has the persisted config. -/
def Agreed (disk : DiskType) (s : State) : Prop :=
  ∀ c ∈ s.cells, some c.writer = current disk s ∧ some c.uploader = current disk s ∧
    some c.handle = current disk s

instance (disk : DiskType) (s : State) : Decidable (Agreed disk s) :=
  inferInstanceAs (Decidable (∀ c ∈ s.cells, _))

/-- Whether an alter still has to push its config to the given place. -/
def Alter.ahead (p : Nat) (target : Target) : Alter → Bool
  | .accepted _ => true
  | .sending _ todo => target == .handle || (p, target) ∈ todo
  | .returned => false

/-- Whether the alter accepted last still has to pass the given place. -/
def ahead (s : State) (p : Nat) (target : Target) : Bool := s.alters.getLast?.any (·.ahead p target)

/-- Whether writing `cfg` to a place is harmless: it is the persisted config, or the alter
accepted last has yet to overwrite it. -/
def Timely (disk : DiskType) (s : State) (cfg : ResolvedTopicConfig) (p : Nat) (target : Target) :
    Prop :=
  some cfg = current disk s ∨ ahead s p target = true

instance (disk : DiskType) (s : State) (cfg : ResolvedTopicConfig) (p : Nat) (target : Target) :
    Decidable (Timely disk s cfg p target) :=
  inferInstanceAs (Decidable (_ ∨ _))

def writes (s : State) : Action → List (ResolvedTopicConfig × Nat × Target)
  | .spawn =>
    match s.creator with
    | .spawning cfg =>
      if s.cells.length < s.partitionCount then
        [Target.writer, .uploader, .handle].map fun target => (cfg, s.cells.length, target)
      else []
    | _ => []
  | .send alter =>
    match s.alters[alter]? with
    | some (.sending cfg ((p, target) :: _)) => [(cfg, p, target)]
    | _ => []
  | .update alter =>
    match s.alters[alter]? with
    | some (.sending cfg []) => (List.range s.cells.length).map fun p => (cfg, p, .handle)
    | _ => []
  | _ => []

/-- No step writes a config that is no longer the persisted one to a place that the alter
accepted last has already passed. -/
def InOrder (disk : DiskType) (s : State) (action : Action) : Prop :=
  ∀ w ∈ writes s action, Timely disk s w.1 w.2.1 w.2.2

instance (disk : DiskType) (s : State) (action : Action) : Decidable (InOrder disk s action) :=
  inferInstanceAs (Decidable (∀ w ∈ writes s action, _))

/-- The config a place holds once its inbox is empty. -/
def Cell.eventual (c : Cell) : Target → ResolvedTopicConfig
  | .writer => c.writerInbox.getLast?.getD c.writer
  | .uploader => c.uploaderInbox.getLast?.getD c.uploader
  | .handle => c.handle

def Alter.config : Alter → Option ResolvedTopicConfig
  | .accepted cfg | .sending cfg _ => some cfg
  | .returned => none

structure Invariant (disk : DiskType) (s : State) : Prop where
  unregistered : s.overrides = none → s.cells = [] ∧ s.alters = []
  newest : ∀ a cfg, s.alters.getLast? = some a → a.config = some cfg → some cfg = current disk s
  creator : ∀ cfg, s.creator = .spawning cfg → s.alters = [] → some cfg = current disk s
  settled : ∀ p c target, s.cells[p]? = some c → Timely disk s (c.eventual target) p target

theorem Cell.eventual_push (c : Cell) (cfg : ResolvedTopicConfig) (pushed target : Target) :
    (c.push cfg pushed).eventual target = if target = pushed then cfg else c.eventual target := by
  cases pushed <;> cases target <;> simp [push, eventual]

theorem Cell.eventual_receive {c c' : Cell} {received : Target}
    (taken : c.receive received = some c') (target : Target) :
    c'.eventual target = c.eventual target := by
  cases received with
  | writer =>
    cases inbox : c.writerInbox with
    | nil => simp [receive, inbox] at taken
    | cons cfg rest =>
      simp only [receive, inbox, Option.some.injEq] at taken
      subst taken
      cases target <;> simp [eventual, inbox, List.getLast?_cons]
  | uploader =>
    cases inbox : c.uploaderInbox with
    | nil => simp [receive, inbox] at taken
    | cons cfg rest =>
      simp only [receive, inbox, Option.some.injEq] at taken
      subst taken
      cases target <;> simp [eventual, inbox, List.getLast?_cons]
  | handle => simp [receive] at taken

section Steps

variable {disk : DiskType} {s next : State}

theorem newest_set_last {i : Nat} {old : Alter} (new : Alter) (found : s.alters[i]? = some old)
    (last : i + 1 = s.alters.length) :
    s.alters.getLast? = some old ∧ (s.alters.set i new).getLast? = some new := by
  constructor
  · rw [List.getLast?_eq_getElem?, ← last, Nat.add_sub_cancel, found]
  · rw [Slots.getLast?_set, if_pos last]

/-- Replacing an alter that is not the newest, or one that is ahead of no less after it. -/
theorem Timely.set {i : Nat} {old new : Alter} (found : s.alters[i]? = some old)
    {cfg : ResolvedTopicConfig} {p : Nat} {target : Target} (timely : Timely disk s cfg p target)
    (keeps : i + 1 = s.alters.length → old.ahead p target = true → new.ahead p target = true)
    (cells : List Cell) :
    Timely disk { s with alters := s.alters.set i new, cells := cells } cfg p target := by
  rcases timely with same | ahead
  · exact .inl same
  · right
    by_cases last : i + 1 = s.alters.length
    · obtain ⟨before, after⟩ := newest_set_last new found last
      simp only [AlterConfig.ahead, before, after, Option.any_some] at ahead ⊢
      exact keeps last ahead
    · simpa only [AlterConfig.ahead, Slots.getLast?_set, if_neg last] using ahead

theorem Invariant.newest_set (invariant : Invariant disk s) {i : Nat} {old new : Alter}
    (found : s.alters[i]? = some old) (same : ∀ cfg, new.config = some cfg → old.config = some cfg) :
    ∀ a cfg, (s.alters.set i new).getLast? = some a → a.config = some cfg →
      some cfg = current disk s := by
  intro a cfg newest config
  by_cases last : i + 1 = s.alters.length
  · obtain ⟨before, after⟩ := newest_set_last new found last
    rw [after, Option.some.injEq] at newest
    exact invariant.newest old cfg before (same cfg (newest ▸ config))
  · rw [Slots.getLast?_set, if_neg last] at newest
    exact invariant.newest a cfg newest config

/-- An alter moves on, and the places it leaves behind are settled. -/
theorem Invariant.advance (invariant : Invariant disk s) {i : Nat} {old new : Alter}
    (found : s.alters[i]? = some old) (same : ∀ cfg, new.config = some cfg → old.config = some cfg)
    {cells : List Cell}
    (settled : ∀ p c target, cells[p]? = some c →
      Timely disk { s with alters := s.alters.set i new, cells := cells } (c.eventual target) p target) :
    Invariant disk { s with alters := s.alters.set i new, cells := cells } := by
  have accepted := (List.getElem?_eq_some_iff.mp found).1
  refine ⟨?_, invariant.newest_set found same, ?_, settled⟩
  · intro absent
    have alters := (invariant.unregistered absent).2
    simp [alters] at found
  · intro cfg _ empty
    have length := congrArg List.length empty
    simp only [List.length_set, List.length_nil] at length
    omega

theorem Invariant.create (invariant : Invariant disk s) {overrides : TopicConfigOverrides}
    {partitionCount : Nat} (taken : step disk (.create overrides partitionCount) s = some next) :
    Invariant disk next := by
  simp only [step] at taken
  split at taken
  · rename_i free
    cases taken
    obtain ⟨cells, alters⟩ := invariant.unregistered free.1
    refine ⟨by simp, ?_, ?_, ?_⟩
    · simp [alters]
    · rintro cfg ⟨⟩ _
      rfl
    · simp [cells]
  · contradiction

theorem Invariant.spawn (invariant : Invariant disk s) (inOrder : InOrder disk s .spawn)
    (taken : step disk .spawn s = some next) : Invariant disk next := by
  simp only [step] at taken
  cases phase : s.creator with
  | absent => simp [phase] at taken
  | returned => simp [phase] at taken
  | spawning cfg =>
    simp only [phase] at taken
    split at taken
    · rename_i more
      cases taken
      refine ⟨?_, invariant.newest, ?_, ?_⟩
      · intro (absent : s.overrides = none)
        have known := invariant.creator cfg phase (invariant.unregistered absent).2
        simp [current, absent] at known
      · rintro _ ⟨⟩ alters
        exact invariant.creator cfg phase alters
      · intro p c target found
        rcases Slots.append_cases found with ⟨rfl, rfl⟩ | old
        · have timely := inOrder (cfg, s.cells.length, target)
            (by cases target <;> simp [writes, phase, more])
          cases target <;> exact timely
        · exact invariant.settled p c target old
    · cases taken
      exact ⟨invariant.unregistered, invariant.newest, by simp, invariant.settled⟩

theorem Invariant.alter {patch : TopicConfigOverrides}
    (taken : step disk (.alter patch) s = some next) : Invariant disk next := by
  obtain ⟨result, _, rfl⟩ := Option.map_eq_some_iff.mp taken
  refine ⟨by simp, ?_, by simp, ?_⟩
  · intro a cfg newest config
    simp only [List.getLast?_concat, Option.some.injEq] at newest
    subst newest
    cases config
    rfl
  · intro p c target _
    exact .inr (by simp [ahead, Alter.ahead])

theorem Invariant.snapshot (invariant : Invariant disk s) {i : Nat} {order : List Nat}
    (taken : step disk (.snapshot i order) s = some next) : Invariant disk next := by
  simp only [step] at taken
  split at taken
  · rename_i cfg found
    split at taken
    · rename_i all
      cases taken
      apply invariant.advance found (by simp [Alter.config])
      intro p c target here
      apply (invariant.settled p c target here).set found
      intro _ _
      -- Every partition in the map is among those read.
      have bound := (List.getElem?_eq_some_iff.mp here).1
      have read : p ∈ order := all.mem_iff.mpr (List.mem_range.mpr bound)
      cases target <;> simp [Alter.ahead, read]
    · contradiction
  · contradiction

theorem Alter.ahead_tail {cfg : ResolvedTopicConfig} {p q : Nat} {target other : Target}
    {todo : List (Nat × Target)} (different : (q, other) ≠ (p, target))
    (before : (Alter.sending cfg ((p, target) :: todo)).ahead q other = true) :
    (Alter.sending cfg todo).ahead q other = true := by
  simp only [Alter.ahead, Bool.or_eq_true, beq_iff_eq, decide_eq_true_eq, List.mem_cons] at *
  rcases before with handle | here | later
  · exact .inl handle
  · exact absurd here different
  · exact .inr later

/-- A place just written by an alter: the newest one wrote the persisted config. -/
theorem Invariant.written (invariant : Invariant disk s) {i : Nat} {old new : Alter}
    {cfg : ResolvedTopicConfig} {p : Nat} {target : Target} (found : s.alters[i]? = some old)
    (config : old.config = some cfg) (timely : Timely disk s cfg p target) (cells : List Cell) :
    Timely disk { s with alters := s.alters.set i new, cells := cells } cfg p target := by
  by_cases last : i + 1 = s.alters.length
  · obtain ⟨newest, _⟩ := newest_set_last new found last
    exact .inl (invariant.newest old cfg newest config)
  · exact timely.set found (fun here => absurd here last) cells

theorem Invariant.send (invariant : Invariant disk s) {i : Nat} (inOrder : InOrder disk s (.send i))
    (taken : step disk (.send i) s = some next) : Invariant disk next := by
  simp only [step] at taken
  split at taken
  · rename_i cfg p target todo found
    cases taken
    apply invariant.advance found (by simp [Alter.config])
    intro q c other here
    rcases Slots.modify_cases here with ⟨rfl, before, held, rfl⟩ | ⟨different, held⟩
    · rw [Cell.eventual_push]
      by_cases same : other = target
      · rw [if_pos same, same]
        exact invariant.written found rfl (inOrder (cfg, q, target) (by simp [writes, found])) _
      · rw [if_neg same]
        apply (invariant.settled q before other held).set found
        exact fun _ => Alter.ahead_tail (by simp [same])
    · apply (invariant.settled q c other held).set found
      exact fun _ => Alter.ahead_tail (by simp [different])
  · contradiction

theorem Invariant.update (invariant : Invariant disk s) {i : Nat}
    (inOrder : InOrder disk s (.update i)) (taken : step disk (.update i) s = some next) :
    Invariant disk next := by
  simp only [step] at taken
  split at taken
  · rename_i cfg found
    cases taken
    apply invariant.advance found (by simp [Alter.config])
    intro p c target here
    rw [List.getElem?_map] at here
    obtain ⟨before, held, rfl⟩ := Option.map_eq_some_iff.mp here
    have bound := (List.getElem?_eq_some_iff.mp held).1
    rw [Cell.eventual_push]
    by_cases handle : target = .handle
    · rw [if_pos handle, handle]
      exact invariant.written found rfl (inOrder (cfg, p, .handle) (by simp [writes, found, bound])) _
    · rw [if_neg handle]
      apply (invariant.settled p before target held).set found
      simp [Alter.ahead, handle]
  · contradiction

theorem Invariant.receive (invariant : Invariant disk s) {p : Nat} {target : Target}
    (taken : step disk (.receive p target) s = some next) : Invariant disk next := by
  obtain ⟨c, held, mapped⟩ := Option.bind_eq_some_iff.mp taken
  obtain ⟨c', received, rfl⟩ := Option.map_eq_some_iff.mp mapped
  refine ⟨?_, invariant.newest, invariant.creator, ?_⟩
  · intro absent
    obtain ⟨cells, alters⟩ := invariant.unregistered absent
    simp [cells] at held
  · intro q other place here
    rcases Slots.set_cases here with ⟨rfl, rfl⟩ | ⟨_, old⟩
    · rw [Cell.eventual_receive received]
      exact invariant.settled q c place held
    · exact invariant.settled q other place old

theorem Invariant.step (invariant : Invariant disk s) {action : Action}
    (inOrder : InOrder disk s action) (taken : step disk action s = some next) :
    Invariant disk next := by
  cases action with
  | create overrides partitionCount => exact invariant.create taken
  | spawn => exact invariant.spawn inOrder taken
  | alter patch => exact Invariant.alter taken
  | snapshot i order => exact invariant.snapshot taken
  | send i => exact invariant.send inOrder taken
  | update i => exact invariant.update inOrder taken
  | receive p target => exact invariant.receive taken

theorem initial_invariant : Invariant disk (machine disk).initial :=
  ⟨fun _ => ⟨rfl, rfl⟩, by simp [machine], by simp [machine], by simp [machine]⟩

/-- Nothing is ahead of a place once every alter has replied. -/
theorem Quiescent.timely (quiescent : Quiescent s) {cfg : ResolvedTopicConfig} {p : Nat}
    {target : Target} (timely : Timely disk s cfg p target) : some cfg = current disk s := by
  rcases timely with same | ahead
  · exact same
  · obtain ⟨a, newest, ahead⟩ := Option.any_eq_true _ _ |>.mp ahead
    rw [quiescent.altered a (List.mem_of_getLast? newest)] at ahead
    contradiction

end Steps

/-- In every run whose pushes are in order, all actors and handles agree with `topics.json` at
every point where the RPCs have replied and the inboxes are drained. -/
theorem config_agrees (disk : DiskType) {s : State}
    (reached : (machine disk).Reaches (InOrder disk) s) (quiescent : Quiescent s) :
    Agreed disk s := by
  have invariant : Invariant disk s := Machine.Reaches.invariant initial_invariant
    (fun _ _ _ invariant inOrder taken => invariant.step inOrder taken) reached
  intro c member
  obtain ⟨p, held⟩ := List.getElem?_of_mem member
  obtain ⟨writer, uploader⟩ := quiescent.received c member
  have settled (target) := quiescent.timely (invariant.settled p c target held)
  refine ⟨?_, ?_, settled .handle⟩
  · simpa [Cell.eventual, writer] using settled .writer
  · simpa [Cell.eventual, uploader] using settled .uploader

/-- A create with two partitions and two alters: the first accepted while the second partition
is still to be spawned, the second accepted when the first has already sent. -/
def overlappingRun : List Action :=
  [.create {} 2, .spawn, .alter { retentionMs := some 1000 }, .spawn, .spawn, .snapshot 0 [1, 0],
    .send 0, .send 0, .send 0, .alter { retentionBytes := some 4096 }, .send 0, .update 0,
    .snapshot 1 [0, 1], .send 1, .send 1, .send 1, .send 1, .update 1, .receive 0 .writer,
    .receive 0 .writer, .receive 0 .uploader, .receive 0 .uploader, .receive 1 .writer,
    .receive 1 .writer, .receive 1 .uploader, .receive 1 .uploader]

theorem config_agrees_overlappingRun : ∃ s,
    (machine .nvme).execute overlappingRun (machine .nvme).initial = some s ∧
      (s.overrides = some { retentionMs := some 1000, retentionBytes := some 4096 } ∧
        s.cells.length = 2 ∧ Quiescent s) ∧ Agreed .nvme s := by
  have runs : ((machine .nvme).execute overlappingRun (machine .nvme).initial).any
      (fun s => decide (s.overrides = some { retentionMs := some 1000, retentionBytes := some 4096 } ∧
        s.cells.length = 2 ∧ Quiescent s)) = true := by decide +kernel
  have along : (machine .nvme).Along (InOrder .nvme) overlappingRun (machine .nvme).initial := by
    decide +kernel
  obtain ⟨s, ran, facts⟩ := Option.any_eq_true _ _ |>.mp runs
  have facts := of_decide_eq_true facts
  exact ⟨s, ran, facts, config_agrees .nvme ⟨overlappingRun, along, ran⟩ facts.2.2⟩

/-- An alter accepted after the registration and before the spawn: it finds no handle to send
to, and the partition then starts with the config of the create's own request. -/
def racingRun : List Action :=
  [.create {} 1, .alter { retentionMs := some 1000 }, .snapshot 0 [], .update 0, .spawn, .spawn]

theorem config_disagrees_racingRun : ∃ s,
    (machine .nvme).execute racingRun (machine .nvme).initial = some s ∧ Quiescent s ∧
      ¬ Agreed .nvme s := by
  have runs : ((machine .nvme).execute racingRun (machine .nvme).initial).any
      (fun s => decide (Quiescent s ∧ ¬ Agreed .nvme s)) = true := by decide +kernel
  obtain ⟨s, ran, facts⟩ := Option.any_eq_true _ _ |>.mp runs
  exact ⟨s, ran, of_decide_eq_true facts⟩

end Kafkrs.AlterConfig
