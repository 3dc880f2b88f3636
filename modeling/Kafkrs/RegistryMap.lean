import Kafkrs.Lib.Keyed
import Kafkrs.TopicRegistry
import Mathlib.Data.Option.Basic
import Mathlib.Logic.Function.Basic

/-! The registry actor with its hash map as a map: each entry stands under a key, and a rewrite
of `topics.json` lists the values in whatever order the map iterates. A ledger kept from the
replies alone says what the map should hold. -/
namespace Kafkrs.RegistryMap

open Lib
open Kafkrs.TopicRegistry (TopicEntry RegistryError IoResult Disk DiskOp perform createOps
  perform_ok_iff perform_createOps)

abbrev Topics := Std.ExtTreeMap String TopicEntry

structure Iteration where
  values : Topics → List TopicEntry
  lists : ∀ topics, Lists (values topics) topics

structure Registry where
  topics : Topics
  disk : Disk

/-- What the handling of one message takes from its surroundings. -/
structure Draw where
  iteration : Iteration
  io : Nat → IoResult
  uuid : String
  createdAtNs : Int64

/-- `none` when an entry's config is invalid, where the source panics. -/
def load (disk : Disk) : Option Topics :=
  if ∀ t ∈ disk.topics, t.config.validate = .ok () then
    some (collect TopicEntry.name disk.topics)
  else none

def create (d : Draw) (r : Registry) (name : String) (partitionCount : Nat)
    (overrides : TopicConfigOverrides) : Registry × Except RegistryError String :=
  match overrides.validate with
  | .error e => (r, .error (.invalidConfig e.display))
  | .ok _ =>
    if r.topics.contains name then (r, .error .alreadyExists)
    else
      let entry : TopicEntry := ⟨name, d.uuid, partitionCount, d.createdAtNs, overrides⟩
      let (disk, result) := perform d.io (createOps (d.iteration.values r.topics) entry) r.disk
      match result with
      | .ok _ => (⟨r.topics.insert name entry, disk⟩, .ok entry.uuid)
      | .error e => (⟨r.topics, disk⟩, .error e)

def ensureExists (d : Draw) (r : Registry) (name : String) (partitionCount : Nat) :
    Registry × Except RegistryError String :=
  if r.topics.contains name then (r, .error .alreadyExists)
  else create d r name partitionCount {}

def delete (d : Draw) (r : Registry) (name : String) :
    Registry × Except RegistryError (String × Nat) :=
  match r.topics[name]? with
  | none => (r, .error .unknownTopic)
  | some entry =>
    let topics := r.topics.erase name
    let (disk, result) := perform d.io [.writeRegistry (d.iteration.values topics)] r.disk
    match result with
    | .ok _ => (⟨topics, disk⟩, .ok (entry.uuid, entry.partitionCount))
    | .error e => (⟨topics.insert name entry, disk⟩, .error e)

def alter (d : Draw) (r : Registry) (name : String) (patch : TopicConfigOverrides) :
    Registry × Except RegistryError TopicConfigOverrides :=
  match r.topics[name]? with
  | none => (r, .error .unknownTopic)
  | some entry =>
    let merged := entry.config.merge patch
    match merged.validate with
    | .error e => (r, .error (.invalidConfig e.display))
    | .ok _ =>
      let topics := r.topics.insert name { entry with config := merged }
      let (disk, result) := perform d.io [.writeRegistry (d.iteration.values topics)] r.disk
      match result with
      | .ok _ => (⟨topics, disk⟩, .ok merged)
      | .error e => (⟨topics.modify name fun t => { t with config := entry.config }, disk⟩, .error e)

inductive Msg where
  | create (name : String) (partitionCount : Nat) (overrides : TopicConfigOverrides)
  | describe (name : String)
  | list
  | ensureExists (name : String) (partitionCount : Nat)
  | delete (name : String)
  | alter (name : String) (patch : TopicConfigOverrides)
  | snapshot

inductive Reply where
  | created (result : Except RegistryError String)
  | described (entry : Option TopicEntry)
  | listed (names : List String)
  | deleted (result : Except RegistryError (String × Nat))
  | altered (result : Except RegistryError TopicConfigOverrides)
  | entries (entries : List TopicEntry)

/-- One round of `TopicRegistry::run`. -/
def serve (d : Draw) (r : Registry) : Msg → Registry × Reply
  | .create name partitionCount overrides =>
    ((create d r name partitionCount overrides).1, .created (create d r name partitionCount overrides).2)
  | .describe name => (r, .described r.topics[name]?)
  | .list => (r, .listed ((d.iteration.values r.topics).map (·.name)))
  | .ensureExists name partitionCount =>
    ((ensureExists d r name partitionCount).1, .created (ensureExists d r name partitionCount).2)
  | .delete name => ((delete d r name).1, .deleted (delete d r name).2)
  | .alter name patch => ((alter d r name patch).1, .altered (alter d r name patch).2)
  | .snapshot => (r, .entries (d.iteration.values r.topics))

section Ledger

/-- A topic as its create and its successful alters left it. -/
structure Lineage where
  created : TopicEntry
  patches : List TopicConfigOverrides

abbrev Ledger := String → Option Lineage

def Ledger.note (d : Draw) (ledger : Ledger) : Msg → Reply → Ledger
  | .create name partitionCount overrides, .created (.ok _) =>
    Function.update ledger name
      (some ⟨⟨name, d.uuid, partitionCount, d.createdAtNs, overrides⟩, []⟩)
  | .ensureExists name partitionCount, .created (.ok _) =>
    Function.update ledger name (some ⟨⟨name, d.uuid, partitionCount, d.createdAtNs, {}⟩, []⟩)
  | .delete name, .deleted (.ok _) => Function.update ledger name none
  | .alter name patch, .altered (.ok _) =>
    Function.update ledger name
      ((ledger name).map fun l => { l with patches := l.patches ++ [patch] })
  | _, _ => ledger

/-- An ensure is noted as a create without overrides. -/
theorem Ledger.note_ensureExists (d : Draw) (ledger : Ledger) (name : String) (partitionCount : Nat)
    (result : Except RegistryError String) :
    ledger.note d (.ensureExists name partitionCount) (.created result) =
      ledger.note d (.create name partitionCount {}) (.created result) := by
  cases result <;> rfl

/-- The value of the last layer that sets one. -/
def lastSet {α : Type} (layers : List (Option α)) : Option α := layers.reverse.findSome? id

/-- Each field of the config is what the last layer that sets it gives it. -/
structure Layered (layers : List TopicConfigOverrides) (config : TopicConfigOverrides) : Prop where
  segmentSizeBytes : config.segmentSizeBytes = lastSet (layers.map (·.segmentSizeBytes))
  segmentSealTimeMs : config.segmentSealTimeMs = lastSet (layers.map (·.segmentSealTimeMs))
  maxKeySizeBytes : config.maxKeySizeBytes = lastSet (layers.map (·.maxKeySizeBytes))
  maxValueSizeBytes : config.maxValueSizeBytes = lastSet (layers.map (·.maxValueSizeBytes))
  groupCommitTimeMs : config.groupCommitTimeMs = lastSet (layers.map (·.groupCommitTimeMs))
  groupCommitSizeBytes :
    config.groupCommitSizeBytes = lastSet (layers.map (·.groupCommitSizeBytes))
  groupCommitRecordCount :
    config.groupCommitRecordCount = lastSet (layers.map (·.groupCommitRecordCount))
  maxFetchWaitMs : config.maxFetchWaitMs = lastSet (layers.map (·.maxFetchWaitMs))
  retentionMs : config.retentionMs = lastSet (layers.map (·.retentionMs))
  retentionBytes : config.retentionBytes = lastSet (layers.map (·.retentionBytes))

/-- An entry has its identity from its create, its config from the create and the patches. -/
structure Descends (entry : TopicEntry) (lineage : Lineage) : Prop where
  uuid : entry.uuid = lineage.created.uuid
  partitionCount : entry.partitionCount = lineage.created.partitionCount
  createdAtNs : entry.createdAtNs = lineage.created.createdAtNs
  config : Layered (lineage.created.config :: lineage.patches) entry.config

end Ledger

structure State where
  registry : Registry
  ledger : Ledger

inductive Action where
  | serve (draw : Draw) (msg : Msg)
  /-- The process goes down between two messages and loads the registry again. -/
  | restart

def step : Action → State → Option State
  | .serve d msg, s =>
    some ⟨(serve d s.registry msg).1, s.ledger.note d msg (serve d s.registry msg).2⟩
  | .restart, s => (load s.registry.disk).map fun topics => { s with registry.topics := topics }

def machine : Machine State Action := ⟨⟨⟨∅, ⟨none, [], fun _ _ => none⟩⟩, fun _ => none⟩, step⟩

def Msg.creates : Msg → Nat
  | .create _ partitionCount _ | .ensureExists _ partitionCount => partitionCount
  | _ => 0

/-- In a create, what comes after the rewrite of `topics.json` succeeds: a directory and a
manifest for each partition. -/
def LateSteps (_ : State) : Action → Prop
  | .serve d msg => ∀ i < 2 * msg.creates, d.io (i + 1) = .ok
  | .restart => True

section Layers

variable {α : Type}

theorem lastSet_concat (layers : List (Option α)) (top : Option α) :
    lastSet (layers ++ [top]) = top.or (lastSet layers) := by
  cases top with
  | none => simp [lastSet]
  | some v => simp [lastSet]

theorem lastSet_single (layer : Option α) : lastSet [layer] = layer := by
  cases layer <;> rfl

theorem layered_single (config : TopicConfigOverrides) : Layered [config] config := by
  constructor <;> exact (lastSet_single _).symm

/-- A patch merged in is one more layer. -/
theorem Layered.merge {layers : List TopicConfigOverrides} {config : TopicConfigOverrides}
    (layered : Layered layers config) (patch : TopicConfigOverrides) :
    Layered (layers ++ [patch]) (config.merge patch) := by
  constructor <;> simp only [TopicConfigOverrides.merge, List.map_append, List.map_cons,
    List.map_nil, lastSet_concat]
  · rw [layered.segmentSizeBytes]
  · rw [layered.segmentSealTimeMs]
  · rw [layered.maxKeySizeBytes]
  · rw [layered.maxValueSizeBytes]
  · rw [layered.groupCommitTimeMs]
  · rw [layered.groupCommitSizeBytes]
  · rw [layered.groupCommitRecordCount]
  · rw [layered.maxFetchWaitMs]
  · rw [layered.retentionMs]
  · rw [layered.retentionBytes]

end Layers

section Loading

variable {disk : Disk} {topics : Topics}

theorem load_congr {other : Disk} (same : other.topicsJson = disk.topicsJson) :
    load other = load disk := by
  have topics : other.topics = disk.topics := by simp only [Disk.topics, same]
  unfold load
  rw [topics]

theorem load_written {values : List TopicEntry} (written : disk.topicsJson = some values)
    (valid : ∀ t ∈ values, t.config.validate = .ok ()) :
    load disk = some (collect TopicEntry.name values) := by
  have topics : disk.topics = values := by simp [Disk.topics, written]
  unfold load
  rw [topics, if_pos valid]

/-- A rewrite that fails leaves the file, one that succeeds replaces it. -/
theorem perform_write (io : Nat → IoResult) (values : List TopicEntry) (disk : Disk) :
    (perform io [.writeRegistry values] disk = (⟨some values, disk.walDirs, disk.manifests⟩, .ok ())) ∨
      ∃ e, perform io [.writeRegistry values] disk = (disk, .error e) := by
  cases first : io 0 with
  | ok => exact .inl (by simp [perform, first, DiskOp.apply])
  | failed applied message => exact .inr ⟨.io message, by simp [perform, first, DiskOp.apply]⟩

end Loading

/-- The file loads back as the map, every key is its entry's name, every config is valid. -/
structure Registry.Sound (r : Registry) : Prop where
  loads : load r.disk = some r.topics
  keyed : Keyed TopicEntry.name r.topics
  valid : ∀ (name : String) t, r.topics[name]? = some t → t.config.validate = .ok ()

section Operations

variable {d : Draw} {r : Registry} {name : String}

/-- A request that is turned down, or whose rewrite fails, changes nothing. -/
structure Unchanged (r after : Registry) : Prop where
  topics : after.topics = r.topics
  loads : load after.disk = load r.disk

theorem Registry.Sound.unchanged {after : Registry} (sound : r.Sound) (same : Unchanged r after) :
    after.Sound := by
  refine ⟨?_, ?_, ?_⟩
  · rw [same.loads, same.topics]
    exact sound.loads
  · rw [same.topics]
    exact sound.keyed
  · rw [same.topics]
    exact sound.valid

/-- A map rewritten in full is sound. -/
theorem Registry.Sound.rewritten {topics : Topics} {disk : Disk} {values : List TopicEntry}
    (keyed : Keyed TopicEntry.name topics)
    (valid : ∀ (name : String) t, topics[name]? = some t → t.config.validate = .ok ())
    (lists : Lists values topics) (written : disk.topicsJson = some values) :
    (⟨topics, disk⟩ : Registry).Sound := by
  refine ⟨?_, keyed, valid⟩
  rw [load_written written, collect_lists lists keyed]
  intro t member
  obtain ⟨name, found⟩ := lists.mem.mp member
  exact valid name t found

/-- The map and the file with one more topic. -/
theorem Registry.Sound.grown (sound : r.Sound) {entry : TopicEntry} {disk : Disk}
    {values : List TopicEntry} (fresh : r.topics[entry.name]? = none)
    (accepted : entry.config.validate = .ok ()) (lists : Lists values r.topics)
    (written : disk.topicsJson = some (values ++ [entry])) :
    (⟨r.topics.insert entry.name entry, disk⟩ : Registry).Sound := by
  have valid (t : TopicEntry) (member : t ∈ values ++ [entry]) : t.config.validate = .ok () := by
    rcases List.mem_append.mp member with old | new
    · obtain ⟨other, found⟩ := lists.mem.mp old
      exact sound.valid other t found
    · rw [List.mem_singleton.mp new]
      exact accepted
  refine ⟨?_, sound.keyed.insert entry, fun other t found => ?_⟩
  · rw [load_written written valid, collect_concat lists sound.keyed fresh]
  · rw [Std.ExtTreeMap.getElem?_insert] at found
    split at found
    · cases found
      exact accepted
    · exact sound.valid other t found

/-- When what comes after the rewrite succeeds, the create ends as its rewrite does. -/
theorem create_io {io : Nat → IoResult} (topics : List TopicEntry) (entry : TopicEntry) (disk : Disk)
    (late : ∀ i < 2 * entry.partitionCount, io (i + 1) = .ok) :
    ((perform io (createOps topics entry) disk).2 = .ok () ∧
        (perform io (createOps topics entry) disk).1.topicsJson = some (topics ++ [entry])) ∨
      ∃ e, (perform io (createOps topics entry) disk).2 = .error e ∧
        (perform io (createOps topics entry) disk).1.topicsJson = disk.topicsJson := by
  have written : (perform io (createOps topics entry) disk).1.topicsJson = _ :=
    perform_createOps topics entry disk
  have ended := perform_ok_iff io (createOps topics entry) disk
  by_cases rewrote : io 0 = .ok
  · refine .inl ⟨ended.mpr fun i bound => ?_, by rw [written, if_pos rewrote]⟩
    cases i with
    | zero => exact rewrote
    | succ i =>
      apply late
      simp only [createOps, List.length_cons, List.length_append, List.length_map,
        List.length_range] at bound
      omega
  · rw [if_neg rewrote] at written
    cases result : (perform io (createOps topics entry) disk).2 with
    | ok _ => exact absurd (ended.mp result 0 (by simp [createOps])) rewrote
    | error e => exact .inr ⟨e, rfl, written⟩

/-- Over the listing of the map it answers, and leaves the disk, as the registry kept as a list
does. -/
theorem create_listed (d : Draw) {r : Registry} (keyed : Keyed TopicEntry.name r.topics)
    (name : String) (partitionCount : Nat) (overrides : TopicConfigOverrides) :
    ((create d r name partitionCount overrides).2, (create d r name partitionCount overrides).1.disk) =
      ((TopicRegistry.create d.io ⟨d.iteration.values r.topics, r.disk⟩
          ⟨name, d.uuid, partitionCount, d.createdAtNs, overrides⟩).2,
        (TopicRegistry.create d.io ⟨d.iteration.values r.topics, r.disk⟩
          ⟨name, d.uuid, partitionCount, d.createdAtNs, overrides⟩).1.disk) := by
  have known : TopicRegistry.contains (d.iteration.values r.topics) name = r.topics.contains name := by
    rw [Bool.eq_iff_iff, TopicRegistry.contains, List.any_eq_true, Std.ExtTreeMap.contains_iff_mem,
      ← Std.ExtTreeMap.isSome_getElem?_iff_mem, Option.isSome_iff_exists]
    constructor
    · rintro ⟨t, member, same⟩
      obtain ⟨other, found⟩ := (d.iteration.lists r.topics).mem.mp member
      refine ⟨t, ?_⟩
      rw [← beq_iff_eq.mp same, keyed other t found]
      exact found
    · rintro ⟨t, found⟩
      exact ⟨t, (d.iteration.lists r.topics).mem.mpr ⟨name, found⟩, beq_iff_eq.mpr (keyed name t found)⟩
  cases checked : overrides.validate with
  | error e => simp only [create, TopicRegistry.create, TopicRegistry.refusal, checked]
  | ok _ =>
    simp only [create, TopicRegistry.create, TopicRegistry.refusal, checked, known]
    split
    · rfl
    · cases (perform d.io (createOps (d.iteration.values r.topics)
        ⟨name, d.uuid, partitionCount, d.createdAtNs, overrides⟩) r.disk).2 <;> rfl

theorem create_cases (sound : r.Sound) {partitionCount : Nat} {overrides : TopicConfigOverrides}
    (late : ∀ i < 2 * partitionCount, d.io (i + 1) = .ok) :
    (∃ e, (create d r name partitionCount overrides).2 = .error e ∧
        Unchanged r (create d r name partitionCount overrides).1) ∨
      ((create d r name partitionCount overrides).2 = .ok d.uuid ∧
        (create d r name partitionCount overrides).1.topics =
          r.topics.insert name ⟨name, d.uuid, partitionCount, d.createdAtNs, overrides⟩ ∧
        (create d r name partitionCount overrides).1.Sound) := by
  cases checked : overrides.validate with
  | error e =>
    simp only [create, checked]
    exact .inl ⟨_, rfl, rfl, rfl⟩
  | ok _ =>
    cases known : r.topics.contains name with
    | true =>
      simp only [create, checked, known, if_true]
      exact .inl ⟨_, rfl, rfl, rfl⟩
    | false =>
      have fresh : r.topics[name]? = none := by
        rw [← Option.not_isSome_iff_eq_none, Std.ExtTreeMap.isSome_getElem?_eq_contains, known]
        decide
      rcases create_io (d.iteration.values r.topics)
          ⟨name, d.uuid, partitionCount, d.createdAtNs, overrides⟩ r.disk late with
        ⟨result, written⟩ | ⟨e, result, written⟩
      · simp only [create, checked, known, Bool.false_eq_true, if_false, result]
        exact .inr ⟨trivial, trivial,
          sound.grown fresh checked (d.iteration.lists r.topics) written⟩
      · simp only [create, checked, known, Bool.false_eq_true, if_false, result]
        exact .inl ⟨e, rfl, rfl, load_congr written⟩

theorem ensureExists_cases (sound : r.Sound) {partitionCount : Nat}
    (late : ∀ i < 2 * partitionCount, d.io (i + 1) = .ok) :
    (∃ e, (ensureExists d r name partitionCount).2 = .error e ∧
        Unchanged r (ensureExists d r name partitionCount).1) ∨
      ((ensureExists d r name partitionCount).2 = .ok d.uuid ∧
        (ensureExists d r name partitionCount).1.topics =
          r.topics.insert name ⟨name, d.uuid, partitionCount, d.createdAtNs, {}⟩ ∧
        (ensureExists d r name partitionCount).1.Sound) := by
  cases known : r.topics.contains name with
  | true =>
    simp only [ensureExists, known, if_true]
    exact .inl ⟨_, rfl, rfl, rfl⟩
  | false =>
    simp only [ensureExists, known, Bool.false_eq_true, if_false]
    exact create_cases sound late

theorem delete_cases (d : Draw) (name : String) (sound : r.Sound) :
    (∃ e, (delete d r name).2 = .error e ∧ Unchanged r (delete d r name).1) ∨
      ((∃ entry, (delete d r name).2 = .ok entry) ∧
        (delete d r name).1.topics = r.topics.erase name ∧ (delete d r name).1.Sound) := by
  cases found : r.topics[name]? with
  | none =>
    simp only [delete, found]
    exact .inl ⟨_, rfl, rfl, rfl⟩
  | some entry =>
    rcases perform_write d.io (d.iteration.values (r.topics.erase name)) r.disk with
      written | ⟨e, failed⟩
    · simp only [delete, found, written]
      refine .inr ⟨⟨_, rfl⟩, trivial, .rewritten (sound.keyed.erase name) ?_
        (d.iteration.lists _) rfl⟩
      intro other t kept
      rw [Std.ExtTreeMap.getElem?_erase] at kept
      split at kept
      · cases kept
      · exact sound.valid other t kept
    · simp only [delete, found, failed]
      refine .inl ⟨e, rfl, ?_, rfl⟩
      -- The entry goes back under its name.
      apply Std.ExtTreeMap.ext_getElem?
      intro other
      rw [Std.ExtTreeMap.getElem?_insert, Std.ExtTreeMap.getElem?_erase]
      split
      next same => rw [← Std.LawfulEqOrd.eq_of_compare same, found]
      next => rfl

theorem alter_cases (d : Draw) (name : String) (sound : r.Sound) (patch : TopicConfigOverrides) :
    (∃ e, (alter d r name patch).2 = .error e ∧ Unchanged r (alter d r name patch).1) ∨
      ∃ entry, r.topics[name]? = some entry ∧
        (alter d r name patch).2 = .ok (entry.config.merge patch) ∧
        (alter d r name patch).1.topics =
          r.topics.insert name { entry with config := entry.config.merge patch } ∧
        (alter d r name patch).1.Sound := by
  cases found : r.topics[name]? with
  | none =>
    simp only [alter, found]
    exact .inl ⟨_, rfl, rfl, rfl⟩
  | some entry =>
    cases checked : (entry.config.merge patch).validate with
    | error e =>
      simp only [alter, found, checked]
      exact .inl ⟨_, rfl, rfl, rfl⟩
    | ok _ =>
      have keyed : Keyed TopicEntry.name
          (r.topics.insert name { entry with config := entry.config.merge patch }) := by
        rw [← sound.keyed name entry found]
        exact sound.keyed.insert { entry with config := entry.config.merge patch }
      rcases perform_write d.io (d.iteration.values
          (r.topics.insert name { entry with config := entry.config.merge patch })) r.disk with
        written | ⟨e, failed⟩
      · simp only [alter, found, checked, written]
        refine .inr ⟨entry, rfl, rfl, rfl, .rewritten keyed ?_ (d.iteration.lists _) rfl⟩
        intro other t kept
        rw [Std.ExtTreeMap.getElem?_insert] at kept
        split at kept
        · cases kept
          exact checked
        · exact sound.valid other t kept
      · simp only [alter, found, checked, failed]
        refine .inl ⟨e, rfl, ?_, rfl⟩
        -- The swapped entry gets its old config back.
        apply Std.ExtTreeMap.ext_getElem?
        intro other
        rw [Std.ExtTreeMap.getElem?_modify, Std.ExtTreeMap.getElem?_insert_self,
          Std.ExtTreeMap.getElem?_insert]
        split
        next same => rw [← Std.LawfulEqOrd.eq_of_compare same, found, Option.map_some]
        next => rfl

/-- An alter changes the config of the entry it names and nothing else. -/
theorem alter_entry (sound : r.Sound) (patch : TopicConfigOverrides) (other : String) :
    ∃ config : TopicConfigOverrides, (alter d r name patch).1.topics[other]? =
      r.topics[other]?.map fun t => if other = name then { t with config := config } else t := by
  rcases alter_cases d name sound patch with
    ⟨e, _, same⟩ | ⟨entry, found, _, topics, _⟩
  · cases present : r.topics[other]? with
    | none => exact ⟨{}, by rw [same.topics, present]; rfl⟩
    | some t =>
      refine ⟨t.config, ?_⟩
      rw [same.topics, present, Option.map_some]
      split <;> rfl
  · refine ⟨entry.config.merge patch, ?_⟩
    rw [topics, Std.ExtTreeMap.getElem?_insert]
    split
    next same =>
      obtain rfl := Std.LawfulEqOrd.eq_of_compare same
      rw [found, Option.map_some, if_pos rfl]
    next apart =>
      have different : other ≠ name := by
        rintro rfl
        exact apart Std.ReflOrd.compare_self
      simp [different]

end Operations

structure Invariant (s : State) : Prop where
  sound : s.registry.Sound
  lineages : ∀ name : String, Option.Rel Descends s.registry.topics[name]? (s.ledger name)

section Runs

variable {s next : State} {d : Draw}

theorem Invariant.unchanged (inv : Invariant s) {after : Registry}
    (same : Unchanged s.registry after) : Invariant ⟨after, s.ledger⟩ := by
  refine ⟨inv.sound.unchanged same, fun name => ?_⟩
  rw [same.topics]
  exact inv.lineages name

/-- One name is given an entry and its lineage. -/
theorem Invariant.insert (inv : Invariant s) {after : Registry} {name : String}
    {entry : TopicEntry} {lineage : Lineage} (sound : after.Sound)
    (topics : after.topics = s.registry.topics.insert name entry) (descends : Descends entry lineage) :
    Invariant ⟨after, Function.update s.ledger name (some lineage)⟩ := by
  refine ⟨sound, fun other => ?_⟩
  simp only [topics, Std.ExtTreeMap.getElem?_insert]
  split
  next same =>
    rw [← Std.LawfulEqOrd.eq_of_compare same, Function.update_self]
    exact .some descends
  next apart =>
    rw [Function.update_of_ne]
    · exact inv.lineages other
    · rintro rfl
      exact apart Std.ReflOrd.compare_self

theorem Invariant.create (inv : Invariant s) {name : String} {partitionCount : Nat}
    {overrides : TopicConfigOverrides} {answer : Registry × Except RegistryError String}
    (cases : (∃ e, answer.2 = .error e ∧ Unchanged s.registry answer.1) ∨
      (answer.2 = .ok d.uuid ∧ answer.1.topics = s.registry.topics.insert name
        ⟨name, d.uuid, partitionCount, d.createdAtNs, overrides⟩ ∧ answer.1.Sound)) :
    Invariant ⟨answer.1, s.ledger.note d (.create name partitionCount overrides)
      (.created answer.2)⟩ := by
  rcases cases with ⟨e, failed, same⟩ | ⟨created, topics, sound⟩
  · rw [failed]
    exact inv.unchanged same
  · rw [created]
    exact inv.insert sound topics ⟨rfl, rfl, rfl, layered_single overrides⟩

theorem Invariant.delete (inv : Invariant s) (d : Draw) (name : String) :
    Invariant ⟨(delete d s.registry name).1,
      s.ledger.note d (.delete name) (.deleted (delete d s.registry name).2)⟩ := by
  rcases delete_cases d name inv.sound with
    ⟨e, failed, same⟩ | ⟨⟨entry, deleted⟩, topics, sound⟩
  · rw [failed]
    exact inv.unchanged same
  · rw [deleted]
    refine ⟨sound, fun other => ?_⟩
    simp only [Ledger.note, topics, Std.ExtTreeMap.getElem?_erase]
    split
    next same =>
      rw [← Std.LawfulEqOrd.eq_of_compare same, Function.update_self]
      exact .none
    next apart =>
      rw [Function.update_of_ne]
      · exact inv.lineages other
      · rintro rfl
        exact apart Std.ReflOrd.compare_self

theorem Invariant.alter (inv : Invariant s) (d : Draw) (name : String)
    (patch : TopicConfigOverrides) :
    Invariant ⟨(alter d s.registry name patch).1,
      s.ledger.note d (.alter name patch) (.altered (alter d s.registry name patch).2)⟩ := by
  rcases alter_cases d name inv.sound patch with
    ⟨e, failed, same⟩ | ⟨entry, found, altered, topics, sound⟩
  · rw [failed]
    exact inv.unchanged same
  · have known := inv.lineages name
    rw [found] at known
    cases lineage : s.ledger name with
    | none =>
      rw [lineage] at known
      cases known
    | some l =>
      rw [lineage] at known
      cases known with
      | some descends =>
        rw [altered]
        simp only [Ledger.note, lineage, Option.map_some]
        exact inv.insert sound topics ⟨descends.uuid, descends.partitionCount,
          descends.createdAtNs, descends.config.merge patch⟩

theorem Invariant.step {action : Action} (inv : Invariant s) (late : LateSteps s action)
    (taken : step action s = some next) : Invariant next := by
  cases action with
  | restart =>
    simp only [RegistryMap.step, inv.sound.loads, Option.map_some, Option.some.injEq] at taken
    subst taken
    exact inv
  | serve d msg =>
    cases taken
    cases msg with
    | create name partitionCount overrides => exact inv.create (create_cases inv.sound late)
    | ensureExists name partitionCount =>
      simp only [serve, Ledger.note_ensureExists]
      exact inv.create (ensureExists_cases inv.sound late)
    | delete name => exact inv.delete d name
    | alter name patch => exact inv.alter d name patch
    | describe name => exact inv
    | list => exact inv
    | snapshot => exact inv

theorem Invariant.initial : Invariant machine.initial := by
  refine ⟨⟨?_, keyed_empty, ?_⟩, fun name => ?_⟩
  · have empty : (⟨none, [], fun _ _ => none⟩ : Disk).topics = [] := rfl
    simp [load, machine, empty, collect]
  · intro name t found
    simp [machine] at found
  · simp only [machine, Std.ExtTreeMap.getElem?_empty]
    exact .none

end Runs

/-- After every message of every run, restarts included, `topics.json` loads back as the map in
memory, every key is its entry's name, and every topic has the identity its create gave it and
the config its create and its successful alters give it, field by field; an alter to come
changes nothing but the config of the topic it names. -/
theorem registry_agrees {s : State} (reached : machine.Reaches LateSteps s) :
    load s.registry.disk = some s.registry.topics ∧
    Keyed TopicEntry.name s.registry.topics ∧
    (∀ name : String, Option.Rel Descends s.registry.topics[name]? (s.ledger name)) ∧
    ∀ d name patch (other : String), ∃ config : TopicConfigOverrides,
      (alter d s.registry name patch).1.topics[other]? =
        s.registry.topics[other]?.map fun t => if other = name then { t with config := config } else t := by
  have inv := reached.invariant Invariant.initial
    (fun _ _ _ inv late taken => inv.step late taken)
  exact ⟨inv.sound.loads, inv.sound.keyed, inv.lineages,
    fun d name patch other => alter_entry inv.sound patch other⟩

instance (s : State) (action : Action) : Decidable (LateSteps s action) :=
  match action with
  | .serve d msg => inferInstanceAs (Decidable (∀ i < 2 * msg.creates, d.io (i + 1) = .ok))
  | .restart => .isTrue trivial

def sorted : Iteration := ⟨fun topics => topics.toList.map Prod.snd, fun _ => .refl _⟩

def calm : Draw := ⟨sorted, fun _ => .ok, "u1", 1000⟩
def diskFull : Draw := ⟨sorted, fun _ => .failed false "disk full", "u2", 2000⟩

/-- An alter and a delete that fail between two that succeed, then a restart. -/
def rolledBackRun : List Action :=
  [.serve calm (.create "orders" 2 { retentionMs := some 1000 }),
    .serve diskFull (.alter "orders" { retentionMs := some 5000 }),
    .serve calm (.alter "orders" { maxKeySizeBytes := some 64 }),
    .serve diskFull (.delete "orders"),
    .serve calm (.ensureExists "events" 1),
    .serve calm (.delete "events"),
    .restart]

theorem registry_agrees_rolledBackRun : ∃ s,
    machine.execute rolledBackRun machine.initial = some s ∧
    s.registry.topics.toList.map Prod.snd =
      [⟨"orders", "u1", 2, 1000, { retentionMs := some 1000, maxKeySizeBytes := some 64 }⟩] ∧
    load s.registry.disk = some s.registry.topics ∧
    ∀ name : String, Option.Rel Descends s.registry.topics[name]? (s.ledger name) := by
  have runs : (machine.execute rolledBackRun machine.initial).any
      (fun s => s.registry.topics.toList.map Prod.snd ==
        [⟨"orders", "u1", 2, 1000, { retentionMs := some 1000, maxKeySizeBytes := some 64 }⟩])
        = true := by
    decide +kernel
  have along : machine.Along LateSteps rolledBackRun machine.initial := by decide +kernel
  obtain ⟨s, ran, facts⟩ := Option.any_eq_true _ _ |>.mp runs
  obtain ⟨loads, _, lineages, _⟩ := registry_agrees ⟨rolledBackRun, along, ran⟩
  exact ⟨s, ran, beq_iff_eq.mp facts, loads, lineages⟩

end Kafkrs.RegistryMap
