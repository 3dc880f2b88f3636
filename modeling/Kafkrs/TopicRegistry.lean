import Kafkrs.Lib.Machine
import Kafkrs.TopicConfig
import Kafkrs.Uploader

/-! The topic registry: the in-memory map, `topics.json`, and what a create puts on disk and
into the object store besides. A hash map has no order of its own; the list here stands for one
order of its values. A rename that has returned is taken to be durable. -/
namespace Kafkrs.TopicRegistry

open Lib

structure TopicEntry where
  name : String
  uuid : String
  partitionCount : Nat
  createdAtNs : Int64
  config : TopicConfigOverrides
  deriving DecidableEq, Repr

inductive RegistryError where
  | alreadyExists
  /-- With the operating system's or the store's own message. -/
  | io (message : String)
  | unknownTopic
  | invalidConfig (message : String)
  deriving DecidableEq, Repr

/-- How one I/O operation ends. A failed one may still have taken effect. -/
inductive IoResult where
  | ok
  | failed (applied : Bool) (message : String)
  deriving DecidableEq, Repr

def IoResult.applied : IoResult → Bool
  | .ok => true
  | .failed applied _ => applied

/-- What a crash leaves. Manifests are keyed by incarnation and partition. -/
structure Disk where
  topicsJson : Option (List TopicEntry)
  walDirs : List (String × Nat)
  manifests : String → Nat → Option Manifest

/-- The topics `load` finds; a missing file is an empty registry. -/
def Disk.topics (disk : Disk) : List TopicEntry := disk.topicsJson.getD []

inductive DiskOp where
  /-- `atomic_write_registry`. -/
  | writeRegistry (topics : List TopicEntry)
  | createDir (name : String) (partition : Nat)
  | putManifest (uuid : String) (partition : Nat)
  deriving DecidableEq, Repr

/-- The rename comes last in `atomic_write_registry`, so a failed write changes nothing. -/
def DiskOp.apply (result : IoResult) (disk : Disk) : DiskOp → Disk
  | .writeRegistry topics =>
    if result = .ok then { disk with topicsJson := some topics } else disk
  | .createDir name p =>
    if result.applied then { disk with walDirs := disk.walDirs ++ [(name, p)] } else disk
  | .putManifest uuid p =>
    if result.applied then
      { disk with manifests := fun u q =>
          if u = uuid ∧ q = p then some Manifest.empty else disk.manifests u q }
    else disk

/-- Runs the operations in order up to the first that fails; `io i` is the result of the
`i`-th. -/
def perform : (Nat → IoResult) → List DiskOp → Disk → Disk × Except RegistryError Unit
  | _, [], disk => (disk, .ok ())
  | io, op :: rest, disk =>
    match io 0 with
    | .ok => perform (fun i => io (i + 1)) rest (op.apply .ok disk)
    | .failed applied message => (op.apply (.failed applied message) disk, .error (.io message))

structure Registry where
  topics : List TopicEntry
  disk : Disk

def find (topics : List TopicEntry) (name : String) : Option TopicEntry :=
  topics.find? (fun t => t.name == name)

def contains (topics : List TopicEntry) (name : String) : Bool := topics.any (fun t => t.name == name)

def remove (topics : List TopicEntry) (name : String) : List TopicEntry :=
  topics.filter (fun t => t.name != name)

def insert (topics : List TopicEntry) (entry : TopicEntry) : List TopicEntry :=
  remove topics entry.name ++ [entry]

/-- The three stages of a create: `topics.json`, the WAL directories, the empty manifests. -/
def createOps (topics : List TopicEntry) (entry : TopicEntry) : List DiskOp :=
  .writeRegistry (topics ++ [entry]) ::
    ((List.range entry.partitionCount).map (fun p => .createDir entry.name p) ++
      (List.range entry.partitionCount).map (fun p => .putManifest entry.uuid p))

/-- The checks of `create`, in their order; `none` lets it go on to its I/O. -/
def refusal (topics : List TopicEntry) (entry : TopicEntry) : Option RegistryError :=
  match entry.config.validate with
  | .error e => some (.invalidConfig e.display)
  | .ok _ => if contains topics entry.name then some .alreadyExists else none

/-- `create`, of an entry with a UUID and a creation time of its own. -/
def create (io : Nat → IoResult) (r : Registry) (entry : TopicEntry) :
    Registry × Except RegistryError String :=
  match refusal r.topics entry with
  | some e => (r, .error e)
  | none =>
    let (disk, result) := perform io (createOps r.topics entry) r.disk
    match result with
    | .ok _ => (⟨insert r.topics entry, disk⟩, .ok entry.uuid)
    | .error e => (⟨r.topics, disk⟩, .error e)

def ensureExists (io : Nat → IoResult) (r : Registry) (name : String) (partitionCount : Nat)
    (uuid : String) (createdAtNs : Int64) : Registry × Except RegistryError String :=
  if contains r.topics name then (r, .error .alreadyExists)
  else create io r ⟨name, uuid, partitionCount, createdAtNs, {}⟩

/-- The in-memory removal comes first and is rolled back when the rewrite fails. -/
def delete (io : Nat → IoResult) (r : Registry) (name : String) :
    Registry × Except RegistryError (String × Nat) :=
  match find r.topics name with
  | none => (r, .error .unknownTopic)
  | some entry =>
    let topics := remove r.topics name
    let (disk, result) := perform io [.writeRegistry topics] r.disk
    match result with
    | .ok _ => (⟨topics, disk⟩, .ok (entry.uuid, entry.partitionCount))
    | .error e => (⟨insert topics entry, disk⟩, .error e)

def setConfig (topics : List TopicEntry) (name : String) (config : TopicConfigOverrides) :
    List TopicEntry :=
  topics.map fun t => if t.name = name then { t with config := config } else t

/-- The config is swapped in memory first and swapped back when the rewrite fails. -/
def alter (io : Nat → IoResult) (r : Registry) (name : String) (patch : TopicConfigOverrides) :
    Registry × Except RegistryError TopicConfigOverrides :=
  match find r.topics name with
  | none => (r, .error .unknownTopic)
  | some entry =>
    let merged := entry.config.merge patch
    match merged.validate with
    | .error e => (r, .error (.invalidConfig e.display))
    | .ok _ =>
      let topics := setConfig r.topics name merged
      let (disk, result) := perform io [.writeRegistry topics] r.disk
      match result with
      | .ok _ => (⟨topics, disk⟩, .ok merged)
      | .error e => (⟨setConfig topics name entry.config, disk⟩, .error e)

section Io

variable {io : Nat → IoResult}

theorem perform_ok_iff (io : Nat → IoResult) (ops : List DiskOp) (disk : Disk) :
    (perform io ops disk).2 = .ok () ↔ ∀ i < ops.length, io i = .ok := by
  induction ops generalizing io disk with
  | nil => simp [perform]
  | cons op rest ih =>
    cases first : io 0 with
    | ok =>
      simp only [perform, first, ih, List.length_cons]
      constructor
      · intro all i bound
        cases i with
        | zero => exact first
        | succ i => exact all i (by omega)
      · intro all i bound
        exact all (i + 1) (by omega)
    | failed applied message =>
      simp only [perform, first, reduceCtorEq, false_iff]
      intro all
      have := all 0 (by simp)
      simp [first] at this

theorem apply_topicsJson {op : DiskOp} (other : ∀ topics, op ≠ .writeRegistry topics)
    (result : IoResult) (disk : Disk) : (op.apply result disk).topicsJson = disk.topicsJson := by
  cases op with
  | writeRegistry topics => exact absurd rfl (other topics)
  | createDir name p =>
    simp only [DiskOp.apply]
    split <;> rfl
  | putManifest uuid p =>
    simp only [DiskOp.apply]
    split <;> rfl

/-- Only a rewrite touches `topics.json`. -/
theorem perform_topicsJson {ops : List DiskOp} (others : ∀ op ∈ ops, ∀ topics, op ≠ .writeRegistry topics)
    (disk : Disk) : (perform io ops disk).1.topicsJson = disk.topicsJson := by
  induction ops generalizing io disk with
  | nil => rfl
  | cons op rest ih =>
    have here := apply_topicsJson (others op List.mem_cons_self)
    cases first : io 0 with
    | ok =>
      simp only [perform, first]
      rw [ih (fun op later => others op (List.mem_cons_of_mem _ later)), here]
    | failed applied message => simp only [perform, first, here]

/-- A create changes `topics.json` exactly when its rewrite succeeds. -/
theorem perform_createOps (topics : List TopicEntry) (entry : TopicEntry) (disk : Disk) :
    (perform io (createOps topics entry) disk).1.topicsJson =
      if io 0 = .ok then some (topics ++ [entry]) else disk.topicsJson := by
  cases first : io 0 with
  | ok =>
    simp only [createOps, perform, first, if_true]
    rw [perform_topicsJson]
    · rfl
    · intro op member topics
      rcases List.mem_append.mp member with dir | put
      · obtain ⟨p, _, rfl⟩ := List.mem_map.mp dir
        simp
      · obtain ⟨p, _, rfl⟩ := List.mem_map.mp put
        simp
  | failed applied message =>
    simp [createOps, perform, first, DiskOp.apply]

end Io

inductive CreateMsg where
  | create (name : String) (partitionCount : Nat) (overrides : TopicConfigOverrides)
  | ensureExists (name : String) (partitionCount : Nat)
  deriving DecidableEq, Repr

/-- What the request would register, under the UUID and at the time `create` draws. -/
def CreateMsg.entry (uuid : String) (createdAtNs : Int64) : CreateMsg → TopicEntry
  | .create name partitionCount overrides => ⟨name, uuid, partitionCount, createdAtNs, overrides⟩
  | .ensureExists name partitionCount => ⟨name, uuid, partitionCount, createdAtNs, {}⟩

def serve (io : Nat → IoResult) (r : Registry) (uuid : String) (createdAtNs : Int64) :
    CreateMsg → Registry × Except RegistryError String
  | .create name partitionCount overrides =>
    create io r ⟨name, uuid, partitionCount, createdAtNs, overrides⟩
  | .ensureExists name partitionCount => ensureExists io r name partitionCount uuid createdAtNs

/-- The default config is valid, so `EnsureExists` is a create with no overrides. -/
theorem serve_eq_create (io : Nat → IoResult) (r : Registry) (uuid : String) (createdAtNs : Int64)
    (msg : CreateMsg) : serve io r uuid createdAtNs msg = create io r (msg.entry uuid createdAtNs) := by
  cases msg with
  | create name partitionCount overrides => rfl
  | ensureExists name partitionCount =>
    have valid : TopicConfigOverrides.validate {} = .ok () := rfl
    simp only [serve, ensureExists, CreateMsg.entry]
    split
    · rename_i known
      simp [create, refusal, valid, known]
    · rfl

/-- The rewrite of `topics.json` succeeds and a later operation of the create fails. -/
def FailsLate (io : Nat → IoResult) (r : Registry) (entry : TopicEntry) : Prop :=
  refusal r.topics entry = none ∧ io 0 = .ok ∧
    ∃ i < (createOps r.topics entry).length, io i ≠ .ok

/-- An error reply leaves the in-memory map and `topics.json` as they were. -/
def LeavesUnchanged (before : Registry) (reply : Registry × Except RegistryError String) : Prop :=
  ∀ e, reply.2 = .error e →
    reply.1.topics = before.topics ∧ reply.1.disk.topicsJson = before.disk.topicsJson

section Create

variable {io : Nat → IoResult} {r : Registry} {entry : TopicEntry}

theorem create_refused {e : RegistryError} (refused : refusal r.topics entry = some e) :
    create io r entry = (r, .error e) := by
  simp [create, refused]

theorem create_topicsJson (admitted : refusal r.topics entry = none) :
    (create io r entry).1.disk.topicsJson =
      if io 0 = .ok then some (r.topics ++ [entry]) else r.disk.topicsJson := by
  rw [← perform_createOps]
  simp only [create, admitted]
  split <;> rfl

theorem create_failed_iff (admitted : refusal r.topics entry = none) :
    (∃ e, (create io r entry).2 = .error e) ↔
      ∃ i < (createOps r.topics entry).length, io i ≠ .ok := by
  have all := perform_ok_iff io (createOps r.topics entry) r.disk
  simp only [create, admitted]
  cases result : (perform io (createOps r.topics entry) r.disk).2 with
  | ok _ =>
    simp only [result, true_iff] at all
    simpa using all
  | error e =>
    simp only [result, reduceCtorEq, false_iff, not_forall] at all
    obtain ⟨i, bound, failed⟩ := all
    exact ⟨fun _ => ⟨i, bound, failed⟩, fun _ => ⟨e, rfl⟩⟩

/-- A failed create never inserts. -/
theorem create_error_topics {e : RegistryError} (failed : (create io r entry).2 = .error e) :
    (create io r entry).1.topics = r.topics := by
  cases refused : refusal r.topics entry with
  | some e => rw [create_refused refused]
  | none =>
    cases result : (perform io (createOps r.topics entry) r.disk).2 with
    | ok _ => simp [create, refused, result] at failed
    | error e => simp [create, refused, result]

/-- With a UUID that no entry of `topics.json` has, a create that answers an error has left
everything as it was exactly when it did not fail after its rewrite. -/
theorem create_unchanged_iff (fresh : ∀ t ∈ r.disk.topics, t.uuid ≠ entry.uuid) :
    LeavesUnchanged r (create io r entry) ↔ ¬ FailsLate io r entry := by
  constructor
  · rintro unchanged ⟨admitted, rewritten, late⟩
    obtain ⟨e, failed⟩ := (create_failed_iff admitted).mpr late
    have same := (unchanged e failed).2
    rw [create_topicsJson admitted, if_pos rewritten] at same
    apply fresh entry ?_ rfl
    simp [Disk.topics, ← same]
  · intro early e failed
    refine ⟨create_error_topics failed, ?_⟩
    cases refused : refusal r.topics entry with
    | some e => rw [create_refused refused]
    | none =>
      rw [create_topicsJson refused, if_neg]
      intro rewritten
      exact early ⟨refused, rewritten, (create_failed_iff refused).mp ⟨e, failed⟩⟩

end Create

/-- A `Create` or `EnsureExists` answered with an error leaves map and file exactly as they
were, unless an operation after its rewrite of `topics.json` fails. -/
theorem error_unchanged_iff (io : Nat → IoResult) (r : Registry) (uuid : String)
    (createdAtNs : Int64) (msg : CreateMsg) (fresh : ∀ t ∈ r.disk.topics, t.uuid ≠ uuid) :
    LeavesUnchanged r (serve io r uuid createdAtNs msg) ↔
      ¬ FailsLate io r (msg.entry uuid createdAtNs) := by
  rw [serve_eq_create]
  apply create_unchanged_iff
  cases msg <;> exact fresh

def emptyRegistry : Registry := ⟨[], ⟨none, [], fun _ _ => none⟩⟩

def oneTopic : Registry := (serve (fun _ => .ok) emptyRegistry "u0" 500 (.create "events" 1 {})).1

theorem error_unchanged_iff_diskFull :
    oneTopic.disk.topics.map (·.uuid) = ["u0"] ∧
      (serve (fun _ => .failed false "disk full") oneTopic "u1" 1000 (.ensureExists "orders" 2)).2 =
        .error (.io "disk full") ∧
      LeavesUnchanged oneTopic
        (serve (fun _ => .failed false "disk full") oneTopic "u1" 1000 (.ensureExists "orders" 2)) := by
  refine ⟨by decide +kernel, by decide +kernel, (error_unchanged_iff _ _ "u1" 1000 _ ?_).mpr ?_⟩
  · decide +kernel
  · simp [FailsLate]

/-- The manifest put of the only partition fails: the topic is in `topics.json` and not in
memory, although the client was told that it could not be created. -/
theorem error_changes_lostManifest :
    let io : Nat → IoResult := fun i => if i = 2 then .failed false "store unavailable" else .ok
    let reply := serve io emptyRegistry "u1" 1000 (.create "orders" 1 {})
    reply.2 = .error (.io "store unavailable") ∧ reply.1.topics = [] ∧
      reply.1.disk.topics.map (·.name) = ["orders"] ∧ ¬ LeavesUnchanged emptyRegistry reply := by
  intro io reply
  have failed : reply.2 = .error (.io "store unavailable") := by decide +kernel
  refine ⟨failed, by decide +kernel, by decide +kernel, ?_⟩
  intro unchanged
  have same := (unchanged _ failed).2
  have written : reply.1.disk.topicsJson.isSome = true := by decide +kernel
  rw [same] at written
  simp [emptyRegistry] at written

end Kafkrs.TopicRegistry
