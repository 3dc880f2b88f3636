import Kafkrs.Lib.Decimal
import Kafkrs.Lib.FilePath
import Kafkrs.TopicRegistry

/-! Where a topic's WAL files and objects are, and what a `DeleteTopic` with `delete_data` takes
away. Topic names go into file paths and object keys as they are. -/
namespace Kafkrs.Paths

open Lib Lib.FilePath TopicRegistry

inductive Volume where
  | disk
  | bucket
  deriving DecidableEq, Repr

structure Location where
  volume : Volume
  path : List String
  deriving DecidableEq, Repr

inductive Backend where
  | filesystem
  | s3
  deriving DecidableEq, Repr

structure Config where
  /-- Where `data_dir` leads. -/
  dataDir : List String
  backend : Backend
  /-- `object_store.prefix`. -/
  storePrefix : String
  /-- What the `object_store` crate makes of one segment of a key: it escapes the characters
  that its keys may not hold. -/
  encode : String → String

def Location.Contains (dir x : Location) : Prop := dir.volume = x.volume ∧ dir.path <+: x.path

instance (dir x : Location) : Decidable (dir.Contains x) := inferInstanceAs (Decidable (_ ∧ _))

def Location.Below (x dir : Location) : Prop := dir.Contains x ∧ x ≠ dir

instance (x dir : Location) : Decidable (x.Below dir) := inferInstanceAs (Decidable (_ ∧ _))

def walDir (c : Config) (topic : String) : Location := ⟨.disk, join (join c.dataDir "wal") topic⟩

def walPartitionDir (c : Config) (topic : String) (partition : Nat) : Location :=
  ⟨.disk, join (walDir c topic).path (toString partition)⟩

def walPath (c : Config) (topic : String) (partition baseOffset : Nat) : Location :=
  ⟨.disk, join (walPartitionDir c topic partition).path (toString baseOffset ++ ".wal")⟩

/-- `ObjPath::from`: the non-empty segments of the key. -/
def objPath (c : Config) (key : String) : List String :=
  ((split key).filter (· ≠ "")).map c.encode

/-- Where the store keeps an object; `filesystem` is rooted at `<data_dir>/object_store`. -/
def object (c : Config) (key : List String) : Location :=
  match c.backend with
  | .filesystem => ⟨.disk, join c.dataDir "object_store" ++ key⟩
  | .s3 => ⟨.bucket, key⟩

/-- `trim_end_matches('/')`. -/
def trimEndSlashes (s : String) : String := String.ofList (s.toList.reverse.dropWhile (· == '/')).reverse

/-- The part of a key that comes before the topic. -/
def keyStart (storePrefix : String) : String :=
  if storePrefix = "" then "" else trimEndSlashes storePrefix ++ "/"

def buildListPrefix (storePrefix topic uuid : String) : String :=
  keyStart storePrefix ++ topic ++ "/v=" ++ uuid ++ "/"

/-- `join` of `object_store.rs`. -/
def key (c : Config) (topic uuid : String) (partition : Nat) (leaf : String) : Location :=
  object c (objPath c (keyStart c.storePrefix ++ topic ++ "/v=" ++ uuid ++ "/partition=" ++
    toString partition ++ "/" ++ leaf))

def segmentKey (c : Config) (topic uuid : String) (partition : Nat) (baseOffset : Int) : Location :=
  key c topic uuid partition (String.ofList (segmentName baseOffset))

def manifestKey (c : Config) (topic uuid : String) (partition : Nat) : Location :=
  key c topic uuid partition "manifest.json"

def removeDirAll (dir : Location) (files : List Location) : List Location :=
  files.filter fun x => ¬ x.Below dir

def remove (key : Location) (files : List Location) : List Location := files.filter (· ≠ key)

def list (dir : Location) (files : List Location) : List Location := files.filter (·.Below dir)

def listDir (c : Config) (topic uuid : String) : Location :=
  object c (objPath c (buildListPrefix c.storePrefix topic uuid))

/-- The keys of the first phase of a sweep, from the snapshot taken by the delete. -/
def snapshotKeys (c : Config) (t : TopicEntry) (manifests : List (Nat × Manifest)) : List Location :=
  manifests.flatMap fun (p, m) =>
    m.segments.map (fun s => segmentKey c t.name t.uuid p s.baseOffset) ++
      [manifestKey c t.name t.uuid p]

def sweepDeletion (c : Config) (t : TopicEntry) (manifests : List (Nat × Manifest))
    (files : List Location) : List Location :=
  let files := (snapshotKeys c t manifests).foldl (fun files key => remove key files) files
  (list (listDir c t.name t.uuid) files).foldl (fun files key => remove key files) files

def deleteData (c : Config) (t : TopicEntry) (manifests : List (Nat × Manifest))
    (files : List Location) : List Location :=
  sweepDeletion c t manifests (removeDirAll (walDir c t.name) files)

def objectPartitionDir (c : Config) (topic uuid : String) (partition : Nat) : Location :=
  object c (objPath c (keyStart c.storePrefix ++ topic ++ "/v=" ++ uuid ++ "/partition=" ++
    toString partition))

/-- The WAL files and objects that a topic may have. -/
inductive Owns (c : Config) (t : TopicEntry) : Location → Prop where
  | wal (p base : Nat) : p < t.partitionCount → Owns c t (walPath c t.name p base)
  | segment (p : Nat) (base : Int) :
      p < t.partitionCount → Owns c t (segmentKey c t.name t.uuid p base)
  | manifest (p : Nat) : p < t.partitionCount → Owns c t (manifestKey c t.name t.uuid p)

/-- Deleting `a` leaves every WAL file and every object of `b` in place. -/
def Spares (c : Config) (a b : TopicEntry) : Prop :=
  ∀ manifests files x, Owns c b x → x ∈ files → x ∈ deleteData c a manifests files

/-- No operation on one topic touches the other's storage. -/
def Isolated (c : Config) (a b : TopicEntry) : Prop :=
  (∀ p < a.partitionCount, ∀ q < b.partitionCount, ∀ base base',
      walPath c a.name p base ≠ walPath c b.name q base') ∧
    Spares c a b ∧ Spares c b a

def roots (c : Config) (t : TopicEntry) : List Location :=
  [walDir c t.name, listDir c t.name t.uuid]

def partitionDirs (c : Config) (t : TopicEntry) : List Location :=
  (List.range t.partitionCount).flatMap fun p =>
    [walPartitionDir c t.name p, objectPartitionDir c t.name t.uuid p]

/-- Neither the WAL directory nor the `v=<uuid>` directory of `a` is, or contains, a partition
directory of `b`. -/
def Clears (c : Config) (a b : TopicEntry) : Prop :=
  ∀ root ∈ roots c a, ∀ dir ∈ partitionDirs c b, ¬ root.Contains dir

def Location.child (dir : Location) (name : String) : Location := ⟨dir.volume, dir.path ++ [name]⟩

section Locations

variable {c : Config} {t : TopicEntry}

theorem below_child_iff {dir root : Location} {name : String} :
    (dir.child name).Below root ↔ root.Contains dir := by
  constructor
  · rintro ⟨⟨volume, inside⟩, other⟩
    refine ⟨volume, ?_⟩
    rcases List.prefix_concat_iff.mp inside with same | above
    · exact absurd (by cases root; simp_all [Location.child]) other
    · exact above
  · rintro ⟨volume, above⟩
    refine ⟨⟨volume, above.trans (List.prefix_append _ _)⟩, ?_⟩
    rintro rfl
    have := above.length_le
    simp [Location.child] at this

theorem slash_not_mem_decimal (n : Nat) : '/' ∉ (toString n).toList := by
  rw [Nat.toString_eq_ofList_toDigits, String.toList_ofList]
  exact not_mem_toDigits rfl n

theorem plain_decimal (n : Nat) : Plain (toString n) := by
  have digits : ∀ c ∈ (toString n).toList, c.isDigit = true := by
    rw [Nat.toString_eq_ofList_toDigits, String.toList_ofList]
    exact fun c member => Nat.isDigit_of_mem_toDigits (by omega) (by omega) member
  refine ⟨?_, ?_, ?_, slash_not_mem_decimal n⟩
  · rw [Nat.toString_eq_ofList_toDigits, ← String.toList_inj.ne, String.toList_ofList]
    exact Nat.toDigits_ne_nil
  · intro dot
    simp [dot] at digits
  · intro dots
    simp [dots] at digits

theorem plain_walName (base : Nat) : Plain (toString base ++ ".wal") := by
  have long : 4 ≤ (toString base ++ ".wal").toList.length := by simp
  refine ⟨?_, ?_, ?_, ?_⟩
  · intro same
    rw [same] at long
    simp at long
  · intro same
    rw [same] at long
    simp at long
  · intro same
    rw [same] at long
    simp at long
  · simpa using slash_not_mem_decimal base

theorem walPartitionDir_eq (topic : String) (p : Nat) :
    walPartitionDir c topic p = (walDir c topic).child (toString p) := by
  rw [walPartitionDir, join_plain (plain_decimal p)]
  rfl

theorem walPath_eq (topic : String) (p base : Nat) :
    walPath c topic p base = (walPartitionDir c topic p).child (toString base ++ ".wal") := by
  rw [walPath, join_plain (plain_walName base)]
  rfl

theorem objPath_append (first second : String) :
    objPath c (first ++ "/" ++ second) = objPath c first ++ objPath c second := by
  simp [objPath, split_append]

theorem objPath_slashless {name : String} (nonempty : name ≠ "") (slashless : '/' ∉ name.toList) :
    objPath c name = [c.encode name] := by
  simp [objPath, split_slashless slashless, nonempty]

theorem object_append (dir : List String) (name : String) :
    object c (dir ++ [name]) = (object c dir).child name := by
  unfold object Location.child
  cases c.backend <;> simp

/-- The list prefix of a topic, without the slash it ends in. -/
theorem listDir_eq (topic uuid : String) :
    listDir c topic uuid = object c (objPath c (keyStart c.storePrefix ++ topic ++ "/v=" ++ uuid)) := by
  have nothing : objPath c "" = [] := rfl
  have cut := objPath_append (c := c) (keyStart c.storePrefix ++ topic ++ "/v=" ++ uuid) ""
  simp only [nothing, List.append_nil, String.append_empty] at cut
  rw [listDir, buildListPrefix, cut]

theorem objectPartitionDir_eq (topic uuid : String) (p : Nat) :
    objectPartitionDir c topic uuid p =
      (listDir c topic uuid).child (c.encode ("partition=" ++ toString p)) := by
  have single : objPath c ("partition=" ++ toString p) = [c.encode ("partition=" ++ toString p)] := by
    apply objPath_slashless
    · simp
    · simpa using slash_not_mem_decimal p
  have cut := objPath_append (c := c) (keyStart c.storePrefix ++ topic ++ "/v=" ++ uuid)
    ("partition=" ++ toString p)
  have slash : "/partition=" = "/" ++ "partition=" := rfl
  rw [listDir_eq, ← object_append, ← single, ← cut, objectPartitionDir, slash]
  simp only [String.append_assoc]

theorem key_eq (topic uuid : String) (p : Nat) {leaf : String} (nonempty : leaf ≠ "")
    (slashless : '/' ∉ leaf.toList) :
    key c topic uuid p leaf = (objectPartitionDir c topic uuid p).child (c.encode leaf) := by
  have cut := objPath_append (c := c)
    (keyStart c.storePrefix ++ topic ++ "/v=" ++ uuid ++ "/partition=" ++ toString p) leaf
  rw [objectPartitionDir, ← object_append, ← objPath_slashless nonempty slashless, ← cut, key]

theorem slash_not_mem_segmentName (base : Int) : '/' ∉ segmentName base := by
  intro member
  rcases List.mem_append.mp member with front | extension
  · rcases List.mem_append.mp front with word | digits
    · exact absurd word (by decide)
    · exact not_mem_zeroPadded rfl (by simp) 20 base digits
  · exact absurd extension (by decide)

theorem segmentKey_eq (topic uuid : String) (p : Nat) (base : Int) :
    segmentKey c topic uuid p base = (objectPartitionDir c topic uuid p).child
      (c.encode (String.ofList (segmentName base))) := by
  apply key_eq
  · intro empty
    have nil : segmentName base = [] := by
      rw [← String.toList_ofList (l := segmentName base), empty]
      rfl
    have ends := List.append_eq_nil_iff.mp nil
    exact absurd ends.2 (by decide)
  · rw [String.toList_ofList]
    exact slash_not_mem_segmentName base

theorem manifestKey_eq (topic uuid : String) (p : Nat) :
    manifestKey c topic uuid p =
      (objectPartitionDir c topic uuid p).child (c.encode "manifest.json") :=
  key_eq topic uuid p (by decide) (by decide)

theorem mem_partitionDirs {dir : Location} : dir ∈ partitionDirs c t ↔ ∃ p < t.partitionCount,
    dir = walPartitionDir c t.name p ∨ dir = objectPartitionDir c t.name t.uuid p := by
  simp [partitionDirs]

/-- Every file of a topic stands in one of its partition directories. -/
theorem Owns.child {x : Location} (owns : Owns c t x) :
    ∃ dir ∈ partitionDirs c t, ∃ name, x = dir.child name := by
  cases owns with
  | wal p base bound =>
    exact ⟨_, mem_partitionDirs.mpr ⟨p, bound, .inl rfl⟩, _, walPath_eq _ p base⟩
  | segment p base bound =>
    exact ⟨_, mem_partitionDirs.mpr ⟨p, bound, .inr rfl⟩, _, segmentKey_eq _ _ p base⟩
  | manifest p bound =>
    exact ⟨_, mem_partitionDirs.mpr ⟨p, bound, .inr rfl⟩, _, manifestKey_eq _ _ p⟩

/-- Every partition directory may hold a file of its topic. -/
theorem exists_owned {dir : Location} (member : dir ∈ partitionDirs c t) :
    ∃ name, Owns c t (dir.child name) := by
  obtain ⟨p, bound, rfl | rfl⟩ := mem_partitionDirs.mp member
  · refine ⟨toString 0 ++ ".wal", ?_⟩
    rw [← walPath_eq]
    exact .wal p 0 bound
  · refine ⟨c.encode "manifest.json", ?_⟩
    rw [← manifestKey_eq]
    exact .manifest p bound

theorem mem_removeAll {keys files : List Location} {x : Location} :
    x ∈ keys.foldl (fun files key => remove key files) files ↔ x ∈ files ∧ x ∉ keys := by
  induction keys generalizing files with
  | nil => simp
  | cons key rest ih =>
    rw [List.foldl_cons, ih]
    simp [remove, and_assoc]

theorem snapshotKeys_below {manifests : List (Nat × Manifest)} {x : Location}
    (member : x ∈ snapshotKeys c t manifests) : x.Below (listDir c t.name t.uuid) := by
  have inside (p : Nat) (name : String) :
      ((objectPartitionDir c t.name t.uuid p).child name).Below (listDir c t.name t.uuid) := by
    rw [below_child_iff, objectPartitionDir_eq]
    exact ⟨rfl, List.prefix_append _ _⟩
  obtain ⟨⟨p, m⟩, _, here⟩ := List.mem_flatMap.mp member
  rcases List.mem_append.mp here with segment | manifest
  · obtain ⟨s, _, rfl⟩ := List.mem_map.mp segment
    rw [segmentKey_eq]
    exact inside p _
  · rw [List.mem_singleton.mp manifest, manifestKey_eq]
    exact inside p _

/-- A delete takes away what is below its two roots; the snapshot's keys are among that. -/
theorem mem_deleteData {manifests : List (Nat × Manifest)} {files : List Location} {x : Location} :
    x ∈ deleteData c t manifests files ↔ x ∈ files ∧ ∀ root ∈ roots c t, ¬ x.Below root := by
  simp only [deleteData, sweepDeletion, mem_removeAll, list, removeDirAll, List.mem_filter,
    decide_eq_true_eq, roots, List.forall_mem_cons, List.not_mem_nil]
  constructor
  · rintro ⟨⟨⟨here, wal⟩, snapshot⟩, listed⟩
    refine ⟨here, wal, ?_, by simp⟩
    intro below
    exact listed ⟨⟨⟨here, wal⟩, snapshot⟩, below⟩
  · rintro ⟨here, wal, listed, _⟩
    exact ⟨⟨⟨here, wal⟩, fun member => listed (snapshotKeys_below member)⟩, fun all => listed all.2⟩

theorem spares_iff {a b : TopicEntry} : Spares c a b ↔ Clears c a b := by
  constructor
  · intro spares root member dir partition contains
    obtain ⟨name, owns⟩ := exists_owned partition
    have kept := spares [] [dir.child name] _ owns List.mem_cons_self
    exact (mem_deleteData.mp kept).2 root member (below_child_iff.mpr contains)
  · intro clears manifests files x owns here
    obtain ⟨dir, partition, name, rfl⟩ := owns.child
    apply mem_deleteData.mpr
    refine ⟨here, fun root member below => ?_⟩
    exact clears root member dir partition (below_child_iff.mp below)

/-- Two WAL files at one path are in one directory. -/
theorem walPath_same {left right : String} {p q base base' : Nat}
    (same : walPath c left p base = walPath c right q base') :
    (walDir c left).Contains (walPartitionDir c right q) := by
  rw [walPath_eq, walPath_eq, walPartitionDir_eq, walPartitionDir_eq] at same
  rw [walPartitionDir_eq]
  have paths := congrArg Location.path same
  simp only [Location.child, List.append_assoc] at paths
  have dirs := List.append_inj_left' paths rfl
  exact ⟨rfl, dirs ▸ List.prefix_append _ _⟩

end Locations

/-- For any two topics, operations on one leave the storage of the other alone exactly when
what a delete of either removes recursively holds no partition directory of the other. -/
theorem isolated_iff (c : Config) (a b : TopicEntry) :
    Isolated c a b ↔ Clears c a b ∧ Clears c b a := by
  rw [Isolated, spares_iff, spares_iff]
  constructor
  · rintro ⟨_, clears⟩
    exact clears
  · intro clears
    refine ⟨?_, clears⟩
    intro p _ q bound base base' same
    apply clears.1 (walDir c a.name) (by simp [roots]) (walPartitionDir c b.name q)
      (mem_partitionDirs.mpr ⟨q, bound, .inl rfl⟩)
    exact walPath_same same

section PlainNames

variable {c : Config} {a b : TopicEntry}

theorem walDir_plain {topic : String} (plain : Plain topic) :
    walDir c topic = ⟨.disk, c.dataDir ++ "wal" :: [topic]⟩ := by
  have wal : Plain "wal" := by decide
  simp [walDir, join_plain wal, join_plain plain]

theorem listDir_plain (c : Config) : ∃ start, ∀ topic uuid, Plain topic →
    listDir c topic uuid = object c (start ++ c.encode topic :: objPath c ("v=" ++ uuid)) := by
  have version : "/v=" = "/" ++ "v=" := rfl
  have tail (topic uuid : String) (plain : Plain topic) :
      objPath c (topic ++ "/v=" ++ uuid) = c.encode topic :: objPath c ("v=" ++ uuid) := by
    rw [version, ← String.append_assoc, String.append_assoc, objPath_append,
      objPath_slashless plain.nonempty plain.slashless]
    rfl
  by_cases none : c.storePrefix = ""
  · refine ⟨[], fun topic uuid plain => ?_⟩
    simp [listDir_eq, keyStart, none, tail topic uuid plain]
  · refine ⟨objPath c (trimEndSlashes c.storePrefix), fun topic uuid plain => ?_⟩
    rw [← tail topic uuid plain, ← objPath_append, listDir_eq, keyStart, if_neg none]
    simp only [String.append_assoc]

/-- Names that are single plain path components keep two topics apart. -/
theorem clears_of_plain (injective : Function.Injective c.encode) (distinct : a.name ≠ b.name)
    (plainA : Plain a.name) (plainB : Plain b.name) : Clears c a b := by
  have store : Plain "object_store" := by decide
  obtain ⟨start, listed⟩ := listDir_plain c
  intro root member dir partition
  obtain ⟨p, _, rfl | rfl⟩ := mem_partitionDirs.mp partition
  all_goals simp only [roots, List.mem_cons, List.not_mem_nil, or_false] at member
  all_goals rcases member with rfl | rfl
  · simp [Location.Contains, walPartitionDir_eq, walDir_plain plainA, walDir_plain plainB,
      Location.child, distinct]
  · rw [walPartitionDir_eq, walDir_plain plainB, listed a.name a.uuid plainA]
    cases backend : c.backend with
    | filesystem => simp [Location.Contains, object, backend, join_plain store, Location.child]
    | s3 => simp [Location.Contains, object, backend, Location.child]
  · rw [objectPartitionDir_eq, walDir_plain plainA, listed b.name b.uuid plainB]
    cases backend : c.backend with
    | filesystem => simp [Location.Contains, object, backend, join_plain store, Location.child]
    | s3 => simp [Location.Contains, object, backend, Location.child]
  · rw [objectPartitionDir_eq, listed a.name a.uuid plainA, listed b.name b.uuid plainB]
    cases backend : c.backend with
    | filesystem =>
      simp [Location.Contains, object, backend, Location.child, injective.eq_iff, distinct]
    | s3 => simp [Location.Contains, object, backend, Location.child, injective.eq_iff, distinct]

end PlainNames

def exampleConfig : Config := ⟨["srv", "kafkrs"], .s3, "env", id⟩

/-- Deleting `orders` removes the WAL of `orders/eu`, which is below its own WAL directory. -/
theorem isolated_fails_nestedName :
    let a : TopicEntry := ⟨"orders", "u1", 1, 1000, {}⟩
    let b : TopicEntry := ⟨"orders/eu", "u2", 1, 2000, {}⟩
    let wal := walPath exampleConfig b.name 0 0
    a.name ≠ b.name ∧ wal ∉ deleteData exampleConfig a [] [wal] ∧ ¬ Isolated exampleConfig a b := by
  intro a b wal
  have removed : wal ∉ deleteData exampleConfig a [] [wal] := by decide +kernel
  refine ⟨by decide, removed, ?_⟩
  rintro ⟨_, spares, _⟩
  exact removed (spares [] [wal] wal (.wal 0 0 (by decide)) List.mem_cons_self)

end Kafkrs.Paths
