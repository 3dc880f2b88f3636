import Kafkrs.Paths

/-! Object keys as strings, before the store splits them into path segments. Topic names may hold
slashes, so a key is read from its end: the file name, the partition and the incarnation hold
none. -/
namespace Kafkrs.Paths

open Lib Lib.FilePath

def Hyphenated (uuid : String) : Prop :=
  (uuid.toList.splitOn '-').map List.length = [8, 4, 4, 4, 12] ∧
    ∀ c ∈ uuid.toList, c = '-' ∨ c.isHexDigit = true

instance (uuid : String) : Decidable (Hyphenated uuid) :=
  @instDecidableAnd _ _ inferInstance (List.decidableBAll _ uuid.toList)

/-- What `join` of `object_store.rs` hands to `ObjPath::from`. -/
def joinString (storePrefix topic uuid : String) (partition : Nat) (leaf : String) : String :=
  let s := if storePrefix = "" then "" else trimEndSlashes storePrefix ++ "/"
  s ++ (topic ++ "/v=" ++ uuid ++ "/partition=" ++ toString partition ++ "/" ++ leaf)

def segmentKeyString (storePrefix topic uuid : String) (partition : Nat) (baseOffset : Int) :
    String :=
  joinString storePrefix topic uuid partition (String.ofList (segmentName baseOffset))

def manifestKeyString (storePrefix topic uuid : String) (partition : Nat) : String :=
  joinString storePrefix topic uuid partition "manifest.json"

section Keys

variable {c : Config} {storePrefix topic topic' uuid uuid' leaf leaf' : String} {p q : Nat}

theorem segmentKey_eq_string (base : Int) : segmentKey c topic uuid p base =
    object c (objPath c (segmentKeyString c.storePrefix topic uuid p base)) := by
  simp only [segmentKey, key, segmentKeyString, joinString, keyStart, String.append_assoc]

theorem manifestKey_eq_string : manifestKey c topic uuid p =
    object c (objPath c (manifestKeyString c.storePrefix topic uuid p)) := by
  simp only [manifestKey, key, manifestKeyString, joinString, keyStart, String.append_assoc]

theorem Hyphenated.slashless (hyphenated : Hyphenated uuid) : '/' ∉ uuid.toList := by
  intro member
  rcases hyphenated.2 '/' member with hyphen | digit
  · exact absurd hyphen (by decide)
  · exact absurd digit (by decide)

/-- A key, cut at its last three slashes. -/
theorem joinString_toList : (joinString storePrefix topic uuid p leaf).toList =
    (((keyStart storePrefix ++ topic).toList ++ '/' :: ("v=" ++ uuid).toList) ++
      '/' :: ("partition=" ++ toString p).toList) ++ '/' :: leaf.toList := by
  simp [joinString, keyStart]

theorem toString_inj {m n : Nat} (same : (toString m).toList = (toString n).toList) : m = n := by
  have value := congrArg (fun digits => Nat.ofDigitChars 10 digits 0) same
  simpa [Nat.toString_eq_ofList_toDigits] using value

theorem joinString_inj (hyphenated : Hyphenated uuid) (hyphenated' : Hyphenated uuid')
    (clean : '/' ∉ leaf.toList) (clean' : '/' ∉ leaf'.toList)
    (same : joinString storePrefix topic uuid p leaf = joinString storePrefix topic' uuid' q leaf') :
    topic = topic' ∧ uuid = uuid' ∧ p = q ∧ leaf = leaf' := by
  rw [← String.toList_inj, joinString_toList, joinString_toList] at same
  have version {id : String} (slashless : '/' ∉ id.toList) : '/' ∉ ("v=" ++ id).toList := by
    simpa using slashless
  have numbered (n : Nat) : '/' ∉ ("partition=" ++ toString n).toList := by
    simpa using slash_not_mem_decimal n
  obtain ⟨partitions, leaves⟩ := append_sep_inj clean clean' same
  obtain ⟨versions, numbers⟩ := append_sep_inj (numbered p) (numbered q) partitions
  obtain ⟨topics, ids⟩ := append_sep_inj (version hyphenated.slashless)
    (version hyphenated'.slashless) versions
  refine ⟨?_, ?_, ?_, String.toList_inj.mp leaves⟩
  · rw [String.toList_append, String.toList_append] at topics
    exact String.toList_inj.mp (List.append_cancel_left topics)
  · rw [String.toList_append, String.toList_append] at ids
    exact String.toList_inj.mp (List.append_cancel_left ids)
  · rw [String.toList_append, String.toList_append] at numbers
    exact toString_inj (List.append_cancel_left numbers)

theorem slash_not_mem_segmentLeaf (base : Int) :
    '/' ∉ (String.ofList (segmentName base)).toList := by
  rw [String.toList_ofList]
  exact slash_not_mem_segmentName base

/-- A segment's file name starts otherwise than a manifest's. -/
theorem manifest_ne_segmentLeaf (base : Int) :
    "manifest.json" ≠ String.ofList (segmentName base) := by
  intro same
  have letters := congrArg (fun s => s.toList.head?) same
  simp only [String.toList_ofList, segmentName_eq, List.head?_append] at letters
  exact absurd letters (by simp)

theorem append_lt_append_iff {front left right : List Char} :
    front ++ left < front ++ right ↔ left < right := by
  induction front with
  | nil => simp
  | cons c front ih => simp [ih]

/-- `{:020}` is wide enough for every non-negative offset. -/
theorem segmentName_lt_iff {a b : Int} (lowA : 0 ≤ a) (lowB : 0 ≤ b) (highA : a < 2 ^ 63)
    (highB : b < 2 ^ 63) : segmentName a < segmentName b ↔ a < b := by
  have fitsA : a.natAbs < 10 ^ 20 := by omega
  have fitsB : b.natAbs < 10 ^ 20 := by omega
  rw [segmentName_eq, segmentName_eq, append_lt_append_iff]
  exact zeroPadded_lt_iff (by omega) lowA lowB fitsA fitsB _

theorem segmentKeyString_lt_iff {a b : Int} (lowA : 0 ≤ a) (lowB : 0 ≤ b) (highA : a < 2 ^ 63)
    (highB : b < 2 ^ 63) : segmentKeyString storePrefix topic uuid p a <
      segmentKeyString storePrefix topic uuid p b ↔ a < b := by
  rw [String.lt_iff, segmentKeyString, segmentKeyString, joinString_toList, joinString_toList,
    append_lt_append_iff, List.cons_lt_cons_iff, String.toList_ofList, String.toList_ofList,
    segmentName_lt_iff lowA lowB highA highB]
  simp

theorem listPrefix_joinString : (buildListPrefix storePrefix topic uuid).toList <+:
    (joinString storePrefix topic uuid p leaf).toList := by
  refine ⟨("partition=" ++ toString p ++ "/" ++ leaf).toList, ?_⟩
  rw [joinString_toList]
  simp [buildListPrefix]

end Keys

/-- Under one store prefix, keys determine what they are the keys of, segment keys sort by base
offset, and the prefix that the sweep lists is a prefix of every key of its incarnation. -/
theorem keyStrings_correct (storePrefix topic topic' : String) (p q : Nat) {uuid uuid' : String}
    (hyphenated : Hyphenated uuid) (hyphenated' : Hyphenated uuid') :
    (∀ a b, segmentKeyString storePrefix topic uuid p a =
        segmentKeyString storePrefix topic' uuid' q b →
      topic = topic' ∧ uuid = uuid' ∧ p = q ∧ a = b) ∧
    (manifestKeyString storePrefix topic uuid p = manifestKeyString storePrefix topic' uuid' q →
      topic = topic' ∧ uuid = uuid' ∧ p = q) ∧
    (∀ b, manifestKeyString storePrefix topic uuid p ≠
      segmentKeyString storePrefix topic' uuid' q b) ∧
    (∀ a b, 0 ≤ a → 0 ≤ b → a < 2 ^ 63 → b < 2 ^ 63 →
      (segmentKeyString storePrefix topic uuid p a < segmentKeyString storePrefix topic uuid p b ↔
        a < b)) ∧
    (∀ a, (buildListPrefix storePrefix topic uuid).toList <+:
      (segmentKeyString storePrefix topic uuid p a).toList) ∧
    (buildListPrefix storePrefix topic uuid).toList <+:
      (manifestKeyString storePrefix topic uuid p).toList := by
  refine ⟨fun a b same => ?_, fun same => ?_, fun b same => ?_, fun a b lowA lowB highA highB => ?_,
    fun a => listPrefix_joinString, listPrefix_joinString⟩
  · obtain ⟨topics, ids, partitions, leaves⟩ := joinString_inj hyphenated hyphenated'
      (slash_not_mem_segmentLeaf a) (slash_not_mem_segmentLeaf b) same
    exact ⟨topics, ids, partitions, segmentName_injective (String.ofList_injective leaves)⟩
  · obtain ⟨topics, ids, partitions, _⟩ := joinString_inj hyphenated hyphenated' (by decide)
      (by decide) same
    exact ⟨topics, ids, partitions⟩
  · obtain ⟨_, _, _, leaves⟩ := joinString_inj hyphenated hyphenated' (by decide)
      (slash_not_mem_segmentLeaf b) same
    exact manifest_ne_segmentLeaf b leaves
  · exact segmentKeyString_lt_iff lowA lowB highA highB

/-- A topic whose name looks like the rest of a key has keys of its own. -/
theorem keyStrings_correct_nested :
    let uuid := "01936a80-0000-7000-8000-000000000000"
    Hyphenated uuid ∧
      manifestKeyString "env/" "orders" uuid 0 ≠
        manifestKeyString "env/" ("orders/v=" ++ uuid ++ "/partition=0") uuid 0 := by
  intro uuid
  have hyphenated : Hyphenated uuid := by decide
  refine ⟨hyphenated, fun same => ?_⟩
  have topics := ((keyStrings_correct "env/" "orders" ("orders/v=" ++ uuid ++ "/partition=0") 0 0
    hyphenated hyphenated).2.1 same).1
  exact absurd topics (by decide)

end Kafkrs.Paths
