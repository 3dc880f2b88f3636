import Mathlib.Data.List.Basic
import Mathlib.Tactic.Common
import Std.Data.ExtTreeMap

/-! Maps whose values carry their own key, written out as a list of values in any order and
collected from such a list again. -/
namespace Lib

open Std (ExtTreeMap)

variable {K V : Type} [Ord K] [Std.TransOrd K] [Std.LawfulEqOrd K] {key : V → K}
  {m : ExtTreeMap K V}

def Keyed (key : V → K) (m : ExtTreeMap K V) : Prop := ∀ k v, m[k]? = some v → key v = k

def Lists (values : List V) (m : ExtTreeMap K V) : Prop :=
  values.Perm (m.toList.map Prod.snd)

/-- The value that comes last under a key stays. -/
def collect (key : V → K) (values : List V) : ExtTreeMap K V :=
  ExtTreeMap.ofList (values.map fun v => (key v, v))

omit [Std.LawfulEqOrd K] in
theorem keyed_empty : Keyed key (∅ : ExtTreeMap K V) := by
  intro k v found
  simp at found

theorem Keyed.insert (keyed : Keyed key m) (v : V) : Keyed key (m.insert (key v) v) := by
  intro k w found
  rw [ExtTreeMap.getElem?_insert] at found
  split at found
  next same =>
    cases found
    exact Std.LawfulEqOrd.eq_of_compare same
  next => exact keyed k w found

omit [Std.LawfulEqOrd K] in
theorem Keyed.erase (keyed : Keyed key m) (k : K) : Keyed key (m.erase k) := by
  intro l v found
  rw [ExtTreeMap.getElem?_erase] at found
  split at found
  · cases found
  · exact keyed l v found

theorem Keyed.modify (keyed : Keyed key m) (k : K) {f : V → V} (keeps : ∀ v, key (f v) = key v) :
    Keyed key (m.modify k f) := by
  intro l v found
  rw [ExtTreeMap.getElem?_modify] at found
  split at found
  next same =>
    obtain ⟨w, old, rfl⟩ := Option.map_eq_some_iff.mp found
    rw [keeps, keyed k w old]
    exact Std.LawfulEqOrd.eq_of_compare same
  next => exact keyed l v found

theorem Lists.mem {values : List V} (lists : Lists values m) {v : V} :
    v ∈ values ↔ ∃ k : K, m[k]? = some v := by
  rw [lists.mem_iff, List.mem_map]
  constructor
  · rintro ⟨⟨k, _⟩, member, rfl⟩
    exact ⟨k, ExtTreeMap.mem_toList_iff_getElem?_eq_some.mp member⟩
  · rintro ⟨k, found⟩
    exact ⟨(k, v), ExtTreeMap.mem_toList_iff_getElem?_eq_some.mpr found, rfl⟩

/-- The keys of a listing are those of the map, each once. -/
theorem Lists.distinct {values : List V} (lists : Lists values m) (keyed : Keyed key m) :
    (values.map key).Nodup := by
  have entries : (m.toList.map Prod.snd).map key = m.toList.map Prod.fst := by
    rw [List.map_map]
    apply List.map_congr_left
    intro entry member
    exact keyed entry.1 entry.2 (ExtTreeMap.mem_toList_iff_getElem?_eq_some.mp member)
  rw [(lists.map key).nodup_iff, entries]
  have apart : m.toList.Pairwise (fun a b => ¬ compare a.1 b.1 = .eq) :=
    ExtTreeMap.distinct_keys_toList
  refine List.pairwise_map.mpr (apart.imp fun different same => different ?_)
  rw [same]
  exact Std.ReflOrd.compare_self

theorem get_collect {values : List V} (distinct : (values.map key).Nodup) {v : V}
    (member : v ∈ values) : (collect key values)[key v]? = some v := by
  refine ExtTreeMap.getElem?_ofList_of_mem (k := key v) Std.ReflOrd.compare_self ?_
    (List.mem_map_of_mem member)
  refine List.pairwise_map.mpr ((List.pairwise_map.mp distinct).imp ?_)
  intro a b different same
  exact different (Std.LawfulEqOrd.eq_of_compare same)

theorem get_collect_none [DecidableEq K] {values : List V} {k : K}
    (absent : ∀ v ∈ values, key v ≠ k) : (collect key values)[k]? = none := by
  apply ExtTreeMap.getElem?_ofList_of_contains_eq_false
  simpa using absent

/-- A map is read back from any listing of its values. -/
theorem collect_lists [DecidableEq K] {values : List V} (lists : Lists values m)
    (keyed : Keyed key m) : collect key values = m := by
  apply ExtTreeMap.ext_getElem?
  intro k
  cases found : m[k]? with
  | some v =>
    have member := lists.mem.mpr ⟨k, found⟩
    rw [← keyed k v found]
    exact get_collect (lists.distinct keyed) member
  | none =>
    apply get_collect_none
    rintro v member rfl
    obtain ⟨l, other⟩ := lists.mem.mp member
    rw [keyed l v other, other] at found
    cases found

/-- A value under a new key goes to the end of a listing. -/
theorem collect_concat [DecidableEq K] {values : List V} (lists : Lists values m)
    (keyed : Keyed key m) {v : V} (fresh : m[key v]? = none) :
    collect key (values ++ [v]) = m.insert (key v) v := by
  have other (w : V) (member : w ∈ values) : key w ≠ key v := by
    intro same
    obtain ⟨l, found⟩ := lists.mem.mp member
    rw [← same, keyed l w found, found] at fresh
    cases fresh
  have distinct : ((values ++ [v]).map key).Nodup := by
    rw [List.map_append, List.map_singleton]
    refine List.nodup_append.mpr ⟨lists.distinct keyed, by simp, ?_⟩
    intro k old l new
    obtain ⟨w, member, rfl⟩ := List.mem_map.mp old
    rw [List.mem_singleton.mp new]
    exact other w member
  apply ExtTreeMap.ext_getElem?
  intro k
  rw [ExtTreeMap.getElem?_insert]
  split
  next same =>
    rw [← Std.LawfulEqOrd.eq_of_compare same]
    exact get_collect distinct (by simp)
  next apart =>
    cases found : m[k]? with
    | some w =>
      rw [← keyed k w found]
      exact get_collect distinct (List.mem_append_left _ (lists.mem.mpr ⟨k, found⟩))
    | none =>
      apply get_collect_none
      rintro w member rfl
      rcases List.mem_append.mp member with old | new
      · obtain ⟨l, present⟩ := lists.mem.mp old
        rw [keyed l w present, present] at found
        cases found
      · rw [List.mem_singleton.mp new] at apart
        exact apart Std.ReflOrd.compare_self

end Lib
