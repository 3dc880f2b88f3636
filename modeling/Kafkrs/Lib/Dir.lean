import Mathlib.Data.Int.Order.Basic
import Mathlib.Data.List.Sort
import Std.Data.ExtTreeMap

/-! Ordered finite maps under lookup. Two strictly ordered listings with the same members
are the same listing, so a map is known from its lookups alone. -/
namespace Lib

open Std (ExtTreeMap)

abbrev Dir (V : Type) := ExtTreeMap Int V

namespace Dir

variable {V : Type} (d : Dir V)

@[simp] theorem get_insert (k a : Int) (v : V) :
    (ExtTreeMap.insert d k v)[a]? = if k = a then some v else d[a]? := by
  simp [ExtTreeMap.getElem?_insert]

@[simp] theorem get_erase (k a : Int) :
    (ExtTreeMap.erase d k)[a]? = if k = a then none else d[a]? := by
  simp [ExtTreeMap.getElem?_erase]

@[simp] theorem get_empty (a : Int) : (∅ : Dir V)[a]? = none := by
  simp

theorem mem_keys {a : Int} : a ∈ d.keys ↔ d[a]?.isSome := by
  rw [ExtTreeMap.mem_keys, ExtTreeMap.isSome_getElem?_iff_mem]

theorem keys_sorted : d.keys.Pairwise (· < ·) := by
  have ordered := ExtTreeMap.ordered_keys (t := d)
  exact ordered.imp fun h => compare_lt_iff_lt.mp h

theorem keys_nodup : d.keys.Nodup :=
  d.keys_sorted.imp fun h => ne_of_lt h

end Dir

/-- Strictly ordered listings with the same members are equal. -/
theorem sorted_unique {α : Type} {key : α → Int} {xs ys : List α}
    (left : xs.Pairwise (fun a b => key a < key b)) (right : ys.Pairwise (fun a b => key a < key b))
    (same : ∀ a, a ∈ xs ↔ a ∈ ys) : xs = ys := by
  have leftNodup : xs.Nodup := left.imp fun h eq => by subst eq; exact lt_irrefl _ h
  have rightNodup : ys.Nodup := right.imp fun h eq => by subst eq; exact lt_irrefl _ h
  have perm : xs.Perm ys := (List.perm_ext_iff_of_nodup leftNodup rightNodup).mpr same
  refine perm.eq_of_pairwise ?_ left right
  intro a b _ _ less more
  exact absurd (lt_trans less more) (lt_irrefl _)

namespace Dir

variable {V : Type} {d : Dir V}

theorem mem_toList {k : Int} {v : V} : (k, v) ∈ d.toList ↔ d[k]? = some v :=
  ExtTreeMap.mem_toList_iff_getElem?_eq_some

theorem toList_empty : (∅ : Dir V).toList = [] := by
  apply List.eq_nil_iff_forall_not_mem.mpr
  rintro ⟨k, v⟩ member
  rw [mem_toList, get_empty] at member
  cases member

theorem toList_sorted (d : Dir V) : d.toList.Pairwise (fun a b => a.1 < b.1) := by
  have ordered := ExtTreeMap.ordered_keys_toList (t := d)
  exact ordered.imp fun h => compare_lt_iff_lt.mp h

theorem keys_eq (d : Dir V) : d.keys = d.toList.map Prod.fst := ExtTreeMap.map_fst_toList_eq_keys.symm

/-- A key above all others comes last. -/
theorem toList_insert_above {k : Int} (above : ∀ entry ∈ d.toList, entry.1 < k) (v : V) :
    (ExtTreeMap.insert d k v).toList = d.toList ++ [(k, v)] := by
  refine sorted_unique (toList_sorted _) (List.pairwise_append.mpr
    ⟨toList_sorted d, by simp, fun a old b new => ?_⟩) ?_
  · rw [List.mem_singleton.mp new]
    exact above a old
  · rintro ⟨a, w⟩
    rw [mem_toList, get_insert, List.mem_append, mem_toList, List.mem_singleton]
    split
    next same =>
      subst same
      have absent : d[k]? ≠ some w := fun found => lt_irrefl _ (above _ (mem_toList.mpr found))
      simp [absent, eq_comm]
    next different => simp [Ne.symm different]

/-- The entry that comes first is erased. -/
theorem toList_erase_first {entry : Int × V} {rest : List (Int × V)} (first : d.toList = entry :: rest) :
    (ExtTreeMap.erase d entry.1).toList = rest := by
  have sorted := toList_sorted d
  rw [first, List.pairwise_cons] at sorted
  refine sorted_unique (toList_sorted _) sorted.2 ?_
  rintro ⟨a, w⟩
  have member : d[a]? = some w ↔ (a, w) = entry ∨ (a, w) ∈ rest := by
    rw [← mem_toList, first, List.mem_cons]
  rw [mem_toList, get_erase]
  split
  next same =>
    simp only [reduceCtorEq, false_iff]
    intro later
    have := sorted.1 _ later
    omega
  next different =>
    rw [member]
    refine ⟨fun found => found.resolve_left fun same => different ?_, .inr⟩
    rw [← same]

theorem erase_absent {k : Int} (absent : d[k]? = none) : ExtTreeMap.erase d k = d := by
  apply ExtTreeMap.ext_getElem?
  intro a
  rw [get_erase]
  split
  next same => rw [← same, absent]
  next => rfl

end Dir
end Lib
