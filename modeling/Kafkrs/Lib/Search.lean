import Mathlib.Data.List.Basic
import Mathlib.Tactic.Common

/-! Binary search for the boundary of a partitioned list. -/
namespace Lib

variable {α : Type}

/-- One probe halves the window `[base, base + size)`; `size` rounds are more than enough. -/
def partitionLoop (pred : α → Bool) (xs : List α) : Nat → Nat → Nat → Nat
  | 0, base, _ => base
  | fuel + 1, base, size =>
    if size ≤ 1 then
      match xs[base]? with
      | some a => if pred a then base + 1 else base
      | none => base
    else
      let half := size / 2
      let middle := base + half
      let next := match xs[middle]? with
        | some a => if pred a then middle else base
        | none => base
      partitionLoop pred xs fuel next (size - half)

/-- `slice::partition_point`: the number of leading elements that satisfy `pred`, found by
bisection, when no element satisfies `pred` after one that does not. -/
def partitionPoint (pred : α → Bool) (xs : List α) : Nat :=
  partitionLoop pred xs (xs.length + 1) 0 xs.length

/-- `cut` separates the elements that satisfy `pred` from those that do not. -/
def SplitAt (pred : α → Bool) (xs : List α) (cut : Nat) : Prop :=
  cut ≤ xs.length ∧ ∀ i a, xs[i]? = some a → (pred a = true ↔ i < cut)

theorem partitionLoop_spec {pred : α → Bool} {xs : List α} {cut : Nat}
    (split : SplitAt pred xs cut) {fuel base size : Nat} (enough : size < fuel)
    (within : base + size ≤ xs.length) (low : base ≤ cut) (high : cut ≤ base + size) :
    partitionLoop pred xs fuel base size = cut := by
  induction fuel generalizing base size with
  | zero => omega
  | succ fuel ih =>
    unfold partitionLoop
    split
    next small =>
      cases found : xs[base]? with
      | none =>
        have := List.getElem?_eq_none_iff.mp found
        dsimp only; omega
      | some a =>
        have side := split.2 base a found
        have := (List.getElem?_eq_some_iff.mp found).1
        dsimp only
        by_cases holds : pred a = true
        · have := side.mp holds
          simp only [holds, ↓reduceIte]; omega
        · have : ¬ base < cut := fun h => holds (side.mpr h)
          simp only [holds]
          simp; omega
    next large =>
      have half : 0 < size / 2 ∧ size / 2 < size := by omega
      have inside : base + size / 2 < xs.length := by omega
      have found : xs[base + size / 2]? = some xs[base + size / 2] :=
        List.getElem?_eq_getElem inside
      have side := split.2 _ _ found
      simp only [found]
      by_cases holds : pred xs[base + size / 2] = true
      · have := side.mp holds
        simp only [holds, ↓reduceIte]
        exact ih (by omega) (by omega) (by omega) (by omega)
      · have : ¬ base + size / 2 < cut := fun h => holds (side.mpr h)
        simp only [holds, Bool.false_eq_true, ↓reduceIte]
        exact ih (by omega) (by omega) (by omega) (by omega)

theorem partitionPoint_spec {pred : α → Bool} {xs : List α} {cut : Nat}
    (split : SplitAt pred xs cut) : partitionPoint pred xs = cut :=
  partitionLoop_spec split (by omega) (by omega) (by omega) (by have := split.1; omega)

/-- Where no element satisfies `pred` after one that does not, the first that does not is the cut. -/
theorem splitAt_findIdx {pred : α → Bool} {xs : List α}
    (closed : xs.Pairwise (fun a b => pred b = true → pred a = true)) :
    SplitAt pred xs (xs.findIdx (fun a => !pred a)) := by
  refine ⟨List.findIdx_le_length, fun i a found => ⟨fun holds => ?_, fun before => ?_⟩⟩
  · by_contra late
    obtain ⟨inside, rfl⟩ := List.getElem?_eq_some_iff.mp found
    have cut : xs.findIdx (fun a => !pred a) < xs.length := by omega
    have fails : pred xs[xs.findIdx (fun a => !pred a)] = false := by
      simpa using List.findIdx_getElem (w := cut)
    rcases Nat.lt_or_eq_of_le (Nat.le_of_not_lt late) with earlier | same
    · have := List.pairwise_iff_getElem.mp closed _ i cut inside earlier holds
      simp [this] at fails
    · simp [same, holds] at fails
  · obtain ⟨inside, rfl⟩ := List.getElem?_eq_some_iff.mp found
    simpa using List.not_of_lt_findIdx before

/-- The element at the partition point is the one a scan would stop at. -/
theorem getElem?_partitionPoint {pred : α → Bool} {xs : List α}
    (closed : xs.Pairwise (fun a b => pred b = true → pred a = true)) :
    xs[partitionPoint pred xs]? = xs.find? (fun a => !pred a) := by
  rw [partitionPoint_spec (splitAt_findIdx closed), List.find?_eq_getElem?_findIdx]

/-- Testing only the first candidate is scanning for a goal, when no goal lies behind a candidate
that is none. -/
theorem filter_find? {candidate goal : α → Bool} {xs : List α}
    (implied : ∀ a, goal a = true → candidate a = true)
    (behind : xs.Pairwise (fun a b => candidate a = true → goal b = true → goal a = true)) :
    (xs.find? candidate).filter goal = xs.find? goal := by
  induction xs with
  | nil => rfl
  | cons x rest ih =>
    obtain ⟨front, back⟩ := List.pairwise_cons.mp behind
    by_cases hit : candidate x = true
    · by_cases good : goal x = true
      · simp [hit, good]
      · have none : rest.find? goal = none :=
          List.find?_eq_none.mpr fun b member found => good (front b member hit found)
        simp [hit, good, none]
    · have miss : ¬ goal x = true := fun good => hit (implied x good)
      rw [List.find?_cons_of_neg hit, List.find?_cons_of_neg miss]
      exact ih back

end Lib
