import Mathlib.Data.List.Basic
import Mathlib.Data.Int.Order.Basic
import Mathlib.Tactic.Common

/-! Lists whose members carry consecutive numbers. -/
namespace Lib

variable {α : Type} {number : α → Int}

/-- The members are numbered `start, start + 1, …` in order. -/
def Numbered (number : α → Int) : Int → List α → Prop
  | _, [] => True
  | start, a :: rest => number a = start ∧ Numbered number (start + 1) rest

namespace Numbered

instance decidable : ∀ (start : Int) (xs : List α), Decidable (Numbered number start xs)
  | _, [] => .isTrue trivial
  | start, a :: rest =>
    have := decidable (start + 1) rest
    inferInstanceAs (Decidable (number a = start ∧ Numbered number (start + 1) rest))

theorem append_iff {start : Int} {xs ys : List α} :
    Numbered number start (xs ++ ys) ↔
      Numbered number start xs ∧ Numbered number (start + xs.length) ys := by
  induction xs generalizing start with
  | nil => simp [Numbered]
  | cons a xs ih =>
    have shift : start + 1 + (xs.length : Int) = start + ((a :: xs).length : Int) := by
      simp only [List.length_cons]; omega
    simp only [List.cons_append, Numbered, ih, shift, and_assoc]

theorem drop {start : Int} {xs : List α} (numbered : Numbered number start xs) (n : Nat)
    (bound : n ≤ xs.length) : Numbered number (start + n) (xs.drop n) := by
  rw [← List.take_append_drop n xs, append_iff] at numbered
  simpa [List.length_take, Nat.min_eq_left bound] using numbered.2

theorem take {start : Int} {xs : List α} (numbered : Numbered number start xs) (n : Nat) :
    Numbered number start (xs.take n) := by
  rw [← List.take_append_drop n xs, append_iff] at numbered
  exact numbered.1

theorem mem_bounds {start : Int} {xs : List α} (numbered : Numbered number start xs) {a : α}
    (member : a ∈ xs) : start ≤ number a ∧ number a < start + xs.length := by
  induction xs generalizing start with
  | nil => simp at member
  | cons b xs ih =>
    simp only [List.length_cons, List.mem_cons] at *
    rcases member with rfl | later
    · have := numbered.1; omega
    · have := ih numbered.2 later; omega

theorem sorted {start : Int} {xs : List α} (numbered : Numbered number start xs) :
    xs.Pairwise (fun a b => number a < number b) := by
  induction xs generalizing start with
  | nil => exact List.Pairwise.nil
  | cons a xs ih =>
    refine List.Pairwise.cons (fun b member => ?_) (ih numbered.2)
    have := numbered.2.mem_bounds member
    have := numbered.1
    omega

theorem get {start : Int} {xs : List α} (numbered : Numbered number start xs) {n : Nat}
    (bound : n < xs.length) : number xs[n] = start + n := by
  have dropped := numbered.drop n (Nat.le_of_lt bound)
  rw [List.drop_eq_getElem_cons bound] at dropped
  exact dropped.1

theorem head {start : Int} {xs : List α} (numbered : Numbered number start xs) {a : α}
    (first : xs.head? = some a) : number a = start := by
  cases xs with
  | nil => cases first
  | cons b xs => rw [← Option.some.inj first]; exact numbered.1

theorem last {start : Int} {xs : List α} (numbered : Numbered number start xs) {a : α}
    (final : xs.getLast? = some a) : number a = start + xs.length - 1 := by
  rw [← List.dropLast_append_getLast? a final, append_iff] at numbered
  have := numbered.2.1
  have : xs ≠ [] := by rintro rfl; cases final
  have := List.length_pos_iff.mpr this
  have : xs.dropLast.length = xs.length - 1 := List.length_dropLast
  omega

/-- Every number in the range is taken. -/
theorem exists_mem {start n : Int} {xs : List α} (numbered : Numbered number start xs)
    (low : start ≤ n) (high : n < start + xs.length) : ∃ a ∈ xs, number a = n := by
  induction xs generalizing start with
  | nil => simp at high; omega
  | cons a xs ih =>
    by_cases here : n = start
    · exact ⟨a, by simp, numbered.1.trans here.symm⟩
    · simp only [List.length_cons] at high
      obtain ⟨b, member, same⟩ := ih numbered.2 (by omega) (by push_cast at high; omega)
      exact ⟨b, List.mem_cons_of_mem _ member, same⟩

/-- Asking for numbers from `low` on is dropping a prefix. -/
theorem filter_ge {start low : Int} {xs : List α} (numbered : Numbered number start xs)
    (above : start ≤ low) :
    xs.filter (fun a => low ≤ number a) = xs.drop (low - start).toNat := by
  induction xs generalizing start with
  | nil => simp
  | cons a xs ih =>
    obtain ⟨here, rest⟩ := numbered
    by_cases first : low = start
    · subst first
      have all : ∀ b ∈ a :: xs, decide (low ≤ number b) = true := by
        intro b member
        have := (show Numbered number low (a :: xs) from ⟨here, rest⟩).mem_bounds member
        simp; omega
      rw [List.filter_eq_self.mpr all]
      simp
    · have below : ¬ low ≤ number a := by omega
      have step : (low - start).toNat = (low - (start + 1)).toNat + 1 := by omega
      rw [List.filter_cons_of_neg (by simpa using below), ih rest (by omega), step,
        List.drop_succ_cons]

end Numbered
end Lib
