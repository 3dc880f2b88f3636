import Mathlib.Data.List.Basic
import Mathlib.Order.Bounds.Basic
import Mathlib.Tactic.Common

/-! Dropping from the front of a list until what is left is acceptable. The test looks at the
whole rest, and the last element always stays. -/
namespace Lib

variable {α : Type}

def trim (keep : List α → Bool) : List α → List α
  | [] => []
  | [a] => [a]
  | a :: b :: rest => if keep (a :: b :: rest) then a :: b :: rest else trim keep (b :: rest)

theorem trim_cons {keep : List α → Bool} {a : α} {rest : List α} (more : rest ≠ []) :
    trim keep (a :: rest) = if keep (a :: rest) then a :: rest else trim keep rest := by
  obtain ⟨b, rest, rfl⟩ := List.exists_cons_of_ne_nil more
  rfl

theorem trim_suffix (keep : List α → Bool) (xs : List α) : trim keep xs <:+ xs := by
  fun_induction trim keep xs with
  | case1 => exact List.suffix_rfl
  | case2 a => exact List.suffix_rfl
  | case3 a b rest kept => exact List.suffix_rfl
  | case4 a b rest kept ih => exact ih.trans (List.suffix_cons a (b :: rest))

/-- What is dropped is the shortest front after which the rest is accepted or a single element. -/
theorem trim_least (keep : List α → Bool) (xs : List α) :
    ∃ k, IsLeast {k | xs.length - 1 ≤ k ∨ keep (xs.drop k) = true} k ∧
      trim keep xs = xs.drop k := by
  fun_induction trim keep xs with
  | case1 => exact ⟨0, ⟨.inl (Nat.le_refl _), fun _ _ => Nat.zero_le _⟩, rfl⟩
  | case2 a => exact ⟨0, ⟨.inl (Nat.le_refl _), fun _ _ => Nat.zero_le _⟩, rfl⟩
  | case3 a b rest kept => exact ⟨0, ⟨.inr kept, fun _ _ => Nat.zero_le _⟩, rfl⟩
  | case4 a b rest kept ih =>
    obtain ⟨k, ⟨stops, least⟩, same⟩ := ih
    refine ⟨k + 1, ⟨?_, ?_⟩, by rw [same, List.drop_succ_cons]⟩
    · rcases stops with tail | accepted
      · left; simp at tail ⊢; omega
      · right; exact accepted
    · intro m stopsEarlier
      cases m with
      | zero =>
        rcases stopsEarlier with tail | accepted
        · simp at tail
        · exact absurd accepted kept
      | succ m =>
        apply Nat.succ_le_succ
        apply least
        rcases stopsEarlier with tail | accepted
        · left; simp at tail ⊢; omega
        · right; exact accepted

theorem trim_congr {keep other : List α → Bool} {xs : List α}
    (same : ∀ rest, rest <:+ xs → keep rest = other rest) : trim keep xs = trim other xs := by
  fun_induction trim keep xs with
  | case1 => rfl
  | case2 a => rfl
  | case3 a b rest kept => rw [trim, ← same _ List.suffix_rfl, if_pos kept]
  | case4 a b rest kept ih =>
    rw [trim, ← same _ List.suffix_rfl, if_neg kept]
    exact ih fun back behind => same back (behind.trans (List.suffix_cons a (b :: rest)))

/-- Trimming early does not show after a later trim, when the later test accepts less: it takes
no rest, with what was appended since, that the earlier one did not take. -/
theorem trim_trim_append {early late : List α → Bool} {xs ys : List α}
    (stricter : ∀ rest, rest <:+ xs → late (rest ++ ys) = true → early rest = true) :
    trim late (trim early xs ++ ys) = trim late (xs ++ ys) := by
  fun_induction trim early xs with
  | case1 => rfl
  | case2 a => rfl
  | case3 a b rest kept => rfl
  | case4 a b rest kept ih =>
    have refused : ¬ late (a :: b :: rest ++ ys) = true :=
      fun accepted => kept (stricter _ List.suffix_rfl accepted)
    rw [ih fun back behind => stricter back (behind.trans (List.suffix_cons a (b :: rest)))]
    simp only [List.cons_append] at refused ⊢
    conv_rhs => rw [trim, if_neg refused]

theorem trim_trim (keep : List α → Bool) (xs : List α) : trim keep (trim keep xs) = trim keep xs := by
  have again := @trim_trim_append _ keep keep xs [] (by simp)
  simpa only [List.append_nil] using again

end Lib
