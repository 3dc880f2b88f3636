import Mathlib.Data.List.Basic

/-! Lists as tables of numbered slots: what is in a slot after an update. -/
namespace Lib.Slots

variable {α : Type} {slots : List α} {i id : Nat} {x y : α}

theorem set_cases (found : (slots.set id x)[i]? = some y) :
    (i = id ∧ y = x) ∨ (i ≠ id ∧ slots[i]? = some y) := by
  rw [List.getElem?_set] at found
  split at found
  next same =>
    split at found
    · exact .inl ⟨same.symm, (Option.some.inj found).symm⟩
    · cases found
  next different => exact .inr ⟨Ne.symm different, found⟩

theorem append_cases (found : (slots ++ [x])[i]? = some y) :
    (i = slots.length ∧ y = x) ∨ slots[i]? = some y := by
  rw [List.getElem?_append] at found
  split at found
  · exact .inr found
  next beyond =>
    have here := (List.getElem?_eq_some_iff.mp found).1
    simp only [List.length_cons, List.length_nil] at here
    have last : i = slots.length := by omega
    subst last
    simp only [Nat.sub_self, List.getElem?_cons_zero, Option.some.injEq] at found
    exact .inl ⟨rfl, found.symm⟩

theorem append_old {more : List α} (found : slots[i]? = some y) : (slots ++ more)[i]? = some y := by
  rw [List.getElem?_append_left (List.getElem?_eq_some_iff.mp found).1, found]

theorem modify_cases {f : α → α} (found : (slots.modify id f)[i]? = some y) :
    (i = id ∧ ∃ x, slots[i]? = some x ∧ y = f x) ∨ (i ≠ id ∧ slots[i]? = some y) := by
  rw [List.getElem?_modify] at found
  obtain ⟨x, here, rfl⟩ := Option.map_eq_some_iff.mp found
  by_cases same : id = i
  · exact .inl ⟨same.symm, x, here, by simp [same]⟩
  · exact .inr ⟨Ne.symm same, by simp [same, here]⟩

theorem set_self (found : slots[id]? = some y) : (slots.set id x)[id]? = some x := by
  rw [List.getElem?_set_self]
  exact (List.getElem?_eq_some_iff.mp found).1

theorem set_other (different : i ≠ id) : (slots.set id x)[i]? = slots[i]? :=
  List.getElem?_set_ne (Ne.symm different)

theorem modify_other {f : α → α} (different : i ≠ id) : (slots.modify id f)[i]? = slots[i]? := by
  simp [Ne.symm different]

theorem modify_self {f : α → α} (found : slots[id]? = some x) :
    (slots.modify id f)[id]? = some (f x) := by
  simp [found]

theorem map_found {β : Type} {f : α → β} (found : slots[i]? = some x) :
    (slots.map f)[i]? = some (f x) := by
  rw [List.getElem?_map, found, Option.map_some]

/-- A view of the slots, when the update can be made in the view. -/
theorem map_modify {β : Type} {f : α → α} {g : α → β} {h : β → β} (same : ∀ x, g (f x) = h (g x)) :
    (slots.modify id f).map g = (slots.map g).modify id h := by
  apply List.ext_getElem?
  intro i
  rw [List.getElem?_map, List.getElem?_modify, List.getElem?_modify, List.getElem?_map]
  cases slots[i]? with
  | none => rfl
  | some x =>
    by_cases here : id = i
    · simp [here, same]
    · simp [here]

/-- How often something occurs in all the slots together after one of them is updated. -/
theorem count_flatten_modify [BEq α] {slots : List (List α)} {old : List α} {f : List α → List α}
    (found : slots[id]? = some old) (a : α) :
    (slots.modify id f).flatten.count a + old.count a = slots.flatten.count a + (f old).count a := by
  induction slots generalizing id with
  | nil => cases found
  | cons first slots ih =>
    cases id with
    | zero =>
      cases found
      simp only [List.modify_zero_cons, List.flatten_cons, List.count_append]
      omega
    | succ id =>
      have rest := ih found
      simp only [List.modify_succ_cons, List.flatten_cons, List.count_append]
      omega

/-- A view of the slots that does not tell the new one from the old one. -/
theorem map_set_same {β : Type} {f : α → β} (found : slots[id]? = some y) (same : f x = f y) :
    (slots.set id x).map f = slots.map f := by
  apply List.ext_getElem?
  intro i
  rw [List.getElem?_map, List.getElem?_map]
  by_cases here : i = id
  · subst here
    rw [set_self found, found, Option.map_some, Option.map_some, same]
  · rw [set_other here]

/-- What is in the last slot after one slot is set. -/
theorem getLast?_set : (slots.set id x).getLast? =
    if id + 1 = slots.length then some x else slots.getLast? := by
  rw [List.getLast?_eq_getElem?, List.getLast?_eq_getElem?, List.length_set, List.getElem?_set]
  by_cases empty : slots = []
  · subst empty
    simp
  · have filled := List.length_pos_iff.mpr empty
    by_cases last : id + 1 = slots.length
    · have here : id = slots.length - 1 := by omega
      rw [if_pos here, if_pos (by omega), if_pos last]
    · have other : id ≠ slots.length - 1 := by omega
      rw [if_neg other, if_neg last]

end Lib.Slots
