import Mathlib.Data.List.Basic
import Mathlib.Tactic.Common

/-! Slash-separated paths. A location is the list of its components from the root; there are
no symbolic links, so that walking a path is lexical. -/
namespace Lib.FilePath

/-- The pieces between slashes, empty ones included. -/
def split (path : String) : List String :=
  (path.toList.splitOnP (· == '/')).map String.ofList

def descend (dir : List String) (component : String) : List String :=
  if component = "" ∨ component = "." then dir
  else if component = ".." then dir.dropLast
  else dir ++ [component]

/-- Where `path` leads from `dir`; an absolute path starts over from the root. -/
def join (dir : List String) (path : String) : List String :=
  (split path).foldl descend (if path.toList.head? = some '/' then [] else dir)

structure Plain (name : String) : Prop where
  nonempty : name ≠ ""
  here : name ≠ "."
  parent : name ≠ ".."
  slashless : '/' ∉ name.toList

instance (name : String) : Decidable (Plain name) :=
  decidable_of_iff (name ≠ "" ∧ name ≠ "." ∧ name ≠ ".." ∧ '/' ∉ name.toList)
    ⟨fun ⟨a, b, c, d⟩ => ⟨a, b, c, d⟩, fun ⟨a, b, c, d⟩ => ⟨a, b, c, d⟩⟩

theorem split_slashless {name : String} (slashless : '/' ∉ name.toList) : split name = [name] := by
  have single : name.toList.splitOnP (· == '/') = [name.toList] := by
    apply List.splitOnP_eq_singleton
    intro c member
    simpa using fun same : c = '/' => slashless (same ▸ member)
  simp [split, single]

theorem split_append (first second : String) :
    split (first ++ "/" ++ second) = split first ++ split second := by
  have pieces := List.splitOnP_append_cons (p := (· == '/')) first.toList second.toList
    (beq_self_eq_true '/')
  simp only [split, String.toList_append, ← List.map_append]
  rw [← pieces]
  simp

theorem join_plain {name : String} (plain : Plain name) (dir : List String) :
    join dir name = dir ++ [name] := by
  have relative : name.toList.head? ≠ some '/' := by
    intro first
    exact plain.slashless (List.mem_of_head? first)
  simp [join, split_slashless plain.slashless, relative, descend, plain.nonempty, plain.here,
    plain.parent]

/-- A list is cut in one way at the last occurrence of a separator. -/
theorem append_sep_inj {α : Type} {sep : α} {front front' back back' : List α}
    (clean : sep ∉ back) (clean' : sep ∉ back')
    (same : front ++ sep :: back = front' ++ sep :: back') : front = front' ∧ back = back' := by
  rcases List.append_eq_append_iff.mp same with ⟨more, rfl, rest⟩ | ⟨more, rfl, rest⟩
  · cases more with
    | nil => exact ⟨by simp, (List.cons.inj rest).2⟩
    | cons c more => exact absurd ((List.cons.inj rest).2 ▸ by simp) clean
  · cases more with
    | nil => exact ⟨by simp, (List.cons.inj rest).2.symm⟩
    | cons c more => exact absurd ((List.cons.inj rest).2 ▸ by simp) clean'

end Lib.FilePath
