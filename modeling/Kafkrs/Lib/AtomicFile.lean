import Kafkrs.Lib.Bytes

/-! A file that is replaced through a temporary one: create it, write it, sync it, rename it. -/
namespace Lib.AtomicFile

structure Files where
  target : Option Bytes
  tmp : Option Bytes
  deriving DecidableEq, Repr

inductive Phase where
  | create
  /-- So many bytes have been written. -/
  | write (written : Nat)
  | sync
  | rename
  deriving DecidableEq, Repr

structure Replacement where
  content : Bytes
  phase : Phase
  deriving DecidableEq, Repr

def Replacement.start (content : Bytes) : Replacement := ⟨content, .create⟩

inductive Outcome where
  | going (rest : Replacement)
  | replaced
  /-- There is no temporary file to rename. -/
  | failed
  deriving DecidableEq, Repr

/-- Bytes written at an offset; a gap in front of it reads as zeros. -/
def writeAt (old : Bytes) (offset : Nat) (chunk : Bytes) : Bytes :=
  old.take offset ++ List.replicate (offset - old.length) 0 ++ chunk ++
    old.drop (offset + chunk.length)

/-- The next system call; a write takes up to `amount` bytes more than one. -/
def Replacement.advance (r : Replacement) (amount : Nat) (files : Files) : Files × Outcome :=
  match r.phase with
  | .create => ({ files with tmp := some [] }, .going { r with phase := .write 0 })
  | .write written =>
    if written < r.content.length then
      let chunk := (r.content.drop written).take (amount + 1)
      ({ files with tmp := files.tmp.map (writeAt · written chunk) },
        .going { r with phase := .write (written + chunk.length) })
    else (files, .going { r with phase := .sync })
  | .sync => (files, .going { r with phase := .rename })
  | .rename =>
    match files.tmp with
    | some content => (⟨some content, none⟩, .replaced)
    | none => (files, .failed)

def Replacement.Along (files : Files) (r : Replacement) : Prop :=
  match r.phase with
  | .create => True
  | .write written => files.tmp = some (r.content.take written) ∧ written ≤ r.content.length
  | .sync | .rename => files.tmp = some r.content

variable {r rest : Replacement} {amount : Nat} {files next : Files}

theorem start_along (content : Bytes) (files : Files) : (Replacement.start content).Along files := trivial

/-- Until the rename the file is what it was. -/
theorem advance_going (moved : r.advance amount files = (next, .going rest)) :
    next.target = files.target ∧ rest.content = r.content := by
  obtain ⟨content, phase⟩ := r
  cases phase with
  | create | sync =>
    cases moved
    exact ⟨rfl, rfl⟩
  | write written =>
    simp only [Replacement.advance] at moved
    split at moved <;> cases moved <;> exact ⟨rfl, rfl⟩
  | rename =>
    simp only [Replacement.advance] at moved
    split at moved <;> cases moved

/-- A write at the end goes on with the content. -/
theorem writeAt_end {content : Bytes} {written : Nat} (within : written ≤ content.length) (size : Nat) :
    writeAt (content.take written) written ((content.drop written).take size) =
      content.take (written + ((content.drop written).take size).length) := by
  have length : (content.take written).length = written := by
    rw [List.length_take]
    omega
  generalize chunk : (content.drop written).take size = bytes
  have front : (content.take written).take written = content.take written :=
    List.take_of_length_le (by omega)
  have back : (content.take written).drop (written + bytes.length) = [] :=
    List.drop_of_length_le (by omega)
  rw [writeAt, length, front, back, Nat.sub_self, List.replicate_zero, List.append_nil,
    List.append_nil, List.take_add, ← chunk, List.length_take, ← List.take_take, List.take_length]

theorem advance_along (along : r.Along files) (moved : r.advance amount files = (next, .going rest)) :
    rest.Along next := by
  obtain ⟨content, phase⟩ := r
  cases phase with
  | create =>
    cases moved
    exact ⟨rfl, Nat.zero_le _⟩
  | sync =>
    cases moved
    exact along
  | write written =>
    obtain ⟨held, within⟩ := along
    simp only [Replacement.advance] at moved
    split at moved
    · cases moved
      dsimp only at held within
      refine ⟨by rw [held, Option.map_some, writeAt_end within], ?_⟩
      dsimp only
      rw [List.length_take, List.length_drop]
      omega
    next whole =>
      cases moved
      dsimp only at held within whole ⊢
      rw [Replacement.Along, held, List.take_of_length_le (by omega)]
  | rename =>
    simp only [Replacement.advance] at moved
    split at moved <;> cases moved

/-- The rename puts the whole content in place, and does not fail. -/
theorem advance_replaced (along : r.Along files) (moved : r.advance amount files = (next, .replaced)) :
    next.target = some r.content := by
  obtain ⟨content, phase⟩ := r
  cases phase with
  | create | sync => cases moved
  | write written =>
    simp only [Replacement.advance] at moved
    split at moved <;> cases moved
  | rename =>
    simp only [Replacement.advance] at moved
    split at moved
    next found =>
      cases moved
      exact found.symm.trans along
    next => cases moved

theorem advance_failed (along : r.Along files) : r.advance amount files ≠ (next, .failed) := by
  intro moved
  obtain ⟨content, phase⟩ := r
  cases phase with
  | create | sync => cases moved
  | write written =>
    simp only [Replacement.advance] at moved
    split at moved <;> cases moved
  | rename =>
    simp only [Replacement.advance, show files.tmp = some content from along] at moved
    cases moved

end Lib.AtomicFile
