import Mathlib.Tactic.Common

/-! Machines driven by explicit schedules. A step that is not enabled answers `none`,
so a schedule that executes is one whose every step was enabled where it was taken. -/
namespace Lib

structure Machine (σ α : Type) where
  initial : σ
  step : α → σ → Option σ

namespace Machine

variable {σ α : Type} (M : Machine σ α)

def execute : List α → σ → Option σ
  | [], s => some s
  | action :: schedule, s => (M.step action s).bind (execute schedule)

/-- Every step of the schedule meets `guard` at the state it is taken from. -/
def Along (guard : σ → α → Prop) : List α → σ → Prop
  | [], _ => True
  | action :: schedule, s =>
    guard s action ∧ ∀ next, M.step action s = some next → Along guard schedule next

/-- Every state the schedule goes through has the property. -/
def Throughout (property : σ → Prop) : List α → σ → Prop
  | [], s => property s
  | action :: schedule, s =>
    property s ∧ ∀ next, M.step action s = some next → Throughout property schedule next

def Reaches (guard : σ → α → Prop) (s : σ) : Prop :=
  ∃ schedule, M.Along guard schedule M.initial ∧ M.execute schedule M.initial = some s

def Leads (s final : σ) : Prop := ∃ schedule, M.execute schedule s = some final

variable {M}

theorem execute_cons {action : α} {schedule : List α} {s final : σ}
    (ran : M.execute (action :: schedule) s = some final) :
    ∃ next, M.step action s = some next ∧ M.execute schedule next = some final :=
  Option.bind_eq_some_iff.mp ran

theorem execute_step {action : α} {schedule : List α} {s next : σ}
    (taken : M.step action s = some next) :
    M.execute (action :: schedule) s = M.execute schedule next := by
  rw [execute, taken, Option.bind_some]

theorem execute_append (first second : List α) (s : σ) :
    M.execute (first ++ second) s = (M.execute first s).bind (M.execute second) := by
  induction first generalizing s with
  | nil => rfl
  | cons action first ih =>
    simp only [List.cons_append, execute, Option.bind_assoc]
    exact congrArg _ (funext ih)

theorem Leads.refl (s : σ) : M.Leads s s := ⟨[], rfl⟩

theorem Leads.trans {a b c : σ} (first : M.Leads a b) (second : M.Leads b c) : M.Leads a c := by
  obtain ⟨before, ran⟩ := first
  obtain ⟨after, ran'⟩ := second
  exact ⟨before ++ after, by simp [execute_append, ran, ran']⟩

theorem Leads.step {s next : σ} (action : α) (taken : M.step action s = some next) :
    M.Leads s next :=
  ⟨[action], by simp [execute, taken]⟩

theorem Leads.invariant {inv : σ → Prop}
    (preserved : ∀ s action next, inv s → M.step action s = some next → inv next)
    {s final : σ} (leads : M.Leads s final) (valid : inv s) : inv final := by
  obtain ⟨schedule, ran⟩ := leads
  induction schedule generalizing s with
  | nil => cases ran; exact valid
  | cons action schedule ih =>
    obtain ⟨next, taken, rest⟩ := execute_cons ran
    exact ih (preserved s action next valid taken) rest

theorem along_append {guard : σ → α → Prop} {first second : List α} {s middle : σ}
    (ran : M.execute first s = some middle) :
    M.Along guard (first ++ second) s ↔ M.Along guard first s ∧ M.Along guard second middle := by
  induction first generalizing s with
  | nil => cases ran; simp [Along]
  | cons action first ih =>
    obtain ⟨next, taken, rest⟩ := execute_cons ran
    have only : ∀ other, M.step action s = some other → other = next :=
      fun other same => Option.some.inj (same.symm.trans taken)
    simp only [List.cons_append, Along]
    constructor
    · rintro ⟨here, later⟩
      obtain ⟨left, right⟩ := (ih rest).mp (later next taken)
      exact ⟨⟨here, fun other same => only other same ▸ left⟩, right⟩
    · rintro ⟨⟨here, later⟩, right⟩
      refine ⟨here, fun other same => ?_⟩
      rw [only other same]
      exact (ih rest).mpr ⟨later next taken, right⟩

theorem Along.and {first second : σ → α → Prop} {schedule : List α} {s : σ}
    (left : M.Along first schedule s) (right : M.Along second schedule s) :
    M.Along (fun s action => first s action ∧ second s action) schedule s := by
  induction schedule generalizing s with
  | nil => trivial
  | cons action schedule ih =>
    exact ⟨⟨left.1, right.1⟩, fun next taken => ih (left.2 next taken) (right.2 next taken)⟩

/-- A guard that can be tested along the way can be tested for the whole schedule. -/
instance Along.decidable {guard : σ → α → Prop} [∀ s a, Decidable (guard s a)] :
    ∀ (schedule : List α) (s : σ), Decidable (M.Along guard schedule s)
  | [], _ => .isTrue trivial
  | action :: schedule, s =>
    have : Decidable (∀ next, M.step action s = some next → M.Along guard schedule next) :=
      match M.step action s with
      | none => .isTrue fun _ same => nomatch same
      | some next =>
        have : Decidable (M.Along guard schedule next) := Along.decidable schedule next
        decidable_of_iff (M.Along guard schedule next)
          ⟨fun along _ same => Option.some.inj same ▸ along, fun all => all next rfl⟩
    inferInstanceAs (Decidable (_ ∧ _))

instance Throughout.decidable {property : σ → Prop} [DecidablePred property] :
    ∀ (schedule : List α) (s : σ), Decidable (M.Throughout property schedule s)
  | [], s => inferInstanceAs (Decidable (property s))
  | action :: schedule, s =>
    have : Decidable (∀ next, M.step action s = some next →
        M.Throughout property schedule next) :=
      match M.step action s with
      | none => .isTrue fun _ same => nomatch same
      | some next =>
        have : Decidable (M.Throughout property schedule next) :=
          Throughout.decidable schedule next
        decidable_of_iff (M.Throughout property schedule next)
          ⟨fun all _ same => Option.some.inj same ▸ all, fun all => all next rfl⟩
    inferInstanceAs (Decidable (_ ∧ _))

theorem along_true (schedule : List α) (s : σ) : M.Along (fun _ _ => True) schedule s := by
  induction schedule generalizing s with
  | nil => trivial
  | cons action schedule ih => exact ⟨trivial, fun next _ => ih next⟩

theorem Reaches.initial (guard : σ → α → Prop) : M.Reaches guard M.initial :=
  ⟨[], trivial, rfl⟩

theorem Reaches.next {guard : σ → α → Prop} {s next : σ} {action : α}
    (reached : M.Reaches guard s) (meets : guard s action)
    (taken : M.step action s = some next) : M.Reaches guard next := by
  obtain ⟨schedule, along, ran⟩ := reached
  refine ⟨schedule ++ [action], ?_, ?_⟩
  · refine (along_append ran).mpr ⟨along, meets, fun _ _ => trivial⟩
  · simp [execute_append, ran, execute, taken]

/-- What every step preserves holds at the end of every schedule. -/
theorem execute_invariant {guard : σ → α → Prop} {inv : σ → Prop}
    (preserved : ∀ s action next, inv s → guard s action → M.step action s = some next → inv next)
    {schedule : List α} {s final : σ} (valid : inv s) (along : M.Along guard schedule s)
    (ran : M.execute schedule s = some final) : inv final := by
  induction schedule generalizing s with
  | nil => cases ran; exact valid
  | cons action schedule ih =>
    obtain ⟨next, taken, rest⟩ := execute_cons ran
    exact ih (preserved s action next valid along.1 taken) (along.2 next taken) rest

/-- Under an invariant a guard may be read as another. -/
theorem Along.imp {guard other : σ → α → Prop} {inv : σ → Prop}
    (preserved : ∀ s action next, inv s → guard s action → M.step action s = some next → inv next)
    (implies : ∀ s action, inv s → guard s action → other s action)
    {schedule : List α} {s : σ} (valid : inv s) (along : M.Along guard schedule s) :
    M.Along other schedule s := by
  induction schedule generalizing s with
  | nil => trivial
  | cons action schedule ih =>
    refine ⟨implies s action valid along.1, fun next taken => ?_⟩
    exact ih (preserved s action next valid along.1 taken) (along.2 next taken)

/-- What an invariant implies holds in every state on the way. -/
theorem Along.throughout {guard : σ → α → Prop} {inv property : σ → Prop}
    (preserved : ∀ s action next, inv s → guard s action → M.step action s = some next → inv next)
    (implies : ∀ s, inv s → property s)
    {schedule : List α} {s : σ} (valid : inv s) (along : M.Along guard schedule s) :
    M.Throughout property schedule s := by
  induction schedule generalizing s with
  | nil => exact implies s valid
  | cons action schedule ih =>
    refine ⟨implies s valid, fun next taken => ?_⟩
    exact ih (preserved s action next valid along.1 taken) (along.2 next taken)

theorem Throughout.final {property : σ → Prop} {schedule : List α} {s final : σ}
    (throughout : M.Throughout property schedule s) (ran : M.execute schedule s = some final) :
    property final := by
  induction schedule generalizing s with
  | nil => cases ran; exact throughout
  | cons action schedule ih =>
    obtain ⟨next, taken, rest⟩ := execute_cons ran
    exact ih (throughout.2 next taken) rest

/-- When each admitted step keeps a property exactly under its guard, so does each schedule
of admitted steps. -/
theorem throughout_iff_along {admits guard : σ → α → Prop} {inv property : σ → Prop}
    (preserved : ∀ s action next, inv s → admits s action → M.step action s = some next → inv next)
    (disabled : ∀ s action, M.step action s = none → guard s action)
    (exact : ∀ s action next, inv s → admits s action → property s → M.step action s = some next →
      (property next ↔ guard s action))
    {schedule : List α} {s : σ} (valid : inv s) (holds : property s)
    (admitted : M.Along admits schedule s) :
    M.Throughout property schedule s ↔ M.Along guard schedule s := by
  induction schedule generalizing s with
  | nil => exact ⟨fun _ => trivial, fun _ => holds⟩
  | cons action schedule ih =>
    cases taken : M.step action s with
    | none => simp [Throughout, Along, taken, holds, disabled s action taken]
    | some next =>
      have valid' := preserved s action next valid admitted.1 taken
      have here := exact s action next valid admitted.1 holds taken
      have rest := admitted.2 next taken
      simp only [Throughout, Along, taken, Option.some.injEq, forall_eq', holds, true_and]
      constructor
      · intro later
        have first : property next := by
          cases schedule with
          | nil => exact later
          | cons _ _ => exact later.1
        exact ⟨here.mp first, (ih valid' first rest).mp later⟩
      · rintro ⟨meets, later⟩
        exact (ih valid' (here.mpr meets) rest).mpr later

/-- When an invariant with the property lasts exactly as long as the guard is met, the admitted
schedules that keep the property are those that meet the guard. -/
theorem throughout_iff_admitted {admits guard : σ → α → Prop} {inv property : σ → Prop}
    (implies : ∀ s, inv s → property s)
    (kept : ∀ s action next, inv s → admits s action → guard s action → M.step action s = some next →
      inv next)
    (broken : ∀ s action next, inv s → admits s action → ¬ guard s action →
      M.step action s = some next → ¬ property next)
    (disabled : ∀ s action, M.step action s = none → guard s action)
    {schedule : List α} {s : σ} (valid : inv s) (admitted : M.Along admits schedule s) :
    M.Throughout property schedule s ↔ M.Along guard schedule s := by
  induction schedule generalizing s with
  | nil => exact ⟨fun _ => trivial, fun _ => implies s valid⟩
  | cons action schedule ih =>
    cases taken : M.step action s with
    | none => simp [Throughout, Along, taken, implies s valid, disabled s action taken]
    | some next =>
      have rest := admitted.2 next taken
      simp only [Throughout, Along, taken, Option.some.injEq, forall_eq', implies s valid, true_and]
      constructor
      · intro later
        have first : property next := by
          cases schedule with
          | nil => exact later
          | cons _ _ => exact later.1
        have meets : guard s action := by
          by_contra fails
          exact broken s action next valid admitted.1 fails taken first
        exact ⟨meets, (ih (kept s action next valid admitted.1 meets taken) rest).mp later⟩
      · rintro ⟨meets, later⟩
        exact (ih (kept s action next valid admitted.1 meets taken) rest).mpr later

theorem throughout_iff_guarded {guard : σ → α → Prop} {inv property : σ → Prop}
    (implies : ∀ s, inv s → property s)
    (kept : ∀ s action next, inv s → guard s action → M.step action s = some next → inv next)
    (broken : ∀ s action next, inv s → ¬ guard s action → M.step action s = some next → ¬ property next)
    (disabled : ∀ s action, M.step action s = none → guard s action)
    {schedule : List α} {s : σ} (valid : inv s) :
    M.Throughout property schedule s ↔ M.Along guard schedule s :=
  throughout_iff_admitted implies (fun s action next valid _ => kept s action next valid)
    (fun s action next valid _ => broken s action next valid) disabled valid (along_true schedule s)

/-- Two properties that agree where an invariant holds, when the invariant lasts as long as
the second does. -/
theorem throughout_congr {guard : σ → α → Prop} {inv left right : σ → Prop}
    (preserved : ∀ s action next, inv s → right s → guard s action → M.step action s = some next →
      inv next)
    (same : ∀ s, inv s → (left s ↔ right s)) {schedule : List α} {s : σ} (valid : inv s)
    (along : M.Along guard schedule s) :
    M.Throughout left schedule s ↔ M.Throughout right schedule s := by
  induction schedule generalizing s with
  | nil => exact same s valid
  | cons action schedule ih =>
    simp only [Throughout, same s valid]
    refine and_congr_right fun here => forall_congr' fun next => forall_congr' fun taken => ?_
    exact ih (preserved s action next valid here along.1 taken) (along.2 next taken)

theorem Reaches.invariant {guard : σ → α → Prop} {inv : σ → Prop} (start : inv M.initial)
    (preserved : ∀ s action next, inv s → guard s action → M.step action s = some next → inv next)
    {s : σ} (reached : M.Reaches guard s) : inv s := by
  obtain ⟨schedule, along, ran⟩ := reached
  exact execute_invariant preserved start along ran

end Machine
end Lib
