import Kafkrs.Lib.Machine

/-! Machines that run down: where every admitted step lowers a rank, a schedule is no longer
than the rank it starts from. -/
namespace Lib.Machine

variable {σ α : Type} {M : Machine σ α} {guard : σ → α → Prop} {inv : σ → Prop} {rank : σ → Nat}

/-- Every admitted step from a state of the invariant lowers the rank. -/
def Falls (M : Machine σ α) (guard : σ → α → Prop) (inv : σ → Prop) (rank : σ → Nat) : Prop :=
  ∀ s action next, inv s → guard s action → M.step action s = some next →
    inv next ∧ rank next < rank s

theorem Falls.length_le (falls : Falls M guard inv rank) {schedule : List α} {s final : σ}
    (valid : inv s) (along : M.Along guard schedule s) (ran : M.execute schedule s = some final) :
    inv final ∧ schedule.length + rank final ≤ rank s := by
  induction schedule generalizing s with
  | nil =>
    cases ran
    exact ⟨valid, by simp⟩
  | cons action schedule ih =>
    obtain ⟨next, taken, rest⟩ := execute_cons ran
    obtain ⟨valid', lower⟩ := falls s action next valid along.1 taken
    obtain ⟨kept, short⟩ := ih valid' (along.2 next taken) rest
    refine ⟨kept, ?_⟩
    rw [List.length_cons]
    omega

end Lib.Machine
