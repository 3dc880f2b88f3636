import Mathlib.Data.Int.Order.Basic
import Mathlib.Data.List.Basic
import Mathlib.Tactic.Common
import Mathlib.Tactic.Ring

/-! Zero-padded decimal integers, as the format `{:0width}` prints them. -/
namespace Lib

def zeroPadded (width : Nat) (x : Int) : List Char :=
  if x < 0 then '-' :: (Nat.toDigits 10 x.natAbs).leftpad (width - 1) '0'
  else (Nat.toDigits 10 x.natAbs).leftpad width '0'

theorem ofDigitChars_leftpad (width n : Nat) :
    Nat.ofDigitChars 10 ((Nat.toDigits 10 n).leftpad width '0') 0 = n := by
  rw [List.leftpad, Nat.ofDigitChars_append, Nat.ofDigitChars_replicate_zero, Nat.mul_zero]
  exact Nat.ofDigitChars_ten_toDigits

theorem leftpad_digits_inj {width m n : Nat}
    (same : (Nat.toDigits 10 m).leftpad width '0' = (Nat.toDigits 10 n).leftpad width '0') :
    m = n := by
  have value := congrArg (fun digits => Nat.ofDigitChars 10 digits 0) same
  simpa only [ofDigitChars_leftpad] using value

theorem not_mem_toDigits {c : Char} (other : c.isDigit = false) (n : Nat) :
    c ∉ Nat.toDigits 10 n := by
  intro member
  have digit := Nat.isDigit_of_mem_toDigits (by omega) (by omega) member
  rw [other] at digit
  cases digit

theorem not_mem_leftpad {c : Char} (other : c.isDigit = false) (width n : Nat) :
    c ∉ (Nat.toDigits 10 n).leftpad width '0' := by
  intro member
  rcases List.mem_append.mp member with zeros | digits
  · rw [List.eq_of_mem_replicate zeros] at other
    cases other
  · exact not_mem_toDigits other n digits

theorem not_mem_zeroPadded {c : Char} (other : c.isDigit = false) (sign : c ≠ '-') (width : Nat)
    (x : Int) : c ∉ zeroPadded width x := by
  unfold zeroPadded
  split
  · exact List.not_mem_cons_of_ne_of_not_mem sign (not_mem_leftpad other (width - 1) _)
  · exact not_mem_leftpad other width _

theorem zeroPadded_injective (width : Nat) : Function.Injective (zeroPadded width) := by
  intro x y same
  simp only [zeroPadded] at same
  by_cases negX : x < 0 <;> by_cases negY : y < 0
  all_goals simp only [negX, negY, ↓reduceIte] at same
  · have := leftpad_digits_inj (List.cons.inj same).2
    omega
  · exact absurd (same ▸ List.mem_cons_self) (not_mem_leftpad rfl width y.natAbs)
  · exact absurd (same ▸ List.mem_cons_self) (not_mem_leftpad rfl width x.natAbs)
  · have := leftpad_digits_inj same
    omega

/-- A leading digit outweighs everything after it. -/
theorem lex_lt_iff {base u v x y : Nat} (smallX : x < base) (smallY : y < base) :
    base * u + x < base * v + y ↔ u < v ∨ u = v ∧ x < y := by
  rcases Nat.lt_trichotomy u v with less | rfl | more
  · have := Nat.mul_le_mul_left base (Nat.succ_le_of_lt less)
    rw [Nat.mul_succ] at this
    exact ⟨fun _ => .inl less, fun _ => by omega⟩
  · omega
  · have := Nat.mul_le_mul_left base (Nat.succ_le_of_lt more)
    rw [Nat.mul_succ] at this
    omega

theorem ofDigitChars_cons_zero (c : Char) (cs : List Char) :
    Nat.ofDigitChars 10 (c :: cs) 0 =
      10 ^ cs.length * (c.toNat - '0'.toNat) + Nat.ofDigitChars 10 cs 0 := by
  rw [Nat.ofDigitChars_cons, Nat.ofDigitChars_eq_ofDigitChars_zero, Nat.mul_zero, Nat.zero_add]

theorem digit_bounds {c : Char} (digit : c.isDigit = true) : 48 ≤ c.toNat ∧ c.toNat ≤ 57 := by
  simp only [Char.isDigit, Bool.and_eq_true, decide_eq_true_eq, ge_iff_le, UInt32.le_iff_toNat_le]
    at digit
  exact digit

theorem ofDigitChars_lt {xs : List Char} (digits : ∀ c ∈ xs, c.isDigit = true) :
    Nat.ofDigitChars 10 xs 0 < 10 ^ xs.length := by
  induction xs with
  | nil => simp
  | cons c cs ih =>
    have rest := ih fun d member => digits d (List.mem_cons_of_mem _ member)
    have := digit_bounds (digits c List.mem_cons_self)
    have top : 10 ^ cs.length * (c.toNat - 48) ≤ 10 ^ cs.length * 9 :=
      Nat.mul_le_mul_left _ (by omega)
    rw [ofDigitChars_cons_zero, List.length_cons, Nat.pow_succ]
    simp only [Char.reduceToNat]
    omega

/-- Digit strings of one length are ordered as their numbers, with the same text behind them. -/
theorem digits_lt_iff {xs ys : List Char} (digitsX : ∀ c ∈ xs, c.isDigit = true)
    (digitsY : ∀ c ∈ ys, c.isDigit = true) (length : xs.length = ys.length) (tail : List Char) :
    xs ++ tail < ys ++ tail ↔ Nat.ofDigitChars 10 xs 0 < Nat.ofDigitChars 10 ys 0 := by
  induction xs generalizing ys with
  | nil =>
    obtain rfl := List.length_eq_zero_iff.mp length.symm
    exact iff_of_false (List.lt_irrefl _) (Nat.lt_irrefl _)
  | cons c cs ih =>
    obtain ⟨d, ds, rfl⟩ := List.exists_cons_of_length_eq_add_one length.symm
    rw [List.length_cons, List.length_cons, Nat.add_right_cancel_iff] at length
    have restX : ∀ e ∈ cs, e.isDigit = true := fun e member => digitsX e (by simp [member])
    have restY : ∀ e ∈ ds, e.isDigit = true := fun e member => digitsY e (by simp [member])
    have valueX := ofDigitChars_lt restX
    have valueY := ofDigitChars_lt restY
    have boundC := digit_bounds (digitsX c List.mem_cons_self)
    have boundD := digit_bounds (digitsY d List.mem_cons_self)
    rw [length] at valueX
    rw [ofDigitChars_cons_zero, ofDigitChars_cons_zero, length, lex_lt_iff valueX valueY,
      List.cons_append, List.cons_append, List.cons_lt_cons_iff, ih restX restY length]
    have less : c < d ↔ c.toNat - '0'.toNat < d.toNat - '0'.toNat := by
      rw [Char.lt_def, UInt32.lt_iff_toNat_lt]
      simp only [Char.reduceToNat]
      change c.toNat < d.toNat ↔ _
      omega
    have same : c = d ↔ c.toNat - '0'.toNat = d.toNat - '0'.toNat := by
      rw [← Char.toNat_inj]
      simp only [Char.reduceToNat]
      omega
    rw [less, same]

theorem isDigit_of_mem_leftpad {width n : Nat} {c : Char}
    (member : c ∈ (Nat.toDigits 10 n).leftpad width '0') : c.isDigit = true := by
  by_contra other
  exact not_mem_leftpad (by simpa using other) width n member

theorem length_leftpad_digits {width n : Nat} (positive : 0 < width) (fits : n < 10 ^ width) :
    ((Nat.toDigits 10 n).leftpad width '0').length = width := by
  have := (Nat.length_toDigits_le_iff (by omega) positive).mpr fits
  simp [this]

/-- Padded to a width that they fit, natural numbers sort as text in their own order. -/
theorem zeroPadded_lt_iff {width : Nat} {x y : Int} (positive : 0 < width) (lowX : 0 ≤ x)
    (lowY : 0 ≤ y) (fitsX : x.natAbs < 10 ^ width) (fitsY : y.natAbs < 10 ^ width)
    (tail : List Char) : zeroPadded width x ++ tail < zeroPadded width y ++ tail ↔ x < y := by
  rw [zeroPadded, zeroPadded, if_neg (by omega), if_neg (by omega), digits_lt_iff
    (fun _ => isDigit_of_mem_leftpad) (fun _ => isDigit_of_mem_leftpad)
    (by rw [length_leftpad_digits positive fitsX, length_leftpad_digits positive fitsY]),
    ofDigitChars_leftpad, ofDigitChars_leftpad]
  omega

end Lib
