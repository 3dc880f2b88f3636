import Mathlib.Data.List.Basic
import Mathlib.Tactic.Common
import Mathlib.Tactic.Ring

/-! Fixed-width little-endian integers. -/
namespace Lib

abbrev Bytes := List UInt8

/-- The low `width` bytes of `n`, least significant first. -/
def toLeBytes : Nat → Nat → Bytes
  | 0, _ => []
  | width + 1, n => UInt8.ofNat n :: toLeBytes width (n / 256)

def fromLeBytes : Bytes → Nat
  | [] => 0
  | b :: rest => b.toNat + 256 * fromLeBytes rest

@[simp] theorem toLeBytes_length (width n : Nat) : (toLeBytes width n).length = width := by
  induction width generalizing n with
  | zero => rfl
  | succ width ih => simp [toLeBytes, ih]

theorem fromLeBytes_lt (bytes : Bytes) : fromLeBytes bytes < 256 ^ bytes.length := by
  induction bytes with
  | nil => simp [fromLeBytes]
  | cons b rest ih =>
    have byte := b.toNat_lt
    simp only [fromLeBytes, List.length_cons, Nat.pow_succ]
    omega

theorem fromLeBytes_toLeBytes {width n : Nat} (fits : n < 256 ^ width) :
    fromLeBytes (toLeBytes width n) = n := by
  induction width generalizing n with
  | zero => simp only [Nat.pow_zero] at fits; simp [toLeBytes, fromLeBytes]; omega
  | succ width ih =>
    have quotient : n / 256 < 256 ^ width := by
      rw [Nat.pow_succ] at fits
      exact Nat.div_lt_of_lt_mul (by omega)
    simp only [toLeBytes, fromLeBytes, ih quotient, UInt8.toNat_ofNat']
    omega

theorem toLeBytes_fromLeBytes (bytes : Bytes) :
    toLeBytes bytes.length (fromLeBytes bytes) = bytes := by
  induction bytes with
  | nil => rfl
  | cons b rest ih =>
    have byte := b.toNat_lt
    have quotient : (b.toNat + 256 * fromLeBytes rest) / 256 = fromLeBytes rest := by omega
    have remainder : UInt8.ofNat (b.toNat + 256 * fromLeBytes rest) = b := by
      apply UInt8.toNat_inj.mp
      rw [UInt8.toNat_ofNat']
      omega
    simp only [List.length_cons, toLeBytes, fromLeBytes, quotient, remainder, ih]

/-- Reading back a slice of known length, as `try_into` on a subslice does. -/
theorem toLeBytes_of_length {bytes : Bytes} {width : Nat} (length : bytes.length = width) :
    toLeBytes width (fromLeBytes bytes) = bytes := by
  rw [← length, toLeBytes_fromLeBytes]

end Lib
