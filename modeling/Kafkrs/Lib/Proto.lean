import Kafkrs.Lib.Bytes
import Mathlib.Data.Nat.Log

/-! Protocol buffers, the writing half: base-128 varints and tagged fields. A scalar that holds its
default is left out, so the length of a message depends on its values. -/
namespace Lib.Proto

/-- Seven bits a byte, lowest first, for at most `fuel` bytes. -/
def varintLoop : Nat → Nat → Bytes
  | 0, _ => []
  | fuel + 1, n =>
    if n < 128 then [UInt8.ofNat n] else UInt8.ofNat (n % 128 + 128) :: varintLoop fuel (n / 128)

def varint (n : UInt64) : Bytes := varintLoop 10 n.toNat

def varintSize (n : UInt64) : Nat := Nat.log 128 n.toNat + 1

theorem varintLoop_length {fuel n : Nat} (fits : n < 128 ^ (fuel + 1)) :
    (varintLoop (fuel + 1) n).length = Nat.log 128 n + 1 := by
  induction fuel generalizing n with
  | zero =>
    have small : n < 128 := by simpa using fits
    simp [varintLoop, small, Nat.log_of_lt small]
  | succ fuel ih =>
    rw [varintLoop]
    by_cases small : n < 128
    · simp [small, Nat.log_of_lt small]
    · have quotient : n / 128 < 128 ^ (fuel + 1) := by
        rw [Nat.pow_succ] at fits
        exact Nat.div_lt_of_lt_mul (by omega)
      rw [if_neg small, List.length_cons, ih quotient,
        Nat.log_of_one_lt_of_le (by omega) (not_lt.mp small)]

@[simp] theorem varint_length (n : UInt64) : (varint n).length = varintSize n :=
  varintLoop_length (lt_trans n.toNat_lt (by decide))

def key (field wireType : Nat) : Bytes := varint (UInt64.ofNat (8 * field + wireType))

def scalarField (field : Nat) (n : UInt64) : Bytes := if n = 0 then [] else key field 0 ++ varint n

/-- A field declared `optional` is written whenever it is set. -/
def optionalField (field : Nat) : Option UInt64 → Bytes
  | none => []
  | some n => key field 0 ++ varint n

def messageField (field : Nat) (body : Bytes) : Bytes :=
  key field 2 ++ varint (UInt64.ofNat body.length) ++ body

/-- Strings and byte strings; the empty one is the default. -/
def bytesField (field : Nat) (body : Bytes) : Bytes :=
  if body = [] then [] else messageField field body

def repeatedField (field : Nat) (bodies : List Bytes) : Bytes := bodies.flatMap (messageField field)

section Sizes

variable {field : Nat} {n : UInt64}

theorem varintSize_le (n : UInt64) : varintSize n ≤ 10 := by
  have bound : n.toNat < 128 ^ 10 := lt_trans n.toNat_lt (by decide)
  exact Nat.log_lt_of_lt_pow' (by decide) bound

theorem varintSize_small {length : Nat} (small : length < 128) :
    varintSize (UInt64.ofNat length) = 1 := by
  have wide : length < 2 ^ 64 := by omega
  rw [varintSize, UInt64.toNat_ofNat', Nat.mod_eq_of_lt wide, Nat.log_of_lt small]

/-- The first fifteen fields have keys of one byte. -/
theorem key_small {wireType : Nat} (small : 8 * field + wireType < 128) :
    (key field wireType).length = 1 := by
  rw [key, varint_length, varintSize_small small]

def scalarSize (n : UInt64) : Nat := if n = 0 then 0 else 1 + varintSize n

theorem scalarField_length (small : field < 16) : (scalarField field n).length = scalarSize n := by
  by_cases zero : n = 0
  · simp [scalarField, scalarSize, zero]
  · simp [scalarField, scalarSize, zero, key_small (show 8 * field + 0 < 128 by omega)]

theorem scalarSize_le (n : UInt64) : scalarSize n ≤ 11 := by
  have := varintSize_le n
  simp only [scalarSize]
  split <;> omega

theorem messageField_length (field : Nat) (body : Bytes) : (messageField field body).length =
    (key field 2).length + varintSize (UInt64.ofNat body.length) + body.length := by
  simp [messageField, Nat.add_assoc]

end Sizes

end Lib.Proto
