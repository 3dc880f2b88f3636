import Kafkrs.Lib.Crc32c

/-! Burst errors under CRC-32C. A shift of the register is linear in exclusive or, and a shift
whose result is small has only doubled back, so a difference confined to four adjacent bytes of a
message and its trailer cannot cancel. -/
namespace Lib

def crcShift (crc : UInt32) : UInt32 :=
  if crc &&& 1 = 1 then (crc >>> 1) ^^^ 0x82F63B78 else crc >>> 1

def crcByte (crc : UInt32) (byte : UInt8) : UInt32 := crc32cBits 8 (crc ^^^ byte.toUInt32)

theorem crc32cBits_succ (n : Nat) (crc : UInt32) :
    crc32cBits (n + 1) crc = crc32cBits n (crcShift crc) := rfl

theorem crc32c_eq (bytes : Bytes) :
    crc32c bytes = bytes.foldl crcByte 0xFFFFFFFF ^^^ 0xFFFFFFFF := rfl

section Shift

theorem and_one (crc : UInt32) : crc &&& 1 = 1 ↔ crc.toNat % 2 = 1 := by
  rw [← UInt32.toNat_inj, UInt32.toNat_and, UInt32.toNat_one, Nat.and_one_is_mod]

theorem xor_and_one (a b : UInt32) :
    (a ^^^ b) &&& 1 = 1 ↔ ¬ (a &&& 1 = 1 ↔ b &&& 1 = 1) := by
  have parity : (a.toNat ^^^ b.toNat) % 2 = 1 ↔ ¬ (a.toNat % 2 = 1 ↔ b.toNat % 2 = 1) :=
    Nat.xor_mod_two_eq_one
  rwa [and_one, and_one, and_one, UInt32.toNat_xor]

theorem xor_cancel (a b p : UInt32) : a ^^^ p ^^^ (b ^^^ p) = a ^^^ b := by
  rw [UInt32.xor_comm b p, ← UInt32.xor_assoc, UInt32.xor_assoc a p p, UInt32.xor_self,
    UInt32.xor_zero]

theorem crcShift_xor (a b : UInt32) : crcShift (a ^^^ b) = crcShift a ^^^ crcShift b := by
  have low := xor_and_one a b
  unfold crcShift
  rw [UInt32.shiftRight_xor]
  by_cases left : a &&& 1 = 1 <;> by_cases right : b &&& 1 = 1
  · rw [if_neg (by simp [low, left, right]), if_pos left, if_pos right]
    exact (xor_cancel _ _ _).symm
  · rw [if_pos (by simp [low, left, right]), if_pos left, if_neg right]
    ac_rfl
  · rw [if_pos (by simp [low, left, right]), if_neg left, if_pos right]
    ac_rfl
  · rw [if_neg (by simp [low, left, right]), if_neg left, if_neg right]

/-- A shift that leaves the top bit clear dropped a zero. -/
theorem crcShift_low {crc : UInt32} (low : (crcShift crc).toNat < 2 ^ 31) :
    crc.toNat = 2 * (crcShift crc).toNat := by
  have half : (crc >>> 1).toNat = crc.toNat / 2 := by
    rw [UInt32.toNat_shiftRight]
    rfl
  unfold crcShift at low ⊢
  split at low
  next odd =>
    -- the polynomial would have set the top bit
    rw [UInt32.toNat_xor, half] at low
    have shifted : crc.toNat / 2 < 2 ^ 31 := by have := crc.toNat_lt; omega
    have back := Nat.xor_lt_two_pow low shifted
    rw [Nat.xor_comm (crc.toNat / 2), Nat.xor_assoc, Nat.xor_self, Nat.xor_zero] at back
    exact absurd back (by decide)
  next even =>
    rw [if_neg even, half]
    have := (and_one crc).not.mp even
    omega

theorem crc32cBits_xor (n : Nat) (a b : UInt32) :
    crc32cBits n (a ^^^ b) = crc32cBits n a ^^^ crc32cBits n b := by
  induction n generalizing a b with
  | zero => rfl
  | succ n ih => simp only [crc32cBits_succ, crcShift_xor, ih]

/-- Where the result has room for `n` more bits, `n` shifts only dropped zeros. -/
theorem crc32cBits_low {n j : Nat} {crc : UInt32} (low : (crc32cBits n crc).toNat < 2 ^ j)
    (room : j + n ≤ 32) : crc.toNat = 2 ^ n * (crc32cBits n crc).toNat := by
  induction n generalizing crc with
  | zero => simp [crc32cBits]
  | succ n ih =>
    rw [crc32cBits_succ] at low ⊢
    have before := ih low (by omega)
    have bound : 2 ^ n * (crc32cBits n (crcShift crc)).toNat < 2 ^ n * 2 ^ j :=
      Nat.mul_lt_mul_of_pos_left low (Nat.two_pow_pos n)
    rw [← Nat.pow_add] at bound
    have small : (crcShift crc).toNat < 2 ^ 31 := by
      have := Nat.pow_le_pow_right (n := 2) (by omega) (show n + j ≤ 31 by omega)
      omega
    rw [crcShift_low small, before, Nat.pow_succ]
    ring

end Shift

section Register

variable {xs ys : Bytes} {s t : UInt32} {m : Nat}

theorem crcByte_xor (s t : UInt32) (x y : UInt8) :
    crcByte s x ^^^ crcByte t y = crc32cBits 8 ((s ^^^ t) ^^^ (x.toUInt32 ^^^ y.toUInt32)) := by
  rw [crcByte, crcByte, ← crc32cBits_xor]
  congr 1
  ac_rfl

theorem byte_xor_lt (x y : UInt8) : (x.toUInt32 ^^^ y.toUInt32).toNat < 2 ^ 8 := by
  rw [UInt32.toNat_xor]
  exact Nat.xor_lt_two_pow x.toNat_lt y.toNat_lt

/-- Registers that end close together after as many bytes were close together before. -/
theorem crcBytes_near (same : xs.length = ys.length) (room : m + 8 * xs.length ≤ 32)
    (near : (xs.foldl crcByte s ^^^ ys.foldl crcByte t).toNat < 2 ^ m) :
    (s ^^^ t).toNat < 2 ^ (m + 8 * xs.length) := by
  induction xs generalizing ys s t with
  | nil =>
    obtain rfl := List.eq_nil_of_length_eq_zero same.symm
    exact near
  | cons x xs ih =>
    obtain ⟨y, ys, rfl⟩ := List.exists_cons_of_length_eq_add_one same.symm
    rw [List.length_cons] at room ⊢
    have same : xs.length = ys.length := by simpa using same
    have after := ih same (by omega) near
    rw [crcByte_xor] at after
    have before := crc32cBits_low after (by omega)
    have wide : m + 8 * (xs.length + 1) = 8 + (m + 8 * xs.length) := by omega
    have first : ((s ^^^ t) ^^^ (x.toUInt32 ^^^ y.toUInt32)).toNat < 2 ^ (m + 8 * (xs.length + 1)) := by
      rw [before, wide, Nat.pow_add]
      exact Nat.mul_lt_mul_of_pos_left after (by omega)
    have byte : (x.toUInt32 ^^^ y.toUInt32).toNat < 2 ^ (m + 8 * (xs.length + 1)) :=
      (byte_xor_lt x y).trans_le (Nat.pow_le_pow_right (by omega) (by omega))
    have both := Nat.xor_lt_two_pow first byte
    rwa [← UInt32.toNat_xor, UInt32.xor_assoc (s ^^^ t), UInt32.xor_self, UInt32.xor_zero] at both

/-- From one register, only the same bytes end close together. -/
theorem crcBytes_eq (same : xs.length = ys.length) (room : m + 8 * xs.length ≤ 32)
    (near : (xs.foldl crcByte s ^^^ ys.foldl crcByte s).toNat < 2 ^ m) : xs = ys := by
  induction xs generalizing ys s with
  | nil => exact (List.eq_nil_of_length_eq_zero same.symm).symm
  | cons x xs ih =>
    obtain ⟨y, ys, rfl⟩ := List.exists_cons_of_length_eq_add_one same.symm
    rw [List.length_cons] at room
    have lengths : xs.length = ys.length := by simpa using same
    have after := crcBytes_near lengths (by omega) near
    rw [crcByte_xor, UInt32.xor_self, UInt32.zero_xor] at after
    have before := crc32cBits_low after (by omega)
    -- the difference of the first bytes is below `2 ^ 8`, and a multiple of it
    have byte := byte_xor_lt x y
    have none : (x.toUInt32 ^^^ y.toUInt32).toNat = 0 := by omega
    have equal : x.toUInt32 = y.toUInt32 := UInt32.xor_eq_zero_iff.mp (UInt32.toNat_inj.mp none)
    obtain rfl : x = y := UInt8.toUInt32_inj.mp equal
    exact congrArg (x :: ·) (ih lengths (by omega) near)

/-- The same bytes take different registers to different ones. -/
theorem crcBytes_injective (back : Bytes) (same : back.foldl crcByte s = back.foldl crcByte t) :
    s = t := by
  induction back generalizing s t with
  | nil => exact same
  | cons x back ih =>
    have next : crcByte s x = crcByte t x := ih same
    have near : (crc32cBits 8 ((s ^^^ t) ^^^ (x.toUInt32 ^^^ x.toUInt32))).toNat < 2 ^ 0 := by
      rw [← crcByte_xor, next, UInt32.xor_self]
      decide
    have nothing := crc32cBits_low near (by omega)
    have equal : s ^^^ t = 0 := by
      rw [UInt32.xor_self, UInt32.xor_zero] at nothing near
      refine UInt32.toNat_inj.mp ?_
      rw [nothing, Nat.lt_one_iff.mp near]
      rfl
    exact UInt32.xor_eq_zero_iff.mp equal

end Register

section Checksum

variable {front xs ys back : Bytes}

theorem crc32c_xor (as bs : Bytes) :
    crc32c as ^^^ crc32c bs = as.foldl crcByte 0xFFFFFFFF ^^^ bs.foldl crcByte 0xFFFFFFFF := by
  rw [crc32c_eq, crc32c_eq, xor_cancel]

/-- Messages that differ within four adjacent bytes have different checksums. -/
theorem crc32c_inside (same : xs.length = ys.length) (short : xs.length ≤ 4)
    (equal : crc32c (front ++ (xs ++ back)) = crc32c (front ++ (ys ++ back))) : xs = ys := by
  have close := crc32c_xor (front ++ (xs ++ back)) (front ++ (ys ++ back))
  rw [equal, UInt32.xor_self, eq_comm, UInt32.xor_eq_zero_iff] at close
  simp only [List.foldl_append] at close
  have registers := crcBytes_injective back close
  refine @crcBytes_eq xs ys (front.foldl crcByte 0xFFFFFFFF) 0 same (by omega) ?_
  rw [registers, UInt32.xor_self]
  decide

/-- Where messages differ in their last bytes only, so do the high bits of their checksums. -/
theorem crc32c_ending {m : Nat} (same : xs.length = ys.length) (room : m + 8 * xs.length ≤ 32)
    (near : (crc32c (front ++ xs) ^^^ crc32c (front ++ ys)).toNat < 2 ^ m) : xs = ys := by
  rw [crc32c_xor, List.foldl_append, List.foldl_append] at near
  exact crcBytes_eq same room near

theorem fromLeBytes_append (low high : Bytes) :
    fromLeBytes (low ++ high) = fromLeBytes low + 2 ^ (8 * low.length) * fromLeBytes high := by
  induction low with
  | nil => simp [fromLeBytes]
  | cons b low ih =>
    have wider : 2 ^ (8 * (b :: low).length) = 256 * 2 ^ (8 * low.length) := by
      rw [List.length_cons, Nat.mul_succ, Nat.pow_add, Nat.mul_comm]
    rw [List.cons_append, fromLeBytes, fromLeBytes, ih, wider]
    ring

/-- Little-endian numbers with the same high bytes differ in their low bytes only. -/
theorem fromLeBytes_near (same : xs.length = ys.length) (high : Bytes) :
    fromLeBytes (xs ++ high) ^^^ fromLeBytes (ys ++ high) < 2 ^ (8 * xs.length) := by
  have divided (low : Bytes) (length : low.length = xs.length) :
      fromLeBytes (low ++ high) / 2 ^ (8 * xs.length) = fromLeBytes high := by
    have bound := fromLeBytes_lt low
    rw [show (256 : Nat) = 2 ^ 8 from rfl, ← Nat.pow_mul, length] at bound
    rw [fromLeBytes_append, length, Nat.add_mul_div_left _ _ (Nat.two_pow_pos _),
      Nat.div_eq_of_lt bound, Nat.zero_add]
  have quotient : (fromLeBytes (xs ++ high) ^^^ fromLeBytes (ys ++ high)) / 2 ^ (8 * xs.length) = 0 := by
    rw [Nat.xor_div_two_pow, divided xs rfl, divided ys same.symm, Nat.xor_self]
  exact (Nat.div_eq_zero_iff_lt (Nat.two_pow_pos _)).mp quotient

/-- The same symbols but for at most `width` adjacent ones, of which some differ. -/
def Burst {α : Type} (width : Nat) (sent got : List α) : Prop :=
  ∃ front x y back, sent = front ++ (x ++ back) ∧ got = front ++ (y ++ back) ∧
    x.length = y.length ∧ x.length ≤ width ∧ x ≠ y

theorem Burst.length {α : Type} {width : Nat} {sent got : List α} (burst : Burst width sent got) :
    got.length = sent.length := by
  obtain ⟨front, x, y, back, rfl, rfl, same, _⟩ := burst
  simp [same]

/-- A message followed by its checksum: a burst of up to four bytes, wherever it falls, leaves a
checksum that does not match. -/
theorem crc32c_burst {message got message' stored : Bytes}
    (burst : Burst 4 (message ++ toLeBytes 4 (crc32c message).toNat) got)
    (split : got = message' ++ stored) (length : message'.length = message.length) :
    (crc32c message').toNat ≠ fromLeBytes stored := by
  obtain ⟨front, x, y, back, sent, received, same, short, differ⟩ := burst
  rw [split] at received
  have read : fromLeBytes (toLeBytes 4 (crc32c message).toNat) = (crc32c message).toNat :=
    fromLeBytes_toLeBytes (by have := (crc32c message).toNat_lt; omega)
  intro equal
  rcases List.append_eq_append_iff.mp sent with ⟨mid, inFront, inTrailer⟩ | ⟨mid, inMessage, rest⟩
  · -- the burst is in the trailer
    rw [inFront, List.append_assoc] at received
    obtain ⟨rfl, kept⟩ := List.append_inj received length
    have lengths : stored.length = 4 := by
      have := congrArg List.length inTrailer
      simp only [toLeBytes_length, List.length_append] at this
      rw [kept]
      simp only [List.length_append]
      omega
    have trailer := toLeBytes_of_length lengths
    rw [← equal, inTrailer, kept] at trailer
    exact differ (List.append_cancel_right (List.append_cancel_left trailer))
  · rcases List.append_eq_append_iff.mp rest with ⟨tail, inMid, later⟩ | ⟨tail, inX, trailer⟩
    · -- the burst is in the message
      rw [later, ← List.append_assoc y, ← List.append_assoc front] at received
      obtain ⟨rfl, rfl⟩ := List.append_inj received (by simp [length, inMessage, inMid, same])
      rw [read] at equal
      rw [inMessage, inMid] at equal
      exact differ (crc32c_inside same short (UInt32.toNat_inj.mp equal).symm)
    · -- the burst starts in the message and ends in the trailer
      obtain ⟨first, last, rfl, firstLength⟩ : ∃ first last, y = first ++ last ∧
          mid.length = first.length := by
        have width : mid.length ≤ y.length := by rw [← same, inX]; simp
        exact ⟨y.take mid.length, y.drop mid.length, (List.take_append_drop _ _).symm,
          by rw [List.length_take, min_eq_left width]⟩
      have lastLength : tail.length = last.length := by
        rw [inX, List.length_append, List.length_append] at same
        omega
      rw [List.append_assoc first, ← List.append_assoc front] at received
      obtain ⟨rfl, rfl⟩ := List.append_inj received (by simp [length, inMessage, firstLength])
      rw [trailer] at read
      have near := fromLeBytes_near lastLength back
      rw [read, ← equal, ← UInt32.toNat_xor, inMessage] at near
      rw [inX, List.length_append] at short
      obtain rfl := crc32c_ending firstLength (by omega) near
      have width : (tail ++ back).length = 4 := by rw [← trailer, toLeBytes_length]
      have sameTrailer : tail ++ back = last ++ back := by
        rw [← toLeBytes_of_length width,
          ← toLeBytes_of_length (show (last ++ back).length = 4 by simpa [← lastLength] using width),
          read, ← equal, inMessage]
      exact differ (by rw [inX, List.append_cancel_right sameTrailer])

end Checksum

end Lib
