import Kafkrs.Lib.Bytes

/-! CRC-32C, bit by bit: reflected polynomial, inverted start and result. -/
namespace Lib

def crc32cBits : Nat → UInt32 → UInt32
  | 0, crc => crc
  | n + 1, crc =>
    crc32cBits n (if crc &&& 1 = 1 then (crc >>> 1) ^^^ 0x82F63B78 else crc >>> 1)

def crc32c (bytes : Bytes) : UInt32 :=
  bytes.foldl (fun crc byte => crc32cBits 8 (crc ^^^ byte.toUInt32)) 0xFFFFFFFF ^^^ 0xFFFFFFFF

/-- The standard check value, over the digits `123456789`. -/
example : crc32c [49, 50, 51, 52, 53, 54, 55, 56, 57] = 0xE3069283 := by decide +kernel

end Lib
