import Kafkrs.Lib.Framing
import Kafkrs.Record

/-! The framed WAL record: a length prefix, the fixed header, key, value and a checksum
trailer. The checksum is an arbitrary function of the body throughout. -/
namespace Kafkrs.Wal

open Lib

/-- Fixed fields after the length prefix: offset, timestamp, schema id, key and value lengths. -/
def headerAfterLen : Nat := 8 + 8 + 4 + 2 + 4

inductive WalDecodeError where
  | incomplete
  | crcMismatch
  | malformed
  deriving DecidableEq, Repr

/-- `&xs[low..high]`. -/
def slice (xs : Bytes) (low high : Nat) : Bytes := (xs.drop low).take (high - low)

/-- Everything the checksum covers. The width casts of the source are the explicit moduli. -/
def body (r : Record) : Bytes :=
  toLeBytes 8 (BitVec.ofInt 64 r.offset).toNat ++
  toLeBytes 8 r.timestampNs.toBitVec.toNat ++
  toLeBytes 4 r.schemaId.toNat ++
  toLeBytes 2 (r.key.length % 2 ^ 16) ++
  toLeBytes 4 (r.value.length % 2 ^ 32) ++
  r.key ++ r.value

section Codec

variable (crc32c : Bytes → UInt32)

def encodeRecord (r : Record) : Bytes :=
  let bodyLen := headerAfterLen + r.key.length + r.value.length
  toLeBytes 4 (bodyLen % 2 ^ 32) ++ body r ++ toLeBytes 4 (crc32c (body r)).toNat

def decodeRecord (buf : Bytes) : Except WalDecodeError (Record × Nat) :=
  if buf.length < 4 then .error .incomplete
  else
    let bodyLen := fromLeBytes (slice buf 0 4)
    let total := 4 + bodyLen + 4
    if buf.length < total then .error .incomplete
    else if bodyLen < headerAfterLen then .error .malformed
    else
      let body := slice buf 4 (4 + bodyLen)
      let crcStored := fromLeBytes (slice buf (4 + bodyLen) total)
      if (crc32c body).toNat ≠ crcStored then .error .crcMismatch
      else
        let keyLen := fromLeBytes (slice body 20 22)
        let valueLen := fromLeBytes (slice body 22 26)
        if headerAfterLen + keyLen + valueLen ≠ bodyLen then .error .malformed
        else
          .ok ({ offset := (BitVec.ofNat 64 (fromLeBytes (slice body 0 8))).toInt
                 timestampNs := Int64.ofBitVec (BitVec.ofNat 64 (fromLeBytes (slice body 8 16)))
                 schemaId := UInt32.ofNat (fromLeBytes (slice body 16 20))
                 key := slice body 26 (26 + keyLen)
                 value := slice body (26 + keyLen) (26 + keyLen + valueLen) }, total)

/-- `scan_wal`: the records up to the first frame that does not decode, and the number of
leading bytes they occupy. -/
def scanWal (buf : Bytes) : List Record × Nat :=
  Lib.scan (fun rest => (decodeRecord crc32c rest).toOption) buf

def encodeAll (records : List Record) : Bytes := records.flatMap (encodeRecord crc32c)

end Codec

/-- Records the frame represents without loss: the offset is an `i64`, the key length a
`u16`, and the body length a `u32`. -/
structure Fits (r : Record) : Prop where
  offset : -2 ^ 63 ≤ r.offset ∧ r.offset < 2 ^ 63
  key : r.key.length < 2 ^ 16
  body : headerAfterLen + r.key.length + r.value.length < 2 ^ 32

theorem slice_length {xs : Bytes} {low high : Nat} (bound : high ≤ xs.length) :
    (slice xs low high).length = high - low := by
  simp only [slice, List.length_take, List.length_drop]
  omega

theorem slice_middle (front middle back : Bytes) {low high : Nat} (before : front.length = low)
    (extent : low + middle.length = high) : slice (front ++ (middle ++ back)) low high = middle := by
  subst before
  have width : high - front.length = middle.length := by omega
  rw [slice, List.drop_left, width, List.take_left]

theorem slice_append {xs : Bytes} {low middle high : Nat} (first : low ≤ middle)
    (second : middle ≤ high) : slice xs low middle ++ slice xs middle high = slice xs low high := by
  have split : high - low = (middle - low) + (high - middle) := by omega
  have shift : low + (middle - low) = middle := by omega
  simp only [slice, split, List.take_add, List.drop_drop, shift]

theorem slice_zero (xs : Bytes) (high : Nat) : slice xs 0 high = xs.take high := by
  simp [slice]

theorem body_length (r : Record) :
    (body r).length = headerAfterLen + r.key.length + r.value.length := by
  simp only [body, List.length_append, toLeBytes_length, headerAfterLen]

/-- The seven fields of a body, each at the position the decoder slices. -/
theorem body_slices (r : Record) :
    slice (body r) 0 8 = toLeBytes 8 (BitVec.ofInt 64 r.offset).toNat ∧
    slice (body r) 8 16 = toLeBytes 8 r.timestampNs.toBitVec.toNat ∧
    slice (body r) 16 20 = toLeBytes 4 r.schemaId.toNat ∧
    slice (body r) 20 22 = toLeBytes 2 (r.key.length % 2 ^ 16) ∧
    slice (body r) 22 26 = toLeBytes 4 (r.value.length % 2 ^ 32) ∧
    slice (body r) 26 (26 + r.key.length) = r.key ∧
    slice (body r) (26 + r.key.length) (26 + r.key.length + r.value.length) = r.value := by
  refine ⟨?_, ?_, ?_, ?_, ?_, ?_, ?_⟩
  case refine_7 =>
    have layout := slice_middle
      (toLeBytes 8 (BitVec.ofInt 64 r.offset).toNat ++ toLeBytes 8 r.timestampNs.toBitVec.toNat ++
        toLeBytes 4 r.schemaId.toNat ++ toLeBytes 2 (r.key.length % 2 ^ 16) ++
        toLeBytes 4 (r.value.length % 2 ^ 32) ++ r.key) r.value []
      (show _ = 26 + r.key.length by simp only [List.length_append, toLeBytes_length]) rfl
    rwa [List.append_nil] at layout
  all_goals simp [slice, body, List.drop_append, List.drop_of_length_le]

theorem offset_roundtrip {offset : Int} (low : -2 ^ 63 ≤ offset) (high : offset < 2 ^ 63) :
    (BitVec.ofNat 64 (fromLeBytes (toLeBytes 8 (BitVec.ofInt 64 offset).toNat))).toInt = offset := by
  rw [fromLeBytes_toLeBytes (by have := (BitVec.ofInt 64 offset).isLt; omega),
    BitVec.ofNat_toNat, BitVec.setWidth_eq, BitVec.toInt_ofInt]
  exact Int.bmod_eq_of_le (by omega) (by omega)

theorem timestamp_roundtrip (timestamp : Int64) :
    Int64.ofBitVec (BitVec.ofNat 64 (fromLeBytes (toLeBytes 8 timestamp.toBitVec.toNat))) =
      timestamp := by
  rw [fromLeBytes_toLeBytes (by have := timestamp.toBitVec.isLt; omega),
    BitVec.ofNat_toNat, BitVec.setWidth_eq, Int64.ofBitVec_toBitVec]

theorem schema_roundtrip (schemaId : UInt32) :
    UInt32.ofNat (fromLeBytes (toLeBytes 4 schemaId.toNat)) = schemaId := by
  rw [fromLeBytes_toLeBytes (by have := schemaId.toNat_lt; omega), UInt32.ofNat_toNat]

section Codec

variable {crc32c : Bytes → UInt32}

theorem encodeRecord_length (crc32c : Bytes → UInt32) (r : Record) :
    (encodeRecord crc32c r).length = 4 + (headerAfterLen + r.key.length + r.value.length) + 4 := by
  simp only [encodeRecord, List.length_append, toLeBytes_length, body_length]

/-- The frame of a record that fits, with the bytes after it, as the decoder slices it. -/
theorem frame_slices (crc32c : Bytes → UInt32) {r : Record} {bodyLen : Nat} (short : bodyLen < 2 ^ 32)
    (width : headerAfterLen + r.key.length + r.value.length = bodyLen) (rest : Bytes) :
    slice (encodeRecord crc32c r ++ rest) 0 4 = toLeBytes 4 bodyLen ∧
    slice (encodeRecord crc32c r ++ rest) 4 (4 + bodyLen) = body r ∧
    slice (encodeRecord crc32c r ++ rest) (4 + bodyLen) (4 + bodyLen + 4) =
      toLeBytes 4 (crc32c (body r)).toNat := by
  have bodyLength := body_length r
  have layout : encodeRecord crc32c r ++ rest = toLeBytes 4 bodyLen ++
      (body r ++ (toLeBytes 4 (crc32c (body r)).toNat ++ rest)) := by
    simp only [encodeRecord, width, Nat.mod_eq_of_lt short, List.append_assoc]
  rw [layout]
  refine ⟨slice_middle [] (toLeBytes 4 bodyLen) _ rfl (by simp),
    slice_middle (toLeBytes 4 bodyLen) (body r) _ (by simp) (by omega), ?_⟩
  rw [← List.append_assoc (toLeBytes 4 bodyLen)]
  refine slice_middle _ (toLeBytes 4 (crc32c (body r)).toNat) _ ?_ (by simp)
  rw [List.length_append, toLeBytes_length, bodyLength, width]

/-- Decoding reads back a record that fits, whatever bytes follow its frame. -/
theorem decode_encode {r : Record} (fits : Fits r) (rest : Bytes) :
    decodeRecord crc32c (encodeRecord crc32c r ++ rest) =
      .ok (r, (encodeRecord crc32c r).length) := by
  obtain ⟨⟨offsetLow, offsetHigh⟩, keyShort, bodyShort⟩ := fits
  have length := encodeRecord_length crc32c r
  generalize width : headerAfterLen + r.key.length + r.value.length = bodyLen at *
  obtain ⟨lengthSlice, bodySlice, crcSlice⟩ := frame_slices crc32c bodyShort width rest
  obtain ⟨offset, timestamp, schema, keyLenSlice, valueLenSlice, key, value⟩ := body_slices r
  have valueShort : r.value.length < 2 ^ 32 := by omega
  have declared : fromLeBytes (toLeBytes 4 bodyLen) = bodyLen :=
    fromLeBytes_toLeBytes (by omega)
  have checksum : fromLeBytes (toLeBytes 4 (crc32c (body r)).toNat) = (crc32c (body r)).toNat :=
    fromLeBytes_toLeBytes (by have := (crc32c (body r)).toNat_lt; omega)
  have keyLen : fromLeBytes (toLeBytes 2 (r.key.length % 2 ^ 16)) = r.key.length := by
    rw [Nat.mod_eq_of_lt keyShort, fromLeBytes_toLeBytes (by omega)]
  have valueLen : fromLeBytes (toLeBytes 4 (r.value.length % 2 ^ 32)) = r.value.length := by
    rw [Nat.mod_eq_of_lt valueShort, fromLeBytes_toLeBytes (by omega)]
  have header : ¬ bodyLen < headerAfterLen := by omega
  have enough : ¬ (encodeRecord crc32c r ++ rest).length < 4 + bodyLen + 4 := by
    rw [List.length_append]; omega
  have enoughPrefix : ¬ (encodeRecord crc32c r ++ rest).length < 4 := by
    rw [List.length_append]; omega
  simp only [decodeRecord, lengthSlice, declared, bodySlice, crcSlice, checksum, header, enough,
    enoughPrefix, keyLenSlice, valueLenSlice, keyLen, valueLen, offset, timestamp, schema, key,
    value, offset_roundtrip offsetLow offsetHigh, timestamp_roundtrip, schema_roundtrip, width,
    length, ne_eq, not_true_eq_false, ↓reduceIte]

/-- A key length that wraps in its two bytes leaves a frame whose lengths do not add up. -/
theorem decode_long_key {r : Record} (long : 2 ^ 16 ≤ r.key.length)
    (short : headerAfterLen + r.key.length + r.value.length < 2 ^ 32) (rest : Bytes) :
    decodeRecord crc32c (encodeRecord crc32c r ++ rest) = .error .malformed := by
  have length := encodeRecord_length crc32c r
  obtain ⟨lengthSlice, bodySlice, crcSlice⟩ := frame_slices crc32c short rfl rest
  obtain ⟨_, _, _, keyLenSlice, valueLenSlice, _, _⟩ := body_slices r
  have declared : fromLeBytes (toLeBytes 4 (headerAfterLen + r.key.length + r.value.length)) =
      headerAfterLen + r.key.length + r.value.length := fromLeBytes_toLeBytes (by omega)
  have checksum : fromLeBytes (toLeBytes 4 (crc32c (body r)).toNat) = (crc32c (body r)).toNat :=
    fromLeBytes_toLeBytes (by have := (crc32c (body r)).toNat_lt; omega)
  have keyLen : fromLeBytes (toLeBytes 2 (r.key.length % 2 ^ 16)) = r.key.length % 2 ^ 16 :=
    fromLeBytes_toLeBytes (by omega)
  have valueLen : fromLeBytes (toLeBytes 4 (r.value.length % 2 ^ 32)) = r.value.length := by
    rw [Nat.mod_eq_of_lt (by omega), fromLeBytes_toLeBytes (by omega)]
  have wrapped : headerAfterLen + r.key.length % 2 ^ 16 + r.value.length ≠
      headerAfterLen + r.key.length + r.value.length := by omega
  have enough : ¬ (encodeRecord crc32c r ++ rest).length <
      4 + (headerAfterLen + r.key.length + r.value.length) + 4 := by
    rw [List.length_append]; omega
  have enoughPrefix : ¬ (encodeRecord crc32c r ++ rest).length < 4 := by
    rw [List.length_append]; omega
  have header : ¬ headerAfterLen + r.key.length + r.value.length < headerAfterLen := by omega
  simp only [decodeRecord, lengthSlice, declared, bodySlice, crcSlice, checksum, header, enough,
    enoughPrefix, keyLenSlice, valueLenSlice, keyLen, valueLen, if_pos wrapped, ne_eq,
    not_true_eq_false, ↓reduceIte]

/-- The conditions under which a buffer decodes, and the record it decodes to. -/
theorem decode_ok {buf : Bytes} {r : Record} {n : Nat}
    (decoded : decodeRecord crc32c buf = .ok (r, n)) :
    ∃ bodyLen keyLen valueLen, bodyLen = fromLeBytes (slice buf 0 4) ∧ n = 4 + bodyLen + 4 ∧
      n ≤ buf.length ∧ headerAfterLen + keyLen + valueLen = bodyLen ∧
      keyLen = fromLeBytes (slice (slice buf 4 (4 + bodyLen)) 20 22) ∧
      valueLen = fromLeBytes (slice (slice buf 4 (4 + bodyLen)) 22 26) ∧
      (crc32c (slice buf 4 (4 + bodyLen))).toNat = fromLeBytes (slice buf (4 + bodyLen) n) ∧
      r = ⟨(BitVec.ofNat 64 (fromLeBytes (slice (slice buf 4 (4 + bodyLen)) 0 8))).toInt,
        Int64.ofBitVec (BitVec.ofNat 64 (fromLeBytes (slice (slice buf 4 (4 + bodyLen)) 8 16))),
        UInt32.ofNat (fromLeBytes (slice (slice buf 4 (4 + bodyLen)) 16 20)),
        slice (slice buf 4 (4 + bodyLen)) 26 (26 + keyLen),
        slice (slice buf 4 (4 + bodyLen)) (26 + keyLen) (26 + keyLen + valueLen)⟩ := by
  unfold decodeRecord at decoded
  split at decoded
  · cases decoded
  dsimp only at decoded
  split at decoded
  · cases decoded
  rename_i enough
  split at decoded
  · cases decoded
  split at decoded
  · cases decoded
  rename_i checksum
  split at decoded
  · cases decoded
  rename_i lengths
  simp only [Except.ok.injEq, Prod.mk.injEq] at decoded
  obtain ⟨rfl, rfl⟩ := decoded
  exact ⟨_, _, _, rfl, rfl, by omega, not_not.mp lengths, rfl, rfl, not_not.mp checksum, rfl⟩

/-- Only encodings decode, and what they decode to fits. -/
theorem decode_sound {buf : Bytes} {r : Record} {n : Nat}
    (decoded : decodeRecord crc32c buf = .ok (r, n)) :
    0 < n ∧ n ≤ buf.length ∧ buf.take n = encodeRecord crc32c r ∧ Fits r := by
  obtain ⟨bodyLen, keyLen, valueLen, declared, total, enough, lengths, keyDeclared,
    valueDeclared, checksum, shape⟩ := decode_ok decoded
  have bodyWidth : (slice buf 4 (4 + bodyLen)).length = bodyLen := by
    rw [slice_length (by omega)]; omega
  generalize whole : slice buf 4 (4 + bodyLen) = frame at *
  have width (low high : Nat) (bound : high ≤ bodyLen) :
      (slice frame low high).length = high - low := slice_length (by omega)
  have reread (low high count : Nat) (bound : high ≤ bodyLen) (extent : high - low = count) :
      toLeBytes count (fromLeBytes (slice frame low high)) = slice frame low high :=
    toLeBytes_of_length (by rw [width low high bound, extent])
  have bounded (low high count : Nat) (bound : high ≤ bodyLen) (extent : high - low = count) :
      fromLeBytes (slice frame low high) < 256 ^ count := by
    rw [← extent, ← width low high bound]; exact fromLeBytes_lt _
  have header : 26 + keyLen + valueLen = bodyLen := by simpa [headerAfterLen] using lengths
  have offsetBound := bounded 0 8 8 (by omega) rfl
  have timestampBound := bounded 8 16 8 (by omega) rfl
  have schemaBound := bounded 16 20 4 (by omega) rfl
  have keyBound : keyLen < 2 ^ 16 := keyDeclared ▸ bounded 20 22 2 (by omega) rfl
  have valueBound : valueLen < 2 ^ 32 := valueDeclared ▸ bounded 22 26 4 (by omega) rfl
  have prefixWidth : (slice buf 0 4).length = 4 := slice_length (by omega)
  have bodyBound : bodyLen < 2 ^ 32 := by
    have := fromLeBytes_lt (slice buf 0 4)
    rw [prefixWidth] at this
    omega
  have keyWidth : r.key.length = keyLen := by
    rw [shape]; dsimp only; rw [width _ _ (by omega)]; omega
  have valueWidth : r.value.length = valueLen := by
    rw [shape]; dsimp only; rw [width _ _ (by omega)]; omega
  have bodyEq : body r = frame := by
    have pieces : frame = slice frame 0 8 ++ slice frame 8 16 ++ slice frame 16 20 ++
        slice frame 20 22 ++ slice frame 22 26 ++ slice frame 26 (26 + keyLen) ++
        slice frame (26 + keyLen) (26 + keyLen + valueLen) := by
      simp only [slice_append, Nat.zero_le, Nat.reduceLeDiff, Nat.le_add_right]
      rw [slice_zero, List.take_of_length_le (by omega)]
    rw [body, keyWidth, valueWidth, Nat.mod_eq_of_lt keyBound, Nat.mod_eq_of_lt valueBound,
      keyDeclared, valueDeclared, reread 20 22 2 (by omega) rfl, reread 22 26 4 (by omega) rfl]
    conv_rhs => rw [pieces]
    rw [shape]
    simp only [BitVec.ofInt_toInt, BitVec.toNat_ofNat, Int64.toBitVec_ofBitVec,
      UInt32.toNat_ofNat']
    rw [Nat.mod_eq_of_lt (by omega : _ < 2 ^ 64), Nat.mod_eq_of_lt (by omega : _ < 2 ^ 64),
      Nat.mod_eq_of_lt (by omega : _ < 2 ^ 32), reread 0 8 8 (by omega) rfl,
      reread 8 16 8 (by omega) rfl, reread 16 20 4 (by omega) rfl]
  refine ⟨by omega, enough, ?_, ⟨?_, by omega, by omega⟩⟩
  · have split : buf.take n =
        slice buf 0 4 ++ (slice buf 4 (4 + bodyLen) ++ slice buf (4 + bodyLen) n) := by
      rw [slice_append (by omega) (by omega), slice_append (by omega) (by omega), slice_zero]
    have lengthBytes : toLeBytes 4 bodyLen = slice buf 0 4 := by
      rw [declared, toLeBytes_of_length prefixWidth]
    have trailer : toLeBytes 4 (crc32c frame).toNat = slice buf (4 + bodyLen) n := by
      rw [checksum]
      exact toLeBytes_of_length (by rw [slice_length enough]; omega)
    rw [split, encodeRecord, keyWidth, valueWidth, lengths, Nat.mod_eq_of_lt bodyBound, bodyEq,
      lengthBytes, trailer, whole, List.append_assoc]
  · rw [shape]
    have low := BitVec.le_toInt (BitVec.ofNat 64 (fromLeBytes (slice frame 0 8)))
    have high := BitVec.toInt_lt (x := BitVec.ofNat 64 (fromLeBytes (slice frame 0 8)))
    exact ⟨by omega, by omega⟩

theorem framing (crc32c : Bytes → UInt32) : Framing (encodeRecord crc32c)
    (fun buf => (decodeRecord crc32c buf).toOption) Fits where
  complete r rest fits := by simp [decode_encode fits, Except.toOption]
  sound buf r n decoded := by
    cases result : decodeRecord crc32c buf with
    | error e => simp [result, Except.toOption] at decoded
    | ok pair =>
      simp only [result, Except.toOption, Option.some.injEq] at decoded
      subst decoded
      exact decode_sound result

theorem scan_encodeAll {records : List Record} (fits : ∀ r ∈ records, Fits r) :
    (scanWal crc32c (encodeAll crc32c records)).1 = records :=
  congrArg Prod.fst ((framing _).reading.scan_encoded fits)

/-- A file whose last append was cut keeps its whole records and loses the torn one. -/
theorem scan_torn {records batch : List Record} (fits : ∀ r ∈ records, Fits r)
    (fitsBatch : ∀ r ∈ batch, Fits r) (cut : Nat) :
    (scanWal crc32c (encodeAll crc32c records ++ (encodeAll crc32c batch).take cut)).1 =
      records ++ fitting (encodeRecord crc32c) cut batch := by
  have torn := congrArg Prod.fst ((framing crc32c).scan_cut fitsBatch cut)
  have whole := congrArg Prod.fst
    ((framing crc32c).reading.scan_append fits ((encodeAll crc32c batch).take cut))
  exact whole.trans (congrArg (records ++ ·) torn)

/-- Truncating to the valid length leaves exactly the encoding of the scanned records. -/
theorem scan_truncated (buf : Bytes) :
    buf.take (scanWal crc32c buf).2 = encodeAll crc32c (scanWal crc32c buf).1 :=
  ((framing _).scan_canonical buf).2.1

theorem scan_fits (buf : Bytes) : ∀ r ∈ (scanWal crc32c buf).1, Fits r :=
  ((framing _).scan_canonical buf).2.2

theorem encodeAll_append (front back : List Record) :
    encodeAll crc32c (front ++ back) = encodeAll crc32c front ++ encodeAll crc32c back :=
  List.flatMap_append

@[simp] theorem encodeAll_nil : encodeAll crc32c [] = [] := rfl

end Codec

end Kafkrs.Wal
