import Kafkrs.Lib.Crc32c
import Kafkrs.PartitionWriter
import Kafkrs.TopicConfig
import Kafkrs.Wal

/-! The checks a Produce request passes before the writer sees it: the topic's size limits
against the declared lengths, and the cut of the payload along those lengths. Then, for every
file of admitted records, when the WAL codec can read it back. -/
namespace Kafkrs.Produce

open Lib Wal

structure InRecordMeta where
  keyLen : UInt32
  valueLen : UInt32
  schemaId : UInt32
  timestampNs : Int64
  deriving DecidableEq, Repr

inductive ErrorCode where
  | malformedFrame
  | recordTooLarge
  | keyTooLarge
  deriving DecidableEq, Repr

/-- What `produce_error` puts into the reply frame. -/
structure Error where
  code : ErrorCode
  message : String
  deriving DecidableEq, Repr

def validateRecordSizes (cfg : ResolvedTopicConfig) : List InRecordMeta → Except Error Unit
  | [] => .ok ()
  | m :: rest =>
    if cfg.maxKeySizeBytes < m.keyLen.toNat then
      .error ⟨.keyTooLarge, "key " ++ toString m.keyLen ++ " bytes exceeds topic limit " ++
        toString cfg.maxKeySizeBytes ++ " bytes"⟩
    else if cfg.maxValueSizeBytes < m.valueLen.toNat then
      .error ⟨.recordTooLarge, "value " ++ toString m.valueLen ++ " bytes exceeds topic limit " ++
        toString cfg.maxValueSizeBytes ++ " bytes"⟩
    else validateRecordSizes cfg rest

/-- The loop of `slice_payload`, from `cursor` on. -/
def sliceLoop (payload : Bytes) : Nat → List InRecordMeta → Except Error (List IncomingRecord)
  | cursor, [] =>
    if cursor ≠ payload.length then
      .error ⟨.malformedFrame, "produce payload longer than declared record sizes"⟩
    else .ok []
  | cursor, m :: rest =>
    let kl := m.keyLen.toNat
    let vl := m.valueLen.toNat
    if payload.length < cursor + kl + vl then
      .error ⟨.malformedFrame, "produce payload shorter than declared record sizes"⟩
    else do
      let records ← sliceLoop payload (cursor + (kl + vl)) rest
      return { schemaId := m.schemaId
               key := slice payload cursor (cursor + kl)
               value := slice payload (cursor + kl) (cursor + kl + vl)
               timestampNs := m.timestampNs } :: records

def slicePayload (metas : List InRecordMeta) (payload : Bytes) : Except Error (List IncomingRecord) :=
  sliceLoop payload 0 metas

/-- `produce_inner` around the handle lookup: the records that go to the writer. -/
def produceInner (cfg : ResolvedTopicConfig) (metas : List InRecordMeta) (payload : Bytes) :
    Except Error (List IncomingRecord) :=
  if metas.isEmpty then .error ⟨.malformedFrame, "produce must contain at least one record"⟩
  else do
    validateRecordSizes cfg metas
    slicePayload metas payload

theorem bind_ok {ε α β : Type} {x : Except ε α} {f : α → Except ε β} {b : β} :
    x >>= f = .ok b ↔ ∃ a, x = .ok a ∧ f a = .ok b := by
  cases x with
  | error e => simp [bind, Except.bind]
  | ok a => simp [bind, Except.bind]

/-- The limits only admit; the records are the slices. -/
theorem produceInner_sliced {cfg : ResolvedTopicConfig} {metas : List InRecordMeta} {payload : Bytes}
    {records : List IncomingRecord} (admitted : produceInner cfg metas payload = .ok records) :
    slicePayload metas payload = .ok records := by
  unfold produceInner at admitted
  split at admitted
  · cases admitted
  · obtain ⟨_, _, sliced⟩ := bind_ok.mp admitted
    exact sliced

def Sized (m : InRecordMeta) (inc : IncomingRecord) : Prop :=
  inc.key.length = m.keyLen.toNat ∧ inc.value.length = m.valueLen.toNat

theorem sliceLoop_sized {payload : Bytes} {cursor : Nat} {metas : List InRecordMeta}
    {records : List IncomingRecord} (sliced : sliceLoop payload cursor metas = .ok records) :
    List.Forall₂ Sized metas records := by
  induction metas generalizing cursor records with
  | nil =>
    simp only [sliceLoop] at sliced
    split at sliced
    · contradiction
    · cases sliced
      exact .nil
  | cons m rest ih =>
    simp only [sliceLoop] at sliced
    split at sliced
    · contradiction
    · obtain ⟨records, later, same⟩ := bind_ok.mp sliced
      cases same
      refine .cons ⟨?_, ?_⟩ (ih later)
      · rw [slice_length (by omega)]; omega
      · rw [slice_length (by omega)]; omega

/-- An admitted request and where the writer puts its records. The offsets are `i64`. -/
structure Request where
  overrides : TopicConfigOverrides
  disk : DiskType
  metas : List InRecordMeta
  payload : Bytes
  incoming : List IncomingRecord
  now : Nat → Int64
  nextOffset : Int
  accepted : overrides.validate = .ok ()
  admitted : produceInner (.resolve overrides disk) metas payload = .ok incoming
  offsets : -2 ^ 63 ≤ nextOffset ∧ nextOffset + incoming.length ≤ 2 ^ 63

namespace Request

def records (request : Request) : List Record :=
  PartitionWriter.stamp request.now request.nextOffset request.incoming

theorem sized (request : Request) : List.Forall₂ Sized request.metas request.incoming := by
  have admitted := request.admitted
  unfold produceInner at admitted
  split at admitted
  · contradiction
  · obtain ⟨_, _, sliced⟩ := bind_ok.mp admitted
    exact sliceLoop_sized sliced

end Request

/-- The declared lengths are ones the WAL frame has room for. -/
def Representable (m : InRecordMeta) : Prop :=
  m.keyLen.toNat < 2 ^ 16 ∧ headerAfterLen + m.keyLen.toNat + m.valueLen.toNat < 2 ^ 32

theorem stamp_fits_iff {metas : List InRecordMeta} {incoming : List IncomingRecord}
    (sized : List.Forall₂ Sized metas incoming) (now : Nat → Int64) {next : Int}
    (low : -2 ^ 63 ≤ next) (high : next + incoming.length ≤ 2 ^ 63) :
    (∀ r ∈ PartitionWriter.stamp now next incoming, Fits r) ↔ ∀ m ∈ metas, Representable m := by
  induction sized generalizing now next with
  | nil => simp [PartitionWriter.stamp]
  | @cons m inc metas incoming here _ ih =>
    obtain ⟨key, value⟩ := here
    rw [List.length_cons] at high
    push_cast at high
    simp only [PartitionWriter.stamp, List.forall_mem_cons]
    apply and_congr
    · constructor
      · rintro ⟨_, short, room⟩
        exact ⟨key ▸ short, by rw [← key, ← value]; exact room⟩
      · rintro ⟨short, room⟩
        refine ⟨⟨low, ?_⟩, key ▸ short, by rw [key, value]; exact room⟩
        show next < 2 ^ 63
        omega
    · exact ih _ (by omega) (by omega)

def file (requests : List Request) : List Record := requests.flatMap Request.records

theorem file_fits_iff (requests : List Request) :
    (∀ r ∈ file requests, Fits r) ↔ ∀ request ∈ requests, ∀ m ∈ request.metas, Representable m := by
  have each (request : Request) :=
    stamp_fits_iff request.sized request.now request.offsets.1 request.offsets.2
  simp only [file, List.mem_flatMap, forall_exists_index, and_imp]
  constructor
  · intro fits request member
    exact (each request).mp fun r inside => fits r request member inside
  · intro room r request member inside
    exact (each request).mpr (room request member) r inside

/-- Each record is decoded from its own frame, and recovery scans the whole file. -/
structure Lossless (crc32c : Bytes → UInt32) (records : List Record) : Prop where
  decoded : ∀ r ∈ records,
    decodeRecord crc32c (encodeRecord crc32c r) = .ok (r, (encodeRecord crc32c r).length)
  scanned : scanWal crc32c (encodeAll crc32c records) = (records, (encodeAll crc32c records).length)

theorem lossless_iff_fits {crc32c : Bytes → UInt32} {records : List Record} :
    Lossless crc32c records ↔ ∀ r ∈ records, Fits r := by
  constructor
  · intro lossless r member
    exact (decode_sound (lossless.decoded r member)).2.2.2
  · intro fits
    refine ⟨fun r member => ?_, (framing crc32c).reading.scan_encoded fits⟩
    simpa using decode_encode (fits r member) []

/-- The codec loses nothing of a file of admitted requests exactly when every declared key
length is a `u16` and every frame length a `u32`. -/
theorem codec_lossless_iff (crc32c : Bytes → UInt32) (requests : List Request) :
    Lossless crc32c (file requests) ↔
      ∀ request ∈ requests, ∀ m ∈ request.metas, Representable m :=
  lossless_iff_fits.trans (file_fits_iff requests)

/-- A request of one record whose declared lengths are right and within the limits. -/
theorem produceInner_single {cfg : ResolvedTopicConfig} {m : InRecordMeta} {key value : Bytes}
    (keyLength : key.length = m.keyLen.toNat) (valueLength : value.length = m.valueLen.toNat)
    (keyLimit : m.keyLen.toNat ≤ cfg.maxKeySizeBytes)
    (valueLimit : m.valueLen.toNat ≤ cfg.maxValueSizeBytes) :
    produceInner cfg [m] (key ++ value) = .ok [⟨m.schemaId, key, value, m.timestampNs⟩] := by
  have first : slice (key ++ value) 0 m.keyLen.toNat = key := by
    simpa using slice_middle [] key value rfl (by simpa using keyLength)
  have second : slice (key ++ value) m.keyLen.toNat (m.keyLen.toNat + m.valueLen.toNat) = value := by
    simpa using slice_middle key value [] keyLength (by simpa using valueLength)
  simp [produceInner, validateRecordSizes, slicePayload, sliceLoop, not_lt.mpr keyLimit,
    not_lt.mpr valueLimit, keyLength, valueLength, first, second, bind, Except.bind, pure,
    Except.pure]

def zeros (n : Nat) : Bytes := List.replicate n 0

@[simp] theorem zeros_length (n : Nat) : (zeros n).length = n := List.length_replicate

/-- A key of 65536 bytes on a topic whose override allows it, well inside one wire frame. -/
def longKey : Request where
  overrides := { maxKeySizeBytes := some 65536 }
  disk := .nvme
  metas := [⟨65536, 1, 7, 1000⟩]
  payload := zeros 65536 ++ [0]
  incoming := [⟨7, zeros 65536, [0], 1000⟩]
  now := fun _ => 0
  nextOffset := 0
  accepted := rfl
  admitted := produceInner_single (zeros_length 65536) rfl (by decide) (by decide)
  offsets := by simp

/-- The record of that request does not decode, and hides every record after it. -/
theorem codec_loses_longKey : longKey.payload.length ≤ maxFrameSize ∧
    ¬ Lossless crc32c (file [longKey]) ∧
    ∀ r ∈ file [longKey],
      decodeRecord crc32c (encodeRecord crc32c r) = .error .malformed ∧
      ∀ later, scanWal crc32c (encodeAll crc32c (r :: later)) = ([], 0) := by
  have only : file [longKey] = [⟨0, 1000, 7, zeros 65536, [0]⟩] := rfl
  refine ⟨by simp [longKey, maxFrameSize], ?_, ?_⟩
  · intro lossless
    have fits := lossless_iff_fits.mp lossless
    rw [only] at fits
    have short := (fits _ (List.mem_singleton_self _)).key
    simp at short
  · intro r member
    rw [only, List.mem_singleton] at member
    have long : 2 ^ 16 ≤ r.key.length := by simp [member]
    have room : headerAfterLen + r.key.length + r.value.length < 2 ^ 32 := by
      simp [member, headerAfterLen]
    constructor
    · have stuck : decodeRecord crc32c (encodeRecord crc32c r ++ []) = .error .malformed :=
        decode_long_key long room []
      rwa [List.append_nil] at stuck
    · intro later
      apply scan_stop
      rw [encodeAll, List.flatMap_cons, decode_long_key long room]
      rfl

end Kafkrs.Produce
