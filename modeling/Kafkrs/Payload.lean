import Kafkrs.Client

/-! Record boundaries in a payload. They exist only as running sums of lengths declared in the
metas; the broker and the Python client each cut along them what the other laid end to end. -/
namespace Kafkrs.Payload

open Lib Wal Wire Client
open Kafkrs.Produce (InRecordMeta Sized sliceLoop slicePayload bind_ok)

def declared (m : InRecordMeta) : Nat := m.keyLen.toNat + m.valueLen.toNat

structure Declared (m : InRecordMeta) (inc : IncomingRecord) : Prop where
  sized : Sized m inc
  schemaId : inc.schemaId = m.schemaId
  timestampNs : inc.timestampNs = m.timestampNs

def contents (records : List IncomingRecord) : Bytes := records.flatMap fun r => r.key ++ r.value

/-- The slices at a cursor, by what lies behind it. -/
theorem slices_behind {payload key value rest : Bytes} {cursor kl vl : Nat} (keyLen : key.length = kl)
    (valueLen : value.length = vl) (behind : payload.drop cursor = key ++ (value ++ rest)) :
    slice payload cursor (cursor + kl) = key ∧
      slice payload (cursor + kl) (cursor + kl + vl) = value ∧
      payload.drop (cursor + (kl + vl)) = rest := by
  subst keyLen valueLen
  have afterKey : payload.drop (cursor + key.length) = value ++ rest := by
    rw [← List.drop_drop, behind, List.drop_left]
  refine ⟨?_, ?_, ?_⟩
  · rw [slice, behind, Nat.add_sub_cancel_left, List.take_left]
  · rw [slice, afterKey, Nat.add_sub_cancel_left, List.take_left]
  · rw [← Nat.add_assoc, ← List.drop_drop, afterKey, List.drop_left]

/-- What lies behind a cursor, by the slices at it. -/
theorem behind_slices (payload : Bytes) (cursor kl vl : Nat) :
    payload.drop cursor = slice payload cursor (cursor + kl) ++
      (slice payload (cursor + kl) (cursor + kl + vl) ++ payload.drop (cursor + (kl + vl))) := by
  have key := List.take_append_drop kl (payload.drop cursor)
  have value := List.take_append_drop vl (payload.drop (cursor + kl))
  rw [List.drop_drop] at key value
  rw [slice, slice, Nat.add_sub_cancel_left, Nat.add_sub_cancel_left, ← Nat.add_assoc, value, key]

/-- From a cursor inside the payload the loop succeeds with exactly the records that are as
declared and make up the rest of the payload. -/
theorem sliceLoop_iff {payload : Bytes} {cursor : Nat} {metas : List InRecordMeta}
    {records : List IncomingRecord} (inside : cursor ≤ payload.length) :
    sliceLoop payload cursor metas = .ok records ↔
      List.Forall₂ Declared metas records ∧ contents records = payload.drop cursor := by
  induction metas generalizing cursor records with
  | nil =>
    simp only [sliceLoop, List.forall₂_nil_left_iff]
    split
    next short =>
      simp only [reduceCtorEq, false_iff, not_and]
      rintro rfl empty
      have left := congrArg List.length empty
      simp [contents] at left
      omega
    next whole =>
      have empty : payload.drop cursor = [] := List.drop_eq_nil_of_le (by omega)
      rw [empty]
      constructor
      · intro same
        cases same
        exact ⟨rfl, rfl⟩
      · rintro ⟨rfl, _⟩
        rfl
  | cons m rest ih =>
    simp only [sliceLoop]
    split
    next short =>
      simp only [reduceCtorEq, false_iff, not_and]
      intro cut whole
      obtain ⟨r, records, described, _, rfl⟩ := List.forall₂_cons_left_iff.mp cut
      obtain ⟨keyLen, valueLen⟩ := described.sized
      have left := congrArg List.length whole
      simp [contents] at left
      omega
    next room =>
      have behind := behind_slices payload cursor m.keyLen.toNat m.valueLen.toNat
      have within : cursor + (m.keyLen.toNat + m.valueLen.toNat) ≤ payload.length := by omega
      constructor
      · intro sliced
        obtain ⟨later, ran, same⟩ := bind_ok.mp sliced
        cases same
        obtain ⟨cut, whole⟩ := (ih within).mp ran
        refine ⟨.cons ⟨⟨?_, ?_⟩, rfl, rfl⟩ cut, ?_⟩
        · rw [slice_length (by omega)]; omega
        · rw [slice_length (by omega)]; omega
        · rw [contents, List.flatMap_cons]
          rw [contents] at whole
          rw [whole, List.append_assoc]
          exact behind.symm
      · rintro ⟨cut, whole⟩
        obtain ⟨r, records, described, later, rfl⟩ := List.forall₂_cons_left_iff.mp cut
        obtain ⟨⟨keyLen, valueLen⟩, schema, timestamp⟩ := described
        rw [contents, List.flatMap_cons, List.append_assoc] at whole
        obtain ⟨key, value, rest⟩ := slices_behind keyLen valueLen whole.symm
        refine bind_ok.mpr ⟨records, (ih within).mpr ⟨later, rest.symm⟩, ?_⟩
        rw [key, value, ← schema, ← timestamp]
        rfl

theorem contents_length {metas : List InRecordMeta} {records : List IncomingRecord}
    (cut : List.Forall₂ Declared metas records) :
    (contents records).length = (metas.map declared).sum := by
  induction cut with
  | nil => rfl
  | cons described _ ih =>
    obtain ⟨keyLen, valueLen⟩ := described.sized
    rw [contents] at *
    simp only [List.flatMap_cons, List.length_append, ih, keyLen, valueLen, List.map_cons,
      List.sum_cons, declared]

/-- Slicing succeeds exactly when the declared lengths add up to the payload. -/
theorem sliceLoop_succeeds {payload : Bytes} {cursor : Nat} {metas : List InRecordMeta}
    (inside : cursor ≤ payload.length) :
    (∃ records, sliceLoop payload cursor metas = .ok records) ↔
      cursor + (metas.map declared).sum = payload.length := by
  constructor
  · rintro ⟨records, sliced⟩
    obtain ⟨cut, whole⟩ := (sliceLoop_iff inside).mp sliced
    have length := congrArg List.length whole
    rw [contents_length cut, List.length_drop] at length
    omega
  · induction metas generalizing cursor with
    | nil =>
      intro total
      refine ⟨[], (sliceLoop_iff inside).mpr ⟨.nil, ?_⟩⟩
      rw [List.drop_eq_nil_of_le (by simp at total; omega)]
      rfl
    | cons m rest ih =>
      intro total
      rw [List.map_cons, List.sum_cons] at total
      obtain ⟨records, sliced⟩ := @ih (cursor + declared m) (by omega) (by omega)
      have room : ¬ payload.length < cursor + m.keyLen.toNat + m.valueLen.toNat := by
        rw [declared] at total
        omega
      rw [declared] at sliced
      simp only [sliceLoop, room, ↓reduceIte, sliced]
      exact ⟨_, rfl⟩

section Python

theorem uint32Field_some {x : Int} {field : UInt32} (set : uint32Field x = some field) :
    field = UInt32.ofNat x.toNat ∧ (field.toNat : Int) = x := by
  unfold uint32Field at set
  split at set
  next range =>
    cases set
    refine ⟨rfl, ?_⟩
    rw [UInt32.toNat_ofNat', Nat.mod_eq_of_lt (by omega)]
    omega
  next => cases set

theorem int64Field_some {x : Int} {field : Int64} (set : int64Field x = some field) :
    field = Int64.ofInt x := by
  unfold int64Field at set
  split at set
  · cases set
    rfl
  · cases set

/-- The record the broker gets for one (key, value) pair. -/
def incoming (schemaId timestampNs : Int) (pair : Bytes × Bytes) : IncomingRecord :=
  { schemaId := UInt32.ofNat schemaId.toNat
    key := pair.1
    value := pair.2
    timestampNs := Int64.ofInt timestampNs }

theorem produceRecords_declared {schemaId timestampNs : Int} {pairs : List (Bytes × Bytes)}
    {metas : List InRecordMeta} {payload : Bytes}
    (encoded : produceRecords schemaId timestampNs pairs = some (metas, payload)) :
    List.Forall₂ Declared metas (pairs.map (incoming schemaId timestampNs)) ∧
      contents (pairs.map (incoming schemaId timestampNs)) = payload := by
  induction pairs generalizing metas payload with
  | nil =>
    cases encoded
    exact ⟨.nil, rfl⟩
  | cons pair pairs ih =>
    obtain ⟨key, value⟩ := pair
    simp only [produceRecords, Option.bind_eq_bind, Option.bind_eq_some_iff, Option.pure_def,
      Option.some.injEq, Prod.mk.injEq, Prod.exists] at encoded
    obtain ⟨keyLen, key_set, valueLen, value_set, schema, schema_set, timestamp, timestamp_set,
      metas, payload, later, rfl, rfl⟩ := encoded
    obtain ⟨cut, whole⟩ := ih later
    have sized : Sized ⟨keyLen, valueLen, schema, timestamp⟩ (incoming schemaId timestampNs (key, value)) := by
      have keyFits := (uint32Field_some key_set).2
      have valueFits := (uint32Field_some value_set).2
      constructor
      · dsimp only [incoming]; omega
      · dsimp only [incoming]; omega
    refine ⟨.cons ⟨sized, (uint32Field_some schema_set).1.symm, (int64Field_some timestamp_set).symm⟩
      cut, ?_⟩
    rw [contents] at *
    rw [List.map_cons, List.flatMap_cons, whole]
    rfl

def fetched (r : Record) : FetchedRecord :=
  { offset := r.offset
    timestampNs := r.timestampNs.toInt
    schemaId := r.schemaId.toNat
    key := r.key
    value := r.value }

/-- The offset is an `i64`, and the lengths came in as `u32`. -/
structure Carried (r : Record) : Prop where
  offset : -2 ^ 63 ≤ r.offset ∧ r.offset < 2 ^ 63
  key : r.key.length < 2 ^ 32
  value : r.value.length < 2 ^ 32

theorem sliceFetched_outMeta {records : List Record} (carried : ∀ r ∈ records, Carried r)
    {payload : Bytes} {cursor : Nat}
    (behind : payload.drop cursor = records.flatMap fun r => r.key ++ r.value) :
    sliceFetched payload cursor (records.map outMeta) = records.map fetched := by
  induction records generalizing cursor with
  | nil => rfl
  | cons r records ih =>
    obtain ⟨⟨low, high⟩, keyFits, valueFits⟩ := carried r (List.mem_cons_self)
    have keyLen : (outMeta r).keyLen.toNat = r.key.length := by
      simp only [outMeta, UInt32.toNat_ofNat']
      exact Nat.mod_eq_of_lt keyFits
    have valueLen : (outMeta r).valueLen.toNat = r.value.length := by
      simp only [outMeta, UInt32.toNat_ofNat']
      exact Nat.mod_eq_of_lt valueFits
    have offset : (outMeta r).offset.toInt = r.offset := by
      simp only [outMeta]
      exact Int64.toInt_ofInt_of_le low high
    rw [List.flatMap_cons, List.append_assoc] at behind
    obtain ⟨key, value, rest⟩ := slices_behind keyLen.symm valueLen.symm behind
    simp only [List.map_cons, sliceFetched, key, value, offset]
    rw [ih (fun other member => carried other (List.mem_cons_of_mem r member)) rest]
    rfl

end Python

/-- Slicing succeeds exactly on payloads of the declared length, and then loses and moves nothing;
it undoes the client's encoding, and the client's slicing undoes the broker's. -/
theorem payload_boundaries :
    (∀ metas payload,
      ((∃ records, slicePayload metas payload = .ok records) ↔
        (metas.map declared).sum = payload.length) ∧
      ∀ records, slicePayload metas payload = .ok records →
        contents records = payload ∧ List.Forall₂ Declared metas records) ∧
    (∀ schemaId timestampNs pairs metas payload,
      produceRecords schemaId timestampNs pairs = some (metas, payload) →
        slicePayload metas payload = .ok (pairs.map (incoming schemaId timestampNs))) ∧
    ∀ correlationId records hwm, (∀ r ∈ records, Carried r) →
      ∀ topic partition fromOffset maxRecords maxWaitMs,
        (Call.fetch topic partition fromOffset maxRecords maxWaitMs).finish
            (handleFetch correlationId (.ok ⟨records, hwm⟩)).command
            (handleFetch correlationId (.ok ⟨records, hwm⟩)).payload =
          .ok (.fetched (records.map fetched) (Int64.ofInt hwm).toInt) := by
  refine ⟨fun metas payload => ⟨?_, fun records sliced => ?_⟩, ?_, ?_⟩
  · have succeeds := @sliceLoop_succeeds payload 0 metas (Nat.zero_le _)
    rwa [Nat.zero_add] at succeeds
  · obtain ⟨cut, whole⟩ := (sliceLoop_iff (Nat.zero_le _)).mp sliced
    exact ⟨whole, cut⟩
  · intro schemaId timestampNs pairs metas payload encoded
    obtain ⟨cut, whole⟩ := produceRecords_declared encoded
    exact (sliceLoop_iff (Nat.zero_le _)).mpr ⟨cut, whole⟩
  · intro correlationId records hwm carried topic partition fromOffset maxRecords maxWaitMs
    have sliced := @sliceFetched_outMeta records carried
      (handleFetch correlationId (.ok ⟨records, hwm⟩)).payload 0 rfl
    simp only [Call.finish, handleFetch, Option.bind_some, Call.content] at sliced ⊢
    rw [sliced]

/-- An empty key, an empty value, and a fetch that gets both records back. -/
theorem payload_boundaries_empty :
    (∃ records, slicePayload [⟨0, 2, 7, 5⟩, ⟨1, 0, 7, 5⟩] [1, 2, 3] = .ok records) ∧
    slicePayload [⟨0, 2, 7, 5⟩, ⟨1, 0, 7, 5⟩] [1, 2, 3] =
      .ok [⟨7, [], [1, 2], 5⟩, ⟨7, [3], [], 5⟩] ∧
    (Call.fetch "t" 0 0 10 0).finish
        (handleFetch 1 (.ok ⟨[⟨0, 5, 7, [], [1, 2]⟩, ⟨1, 6, 7, [3], []⟩], 1⟩)).command
        (handleFetch 1 (.ok ⟨[⟨0, 5, 7, [], [1, 2]⟩, ⟨1, 6, 7, [3], []⟩], 1⟩)).payload =
      .ok (.fetched [⟨0, 5, 7, [], [1, 2]⟩, ⟨1, 6, 7, [3], []⟩] 1) := by
  refine ⟨(payload_boundaries.1 _ _).1.mpr rfl,
    payload_boundaries.2.1 7 5 [([], [1, 2]), ([3], [])] _ _ rfl,
    payload_boundaries.2.2 1 _ 1 (fun r member => ?_) _ _ _ _ _⟩
  simp only [List.mem_cons, List.not_mem_nil, or_false] at member
  rcases member with rfl | rfl <;> exact ⟨by decide, by decide, by decide⟩

end Kafkrs.Payload
