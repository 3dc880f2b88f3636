import Kafkrs.Fetching
import Kafkrs.Wire

/-! Whether a fetch's answer fits a frame. The limit on frames is checked when the answer is
written, long after the records were chosen by their number alone. -/
namespace Kafkrs.FetchFrame

open Lib Lib.Proto Kafkrs.Wire

section Sizes

def metaSize (r : Record) : Nat :=
  scalarSize (int64 (Int64.ofInt r.offset)) + scalarSize (int64 r.timestampNs) +
    scalarSize r.schemaId.toUInt64 + scalarSize (UInt32.ofNat r.key.length).toUInt64 +
    scalarSize (UInt32.ofNat r.value.length).toUInt64

/-- The message of a response: two more bytes for every record. -/
def bodySize (resp : Kafkrs.FetchResponse) : Nat :=
  (resp.records.map fun r => 2 + metaSize r).sum + scalarSize (int64 (Int64.ofInt resp.hwm))

/-- The whole frame: its two size fields, the command, keys and values. -/
def responseSize (correlationId : UInt64) (resp : Kafkrs.FetchResponse) : Nat :=
  8 + scalarSize correlationId + (2 + varintSize (UInt64.ofNat (bodySize resp)) + bodySize resp) +
    (resp.records.map fun r => r.key.length + r.value.length).sum

theorem outMeta_length (r : Record) : (OutRecordMeta.encode (outMeta r)).length = metaSize r := by
  simp only [OutRecordMeta.encode, outMeta, List.length_append, metaSize]
  rw [scalarField_length (by decide), scalarField_length (by decide), scalarField_length (by decide),
    scalarField_length (by decide), scalarField_length (by decide)]

theorem metaSize_small (r : Record) : metaSize r < 128 := by
  have offset := scalarSize_le (int64 (Int64.ofInt r.offset))
  have timestamp := scalarSize_le (int64 r.timestampNs)
  have schema := scalarSize_le r.schemaId.toUInt64
  have key := scalarSize_le (UInt32.ofNat r.key.length).toUInt64
  have value := scalarSize_le (UInt32.ofNat r.value.length).toUInt64
  simp only [metaSize]
  omega

theorem entries_length (records : List Record) :
    (repeatedField 1 ((records.map outMeta).map OutRecordMeta.encode)).length =
      (records.map fun r => 2 + metaSize r).sum := by
  induction records with
  | nil => rfl
  | cons r rest ih =>
    simp only [repeatedField] at ih
    have small := metaSize_small r
    simp only [repeatedField, List.map_cons, List.flatMap_cons, List.length_append, ih,
      List.sum_cons, messageField_length, outMeta_length, varintSize_small small]
    rw [key_small (by decide)]

theorem response_length (correlationId : UInt64) (resp : Kafkrs.FetchResponse) :
    8 + (handleFetch correlationId (.ok resp)).command.encode.length +
      (handleFetch correlationId (.ok resp)).payload.length = responseSize correlationId resp := by
  have body : (Body.encode (.fetchResp
      ⟨resp.records.map outMeta, Int64.ofInt resp.hwm⟩)).2.length = bodySize resp := by
    rw [Body.encode, List.length_append, entries_length, scalarField_length (by decide), bodySize]
  have tag : (key 23 2).length = 2 := by decide
  have payload : (resp.records.flatMap fun r => r.key ++ r.value).length =
      (resp.records.map fun r => r.key.length + r.value.length).sum := by
    simp [List.length_flatMap]
  simp only [handleFetch, Command.encode, Option.elim_some, List.length_append, messageField_length,
    body, payload, scalarField_length (show 1 < 16 by decide)]
  simp only [Body.encode, tag, responseSize]
  omega

/-- An error code and an empty text. -/
theorem error_length (correlationId : UInt64) (e : FetchError) :
    8 + (handleFetch correlationId (.error e)).command.encode.length +
      (handleFetch correlationId (.error e)).payload.length ≤ maxFrameSize := by
  have id' := scalarSize_le correlationId
  have code := scalarSize_le (int32 (fetchErrorCode e).toInt32)
  have tag : (key 99 2).length = 2 := by decide
  have empty : bytesField 2 (utf8 "") = [] := by decide
  have body : (Body.encode (.error ⟨(fetchErrorCode e).toInt32, ""⟩)).2.length =
      scalarSize (int32 (fetchErrorCode e).toInt32) := by
    rw [Body.encode, empty, List.append_nil, scalarField_length (by decide)]
  have size := varintSize_le (UInt64.ofNat (scalarSize (int32 (fetchErrorCode e).toInt32)))
  simp only [handleFetch, makeError, Command.encode, Option.elim_some, List.length_append,
    messageField_length, body, scalarField_length (show 1 < 16 by decide), List.length_nil, maxFrameSize]
  simp only [Body.encode, tag]
  omega

theorem empty_fits (correlationId : UInt64) (hwm : Int) :
    responseSize correlationId ⟨[], hwm⟩ ≤ maxFrameSize := by
  have id' := scalarSize_le correlationId
  have top := scalarSize_le (int64 (Int64.ofInt hwm))
  have size := varintSize_le (UInt64.ofNat (bodySize ⟨[], hwm⟩))
  simp only [responseSize, bodySize, List.map_nil, List.sum_nil, maxFrameSize] at *
  omega

end Sizes

section Frames

theorem toBeBytes_length (n : UInt32) : (toBeBytes n).length = 4 := by
  simp [toBeBytes]

theorem encodeFrame_fits {frame : Frame} :
    (∃ bytes, encodeFrame frame = .ok bytes ∧ bytes.length ≤ maxFrameSize) ↔
      8 + frame.command.encode.length + frame.payload.length ≤ maxFrameSize := by
  simp only [encodeFrame]
  split
  next exceeds =>
    simp only [reduceCtorEq, false_and, exists_false, false_iff]
    omega
  next fits =>
    refine iff_of_true ⟨_, rfl, ?_⟩ (by omega)
    simp only [List.length_append, toBeBytes_length]
    omega

theorem encodeFrame_refused {frame : Frame} {whole : Nat}
    (size : 8 + frame.command.encode.length + frame.payload.length = whole)
    (exceeds : maxFrameSize < whole) : encodeFrame frame = .error (.tooLarge whole) := by
  have total : 4 + frame.command.encode.length + frame.payload.length + 4 = whole := by omega
  simp only [encodeFrame, total, if_pos exceeds]

/-- The frame of an answer can be written. -/
def Writable (correlationId : UInt64) (result : Except FetchError Kafkrs.FetchResponse) : Prop :=
  ∃ bytes, encodeFrame (handleFetch correlationId result) = .ok bytes ∧ bytes.length ≤ maxFrameSize

theorem writable_ok {correlationId : UInt64} {resp : Kafkrs.FetchResponse} :
    Writable correlationId (.ok resp) ↔ responseSize correlationId resp ≤ maxFrameSize := by
  rw [Writable, encodeFrame_fits, response_length]

theorem writable_error (correlationId : UInt64) (e : FetchError) : Writable correlationId (.error e) :=
  encodeFrame_fits.mpr (error_length correlationId e)

theorem writable_empty (correlationId : UInt64) (hwm : Int) : Writable correlationId (.ok ⟨[], hwm⟩) :=
  writable_ok.mpr (empty_fits correlationId hwm)

end Frames

section Runs

open Kafkrs.Partition

variable {env : Externals} {s next : Fetcher.State} {correlationId : UInt64}

/-- A finished fetch has an answer that can be written. -/
def Answerable (correlationId : UInt64) (s : Fetcher.State) : Prop :=
  ∀ f result, s.fetch = some f → f.phase = .done result → Writable correlationId result

def Fits (correlationId : UInt64) (s : Fetcher.State) : Fetcher.Action → Prop
  | .fetch => ∀ l f, s.partition.live = some l → s.fetch = some f →
      (f.phase = .readActive → l.writer.phase = .recv →
        responseSize correlationId (Fetcher.activeRead f.req l.writer) ≤ maxFrameSize) ∧
      ∀ seg hwm inFlight records, f.phase = .readSegment seg hwm inFlight →
        s.partition.disk.store.objects[seg.baseOffset]? = some records →
        responseSize correlationId ⟨Fetcher.selected f.req records, hwm⟩ ≤ maxFrameSize
  | _ => True

/-- Refusals and empty answers always fit. -/
theorem writable_failed (correlationId : UInt64) {inFlight : Bool} {e : FetchError}
    {result : Except FetchError FetchResponse}
    (failed : Fetcher.failed inFlight e = .done result) : Writable correlationId result := by
  simp only [Fetcher.failed] at failed
  obtain rfl := Fetcher.Phase.done.inj failed
  cases inFlight with
  | true => exact writable_empty correlationId _
  | false => exact writable_error correlationId e

/-- Apart from the two reads of records, whatever a step answers with can be written. -/
theorem advance_writable {w : PartitionWriter} {st : Store} {f : Fetch}
    {result : Except FetchError FetchResponse} (busy : ∀ result, f.phase ≠ .done result)
    (finished : Fetcher.advance w st f = .done result) (reading : f.phase ≠ .readActive)
    (missing : ∀ seg hwm inFlight, f.phase = .readSegment seg hwm inFlight →
      st.objects[seg.baseOffset]? = none) : Writable correlationId result := by
  cases phase : f.phase with
  | locate =>
    simp only [Fetcher.advance, phase, Fetcher.located] at finished
    split at finished
    · split at finished
      · obtain rfl := Fetcher.Phase.done.inj finished
        exact writable_empty correlationId _
      · cases finished
    all_goals cases finished
  | relocate =>
    simp only [Fetcher.advance, phase, Fetcher.relocated] at finished
    split at finished
    · cases finished
    · obtain rfl := Fetcher.Phase.done.inj finished
      exact writable_empty correlationId _
    all_goals cases finished
  | waiting =>
    simp only [Fetcher.advance, phase] at finished
    cases finished
  | readActive => exact absurd phase reading
  | readManifest inFlight =>
    simp only [Fetcher.advance, phase, Fetcher.manifestRead] at finished
    split at finished
    · exact writable_failed correlationId finished
    · cases finished
  | readSegment seg hwm inFlight =>
    simp only [Fetcher.advance, phase, Fetcher.segmentRead, missing seg hwm inFlight phase] at finished
    exact writable_failed correlationId finished
  | done result => exact absurd phase (busy result)

theorem answerable_moved {f : Fetch} (moved : next.fetch = some f) :
    Answerable correlationId next ↔ ∀ result, f.phase = .done result → Writable correlationId result := by
  constructor
  · intro answerable result
    exact answerable f result moved
  · intro writable g result now
    obtain rfl := Option.some.inj (moved.symm.trans now)
    exact writable result

/-- One step of a fetch gives an answer that can be written, exactly when what it reads fits. -/
theorem fetch_answerable_iff (taken : Fetcher.joint env .fetch s = some next) :
    Answerable correlationId next ↔ Fits correlationId s .fetch := by
  obtain ⟨l, f, live, fetching, _, step⟩ := Fetching.fetch_step_cases taken
  have here : Fits correlationId s .fetch ↔
      (f.phase = .readActive → l.writer.phase = .recv →
        responseSize correlationId (Fetcher.activeRead f.req l.writer) ≤ maxFrameSize) ∧
      ∀ seg hwm inFlight records, f.phase = .readSegment seg hwm inFlight →
        s.partition.disk.store.objects[seg.baseOffset]? = some records →
        responseSize correlationId ⟨Fetcher.selected f.req records, hwm⟩ ≤ maxFrameSize := by
    constructor
    · intro fits
      exact fits l f live fetching
    · intro fits l' f' live' fetching'
      obtain rfl := Option.some.inj (live.symm.trans live')
      obtain rfl := Option.some.inj (fetching.symm.trans fetching')
      exact fits
  rw [here]
  by_cases segment : ∃ seg hwm inFlight, f.phase = .readSegment seg hwm inFlight
  · obtain ⟨seg, hwm, inFlight, phase⟩ := segment
    simp only [Fetcher.joint, live, fetching, Fetcher.step, phase, Fetcher.asks, Fetcher.advance,
      Bool.false_eq_true, if_false, Option.map_some, Option.some.injEq] at taken
    subst taken
    rw [answerable_moved rfl, phase]
    cases object : s.partition.disk.store.objects[seg.baseOffset]? with
    | none =>
      refine iff_of_true (fun result failed => ?_) ⟨by simp, ?_⟩
      · simp only [Fetcher.segmentRead, object] at failed
        exact writable_failed correlationId failed
      · intro seg' hwm' inFlight' records same found
        obtain ⟨rfl, rfl, rfl⟩ := Fetcher.Phase.readSegment.inj same
        simp [object] at found
    | some records =>
      simp only [Fetcher.segmentRead, object, Fetcher.Phase.done.injEq, forall_eq', writable_ok]
      constructor
      · intro fits
        refine ⟨by simp, fun seg' hwm' inFlight' records' same found => ?_⟩
        obtain ⟨rfl, rfl, rfl⟩ := Fetcher.Phase.readSegment.inj same
        obtain rfl := Option.some.inj (object.symm.trans found)
        exact fits
      · intro fits
        exact fits.2 seg hwm inFlight records rfl object
  · have others : ∀ seg hwm inFlight, f.phase ≠ .readSegment seg hwm inFlight :=
      fun seg hwm inFlight phase => segment ⟨seg, hwm, inFlight, phase⟩
    rcases step with ⟨stopped, moved⟩ | ⟨busy, recv, moved⟩
    · rw [answerable_moved moved]
      refine iff_of_true (fun result same => ?_) ⟨by simp [stopped], by simp [others]⟩
      obtain rfl := Fetcher.Phase.done.inj same
      exact writable_error correlationId _
    · rw [answerable_moved moved]
      by_cases active : f.phase = .readActive
      · simp [active, recv active, Fetcher.advance, writable_ok]
      · refine iff_of_true (fun result finished => ?_) ⟨by simp [active], by simp [others]⟩
        exact advance_writable busy finished active fun seg hwm inFlight phase =>
          absurd phase (others seg hwm inFlight)

/-- Without a fetch the joint machine is the partition. -/
theorem partition_runs (env : Externals) (schedule : List Partition.Action) {s next : State}
    (ran : (machine env).execute schedule s = some next) :
    (Fetcher.machine env).execute (schedule.map .partition) ⟨s, none⟩ = some ⟨next, none⟩ := by
  induction schedule generalizing s with
  | nil =>
    cases ran
    rfl
  | cons action schedule ih =>
    obtain ⟨after, taken, rest⟩ := Machine.execute_cons ran
    have joined : (Fetcher.machine env).step (.partition action) ⟨s, none⟩ = some ⟨after, none⟩ := by
      simp [Fetcher.machine, Fetcher.joint, show Partition.step env action s = some after from taken]
    rw [List.map_cons, Machine.execute_step joined]
    exact ih rest

/-- In every run, the answer of every fetch can be written if and only if every read of records
selects no more than a frame holds. -/
theorem answerable_iff_fits (env : Externals) (correlationId : UInt64) (schedule : List Fetcher.Action) :
    (Fetcher.machine env).Throughout (Answerable correlationId) schedule ⟨fresh, none⟩ ↔
      (Fetcher.machine env).Along (Fits correlationId) schedule ⟨fresh, none⟩ := by
  have idle : Answerable correlationId ⟨fresh, none⟩ := fun _ _ begun => (by cases begun)
  have preserved (s : Fetcher.State) (action : Fetcher.Action) (next : Fetcher.State) (_ _ : True)
      (_ : (Fetcher.machine env).step action s = some next) : True := trivial
  refine Machine.throughout_iff_along preserved ?_ ?_ trivial idle (Machine.along_true _ _)
  · intro s action disabled
    cases action with
    | fetch =>
      intro l f live fetching
      constructor
      · intro phase recv
        simp [Fetcher.machine, Fetcher.joint, live, fetching, Fetcher.step, phase, Fetcher.asks,
          recv] at disabled
      · intro seg hwm inFlight records phase
        simp [Fetcher.machine, Fetcher.joint, live, fetching, Fetcher.step, phase, Fetcher.asks] at disabled
    | _ => trivial
  · intro s action next _ _ answerable taken
    cases action with
    | fetch =>
      have stepped : Fetcher.joint env .fetch s = some next := taken
      exact fetch_answerable_iff stepped
    | begin req =>
      refine iff_of_true (fun f result now finished => ?_) trivial
      obtain rfl := Fetching.begin_fetch (show Fetcher.joint env (.begin req) s = some next from taken) now
      simp only [Fetcher.start] at finished
      split at finished
      · obtain rfl := Fetcher.Phase.done.inj finished
        exact writable_error correlationId _
      · cases finished
    | partition action =>
      refine iff_of_true (fun f result now finished => ?_) trivial
      obtain ⟨after, stepped, rfl⟩ := Option.map_eq_some_iff.mp taken
      dsimp only at now
      split at now
      · exact answerable f result now finished
      · cases now

end Runs

section Samples

open Kafkrs.Partition
open Kafkrs.Produce (zeros produceInner)

/-- A topic that allows values up to the size of a frame, which no check forbids. -/
def largeOverrides : TopicConfigOverrides := { maxValueSizeBytes := some 4194304 }

def largeConfig : ResolvedTopicConfig := .resolve largeOverrides .nvme

/-- One record without a key and a timestamp, in a frame 23 bytes longer than its value. -/
def largeProduce : Wire.ProduceRequest := ⟨"t", 0, [⟨0, 4194280, 0, 0⟩]⟩

def clock : Nat → Int64 := fun _ => 1700000000000000000

def keyless (value : Bytes) : IncomingRecord := ⟨0, [], value, 0⟩

/-- As it is stored: the broker has added a timestamp. -/
def stamped (value : Bytes) : Record := ⟨0, 1700000000000000000, 0, [], value⟩

def Ready (l : Live) : Prop :=
  l.writer.phase = .recv ∧ l.writer.cfg = largeConfig ∧ l.writer.nextOffset = 0 ∧
    l.writer.active = [] ∧ l.writer.activeBytes = 0 ∧ l.writer.pending = [] ∧ l.writer.stopping = false

instance (l : Live) : Decidable (Ready l) := inferInstanceAs (Decidable (_ ∧ _))

theorem large_ready : ∃ s l, (machine externals).execute [.start largeConfig, .openWriter] fresh = some s ∧
    s.live = some l ∧ Ready l := by
  have runs : ((machine externals).execute [.start largeConfig, .openWriter] fresh).any (fun s =>
      s.live.any (fun l => decide (Ready l))) = true := by decide +kernel
  obtain ⟨s, ran, facts⟩ := Option.any_eq_true _ _ |>.mp runs
  obtain ⟨l, live, ready⟩ := Option.any_eq_true _ _ |>.mp facts
  exact ⟨s, l, ran, live, of_decide_eq_true ready⟩

def oneRecord : Wire.FetchRequest := ⟨"t", 0, 0, 1, 0⟩

def largeRun (value : Bytes) : List Fetcher.Action :=
  ([.start largeConfig, .openWriter] ++ [.produce [keyless value] clock, .writer] :
      List Partition.Action).map .partition ++
    [.begin (oneRecord.resolve largeConfig), .fetch, .fetch]

section Large

variable {value : Bytes} (size : value.length = 4194280)

include size

theorem largeProduce_accepted : (∃ bytes, encodeFrame ⟨⟨1, some (.produce largeProduce)⟩, value⟩ = .ok bytes) ∧
    produceInner largeConfig largeProduce.records value = .ok [keyless value] := by
  constructor
  · have command : (Command.encode ⟨1, some (.produce largeProduce)⟩).length = 15 := by decide +kernel
    obtain ⟨bytes, encoded, _⟩ := (@encodeFrame_fits ⟨⟨1, some (.produce largeProduce)⟩, value⟩).mpr (by
      simp [command, size, maxFrameSize])
    exact ⟨bytes, encoded⟩
  · have single : produceInner largeConfig largeProduce.records ([] ++ value) = .ok [keyless value] :=
      Produce.produceInner_single rfl (by simpa using size) (by decide) (by decide)
    rwa [List.nil_append] at single

theorem keyless_committed {s : State} {l : Live} (live : s.live = some l) (ready : Ready l) :
    ∃ next l', (machine externals).execute [.produce [keyless value] clock, .writer] s = some next ∧
      next.live = some l' ∧ l'.writer.phase = .recv ∧ l'.writer.active = [stamped value] ∧
      l'.writer.nextOffset = 1 ∧ stamped value ∈ next.history.acked := by
  obtain ⟨recv, cfg, next, active, bytes, pending, running⟩ := ready
  have groupCommit : largeConfig.groupCommitSizeBytes = 65536 := rfl
  have segment : largeConfig.segmentSizeBytes = 134217728 := rfl
  have stored : PartitionWriter.stamp clock 0 [keyless value] = [stamped value] := rfl
  have length : (stamped value).size = 4194280 := by simp [stamped, Record.size, size]
  simp [Machine.execute, machine, Partition.step, live, liveStep, recv, PartitionWriter.onProduce, next,
    i64Max, pending, stored, cfg, groupCommit, length, writerStep, PartitionWriter.flushCommit, bytes,
    segment, running, active]

theorem large_answered : ∃ s, (Fetcher.machine externals).execute (largeRun value) ⟨fresh, none⟩ = some s ∧
    s.fetch = some ⟨oneRecord.resolve largeConfig, .done (.ok ⟨[stamped value], 0⟩)⟩ ∧
    stamped value ∈ s.partition.history.acked := by
  obtain ⟨s, l, started, live, ready⟩ := large_ready
  obtain ⟨next, l', produced, live', recv, active, offset, acked⟩ := keyless_committed size live ready
  have whole : (machine externals).execute
      ([.start largeConfig, .openWriter] ++ [.produce [keyless value] clock, .writer]) fresh = some next := by
    rw [Machine.execute_append, started]
    exact produced
  have ran := partition_runs externals _ whole
  have asked : oneRecord.resolve largeConfig = ⟨0, 1, 0⟩ := by decide
  refine ⟨⟨next, _⟩, ?_, rfl, acked⟩
  rw [largeRun, Machine.execute_append, ran, asked]
  simp [Machine.execute, Fetcher.machine, Fetcher.joint, live', recv, Fetcher.start, Fetcher.step,
    Fetcher.asks, Fetcher.advance, PartitionWriter.locate, PartitionWriter.hwm, offset, active, stamped,
    Fetcher.located, Fetcher.activeRead, PartitionWriter.readActive]

theorem large_size : responseSize 2 ⟨[stamped value], 0⟩ = 4194310 := by
  have entry : metaSize (stamped value) = 15 := by
    simp only [metaSize, stamped, size, List.length_nil]
    decide +kernel
  have body : bodySize ⟨[stamped value], 0⟩ = 17 := by
    simp only [bodySize, List.map_cons, List.map_nil, List.sum_cons, List.sum_nil, entry]
    decide +kernel
  have command : scalarSize 2 + (2 + varintSize (UInt64.ofNat 17) + 17) = 22 := by decide +kernel
  simp only [responseSize, body, List.map_cons, List.map_nil, List.sum_cons, List.sum_nil]
  rw [Nat.add_assoc 8, command, stamped, size, List.length_nil]
  norm_num

theorem large_unwritable :
    (∃ bytes, encodeFrame ⟨⟨1, some (.produce largeProduce)⟩, value⟩ = .ok bytes) ∧
    produceInner largeConfig largeProduce.records value = .ok [keyless value] ∧
    (∃ s, (Fetcher.machine externals).execute (largeRun value) ⟨fresh, none⟩ = some s ∧
      s.fetch = some ⟨oneRecord.resolve largeConfig, .done (.ok ⟨[stamped value], 0⟩)⟩ ∧
      stamped value ∈ s.partition.history.acked) ∧
    encodeFrame (handleFetch 2 (.ok ⟨[stamped value], 0⟩)) = .error (.tooLarge 4194310) ∧
    ¬ (Fetcher.machine externals).Throughout (Answerable 2) (largeRun value) ⟨fresh, none⟩ := by
  obtain ⟨framed, accepted⟩ := largeProduce_accepted size
  obtain ⟨s, ran, answered, acked⟩ := large_answered size
  have exceeds := large_size size
  have refused : encodeFrame (handleFetch 2 (.ok ⟨[stamped value], 0⟩)) = .error (.tooLarge 4194310) :=
    encodeFrame_refused ((response_length 2 _).trans exceeds) (by decide)
  refine ⟨framed, accepted, ⟨s, ran, answered, acked⟩, refused, fun always => ?_⟩
  have writable := writable_ok.mp (always.final ran _ _ answered rfl)
  rw [exceeds] at writable
  exact absurd writable (by decide)

end Large

/-- A record that came in one frame does not go out in one, even alone. -/
theorem largeFetch_unwritable : largeOverrides.validate = .ok () ∧
    (∃ bytes, encodeFrame ⟨⟨1, some (.produce largeProduce)⟩, zeros 4194280⟩ = .ok bytes) ∧
    produceInner largeConfig largeProduce.records (zeros 4194280) = .ok [keyless (zeros 4194280)] ∧
    (∃ s, (Fetcher.machine externals).execute (largeRun (zeros 4194280)) ⟨fresh, none⟩ = some s ∧
      s.fetch = some ⟨oneRecord.resolve largeConfig, .done (.ok ⟨[stamped (zeros 4194280)], 0⟩)⟩ ∧
      stamped (zeros 4194280) ∈ s.partition.history.acked) ∧
    encodeFrame (handleFetch 2 (.ok ⟨[stamped (zeros 4194280)], 0⟩)) = .error (.tooLarge 4194310) ∧
    ¬ (Fetcher.machine externals).Throughout (Answerable 2) (largeRun (zeros 4194280)) ⟨fresh, none⟩ :=
  ⟨rfl, large_unwritable (Produce.zeros_length 4194280)⟩

end Samples

end Kafkrs.FetchFrame
