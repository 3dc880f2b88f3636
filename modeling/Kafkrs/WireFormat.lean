import Kafkrs.FrameStream
import Kafkrs.Lib.Fields

/-! What the bytes on a connection say. Protobuf leaves defaults out and marks no message's end, yet
no two commands, frames or sequences of frames share their bytes; and however the stream is cut up
on its way, the reader hands on exactly the frames that have come in whole. -/
namespace Kafkrs.WireFormat

open Lib Lib.Proto Wal Wire FrameStream
open Kafkrs.Produce (InRecordMeta)

section Values

@[simp] theorem utf8_inj {s t : String} : utf8 s = utf8 t ↔ s = t := by
  rw [utf8, utf8, Array.toList_inj, ← ByteArray.ext_iff, String.toUTF8, String.toUTF8,
    String.toByteArray_inj]

@[simp] theorem int64_inj {x y : Int64} : int64 x = int64 y ↔ x = y := by
  cases x
  cases y
  exact (Int64.ofUInt64.injEq ..).to_iff.symm

@[simp] theorem int32_inj {x y : Int32} : int32 x = int32 y ↔ x = y := by
  refine int64_inj.trans ⟨fun same => ?_, congrArg Int32.toInt64⟩
  simpa using congrArg Int64.toInt32 same

theorem map_int64_inj {x y : Option Int64} : x.map int64 = y.map int64 ↔ x = y :=
  (Option.map_injective fun _ _ => int64_inj.mp).eq_iff

theorem map_toUInt64_inj {x y : Option UInt32} :
    x.map (·.toUInt64) = y.map (·.toUInt64) ↔ x = y :=
  (Option.map_injective fun _ _ => UInt32.toUInt64_inj.mp).eq_iff

theorem utf8_distinct : Distinct utf8 := fun _ _ _ => utf8_inj.mp

end Values

section Messages

def inRecordSlots (m : InRecordMeta) : List Slot :=
  [.scalar m.keyLen.toUInt64, .scalar m.valueLen.toUInt64, .scalar m.schemaId.toUInt64,
    .scalar (int64 m.timestampNs)]

def outRecordSlots (m : OutRecordMeta) : List Slot :=
  [.scalar (int64 m.offset), .scalar (int64 m.timestampNs), .scalar m.schemaId.toUInt64,
    .scalar m.keyLen.toUInt64, .scalar m.valueLen.toUInt64]

def overridesSlots (o : Wire.TopicConfigOverrides) : List Slot :=
  [.optional o.segmentSizeBytes, .optional o.segmentSealTimeMs,
    .optional (o.maxKeySizeBytes.map (·.toUInt64)), .optional (o.maxValueSizeBytes.map (·.toUInt64)),
    .optional o.groupCommitTimeMs, .optional o.groupCommitSizeBytes,
    .optional (o.groupCommitRecordCount.map (·.toUInt64)), .optional o.maxFetchWaitMs,
    .optional (o.retentionMs.map int64), .optional (o.retentionBytes.map int64)]

def brokerSlots (b : BrokerInfo) : List Slot :=
  [.bytes (utf8 b.brokerId), .bytes (utf8 b.host), .scalar b.port.toUInt64]

def partitionSlots (p : PartitionMetadata) : List Slot :=
  [.scalar p.partition.toUInt64, .bytes (utf8 p.leaderBrokerId)]

def topicSlots (t : TopicMetadata) : List Slot :=
  [.bytes (utf8 t.topic), .scalar t.errorCode.toUInt64, .bytes (utf8 t.topicUuid),
    .repeated (t.partitions.map PartitionMetadata.encode)]

theorem inRecord_distinct : Distinct InRecordMeta.encode := by
  refine .of_slots inRecordSlots (by simp [inRecordSlots, InRecordMeta.encode, Slot.encode])
    (by simp [inRecordSlots]) (fun a b => by repeat constructor) fun a b _ same => ?_
  cases a
  cases b
  simpa [inRecordSlots, UInt32.toUInt64_inj] using same

theorem outRecord_distinct : Distinct OutRecordMeta.encode := by
  refine .of_slots outRecordSlots (by simp [outRecordSlots, OutRecordMeta.encode, Slot.encode])
    (by simp [outRecordSlots]) (fun a b => by repeat constructor) fun a b _ same => ?_
  cases a
  cases b
  simpa [outRecordSlots, UInt32.toUInt64_inj] using same

theorem overrides_distinct : Distinct overridesEncode := by
  refine .of_slots overridesSlots (by simp [overridesSlots, overridesEncode, Slot.encode])
    (by simp [overridesSlots]) (fun a b => by repeat constructor) fun a b _ same => ?_
  cases a
  cases b
  simpa [overridesSlots, map_int64_inj, map_toUInt64_inj] using same

theorem broker_distinct : Distinct BrokerInfo.encode := by
  refine .of_slots brokerSlots (by simp [brokerSlots, BrokerInfo.encode, Slot.encode])
    (by simp [brokerSlots]) (fun a b => by repeat constructor) fun a b _ same => ?_
  cases a
  cases b
  simpa [brokerSlots, UInt32.toUInt64_inj] using same

theorem partition_distinct : Distinct PartitionMetadata.encode := by
  refine .of_slots partitionSlots (by simp [partitionSlots, PartitionMetadata.encode, Slot.encode])
    (by simp [partitionSlots]) (fun a b => by repeat constructor) fun a b _ same => ?_
  cases a
  cases b
  simpa [partitionSlots, UInt32.toUInt64_inj] using same

theorem topic_distinct : Distinct TopicMetadata.encode := by
  refine .of_slots topicSlots (by simp [topicSlots, TopicMetadata.encode, Slot.encode])
    (by simp [topicSlots]) (fun a b => by repeat constructor) fun a b short same => ?_
  obtain ⟨topic, code, uuid, partitions⟩ := a
  obtain ⟨topic', code', uuid', partitions'⟩ := b
  simp only [topicSlots, List.cons.injEq, Slot.bytes.injEq, Slot.scalar.injEq, Slot.repeated.injEq,
    utf8_inj, UInt32.toUInt64_inj, and_true] at same
  obtain ⟨rfl, rfl, rfl, partitionsSame⟩ := same
  have nested : ∀ p ∈ partitions, (PartitionMetadata.encode p).length < 2 ^ 64 := by
    simpa [topicSlots, Slot.bodies] using short
  rw [partition_distinct.map nested partitionsSame]

def bodySlots : Body → List Slot
  | .connect req =>
    [.scalar req.protocolVersion.toUInt64, .bytes (utf8 req.clientId), .bytes req.authData]
  | .connected resp =>
    [.scalar resp.protocolVersion.toUInt64, .bytes (utf8 resp.brokerId), .bytes (utf8 resp.clusterId)]
  | .produce req =>
    [.bytes (utf8 req.topic), .scalar req.partition.toUInt64,
      .repeated (req.records.map InRecordMeta.encode)]
  | .produceResp resp =>
    [.scalar (int64 resp.baseOffset), .scalar (int64 resp.lastOffset), .scalar (int64 resp.hwm)]
  | .fetch req =>
    [.bytes (utf8 req.topic), .scalar req.partition.toUInt64, .scalar (int64 req.fromOffset),
      .scalar req.maxRecords.toUInt64, .scalar req.maxWaitMs.toUInt64]
  | .fetchResp resp =>
    [.repeated (resp.records.map OutRecordMeta.encode), .scalar (int64 resp.hwm)]
  | .createTopic req =>
    [.bytes (utf8 req.topic), .scalar req.partitionCount.toUInt64,
      .message (req.overrides.map overridesEncode)]
  | .describeTopic topic => [.bytes (utf8 topic)]
  | .describeTopicResp resp =>
    [.bytes (utf8 resp.topic), .scalar resp.partitionCount.toUInt64,
      .scalar (int64 resp.createdAtNs), .message (resp.config.map overridesEncode)]
  | .listTopicsResp topics => [.repeated (topics.map utf8)]
  | .deleteTopic req =>
    [.bytes (utf8 req.topic), .optional (req.deleteData.map fun flag => if flag then 1 else 0)]
  | .alterTopicConfig req =>
    [.bytes (utf8 req.topic), .message (req.overrides.map overridesEncode)]
  | .alterTopicConfigResp overrides => [.message (overrides.map overridesEncode)]
  | .metadata topics => [.repeated (topics.map utf8)]
  | .metadataResp resp =>
    [.bytes (utf8 resp.clusterId), .repeated (resp.brokers.map BrokerInfo.encode),
      .repeated (resp.topics.map TopicMetadata.encode)]
  | .error resp => [.scalar (int32 resp.code), .bytes (utf8 resp.message)]
  | .ping | .pong | .createTopicResp | .listTopics | .deleteTopicResp => []

theorem body_encode (b : Body) : b.encode.2 = encodeSlots 1 (bodySlots b) := by
  have overrides (field : Nat) (o : Option Wire.TopicConfigOverrides) :
      overridesField field o = (o.map overridesEncode).elim [] (messageField field) := by
    cases o <;> rfl
  cases b <;> simp [Body.encode, bodySlots, Slot.encode, overrides]

inductive SameArm : Body → Body → Prop where
  | connect (a b : ConnectRequest) : SameArm (.connect a) (.connect b)
  | connected (a b : ConnectedResponse) : SameArm (.connected a) (.connected b)
  | ping : SameArm .ping .ping
  | pong : SameArm .pong .pong
  | produce (a b : Wire.ProduceRequest) : SameArm (.produce a) (.produce b)
  | produceResp (a b : Wire.ProduceResponse) : SameArm (.produceResp a) (.produceResp b)
  | fetch (a b : Wire.FetchRequest) : SameArm (.fetch a) (.fetch b)
  | fetchResp (a b : Wire.FetchResponse) : SameArm (.fetchResp a) (.fetchResp b)
  | createTopic (a b : CreateTopicRequest) : SameArm (.createTopic a) (.createTopic b)
  | createTopicResp : SameArm .createTopicResp .createTopicResp
  | describeTopic (a b : String) : SameArm (.describeTopic a) (.describeTopic b)
  | describeTopicResp (a b : DescribeTopicResponse) :
      SameArm (.describeTopicResp a) (.describeTopicResp b)
  | listTopics : SameArm .listTopics .listTopics
  | listTopicsResp (a b : List String) : SameArm (.listTopicsResp a) (.listTopicsResp b)
  | deleteTopic (a b : DeleteTopicRequest) : SameArm (.deleteTopic a) (.deleteTopic b)
  | deleteTopicResp : SameArm .deleteTopicResp .deleteTopicResp
  | alterTopicConfig (a b : AlterTopicConfigRequest) :
      SameArm (.alterTopicConfig a) (.alterTopicConfig b)
  | alterTopicConfigResp (a b : Option Wire.TopicConfigOverrides) :
      SameArm (.alterTopicConfigResp a) (.alterTopicConfigResp b)
  | metadata (a b : List String) : SameArm (.metadata a) (.metadata b)
  | metadataResp (a b : MetadataResponse) : SameArm (.metadataResp a) (.metadataResp b)
  | error (a b : ErrorResponse) : SameArm (.error a) (.error b)

/-- Every arm has a number of its own. -/
theorem sameArm_of_number {b c : Body} (numbers : b.encode.1 = c.encode.1) : SameArm b c := by
  cases b <;> cases c <;> first | constructor | exact absurd numbers (Nat.ne_of_beq_eq_false rfl)

theorem body_alike {b c : Body} (arm : SameArm b c) :
    List.Forall₂ Slot.Alike (bodySlots b) (bodySlots c) := by
  cases arm <;> repeat constructor

theorem body_determined {b c : Body} (arm : SameArm b c)
    (short : ∀ slot ∈ bodySlots b, ∀ body ∈ slot.bodies, body.length < 2 ^ 64)
    (same : bodySlots b = bodySlots c) : b = c := by
  cases arm with
  | ping | pong | createTopicResp | listTopics | deleteTopicResp => rfl
  | connect a b | connected a b | produceResp a b | fetch a b | error a b =>
    cases a
    cases b
    simpa [bodySlots, UInt32.toUInt64_inj] using same
  | describeTopic a b => simpa [bodySlots] using same
  | deleteTopic a b =>
    obtain ⟨topic, flag⟩ := a
    obtain ⟨topic', flag'⟩ := b
    have flags : Function.Injective fun flag : Bool => if flag then (1 : UInt64) else 0 := by
      intro a b
      cases a <;> cases b <;> simp
    simpa [bodySlots, (Option.map_injective flags).eq_iff] using same
  | produce a b =>
    obtain ⟨topic, partition, records⟩ := a
    obtain ⟨topic', partition', records'⟩ := b
    simp only [bodySlots, List.cons.injEq, Slot.bytes.injEq, Slot.scalar.injEq,
      Slot.repeated.injEq, utf8_inj, UInt32.toUInt64_inj, and_true] at same
    obtain ⟨rfl, rfl, metas⟩ := same
    rw [inRecord_distinct.map (by simpa [bodySlots, Slot.bodies] using short) metas]
  | fetchResp a b =>
    obtain ⟨records, hwm⟩ := a
    obtain ⟨records', hwm'⟩ := b
    simp only [bodySlots, List.cons.injEq, Slot.scalar.injEq, Slot.repeated.injEq, int64_inj,
      and_true] at same
    obtain ⟨metas, rfl⟩ := same
    rw [outRecord_distinct.map (by simpa [bodySlots, Slot.bodies] using short) metas]
  | createTopic a b =>
    obtain ⟨topic, count, overrides⟩ := a
    obtain ⟨topic', count', overrides'⟩ := b
    simp only [bodySlots, List.cons.injEq, Slot.bytes.injEq, Slot.scalar.injEq,
      Slot.message.injEq, utf8_inj, UInt32.toUInt64_inj, and_true] at same
    obtain ⟨rfl, rfl, config⟩ := same
    rw [overrides_distinct.option (by simpa [bodySlots, Slot.bodies] using short) config]
  | describeTopicResp a b =>
    obtain ⟨topic, count, created, overrides⟩ := a
    obtain ⟨topic', count', created', overrides'⟩ := b
    simp only [bodySlots, List.cons.injEq, Slot.bytes.injEq, Slot.scalar.injEq,
      Slot.message.injEq, utf8_inj, UInt32.toUInt64_inj, int64_inj, and_true] at same
    obtain ⟨rfl, rfl, rfl, config⟩ := same
    rw [overrides_distinct.option (by simpa [bodySlots, Slot.bodies] using short) config]
  | alterTopicConfig a b =>
    obtain ⟨topic, overrides⟩ := a
    obtain ⟨topic', overrides'⟩ := b
    simp only [bodySlots, List.cons.injEq, Slot.bytes.injEq, Slot.message.injEq, utf8_inj,
      and_true] at same
    obtain ⟨rfl, config⟩ := same
    rw [overrides_distinct.option (by simpa [bodySlots, Slot.bodies] using short) config]
  | alterTopicConfigResp a b =>
    simp only [bodySlots, List.cons.injEq, Slot.message.injEq, and_true] at same
    rw [overrides_distinct.option (by simpa [bodySlots, Slot.bodies] using short) same]
  | listTopicsResp a b | metadata a b =>
    simp only [bodySlots, List.cons.injEq, Slot.repeated.injEq, and_true] at same
    rw [utf8_distinct.map (by simpa [bodySlots, Slot.bodies] using short) same]
  | metadataResp a b =>
    obtain ⟨cluster, brokers, topics⟩ := a
    obtain ⟨cluster', brokers', topics'⟩ := b
    simp only [bodySlots, List.cons.injEq, Slot.bytes.injEq, Slot.repeated.injEq, utf8_inj,
      and_true] at same
    obtain ⟨rfl, brokersSame, topicsSame⟩ := same
    simp only [bodySlots, Slot.bodies, List.forall_mem_cons, List.forall_mem_map] at short
    rw [broker_distinct.map short.2.1 brokersSame, topic_distinct.map short.2.2.1 topicsSame]

def commandFields (c : Command) : List WireField :=
  (Slot.scalar c.correlationId).fields 1 ++
    (c.body.map fun body => WireField.mk body.encode.1 (.delimited body.encode.2)).toList

theorem command_encode (c : Command) : c.encode = (commandFields c).flatMap WireField.encode := by
  rw [commandFields, List.flatMap_append, Slot.fields_encode]
  cases body : c.body <;> simp [Command.encode, body, Slot.encode, WireField.encode]

theorem body_number (b : Body) : 10 ≤ b.encode.1 ∧ b.encode.1 < 100 := by
  cases b <;> simp [Body.encode]

theorem commandFields_number {c : Command} : ∀ f ∈ commandFields c, f.number < 2 ^ 60 := by
  intro f member
  rcases List.mem_append.mp member with scalar | inside
  · rw [Slot.fields_number scalar]
    decide
  · obtain ⟨body, _, rfl⟩ := Option.map_eq_some_iff.mp (Option.mem_toList.mp inside)
    have := (body_number body).2
    dsimp only
    omega

/-- A body is told from any other by its field and its bytes. -/
theorem body_inj {b c : Body} (short : b.encode.2.length < 2 ^ 64)
    (same : b.encode = c.encode) : b = c := by
  have arm := sameArm_of_number (congrArg Prod.fst same)
  have bytes := congrArg Prod.snd same
  rw [body_encode, body_encode] at bytes
  rw [body_encode] at short
  have few : 1 + (bodySlots b).length < 2 ^ 60 := by
    cases b <;> simp [bodySlots]
  exact body_determined arm (slot_bodies_short short)
    (encodeSlots_inj few (body_alike arm) short bytes)

theorem body_short {c : Command} {body : Body} (present : c.body = some body) :
    body.encode.2.length ≤ c.encode.length := by
  rw [Command.encode, present, Option.elim_some, List.length_append, messageField_length]
  omega

/-- No two commands are written as the same bytes. -/
theorem command_distinct : Distinct Command.encode := by
  intro c d short same
  have short' := short
  rw [command_encode] at short'
  have fields := encodeFields_inj commandFields_number commandFields_number short'
    ((command_encode c).symm.trans (same.trans (command_encode d)))
  have inner (body : Body) (present : c.body = some body) : body.encode.2.length < 2 ^ 64 :=
    lt_of_le_of_lt (body_short present) short
  obtain ⟨id, body⟩ := c
  obtain ⟨id', body'⟩ := d
  have ids : id = id' := by
    simp only [commandFields, Slot.fields] at fields
    cases body <;> cases body' <;> split at fields <;> split at fields <;> simp_all
  subst ids
  have bodies := List.append_cancel_left fields
  cases body with
  | none =>
    cases body' with
    | none => rfl
    | some body' => simp at bodies
  | some body =>
    cases body' with
    | none => simp at bodies
    | some body' =>
      have arms : body.encode = body'.encode := by
        simpa [Prod.ext_iff] using bodies
      rw [body_inj (inner body rfl) arms]

end Messages

section Streams

open Classical in
/-- A decoder that inverts the encoding. There is one, since no two commands share their bytes. -/
noncomputable def decoding (bytes : Bytes) : Option Command :=
  if written : ∃ c : Command, c.encode.length < 2 ^ 64 ∧ c.encode = bytes then some written.choose
  else none

theorem decoding_encode {c : Command} (short : c.encode.length < 2 ^ 64) :
    decoding c.encode = some c := by
  have written : ∃ d : Command, d.encode.length < 2 ^ 64 ∧ d.encode = c.encode := ⟨c, short, rfl⟩
  rw [decoding, dif_pos written]
  obtain ⟨shorter, same⟩ := written.choose_spec
  rw [command_distinct _ _ shorter same]

/-- Frames the encoder accepts are all read back. -/
theorem accepted_readable {frames : List Frame} {encodings : List Bytes}
    (accepted : frames.mapM encodeFrame = .ok encodings) :
    ∀ frame ∈ frames, Readable decoding frame := by
  intro frame member
  obtain ⟨bytes, encoded⟩ := (mapM_encodeFrame accepted).2 frame member
  have fits := (encodeFrame_ok encoded).1
  rw [maxFrameSize] at fits
  exact ⟨⟨bytes, encoded⟩, decoding_encode (by omega)⟩

/-- The bytes of a stream determine the frames in it: a stream that begins another one carries
the frames the other begins with. -/
theorem stream_determines {frames others : List Frame} {encodings encodings' : List Bytes}
    (accepted : frames.mapM encodeFrame = .ok encodings)
    (accepted' : others.mapM encodeFrame = .ok encodings')
    (begins : encodings.flatten <+: encodings'.flatten) : frames <+: others := by
  obtain ⟨rest, whole⟩ := begins
  rw [(mapM_encodeFrame accepted).1, (mapM_encodeFrame accepted').1] at whole
  have first := (reading decoding).scan_append (accepted_readable accepted) rest
  have second := (reading decoding).scan_encoded (accepted_readable accepted')
  rw [whole, second] at first
  exact ⟨_, (congrArg Prod.fst first).symm⟩

def pings : List Frame := [⟨ping, []⟩, ⟨ping, []⟩]

theorem pings_accepted :
    pings.mapM encodeFrame = .ok [encoding ⟨ping, []⟩, encoding ⟨ping, []⟩] := by
  decide +kernel

/-- A produce with a key and a value, a fetch, and its reply with one record. -/
def traffic : List Frame :=
  [⟨⟨8, some (.produce ⟨"t", 0, [⟨1, 2, 7, 0⟩]⟩)⟩, [107, 1, 2]⟩,
    ⟨⟨9, some (.fetch ⟨"t", 0, 300, 10, 0⟩)⟩, []⟩,
    ⟨⟨9, some (.fetchResp ⟨[⟨300, 5, 7, 1, 2⟩], 300⟩)⟩, [107, 1, 2]⟩]

theorem stream_determines_traffic : traffic.take 2 <+: traffic := by
  have two : (traffic.take 2).mapM encodeFrame = .ok ((traffic.take 2).map encoding) := by
    decide +kernel
  have three : traffic.mapM encodeFrame = .ok (traffic.map encoding) := by decide +kernel
  have begins : ((traffic.take 2).map encoding).flatten <+: (traffic.map encoding).flatten := by
    decide +kernel
  exact stream_determines two three begins

variable {decode : Bytes → Option Command}

theorem slice_front {xs more : Bytes} {low high : Nat} (ordered : low ≤ high)
    (within : high ≤ xs.length) : slice (xs ++ more) low high = slice xs low high := by
  rw [slice, slice, List.drop_append_of_le_length (by omega),
    List.take_append_of_le_length (by rw [List.length_drop]; omega)]

/-- A frame that has been read is there whatever comes in behind it. -/
theorem readFrame_stable (buf : Bytes) (result : Frame × Nat) (more : Bytes)
    (read : readFrame decode buf = some result) : readFrame decode (buf ++ more) = some result := by
  simp only [readFrame] at read
  split at read
  · cases read
  next sized =>
    split at read
    · cases read
    next complete =>
      have size := @slice_front buf more 0 4 (by omega) (by omega)
      have body := @slice_front buf more 4 (4 + Client.fromBeBytes (slice buf 0 4)) (by omega)
        (by omega)
      have longer : ¬ (buf ++ more).length < 4 := by
        rw [List.length_append]
        omega
      have enough : ¬ (maxFrameSize < Client.fromBeBytes (slice buf 0 4) ∨
          (buf ++ more).length < 4 + Client.fromBeBytes (slice buf 0 4)) := by
        rw [List.length_append]
        omega
      simp only [readFrame, if_neg longer, size, if_neg enough, body]
      exact read

/-- Part of a frame does not read. -/
theorem readFrame_torn {frame : Frame} {bytes : Bytes} (encoded : encodeFrame frame = .ok bytes)
    {cut : Nat} (short : cut < bytes.length) : readFrame decode (bytes.take cut) = none := by
  obtain ⟨fits, shape⟩ := encodeFrame_ok encoded
  rw [maxFrameSize] at fits
  generalize total : 4 + frame.command.encode.length + frame.payload.length = totalSize at *
  have length : bytes.length = 4 + totalSize := by
    simp only [shape, List.length_append, FetchFrame.toBeBytes_length]
    omega
  have held : (bytes.take cut).length = cut := by
    rw [List.length_take]
    omega
  by_cases sized : cut < 4
  · rw [readFrame, held, if_pos sized]
  · have size : slice (bytes.take cut) 0 4 = toBeBytes (UInt32.ofNat totalSize) := by
      rw [slice_zero, List.take_take, Nat.min_eq_left (by omega), shape,
        List.take_left' (FetchFrame.toBeBytes_length _)]
    have incomplete : maxFrameSize < totalSize ∨ cut < 4 + totalSize := .inr (by omega)
    simp only [readFrame, held, if_neg sized, size, fromBeBytes_toBeBytes (show totalSize < 2 ^ 32 by omega),
      if_pos incomplete]

/-- However the bytes of a stream of frames are cut into chunks, and wherever they break off, the
reader has handed on the frames that came in whole, in their order, and holds back the rest. -/
theorem reader_hands_whole {frames : List Frame} {encodings chunks : List Bytes}
    (accepted : frames.mapM encodeFrame = .ok encodings)
    (inverse : ∀ frame ∈ frames, decode frame.command.encode = some frame.command)
    (arrived : chunks.flatten <+: encodings.flatten) :
    chunks.foldl (Reader.feed (readFrame decode)) ⟨[], []⟩ =
      ⟨chunks.flatten.drop ((fitting encoding chunks.flatten.length frames).flatMap encoding).length,
        fitting encoding chunks.flatten.length frames⟩ := by
  obtain ⟨joined, all⟩ := mapM_encodeFrame accepted
  have readable : ∀ frame ∈ frames, Readable decode frame := fun frame member =>
    ⟨all frame member, inverse frame member⟩
  have torn (frame : Frame) (cut : Nat) (readable : Readable decode frame)
      (short : cut < (encoding frame).length) :
      readFrame decode ((encoding frame).take cut) = none := by
    obtain ⟨bytes, encoded⟩ := readable.accepted
    rw [encoding_eq encoded] at short ⊢
    exact readFrame_torn encoded short
  have part : chunks.flatten = (frames.flatMap encoding).take chunks.flatten.length := by
    rw [← joined]
    exact List.prefix_iff_eq_take.mp arrived
  have scanned := (reading decode).scan_cut torn readable chunks.flatten.length
  rw [← part] at scanned
  rw [Reader.feed_chunks (reading decode) readFrame_stable, scanned]

/-- Two pings in three chunks; the second one breaks off. -/
theorem reader_hands_whole_pings :
    [[0, 0, 0, 8, 0], [0, 0, 4, 8, 7, 98, 0, 0, 0], [0, 8, 0]].foldl
      (Reader.feed (readFrame decodeTwo)) ⟨[], []⟩ = ⟨[0, 0, 0, 8, 0], [⟨ping, []⟩]⟩ := by
  refine (reader_hands_whole pings_accepted (fun frame member => ?_) ?_).trans (by decide +kernel)
  · simp only [pings, List.mem_cons, List.not_mem_nil, or_false, or_self] at member
    rw [member]
    decide +kernel
  · decide +kernel

end Streams

end Kafkrs.WireFormat
