import Kafkrs.Fetcher
import Kafkrs.Lib.Proto
import Kafkrs.Produce

/-! The wire protocol: commands as protobuf messages, and the frames that carry them with the raw
bytes of keys and values. Field numbers are those of `v1.proto`. -/
namespace Kafkrs.Wire

open Lib Lib.Proto
open Kafkrs.Produce (InRecordMeta)

inductive ErrorCode where
  | unspecified
  | unsupportedProtocolVersion
  | handshakeRequired
  | alreadyConnected
  | authFailed
  | malformedFrame
  | frameTooLarge
  | invalidCommand
  | unknownTopic
  | unknownPartition
  | offsetOutOfRange
  | recordTooLarge
  | keyTooLarge
  | brokerNotReady
  | invalidConfig
  | topicAlreadyExists
  | invalidTopicName
  | invalidPartitionCount
  | internal
  deriving DecidableEq, Repr

def ErrorCode.toInt32 : ErrorCode → Int32
  | .unspecified => 0
  | .unsupportedProtocolVersion => 100
  | .handshakeRequired => 101
  | .alreadyConnected => 102
  | .authFailed => 103
  | .malformedFrame => 104
  | .frameTooLarge => 105
  | .invalidCommand => 106
  | .unknownTopic => 200
  | .unknownPartition => 201
  | .offsetOutOfRange => 202
  | .recordTooLarge => 203
  | .keyTooLarge => 204
  | .brokerNotReady => 205
  | .invalidConfig => 207
  | .topicAlreadyExists => 300
  | .invalidTopicName => 301
  | .invalidPartitionCount => 302
  | .internal => 900

section Messages

structure ConnectRequest where
  protocolVersion : UInt32
  clientId : String
  authData : Bytes
  deriving DecidableEq, Repr

structure ConnectedResponse where
  protocolVersion : UInt32
  brokerId : String
  clusterId : String
  deriving DecidableEq, Repr

structure ProduceRequest where
  topic : String
  partition : UInt32
  records : List InRecordMeta
  deriving DecidableEq, Repr

structure ProduceResponse where
  baseOffset : Int64
  lastOffset : Int64
  hwm : Int64
  deriving DecidableEq, Repr

structure FetchRequest where
  topic : String
  partition : UInt32
  fromOffset : Int64
  maxRecords : UInt32
  maxWaitMs : UInt32
  deriving DecidableEq, Repr

structure OutRecordMeta where
  offset : Int64
  timestampNs : Int64
  schemaId : UInt32
  keyLen : UInt32
  valueLen : UInt32
  deriving DecidableEq, Repr

structure FetchResponse where
  records : List OutRecordMeta
  hwm : Int64
  deriving DecidableEq, Repr

/-- As in the registry's config but for the record count, which is a `usize` there. -/
structure TopicConfigOverrides where
  segmentSizeBytes : Option UInt64 := none
  segmentSealTimeMs : Option UInt64 := none
  maxKeySizeBytes : Option UInt32 := none
  maxValueSizeBytes : Option UInt32 := none
  groupCommitTimeMs : Option UInt64 := none
  groupCommitSizeBytes : Option UInt64 := none
  groupCommitRecordCount : Option UInt32 := none
  maxFetchWaitMs : Option UInt64 := none
  retentionMs : Option Int64 := none
  retentionBytes : Option Int64 := none
  deriving DecidableEq, Repr

structure CreateTopicRequest where
  topic : String
  partitionCount : UInt32
  overrides : Option TopicConfigOverrides
  deriving DecidableEq, Repr

structure DescribeTopicResponse where
  topic : String
  partitionCount : UInt32
  createdAtNs : Int64
  config : Option TopicConfigOverrides
  deriving DecidableEq, Repr

structure DeleteTopicRequest where
  topic : String
  deleteData : Option Bool
  deriving DecidableEq, Repr

structure AlterTopicConfigRequest where
  topic : String
  overrides : Option TopicConfigOverrides
  deriving DecidableEq, Repr

structure BrokerInfo where
  brokerId : String
  host : String
  port : UInt32
  deriving DecidableEq, Repr

structure PartitionMetadata where
  partition : UInt32
  leaderBrokerId : String
  deriving DecidableEq, Repr

structure TopicMetadata where
  topic : String
  errorCode : UInt32
  topicUuid : String
  partitions : List PartitionMetadata
  deriving DecidableEq, Repr

structure MetadataResponse where
  clusterId : String
  brokers : List BrokerInfo
  topics : List TopicMetadata
  deriving DecidableEq, Repr

structure ErrorResponse where
  code : Int32
  message : String
  deriving DecidableEq, Repr

inductive Body where
  | connect (req : ConnectRequest)
  | connected (resp : ConnectedResponse)
  | ping
  | pong
  | produce (req : ProduceRequest)
  | produceResp (resp : ProduceResponse)
  | fetch (req : FetchRequest)
  | fetchResp (resp : FetchResponse)
  | createTopic (req : CreateTopicRequest)
  | createTopicResp
  | describeTopic (topic : String)
  | describeTopicResp (resp : DescribeTopicResponse)
  | listTopics
  | listTopicsResp (topics : List String)
  | deleteTopic (req : DeleteTopicRequest)
  | deleteTopicResp
  | alterTopicConfig (req : AlterTopicConfigRequest)
  | alterTopicConfigResp (overrides : Option TopicConfigOverrides)
  | metadata (topics : List String)
  | metadataResp (resp : MetadataResponse)
  | error (resp : ErrorResponse)
  deriving DecidableEq, Repr

/-- An unknown body decodes as none. -/
structure Command where
  correlationId : UInt64
  body : Option Body
  deriving DecidableEq, Repr

structure Frame where
  command : Command
  payload : Bytes
  deriving DecidableEq, Repr

end Messages

section Encoding

def utf8 (s : String) : Bytes := s.toUTF8.data.toList

def int64 (x : Int64) : UInt64 := x.toUInt64

def int32 (x : Int32) : UInt64 := x.toInt64.toUInt64

def InRecordMeta.encode (m : InRecordMeta) : Bytes :=
  scalarField 1 m.keyLen.toUInt64 ++ scalarField 2 m.valueLen.toUInt64 ++
    scalarField 3 m.schemaId.toUInt64 ++ scalarField 4 (int64 m.timestampNs)

def OutRecordMeta.encode (m : OutRecordMeta) : Bytes :=
  scalarField 1 (int64 m.offset) ++ scalarField 2 (int64 m.timestampNs) ++
    scalarField 3 m.schemaId.toUInt64 ++ scalarField 4 m.keyLen.toUInt64 ++
    scalarField 5 m.valueLen.toUInt64

def overridesEncode (o : TopicConfigOverrides) : Bytes :=
  optionalField 1 o.segmentSizeBytes ++ optionalField 2 o.segmentSealTimeMs ++
    optionalField 3 (o.maxKeySizeBytes.map (·.toUInt64)) ++
    optionalField 4 (o.maxValueSizeBytes.map (·.toUInt64)) ++
    optionalField 5 o.groupCommitTimeMs ++ optionalField 6 o.groupCommitSizeBytes ++
    optionalField 7 (o.groupCommitRecordCount.map (·.toUInt64)) ++ optionalField 8 o.maxFetchWaitMs ++
    optionalField 9 (o.retentionMs.map int64) ++ optionalField 10 (o.retentionBytes.map int64)

def overridesField (field : Nat) (o : Option TopicConfigOverrides) : Bytes :=
  o.elim [] fun overrides => messageField field (overridesEncode overrides)

def BrokerInfo.encode (b : BrokerInfo) : Bytes :=
  bytesField 1 (utf8 b.brokerId) ++ bytesField 2 (utf8 b.host) ++ scalarField 3 b.port.toUInt64

def PartitionMetadata.encode (p : PartitionMetadata) : Bytes :=
  scalarField 1 p.partition.toUInt64 ++ bytesField 2 (utf8 p.leaderBrokerId)

def TopicMetadata.encode (t : TopicMetadata) : Bytes :=
  bytesField 1 (utf8 t.topic) ++ scalarField 2 t.errorCode.toUInt64 ++
    bytesField 3 (utf8 t.topicUuid) ++ repeatedField 4 (t.partitions.map PartitionMetadata.encode)

def Body.encode : Body → Nat × Bytes
  | .connect req =>
    (10, scalarField 1 req.protocolVersion.toUInt64 ++ bytesField 2 (utf8 req.clientId) ++
      bytesField 3 req.authData)
  | .connected resp =>
    (11, scalarField 1 resp.protocolVersion.toUInt64 ++ bytesField 2 (utf8 resp.brokerId) ++
      bytesField 3 (utf8 resp.clusterId))
  | .ping => (12, [])
  | .pong => (13, [])
  | .produce req =>
    (20, bytesField 1 (utf8 req.topic) ++ scalarField 2 req.partition.toUInt64 ++
      repeatedField 3 (req.records.map InRecordMeta.encode))
  | .produceResp resp =>
    (21, scalarField 1 (int64 resp.baseOffset) ++ scalarField 2 (int64 resp.lastOffset) ++
      scalarField 3 (int64 resp.hwm))
  | .fetch req =>
    (22, bytesField 1 (utf8 req.topic) ++ scalarField 2 req.partition.toUInt64 ++
      scalarField 3 (int64 req.fromOffset) ++ scalarField 4 req.maxRecords.toUInt64 ++
      scalarField 5 req.maxWaitMs.toUInt64)
  | .fetchResp resp =>
    (23, repeatedField 1 (resp.records.map OutRecordMeta.encode) ++ scalarField 2 (int64 resp.hwm))
  | .createTopic req =>
    (30, bytesField 1 (utf8 req.topic) ++ scalarField 2 req.partitionCount.toUInt64 ++
      overridesField 3 req.overrides)
  | .createTopicResp => (31, [])
  | .describeTopic topic => (32, bytesField 1 (utf8 topic))
  | .describeTopicResp resp =>
    (33, bytesField 1 (utf8 resp.topic) ++ scalarField 2 resp.partitionCount.toUInt64 ++
      scalarField 3 (int64 resp.createdAtNs) ++ overridesField 4 resp.config)
  | .listTopics => (34, [])
  | .listTopicsResp topics => (35, repeatedField 1 (topics.map utf8))
  | .deleteTopic req =>
    (50, bytesField 1 (utf8 req.topic) ++
      optionalField 2 (req.deleteData.map fun flag => if flag then 1 else 0))
  | .deleteTopicResp => (51, [])
  | .alterTopicConfig req =>
    (52, bytesField 1 (utf8 req.topic) ++ overridesField 2 req.overrides)
  | .alterTopicConfigResp overrides => (53, overridesField 1 overrides)
  | .metadata topics => (54, repeatedField 1 (topics.map utf8))
  | .metadataResp resp =>
    (55, bytesField 1 (utf8 resp.clusterId) ++ repeatedField 2 (resp.brokers.map BrokerInfo.encode) ++
      repeatedField 3 (resp.topics.map TopicMetadata.encode))
  | .error resp => (99, scalarField 1 (int32 resp.code) ++ bytesField 2 (utf8 resp.message))

def Command.encode (c : Command) : Bytes :=
  scalarField 1 c.correlationId ++ c.body.elim [] fun body => messageField body.encode.1 body.encode.2

inductive FrameError where
  | tooLarge (size : Nat)
  | malformed (reason : String)
  | prostError
  deriving DecidableEq, Repr

/-- Big-endian, as the two size fields are. -/
def toBeBytes (n : UInt32) : Bytes := (toLeBytes 4 n.toNat).reverse

/-- `usize` does not overflow on lengths of bytes in memory, so the checked sums are plain ones. -/
def encodeFrame (frame : Frame) : Except FrameError Bytes :=
  let command := frame.command.encode
  let totalSize := 4 + command.length + frame.payload.length
  let whole := totalSize + 4
  if maxFrameSize < whole then .error (.tooLarge whole)
  else
    .ok (toBeBytes (UInt32.ofNat totalSize) ++ toBeBytes (UInt32.ofNat command.length) ++ command ++
      frame.payload)

end Encoding

def makeError (correlationId : UInt64) (code : ErrorCode) (message : String) : Command :=
  ⟨correlationId, some (.error ⟨code.toInt32, message⟩)⟩

def fetchErrorCode : FetchError → ErrorCode
  | .unknownTopic => .unknownTopic
  | .unknownPartition => .unknownPartition
  | .offsetOutOfRange => .offsetOutOfRange
  | .brokerNotReady => .brokerNotReady

/-- What `handle_fetch` asks the fetcher for. -/
def FetchRequest.resolve (cfg : ResolvedTopicConfig) (req : FetchRequest) : Kafkrs.FetchRequest :=
  { fromOffset := req.fromOffset.toInt
    maxRecords := req.maxRecords.toNat
    maxWaitMs := min req.maxWaitMs.toNat cfg.maxFetchWaitMs }

def outMeta (r : Record) : OutRecordMeta :=
  { offset := Int64.ofInt r.offset
    timestampNs := r.timestampNs
    schemaId := r.schemaId
    keyLen := UInt32.ofNat r.key.length
    valueLen := UInt32.ofNat r.value.length }

def handleFetch (correlationId : UInt64) : Except FetchError Kafkrs.FetchResponse → Frame
  | .error e => ⟨makeError correlationId (fetchErrorCode e) "", []⟩
  | .ok resp =>
    { command := ⟨correlationId, some (.fetchResp ⟨resp.records.map outMeta, Int64.ofInt resp.hwm⟩)⟩
      payload := resp.records.flatMap fun r => r.key ++ r.value }

end Kafkrs.Wire
