import Kafkrs.Wire

/-! The Python client: the command each call sends, the bytes of one round trip, and what the
call makes of the response. A Python integer is an `Int`; protobuf setters refuse what does not
fit their field. -/
namespace Kafkrs.Client

open Lib Wal Wire
open Kafkrs.Produce (InRecordMeta)

structure FetchedRecord where
  offset : Int
  timestampNs : Int
  schemaId : Nat
  key : Bytes
  value : Bytes
  deriving DecidableEq, Repr

structure WireError where
  code : Int
  message : String
  deriving DecidableEq, Repr

section Requests

def uint32Field (x : Int) : Option UInt32 :=
  if 0 ≤ x ∧ x < 2 ^ 32 then some (UInt32.ofNat x.toNat) else none

def uint64Field (x : Int) : Option UInt64 :=
  if 0 ≤ x ∧ x < 2 ^ 64 then some (UInt64.ofNat x.toNat) else none

def int64Field (x : Int) : Option Int64 :=
  if -2 ^ 63 ≤ x ∧ x < 2 ^ 63 then some (Int64.ofInt x) else none

/-- The loop of `produce`: the metas it adds and the payload it extends. -/
def produceRecords (schemaId timestampNs : Int) :
    List (Bytes × Bytes) → Option (List InRecordMeta × Bytes)
  | [] => some ([], [])
  | (key, value) :: records => do
    let keyLen ← uint32Field key.length
    let valueLen ← uint32Field value.length
    let schema ← uint32Field schemaId
    let timestamp ← int64Field timestampNs
    let (metas, payload) ← produceRecords schemaId timestampNs records
    return (⟨keyLen, valueLen, schema, timestamp⟩ :: metas, key ++ value ++ payload)

inductive Call where
  | connect (clientId : String)
  | produce (topic : String) (partition : Int) (records : List (Bytes × Bytes))
      (schemaId timestampNs : Int)
  | fetch (topic : String) (partition fromOffset maxRecords maxWaitMs : Int)
  | createTopic (topic : String) (partitionCount : Int) (overrides : Option Wire.TopicConfigOverrides)
  | deleteTopic (name : String) (deleteData : Bool)
  | alterTopicConfig (topic : String) (overrides : Wire.TopicConfigOverrides)
  | listTopics
  | getMetadata (topics : List String)
  deriving DecidableEq, Repr

def Call.request : Call → Option (Body × Bytes)
  | .connect clientId => some (.connect ⟨1, clientId, []⟩, [])
  | .produce topic partition records schemaId timestampNs => do
    let partition ← uint32Field partition
    let (metas, payload) ← produceRecords schemaId timestampNs records
    return (.produce ⟨topic, partition, metas⟩, payload)
  | .fetch topic partition fromOffset maxRecords maxWaitMs => do
    let partition ← uint32Field partition
    let fromOffset ← int64Field fromOffset
    let maxRecords ← uint32Field maxRecords
    let maxWaitMs ← uint32Field maxWaitMs
    return (.fetch ⟨topic, partition, fromOffset, maxRecords, maxWaitMs⟩, [])
  | .createTopic topic partitionCount overrides => do
    let partitionCount ← uint32Field partitionCount
    return (.createTopic ⟨topic, partitionCount, overrides⟩, [])
  | .deleteTopic name deleteData => some (.deleteTopic ⟨name, some deleteData⟩, [])
  | .alterTopicConfig topic overrides => some (.alterTopicConfig ⟨topic, some overrides⟩, [])
  | .listTopics => some (.listTopics, [])
  | .getMetadata topics => some (.metadata topics, [])

end Requests

section Roundtrip

def writeRequest (cmdBytes payload : Bytes) : Except WireError Bytes :=
  let totalSize := 4 + cmdBytes.length + payload.length
  if maxFrameSize < 4 + totalSize then .error ⟨0, "frame too large for client"⟩
  else
    .ok (toBeBytes (UInt32.ofNat totalSize) ++ toBeBytes (UInt32.ofNat cmdBytes.length) ++ cmdBytes ++
      if payload.isEmpty then [] else payload)

def fromBeBytes (bytes : Bytes) : Nat := fromLeBytes bytes.reverse

/-- What `_roundtrip` makes of a response after its size. Python slices stop at the end, so the
declared size is not checked. -/
def parseResponse (decode : Bytes → Option Command) (body : Bytes) : Option (Command × Bytes) :=
  if body.length < 4 then none
  else
    let cmdSize := fromBeBytes (slice body 0 4)
    (decode (slice body 4 (4 + cmdSize))).map fun command => (command, body.drop (4 + cmdSize))

end Roundtrip

section Responses

/-- The name protobuf gives the arm that is set, as an f-string prints it. -/
def whichOneof : Option Body → String
  | none => "None"
  | some (.connect _) => "connect"
  | some (.connected _) => "connected"
  | some .ping => "ping"
  | some .pong => "pong"
  | some (.produce _) => "produce"
  | some (.produceResp _) => "produce_resp"
  | some (.fetch _) => "fetch"
  | some (.fetchResp _) => "fetch_resp"
  | some (.createTopic _) => "create_topic"
  | some .createTopicResp => "create_topic_resp"
  | some (.describeTopic _) => "describe_topic"
  | some (.describeTopicResp _) => "describe_topic_resp"
  | some .listTopics => "list_topics"
  | some (.listTopicsResp _) => "list_topics_resp"
  | some (.deleteTopic _) => "delete_topic"
  | some .deleteTopicResp => "delete_topic_resp"
  | some (.alterTopicConfig _) => "alter_topic_config"
  | some (.alterTopicConfigResp _) => "alter_topic_config_resp"
  | some (.metadata _) => "metadata"
  | some (.metadataResp _) => "metadata_resp"
  | some (.error _) => "error"

inductive Returned where
  | nothing
  | offsets (base last : Int)
  | fetched (records : List FetchedRecord) (hwm : Int)
  | overrides (merged : Wire.TopicConfigOverrides)
  | topics (names : List String)
  | metadata (resp : MetadataResponse)
  deriving DecidableEq, Repr

def sliceFetched (payload : Bytes) : Nat → List OutRecordMeta → List FetchedRecord
  | _, [] => []
  | cursor, m :: rest =>
    let kl := m.keyLen.toNat
    let vl := m.valueLen.toNat
    { offset := m.offset.toInt
      timestampNs := m.timestampNs.toInt
      schemaId := m.schemaId.toNat
      key := slice payload cursor (cursor + kl)
      value := slice payload (cursor + kl) (cursor + kl + vl) } ::
        sliceFetched payload (cursor + (kl + vl)) rest

def Call.content (payload : Bytes) : Call → Body → Option Returned
  | .connect _, .connected _ => some .nothing
  | .produce .., .produceResp resp => some (.offsets resp.baseOffset.toInt resp.lastOffset.toInt)
  | .fetch .., .fetchResp resp =>
    some (.fetched (sliceFetched payload 0 resp.records) resp.hwm.toInt)
  | .createTopic .., .createTopicResp => some .nothing
  | .deleteTopic .., .deleteTopicResp => some .nothing
  | .alterTopicConfig .., .alterTopicConfigResp merged => some (.overrides (merged.getD {}))
  | .listTopics, .listTopicsResp topics => some (.topics topics)
  | .getMetadata _, .metadataResp resp => some (.metadata resp)
  | _, _ => none

def Call.unexpected (body : Option Body) : Call → String
  | .connect _ => "unexpected response to Connect: " ++ whichOneof body
  | _ => "unexpected response: " ++ whichOneof body

def Call.finish (call : Call) (resp : Command) (payload : Bytes) : Except WireError Returned :=
  match resp.body with
  | some (.error e) => .error ⟨e.code.toInt, e.message⟩
  | body =>
    match body.bind (call.content payload) with
    | none => .error ⟨0, call.unexpected body⟩
    | some returned =>
      match body with
      | some (.connected resp) =>
        if resp.protocolVersion ≠ 1 then
          .error ⟨0, "broker protocol_version=" ++ toString resp.protocolVersion ++ "; client=1"⟩
        else .ok returned
      | _ => .ok returned

end Responses

end Kafkrs.Client
