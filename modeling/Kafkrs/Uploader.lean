import Kafkrs.PartitionWriter
import Kafkrs.Retention

/-! The uploader actor and the partition's part of the object store. A segment object stands
for the records its Parquet bytes hold; `segmentSize` is the length of those bytes. -/
namespace Kafkrs

open Lib

/-- Segment objects by base offset, and the manifest object. -/
structure Store where
  objects : Dir (List Record)
  manifest : Manifest

inductive ControlMsg where
  | retentionKick
  | updateConfig (cfg : ResolvedTopicConfig)
  | shutdown
  deriving DecidableEq, Repr

inductive UploaderMsg where
  | upload (batch : SealedBatch)
  | control (msg : ControlMsg)
  deriving DecidableEq, Repr

/-- How an object-store call ended. A failed one may still have taken effect. -/
inductive Outcome where
  | ok
  | failed (applied : Bool)
  deriving DecidableEq, Repr

def Outcome.applied : Outcome → Bool
  | .ok => true
  | .failed applied => applied

namespace Uploader

inductive Phase where
  | recv
  /-- `upload_once`: the PUT of the segment object. -/
  | putSegment (batch : SealedBatch)
  /-- `upload_once`: the manifest read, and its PUT when the base is new. -/
  | putManifest (batch : SealedBatch)
  /-- Sending `SegmentDurable`. -/
  | notify (batch : SealedBatch)
  /-- `retention_pass` up to the manifest PUT. -/
  | retention
  /-- `retention_pass`: the DELETEs still to do. -/
  | delete (evict : List SegmentEntry)
  | stopped
  deriving DecidableEq, Repr

end Uploader

structure Uploader where
  cfg : ResolvedTopicConfig
  rx : List UploaderMsg
  phase : Uploader.Phase

namespace Uploader

def new (cfg : ResolvedTopicConfig) : Uploader := ⟨cfg, [], .recv⟩

def entry (segmentSize : List Record → Nat) (batch : SealedBatch) : SegmentEntry :=
  { baseOffset := batch.baseOffset
    lastOffset := batch.lastOffset
    baseTimestampNs := batch.baseTimestampNs
    lastTimestampNs := batch.lastTimestampNs
    recordCount := batch.records.length
    byteSize := segmentSize batch.records
    objectKey := segmentName batch.baseOffset }

/-- What one step of the actor leaves: itself, the store, a completion it sent, and the
entries it took out of the manifest. -/
structure Effect where
  uploader : Uploader
  store : Store
  durable : List Int := []
  evicted : List SegmentEntry := []

def receive (u : Uploader) (st : Store) : Option Effect :=
  match u.rx with
  | [] => none
  | .upload batch :: rest => some { uploader := { u with rx := rest, phase := .putSegment batch }, store := st }
  | .control .retentionKick :: rest => some { uploader := { u with rx := rest, phase := .retention }, store := st }
  | .control (.updateConfig cfg) :: rest => some { uploader := { u with rx := rest, cfg := cfg }, store := st }
  | .control .shutdown :: rest => some { uploader := { u with rx := rest, phase := .stopped }, store := st }

/-- One step at wall-clock `now`, with the store call of the step, if any, ending as `outcome`.
A failed upload call starts `upload_once` over; a failed retention call ends the pass, except
that a failed DELETE is only logged. -/
def step (segmentSize : List Record → Nat) (now : Int) (outcome : Outcome) (u : Uploader)
    (st : Store) : Option Effect :=
  match u.phase with
  | .recv => u.receive st
  | .putSegment batch =>
    some
      { uploader := { u with phase := if outcome = .ok then .putManifest batch else .putSegment batch }
        store := if outcome.applied then
            { st with objects := st.objects.insert batch.baseOffset batch.records } else st }
  | .putManifest batch =>
    some
      { uploader := { u with phase := if outcome = .ok then .notify batch else .putSegment batch }
        store := if outcome.applied ∧ st.manifest.lists batch.baseOffset = false then
            { st with manifest := st.manifest.add (entry segmentSize batch) } else st }
  | .notify batch =>
    some { uploader := { u with phase := .retention }, store := st, durable := [batch.baseOffset] }
  | .retention =>
    let evict := Retention.evaluateEviction st.manifest u.cfg now
    if evict.isEmpty then some { uploader := { u with phase := .recv }, store := st }
    else
      some
        { uploader := { u with phase := if outcome = .ok then .delete evict else .recv }
          store := if outcome.applied then
              { st with manifest := Retention.retain st.manifest evict } else st
          evicted := if outcome.applied then evict else [] }
  | .delete [] => some { uploader := { u with phase := .recv }, store := st }
  | .delete (seg :: rest) =>
    some
      { uploader := { u with phase := .delete rest }
        store := if outcome.applied then
            { st with objects := st.objects.erase seg.baseOffset } else st }
  | .stopped => none

inductive Moved (segmentSize : List Record → Nat) (now : Int) (outcome : Outcome) (u : Uploader)
    (st : Store) : Effect → Prop
  | upload {batch : SealedBatch} {rest : List UploaderMsg} (idle : u.phase = .recv)
      (shape : u.rx = .upload batch :: rest) :
      Moved segmentSize now outcome u st
        { uploader := { u with rx := rest, phase := .putSegment batch }, store := st }
  | retentionKick {rest : List UploaderMsg} (idle : u.phase = .recv)
      (shape : u.rx = .control .retentionKick :: rest) :
      Moved segmentSize now outcome u st
        { uploader := { u with rx := rest, phase := .retention }, store := st }
  | updateConfig {cfg : ResolvedTopicConfig} {rest : List UploaderMsg} (idle : u.phase = .recv)
      (shape : u.rx = .control (.updateConfig cfg) :: rest) :
      Moved segmentSize now outcome u st { uploader := { u with rx := rest, cfg := cfg }, store := st }
  | shutdown {rest : List UploaderMsg} (idle : u.phase = .recv)
      (shape : u.rx = .control .shutdown :: rest) :
      Moved segmentSize now outcome u st
        { uploader := { u with rx := rest, phase := .stopped }, store := st }
  | putSegment {batch : SealedBatch} (busy : u.phase = .putSegment batch) :
      Moved segmentSize now outcome u st
        { uploader := { u with phase := if outcome = .ok then .putManifest batch else .putSegment batch }
          store := if outcome.applied then
              { st with objects := st.objects.insert batch.baseOffset batch.records } else st }
  | putManifest {batch : SealedBatch} (busy : u.phase = .putManifest batch) :
      Moved segmentSize now outcome u st
        { uploader := { u with phase := if outcome = .ok then .notify batch else .putSegment batch }
          store := if outcome.applied ∧ st.manifest.lists batch.baseOffset = false then
              { st with manifest := st.manifest.add (entry segmentSize batch) } else st }
  | notify {batch : SealedBatch} (busy : u.phase = .notify batch) :
      Moved segmentSize now outcome u st
        { uploader := { u with phase := .retention }, store := st, durable := [batch.baseOffset] }
  | spare (busy : u.phase = .retention)
      (nothing : (Retention.evaluateEviction st.manifest u.cfg now).isEmpty = true) :
      Moved segmentSize now outcome u st { uploader := { u with phase := .recv }, store := st }
  | evict {evict : List SegmentEntry} (busy : u.phase = .retention)
      (chosen : Retention.evaluateEviction st.manifest u.cfg now = evict) (some : evict.isEmpty = false) :
      Moved segmentSize now outcome u st
        { uploader := { u with phase := if outcome = .ok then .delete evict else .recv }
          store := if outcome.applied then
              { st with manifest := Retention.retain st.manifest evict } else st
          evicted := if outcome.applied then evict else [] }
  | deleted (busy : u.phase = .delete []) :
      Moved segmentSize now outcome u st { uploader := { u with phase := .recv }, store := st }
  | delete {seg : SegmentEntry} {rest : List SegmentEntry} (busy : u.phase = .delete (seg :: rest)) :
      Moved segmentSize now outcome u st
        { uploader := { u with phase := .delete rest }
          store := if outcome.applied then
              { st with objects := st.objects.erase seg.baseOffset } else st }

theorem step_moved {segmentSize : List Record → Nat} {now : Int} {outcome : Outcome} {u : Uploader}
    {st : Store} {effect : Effect} (stepped : u.step segmentSize now outcome st = some effect) :
    Moved segmentSize now outcome u st effect := by
  unfold step at stepped
  split at stepped
  next idle =>
    unfold receive at stepped
    split at stepped
    · cases stepped
    next shape =>
      cases stepped
      exact .upload idle shape
    next shape =>
      cases stepped
      exact .retentionKick idle shape
    next shape =>
      cases stepped
      exact .updateConfig idle shape
    next shape =>
      cases stepped
      exact .shutdown idle shape
  next busy =>
    cases stepped
    exact .putSegment busy
  next busy =>
    cases stepped
    exact .putManifest busy
  next busy =>
    cases stepped
    exact .notify busy
  next busy =>
    dsimp only at stepped
    split at stepped
    next nothing =>
      cases stepped
      exact .spare busy nothing
    next chosen =>
      cases stepped
      exact .evict busy rfl (Bool.not_eq_true _ |>.mp chosen)
  next busy =>
    cases stepped
    exact .deleted busy
  next busy =>
    cases stepped
    exact .delete busy
  · cases stepped

end Uploader
end Kafkrs
