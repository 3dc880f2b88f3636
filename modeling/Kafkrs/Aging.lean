import Kafkrs.Eviction
import Kafkrs.UploadLog

/-! The age of a segment against the ages of its records. A pass goes by the timestamp of the
last record, which says nothing of those before it when producers choose them freely. -/
namespace Kafkrs.Aging

open Lib Retention Eviction UploadLog

def recordsOf (store : Store) (seg : SegmentEntry) : List Record :=
  (store.objects[seg.baseOffset]?).getD []

section Ages

variable (cfg : ResolvedTopicConfig) (now : Int)

/-- Not older than the configured age. -/
def Young (r : Record) : Prop := now - cfg.retentionMs * 10 ^ 6 ≤ r.timestampNs.toInt

/-- Ending in a record from before the cutoff of the pass. -/
def LastOld (records : List Record) : Prop :=
  ∃ last, records.getLast? = some last ∧
    last.timestampNs.toInt < now - min (cfg.retentionMs * 10 ^ 6) (2 ^ 63 - 1)

/-- Segment `i` is not the tail, and it and all segments before it end in an old record. -/
def Exposed (store : Store) (i : Nat) : Prop :=
  i + 1 < store.manifest.segments.length ∧
    ∀ j ≤ i, ∀ seg, store.manifest.segments[j]? = some seg → LastOld cfg now (recordsOf store seg)

end Ages

variable {segmentSize : List Record → Nat} {start : Int} {s next : UploadLog.State}
  {cfg : ResolvedTopicConfig} {now : Int}

def Dated (batch : SealedBatch) : Prop :=
  ∃ last, batch.records.getLast? = some last ∧ batch.lastTimestampNs = last.timestampNs

theorem ofRecords_dated (base : Int) (first : Record) (rest : List Record) :
    Dated (.ofRecords base first rest) :=
  ⟨_, List.getLast?_cons, rfl⟩

theorem send_handed {msg : UploaderMsg} (sent : send msg s = some next) : next.handed = s.handed := by
  obtain ⟨u, _, rfl⟩ := Option.map_eq_some_iff.mp sent
  rfl

theorem step_dated {action : UploadLog.Action} (dated : ∀ batch ∈ s.handed, Dated batch)
    (taken : UploadLog.step segmentSize start action s = some next) :
    ∀ batch ∈ next.handed, Dated batch := by
  cases action with
  | handOver first rest =>
    simp only [UploadLog.step] at taken
    split at taken
    · rw [send_handed taken]
      intro batch member
      rcases List.mem_append.mp member with old | new
      · exact dated batch old
      · rw [List.mem_singleton.mp new]
        exact ofRecords_dated _ first rest
    · contradiction
  | repeatUpload index =>
    obtain ⟨batch, _, sent⟩ := Option.bind_eq_some_iff.mp taken
    rwa [send_handed sent]
  | retentionKick => rwa [send_handed taken]
  | updateConfig cfg => rwa [send_handed taken]
  | uploader now outcome =>
    obtain ⟨u, _, mapped⟩ := Option.bind_eq_some_iff.mp taken
    obtain ⟨effect, _, rfl⟩ := Option.map_eq_some_iff.mp mapped
    exact dated
  | crash =>
    obtain ⟨u, _, rfl⟩ := Option.map_eq_some_iff.mp taken
    exact dated
  | restart cfg =>
    simp only [UploadLog.step] at taken
    split at taken
    · cases taken
      exact dated
    · contradiction

/-- Every listed segment carries the timestamp of the last record in its object. -/
theorem listed_dated {schedule : List UploadLog.Action}
    (ran : (machine segmentSize start).execute schedule (machine segmentSize start).initial = some s) :
    ∀ seg ∈ s.store.manifest.segments, ∃ last, (recordsOf s.store seg).getLast? = some last ∧
      seg.lastTimestampNs = last.timestampNs := by
  have dated := @Machine.execute_invariant _ _ (machine segmentSize start) (fun _ _ => True)
    (fun s => ∀ batch ∈ s.handed, Dated batch) (fun _ _ _ kept _ taken => step_dated kept taken)
    _ _ _ (by intro batch member; cases member) (Machine.along_true schedule _) ran
  intro seg member
  obtain ⟨batch, handed, same, object⟩ := (initial_invariant.run ran).1.sound.listed seg member
  obtain ⟨last, ending, stamp⟩ := dated batch handed
  have base : seg.baseOffset = batch.baseOffset := by rw [same]; rfl
  have stamped : seg.lastTimestampNs = batch.lastTimestampNs := by rw [same]; rfl
  exact ⟨last, by rw [recordsOf, base, object, Option.getD_some, ending], stamped.trans stamp⟩

theorem lastOld_iff {store : Store} {seg : SegmentEntry} (aged : 0 ≤ cfg.retentionMs)
    (dated : ∃ last, (recordsOf store seg).getLast? = some last ∧
      seg.lastTimestampNs = last.timestampNs) :
    LastOld cfg now (recordsOf store seg) ↔ Expired cfg now seg := by
  obtain ⟨last, ending, stamp⟩ := dated
  unfold LastOld Expired
  rw [stamp]
  constructor
  · rintro ⟨other, ending', old⟩
    obtain rfl := Option.some.inj (ending.symm.trans ending')
    exact ⟨aged, old⟩
  · rintro ⟨_, old⟩
    exact ⟨last, ending, old⟩

/-- Under the time policy alone, the segments evicted are the exposed ones. -/
theorem evicted_iff_exposed {store : Store} (range : InRange cfg now) (uncapped : cfg.retentionBytes = -1)
    (aged : 0 ≤ cfg.retentionMs) (small : bytes store.manifest.segments < 2 ^ 63)
    (dated : ∀ seg ∈ store.manifest.segments, ∃ last, (recordsOf store seg).getLast? = some last ∧
      seg.lastTimestampNs = last.timestampNs) :
    ∃ k, evaluateEviction store.manifest cfg now = store.manifest.segments.take k ∧
      ∀ i, i < k ↔ Exposed cfg now store i := by
  obtain ⟨k, ⟨stops, least⟩, evicted, _⟩ := evaluateEviction_least range small
  refine ⟨k, evicted, fun i => ⟨fun inside => ?_, fun ⟨front, old⟩ => ?_⟩⟩
  · have running : ∀ j ≤ i, ¬ Stops store.manifest cfg now j := by
      intro j before stop
      have := least stop
      omega
    have unstopped : ¬ store.manifest.segments.length - 1 ≤ i :=
      fun tail => running i (Nat.le_refl i) (.inl tail)
    refine ⟨by omega, fun j before seg found => ?_⟩
    rw [lastOld_iff aged (dated seg (List.mem_of_getElem? found))]
    by_contra young
    refine running j before (.inr ⟨seg, found, young, ?_⟩)
    rintro ⟨capped, _⟩
    omega
  · by_contra outside
    rcases stops with tail | ⟨seg, found, young, _⟩
    · omega
    · apply young
      rw [← lastOld_iff aged (dated seg (List.mem_of_getElem? found))]
      exact old k (Nat.le_of_not_lt outside) seg found

/-- A pass under the time policy alone evicts no young record exactly when no exposed segment
holds one. -/
theorem young_kept_iff {schedule : List UploadLog.Action}
    (ran : (machine segmentSize start).execute schedule (machine segmentSize start).initial = some s)
    (range : InRange cfg now) (uncapped : cfg.retentionBytes = -1) (aged : 0 ≤ cfg.retentionMs)
    (small : bytes s.store.manifest.segments < 2 ^ 63) :
    (∀ seg ∈ evaluateEviction s.store.manifest cfg now,
        ∀ r ∈ recordsOf s.store seg, ¬ Young cfg now r) ↔
      ∀ i, Exposed cfg now s.store i → ∀ seg, s.store.manifest.segments[i]? = some seg →
        ∀ r ∈ recordsOf s.store seg, ¬ Young cfg now r := by
  obtain ⟨k, evicted, exposed⟩ := evicted_iff_exposed range uncapped aged small (listed_dated ran)
  rw [evicted]
  constructor
  · intro kept i open_ seg found
    apply kept
    apply List.mem_of_getElem? (i := i)
    rw [List.getElem?_take_of_lt ((exposed i).mpr open_), found]
  · intro kept seg member
    obtain ⟨i, found⟩ := List.mem_iff_getElem?.mp member
    rw [List.getElem?_take] at found
    split at found
    next inside => exact kept i ((exposed i).mp inside) seg found
    next => cases found

section Sample

def millisecond : ResolvedTopicConfig := ⟨8, 1000, 1024, 1024, 5, 1024, 1, 500, 1, -1⟩

def stampedAt (offset : Int) (timestamp : Int64) : Record := ⟨offset, timestamp, 7, [], [1]⟩

/-- Two uploads; the first segment ends in the older of its two records. -/
def unorderedRun : List UploadLog.Action :=
  [.restart millisecond, .handOver (stampedAt 0 10000000) [stampedAt 1 5], .handOver (stampedAt 2 9500000) []] ++
    List.replicate 9 (.uploader 0 .ok)

/-- A producer's older timestamp at the end of a segment takes a young record along. -/
theorem young_evicted_unorderedRun : ∃ s u,
    (machine (100 * ·.length) 0).execute unorderedRun (machine (100 * ·.length) 0).initial = some s ∧
      s.uploader = some u ∧ u.phase = .retention ∧ u.cfg = millisecond ∧
      ∃ seg ∈ evaluateEviction s.store.manifest u.cfg 10000000,
        stampedAt 0 10000000 ∈ recordsOf s.store seg ∧
          Young u.cfg 10000000 (stampedAt 0 10000000) := by
  have runs : ((machine (100 * ·.length) 0).execute unorderedRun
      (machine (100 * ·.length) 0).initial).any (fun s => s.uploader.any (fun u =>
        decide (u.phase = .retention ∧ u.cfg = millisecond ∧
          ∃ seg ∈ evaluateEviction s.store.manifest millisecond 10000000,
            stampedAt 0 10000000 ∈ recordsOf s.store seg))) = true := by decide +kernel
  obtain ⟨s, ran, working⟩ := Option.any_eq_true _ _ |>.mp runs
  obtain ⟨u, running, shape⟩ := Option.any_eq_true _ _ |>.mp working
  obtain ⟨phase, cfg, seg, evicted, inside⟩ := of_decide_eq_true shape
  refine ⟨s, u, ran, running, phase, cfg, seg, cfg ▸ evicted, inside, ?_⟩
  have young : (10000000 : Int) - 1 * 10 ^ 6 ≤ 10000000 := by decide
  rw [cfg]
  exact young

/-- The first of two uploads ages out, and nothing young with it. -/
def orderedRun : List UploadLog.Action :=
  [.restart millisecond, .handOver (stampedAt 0 5) [stampedAt 1 6], .handOver (stampedAt 2 9500000) []] ++
    List.replicate 9 (.uploader 0 .ok)

theorem young_kept_iff_orderedRun : ∃ s,
    (machine (100 * ·.length) 0).execute orderedRun (machine (100 * ·.length) 0).initial = some s ∧
      (evaluateEviction s.store.manifest millisecond 10000000).map (·.baseOffset) = [0] ∧
      ∀ i, Exposed millisecond 10000000 s.store i → ∀ seg, s.store.manifest.segments[i]? = some seg →
        ∀ r ∈ recordsOf s.store seg, ¬ Young millisecond 10000000 r := by
  have runs : ((machine (100 * ·.length) 0).execute orderedRun
      (machine (100 * ·.length) 0).initial).any (fun s : UploadLog.State =>
        decide (bytes s.store.manifest.segments = 300 ∧
          (evaluateEviction s.store.manifest millisecond 10000000).map (·.baseOffset) = [0] ∧
          ∀ seg ∈ evaluateEviction s.store.manifest millisecond 10000000,
            ∀ r ∈ recordsOf s.store seg, r.timestampNs.toInt < 10000000 - 1 * 10 ^ 6)) = true := by
    decide +kernel
  obtain ⟨s, ran, facts⟩ := Option.any_eq_true _ _ |>.mp runs
  obtain ⟨total, evicted, old⟩ := of_decide_eq_true facts
  have small : bytes s.store.manifest.segments < 2 ^ 63 := by
    rw [total]
    decide
  have range : InRange millisecond 10000000 := ⟨by decide, by decide, by decide, by decide⟩
  refine ⟨s, ran, evicted, (young_kept_iff ran range rfl (by decide) small).mp fun seg member r inside => ?_⟩
  exact not_le.mpr (old seg member r inside)

end Sample

end Kafkrs.Aging
