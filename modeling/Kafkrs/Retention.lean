import Kafkrs.Manifest

/-! Retention policy: which leading segments of a manifest a pass evicts. -/
namespace Kafkrs.Retention

/-- Two's-complement wrap of a signed 64-bit result, also the cast `u64 as i64`. -/
def wrapI64 (x : Int) : Int := x.bmod (2 ^ 64)

def saturatingMulI64 (x y : Int) : Int := max (-2 ^ 63) (min (2 ^ 63 - 1) (x * y))

/-- The eviction loop: `overSizeBy` is what the remaining segments exceed the cap by. -/
def evictLoop (timeCutoffNs : Option Int) : Int → List SegmentEntry → List SegmentEntry
  | _, [] => []
  | overSizeBy, seg :: rest =>
    let timeSaysEvict := timeCutoffNs.any (fun cutoff => decide (seg.lastTimestampNs.toInt < cutoff))
    let sizeSaysEvict := decide (0 < overSizeBy)
    if timeSaysEvict || sizeSaysEvict then
      seg :: evictLoop timeCutoffNs (wrapI64 (overSizeBy - wrapI64 seg.byteSize)) rest
    else []

/-- The segments to evict at `nowNs`. The tail segment is never a candidate. -/
def evaluateEviction (manifest : Manifest) (cfg : ResolvedTopicConfig) (nowNs : Int) :
    List SegmentEntry :=
  if manifest.segments.length ≤ 1 then []
  else
    let timeCutoffNs :=
      if cfg.retentionMs < 0 then none
      else some (wrapI64 (nowNs - saturatingMulI64 cfg.retentionMs 1000000))
    let totalBytes : Nat := (manifest.segments.map (·.byteSize)).sum % 2 ^ 64
    let overSizeBy :=
      if cfg.retentionBytes < 0 then 0 else wrapI64 (wrapI64 totalBytes - cfg.retentionBytes)
    evictLoop timeCutoffNs overSizeBy manifest.segments.dropLast

def retain (manifest : Manifest) (evict : List SegmentEntry) : Manifest :=
  ⟨manifest.segments.filter (fun s => !(evict.map (·.objectKey)).any (fun k => k == s.objectKey))⟩

theorem evictLoop_front (cutoff : Option Int) (excess : Int) (segments : List SegmentEntry) :
    evictLoop cutoff excess segments <+: segments := by
  induction segments generalizing excess with
  | nil => exact List.prefix_rfl
  | cons seg rest ih =>
    simp only [evictLoop]
    split
    · exact (List.prefix_cons_inj seg).mpr (ih _)
    · exact List.nil_prefix

theorem evaluateEviction_front (manifest : Manifest) (cfg : ResolvedTopicConfig) (now : Int) :
    evaluateEviction manifest cfg now <+: manifest.segments.dropLast := by
  unfold evaluateEviction
  split
  · exact List.nil_prefix
  · exact evictLoop_front _ _ _

/-- With both limits switched off a pass evicts nothing. -/
theorem evaluateEviction_disabled (manifest : Manifest) {cfg : ResolvedTopicConfig} (now : Int)
    (time : cfg.retentionMs < 0) (size : cfg.retentionBytes < 0) :
    evaluateEviction manifest cfg now = [] := by
  unfold evaluateEviction
  split
  · rfl
  · cases manifest.segments.dropLast <;> rfl

/-- Under distinct object keys, removing an evicted prefix leaves the other entries in order. -/
theorem retain_front {manifest : Manifest} {evict kept : List SegmentEntry}
    (ordered : manifest.Ordered) (split : manifest.segments = evict ++ kept) :
    retain manifest evict = ⟨kept⟩ := by
  have bases := ordered.bases
  rw [split] at bases
  have keyed (s : SegmentEntry) (member : s ∈ evict ++ kept) :
      s.objectKey = segmentName s.baseOffset := ordered.keys s (split ▸ member)
  have gone : ∀ s ∈ evict, (evict.map (·.objectKey)).any (fun k => k == s.objectKey) = true := by
    intro s member
    simp only [List.any_map, List.any_eq_true]
    exact ⟨s, member, by simp⟩
  have stays : ∀ s ∈ kept, (evict.map (·.objectKey)).any (fun k => k == s.objectKey) = false := by
    intro s member
    simp only [List.any_map, List.any_eq_false]
    intro t evicted same
    have less := (List.pairwise_append.mp bases).2.2 t evicted s member
    have keys : t.objectKey = s.objectKey := by simpa using same
    rw [keyed t (by simp [evicted]), keyed s (by simp [member])] at keys
    exact absurd (segmentName_injective keys) (ne_of_lt less)
  rw [retain, split, List.filter_append,
    List.filter_eq_nil_iff.mpr (fun s member => by simp [gone s member]),
    List.filter_eq_self.mpr (fun s member => by simp [stays s member]), List.nil_append]

end Kafkrs.Retention
