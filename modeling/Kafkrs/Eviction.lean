import Kafkrs.Lib.Trim
import Kafkrs.Retention

/-! What a retention pass evicts, as a policy on the rest of the manifest: segments go from the
front until the first one is young enough and the rest small enough. -/
namespace Kafkrs.Eviction

open Lib Retention

def bytes (segments : List SegmentEntry) : Nat := (segments.map (·.byteSize)).sum

section Checked

def checkedI64 (x : Int) : Option Int := if -2 ^ 63 ≤ x ∧ x < 2 ^ 63 then some x else none

def checkedU64 (x : Nat) : Option Nat := if x < 2 ^ 64 then some x else none

/-- `evictLoop` where overflow panics instead of wrapping. The casts wrap either way. -/
def checkedEvictLoop (timeCutoffNs : Option Int) :
    Int → List SegmentEntry → Option (List SegmentEntry)
  | _, [] => some []
  | overSizeBy, seg :: rest =>
    let timeSaysEvict := timeCutoffNs.any (fun cutoff => decide (seg.lastTimestampNs.toInt < cutoff))
    let sizeSaysEvict := decide (0 < overSizeBy)
    if timeSaysEvict || sizeSaysEvict then do
      let overSizeBy ← checkedI64 (overSizeBy - wrapI64 seg.byteSize)
      let evict ← checkedEvictLoop timeCutoffNs overSizeBy rest
      return seg :: evict
    else some []

/-- `evaluate_eviction` where overflow panics. Of the running sum of byte sizes only the total
is tested, as the largest. -/
def checkedEvaluateEviction (manifest : Manifest) (cfg : ResolvedTopicConfig) (nowNs : Int) :
    Option (List SegmentEntry) :=
  if manifest.segments.length ≤ 1 then some []
  else do
    let timeCutoffNs ←
      (if cfg.retentionMs < 0 then some none
        else (checkedI64 (nowNs - saturatingMulI64 cfg.retentionMs 1000000)).map some)
    let totalBytes ← checkedU64 (manifest.segments.map (·.byteSize)).sum
    let overSizeBy ←
      (if cfg.retentionBytes < 0 then some 0
        else checkedI64 (wrapI64 totalBytes - cfg.retentionBytes))
    checkedEvictLoop timeCutoffNs overSizeBy manifest.segments.dropLast

end Checked

section Policy

variable (cfg : ResolvedTopicConfig) (now : Int)

def Expired (seg : SegmentEntry) : Prop :=
  0 ≤ cfg.retentionMs ∧
    seg.lastTimestampNs.toInt < now - min (cfg.retentionMs * 10 ^ 6) (2 ^ 63 - 1)

def Oversized (segments : List SegmentEntry) : Prop :=
  0 ≤ cfg.retentionBytes ∧ cfg.retentionBytes < bytes segments

instance (seg : SegmentEntry) : Decidable (Expired cfg now seg) :=
  inferInstanceAs (Decidable (_ ∧ _))

instance (segments : List SegmentEntry) : Decidable (Oversized cfg segments) :=
  inferInstanceAs (Decidable (_ ∧ _))

/-- Whether the policy is met by a manifest of these segments. -/
def keeps : List SegmentEntry → Bool
  | [] => true
  | seg :: rest => decide (¬ Expired cfg now seg ∧ ¬ Oversized cfg (seg :: rest))

/-- An `i64` configuration, and a clock after the epoch. -/
structure InRange : Prop where
  ms : cfg.retentionMs < 2 ^ 63
  bytes : cfg.retentionBytes < 2 ^ 63
  epoch : 0 ≤ now
  clock : now < 2 ^ 63

end Policy

theorem bytes_append (front back : List SegmentEntry) :
    bytes (front ++ back) = bytes front + bytes back := by
  simp [bytes]

theorem bytes_cons (seg : SegmentEntry) (rest : List SegmentEntry) :
    bytes (seg :: rest) = seg.byteSize + bytes rest := by
  simp [bytes]

theorem bytes_suffix {rest segments : List SegmentEntry} (behind : rest <:+ segments) :
    bytes rest ≤ bytes segments := by
  obtain ⟨front, rfl⟩ := behind
  rw [bytes_append]
  omega

theorem wrapI64_eq {x : Int} (low : -2 ^ 63 ≤ x) (high : x < 2 ^ 63) : wrapI64 x = x :=
  Int.bmod_eq_of_le (by omega) (by omega)

theorem checkedI64_eq {x : Int} (low : -2 ^ 63 ≤ x) (high : x < 2 ^ 63) : checkedI64 x = some x :=
  if_pos ⟨low, high⟩

theorem checkedU64_eq {x : Nat} (small : x < 2 ^ 64) : checkedU64 x = some x := if_pos small

def keepsBy (cutoff : Option Int) (limit : Int) : List SegmentEntry → Bool
  | [] => true
  | seg :: rest => !(cutoff.any (fun c => decide (seg.lastTimestampNs.toInt < c)) ||
      decide (0 < (bytes (seg :: rest) : Int) - limit))

/-- The running counter is what the remaining segments hold above the limit, so no round
overflows, and the loop trims the segments down to the tail. -/
theorem evictLoop_trim {cutoff : Option Int} {limit : Int} (low : 0 ≤ limit) (high : limit < 2 ^ 63)
    (tail : SegmentEntry) {segments : List SegmentEntry} (small : bytes (segments ++ [tail]) < 2 ^ 63) :
    checkedEvictLoop cutoff (bytes (segments ++ [tail]) - limit) segments =
        some (evictLoop cutoff (bytes (segments ++ [tail]) - limit) segments) ∧
      evictLoop cutoff (bytes (segments ++ [tail]) - limit) segments ++
        trim (keepsBy cutoff limit) (segments ++ [tail]) = segments ++ [tail] := by
  induction segments with
  | nil => exact ⟨rfl, rfl⟩
  | cons seg rest ih =>
    rw [List.cons_append] at small ⊢
    have more : rest ++ [tail] ≠ [] := by simp
    generalize rest ++ [tail] = later at *
    have total := bytes_cons seg later
    obtain ⟨checked, trimmed⟩ := ih (by omega)
    have cast : wrapI64 seg.byteSize = seg.byteSize := wrapI64_eq (by omega) (by omega)
    have spent : ((bytes (seg :: later) : Int) - limit) - seg.byteSize = bytes later - limit := by
      omega
    have wrapped : wrapI64 ((bytes later : Int) - limit) = bytes later - limit :=
      wrapI64_eq (by omega) (by omega)
    have fitting : checkedI64 ((bytes later : Int) - limit) = some (bytes later - limit) :=
      checkedI64_eq (by omega) (by omega)
    rw [trim_cons more]
    simp only [checkedEvictLoop, evictLoop, cast, spent, wrapped, fitting]
    rcases Bool.eq_false_or_eq_true (cutoff.any (fun c => decide (seg.lastTimestampNs.toInt < c)) ||
        decide (0 < (bytes (seg :: later) : Int) - limit)) with evicted | kept
    · have refused : keepsBy cutoff limit (seg :: later) = false := by rw [keepsBy, evicted]; rfl
      rw [refused]
      simp only [evicted, ↓reduceIte, checked, Option.bind_eq_bind, Option.bind_some,
        Option.pure_def, Bool.false_eq_true, List.cons_append, trimmed, and_self]
    · have accepted : keepsBy cutoff limit (seg :: later) = true := by rw [keepsBy, kept]; rfl
      rw [accepted]
      simp only [kept, ↓reduceIte, Bool.false_eq_true, List.nil_append, and_self]

section Bounds

variable {cfg : ResolvedTopicConfig} {now : Int}

/-- The time policy's cutoff, without overflow. -/
def cutoffOf (cfg : ResolvedTopicConfig) (now : Int) : Option Int :=
  if cfg.retentionMs < 0 then none else some (now - min (cfg.retentionMs * 10 ^ 6) (2 ^ 63 - 1))

def limitOf (cfg : ResolvedTopicConfig) (segments : List SegmentEntry) : Int :=
  if cfg.retentionBytes < 0 then bytes segments else cfg.retentionBytes

theorem cutoff_eq (range : InRange cfg now) :
    (if cfg.retentionMs < 0 then none
      else some (wrapI64 (now - saturatingMulI64 cfg.retentionMs 1000000))) = cutoffOf cfg now ∧
    (if cfg.retentionMs < 0 then some none
      else (checkedI64 (now - saturatingMulI64 cfg.retentionMs 1000000)).map some) =
      some (cutoffOf cfg now) := by
  obtain ⟨_, _, epoch, clock⟩ := range
  unfold cutoffOf
  split
  · exact ⟨rfl, rfl⟩
  · have product : saturatingMulI64 cfg.retentionMs 1000000 =
        min (cfg.retentionMs * 10 ^ 6) (2 ^ 63 - 1) := by
      unfold saturatingMulI64
      omega
    have low : -2 ^ 63 ≤ now - min (cfg.retentionMs * 10 ^ 6) (2 ^ 63 - 1) := by omega
    have high : now - min (cfg.retentionMs * 10 ^ 6) (2 ^ 63 - 1) < 2 ^ 63 := by omega
    rw [product, wrapI64_eq low high, checkedI64_eq low high]
    exact ⟨rfl, rfl⟩

theorem excess_eq (range : InRange cfg now) {segments : List SegmentEntry}
    (small : bytes segments < 2 ^ 63) :
    (if cfg.retentionBytes < 0 then 0
      else wrapI64 (wrapI64 (bytes segments % 2 ^ 64 : Nat) - cfg.retentionBytes)) =
      bytes segments - limitOf cfg segments ∧
    (if cfg.retentionBytes < 0 then some 0
      else checkedI64 (wrapI64 (bytes segments : Nat) - cfg.retentionBytes)) =
      some (bytes segments - limitOf cfg segments) := by
  have cap := range.bytes
  unfold limitOf
  split
  · simp
  · rw [Nat.mod_eq_of_lt (by omega), @wrapI64_eq (bytes segments) (by omega) (by omega),
      wrapI64_eq (by omega) (by omega), checkedI64_eq (by omega) (by omega)]
    exact ⟨rfl, rfl⟩

theorem keepsBy_eq {rest segments : List SegmentEntry} (behind : rest <:+ segments) :
    keepsBy (cutoffOf cfg now) (limitOf cfg segments) rest = keeps cfg now rest := by
  have fewer := bytes_suffix behind
  cases rest with
  | nil => rfl
  | cons seg rest =>
    have time : (cutoffOf cfg now).any (fun c => decide (seg.lastTimestampNs.toInt < c)) =
        decide (Expired cfg now seg) := by
      unfold cutoffOf
      split
      next never =>
        have young : ¬ Expired cfg now seg := fun old => absurd old.1 (by omega)
        rw [Option.any_none, decide_eq_false young]
      next aged =>
        rw [Option.any_some]
        apply decide_eq_decide.mpr
        exact ⟨fun old => ⟨Int.not_lt.mp aged, old⟩, fun old => old.2⟩
    have size : decide (0 < (bytes (seg :: rest) : Int) - limitOf cfg segments) =
        decide (Oversized cfg (seg :: rest)) := by
      apply decide_eq_decide.mpr
      unfold limitOf Oversized
      split
      · constructor
        · intro excess; omega
        · rintro ⟨capped, _⟩; omega
      · omega
    simp only [keepsBy, keeps, time, size, ← Bool.decide_or, ← decide_not, not_or]

end Bounds

/-- Under these bounds nothing overflows, and what is evicted is what `trim` drops. -/
theorem evaluateEviction_trim {manifest : Manifest} {cfg : ResolvedTopicConfig} {now : Int}
    (range : InRange cfg now) (small : bytes manifest.segments < 2 ^ 63) :
    checkedEvaluateEviction manifest cfg now = some (evaluateEviction manifest cfg now) ∧
      evaluateEviction manifest cfg now ++ trim (keeps cfg now) manifest.segments =
        manifest.segments := by
  unfold checkedEvaluateEviction evaluateEviction
  split
  next few =>
    refine ⟨rfl, ?_⟩
    cases shape : manifest.segments with
    | nil => rfl
    | cons seg rest =>
      have alone : rest = [] := by simpa [shape] using few
      rw [alone]
      rfl
  next many =>
    have nonempty : manifest.segments ≠ [] := by
      intro none
      simp [none] at many
    have total : (manifest.segments.map (·.byteSize)).sum = bytes manifest.segments := rfl
    have whole := List.dropLast_append_getLast nonempty
    obtain ⟨cutoff, checkedCutoff⟩ := cutoff_eq range
    obtain ⟨excess, checkedExcess⟩ := excess_eq range small
    have low : 0 ≤ limitOf cfg manifest.segments := by unfold limitOf; split <;> omega
    have high : limitOf cfg manifest.segments < 2 ^ 63 := by
      have := range.bytes
      unfold limitOf
      split <;> omega
    obtain ⟨checked, trimmed⟩ := @evictLoop_trim (cutoffOf cfg now) _ low high
      (manifest.segments.getLast nonempty) _ (by rwa [whole])
    rw [whole] at checked trimmed
    rw [trim_congr fun rest behind => keepsBy_eq behind] at trimmed
    simp only [total, cutoff, excess, checkedCutoff, checkedExcess, checkedU64_eq (by omega :
      bytes manifest.segments < 2 ^ 64), Option.bind_eq_bind, Option.bind_some]
    exact ⟨checked, trimmed⟩

/-- Where eviction may stop: at the tail, or at a segment that is young enough while it and those
after it are small enough. -/
def Stops (manifest : Manifest) (cfg : ResolvedTopicConfig) (now : Int) (k : Nat) : Prop :=
  manifest.segments.length - 1 ≤ k ∨
    ∃ seg, manifest.segments[k]? = some seg ∧ ¬ Expired cfg now seg ∧
      ¬ Oversized cfg (manifest.segments.drop k)

theorem stops_iff {manifest : Manifest} {cfg : ResolvedTopicConfig} {now : Int} {k : Nat} :
    Stops manifest cfg now k ↔
      manifest.segments.length - 1 ≤ k ∨ keeps cfg now (manifest.segments.drop k) = true := by
  unfold Stops
  by_cases inside : k < manifest.segments.length
  · rw [List.getElem?_eq_getElem inside, List.drop_eq_getElem_cons inside]
    simp [keeps]
  · have tail : manifest.segments.length - 1 ≤ k := by omega
    simp [tail]

/-- What is evicted is the shortest front at which the policy may stop, and nothing overflows. -/
theorem evaluateEviction_least {manifest : Manifest} {cfg : ResolvedTopicConfig} {now : Int}
    (range : InRange cfg now) (small : bytes manifest.segments < 2 ^ 63) :
    ∃ k, IsLeast {k | Stops manifest cfg now k} k ∧
      evaluateEviction manifest cfg now = manifest.segments.take k ∧
      checkedEvaluateEviction manifest cfg now = some (manifest.segments.take k) := by
  obtain ⟨checked, trimmed⟩ := evaluateEviction_trim range small
  obtain ⟨k, least, dropped⟩ := trim_least (keeps cfg now) manifest.segments
  have evicted : evaluateEviction manifest cfg now = manifest.segments.take k := by
    apply @List.append_cancel_right _ _ (manifest.segments.drop k)
    rw [← dropped, trimmed, dropped, List.take_append_drop]
  refine ⟨k, ?_, evicted, by rw [checked, evicted]⟩
  simpa only [stops_iff] using least

section Sample

def limited : ResolvedTopicConfig := ⟨8, 1000, 1024, 1024, 5, 1024, 1, 500, 1, 50⟩

def sealedAt (base : Int) (timestamp : Int64) (size : Nat) : SegmentEntry :=
  ⟨base, base, timestamp, timestamp, 1, size, segmentName base⟩

/-- An old segment, a young one with too much behind it, one that fits, and the tail. -/
def both : Manifest := ⟨[sealedAt 0 1000 10, sealedAt 1 3000000 20, sealedAt 2 3000000 30,
  sealedAt 3 3000000 20]⟩

theorem evaluateEviction_least_both :
    IsLeast {k | Stops both limited 3500000 k} 2 ∧
      checkedEvaluateEviction both limited 3500000 = some (both.segments.take 2) := by
  obtain ⟨k, least, evicted, checked⟩ := @evaluateEviction_least both limited 3500000
    ⟨by decide, by decide, by decide, by decide⟩ (by decide)
  have two : (evaluateEviction both limited 3500000).length = 2 := by decide
  have four : both.segments.length = 4 := rfl
  rw [evicted, List.length_take, four] at two
  have same : k = 2 := by omega
  subst same
  exact ⟨least, checked⟩

end Sample

end Kafkrs.Eviction
