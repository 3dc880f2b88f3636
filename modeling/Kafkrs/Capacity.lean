import Kafkrs.RecoveredLog
import Kafkrs.RetentionKicks
import Mathlib.Algebra.BigOperators.Group.List.Basic

/-! How much a partition under a byte limit may keep listed: the limit, or one segment, and one
segment more between an upload and the pass behind it. A crash in between leaves that segment to
the next upload's pass, so each such crash may add one. Every call on the store succeeds here, as in
all the partition's steps; a pass that fails is only logged, and leaves everything listed. -/
namespace Kafkrs.Capacity

open Lib Refinement Eviction Retention RetentionKicks Kafkrs.Partition

variable {env : Externals} {limit size k : Nat}

/-- A segment has been listed, or a pass was asked for, and the pass is still to come. -/
def behind : Uploader.Phase → Nat
  | .notify _ | .retention => 1
  | _ => 0

/-- Every configuration of the run has the byte limit; the time limit is any `i64`. -/
def capped (limit : Nat) : Regime :=
  ⟨fun cfg => cfg.retentionBytes = limit ∧ cfg.retentionMs < 2 ^ 63, fun _ => True⟩

def listing : Uploader.Phase → Option SealedBatch
  | .putManifest batch => some batch
  | _ => none

/-- The clock is past the epoch, and the segment being listed is not larger than `size`. -/
def Metered (env : Externals) (size : Nat) (s : State) : Action → Prop
  | .uploader now => 0 ≤ now ∧ now < 2 ^ 63 ∧
    ∀ l ∈ s.live, ∀ batch ∈ listing l.uploader.phase, env.segmentSize batch.records ≤ size
  | _ => True

def lapse (s : State) : Action → Nat
  | .crash _ => s.live.elim 0 (fun l => behind l.uploader.phase)
  | _ => 0

def lapses (env : Externals) : List Action → State → Nat
  | [], _ => 0
  | action :: rest, s =>
    lapse s action + (step env action s).elim 0 (fun next => lapses env rest next)

def pending (s : State) : Nat := s.live.elim 0 (fun l => behind l.uploader.phase)

/-- No listed segment is larger than `size`, and together they stay within the limit but for the
passes that are missing. -/
structure Within (limit size k : Nat) (m : Manifest) : Prop where
  sizes : ∀ seg ∈ m.segments, seg.byteSize ≤ size
  total : bytes m.segments ≤ max limit size + k * size

theorem bytes_add (m : Manifest) (entry : SegmentEntry) :
    bytes (m.add entry).segments = bytes m.segments + entry.byteSize := by
  have same : (m.add entry).segments.Perm (m.segments ++ [entry]) := List.perm_insertionSort _ _
  have sums := (same.map (·.byteSize)).sum_eq
  simpa [bytes] using sums

theorem Within.add {m : Manifest} {entry : SegmentEntry} (within : Within limit size k m)
    (fits : entry.byteSize ≤ size) : Within limit size (k + 1) (m.add entry) where
  sizes := fun seg member => by
    rcases Manifest.mem_add.mp member with old | rfl
    · exact within.sizes seg old
    · exact fits
  total := by
    have := within.total
    rw [bytes_add, Nat.succ_mul]
    omega

theorem Within.more {m : Manifest} (within : Within limit size k m) {more : Nat} (le : k ≤ more) :
    Within limit size more m :=
  ⟨within.sizes, within.total.trans (Nat.add_le_add_left (Nat.mul_le_mul_right size le) _)⟩

/-- A pass brings the listed segments down to the limit, or to a single one. -/
theorem Within.pass {m : Manifest} {cfg : ResolvedTopicConfig} {now : Int} (range : InRange cfg now)
    (ordered : m.Ordered) (cap : cfg.retentionBytes = limit) (within : Within limit size k m)
    (small : max limit size + k * size < 2 ^ 63) : Within limit size 0 (retentionPass cfg m now) := by
  have total := within.total
  rw [show m = ⟨m.segments⟩ from rfl, retentionPass_trim range ordered (by omega)]
  obtain ⟨n, ⟨stops, _⟩, trimmed⟩ := trim_least (keeps cfg now) m.segments
  rw [trimmed]
  have sizes : ∀ seg ∈ m.segments.drop n, seg.byteSize ≤ size :=
    fun seg member => within.sizes seg (List.mem_of_mem_drop member)
  refine ⟨sizes, ?_⟩
  dsimp only
  cases shape : m.segments.drop n with
  | nil => simp [bytes]
  | cons seg rest =>
    have stopped : m.segments.length - 1 ≤ n ∨ keeps cfg now (m.segments.drop n) = true := stops
    rw [shape] at stopped sizes
    rcases stopped with tail | kept
    · have short := congrArg List.length shape
      rw [List.length_drop, List.length_cons] at short
      obtain rfl := List.eq_nil_of_length_eq_zero (show rest.length = 0 by omega)
      have := sizes seg (by simp)
      simp only [bytes, List.map_cons, List.map_nil, List.sum_cons, List.sum_nil]
      omega
    · have roomy : ¬ Oversized cfg (seg :: rest) := (of_decide_eq_true kept).2
      simp only [Oversized, cap, Int.natCast_nonneg, true_and, Nat.cast_lt, not_lt] at roomy
      omega

section Actor

variable {u : Uploader} {store : Store} {effect : Uploader.Effect} {now : Int}

theorem within_uploader (ordered : store.manifest.Ordered) (policy : (capped limit).policy u.cfg)
    (epoch : 0 ≤ now) (clock : now < 2 ^ 63)
    (fits : ∀ batch, u.phase = .putManifest batch → env.segmentSize batch.records ≤ size)
    (small : max limit size + (k + 1) * size < 2 ^ 63)
    (stepped : u.step env.segmentSize now .ok store = some effect)
    (within : Within limit size (k + behind u.phase) store.manifest) :
    Within limit size (k + behind effect.uploader.phase) effect.store.manifest := by
  have range : InRange u.cfg now := ⟨policy.2, by rw [policy.1]; omega, epoch, clock⟩
  have passed (phase : u.phase = .retention) : Within limit size 0 effect.store.manifest := by
    rw [step_pass phase stepped]
    refine within.pass range ordered policy.1 ?_
    simpa only [phase, behind] using small
  cases Uploader.step_moved stepped with
  | upload phase | shutdown phase | deleted phase | notify phase =>
    exact ⟨within.sizes, by simpa [phase, behind] using within.total⟩
  | retentionKick phase =>
    simp only [phase, behind] at within
    exact within.more (Nat.le_succ k)
  | updateConfig => exact ⟨within.sizes, within.total⟩
  | putSegment phase | delete phase =>
    simp only [phase, behind] at within
    exact within
  | putManifest phase =>
    simp only [phase, behind, Outcome.applied, true_and, if_true] at within ⊢
    split
    · exact within.add (fits _ phase)
    · exact within.more (Nat.le_succ k)
  | spare phase | evict phase => exact (passed phase).more (Nat.zero_le _)

end Actor

section Runs

variable {s t : State} {action : Action}

/-- One step keeps the bound, with one pass more to make up for when it is a crash before one. -/
theorem within_step (inv : Invariant env (capped limit) s) (metered : Metered env size s action)
    (small : max limit size + (k + 1) * size < 2 ^ 63) (taken : step env action s = some t)
    (within : Within limit size (k + pending s) s.disk.store.manifest) :
    Within limit size (k + lapse s action + pending t) t.disk.store.manifest := by
  cases step_stepped taken with
  | @moved l _ _ live moved =>
    cases moved with
    | uploader stepped =>
      obtain ⟨epoch, clock, fits⟩ := metered
      have before : Within limit size (k + behind l.uploader.phase) s.disk.store.manifest := by
        simpa only [pending, live, Option.elim_some] using within
      exact within_uploader inv.valid.durable.ordered (inv.shape l live).uploader.policy epoch clock
        (fun batch busy => fits l live batch (by simp [listing, busy])) small stepped before
    | crash =>
      simpa only [lapse, pending, live, Option.elim_some, Option.elim_none, Nat.add_zero] using within
    | _ => simpa only [lapse, pending, live, Option.elim_some, Nat.add_zero] using within
  | interrupt down =>
    simpa only [lapse, pending, down, Option.elim_none, Nat.add_zero] using within
  | @start cfg down =>
    have idle : behind (Uploader.new cfg).phase = 0 := rfl
    simpa only [lapse, pending, down, Option.elim_none, Option.elim_some, idle, Nat.add_zero] using
      within

theorem within_run {schedule : List Action} {final : State}
    (inv : Invariant env (capped limit) s)
    (admitted : (machine env).Along (Admits (capped limit)) schedule s)
    (metered : (machine env).Along (Metered env size) schedule s)
    (ran : (machine env).execute schedule s = some final)
    (small : max limit size + (k + lapses env schedule s + 1) * size < 2 ^ 63)
    (within : Within limit size (k + pending s) s.disk.store.manifest) :
    Within limit size (k + lapses env schedule s + pending final) final.disk.store.manifest := by
  induction schedule generalizing s k with
  | nil =>
    cases ran
    exact within
  | cons action schedule ih =>
    obtain ⟨next, taken, rest⟩ := Machine.execute_cons ran
    have taken : step env action s = some next := taken
    simp only [lapses, taken, Option.elim_some] at small ⊢
    have fewer : (k + 1) * size ≤ (k + (lapse s action + lapses env schedule next) + 1) * size :=
      Nat.mul_le_mul_right size (by omega)
    have after := within_step inv metered.1 (by omega) taken within
    rw [← Nat.add_assoc] at small ⊢
    exact ih (inv.step admitted.1 taken) (admitted.2 next taken) (metered.2 next taken) rest small after

end Runs

section Sample

instance : DecidablePred (capped limit).policy := fun cfg =>
  inferInstanceAs (Decidable (cfg.retentionBytes = limit ∧ cfg.retentionMs < 2 ^ 63))

instance : DecidablePred (capped limit).boot := fun _ => inferInstanceAs (Decidable True)

instance (env : Externals) (size : Nat) (s : State) : DecidablePred (Metered env size s)
  | .uploader now => inferInstanceAs (Decidable (0 ≤ now ∧ now < 2 ^ 63 ∧ ∀ l ∈ s.live,
      ∀ batch ∈ listing l.uploader.phase, env.segmentSize batch.records ≤ size))
  | .interrupt _ | .start _ | .sendOrphan | .openWriter | .produce _ _ | .commitTimeout
  | .updateWriter _ | .segmentDurable | .shutdownWriter | .writer | .enqueue _ | .crash _ =>
    .isTrue trivial

/-- The process dies between listing the second segment and the pass that would have evicted the
first: the bound is met with equality. -/
def lapsedRun : List Action :=
  [.start { settings with retentionBytes := 100 }, .openWriter] ++ RecoveredLog.produceOne 1 ++
    RecoveredLog.produceOne 2 ++ RecoveredLog.handOver ++ RecoveredLog.upload ++
    RecoveredLog.produceOne 3 ++ RecoveredLog.produceOne 4 ++ RecoveredLog.handOver ++
    List.replicate 3 (.uploader 0) ++ [.crash 0]

end Sample

end Kafkrs.Capacity
