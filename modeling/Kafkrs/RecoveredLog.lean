import Kafkrs.Continuity

/-! What recovery makes of the log: a well-formed tail exactly when the disk is clean, and the
whole log, record for record, when nothing is ever evicted. -/
namespace Kafkrs.RecoveredLog

open Lib Wal Recovery Pipeline Restart Kafkrs.Partition Refinement Continuity

/-- The log tail recovery is meant to return. -/
structure WellFormed (crc32c : Bytes → UInt32) (disk : Disk) (acked : List Record) : Prop where
  /-- Consecutive offsets, the last of them one below the next offset. -/
  consecutive : Numbered Record.offset
    ((recoverPartition crc32c disk.store.manifest disk.wal).2.nextOffset -
      (recoveredTail (recoverPartition crc32c disk.store.manifest disk.wal).2).length)
    (recoveredTail (recoverPartition crc32c disk.store.manifest disk.wal).2)
  start : ∀ r, (recoveredTail (recoverPartition crc32c disk.store.manifest disk.wal).2).head? =
    some r → r.offset = uploadedEnd disk.store.manifest
  fresh : ∀ r ∈ acked,
    r.offset < (recoverPartition crc32c disk.store.manifest disk.wal).2.nextOffset

def cleanly (env : Externals) : Regime := ⟨fun _ => True, Clean env.crc32c⟩

section Recovered

variable {crc32c : Bytes → UInt32} {disk : Disk} {history : History}
  {segs : List (Int × List Record)} {stored : Record → Prop} {acked : List Record}

theorem Settled.wellFormed_iff (settled : Settled crc32c disk.wal disk.store history segs)
    (durable : Durable crc32c disk.wal disk.store.manifest stored acked) :
    WellFormed crc32c disk history.acked ↔ Clean crc32c disk := by
  constructor
  · intro formed base records holds nonempty low
    by_contra unlisted
    -- The file would be salvaged, and its first record stands below the uploaded end.
    have member : (base, records) ∈ salvaged crc32c disk.store.manifest disk.wal :=
      (mem_salvaged durable.ordered).mpr ⟨Bool.not_eq_true _ |>.mp unlisted, holds, nonempty⟩
    obtain ⟨first, rest, rfl⟩ := List.exists_cons_of_ne_nil nonempty
    have head := (durable.head base first rest holds).1
    have inside : first ∈ recoveredTail (recoverPartition crc32c disk.store.manifest disk.wal).2 := by
      rw [recoveredTail_eq]
      exact List.mem_flatMap.mpr ⟨_, member, by simp⟩
    have above := (formed.consecutive.mem_bounds inside).1
    have isHead := List.head?_eq_some_head (List.ne_nil_of_mem inside)
    have start := formed.start _ isHead
    have same := formed.consecutive.head isHead
    omega
  · intro clean
    obtain ⟨tail, next⟩ := settled.recovered durable clean
    have numbered := settled.chained.tail_numbered
    have length := settled.chained.length
    refine ⟨?_, ?_, ?_⟩
    · rw [tail, next, length]
      convert numbered using 1
      omega
    · intro r head
      rw [tail] at head
      exact numbered.head head
    · intro r member
      have := settled.chained.numbered.mem_bounds (settled.chained.acked r member)
      omega

end Recovered

section Runs

variable {env : Externals} {regime : Regime} {s s' : State} {action : Action}

structure Whole (env : Externals) (regime : Regime) (s : State) : Prop where
  inv : Invariant env regime s
  continuous : Continuous env (abstract s)

theorem fresh_whole (env : Externals) (regime : Regime) : Whole env regime fresh := by
  refine ⟨reached_invariant (Machine.Reaches.initial _), .of_down rfl ⟨[], ?_⟩⟩
  refine ⟨List.Pairwise.nil, ⟨trivial, rfl, rfl, by simp [abstract, fresh, Manifest.empty], ?_⟩,
    by simp, ?_⟩
  · simp [abstract, fresh]
  · simp [abstract, fresh, Holds]

theorem Whole.step (whole : Whole env regime s) (admits : Admits regime s action)
    (clean : s.live = none → regime.boot s.disk → Clean env.crc32c s.disk)
    (taken : step env action s = some s') : Whole env regime s' := by
  have simulated := step_simulated whole.inv admits taken
  exact ⟨whole.inv.step admits taken,
    whole.continuous.step whole.inv.valid
      (fun down => clean (Option.map_eq_none_iff.mp down)) simulated.event⟩

theorem Whole.settled (whole : Whole env regime s) (down : s.live = none) :
    ∃ segs, Settled env.crc32c s.disk.wal s.disk.store s.history segs :=
  whole.continuous.down (by simp [abstract, down])

theorem reached_whole (reached : (machine env).Reaches (Admits (cleanly env)) s) :
    Whole env (cleanly env) s :=
  reached.invariant (fresh_whole env _) fun _ _ _ whole admits taken =>
    whole.step admits (fun _ => id) taken

/-- In every run, recovery is handed only well-formed logs if and only if it is handed only
clean disks. -/
theorem wellFormed_iff_clean (env : Externals) (schedule : List Action)
    (framed : (machine env).Along (Admits .any) schedule fresh) :
    (machine env).Throughout
        (fun s => s.live = none → WellFormed env.crc32c s.disk s.history.acked) schedule fresh ↔
      (machine env).Throughout (fun s => s.live = none → Clean env.crc32c s.disk) schedule fresh := by
  have lasts (s : State) (action : Action) (next : State) (whole : Whole env (cleanly env) s)
      (clean : s.live = none → Clean env.crc32c s.disk) (admits : Admits .any s action)
      (taken : (machine env).step action s = some next) : Whole env (cleanly env) next := by
    refine whole.step ?_ (fun _ => id) taken
    cases action with
    | start cfg => exact ⟨trivial, clean (down_of_start taken)⟩
    | enqueue msg => cases msg <;> trivial
    | _ => exact admits
  refine Machine.throughout_congr lasts (fun s whole => forall_congr' fun down => ?_)
    (fresh_whole env _) framed
  obtain ⟨segs, settled⟩ := whole.settled down
  exact Settled.wellFormed_iff settled whole.inv.valid.durable

def produceOne (value : UInt8) : List Action := [.produce [sample value] (fun _ => 0), .writer]

def handOver : List Action := [.writer, .writer, .writer]

def upload : List Action := List.replicate 5 (.uploader 0)

/-- Two uploaded segments; the crash comes before either completion reaches the writer. -/
def uploadedRun (cfg : ResolvedTopicConfig) : List Action :=
  [.start cfg, .openWriter] ++ produceOne 1 ++ produceOne 2 ++ handOver ++ upload ++
    produceOne 3 ++ produceOne 4 ++ handOver ++ upload ++ [.crash 0]

theorem wellFormed_iff_clean_uploadedRun :
    (machine externals).Throughout (fun s => s.live = none →
      WellFormed crc32c s.disk s.history.acked) (uploadedRun settings) fresh := by
  have framed : (machine externals).Along (Admits .any) (uploadedRun settings) fresh := by
    decide +kernel
  have clean : (machine externals).Throughout (fun s => s.live = none →
      Clean externals.crc32c s.disk) (uploadedRun settings) fresh := by decide +kernel
  exact (wellFormed_iff_clean externals (uploadedRun settings) framed).mpr clean

/-- With a byte limit the second upload evicts the first segment while its WAL file is still
there; recovery takes that file for the active segment, below offsets already uploaded. -/
theorem uploadedRun_resurrects : ¬ (machine externals).Throughout (fun s => s.live = none →
    WellFormed crc32c s.disk s.history.acked)
    (uploadedRun { settings with retentionBytes := 0 }) fresh := by
  have runs : ((machine externals).execute (uploadedRun { settings with retentionBytes := 0 })
      fresh).any (fun s => s.live.isNone &&
        (recoveredTail (recoverPartition crc32c s.disk.store.manifest s.disk.wal).2).map
          (·.offset) == [0, 1] &&
        uploadedEnd s.disk.store.manifest == 4) = true := by decide +kernel
  intro always
  obtain ⟨s, ran, facts⟩ := Option.any_eq_true _ _ |>.mp runs
  simp only [Bool.and_eq_true, Option.isNone_iff_eq_none, beq_iff_eq] at facts
  obtain ⟨⟨down, offsets⟩, ending⟩ := facts
  have formed := always.final ran down
  obtain ⟨first, rest, shape, isZero, _⟩ := List.map_eq_cons_iff.mp offsets
  have start := formed.start first (by simp [shape])
  omega

/-- Both retention limits switched off, in every configuration the run uses. -/
def unlimited : Regime := ⟨fun cfg => cfg.retentionMs = -1 ∧ cfg.retentionBytes = -1, fun _ => True⟩

theorem unlimited_unevicted {a b : Lifecycle.State} (event : Lifecycle.Step env unlimited a b)
    (unevicted : a.history.evicted = []) : b.history.evicted = [] := by
  cases event with
  | evict now policy =>
    have nothing (m : Manifest) := Retention.evaluateEviction_disabled m now
      (by rw [policy.1]; decide) (by rw [policy.2]; decide)
    simp only [nothing]
    simpa [evictedRecords] using unevicted
  | _ => exact unevicted

structure Complete (env : Externals) (s : State) : Prop where
  whole : Whole env unlimited s
  unevicted : s.history.evicted = []

theorem unlimited_complete (reached : (machine env).Reaches (Admits unlimited) s) :
    Complete env s := by
  refine reached.invariant ⟨fresh_whole env _, rfl⟩ ?_
  rintro s action next ⟨whole, unevicted⟩ admits taken
  refine ⟨whole.step admits (fun down _ => ?_) taken,
    unlimited_unevicted (step_simulated whole.inv admits taken).event unevicted⟩
  obtain ⟨segs, settled⟩ := whole.settled down
  exact settled.clean whole.inv.valid.durable unevicted

/-- The log read back from a disk: listed objects, then orphans, then the active segment. -/
def reconstructed (crc32c : Bytes → UInt32) (disk : Disk) : List Record :=
  uploadedRecords disk.store ++
    recoveredTail (recoverPartition crc32c disk.store.manifest disk.wal).2

theorem unlimited_reconstructed (reached : (machine env).Reaches (Admits unlimited) s)
    (down : s.live = none) :
    reconstructed env.crc32c s.disk = s.history.log ∧
      (recoverPartition env.crc32c s.disk.store.manifest s.disk.wal).2.nextOffset =
        s.history.log.length := by
  obtain ⟨whole, unevicted⟩ := unlimited_complete reached
  obtain ⟨segs, settled⟩ := whole.settled down
  have durable := whole.inv.valid.durable
  obtain ⟨tail, next⟩ := settled.recovered durable (settled.clean durable unevicted)
  refine ⟨?_, next⟩
  rw [reconstructed, tail, settled.chained.log, unevicted, List.nil_append]

/-- With retention switched off, every disk recovery can find reads back as the log of all
appends so far, and a crash adds to the log before it some prefix of the append it cut. -/
theorem log_reconstructed (env : Externals) {s : State}
    (reached : (machine env).Reaches (Admits unlimited) s) :
    s.disk.store.manifest.segments.Pairwise (fun a b => a.baseOffset < b.baseOffset) ∧
    (s.live = none → reconstructed env.crc32c s.disk = s.history.log ∧
      (recoverPartition env.crc32c s.disk.store.manifest s.disk.wal).2.nextOffset =
        s.history.log.length) ∧
    ∀ l cut, s.live = some l → ∃ crashed part, step env (.crash cut) s = some crashed ∧
      part <+: appending l ∧ reconstructed env.crc32c crashed.disk = s.history.log ++ part ∧
      (recoverPartition env.crc32c crashed.disk.store.manifest crashed.disk.wal).2.nextOffset =
        (s.history.log ++ part).length := by
  refine ⟨(unlimited_complete reached).whole.inv.valid.durable.ordered.bases,
    unlimited_reconstructed reached, fun l cut live => ?_⟩
  obtain ⟨crashed, taken⟩ : ∃ crashed, step env (.crash cut) s = some crashed := by
    simp [step, live, liveStep]
  refine ⟨crashed, fitting (encodeRecord env.crc32c) cut (appending l), taken,
    fitting_front _ _ _, ?_⟩
  have shape : crashed.live = none ∧ crashed.history.log =
      s.history.log ++ fitting (encodeRecord env.crc32c) cut (appending l) := by
    simp only [step, live, liveStep, Option.some.injEq] at taken
    subst taken
    exact ⟨rfl, rfl⟩
  rw [← shape.2]
  exact unlimited_reconstructed (reached.next (show Admits unlimited s (.crash cut) from trivial) taken) shape.1

instance : DecidablePred unlimited.policy := fun cfg =>
  inferInstanceAs (Decidable (cfg.retentionMs = -1 ∧ cfg.retentionBytes = -1))

instance : DecidablePred unlimited.boot := fun _ => inferInstanceAs (Decidable True)

/-- A life with two uploads, then one that crashes in the middle of an append. -/
theorem log_reconstructed_uploadedRun : ∃ s, (machine externals).execute
      (uploadedRun settings ++ [.interrupt 1, .start settings, .openWriter] ++
        [.produce [sample 5, sample 6] (fun _ => 0), .crash 45]) fresh = some s ∧
    s.history.log.length = 5 ∧ reconstructed crc32c s.disk = s.history.log := by
  have runs : ((machine externals).execute
      (uploadedRun settings ++ [.interrupt 1, .start settings, .openWriter] ++
        [.produce [sample 5, sample 6] (fun _ => 0), .crash 45]) fresh).any
      (fun s => s.live.isNone && s.history.log.length == 5) = true := by decide +kernel
  have along : (machine externals).Along (Admits unlimited)
      (uploadedRun settings ++ [.interrupt 1, .start settings, .openWriter] ++
        [.produce [sample 5, sample 6] (fun _ => 0), .crash 45]) fresh := by decide +kernel
  obtain ⟨s, ran, facts⟩ := Option.any_eq_true _ _ |>.mp runs
  simp only [Bool.and_eq_true, Option.isNone_iff_eq_none, beq_iff_eq] at facts
  refine ⟨s, ran, facts.2, ?_⟩
  exact ((log_reconstructed externals ⟨_, along, ran⟩).2.1 facts.1).1

end Runs
end Kafkrs.RecoveredLog
