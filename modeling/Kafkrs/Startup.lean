import Kafkrs.Partition
import Kafkrs.Restart

/-! `spawn_partition` against the uploader it has started. The orphans go through one bounded
channel while completions come back through another, whose consumer is started only after the
last orphan has been sent. -/
namespace Kafkrs.Startup

open Lib Kafkrs.Partition

/-- Slots of the uploader's inbox. -/
def uploaderCapacity : Nat := 64

/-- Slots of the channel of `SegmentDurable` completions. -/
def durableCapacity : Nat := 64

inductive Stage where
  /-- In the orphan loop. -/
  | sending
  /-- The writer is constructed. -/
  | constructed
  /-- The durable-forwarder runs. -/
  | forwarding
  /-- The handle is in the partition map: `spawn_partition` is done. -/
  | inserted
  deriving DecidableEq, Repr

structure State where
  stage : Stage
  orphans : List (Int × List Record)
  uploader : Uploader
  durable : List Int
  store : Store

inductive Action where
  | spawn
  | uploader (now : Int) (outcome : Outcome)
  | forward

def spawnStep (s : State) : Option State :=
  match s.stage with
  | .sending =>
    match s.orphans with
    | orphan :: rest =>
      if s.uploader.rx.length < uploaderCapacity then
        (orphanBatch orphan).map fun batch =>
          { s with
            orphans := rest
            uploader := { s.uploader with rx := s.uploader.rx ++ [.upload batch] } }
      else none
    | [] => some { s with stage := .constructed }
  | .constructed => some { s with stage := .forwarding }
  | .forwarding => some { s with stage := .inserted }
  | .inserted => none

/-- The uploader waits at a completion the channel has no room for. -/
def Waits (phase : Uploader.Phase) (durable : List Int) : Bool :=
  match phase with
  | .notify _ => decide (durableCapacity ≤ durable.length)
  | _ => false

def State.worked (s : State) (effect : Uploader.Effect) : State :=
  { s with
    uploader := effect.uploader
    durable := s.durable ++ effect.durable
    store := effect.store }

def step (env : Externals) : Action → State → Option State
  | .spawn, s => spawnStep s
  | .uploader now outcome, s =>
    if Waits s.uploader.phase s.durable then none
    else
      (s.uploader.step env.segmentSize now outcome s.store).map s.worked
  | .forward, s =>
    match s.stage, s.durable with
    | .forwarding, _ :: rest | .inserted, _ :: rest => some { s with durable := rest }
    | _, _ => none

def orphanSegments (env : Externals) (disk : Disk) : List (Int × List Record) :=
  (Recovery.recoverPartition env.crc32c disk.store.manifest disk.wal).2.orphanSegments

def machine (env : Externals) (cfg : ResolvedTopicConfig) (disk : Disk) : Machine State Action where
  initial :=
    { stage := .sending
      orphans := orphanSegments env disk
      uploader := Uploader.new cfg
      durable := []
      store := disk.store }
  step := step env

/-- Start-up has not finished and nothing can move. -/
def Stuck (env : Externals) (s : State) : Prop :=
  s.stage ≠ .inserted ∧ ∀ action, step env action s = none

def held : Uploader.Phase → Nat
  | .putSegment _ | .putManifest _ | .notify _ => 1
  | _ => 0

section Uploading

variable {env : Externals} {cfg : ResolvedTopicConfig} {disk : Disk} {s : State}

/-- The uploader goes back to its inbox by itself, reporting the batch it holds. -/
structure Settles (env : Externals) (cfg : ResolvedTopicConfig) (disk : Disk) (s t : State) :
    Prop where
  leads : (machine env cfg disk).Leads s t
  idle : t.uploader.phase = .recv
  rx : t.uploader.rx = s.uploader.rx
  orphans : t.orphans = s.orphans
  stage : t.stage = s.stage
  durable : t.durable.length = s.durable.length + held s.uploader.phase

theorem Settles.refl (idle : s.uploader.phase = .recv) : Settles env cfg disk s s :=
  ⟨.refl s, idle, rfl, rfl, rfl, by simp [idle, held]⟩

/-- One step of the uploader before the rest. -/
theorem settle_step {effect : Uploader.Effect} (room : Waits s.uploader.phase s.durable = false)
    (taken : s.uploader.step env.segmentSize 0 .ok s.store = some effect)
    (rx : effect.uploader.rx = s.uploader.rx)
    (count : effect.durable.length + held effect.uploader.phase = held s.uploader.phase)
    (rest : ∃ t, Settles env cfg disk (s.worked effect) t) : ∃ t, Settles env cfg disk s t := by
  obtain ⟨t, settles⟩ := rest
  have first : (machine env cfg disk).step (.uploader 0 .ok) s = some (s.worked effect) := by
    simp [machine, step, room, taken]
  refine ⟨t, (Machine.Leads.step _ first).trans settles.leads, settles.idle, settles.rx.trans rx,
    settles.orphans, settles.stage, ?_⟩
  have reported := settles.durable
  simp only [State.worked, List.length_append] at reported
  omega

theorem settle_delete {evict : List SegmentEntry} (phase : s.uploader.phase = .delete evict) :
    ∃ t, Settles env cfg disk s t := by
  have room : Waits s.uploader.phase s.durable = false := by simp [Waits, phase]
  induction evict generalizing s with
  | nil =>
    have taken : s.uploader.step env.segmentSize 0 .ok s.store = some
        { uploader := { s.uploader with phase := .recv }, store := s.store } := by
      simp only [Uploader.step, phase]
    apply settle_step room taken rfl
    · simp [held, phase]
    · exact ⟨_, .refl rfl⟩
  | cons entry rest ih =>
    have taken : s.uploader.step env.segmentSize 0 .ok s.store = some
        { uploader := { s.uploader with phase := .delete rest }
          store := { s.store with objects := s.store.objects.erase entry.baseOffset } } := by
      simp [Uploader.step, phase, Outcome.applied]
    apply settle_step room taken rfl
    · simp [held, phase]
    · exact ih rfl rfl

theorem settle_retention (phase : s.uploader.phase = .retention) :
    ∃ t, Settles env cfg disk s t := by
  have room : Waits s.uploader.phase s.durable = false := by simp [Waits, phase]
  let evict := Retention.evaluateEviction s.store.manifest s.uploader.cfg 0
  by_cases nothing : evict.isEmpty
  · have taken : s.uploader.step env.segmentSize 0 .ok s.store = some
        { uploader := { s.uploader with phase := .recv }, store := s.store } := by
      simp only [Uploader.step, phase, evict, nothing, if_true]
    apply settle_step room taken rfl
    · simp [held, phase]
    · exact ⟨_, .refl rfl⟩
  · have taken : s.uploader.step env.segmentSize 0 .ok s.store = some
        { uploader := { s.uploader with phase := .delete evict }
          store := { s.store with manifest := Retention.retain s.store.manifest evict }
          evicted := evict } := by
      simp only [Uploader.step, phase, Outcome.applied, if_true]
      exact if_neg nothing
    apply settle_step room taken rfl
    · simp [held, phase]
    · exact settle_delete rfl

theorem settle_notify {batch : SealedBatch} (phase : s.uploader.phase = .notify batch)
    (room : s.durable.length < durableCapacity) : ∃ t, Settles env cfg disk s t := by
  have taken : s.uploader.step env.segmentSize 0 .ok s.store = some
      { uploader := { s.uploader with phase := .retention }
        store := s.store
        durable := [batch.baseOffset] } := by
    simp only [Uploader.step, phase]
  apply settle_step ?_ taken rfl
  · simp [held, phase]
  · exact settle_retention rfl
  · simpa [Waits, phase] using room

theorem settle_putManifest {batch : SealedBatch} (phase : s.uploader.phase = .putManifest batch)
    (room : s.durable.length < durableCapacity) : ∃ t, Settles env cfg disk s t := by
  have taken : ∃ store, s.uploader.step env.segmentSize 0 .ok s.store = some
      { uploader := { s.uploader with phase := .notify batch }, store := store } :=
    ⟨_, by simp only [Uploader.step, phase, if_true]; rfl⟩
  obtain ⟨store, taken⟩ := taken
  apply settle_step (by simp [Waits, phase]) taken rfl
  · simp [held, phase]
  · apply settle_notify rfl
    simpa [State.worked] using room

theorem settle_putSegment {batch : SealedBatch} (phase : s.uploader.phase = .putSegment batch)
    (room : s.durable.length < durableCapacity) : ∃ t, Settles env cfg disk s t := by
  have taken : ∃ store, s.uploader.step env.segmentSize 0 .ok s.store = some
      { uploader := { s.uploader with phase := .putManifest batch }, store := store } :=
    ⟨_, by simp only [Uploader.step, phase, if_true]; rfl⟩
  obtain ⟨store, taken⟩ := taken
  apply settle_step (by simp [Waits, phase]) taken rfl
  · simp [held, phase]
  · apply settle_putManifest rfl
    simpa [State.worked] using room

/-- From any phase, with room for the completion of the batch it holds. -/
theorem settle (running : s.uploader.phase ≠ .stopped)
    (room : held s.uploader.phase = 1 → s.durable.length < durableCapacity) :
    ∃ t, Settles env cfg disk s t := by
  cases phase : s.uploader.phase with
  | recv => exact ⟨s, .refl phase⟩
  | putSegment batch => exact settle_putSegment phase (room (by rw [phase]; rfl))
  | putManifest batch => exact settle_putManifest phase (room (by rw [phase]; rfl))
  | notify batch => exact settle_notify phase (room (by rw [phase]; rfl))
  | retention => exact settle_retention phase
  | delete evict => exact settle_delete phase
  | stopped => exact absurd phase running

end Uploading

structure Invariant (total : Nat) (s : State) : Prop where
  filled : ∀ orphan ∈ s.orphans, orphan.2 ≠ []
  uploads : ∀ msg ∈ s.uploader.rx, ∃ batch, msg = .upload batch
  running : s.uploader.phase ≠ .stopped
  bounded : s.uploader.rx.length ≤ uploaderCapacity
  count : s.stage = .sending →
    s.orphans.length + s.uploader.rx.length + held s.uploader.phase + s.durable.length = total

section Runs

variable {env : Externals} {cfg : ResolvedTopicConfig} {disk : Disk} {total : Nat} {s next : State}

theorem orphanSegments_filled : ∀ orphan ∈ orphanSegments env disk, orphan.2 ≠ [] := by
  intro orphan member
  rw [orphanSegments, Restart.recoverPartition_eq] at member
  have salvaged := (List.dropLast_sublist _).subset member
  obtain ⟨base, _, kept⟩ := List.mem_filterMap.mp salvaged
  obtain ⟨_, _, bytes, _, _, filled⟩ := Recovery.salvage_eq_some.mp kept
  exact filled

theorem initial_invariant :
    Invariant (orphanSegments env disk).length (machine env cfg disk).initial where
  filled := orphanSegments_filled
  uploads := by simp [machine, Uploader.new]
  running := by simp [machine, Uploader.new]
  bounded := by simp [machine, Uploader.new]
  count _ := by simp [machine, Uploader.new, held]

theorem orphanBatch_filled {orphan : Int × List Record} (filled : orphan.2 ≠ []) :
    ∃ batch, orphanBatch orphan = some batch := by
  obtain ⟨base, records⟩ := orphan
  cases records with
  | nil => exact absurd rfl filled
  | cons first rest => exact ⟨_, rfl⟩

theorem Invariant.spawn (invariant : Invariant total s) (taken : spawnStep s = some next) :
    Invariant total next := by
  unfold spawnStep at taken
  cases stage : s.stage with
  | sending =>
    cases orphans : s.orphans with
    | nil =>
      simp only [stage, orphans, Option.some.injEq] at taken
      subst taken
      exact ⟨by simp, invariant.uploads, invariant.running, invariant.bounded, by simp⟩
    | cons orphan rest =>
      simp only [stage, orphans] at taken
      split at taken
      · obtain ⟨batch, _, rfl⟩ := Option.map_eq_some_iff.mp taken
        refine ⟨fun other member => ?_, fun msg member => ?_, invariant.running, ?_, fun _ => ?_⟩
        · exact invariant.filled other (by rw [orphans]; exact List.mem_cons_of_mem _ member)
        · rcases List.mem_append.mp member with old | last
          · exact invariant.uploads msg old
          · exact ⟨batch, List.mem_singleton.mp last⟩
        · simp only [List.length_append, List.length_cons, List.length_nil]
          omega
        · have count := invariant.count stage
          simp only [orphans, List.length_cons] at count
          simp only [List.length_append, List.length_cons, List.length_nil]
          omega
      · contradiction
  | constructed | forwarding =>
    simp only [stage, Option.some.injEq] at taken
    subst taken
    exact ⟨invariant.filled, invariant.uploads, invariant.running, invariant.bounded, by simp⟩
  | inserted => simp [stage] at taken

/-- What one step of the uploader does to the messages on their way through it: uploads become
completions, the others end here. -/
theorem uploader_flow {u : Uploader} {store : Store} {now : Int} {outcome : Outcome}
    {effect : Uploader.Effect} (unclosed : UploaderMsg.control .shutdown ∉ u.rx)
    (taken : u.step env.segmentSize now outcome store = some effect) :
    effect.uploader.phase ≠ .stopped ∧ effect.uploader.rx <:+ u.rx ∧
      effect.uploader.rx.length + held effect.uploader.phase + effect.durable.length ≤
        u.rx.length + held u.phase ∧
      ((∀ msg ∈ u.rx, ∃ batch, msg = .upload batch) →
        effect.uploader.rx.length + held effect.uploader.phase + effect.durable.length =
          u.rx.length + held u.phase) := by
  unfold Uploader.step at taken
  cases phase : u.phase with
  | recv =>
    simp only [phase] at taken
    cases rx : u.rx with
    | nil => simp [Uploader.receive, rx] at taken
    | cons msg rest =>
      rcases msg with batch | (_ | cfg | _)
      all_goals
        simp only [Uploader.receive, rx, Option.some.injEq] at taken
        subst taken
      · simp [held]
      · simp [held]
      · simp [held, phase]
      · simp [rx] at unclosed
  | putSegment batch =>
    simp only [phase, Option.some.injEq] at taken
    subst taken
    by_cases ok : outcome = .ok <;> simp [ok, held]
  | putManifest batch =>
    simp only [phase, Option.some.injEq] at taken
    subst taken
    by_cases ok : outcome = .ok <;> simp [ok, held]
  | notify batch =>
    simp only [phase, Option.some.injEq] at taken
    subst taken
    simp [held]
  | retention =>
    simp only [phase] at taken
    split at taken
    · cases taken
      simp [held]
    · cases taken
      by_cases ok : outcome = .ok <;> simp [ok, held]
  | delete evict =>
    cases evict <;> simp only [phase, Option.some.injEq] at taken <;> subst taken <;> simp [held]
  | stopped => simp [phase] at taken

theorem Invariant.step (invariant : Invariant total s) {action : Action}
    (taken : step env action s = some next) : Invariant total next := by
  cases action with
  | spawn => exact invariant.spawn taken
  | uploader now outcome =>
    simp only [Startup.step] at taken
    split at taken
    · contradiction
    · obtain ⟨effect, worked, rfl⟩ := Option.map_eq_some_iff.mp taken
      have unclosed : UploaderMsg.control .shutdown ∉ s.uploader.rx := by
        intro member
        obtain ⟨batch, same⟩ := invariant.uploads _ member
        cases same
      obtain ⟨running, rx, _, flow⟩ := uploader_flow unclosed worked
      have flow := flow invariant.uploads
      refine ⟨invariant.filled, fun msg member => invariant.uploads msg (rx.subset member), running,
        rx.length_le.trans invariant.bounded, ?_⟩
      intro stage
      have count := invariant.count stage
      simp only [State.worked, List.length_append]
      omega
  | forward =>
    simp only [Startup.step] at taken
    split at taken
    all_goals first | contradiction | cases taken
    all_goals
      rename_i stage _
      exact ⟨invariant.filled, invariant.uploads, invariant.running, invariant.bounded,
        by simp [stage]⟩

theorem reached_invariant (reached : (machine env cfg disk).Leads (machine env cfg disk).initial s) :
    Invariant (orphanSegments env disk).length s :=
  reached.invariant (fun _ _ _ invariant taken => invariant.step taken) initial_invariant

theorem uploader_enabled (env : Externals) {u : Uploader} (now : Int) (store : Store)
    (running : u.phase ≠ .stopped) (mail : u.phase = .recv → u.rx ≠ []) :
    ∃ effect, u.step env.segmentSize now .ok store = some effect := by
  unfold Uploader.step
  cases phase : u.phase with
  | recv =>
    obtain ⟨msg, rest, rx⟩ := List.exists_cons_of_ne_nil (mail phase)
    rcases msg with batch | (_ | cfg | _) <;> simp [Uploader.receive, rx]
  | retention =>
    dsimp only
    split
    · exact ⟨_, rfl⟩
    · exact ⟨_, rfl⟩
  | delete evict => cases evict <;> exact ⟨_, rfl⟩
  | putSegment | putManifest | notify => exact ⟨_, rfl⟩
  | stopped => exact absurd phase running

/-- A waiting uploader holds a batch besides the full channel. -/
theorem holds_of_waits {phase : Uploader.Phase} {durable : List Int}
    (waits : Waits phase durable = true) : held phase = 1 ∧ durableCapacity ≤ durable.length := by
  cases phase with
  | notify batch => simpa [Waits, held] using waits
  | recv | putSegment | putManifest | retention | delete | stopped => simp [Waits] at waits

/-- In the orphan loop something can move, unless both channels are full and the uploader
holds one more batch. -/
theorem Invariant.not_stuck (invariant : Invariant total s)
    (few : total ≤ uploaderCapacity + 1 + durableCapacity) : ¬ Stuck env s := by
  rintro ⟨unfinished, blocked⟩
  have spawn : spawnStep s = none := blocked .spawn
  cases stage : s.stage with
  | constructed => simp [spawnStep, stage] at spawn
  | forwarding => simp [spawnStep, stage] at spawn
  | inserted => exact unfinished stage
  | sending =>
    cases orphans : s.orphans with
    | nil => simp [spawnStep, stage, orphans] at spawn
    | cons orphan rest =>
      have count := invariant.count stage
      obtain ⟨batch, built⟩ := orphanBatch_filled (invariant.filled orphan (by simp [orphans]))
      have full : uploaderCapacity ≤ s.uploader.rx.length := by
        by_contra room
        simp [spawnStep, stage, orphans, not_le.mp room, built] at spawn
      have mail : s.uploader.rx ≠ [] := by
        intro empty
        simp [empty, uploaderCapacity] at full
      obtain ⟨effect, taken⟩ := uploader_enabled env 0 s.store invariant.running
        (fun _ => mail)
      have waits : Waits s.uploader.phase s.durable = true := by
        have none := blocked (.uploader 0 .ok)
        by_contra idle
        simp [Startup.step, idle, taken] at none
      have holds := holds_of_waits waits
      simp only [orphans, List.length_cons] at count
      omega

/-- The orphan loop sends while there is room. -/
theorem Invariant.send (env : Externals) (cfg : ResolvedTopicConfig) (disk : Disk)
    (invariant : Invariant total s) (stage : s.stage = .sending)
    {orphan : Int × List Record} {rest : List (Int × List Record)} (orphans : s.orphans = orphan :: rest)
    (room : s.uploader.rx.length < uploaderCapacity) :
    ∃ batch, (machine env cfg disk).Leads s
      { s with
        orphans := rest
        uploader := { s.uploader with rx := s.uploader.rx ++ [.upload batch] } } := by
  obtain ⟨batch, built⟩ := orphanBatch_filled (invariant.filled orphan (by simp [orphans]))
  refine ⟨batch, .step .spawn ?_⟩
  simp [machine, Startup.step, spawnStep, stage, orphans, room, built]

/-- An idle uploader takes the next upload. -/
theorem Invariant.receive (env : Externals) (cfg : ResolvedTopicConfig) (disk : Disk)
    (invariant : Invariant total s) (idle : s.uploader.phase = .recv)
    {msg : UploaderMsg} {rest : List UploaderMsg} (rx : s.uploader.rx = msg :: rest) :
    ∃ batch, (machine env cfg disk).Leads s
      { s with uploader := { s.uploader with rx := rest, phase := .putSegment batch } } := by
  obtain ⟨batch, rfl⟩ := invariant.uploads msg (by simp [rx])
  refine ⟨batch, .step (.uploader 0 .ok) ?_⟩
  simp [machine, Startup.step, Waits, idle, Uploader.step, Uploader.receive, rx, State.worked]

theorem leads_inserted (sent : s.stage ≠ .sending) :
    ∃ t, (machine env cfg disk).Leads s t ∧ t.stage = .inserted := by
  have finish (s : State) (stage : s.stage = .forwarding) :
      (machine env cfg disk).Leads s { s with stage := .inserted } := by
    apply Machine.Leads.step .spawn
    simp [machine, Startup.step, spawnStep, stage]
  cases stage : s.stage with
  | sending => exact absurd stage sent
  | constructed =>
    have first : (machine env cfg disk).Leads s { s with stage := .forwarding } := by
      apply Machine.Leads.step .spawn
      simp [machine, Startup.step, spawnStep, stage]
    exact ⟨_, first.trans (finish _ rfl), rfl⟩
  | forwarding => exact ⟨_, finish s stage, rfl⟩
  | inserted => exact ⟨s, .refl s, stage⟩

theorem Invariant.finishes (invariant : Invariant total s)
    (few : total ≤ uploaderCapacity + 1 + durableCapacity) :
    ∃ t, (machine env cfg disk).Leads s t ∧ t.stage = .inserted := by
  have keeps {a b : State} (leads : (machine env cfg disk).Leads a b) (valid : Invariant total a) :
      Invariant total b :=
    leads.invariant (fun _ _ _ invariant taken => invariant.step taken) valid
  induction remaining : s.orphans.length generalizing s with
  | zero =>
    by_cases stage : s.stage = .sending
    · have first : (machine env cfg disk).Leads s { s with stage := .constructed } := by
        apply Machine.Leads.step .spawn
        simp [machine, Startup.step, spawnStep, stage, List.length_eq_zero_iff.mp remaining]
      have sent : { s with stage := Stage.constructed }.stage ≠ .sending := by simp
      obtain ⟨t, leads, inserted⟩ := leads_inserted sent
      exact ⟨t, first.trans leads, inserted⟩
    · exact leads_inserted stage
  | succ remaining ih =>
    by_cases stage : s.stage = .sending
    · obtain ⟨orphan, rest, orphans⟩ := List.exists_cons_of_length_eq_add_one ‹_›
      -- Without room, the uploader reports the batch it holds and takes the next one.
      have eased : ∃ t, (machine env cfg disk).Leads s t ∧ t.stage = .sending ∧
          t.orphans = s.orphans ∧ t.uploader.rx.length < uploaderCapacity := by
        by_cases room : s.uploader.rx.length < uploaderCapacity
        · exact ⟨s, .refl s, stage, rfl, room⟩
        · have count := invariant.count stage
          simp only [orphans, List.length_cons] at count
          have mail : s.uploader.rx ≠ [] := by
            intro empty
            simp [empty, uploaderCapacity] at room
          obtain ⟨msg, rest', rx⟩ := List.exists_cons_of_ne_nil mail
          obtain ⟨t, settles⟩ : ∃ t, Settles env cfg disk s t := by
            apply settle invariant.running
            intro holds
            omega
          obtain ⟨batch, received⟩ :=
            (keeps settles.leads invariant).receive env cfg disk settles.idle (settles.rx.trans rx)
          refine ⟨_, settles.leads.trans received, settles.stage.trans stage, settles.orphans, ?_⟩
          simp only [rx, List.length_cons] at count
          have bounded := invariant.bounded
          simp only [rx, List.length_cons] at bounded
          show rest'.length < uploaderCapacity
          omega
      obtain ⟨t, leads, stage, same, room⟩ := eased
      obtain ⟨batch, sent⟩ := (keeps leads invariant).send env cfg disk stage (same.trans orphans) room
      obtain ⟨final, done, inserted⟩ := ih (keeps (leads.trans sent) invariant)
        (by simpa [orphans] using remaining)
      exact ⟨final, (leads.trans sent).trans done, inserted⟩
    · exact leads_inserted stage

/-- The loop sends one orphan to an idle uploader with an empty inbox, which takes it. -/
theorem Invariant.hand (env : Externals) (cfg : ResolvedTopicConfig) (disk : Disk)
    (invariant : Invariant total s) (stage : s.stage = .sending)
    (idle : s.uploader.phase = .recv) (rx : s.uploader.rx = []) (more : s.durable.length < total) :
    ∃ t batch, (machine env cfg disk).Leads s t ∧ t.stage = .sending ∧ t.uploader.rx = [] ∧
      t.durable = s.durable ∧ t.uploader.phase = .putSegment batch := by
  have count := invariant.count stage
  simp only [rx, idle, held, List.length_nil] at count
  obtain ⟨orphan, rest, orphans⟩ : ∃ orphan rest, s.orphans = orphan :: rest := by
    apply List.exists_cons_of_length_pos
    omega
  have room : s.uploader.rx.length < uploaderCapacity := by simp [rx, uploaderCapacity]
  obtain ⟨batch, sent⟩ := invariant.send env cfg disk stage orphans room
  have sent' := sent.invariant (fun _ _ _ invariant taken => invariant.step taken) invariant
  have mail : s.uploader.rx ++ [UploaderMsg.upload batch] = [.upload batch] := by simp [rx]
  obtain ⟨taken, received⟩ := sent'.receive env cfg disk idle mail
  exact ⟨_, taken, sent.trans received, stage, rfl, rfl, rfl⟩

/-- With no consumer, `k` completions stay in their channel. -/
theorem fill_durable (cfg : ResolvedTopicConfig) {k : Nat} (many : k < (orphanSegments env disk).length)
    (room : k ≤ durableCapacity) :
    ∃ s, (machine env cfg disk).Leads (machine env cfg disk).initial s ∧ s.stage = .sending ∧
      s.uploader.phase = .recv ∧ s.uploader.rx = [] ∧ s.durable.length = k := by
  induction k with
  | zero => exact ⟨_, .refl _, rfl, rfl, rfl, rfl⟩
  | succ k ih =>
    obtain ⟨s, reached, stage, idle, rx, durable⟩ := ih (by omega) (by omega)
    have invariant := reached_invariant reached
    obtain ⟨t, batch, leads, stage', rx', durable', phase⟩ :=
      invariant.hand env cfg disk stage idle rx (by omega)
    obtain ⟨u, settles⟩ : ∃ u, Settles env cfg disk t u := by
      apply settle (by simp [phase])
      intro _
      rw [durable']
      omega
    refine ⟨u, (reached.trans leads).trans settles.leads, settles.stage.trans stage', settles.idle,
      settles.rx.trans rx', ?_⟩
    rw [settles.durable, durable', durable, phase, held]

/-- The uploader then waits with one more batch in hand. -/
theorem fill_hand (env : Externals) (cfg : ResolvedTopicConfig) (disk : Disk)
    (many : durableCapacity < (orphanSegments env disk).length) :
    ∃ s, (machine env cfg disk).Leads (machine env cfg disk).initial s ∧ s.stage = .sending ∧
      Waits s.uploader.phase s.durable = true ∧ s.uploader.rx = [] ∧
      s.durable.length = durableCapacity := by
  obtain ⟨s, reached, stage, idle, rx, durable⟩ := fill_durable cfg many le_rfl
  obtain ⟨t, batch, leads, stage', rx', durable', phase⟩ :=
    (reached_invariant reached).hand env cfg disk stage idle rx (by omega)
  have segment : ∃ store, (machine env cfg disk).step (.uploader 0 .ok) t = some
      { t with uploader := { t.uploader with phase := .putManifest batch }, store := store } :=
    ⟨_, by simp [machine, step, Waits, phase, Uploader.step, State.worked]; rfl⟩
  obtain ⟨store, segment⟩ := segment
  have manifest : ∃ store', (machine env cfg disk).step (.uploader 0 .ok)
      { t with uploader := { t.uploader with phase := .putManifest batch }, store := store } = some
      { t with uploader := { t.uploader with phase := .notify batch }, store := store' } :=
    ⟨_, by simp [machine, step, Waits, Uploader.step, State.worked]; rfl⟩
  obtain ⟨store', manifest⟩ := manifest
  refine ⟨_, ((reached.trans leads).trans (.step _ segment)).trans (.step _ manifest), stage', ?_, rx',
    ?_⟩
  · simp [Waits, durable', durable]
  · simp [durable', durable]

/-- The loop goes on until the inbox is full. -/
theorem fill_inbox (env : Externals) (cfg : ResolvedTopicConfig) (disk : Disk) (j : Nat)
    (many : durableCapacity + 1 + j ≤ (orphanSegments env disk).length)
    (room : j ≤ uploaderCapacity) :
    ∃ s, (machine env cfg disk).Leads (machine env cfg disk).initial s ∧ s.stage = .sending ∧
      Waits s.uploader.phase s.durable = true ∧ s.uploader.rx.length = j ∧
      s.durable.length = durableCapacity := by
  induction j with
  | zero =>
    obtain ⟨s, reached, stage, waits, rx, durable⟩ := fill_hand env cfg disk (by omega)
    exact ⟨s, reached, stage, waits, by simp [rx], durable⟩
  | succ j ih =>
    obtain ⟨s, reached, stage, waits, rx, durable⟩ := ih (by omega) (by omega)
    have invariant := reached_invariant reached
    have count := invariant.count stage
    have holds := holds_of_waits waits
    obtain ⟨orphan, rest, orphans⟩ : ∃ orphan rest, s.orphans = orphan :: rest := by
      apply List.exists_cons_of_length_pos
      omega
    obtain ⟨batch, sent⟩ := invariant.send env cfg disk stage orphans (by omega)
    exact ⟨_, reached.trans sent, stage, waits, by simp [rx], durable⟩

theorem stuck_of_many (cfg : ResolvedTopicConfig)
    (many : uploaderCapacity + 1 + durableCapacity < (orphanSegments env disk).length) :
    ∃ s, (machine env cfg disk).Leads (machine env cfg disk).initial s ∧ Stuck env s := by
  obtain ⟨s, reached, stage, waits, rx, durable⟩ :=
    fill_inbox env cfg disk uploaderCapacity (by omega) le_rfl
  have count := (reached_invariant reached).count stage
  have holds := holds_of_waits waits
  obtain ⟨orphan, rest, orphans⟩ : ∃ orphan rest, s.orphans = orphan :: rest := by
    apply List.exists_cons_of_length_pos
    omega
  refine ⟨s, reached, by simp [stage], ?_⟩
  intro action
  cases action with
  | spawn => simp [step, spawnStep, stage, orphans, rx]
  | uploader now outcome => simp [step, waits]
  | forward => simp [step, stage]

end Runs

/-- Start-up never gets stuck, and always has a way to its end, exactly when the orphans fit
into the two channels and the uploader's hand. -/
theorem startup_completes_iff (env : Externals) (cfg : ResolvedTopicConfig) (disk : Disk) :
    (∀ s, (machine env cfg disk).Leads (machine env cfg disk).initial s →
      ¬ Stuck env s ∧ ∃ t, (machine env cfg disk).Leads s t ∧ t.stage = .inserted) ↔
    (orphanSegments env disk).length ≤ uploaderCapacity + 1 + durableCapacity := by
  constructor
  · intro completes
    by_contra many
    obtain ⟨s, reached, stuck⟩ := stuck_of_many cfg (not_le.mp many)
    exact (completes s reached).1 stuck
  · intro few s reached
    have invariant := reached_invariant reached
    exact ⟨invariant.not_stuck few, invariant.finishes few⟩

def singletons (crc32c : Bytes → UInt32) : List Record → Recovery.WalDir
  | [] => ∅
  | r :: rest => (singletons crc32c rest).insert r.offset (Wal.encodeRecord crc32c r)

theorem singletons_get {crc32c : Bytes → UInt32} {records : List Record} {base : Int}
    {bytes : Bytes} (found : (singletons crc32c records)[base]? = some bytes) :
    ∃ r ∈ records, bytes = Wal.encodeRecord crc32c r := by
  induction records with
  | nil => simp [singletons] at found
  | cons r rest ih =>
    simp only [singletons, Dir.get_insert] at found
    split at found
    · cases found
      exact ⟨r, by simp, rfl⟩
    · obtain ⟨other, member, same⟩ := ih found
      exact ⟨other, by simp [member], same⟩

/-- When nothing is listed, every file but the last is an orphan. -/
theorem orphanSegments_singletons (env : Externals) {records : List Record}
    (fits : ∀ r ∈ records, Wal.Fits r) :
    (orphanSegments env ⟨singletons env.crc32c records, ⟨∅, Manifest.empty⟩⟩).length =
      (singletons env.crc32c records).size - 1 := by
  have kept : ∀ base ∈ (singletons env.crc32c records).keys,
      (Recovery.salvage env.crc32c Manifest.empty (singletons env.crc32c records) base).isSome := by
    intro base member
    obtain ⟨bytes, found⟩ := Option.isSome_iff_exists.mp ((Dir.mem_keys _).mp member)
    obtain ⟨r, inside, rfl⟩ := singletons_get found
    have scanned : (Wal.scanWal env.crc32c (Wal.encodeRecord env.crc32c r)).1 = [r] := by
      have whole : (Wal.scanWal env.crc32c (Wal.encodeAll env.crc32c [r])).1 = [r] :=
        Wal.scan_encodeAll (by simpa using fits r inside)
      simpa [Wal.encodeAll] using whole
    have unlisted : Recovery.covered Manifest.empty base = false := rfl
    simp [Recovery.salvage, unlisted, found, scanned]
  have all : (Restart.salvaged env.crc32c Manifest.empty (singletons env.crc32c records)).length =
      (singletons env.crc32c records).keys.length :=
    List.filterMap_length_eq_length.mpr kept
  rw [orphanSegments, Restart.recoverPartition_eq]
  simp [all, Std.ExtTreeMap.length_keys]

/-- A crash left 131 sealed segments that were never uploaded; all but the last are orphans. -/
def backlog : List Record := (List.range 131).map fun i : Nat => ⟨i, 1000, 7, [], [1]⟩

def backlogDisk : Disk := ⟨singletons externals.crc32c backlog, ⟨∅, Manifest.empty⟩⟩

theorem startup_stuck_backlogDisk : (orphanSegments externals backlogDisk).length = 130 ∧
    ∃ s, (machine externals settings backlogDisk).Leads
        (machine externals settings backlogDisk).initial s ∧
      Stuck externals s := by
  have fits : ∀ r ∈ backlog, Wal.Fits r := by
    intro r member
    obtain ⟨i, bound, rfl⟩ := List.mem_map.mp member
    have small := List.mem_range.mp bound
    have high : (i : Int) < 2 ^ 63 := by omega
    exact ⟨⟨by simp, high⟩, by simp, by simp [Wal.headerAfterLen]⟩
  have files : (singletons externals.crc32c backlog).size = 131 := by decide +kernel
  have many := orphanSegments_singletons externals fits
  rw [files] at many
  exact ⟨many, stuck_of_many settings (many ▸ by decide)⟩

end Kafkrs.Startup
