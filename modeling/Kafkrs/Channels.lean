import Kafkrs.Startup

/-! The bounded channels between one partition's actors: the writer's inbox, the uploader's
inbox, and the completions that the durable-forwarder carries from the uploader back to the
writer's inbox. The handlers are those of `Partition`; here a send into a full channel waits. -/
namespace Kafkrs.Channels

open Lib
open Kafkrs.Partition (Externals Disk Live History liveStep)
open Startup (uploaderCapacity durableCapacity held Waits)

def inboxCapacity : Nat := 256

/-- What clients send to a writer; a `Produce` is never empty. -/
inductive ClientMsg where
  | produce (first : IncomingRecord) (rest : List IncomingRecord)
  | locate (fromOffset : Int)
  | readActive (fromOffset : Int) (maxRecords : Nat)
  | updateConfig (cfg : ResolvedTopicConfig)

inductive PwMsg where
  | client (msg : ClientMsg)
  | segmentDurable (baseOffset : Int)

structure State where
  disk : Disk
  history : History
  writer : PartitionWriter
  inbox : List PwMsg
  uploader : Uploader
  durable : List Int
  /-- The completion the forwarder has received and not delivered yet. -/
  hand : Option Int

inductive Action where
  | client (msg : ClientMsg)
  /-- A `RetentionKick` or `UpdateConfig` for the uploader. -/
  | control (msg : ControlMsg)
  /-- The writer takes the next message. -/
  | receive (now : Nat → Int64)
  | commitTimeout
  /-- The writer goes on with the handler it is in. -/
  | writer
  | uploader (now : Int)
  | forward

def Action.isActor : Action → Bool
  | .client _ | .control _ => false
  | _ => true

namespace State

def live (s : State) : Live := ⟨[], s.writer, s.uploader, s.durable⟩

def partition (s : State) : Kafkrs.Partition.State := ⟨s.disk, some s.live, s.history⟩

/-- What a step of the unbounded model leaves, with the channels beside it kept. -/
def install (s : State) (p : Kafkrs.Partition.State) : Option State :=
  p.live.map fun l =>
    { s with
      disk := p.disk, history := p.history, writer := l.writer, uploader := l.uploader,
      durable := l.durable }

end State

section Steps

variable (env : Externals)

def handle (s : State) (action : Kafkrs.Partition.Action) : Option State :=
  (liveStep env s.partition s.live action).bind s.install

/-- The handler of one message. An offset counter at its end leaves the request undone. -/
def onMessage (now : Nat → Int64) (s : State) : PwMsg → Option State
  | .client (.produce first rest) => (handle env s (.produce (first :: rest) now)).orElse fun _ => some s
  | .client (.locate _) | .client (.readActive _ _) => some s
  | .client (.updateConfig cfg) => handle env s (.updateWriter cfg)
  | .segmentDurable base =>
    some { s with
      disk := { s.disk with wal := s.disk.wal.erase base }
      writer := s.writer.onDurable base }

def HandsOff : PartitionWriter.Phase → Bool
  | .handoff _ => true
  | _ => false

def step : Action → State → Option State
  | .client msg, s =>
    if s.inbox.length < inboxCapacity then some { s with inbox := s.inbox ++ [.client msg] } else none
  | .control msg, s =>
    if msg ≠ .shutdown ∧ s.uploader.rx.length < uploaderCapacity then handle env s (.enqueue msg) else none
  | .receive now, s =>
    match s.inbox with
    | [] => none
    | msg :: rest =>
      if s.writer.phase = .recv then onMessage env now { s with inbox := rest } msg else none
  | .commitTimeout, s => handle env s .commitTimeout
  | .writer, s =>
    if HandsOff s.writer.phase ∧ uploaderCapacity ≤ s.uploader.rx.length then none
    else handle env s .writer
  | .uploader now, s =>
    if Waits s.uploader.phase s.durable then none else handle env s (.uploader now)
  | .forward, s =>
    match s.hand with
    | some base =>
      if s.inbox.length < inboxCapacity then
        some { s with inbox := s.inbox ++ [.segmentDurable base], hand := none }
      else none
    | none =>
      match s.durable with
      | [] => none
      | base :: rest => some { s with durable := rest, hand := some base }

/-- Some channel holds a message and none of the actors can move. -/
def Deadlocked (s : State) : Prop :=
  (s.inbox ≠ [] ∨ s.uploader.rx ≠ [] ∨ s.durable ≠ []) ∧
    ∀ action, action.isActor = true → step env action s = none

end Steps

def machine (env : Externals) (start : State) : Machine State Action := ⟨start, step env⟩

def load (s : State) : Nat :=
  s.uploader.rx.length + held s.uploader.phase + s.durable.length + s.hand.toList.length

/-- The most that path holds: both channels, the uploader's hand and the forwarder's. -/
def pathCapacity : Nat := uploaderCapacity + 1 + durableCapacity + 1

/-- The writer starts no hand-off while the path is full, and no control message takes the
last place in it from a waiting writer. -/
def Uncongested (s : State) : Action → Prop
  | .writer => s.writer.phase = .seal → load s < pathCapacity
  | .control _ => HandsOff s.writer.phase = true → load s + 1 < pathCapacity
  | _ => True

instance (s : State) : ∀ action, Decidable (Uncongested s action)
  | .writer => inferInstanceAs (Decidable (_ → _))
  | .control _ => inferInstanceAs (Decidable (_ → _))
  | .client _ | .receive _ | .commitTimeout | .uploader _ | .forward => .isTrue trivial

structure Serving (w : PartitionWriter) : Prop where
  stopping : w.stopping = false
  started : w.phase ≠ .starting
  running : w.phase ≠ .stopped

structure Invariant (s : State) : Prop where
  serving : Serving s.writer
  running : s.uploader.phase ≠ .stopped
  unclosed : UploaderMsg.control .shutdown ∉ s.uploader.rx
  inbox : s.inbox.length ≤ inboxCapacity
  rx : s.uploader.rx.length ≤ uploaderCapacity
  durable : s.durable.length ≤ durableCapacity
  clear : HandsOff s.writer.phase = true → load s < pathCapacity

section Progress

variable {env : Externals} {s : State}

theorem handle_writer (env : Externals) (serving : Serving s.writer) (busy : s.writer.phase ≠ .recv) :
    ∃ t, handle env s .writer = some t := by
  cases phase : s.writer.phase with
  | recv => exact absurd phase busy
  | starting => exact absurd phase serving.started
  | stopped => exact absurd phase serving.running
  | commit | «seal» | handoff | openNext =>
    simp [handle, liveStep, Kafkrs.Partition.writerStep, State.live, State.install, phase]

theorem receive_enabled (now : Nat → Int64) (idle : s.writer.phase = .recv) {msg : PwMsg}
    {rest : List PwMsg} (inbox : s.inbox = msg :: rest) :
    ∃ t, step env (.receive now) s = some t := by
  simp only [step, inbox, idle, if_true]
  rcases msg with (⟨first, more⟩ | _ | _ | cfg) | base
  · simp only [onMessage]
    cases handle env { s with inbox := rest } (.produce (first :: more) now) with
    | none => exact ⟨_, rfl⟩
    | some t => exact ⟨t, rfl⟩
  · exact ⟨_, rfl⟩
  · exact ⟨_, rfl⟩
  · simp [onMessage, handle, liveStep, State.live, State.install, idle]
  · exact ⟨_, rfl⟩

theorem uploader_step_enabled (invariant : Invariant s) (mail : s.uploader.rx ≠ [])
    (free : Waits s.uploader.phase s.durable = false) : ∃ t, step env (.uploader 0) s = some t := by
  obtain ⟨effect, taken⟩ := Startup.uploader_enabled env 0 s.disk.store invariant.running
    (fun _ => mail)
  simp [step, free, handle, liveStep, Kafkrs.Partition.uploaderStep, State.live, State.partition,
    State.install, taken]

/-- A writer that waits for the uploader finds one of the other two able to move. -/
theorem path_moves (invariant : Invariant s) (waiting : HandsOff s.writer.phase = true)
    (full : uploaderCapacity ≤ s.uploader.rx.length) :
    ∃ action, action.isActor = true ∧ ∃ t, step env action s = some t := by
  have mail : s.uploader.rx ≠ [] := by
    intro empty
    simp [empty, uploaderCapacity] at full
  cases waits : Waits s.uploader.phase s.durable with
  | false => exact ⟨.uploader 0, rfl, uploader_step_enabled invariant mail waits⟩
  | true =>
    -- The uploader waits too, so the place left on the path is the forwarder's hand.
    obtain ⟨holds, completions⟩ := Startup.holds_of_waits waits
    have clear := invariant.clear waiting
    have idle : s.hand = none := by
      cases hand : s.hand with
      | none => rfl
      | some base =>
        simp only [load, pathCapacity, hand, Option.toList_some, List.length_singleton] at clear
        omega
    obtain ⟨base, rest, durable⟩ : ∃ base rest, s.durable = base :: rest := by
      apply List.exists_cons_of_length_pos
      have : 0 < durableCapacity := by decide
      omega
    exact ⟨.forward, rfl, by simp [step, idle, durable]⟩

/-- With an empty inbox at the writer, what is on the path moves on. -/
theorem idle_moves (invariant : Invariant s) (inbox : s.inbox = [])
    (mail : s.inbox ≠ [] ∨ s.uploader.rx ≠ [] ∨ s.durable ≠ []) :
    ∃ action, action.isActor = true ∧ ∃ t, step env action s = some t := by
  cases hand : s.hand with
  | some base => exact ⟨.forward, rfl, by simp [step, hand, inbox, inboxCapacity]⟩
  | none =>
    cases durable : s.durable with
    | cons base rest => exact ⟨.forward, rfl, by simp [step, hand, durable]⟩
    | nil =>
      have free : Waits s.uploader.phase s.durable = false := by
        by_contra waits
        have := (Startup.holds_of_waits (Bool.not_eq_false _ ▸ waits)).2
        simp [durable, durableCapacity] at this
      have rx : s.uploader.rx ≠ [] := by simpa [inbox, durable] using mail
      exact ⟨.uploader 0, rfl, uploader_step_enabled invariant rx free⟩

theorem Invariant.not_deadlocked (invariant : Invariant s) : ¬ Deadlocked env s := by
  rintro ⟨mail, blocked⟩
  suffices moves : ∃ action, action.isActor = true ∧ ∃ t, step env action s = some t by
    obtain ⟨action, actor, t, taken⟩ := moves
    rw [blocked action actor] at taken
    cases taken
  by_cases waiting : HandsOff s.writer.phase = true
  · by_cases full : uploaderCapacity ≤ s.uploader.rx.length
    · exact path_moves invariant waiting full
    · have busy : s.writer.phase ≠ .recv := by
        intro idle
        simp [HandsOff, idle] at waiting
      obtain ⟨t, taken⟩ := handle_writer env invariant.serving busy
      exact ⟨.writer, rfl, t, by simp [step, full, taken]⟩
  · by_cases idle : s.writer.phase = .recv
    · cases inbox : s.inbox with
      | cons msg rest =>
        exact ⟨.receive (fun _ => 0), rfl, receive_enabled _ idle inbox⟩
      | nil => exact idle_moves invariant inbox mail
    · obtain ⟨t, taken⟩ := handle_writer env invariant.serving idle
      exact ⟨.writer, rfl, t, by simp [step, waiting, taken]⟩

end Progress

section Steps

variable {env : Externals} {s t : State}

theorem handle_produce (idle : s.writer.phase = .recv) (first : IncomingRecord)
    (rest : List IncomingRecord) (now : Nat → Int64) :
    handle env s (.produce (first :: rest) now) =
      (s.writer.onProduce (first :: rest) now).map fun w => { s with writer := w } := by
  cases produced : s.writer.onProduce (first :: rest) now <;>
    simp [handle, liveStep, State.live, State.partition, State.install, idle, produced]

theorem handle_updateWriter (idle : s.writer.phase = .recv) (cfg : ResolvedTopicConfig) :
    handle env s (.updateWriter cfg) = some { s with writer := { s.writer with cfg := cfg } } := by
  simp [handle, liveStep, State.live, State.partition, State.install, idle]

theorem handle_commitTimeout (taken : handle env s .commitTimeout = some t) :
    t = { s with writer := { s.writer with phase := .commit } } := by
  obtain ⟨p, worked, installed⟩ := Option.bind_eq_some_iff.mp taken
  simp only [liveStep] at worked
  split at worked
  · cases worked
    cases installed
    rfl
  · contradiction

theorem handle_enqueue (msg : ControlMsg) : handle env s (.enqueue msg) = some
    { s with uploader := { s.uploader with rx := s.uploader.rx ++ [.control msg] } } := by
  simp [handle, liveStep, State.live, State.partition, State.install]

theorem handle_uploader {now : Int} (taken : handle env s (.uploader now) = some t) :
    ∃ effect history, s.uploader.step env.segmentSize now .ok s.disk.store = some effect ∧
      t = { s with
        disk := { s.disk with store := effect.store }
        history := history
        uploader := effect.uploader
        durable := s.durable ++ effect.durable } := by
  obtain ⟨p, worked, installed⟩ := Option.bind_eq_some_iff.mp taken
  obtain ⟨effect, stepped, rfl⟩ := Option.map_eq_some_iff.mp worked
  cases installed
  exact ⟨effect, _, stepped, rfl⟩

/-- What one step of a serving writer's handler does to the writer and the uploader's inbox. -/
theorem handle_writer_cases (taken : handle env s .writer = some t) :
    ∃ disk history w sent,
      t = { s with
        disk := disk, history := history, writer := w,
        uploader := { s.uploader with rx := s.uploader.rx ++ sent } } ∧
      ((s.writer.phase = .commit ∧ w = s.writer.flushCommit ∧ sent = []) ∨
        (s.writer.phase = .seal ∧ w = s.writer.sealActive ∧ sent = []) ∨
        (∃ batch, s.writer.phase = .handoff batch ∧ w = { s.writer with phase := .openNext } ∧
          sent = [.upload batch]) ∨
        (s.writer.phase = .openNext ∧ w = s.writer.openNext ∧ sent = [])) := by
  obtain ⟨p, worked, installed⟩ := Option.bind_eq_some_iff.mp taken
  simp only [liveStep, Kafkrs.Partition.writerStep, State.live, State.partition] at worked
  cases phase : s.writer.phase with
  | commit =>
    simp only [phase, Option.some.injEq] at worked
    subst worked
    cases installed
    exact ⟨_, _, _, [], by simp only [List.append_nil]; rfl, .inl ⟨rfl, rfl, rfl⟩⟩
  | «seal» =>
    simp only [phase, Option.some.injEq] at worked
    subst worked
    cases installed
    exact ⟨_, _, _, [], by simp only [List.append_nil]; rfl, .inr (.inl ⟨rfl, rfl, rfl⟩)⟩
  | handoff batch =>
    simp only [phase, Option.some.injEq] at worked
    subst worked
    cases installed
    exact ⟨_, _, _, _, rfl, .inr (.inr (.inl ⟨batch, rfl, rfl, rfl⟩))⟩
  | openNext =>
    simp only [phase, Option.some.injEq] at worked
    subst worked
    cases installed
    exact ⟨_, _, _, [], by simp only [List.append_nil]; rfl, .inr (.inr (.inr ⟨rfl, rfl, rfl⟩))⟩
  | starting | recv | stopped => simp [phase] at worked

/-- The writer has moved and the channels have not. -/
theorem Invariant.moved (invariant : Invariant s) {w : PartitionWriter} (serving : Serving w)
    (clear : HandsOff w.phase = true → load s < pathCapacity) (disk : Disk) (history : History) :
    Invariant { s with writer := w, disk := disk, history := history } :=
  ⟨serving, invariant.running, invariant.unclosed, invariant.inbox, invariant.rx, invariant.durable,
    clear⟩

theorem onProduce_serving {w w' : PartitionWriter} (serving : Serving w)
    {records : List IncomingRecord} {now : Nat → Int64} (produced : w.onProduce records now = some w') :
    Serving w' ∧ HandsOff w'.phase = false := by
  obtain ⟨_, phase, goes, rfl⟩ := PartitionWriter.onProduce_some produced
  rcases goes with rfl | rfl
  · exact ⟨⟨serving.stopping, by simp, by simp⟩, rfl⟩
  · exact ⟨⟨serving.stopping, by simp, by simp⟩, rfl⟩

theorem flushCommit_serving {w : PartitionWriter} (serving : Serving w) :
    Serving w.flushCommit ∧ HandsOff w.flushCommit.phase = false := by
  have stopping := serving.stopping
  unfold PartitionWriter.flushCommit
  split
  · simp only [stopping, Bool.false_eq_true, if_false]
    exact ⟨⟨rfl, by simp, by simp⟩, rfl⟩
  · dsimp only
    split
    · exact ⟨⟨stopping, by simp, by simp⟩, rfl⟩
    · exact ⟨⟨stopping, by simp, by simp⟩, rfl⟩

theorem sealActive_serving {w : PartitionWriter} (serving : Serving w) : Serving w.sealActive := by
  have stopping := serving.stopping
  unfold PartitionWriter.sealActive
  split
  · simp only [PartitionWriter.resume, stopping, Bool.false_eq_true, if_false]
    exact ⟨rfl, by simp, by simp⟩
  · exact ⟨stopping, by simp, by simp⟩

theorem Invariant.onMessage (invariant : Invariant s) (idle : s.writer.phase = .recv)
    {now : Nat → Int64} {msg : PwMsg} (taken : onMessage env now s msg = some t) : Invariant t := by
  rcases msg with (⟨first, more⟩ | _ | _ | cfg) | base
  · simp only [Channels.onMessage] at taken
    cases handled : handle env s (.produce (first :: more) now) with
    | none =>
      rw [handled] at taken
      cases taken
      exact invariant
    | some next =>
      rw [handled] at taken
      cases taken
      rw [handle_produce idle] at handled
      obtain ⟨w, produced, rfl⟩ := Option.map_eq_some_iff.mp handled
      obtain ⟨serving, free⟩ := onProduce_serving invariant.serving produced
      exact invariant.moved serving (by simp [free]) _ _
  · cases taken
    exact invariant
  · cases taken
    exact invariant
  · rw [Channels.onMessage, handle_updateWriter idle] at taken
    cases taken
    apply invariant.moved
    · exact ⟨invariant.serving.stopping, invariant.serving.started, invariant.serving.running⟩
    · simp [idle, HandsOff]
  · cases taken
    apply invariant.moved
    · exact ⟨invariant.serving.stopping, invariant.serving.started, invariant.serving.running⟩
    · simp [PartitionWriter.onDurable, idle, HandsOff]

theorem Invariant.writer (invariant : Invariant s) (uncongested : Uncongested s .writer)
    (taken : step env .writer s = some t) : Invariant t := by
  simp only [step] at taken
  split at taken
  · contradiction
  · rename_i room
    obtain ⟨disk, history, w, sent, rfl, cases⟩ := handle_writer_cases taken
    have serving := invariant.serving
    rcases cases with ⟨phase, rfl, rfl⟩ | ⟨phase, rfl, rfl⟩ | ⟨batch, phase, rfl, rfl⟩ | ⟨phase, rfl, rfl⟩
    · obtain ⟨serving, free⟩ := flushCommit_serving serving
      simp only [List.append_nil]
      exact invariant.moved serving (by simp [free]) _ _
    · simp only [List.append_nil]
      exact invariant.moved (sealActive_serving serving) (fun _ => uncongested phase) _ _
    · simp only [phase, HandsOff, true_and, not_le] at room
      refine ⟨⟨serving.stopping, by simp, by simp⟩, invariant.running, ?_, invariant.inbox, ?_,
        invariant.durable, by simp [HandsOff]⟩
      · simpa using invariant.unclosed
      · simpa using Nat.succ_le_of_lt room
    · simp only [List.append_nil]
      apply invariant.moved
      · simp only [PartitionWriter.openNext, PartitionWriter.resume, serving.stopping]
        exact ⟨rfl, by simp, by simp⟩
      · simp [PartitionWriter.openNext, PartitionWriter.resume, serving.stopping, HandsOff]

/-- The uploader reports one batch at a time, and only when it notifies. -/
theorem uploader_reports {u : Uploader} {store : Store} {now : Int} {effect : Uploader.Effect}
    (taken : u.step env.segmentSize now .ok store = some effect) :
    effect.durable = [] ∨ ∃ batch, u.phase = .notify batch ∧ effect.durable.length = 1 := by
  unfold Uploader.step at taken
  cases phase : u.phase with
  | notify batch =>
    simp only [phase, Option.some.injEq] at taken
    subst taken
    exact .inr ⟨batch, rfl, rfl⟩
  | recv =>
    left
    simp only [phase, Uploader.receive] at taken
    split at taken <;> cases taken <;> rfl
  | retention =>
    left
    simp only [phase] at taken
    split at taken <;> cases taken <;> rfl
  | delete evict => cases evict <;> simp only [phase, Option.some.injEq] at taken <;> subst taken <;> exact .inl rfl
  | putSegment | putManifest =>
    simp only [phase, Option.some.injEq] at taken
    subst taken
    exact .inl rfl
  | stopped => simp [phase] at taken

theorem Invariant.uploader (invariant : Invariant s) {now : Int}
    (taken : step env (.uploader now) s = some t) : Invariant t := by
  simp only [step] at taken
  split at taken
  · contradiction
  · rename_i room
    obtain ⟨effect, history, worked, rfl⟩ := handle_uploader taken
    obtain ⟨running, rx, flow, _⟩ := Startup.uploader_flow invariant.unclosed worked
    refine ⟨invariant.serving, running, fun member => invariant.unclosed (rx.subset member),
      invariant.inbox, rx.length_le.trans invariant.rx, ?_, fun waiting => ?_⟩
    · have bounded := invariant.durable
      rw [List.length_append]
      rcases uploader_reports worked with none | ⟨batch, phase, one⟩
      · simpa [none] using bounded
      · simp only [phase, Waits, decide_eq_true_eq, not_le] at room
        omega
    · have clear := invariant.clear waiting
      simp only [load, List.length_append] at clear ⊢
      omega

theorem Invariant.forward (invariant : Invariant s) (taken : step env .forward s = some t) :
    Invariant t := by
  simp only [step] at taken
  split at taken
  · rename_i base hand
    split at taken
    · rename_i room
      cases taken
      refine ⟨invariant.serving, invariant.running, invariant.unclosed, ?_, invariant.rx,
        invariant.durable, fun waiting => ?_⟩
      · simpa using Nat.succ_le_of_lt room
      · have clear := invariant.clear waiting
        simp only [load, hand, Option.toList_some, Option.toList_none, List.length_singleton,
          List.length_nil] at clear ⊢
        omega
    · contradiction
  · rename_i hand
    split at taken
    · contradiction
    · rename_i base rest durable
      cases taken
      have bounded := invariant.durable
      rw [durable, List.length_cons] at bounded
      refine ⟨invariant.serving, invariant.running, invariant.unclosed, invariant.inbox,
        invariant.rx, ?_, fun waiting => ?_⟩
      · exact Nat.le_of_succ_le bounded
      · have clear := invariant.clear waiting
        simp only [load, hand, durable, Option.toList_some, Option.toList_none, List.length_cons,
          List.length_nil] at clear ⊢
        omega

theorem Invariant.step (invariant : Invariant s) {action : Action}
    (uncongested : Uncongested s action) (taken : step env action s = some t) : Invariant t := by
  cases action with
  | client msg =>
    simp only [Channels.step] at taken
    split at taken
    · rename_i room
      cases taken
      exact ⟨invariant.serving, invariant.running, invariant.unclosed,
        by simpa using Nat.succ_le_of_lt room, invariant.rx, invariant.durable, invariant.clear⟩
    · contradiction
  | control msg =>
    simp only [Channels.step] at taken
    split at taken
    · rename_i room
      rw [handle_enqueue] at taken
      cases taken
      refine ⟨invariant.serving, invariant.running, ?_, invariant.inbox,
        by simpa using Nat.succ_le_of_lt room.2, invariant.durable, fun waiting => ?_⟩
      · simpa [Ne.symm room.1] using invariant.unclosed
      · have clear : load s + 1 < pathCapacity := uncongested waiting
        simp only [load, List.length_append, List.length_singleton] at clear ⊢
        omega
    · contradiction
  | receive now =>
    simp only [Channels.step] at taken
    split at taken
    · contradiction
    · rename_i msg rest inbox
      split at taken
      · rename_i idle
        have bounded := invariant.inbox
        rw [inbox, List.length_cons] at bounded
        have popped : Invariant { s with inbox := rest } :=
          ⟨invariant.serving, invariant.running, invariant.unclosed, Nat.le_of_succ_le bounded,
            invariant.rx, invariant.durable, invariant.clear⟩
        exact popped.onMessage idle taken
      · contradiction
  | commitTimeout =>
    rw [handle_commitTimeout taken]
    apply invariant.moved
    · exact ⟨invariant.serving.stopping, by simp, by simp⟩
    · simp [HandsOff]
  | writer => exact invariant.writer uncongested taken
  | uploader now => exact invariant.uploader taken
  | forward => exact invariant.forward taken

end Steps

section Refinement

variable {env : Externals} {s t : State}

def PwMsg.completion : PwMsg → Option Int
  | .segmentDurable base => some base
  | .client _ => none

/-- The completions on their way, oldest first: in the writer's inbox, in the forwarder's hand,
in the channel. -/
def State.completions (s : State) : List Int :=
  s.inbox.filterMap PwMsg.completion ++ s.hand.toList ++ s.durable

def State.unbounded (s : State) : Kafkrs.Partition.State :=
  ⟨s.disk, some { s.live with durable := s.completions }, s.history⟩

def Plain : Kafkrs.Partition.Action → Bool
  | .produce .. | .commitTimeout | .updateWriter _ | .writer | .enqueue _ | .uploader _ => true
  | _ => false

def carry (front : List Int) (p : Kafkrs.Partition.State) : Kafkrs.Partition.State :=
  { p with live := p.live.map fun l => { l with durable := front ++ l.durable } }

/-- A plain handler only adds to the completions. -/
theorem liveStep_carry (env : Externals) {b : Kafkrs.Partition.Action} (plain : Plain b = true) (front : List Int)
    (p : Kafkrs.Partition.State) (l : Live) :
    liveStep env (carry front p) { l with durable := front ++ l.durable } b =
      (liveStep env p l b).map (carry front) := by
  cases b with
  | produce records now =>
    simp only [liveStep]
    split
    · cases produced : l.writer.onProduce records now <;> rfl
    · rfl
  | commitTimeout =>
    simp only [liveStep]
    split <;> rfl
  | updateWriter cfg =>
    simp only [liveStep]
    split <;> rfl
  | writer =>
    simp only [liveStep, Kafkrs.Partition.writerStep]
    cases l.writer.phase <;> rfl
  | enqueue msg => rfl
  | uploader now =>
    simp only [liveStep, Kafkrs.Partition.uploaderStep, carry]
    cases l.uploader.step env.segmentSize now .ok p.disk.store with
    | none => rfl
    | some effect => simp [carry, List.append_assoc]
  | sendOrphan | openWriter | segmentDurable | shutdownWriter | crash | interrupt | start =>
    simp [Plain] at plain

theorem liveStep_orphans {b : Kafkrs.Partition.Action} (plain : Plain b = true)
    {p p' : Kafkrs.Partition.State} {l l' : Live} (worked : liveStep env p l b = some p')
    (running : p'.live = some l') : l'.orphans = l.orphans := by
  cases Kafkrs.Partition.liveStep_moved worked with
  | sendOrphan | openWriter | segmentDurable | shutdownWriter | crash => simp [Plain] at plain
  | produce | commitTimeout | updateWriter | commit | sealActive | handoff | openNext | enqueue
  | uploader =>
    cases running
    rfl

theorem handle_refines {b : Kafkrs.Partition.Action} (plain : Plain b = true)
    (taken : handle env s b = some t) :
    Kafkrs.Partition.step env b s.unbounded = some t.unbounded := by
  obtain ⟨p, worked, installed⟩ := Option.bind_eq_some_iff.mp taken
  obtain ⟨l, running, rfl⟩ := Option.map_eq_some_iff.mp installed
  have orphans : l.orphans = [] := liveStep_orphans plain worked running
  have carried := liveStep_carry env plain
    (s.inbox.filterMap PwMsg.completion ++ s.hand.toList) s.partition s.live
  rw [worked] at carried
  refine Eq.trans carried (congrArg some ?_)
  obtain ⟨o, w, u, d⟩ := l
  simp only at orphans
  simp [carry, running, State.unbounded, State.live, State.completions, orphans]

def FromInbox (s : State) (b : Kafkrs.Partition.Action) : Prop :=
  ∀ records now, b = .produce records now →
    ∃ first rest, records = first :: rest ∧ .client (.produce first rest) ∈ s.inbox

/-- Bounded channels delay sends and add no behaviour: each step is one of the unbounded
partition, or invisible there. -/
theorem step_refines {action : Action} (taken : step env action s = some t) :
    t.unbounded = s.unbounded ∨
      ∃ b, FromInbox s b ∧ Kafkrs.Partition.step env b s.unbounded = some t.unbounded := by
  cases action with
  | client msg =>
    simp only [step] at taken
    split at taken
    · cases taken
      left
      simp [State.unbounded, State.live, State.completions, PwMsg.completion]
    · contradiction
  | control msg =>
    simp only [step] at taken
    split at taken
    · exact .inr ⟨_, by simp [FromInbox], handle_refines rfl taken⟩
    · contradiction
  | receive now =>
    simp only [step] at taken
    split at taken
    · contradiction
    · rename_i msg rest inbox
      split at taken
      · rename_i idle
        rcases msg with client | base
        · have popped : { s with inbox := rest }.unbounded = s.unbounded := by
            simp [State.unbounded, State.live, State.completions, inbox, PwMsg.completion,
              List.filterMap_cons]
          rw [← popped]
          rcases client with ⟨first, more⟩ | _ | _ | cfg
          · simp only [onMessage] at taken
            cases handled : handle env { s with inbox := rest } (.produce (first :: more) now) with
            | none =>
              rw [handled] at taken
              cases taken
              exact .inl rfl
            | some next =>
              rw [handled] at taken
              cases taken
              refine .inr ⟨_, fun records clock same => ?_, handle_refines rfl handled⟩
              obtain ⟨rfl, _⟩ := Kafkrs.Partition.Action.produce.inj same
              exact ⟨first, more, rfl, by simp [inbox]⟩
          · cases taken
            exact .inl rfl
          · cases taken
            exact .inl rfl
          · exact .inr ⟨_, by simp [FromInbox], handle_refines rfl taken⟩
        · cases taken
          right
          refine ⟨.segmentDurable, by simp [FromInbox], ?_⟩
          simp [Kafkrs.Partition.step, State.unbounded, State.live, State.completions, liveStep,
            inbox, PwMsg.completion, idle]
      · contradiction
  | commitTimeout => exact .inr ⟨_, by simp [FromInbox], handle_refines rfl taken⟩
  | writer =>
    simp only [step] at taken
    split at taken
    · contradiction
    · exact .inr ⟨_, by simp [FromInbox], handle_refines rfl taken⟩
  | uploader now =>
    simp only [step] at taken
    split at taken
    · contradiction
    · exact .inr ⟨_, by simp [FromInbox], handle_refines rfl taken⟩
  | forward =>
    left
    simp only [step] at taken
    split at taken
    · rename_i base hand
      split at taken
      · cases taken
        simp [State.unbounded, State.live, State.completions, hand, PwMsg.completion]
      · contradiction
    · rename_i hand
      split at taken
      · contradiction
      · rename_i base rest durable
        cases taken
        simp [State.unbounded, State.live, State.completions, hand, durable]

theorem leads_refines {start : State} (leads : (machine env start).Leads s t) :
    (Kafkrs.Partition.machine env).Leads s.unbounded t.unbounded := by
  obtain ⟨schedule, ran⟩ := leads
  induction schedule generalizing s with
  | nil => cases ran; exact .refl _
  | cons action schedule ih =>
    obtain ⟨next, taken, rest⟩ := Machine.execute_cons ran
    rcases step_refines taken with same | ⟨b, _, step⟩
    · rw [← same]
      exact ih rest
    · exact (Machine.Leads.step b step).trans (ih rest)

end Refinement

/-- A partition whose start-up has finished; recovered segments may still be on the path. -/
structure Started (s : State) : Prop where
  serving : Serving s.writer
  idle : s.writer.phase = .recv
  running : s.uploader.phase ≠ .stopped
  unclosed : UploaderMsg.control .shutdown ∉ s.uploader.rx
  rx : s.uploader.rx.length ≤ uploaderCapacity
  durable : s.durable.length ≤ durableCapacity
  inbox : s.inbox.length ≤ inboxCapacity

theorem Started.invariant {s : State} (started : Started s) : Invariant s :=
  ⟨started.serving, started.running, started.unclosed, started.inbox, started.rx,
    started.durable, by simp [started.idle, HandsOff]⟩

/-- In every run without congestion, whenever a channel holds a message some actor can move. -/
theorem never_deadlocked (env : Externals) {start s : State} (started : Started start)
    (reached : (machine env start).Reaches Uncongested s) : ¬ Deadlocked env s := by
  have invariant : Invariant s := Machine.Reaches.invariant started.invariant
    (fun _ _ _ invariant uncongested taken => invariant.step uncongested taken) reached
  exact invariant.not_deadlocked

def freshStart : State where
  disk := ⟨∅, ⟨∅, Manifest.empty⟩⟩
  history := ⟨[], [], []⟩
  writer :=
    { PartitionWriter.new { Kafkrs.Partition.settings with segmentSizeBytes := 1 } 0 [] with
      phase := .recv }
  inbox := []
  uploader := Uploader.new Kafkrs.Partition.settings
  durable := []
  hand := none

theorem freshStart_started : Started freshStart :=
  ⟨⟨rfl, by decide, by decide⟩, rfl, by decide, by decide, by decide, by decide, by decide⟩

def produceOne : Action := .client (.produce ⟨7, [], [1], 1000⟩ [])

/-- The writer commits, seals and hands off one record, and a client refills its inbox. -/
def sealRound : List Action :=
  [.receive (fun _ => 0), .writer, .writer, .writer, .writer, produceOne]

/-- The inbox is kept full of requests, so that completions fill the path from its end: the
forwarder's hand, their channel, the uploader's hand, the uploader's inbox. -/
def fillRun : List Action :=
  List.replicate 256 produceOne ++ sealRound ++ List.replicate 5 (.uploader 0) ++ [.forward] ++
    (List.replicate 64 (sealRound ++ List.replicate 5 (.uploader 0))).flatten ++
    sealRound ++ List.replicate 3 (.uploader 0) ++ (List.replicate 64 sealRound).flatten

/-- The path and the inbox are full; once one more segment is sealed, the writer waits as well. -/
theorem fillRun_fills : ∃ s full,
    (machine Kafkrs.Partition.externals freshStart).execute fillRun freshStart = some s ∧
      load s = pathCapacity ∧ s.inbox.length = inboxCapacity ∧
      (machine Kafkrs.Partition.externals freshStart).execute
        [.receive (fun _ => 0), .writer, .writer, produceOne] s = some full ∧
      full.inbox.length = inboxCapacity ∧ HandsOff full.writer.phase = true ∧
      uploaderCapacity ≤ full.uploader.rx.length ∧
      Waits full.uploader.phase full.durable = true ∧ full.hand.isSome = true := by
  have runs : ((machine Kafkrs.Partition.externals freshStart).execute fillRun freshStart).any
      (fun s => load s == pathCapacity && s.inbox.length == inboxCapacity &&
        ((machine Kafkrs.Partition.externals freshStart).execute
          [.receive (fun _ => 0), .writer, .writer, produceOne] s).any
          (fun s => s.inbox.length == inboxCapacity && HandsOff s.writer.phase &&
            uploaderCapacity ≤ s.uploader.rx.length && Waits s.uploader.phase s.durable &&
            s.hand.isSome)) = true := by
    decide +kernel
  obtain ⟨s, ran, facts⟩ := Option.any_eq_true _ _ |>.mp runs
  simp only [Bool.and_eq_true, beq_iff_eq] at facts
  obtain ⟨⟨loaded, inbox⟩, further⟩ := facts
  obtain ⟨full, ran', facts⟩ := Option.any_eq_true _ _ |>.mp further
  simp only [Bool.and_eq_true, beq_iff_eq, decide_eq_true_eq] at facts
  obtain ⟨⟨⟨⟨again, waiting⟩, rx⟩, waits⟩, hand⟩ := facts
  exact ⟨s, full, ran, loaded, inbox, ran', again, waiting, rx, waits, hand⟩

theorem never_deadlocked_fillRun : ∃ s,
    (machine Kafkrs.Partition.externals freshStart).execute fillRun freshStart = some s ∧
      load s = pathCapacity ∧ s.inbox.length = inboxCapacity ∧
      ¬ Deadlocked Kafkrs.Partition.externals s := by
  obtain ⟨s, _, ran, loaded, inbox, _⟩ := fillRun_fills
  have along : (machine Kafkrs.Partition.externals freshStart).Along Uncongested fillRun
      freshStart := by decide +kernel
  exact ⟨s, ran, loaded, inbox, never_deadlocked _ freshStart_started ⟨fillRun, along, ran⟩⟩

/-- The cycle of blocked sends. -/
theorem deadlocked_of_full {env : Externals} {s : State} (inbox : s.inbox.length = inboxCapacity)
    (waiting : HandsOff s.writer.phase = true) (rx : uploaderCapacity ≤ s.uploader.rx.length)
    (waits : Waits s.uploader.phase s.durable = true) (hand : s.hand.isSome = true) :
    Deadlocked env s := by
  obtain ⟨base, hand⟩ := Option.isSome_iff_exists.mp hand
  have busy : s.writer.phase ≠ .recv := by
    intro idle
    simp [HandsOff, idle] at waiting
  constructor
  · left
    intro empty
    simp [empty, inboxCapacity] at inbox
  · intro action actor
    cases action with
    | client msg => simp [Action.isActor] at actor
    | control msg => simp [Action.isActor] at actor
    | receive now => cases inbox : s.inbox <;> simp [step, inbox, busy]
    | commitTimeout => simp [step, handle, liveStep, State.live, busy]
    | writer => simp [step, waiting, rx]
    | uploader now => simp [step, waits]
    | forward => simp [step, hand, inbox]

/-- One more segment is sealed when the path is full. -/
def deadlockRun : List Action := fillRun ++ [.receive (fun _ => 0), .writer, .writer, produceOne]

theorem deadlocked_deadlockRun : ∃ s,
    (machine Kafkrs.Partition.externals freshStart).execute deadlockRun freshStart = some s ∧
      Deadlocked Kafkrs.Partition.externals s := by
  obtain ⟨s, full, ran, _, _, ran', inbox, waiting, rx, waits, hand⟩ := fillRun_fills
  refine ⟨full, ?_, deadlocked_of_full inbox waiting rx waits hand⟩
  rw [deadlockRun, Machine.execute_append, ran]
  exact ran'

end Kafkrs.Channels
