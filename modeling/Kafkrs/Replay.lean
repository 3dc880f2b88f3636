import Kafkrs.FetchCoverage
import Kafkrs.StableReads

/-! A reader of one partition: it fetches, goes on after the last record it got, and keeps its
position when the broker crashes or a fetch comes back empty. This is what `fetch` and the offsets
of its records are for; the partition, its restarts and the fetches' own steps go on meanwhile. -/
namespace Kafkrs.Replay

open Lib Kafkrs.Partition Refinement Continuity RecoveredLog Fetching StableReads

structure State where
  broker : Fetcher.State
  position : Int
  read : List Record

inductive Action where
  | partition (action : Partition.Action)
  /-- The reader sends a fetch from its position. -/
  | ask (maxRecords maxWaitMs : Nat)
  /-- The fetch takes a step. -/
  | fetch
  /-- The reader gets the response. -/
  | take

def take (s : State) : Option State :=
  match s.broker.fetch with
  | some ⟨_, .done (.ok resp)⟩ =>
    some
      { broker := { s.broker with fetch := none }
        position := (resp.records.getLast?.map (·.offset + 1)).getD s.position
        read := s.read ++ resp.records }
  | some ⟨_, .done (.error _)⟩ => some { s with broker := { s.broker with fetch := none } }
  | _ => none

def step (env : Externals) : Action → State → Option State
  | .partition action, s =>
    (Fetcher.joint env (.partition action) s.broker).map fun broker => { s with broker := broker }
  | .ask maxRecords maxWaitMs, s =>
    (Fetcher.joint env (.begin ⟨s.position, maxRecords, maxWaitMs⟩) s.broker).map
      fun broker => { s with broker := broker }
  | .fetch, s => (Fetcher.joint env .fetch s.broker).map fun broker => { s with broker := broker }
  | .take, s => take s

def initial (start : Nat) : State := ⟨⟨fresh, none⟩, start, []⟩

def machine (env : Externals) (start : Nat) : Machine State Action := ⟨initial start, step env⟩

/-- Restarts find clean disks, and no `ReadActive` is handled after the active batch moved on. -/
def Admitted (env : Externals) (s : State) : Action → Prop
  | .partition action => Admits (cleanly env) s.broker.partition action
  | .fetch => InPlace s.broker .fetch
  | .ask _ _ | .take => True

instance (env : Externals) (s : State) : DecidablePred (Admitted env s)
  | .partition action => inferInstanceAs (Decidable (Admits (cleanly env) s.broker.partition action))
  | .fetch => inferInstanceAs (Decidable (InPlace s.broker .fetch))
  | .ask _ _ | .take => .isTrue trivial

section Slice

/-- Consecutive members of the log, from `start` on, are a piece of it. -/
theorem slice_of_members {log xs : List Record} {start : Nat}
    (whole : Numbered Record.offset 0 log) (numbered : Numbered Record.offset start xs)
    (inside : ∀ r ∈ xs, r ∈ log) : xs = (log.drop start).take xs.length := by
  apply List.ext_getElem?
  intro n
  by_cases bound : n < xs.length
  · have offset := numbered.get bound
    have here := log_at whole (inside _ (List.getElem_mem bound))
    rw [offset, ← Int.natCast_add, Int.toNat_natCast] at here
    rw [List.getElem?_take_of_lt bound, List.getElem?_drop, here, List.getElem?_eq_getElem bound]
  · rw [List.getElem?_eq_none (by omega), List.getElem?_take_eq_none (by omega)]

end Slice

section Following

variable {env : Externals} {start : Nat} {s next : State}

/-- What has been read so far is consecutive, from the log, and ends at the position; the fetch
under way asks from there. -/
structure Following (env : Externals) (start : Nat) (s : State) : Prop where
  sourced : Sourced env s.broker
  position : s.position = start + s.read.length
  numbered : Numbered Record.offset start s.read
  logged : ∀ r ∈ s.read, r ∈ s.broker.partition.history.log
  asked : ∀ f, s.broker.fetch = some f → f.req.fromOffset = s.position
  consecutive : Consecutive s.broker

theorem Following.initial (env : Externals) (start : Nat) : Following env start (initial start) :=
  ⟨initial_sourced env, by simp [Replay.initial], trivial, fun _ none => (by cases none),
    fun _ none => (by cases none), initial_consecutive⟩

/-- The reader's side is as it was. -/
theorem Following.moved (following : Following env start s) {broker : Fetcher.State}
    (sourced : Sourced env broker)
    (grown : s.broker.partition.history.log <+: broker.partition.history.log)
    (asked : ∀ f, broker.fetch = some f → f.req.fromOffset = s.position)
    (consecutive : Consecutive broker) : Following env start { s with broker := broker } :=
  ⟨sourced, following.position, following.numbered,
    fun r member => grown.subset (following.logged r member), asked, consecutive⟩

theorem Following.partition (following : Following env start s) {action : Partition.Action}
    (admits : Admits (cleanly env) s.broker.partition action)
    (taken : step env (.partition action) s = some next) : Following env start next := by
  obtain ⟨broker, moved, rfl⟩ := Option.map_eq_some_iff.mp taken
  have sourced := following.sourced.partition admits moved
  obtain ⟨after, stepped, rfl⟩ := Option.map_eq_some_iff.mp moved
  refine following.moved sourced (HighWaterMark.step_log stepped) ?_ ?_
  · intro f fetching
    dsimp only at fetching
    split at fetching
    · exact following.asked f fetching
    · cases fetching
  · intro f resp fetching finished
    dsimp only at fetching
    split at fetching
    · exact following.consecutive f resp fetching finished
    · cases fetching

theorem Following.ask (following : Following env start s) {maxRecords maxWaitMs : Nat}
    (taken : step env (.ask maxRecords maxWaitMs) s = some next) : Following env start next := by
  obtain ⟨broker, begun, rfl⟩ := Option.map_eq_some_iff.mp taken
  have same := @begin_partition env _ _ _ begun
  have sourced := @Sourced.step env s.broker broker following.sourced
    (.begin ⟨s.position, maxRecords, maxWaitMs⟩) trivial begun
  refine following.moved sourced (same ▸ List.prefix_rfl) ?_ ?_
  · intro f fetching
    rw [← begin_fetch begun fetching]
    rfl
  · intro f resp fetching finished
    rw [← begin_fetch begun fetching] at finished
    simp only [Fetcher.start] at finished
    split at finished <;> cases finished

theorem Following.fetch (following : Following env start s) (inPlace : InPlace s.broker .fetch)
    (taken : step env .fetch s = some next) : Following env start next := by
  obtain ⟨broker, stepped, rfl⟩ := Option.map_eq_some_iff.mp taken
  have consecutive := (fetch_consecutive_iff following.sourced.base stepped).mpr inPlace
  obtain ⟨l, f, live, fetching, same, outcome⟩ := fetch_step_cases stepped
  refine following.moved (following.sourced.fetch stepped) (same ▸ List.prefix_rfl) ?_ consecutive
  intro g now
  have asked := following.asked f fetching
  rcases outcome with ⟨_, moved⟩ | ⟨_, _, moved⟩
  all_goals
    rw [moved] at now
    obtain rfl := Option.some.inj now
    exact asked

theorem Following.take (following : Following env start s)
    (taken : step env .take s = some next) : Following env start next := by
  have cleared : Sourced env { s.broker with fetch := none } :=
    ⟨⟨following.sourced.base.whole, fun _ _ _ _ none => (by cases none)⟩,
      fun _ _ _ _ none => (by cases none), fun _ _ none => by cases none⟩
  simp only [step, Replay.take] at taken
  split at taken
  next req resp fetching =>
    cases taken
    have asked := following.asked _ fetching
    have logged := following.sourced.answered _ resp fetching rfl
    have consecutive := following.consecutive _ resp fetching rfl
    rw [asked, following.position] at consecutive
    refine ⟨cleared, ?_, Numbered.append_iff.mpr ⟨following.numbered, consecutive⟩, ?_,
      fun _ none => (by cases none), fun _ _ none => by cases none⟩
    · have position := following.position
      dsimp only
      cases last : resp.records.getLast? with
      | none =>
        rw [List.getLast?_eq_none_iff.mp last]
        simpa using position
      | some r =>
        have offset := consecutive.last last
        simp only [Option.map_some, Option.getD_some, List.length_append]
        push_cast
        omega
    · intro r member
      rcases List.mem_append.mp member with old | new
      · exact following.logged r old
      · exact logged r new
  next => 
    cases taken
    exact following.moved cleared List.prefix_rfl (fun _ none => (by cases none))
      fun _ _ none => by cases none
  · cases taken

theorem Following.step (following : Following env start s) {action : Action}
    (admitted : Admitted env s action) (taken : Replay.step env action s = some next) :
    Following env start next := by
  cases action with
  | partition action => exact following.partition admitted taken
  | ask maxRecords maxWaitMs => exact following.ask taken
  | fetch => exact following.fetch admitted taken
  | take => exact following.take taken

theorem Following.slice (following : Following env start s) :
    s.read = (s.broker.partition.history.log.drop start).take s.read.length :=
  slice_of_members (log_numbered following.sourced.base.whole) following.numbered following.logged

end Following

section CatchingUp

variable {env : Externals} {start : Nat} {s next : State} {l : Live}

/-- Nothing sealed waits for its upload, nothing received for its commit. -/
structure Settled (l : Live) : Prop where
  idle : l.writer.phase = .recv
  committed : l.writer.pending = []
  uploaded : (view l).backlog = []

/-- A fetch that nothing interrupts serves a settled partition's reader from every offset that is
committed and not evicted. -/
theorem fetchNow_serves (whole : Whole env (cleanly env) s.broker.partition)
    (live : s.broker.partition.live = some l) (settled : Settled l) {req : FetchRequest}
    (limit : 1 ≤ req.maxRecords)
    (low : (s.broker.partition.history.evicted.length : Int) ≤ req.fromOffset)
    (high : req.fromOffset < s.broker.partition.history.log.length) :
    ∃ resp, Fetcher.fetchNow l.writer s.broker.partition.disk.store req = .done (.ok resp) ∧
      resp.records ≠ [] ∧ Numbered Record.offset req.fromOffset resp.records ∧
      ∀ r ∈ resp.records, r ∈ s.broker.partition.history.log := by
  have linked := whole.continuous.live (view l) (by simp [abstract, live])
  have chained := linked.chained
  have natural : 0 ≤ req.fromOffset := by omega
  have length := InMemory.log_length whole live
  have reachable : req.fromOffset ≤ l.writer.hwm := by
    simp only [PartitionWriter.hwm, settled.committed, List.length_nil] at length ⊢
    omega
  have filled {records : List Record}
      (head : records.head?.map (·.offset) = some req.fromOffset) : records ≠ [] := by
    rintro rfl
    cases head
  obtain ⟨first, numbered, _, ending⟩ := active_numbered whole live
  rcases FetchCoverage.locate_cases l.writer reachable with ⟨located, r, head, inside⟩ | ⟨located, above⟩
  · have begins := numbered.head head
    refine ⟨_, FetchCoverage.fetchNow_active natural located, filled ?_,
      selection_numbered numbered (by omega) _, selected_log (active_log whole live)⟩
    exact FetchCoverage.selection_head numbered (by omega) (by omega) limit
  · obtain ⟨inFlight, _, outcome⟩ :=
      FetchCoverage.fetchNow_store s.broker.partition.disk.store natural located
    have uploaded : req.fromOffset < uploadedEnd s.broker.partition.disk.store.manifest := by
      have tail := chained.length
      simp only [settled.uploaded, List.nil_append, abstract] at tail
      have only : ((view l).active.toList.flatMap Prod.snd) = l.writer.active := by
        simp [view, settled.idle, between]
      rw [only] at tail
      cases active : l.writer.active with
      | nil => rw [active, List.length_nil] at tail; omega
      | cons r rest =>
        have := above r (by simp [active])
        have := numbered.head (show l.writer.active.head? = some r by simp [active])
        omega
    obtain ⟨seg, records, found, object, own, base, top⟩ := FetchCoverage.segmentForOffset_found
      chained whole.inv.valid.durable.ordered low uploaded
    simp only [abstract] at found object
    obtain ⟨entry, _⟩ := segmentForOffset_mem found
    refine ⟨⟨Fetcher.selected req records,
      s.broker.partition.disk.store.manifest.lastUploadedOffset.getD (-1)⟩, ?_, filled ?_,
      selection_numbered own base _, selected_log (listed_log whole live entry object)⟩
    · simp only [outcome, found, Fetcher.segmentRead, object]
    · exact FetchCoverage.selection_head own base top limit

def Own : Action → Bool
  | .partition _ => false
  | _ => true

theorem execute_fetch {k : Nat} {broker : Fetcher.State}
    (ran : (Fetcher.machine env).execute (List.replicate k .fetch) s.broker = some broker) :
    (machine env start).execute (List.replicate k .fetch) s = some { s with broker := broker } := by
  induction k generalizing s with
  | zero => cases ran; rfl
  | succ k ih =>
    obtain ⟨middle, taken, rest⟩ := Machine.execute_cons ran
    have stepped : step env .fetch s = some { s with broker := middle } := by
      simp only [step, show Fetcher.joint env .fetch s.broker = some middle from taken,
        Option.map_some]
    rw [List.replicate_succ, Machine.execute_step (show (machine env start).step .fetch s = _ from stepped)]
    exact ih (s := { s with broker := middle }) rest

/-- One round trip of the reader on a settled partition brings it forward. -/
theorem round_reads (whole : Whole env (cleanly env) s.broker.partition)
    (live : s.broker.partition.live = some l) (settled : Settled l) {limit : Nat}
    (some' : 1 ≤ limit)
    (low : (s.broker.partition.history.evicted.length : Int) ≤ s.position)
    (high : s.position < s.broker.partition.history.log.length) :
    ∃ schedule records, schedule.all Own = true ∧ records ≠ [] ∧
      Numbered Record.offset s.position records ∧
      (∀ r ∈ records, r ∈ s.broker.partition.history.log) ∧
      (machine env start).execute schedule s = some
        ⟨⟨s.broker.partition, none⟩, s.position + records.length, s.read ++ records⟩ := by
  obtain ⟨resp, served, filled, numbered, logged⟩ :=
    @fetchNow_serves env s l whole live settled ⟨s.position, limit, 0⟩ some' low high
  obtain ⟨k, _, ran⟩ := FetchCoverage.alone_runs env live settled.idle 5
    (Fetcher.start ⟨s.position, limit, 0⟩)
  refine ⟨.ask limit 0 :: (List.replicate k .fetch ++ [.take]), resp.records, ?_, filled, numbered,
    logged, ?_⟩
  · simp [Own]
  · have begun : step env (.ask limit 0) s = some { s with
        broker := ⟨s.broker.partition, some (Fetcher.start ⟨s.position, limit, 0⟩)⟩ } := by
      simp [step, Fetcher.joint, live, settled.idle]
    have fetched := @execute_fetch env start { s with
      broker := ⟨s.broker.partition, some (Fetcher.start ⟨s.position, limit, 0⟩)⟩ } _ _ ran
    rw [Machine.execute_step (show (machine env start).step (.ask limit 0) s = _ from begun),
      Machine.execute_append, fetched, Option.bind_some]
    simp only [Fetcher.fetchNow] at served
    generalize Fetcher.alone l.writer s.broker.partition.disk.store 5
      (Fetcher.start ⟨s.position, limit, 0⟩) = f at served
    obtain ⟨req, phase⟩ := f
    obtain rfl : phase = .done (.ok resp) := served
    have last := List.getLast?_eq_some_getLast filled
    have offset := numbered.last last
    have position : (resp.records.getLast?.map (·.offset + 1)).getD s.position =
        s.position + resp.records.length := by
      rw [last, Option.map_some, Option.getD_some]
      dsimp only at offset
      omega
    simp [Machine.execute, machine, step, take, position]

/-- Left alone, the reader gets to the end of the log. -/
theorem reaches_end (following : Following env start s)
    (live : s.broker.partition.live = some l) (settled : Settled l) {limit : Nat}
    (some' : 1 ≤ limit) (low : (s.broker.partition.history.evicted.length : Int) ≤ s.position)
    {n : Nat} (left : s.broker.partition.history.log.length - (start + s.read.length) ≤ n) :
    ∃ schedule final, schedule.all Own = true ∧
      (machine env start).execute schedule s = some final ∧
      final.broker.partition = s.broker.partition ∧
      final.read = s.broker.partition.history.log.drop start := by
  have whole := following.sourced.base.whole
  have numbered := log_numbered whole
  induction n generalizing s with
  | zero =>
    refine ⟨[], s, rfl, rfl, rfl, ?_⟩
    rw [following.slice, List.take_of_length_le]
    rw [List.length_drop]
    omega
  | succ n ih =>
    by_cases done : s.broker.partition.history.log.length ≤ start + s.read.length
    · exact ih following live low (by omega) whole numbered
    · have position := following.position
      obtain ⟨schedule, records, own, filled, more, logged, ran⟩ :=
        @round_reads env start s l whole live settled limit some' low (by omega)
      have grown := List.length_pos_iff.mpr filled
      have following' : Following env start
          ⟨⟨s.broker.partition, none⟩, s.position + records.length, s.read ++ records⟩ := by
        refine ⟨⟨⟨whole, fun _ _ _ _ none => (by cases none)⟩,
          fun _ _ _ _ none => (by cases none), fun _ _ none => by cases none⟩, ?_,
          Numbered.append_iff.mpr ⟨following.numbered, position ▸ more⟩, ?_,
          fun _ none => (by cases none), fun _ _ none => by cases none⟩
        · rw [List.length_append]
          push_cast
          omega
        · intro r member
          exact (List.mem_append.mp member).elim (following.logged r) (logged r)
      obtain ⟨rest, final, own', ran', same, read⟩ := ih following' live (by dsimp only; omega)
        (by simp only [List.length_append]; omega) whole numbered
      refine ⟨schedule ++ rest, final, by simp [own, own'], ?_, same, read⟩
      rw [Machine.execute_append, ran, Option.bind_some, ran']

end CatchingUp

/-- Whatever the partition does meanwhile, crashes and restarts included, a reader that started at
`start` has at all times read the log from there on, in order, once each and without a gap; and
whenever the partition has settled, the reader's own steps take it to the end of the log, unless an
eviction has passed its position. -/
theorem reads_log (env : Externals) (start : Nat) {s : State}
    (reached : (machine env start).Reaches (Admitted env) s) :
    s.read = (s.broker.partition.history.log.drop start).take s.read.length ∧
    s.position = start + s.read.length ∧
    ∀ l limit, s.broker.partition.live = some l → Settled l → 1 ≤ limit →
      (s.broker.partition.history.evicted.length : Int) ≤ s.position →
      ∃ schedule final, schedule.all Own = true ∧
        (machine env start).execute schedule s = some final ∧
        final.broker.partition = s.broker.partition ∧
        final.read = s.broker.partition.history.log.drop start := by
  have following : Following env start s := reached.invariant (Following.initial env start)
    fun _ _ _ following admitted taken => following.step admitted taken
  exact ⟨following.slice, following.position, fun l limit live settled some' low =>
    reaches_end following live settled some' low (le_refl _)⟩

/-- The reader gets a record; the segment fills up and is uploaded, and the process crashes and
comes back. -/
def crashedRun : List Action :=
  ([.start settings, .openWriter] ++ produceOne 1 : List Partition.Action).map .partition ++
    [.ask 10 0, .fetch, .fetch, .take] ++
    (produceOne 2 ++ handOver ++ upload ++ [.crash 0, .start settings, .openWriter] :
      List Partition.Action).map .partition

theorem reads_log_crashedRun : ∃ s schedule final,
    (machine externals 0).execute crashedRun (initial 0) = some s ∧ s.read.length = 1 ∧
    (machine externals 0).execute schedule s = some final ∧ final.read.length = 2 := by
  have runs : ((machine externals 0).execute crashedRun (initial 0)).any (fun s =>
      decide (s.read.length = 1 ∧ s.broker.partition.history.log.length = 2 ∧
        s.broker.partition.history.evicted.length = 0) &&
      s.broker.partition.live.any fun l => decide (l.writer.phase = .recv ∧ l.writer.pending = [] ∧
        (view l).backlog = [])) = true := by decide +kernel
  have clean : (machine externals 0).Along (Admitted externals) crashedRun (initial 0) := by
    decide +kernel
  obtain ⟨s, ran, facts⟩ := Option.any_eq_true _ _ |>.mp runs
  simp only [Bool.and_eq_true, decide_eq_true_eq] at facts
  obtain ⟨⟨one, two, none⟩, facts⟩ := facts
  obtain ⟨l, live, facts⟩ := Option.any_eq_true _ _ |>.mp facts
  obtain ⟨idle, committed, uploaded⟩ := of_decide_eq_true facts
  obtain ⟨_, position, settles⟩ := reads_log externals 0 ⟨crashedRun, clean, ran⟩
  obtain ⟨schedule, final, _, ran', _, read⟩ :=
    settles l 10 live ⟨idle, committed, uploaded⟩ (by decide) (by omega)
  exact ⟨s, schedule, final, ran, one, ran', by simp [read, two]⟩

end Kafkrs.Replay
