import Kafkrs.Fetcher
import Kafkrs.RecoveredLog

/-! What a fetch returns. Its two messages to the writer are not one: the active batch may be
sealed and refilled between them, and sealed batches are not read before they are uploaded. -/
namespace Kafkrs.Fetching

open Lib Recovery Pipeline Kafkrs.Partition Refinement Continuity RecoveredLog

section Selection

variable {start low : Int} {records : List Record}

/-- Selecting from an offset inside or after consecutive records keeps them consecutive. -/
theorem selection_numbered (numbered : Numbered Record.offset start records) (inside : start ≤ low)
    (limit : Nat) : Numbered Record.offset low
      ((records.filter (fun r => decide (low ≤ r.offset))).take limit) := by
  rw [numbered.filter_ge inside]
  by_cases short : (low - start).toNat ≤ records.length
  · have dropped := (numbered.drop _ short).take limit
    convert dropped using 1
    omega
  · rw [List.drop_of_length_le (by omega)]
    simp [Numbered]

/-- They start at the asked offset when nothing before the first record was asked for. -/
theorem selection_numbered_iff (numbered : Numbered Record.offset start records) (low : Int)
    (limit : Nat) :
    Numbered Record.offset low
        ((records.filter (fun r => decide (low ≤ r.offset))).take limit) ↔
      limit = 0 ∨ ∀ first, records.head? = some first → first.offset ≤ low := by
  cases records with
  | nil => simp [Numbered]
  | cons first rest =>
    have head : first.offset = start := numbered.1
    simp only [List.head?_cons, Option.some.injEq, forall_eq', head]
    by_cases inside : start ≤ low
    · simp only [inside, or_true, iff_true]
      exact selection_numbered numbered inside limit
    · cases limit with
      | zero => simp [Numbered]
      | succ limit =>
        refine ⟨fun selected => ?_, fun impossible => by omega⟩
        rw [List.filter_cons_of_pos (by simp; omega), List.take_succ_cons] at selected
        have := selected.1
        omega

end Selection

section Log

variable {env : Externals} {regime : Regime} {s : State} {l : Live}

/-- The active batch is the end of the log, above everything uploaded. -/
theorem active_numbered (whole : Whole env regime s) (live : s.live = some l) :
    ∃ start, Numbered Record.offset start l.writer.active ∧
      uploadedEnd s.disk.store.manifest ≤ start ∧
      start + l.writer.active.length = s.history.log.length := by
  have linked := whole.continuous.live (view l) (by simp [abstract, live])
  have shape := whole.inv.shape l live
  have split : ((view l).backlog ++ (view l).active.toList).flatMap Prod.snd =
      (view l).backlog.flatMap Prod.snd ++ l.writer.active := by
    rw [List.flatMap_append]
    by_cases off : between l.writer.phase = true
    · simp [view, off, shape.writer.sealedOff off]
    · simp [view, off]
  have numbered := linked.chained.tail_numbered
  have length := linked.chained.length
  rw [split, List.length_append] at length
  rw [split, Numbered.append_iff] at numbered
  push_cast at length
  exact ⟨_, numbered.2, by dsimp only [abstract]; omega, by dsimp only [abstract] at *; omega⟩

/-- The object of an uploaded segment is not written again; at most it is deleted. -/
theorem uploaded_object {a b : Lifecycle.State} (event : Lifecycle.Step env regime a b)
    (continuous : Continuous env a) (valid : Lifecycle.Valid env a) {base : Int}
    (low : base < uploadedEnd a.disk.store.manifest) :
    base < uploadedEnd b.disk.store.manifest ∧
      ∀ records, b.disk.store.objects[base]? = some records →
        a.disk.store.objects[base]? = some records := by
  cases event with
  | put oldest =>
    have start := (continuous.live _ rfl).oldest_base valid.durable (valid.running _ rfl) oldest
    refine ⟨low, fun records found => ?_⟩
    rw [Dir.get_insert, if_neg (by dsimp only at *; omega)] at found
    exact found
  | list oldest staged =>
    have linked := continuous.live _ rfl
    have running := valid.running _ rfl
    have start := linked.oldest_base valid.durable running oldest
    have higher := (linked.list_chained valid.durable running oldest staged env.segmentSize).2
    have unlisted := running.oldest_unlisted oldest
    dsimp only at unlisted low start
    simp only [if_pos unlisted]
    exact ⟨by dsimp only at *; omega, fun _ found => found⟩
  | evict now policy =>
    obtain ⟨kept, split, after, nonempty⟩ := Lifecycle.evict_split valid.durable.ordered _ now
    refine ⟨?_, fun _ found => found⟩
    dsimp only
    rw [after, uploadedEnd_evict split nonempty]
    exact low
  | delete unlisted =>
    refine ⟨low, fun records found => ?_⟩
    rw [Dir.get_erase] at found
    split at found
    · cases found
    · exact found
  | _ => exact ⟨low, fun _ found => found⟩

end Log

section Interleaving

open Fetcher (Phase)

/-- Runs whose restarts all find a clean disk. -/
def Admitted (env : Externals) (s : Fetcher.State) : Fetcher.Action → Prop
  | .partition action => Admits (cleanly env) s.partition action
  | _ => True

/-- A finished fetch has returned consecutive records from the asked offset on, or none. -/
def Consecutive (s : Fetcher.State) : Prop :=
  ∀ f resp, s.fetch = some f → f.phase = .done (.ok resp) →
    Numbered Record.offset f.req.fromOffset resp.records

/-- When the writer handles `ReadActive`, its active batch has not moved past the offset. -/
def InPlace (s : Fetcher.State) : Fetcher.Action → Prop
  | .fetch => ∀ l f, s.partition.live = some l → s.fetch = some f → f.phase = .readActive →
      l.writer.phase = .recv → f.req.maxRecords = 0 ∨
        ∀ first, l.writer.active.head? = some first → first.offset ≤ f.req.fromOffset
  | _ => True

structure FetchInvariant (env : Externals) (s : Fetcher.State) : Prop where
  whole : Whole env (cleanly env) s.partition
  segment : ∀ f seg hwm inFlight, s.fetch = some f → f.phase = .readSegment seg hwm inFlight →
    seg.baseOffset ≤ f.req.fromOffset ∧
    seg.baseOffset < uploadedEnd s.partition.disk.store.manifest ∧
    ∀ records, s.partition.disk.store.objects[seg.baseOffset]? = some records →
      Numbered Record.offset seg.baseOffset records

variable {env : Externals} {s next : Fetcher.State}

theorem segmentForOffset_mem {m : Manifest} {offset : Int} {seg : SegmentEntry}
    (found : m.segmentForOffset offset = some seg) :
    seg ∈ m.segments ∧ seg.baseOffset ≤ offset ∧ offset ≤ seg.lastOffset := by
  obtain ⟨at', inside⟩ := Option.filter_eq_some_iff.mp found
  exact ⟨List.mem_of_getElem? at', by simpa using inside⟩

/-- What a fetch step does when it is not a wait. -/
theorem fetch_step_cases (taken : Fetcher.joint env .fetch s = some next) :
    ∃ l f, s.partition.live = some l ∧ s.fetch = some f ∧ next.partition = s.partition ∧
      ((l.writer.phase = .stopped ∧
          next.fetch = some { f with phase := .done (.error .brokerNotReady) }) ∨
        ((∀ result, f.phase ≠ .done result) ∧ (f.phase = .readActive → l.writer.phase = .recv) ∧
          next.fetch = some
            { f with phase := Fetcher.advance l.writer s.partition.disk.store f })) := by
  simp only [Fetcher.joint] at taken
  split at taken
  next l f live fetching =>
    obtain ⟨g, stepped, rfl⟩ := Option.map_eq_some_iff.mp taken
    refine ⟨l, f, live, fetching, rfl, ?_⟩
    unfold Fetcher.step at stepped
    split at stepped
    · cases stepped
    next busy =>
      split at stepped
      · split at stepped
        next recv =>
          obtain rfl := Option.some.inj stepped
          exact .inr ⟨busy, fun _ => recv, rfl⟩
        next stopped =>
          obtain rfl := Option.some.inj stepped
          exact .inl ⟨stopped, rfl⟩
        · cases stepped
      next quiet =>
        obtain rfl := Option.some.inj stepped
        exact .inr ⟨busy, fun reading => by simp [reading, Fetcher.asks] at quiet, rfl⟩
  · cases taken

/-- A segment is read after the manifest, which named it. -/
theorem advance_picks {w : PartitionWriter} {st : Store} {f : Fetch} {seg : SegmentEntry} {hwm : Int}
    {inFlight : Bool} (reading : Fetcher.advance w st f = .readSegment seg hwm inFlight) :
    f.phase = .readManifest inFlight ∧ st.manifest.segmentForOffset f.req.fromOffset = some seg := by
  cases phase : f.phase with
  | readManifest flag =>
    simp only [Fetcher.advance, phase, Fetcher.manifestRead] at reading
    split at reading
    · cases flag <;> cases reading
    next entry found =>
      obtain ⟨rfl, _, rfl⟩ := Phase.readSegment.inj reading
      exact ⟨rfl, found⟩
  | locate =>
    simp only [Fetcher.advance, phase, Fetcher.located] at reading
    split at reading <;> first | cases reading | (split at reading <;> cases reading)
  | relocate =>
    simp only [Fetcher.advance, phase, Fetcher.relocated] at reading
    split at reading <;> cases reading
  | readSegment entry top flag =>
    simp only [Fetcher.advance, phase, Fetcher.segmentRead] at reading
    split at reading
    · cases flag <;> cases reading
    · cases reading
  | waiting | readActive | done =>
    simp only [Fetcher.advance, phase] at reading
    cases reading

theorem FetchInvariant.partition (inv : FetchInvariant env s) {action : Action}
    (admits : Admits (cleanly env) s.partition action)
    (taken : Fetcher.joint env (.partition action) s = some next) : FetchInvariant env next := by
  obtain ⟨after, stepped, rfl⟩ := Option.map_eq_some_iff.mp taken
  refine ⟨inv.whole.step admits (fun _ => id) stepped, ?_⟩
  intro f seg hwm inFlight fetching reading
  dsimp only at fetching ⊢
  split at fetching
  · obtain ⟨low, uploaded, numbered⟩ := inv.segment f seg hwm inFlight fetching reading
    have event := (step_simulated inv.whole.inv admits stepped).event
    obtain ⟨still, object⟩ :=
      uploaded_object event inv.whole.continuous inv.whole.inv.valid uploaded
    exact ⟨low, still, fun records found => numbered records (object records found)⟩
  · cases fetching

theorem FetchInvariant.fetch (inv : FetchInvariant env s)
    (taken : Fetcher.joint env .fetch s = some next) : FetchInvariant env next := by
  obtain ⟨l, f, live, fetching, same, stopped | ⟨busy, _, moved⟩⟩ := fetch_step_cases taken
  · refine ⟨same ▸ inv.whole, fun g seg hwm inFlight now reading => ?_⟩
    rw [stopped.2] at now
    obtain rfl := Option.some.inj now
    cases reading
  · refine ⟨same ▸ inv.whole, fun g seg hwm inFlight now reading => ?_⟩
    rw [moved] at now
    obtain rfl := Option.some.inj now
    rw [same]
    obtain ⟨_, found⟩ := advance_picks reading
    obtain ⟨member, low, _⟩ := segmentForOffset_mem found
    have chained := (inv.whole.continuous.live (view l) (by simp [abstract, live])).chained
    obtain ⟨records, object, numbered, _⟩ := chained.objects seg member
    refine ⟨low, base_lt_end inv.whole.inv.valid.durable.ordered
      (Manifest.lists_iff.mpr ⟨seg, member, rfl⟩), fun other now => ?_⟩
    obtain rfl := Option.some.inj (object.symm.trans now)
    exact numbered

/-- One step of a fetch returns consecutive records, except a late `ReadActive`. -/
theorem fetch_consecutive_iff (inv : FetchInvariant env s)
    (taken : Fetcher.joint env .fetch s = some next) : Consecutive next ↔ InPlace s .fetch := by
  obtain ⟨l, f, live, fetching, same, ⟨stopped, moved⟩ | ⟨busy, recv, moved⟩⟩ :=
    fetch_step_cases taken
  · refine ⟨fun _ l' f' live' _ _ recv => ?_, fun _ g resp now finished => ?_⟩
    · obtain rfl := Option.some.inj (live.symm.trans live')
      rw [stopped] at recv
      cases recv
    · rw [moved] at now
      obtain rfl := Option.some.inj now
      cases finished
  · by_cases reading : f.phase = .readActive
    · obtain ⟨start, numbered, _⟩ := active_numbered inv.whole live
      have answer : Fetcher.advance l.writer s.partition.disk.store f =
          .done (.ok (Fetcher.activeRead f.req l.writer)) := by
        simp only [Fetcher.advance, reading]
      have exact := selection_numbered_iff numbered f.req.fromOffset f.req.maxRecords
      constructor
      · intro after l' f' live' fetching' _ _
        obtain rfl := Option.some.inj (live.symm.trans live')
        obtain rfl := Option.some.inj (fetching.symm.trans fetching')
        exact exact.mp (after _ _ moved answer)
      · intro inPlace g resp now finished
        rw [moved] at now
        obtain rfl := Option.some.inj now
        obtain rfl : Fetcher.activeRead f.req l.writer = resp := by
          simpa [answer] using finished
        exact exact.mpr (inPlace l f live fetching reading (recv reading))
    · refine ⟨fun _ l' f' _ fetching' reading' => ?_, fun _ g resp now finished => ?_⟩
      · obtain rfl := Option.some.inj (fetching.symm.trans fetching')
        exact absurd reading' reading
      · rw [moved] at now
        obtain rfl := Option.some.inj now
        dsimp only at finished ⊢
        cases phase : f.phase with
        | readSegment entry top flag =>
          simp only [Fetcher.advance, phase, Fetcher.segmentRead] at finished
          obtain ⟨low, _, numbered⟩ := inv.segment f entry top flag fetching phase
          split at finished
          · cases flag <;> cases finished
            trivial
          next records found =>
            cases finished
            exact selection_numbered (numbered records found) low _
        | locate =>
          simp only [Fetcher.advance, phase, Fetcher.located] at finished
          split at finished
          · split at finished <;> cases finished
            trivial
          all_goals cases finished
        | relocate =>
          simp only [Fetcher.advance, phase, Fetcher.relocated] at finished
          split at finished <;> cases finished
          trivial
        | readManifest flag =>
          simp only [Fetcher.advance, phase, Fetcher.manifestRead] at finished
          split at finished
          · cases flag <;> cases finished
            trivial
          · cases finished
        | waiting =>
          simp only [Fetcher.advance, phase] at finished
          cases finished
        | readActive => exact absurd phase reading
        | done result => exact absurd phase (busy result)

theorem begin_fetch {req : FetchRequest} {f : Fetch}
    (taken : Fetcher.joint env (.begin req) s = some next) (now : next.fetch = some f) :
    Fetcher.start req = f := by
  simp only [Fetcher.joint] at taken
  split at taken
  · split at taken
    · cases taken
    · obtain rfl := Option.some.inj taken
      exact Option.some.inj now
  · cases taken

theorem begin_partition {req : FetchRequest}
    (taken : Fetcher.joint env (.begin req) s = some next) : next.partition = s.partition := by
  simp only [Fetcher.joint] at taken
  split at taken
  · split at taken
    · cases taken
    · rw [← Option.some.inj taken]
  · cases taken

theorem FetchInvariant.step (inv : FetchInvariant env s) {action : Fetcher.Action}
    (admits : Admitted env s action) (taken : Fetcher.joint env action s = some next) :
    FetchInvariant env next := by
  cases action with
  | partition action => exact inv.partition admits taken
  | fetch => exact inv.fetch taken
  | begin req =>
    refine ⟨begin_partition taken ▸ inv.whole, fun f seg hwm inFlight now reading => ?_⟩
    obtain rfl := begin_fetch taken now
    simp only [Fetcher.start] at reading
    split at reading <;> cases reading

theorem initial_invariant (env : Externals) : FetchInvariant env ⟨fresh, none⟩ :=
  ⟨fresh_whole env _, fun f _ _ _ none => by cases none⟩

theorem initial_consecutive : Consecutive ⟨fresh, none⟩ := by
  intro f resp none
  cases none

/-- In every run with clean restarts, every answer to a fetch is consecutive from the asked
offset on if and only if no `ReadActive` is handled after the active batch has moved on. -/
theorem consecutive_iff_inPlace (env : Externals) (schedule : List Fetcher.Action)
    (clean : (Fetcher.machine env).Along (Admitted env) schedule ⟨fresh, none⟩) :
    (Fetcher.machine env).Throughout Consecutive schedule ⟨fresh, none⟩ ↔
      (Fetcher.machine env).Along InPlace schedule ⟨fresh, none⟩ := by
  have preserved (s : Fetcher.State) (action : Fetcher.Action) (next : Fetcher.State)
      (inv : FetchInvariant env s) (admits : Admitted env s action)
      (taken : (Fetcher.machine env).step action s = some next) : FetchInvariant env next :=
    inv.step admits taken
  refine Machine.throughout_iff_along preserved ?_ ?_ (initial_invariant env)
    initial_consecutive clean
  · intro s action disabled
    cases action with
    | fetch =>
      intro l f live fetching reading recv
      simp [Fetcher.machine, Fetcher.joint, live, fetching, Fetcher.step, reading, Fetcher.asks,
        recv] at disabled
    | _ => trivial
  · intro s action next inv _ consecutive taken
    cases action with
    | fetch => exact fetch_consecutive_iff inv taken
    | begin req =>
      refine ⟨fun _ => trivial, fun _ f resp now finished => ?_⟩
      obtain rfl := begin_fetch (show Fetcher.joint env (.begin req) s = some next from taken) now
      simp only [Fetcher.start] at finished
      split at finished <;> cases finished
    | partition action =>
      refine ⟨fun _ => trivial, fun _ f resp now finished => ?_⟩
      obtain ⟨after, stepped, rfl⟩ := Option.map_eq_some_iff.mp taken
      dsimp only at now
      split at now
      · exact consecutive f resp now finished
      · cases now

instance (env : Externals) : DecidablePred (cleanly env).policy :=
  fun _ => inferInstanceAs (Decidable True)

instance (env : Externals) : DecidablePred (cleanly env).boot :=
  fun disk => inferInstanceAs (Decidable (Clean env.crc32c disk))

instance (env : Externals) (s : Fetcher.State) : DecidablePred (Admitted env s)
  | .partition action => inferInstanceAs (Decidable (Admits (cleanly env) s.partition action))
  | .begin _ | .fetch => .isTrue trivial

instance (s : Fetcher.State) : DecidablePred (InPlace s)
  | .fetch =>
    decidable_of_iff
      (∀ l ∈ s.partition.live, ∀ f ∈ s.fetch, f.phase = .readActive → l.writer.phase = .recv →
        f.req.maxRecords = 0 ∨
          ∀ first ∈ l.writer.active.head?, first.offset ≤ f.req.fromOffset)
      ⟨fun all l f live fetching => all l live f fetching,
        fun all l live f fetching => all l f live fetching⟩
  | .begin _ | .partition _ => .isTrue trivial

/-- A fetch from 0 with `moves` between its two messages to the writer. -/
def splitFetch (cfg : ResolvedTopicConfig) (moves : List Action) : List Fetcher.Action :=
  ([.start cfg, .openWriter] ++ produceOne 1 : List Action).map .partition ++
    [.begin ⟨0, 10, 0⟩, .fetch] ++ moves.map .partition ++ [.fetch]

def returned (s : Fetcher.State) : Option (List Int) :=
  s.fetch.bind fun f =>
    match f.phase with
    | .done (.ok resp) => some (resp.records.map (·.offset))
    | _ => none

theorem Consecutive.head {s : Fetcher.State} (consecutive : Consecutive s) {first : Int}
    {rest : List Int} (offsets : returned s = some (first :: rest)) :
    ∃ f, s.fetch = some f ∧ first = f.req.fromOffset := by
  obtain ⟨f, fetching, answered⟩ := Option.bind_eq_some_iff.mp offsets
  refine ⟨f, fetching, ?_⟩
  split at answered
  next resp finished =>
    obtain ⟨r, _, shape, isFirst, _⟩ := List.map_eq_cons_iff.mp (Option.some.inj answered)
    rw [← isFirst]
    exact (consecutive f resp fetching finished).head (by simp [shape])
  · cases answered

/-- The batch fills up, is sealed and refilled before `ReadActive`: the fetch from 0 returns
offset 2 and skips 0 and 1. -/
theorem splitFetch_skips : ¬ (Fetcher.machine externals).Throughout Consecutive
    (splitFetch settings (produceOne 2 ++ handOver ++ produceOne 3)) ⟨fresh, none⟩ := by
  have runs : ((Fetcher.machine externals).execute
      (splitFetch settings (produceOne 2 ++ handOver ++ produceOne 3)) ⟨fresh, none⟩).any (fun s =>
        returned s == some [2] && (s.fetch.map (·.req.fromOffset)) == some 0) = true := by
    decide +kernel
  intro always
  obtain ⟨s, ran, facts⟩ := Option.any_eq_true _ _ |>.mp runs
  simp only [Bool.and_eq_true, beq_iff_eq] at facts
  obtain ⟨f, fetching, first⟩ := (always.final ran).head facts.1
  have asked := facts.2
  rw [fetching] at asked
  simp only [Option.map_some, Option.some.injEq] at asked
  omega

/-- The same fetch while the batch only grows. -/
theorem consecutive_iff_inPlace_splitFetch : (Fetcher.machine externals).Throughout Consecutive
    (splitFetch { settings with segmentSizeBytes := 100 } (produceOne 2)) ⟨fresh, none⟩ := by
  have clean : (Fetcher.machine externals).Along (Admitted externals)
      (splitFetch { settings with segmentSizeBytes := 100 } (produceOne 2)) ⟨fresh, none⟩ := by decide +kernel
  have inPlace : (Fetcher.machine externals).Along InPlace
      (splitFetch { settings with segmentSizeBytes := 100 } (produceOne 2)) ⟨fresh, none⟩ := by decide +kernel
  exact (consecutive_iff_inPlace externals _ clean).mpr inPlace

end Interleaving

end Kafkrs.Fetching
