import Kafkrs.HighWaterMark

/-! What a reader can rely on over time. A fetched record is the log's record at its offset, and
the log is only ever extended: two fetches that return the same offset return the same record,
however much happened in between, and what they return some producer has sent. -/
namespace Kafkrs.StableReads

open Lib Kafkrs.Partition Refinement Continuity RecoveredLog Fetching
open Fetcher (Phase)

section Log

variable {env : Externals} {s next : State} {l : Live} {action : Action}

/-- A member of the log is the entry at its own offset. -/
theorem log_at {log : List Record} (numbered : Numbered Record.offset 0 log) {r : Record}
    (member : r ∈ log) : log[r.offset.toNat]? = some r := by
  obtain ⟨n, bound, rfl⟩ := List.mem_iff_getElem.mp member
  rw [numbered.get bound, Int.zero_add, Int.toNat_natCast]
  exact List.getElem?_eq_getElem bound

theorem log_numbered (whole : Whole env (cleanly env) s) :
    Numbered Record.offset 0 s.history.log := by
  cases live : s.live with
  | none =>
    obtain ⟨_, settled⟩ := whole.settled live
    exact settled.chained.numbered
  | some l => exact (whole.continuous.live (view l) (by simp [abstract, live])).chained.numbered

/-- The active batch is part of the log. -/
theorem active_log (whole : Whole env (cleanly env) s) (live : s.live = some l) :
    ∀ r ∈ l.writer.active, r ∈ s.history.log := by
  intro r member
  have linked := whole.continuous.live (view l) (by simp [abstract, live])
  have open' : between l.writer.phase ≠ true := by
    intro closed
    rw [(whole.inv.shape l live).writer.sealedOff closed] at member
    cases member
  have split := linked.chained.log
  simp only [abstract] at split
  rw [split]
  refine List.mem_append_right _ (List.mem_flatMap.mpr
    ⟨(l.writer.segmentBase, l.writer.active), ?_, member⟩)
  simp [view, open']

/-- The object of a listed segment is part of the log. -/
theorem listed_log (whole : Whole env (cleanly env) s) (live : s.live = some l)
    {seg : SegmentEntry} (entry : seg ∈ s.disk.store.manifest.segments) {records : List Record}
    (object : s.disk.store.objects[seg.baseOffset]? = some records) :
    ∀ r ∈ records, r ∈ s.history.log := by
  intro r member
  have linked := whole.continuous.live (view l) (by simp [abstract, live])
  have split := linked.chained.log
  simp only [abstract] at split
  rw [split]
  refine List.mem_append_left _ (List.mem_append_right _ (List.mem_flatMap.mpr ⟨seg, entry, ?_⟩))
  simpa [objectRecords, object] using member

end Log

section Interleaving

variable {env : Externals} {s next : Fetcher.State}

/-- What a fetch has answered, and what it is about to answer from the object it has picked, is
in the log. -/
structure Sourced (env : Externals) (s : Fetcher.State) : Prop where
  base : FetchInvariant env s
  picked : ∀ f seg hwm inFlight, s.fetch = some f → f.phase = .readSegment seg hwm inFlight →
    ∀ records, s.partition.disk.store.objects[seg.baseOffset]? = some records →
      ∀ r ∈ records, r ∈ s.partition.history.log
  answered : ∀ f resp, s.fetch = some f → f.phase = .done (.ok resp) →
    ∀ r ∈ resp.records, r ∈ s.partition.history.log

/-- A selection from part of the log is part of the log. -/
theorem selected_log {req : FetchRequest} {records log : List Record}
    (inside : ∀ r ∈ records, r ∈ log) :
    ∀ r ∈ Fetcher.selected req records, r ∈ log :=
  fun r member => inside r (List.mem_of_mem_filter (List.mem_of_mem_take member))

/-- The step that ends a fetch with records reads the active batch or the picked object. -/
theorem advance_answers {w : PartitionWriter} {st : Store} {f : Fetch} {resp : FetchResponse}
    (busy : ∀ result, f.phase ≠ .done result)
    (finished : Fetcher.advance w st f = .done (.ok resp)) :
    resp.records = [] ∨ (f.phase = .readActive ∧ resp = Fetcher.activeRead f.req w) ∨
      ∃ seg hwm inFlight records, f.phase = .readSegment seg hwm inFlight ∧
        st.objects[seg.baseOffset]? = some records ∧ resp.records = Fetcher.selected f.req records := by
  cases phase : f.phase with
  | done result => exact absurd phase (busy result)
  | readActive =>
    simp only [Fetcher.advance, phase] at finished
    cases finished
    exact .inr (.inl ⟨rfl, rfl⟩)
  | readSegment seg hwm inFlight =>
    simp only [Fetcher.advance, phase, Fetcher.segmentRead] at finished
    split at finished
    · cases inFlight <;> cases finished
      exact .inl rfl
    next records object =>
      cases finished
      exact .inr (.inr ⟨seg, hwm, inFlight, records, rfl, object, rfl⟩)
  | readManifest inFlight =>
    simp only [Fetcher.advance, phase, Fetcher.manifestRead] at finished
    split at finished
    · cases inFlight <;> cases finished
      exact .inl rfl
    · cases finished
  | locate =>
    simp only [Fetcher.advance, phase, Fetcher.located] at finished
    split at finished
    · split at finished <;> cases finished
      exact .inl rfl
    all_goals cases finished
  | relocate =>
    simp only [Fetcher.advance, phase, Fetcher.relocated] at finished
    split at finished <;> cases finished
    exact .inl rfl
  | waiting =>
    simp only [Fetcher.advance, phase] at finished
    cases finished

theorem Sourced.partition (sourced : Sourced env s) {action : Action}
    (admits : Admits (cleanly env) s.partition action)
    (taken : Fetcher.joint env (.partition action) s = some next) : Sourced env next := by
  have base := sourced.base.partition admits taken
  obtain ⟨after, stepped, rfl⟩ := Option.map_eq_some_iff.mp taken
  have grown := HighWaterMark.step_log stepped
  refine ⟨base, ?_, ?_⟩
  · intro f seg hwm inFlight fetching reading records found r member
    dsimp only at fetching found ⊢
    split at fetching
    · -- an object below the uploaded end is never written again
      obtain ⟨_, uploaded, _⟩ := sourced.base.segment f seg hwm inFlight fetching reading
      have event := (step_simulated sourced.base.whole.inv admits stepped).event
      obtain ⟨_, object⟩ := uploaded_object event sourced.base.whole.continuous
        sourced.base.whole.inv.valid uploaded
      exact grown.subset (sourced.picked f seg hwm inFlight fetching reading records
        (object records found) r member)
    · cases fetching
  · intro f resp fetching finished r member
    dsimp only at fetching ⊢
    split at fetching
    · exact grown.subset (sourced.answered f resp fetching finished r member)
    · cases fetching

theorem Sourced.fetch (sourced : Sourced env s)
    (taken : Fetcher.joint env .fetch s = some next) : Sourced env next := by
  have base := sourced.base.fetch taken
  obtain ⟨l, f, live, fetching, same, ⟨_, moved⟩ | ⟨busy, _, moved⟩⟩ := fetch_step_cases taken
  · refine ⟨base, fun g seg hwm inFlight now reading => ?_, fun g resp now finished => ?_⟩
    all_goals
      rw [moved] at now
      obtain rfl := Option.some.inj now
    · cases reading
    · cases finished
  · refine ⟨base, fun g seg hwm inFlight now reading => ?_, fun g resp now finished => ?_⟩
    all_goals
      rw [moved] at now
      obtain rfl := Option.some.inj now
      rw [same]
    · obtain ⟨_, found⟩ := advance_picks reading
      obtain ⟨entry, _, _⟩ := segmentForOffset_mem found
      exact fun records object => listed_log sourced.base.whole live entry object
    · intro r member
      rcases advance_answers busy finished with nothing | ⟨_, rfl⟩ |
        ⟨seg, hwm, inFlight, records, reading, object, records'⟩
      · rw [nothing] at member
        cases member
      · exact selected_log (active_log sourced.base.whole live) r member
      · rw [records'] at member
        exact selected_log (sourced.picked f seg hwm inFlight fetching reading records object) r member

theorem Sourced.step (sourced : Sourced env s) {action : Fetcher.Action}
    (admits : Admitted env s action) (taken : Fetcher.joint env action s = some next) :
    Sourced env next := by
  cases action with
  | partition action => exact sourced.partition admits taken
  | fetch => exact sourced.fetch taken
  | begin req =>
    refine ⟨@FetchInvariant.step env s next sourced.base (.begin req) trivial taken, ?_, ?_⟩
    all_goals
      intro f _ _
    · intro _ now reading
      obtain rfl := begin_fetch taken now
      simp only [Fetcher.start] at reading
      split at reading <;> cases reading
    · intro finished
      rename_i now
      obtain rfl := begin_fetch taken now
      simp only [Fetcher.start] at finished
      split at finished <;> cases finished

theorem initial_sourced (env : Externals) : Sourced env ⟨fresh, none⟩ :=
  ⟨initial_invariant env, fun f _ _ _ none => (by cases none), fun f _ none => by cases none⟩

theorem run_sourced {schedule : List Fetcher.Action} (sourced : Sourced env s)
    (clean : (Fetcher.machine env).Along (Admitted env) schedule s)
    (ran : (Fetcher.machine env).execute schedule s = some next) : Sourced env next :=
  Machine.execute_invariant (fun _ _ _ sourced admits taken => sourced.step admits taken)
    sourced clean ran

theorem run_log {schedule : List Fetcher.Action}
    (ran : (Fetcher.machine env).execute schedule s = some next) :
    s.partition.history.log <+: next.partition.history.log := by
  have grows (state : Fetcher.State) (action : Fetcher.Action) (after : Fetcher.State)
      (grown : s.partition.history.log <+: state.partition.history.log) (_ : True)
      (taken : (Fetcher.machine env).step action state = some after) :
      s.partition.history.log <+: after.partition.history.log := by
    cases action with
    | partition action =>
      obtain ⟨p, stepped, rfl⟩ := Option.map_eq_some_iff.mp taken
      exact grown.trans (HighWaterMark.step_log stepped)
    | begin req => rw [@begin_partition env _ _ _ taken]; exact grown
    | fetch =>
      obtain ⟨_, _, _, _, same, _⟩ := @fetch_step_cases env _ _ taken
      rw [same]; exact grown
  exact Machine.execute_invariant grows List.prefix_rfl (Machine.along_true schedule s) ran

end Interleaving
section Origin

variable {env : Externals}

/-- The record keeps what the producer sent; offset and, where it was left open, timestamp are the
broker's. -/
structure Copied (inc : IncomingRecord) (r : Record) : Prop where
  schemaId : r.schemaId = inc.schemaId
  key : r.key = inc.key
  value : r.value = inc.value
  timestamp : inc.timestampNs ≠ 0 → r.timestampNs = inc.timestampNs

theorem stamp_copied {now : Nat → Int64} {next : Int} {incoming : List IncomingRecord} {r : Record}
    (member : r ∈ PartitionWriter.stamp now next incoming) : ∃ inc ∈ incoming, Copied inc r := by
  induction incoming generalizing now next with
  | nil => cases member
  | cons inc rest ih =>
    rcases List.mem_cons.mp member with rfl | later
    · exact ⟨inc, by simp, rfl, rfl, rfl, fun stamped => by simp [stamped]⟩
    · obtain ⟨other, inside, copied⟩ := ih later
      exact ⟨other, by simp [inside], copied⟩

structure Held (property : Record → Prop) (p : Partition.State) : Prop where
  log : ∀ r ∈ p.history.log, property r
  pending : ∀ l, p.live = some l → ∀ r ∈ l.writer.pending, property r

theorem fresh_held (property : Record → Prop) : Held property fresh :=
  ⟨fun r none => (by cases none), fun l none => (by cases none)⟩

theorem Held.mono {property other : Record → Prop} {p : Partition.State} (held : Held property p)
    (implies : ∀ r, property r → other r) : Held other p where
  log := fun r member => implies r (held.log r member)
  pending := fun l live r member => implies r (held.pending l live r member)

/-- A step that adds nothing to the log or to what is pending. -/
theorem Held.quiet {property : Record → Prop} {p q : Partition.State} {l : Live}
    (held : Held property p) (live : p.live = some l) (log : q.history.log = p.history.log)
    (pending : ∀ l', q.live = some l' → l'.writer.pending = l.writer.pending) : Held property q where
  log := fun r member => held.log r (log ▸ member)
  pending := fun l' live' r member => held.pending l live r (pending l' live' ▸ member)

/-- The only records a step brings in are those it stamps. -/
theorem Held.step {property : Record → Prop} {p next : Partition.State} {action : Partition.Action}
    (held : Held property p)
    (stamped : ∀ l records now, p.live = some l → action = .produce records now →
      l.writer.nextOffset + records.length ≤ i64Max →
      ∀ r ∈ PartitionWriter.stamp now l.writer.nextOffset records, property r)
    (taken : Partition.step env action p = some next) : Held property next := by
  cases step_stepped taken with
  | interrupt down =>
    refine ⟨held.log, fun l live => ?_⟩
    rw [show p.live = some l from live] at down
    cases down
  | start down =>
    refine ⟨held.log, fun l live r member => ?_⟩
    obtain rfl := Option.some.inj live
    cases member
  | @moved l _ _ live moved =>
    cases moved with
    | @produce records now w ready filled stored =>
      obtain ⟨room, phase, _, rfl⟩ := PartitionWriter.onProduce_some stored
      refine ⟨held.log, fun l' live' r member => ?_⟩
      obtain rfl := Option.some.inj live'
      rcases List.mem_append.mp member with old | new
      · exact held.pending l live r old
      · exact stamped l records now live rfl room r new
    | commit phase =>
      refine ⟨fun r member => ?_, fun l' live' r member => ?_⟩
      · rcases List.mem_append.mp member with old | new
        · exact held.log r old
        · exact held.pending l live r new
      · obtain rfl := Option.some.inj live'
        simp only [PartitionWriter.flushCommit] at member
        split at member
        · exact held.pending l live r member
        · cases member
    | crash =>
      refine ⟨fun r member => ?_, fun l' live' => by cases live'⟩
      rcases List.mem_append.mp member with old | torn
      · exact held.log r old
      · have inside := (fitting_front _ _ _).subset torn
        simp only [appending] at inside
        split at inside
        · exact held.pending l live r inside
        · cases inside
    | sealActive =>
      refine held.quiet live rfl fun l' live' => ?_
      obtain rfl := Option.some.inj live'
      simp only [PartitionWriter.sealActive]
      split <;> rfl
    | sendOrphan | openWriter | commitTimeout | updateWriter | segmentDurable | shutdownWriter
    | handoff | openNext | enqueue | uploader =>
      refine held.quiet live rfl fun l' live' => ?_
      obtain rfl := Option.some.inj live'
      rfl

def submitted : Partition.Action → List IncomingRecord
  | .produce records _ => records
  | _ => []

/-- What is in the log or waits for its commit has been sent by a producer. -/
def Genuine (given : List IncomingRecord) : Partition.State → Prop :=
  Held fun r => ∃ inc ∈ given, Copied inc r

theorem Genuine.mono {given more : List IncomingRecord} {p : Partition.State}
    (genuine : Genuine given p) : Genuine (given ++ more) p :=
  Held.mono genuine fun _ => Exists.imp fun _ => And.imp_left (List.mem_append_left more)

theorem Genuine.step {given : List IncomingRecord} {p next : Partition.State}
    {action : Partition.Action} (genuine : Genuine given p)
    (taken : Partition.step env action p = some next) :
    Genuine (given ++ submitted action) next := by
  refine Held.step genuine.mono (fun l records now _ produced _ r member => ?_) taken
  subst produced
  obtain ⟨inc, inside, copied⟩ := stamp_copied member
  exact ⟨inc, List.mem_append_right _ inside, copied⟩

def sent (schedule : List Fetcher.Action) : List IncomingRecord :=
  schedule.flatMap fun
    | .partition action => submitted action
    | _ => []

theorem run_genuine {given : List IncomingRecord} {s next : Fetcher.State}
    {schedule : List Fetcher.Action} (genuine : Genuine given s.partition)
    (ran : (Fetcher.machine env).execute schedule s = some next) :
    Genuine (given ++ sent schedule) next.partition := by
  induction schedule generalizing given s with
  | nil => cases ran; exact genuine.mono
  | cons action schedule ih =>
    obtain ⟨middle, taken, rest⟩ := Machine.execute_cons ran
    have split : given ++ sent (action :: schedule) =
        (given ++ sent [action]) ++ sent schedule := by simp [sent]
    rw [split]
    refine ih ?_ rest
    cases action with
    | partition action =>
      obtain ⟨p, stepped, rfl⟩ := Option.map_eq_some_iff.mp taken
      simpa [sent] using genuine.step stepped
    | begin req => rw [@begin_partition env _ _ _ taken]; exact genuine.mono
    | fetch =>
      obtain ⟨_, _, _, _, same, _⟩ := @fetch_step_cases env _ _ taken
      rw [same]; exact genuine.mono

end Origin

def answer (s : Fetcher.State) : Option (List Record) :=
  s.fetch.bind fun f =>
    match f.phase with
    | .done (.ok resp) => some resp.records
    | _ => none

theorem Sourced.answers {env : Externals} {s : Fetcher.State} (sourced : Sourced env s)
    {records : List Record} (answered : answer s = some records) :
    ∀ r ∈ records, r ∈ s.partition.history.log := by
  obtain ⟨f, fetching, finished⟩ := Option.bind_eq_some_iff.mp answered
  split at finished
  next resp phase =>
    cases finished
    exact sourced.answered f resp fetching phase
  · cases finished

/-- In every run with clean restarts, whatever a fetch has answered is the log's record at its
offset, stays so in every later state and through every later crash, and is what any other fetch
returns for that offset. -/
theorem reads_agree (env : Externals) {first second : List Fetcher.Action} {s t : Fetcher.State}
    (clean : (Fetcher.machine env).Along (Admitted env) (first ++ second) ⟨fresh, none⟩)
    (ran : (Fetcher.machine env).execute first ⟨fresh, none⟩ = some s)
    (later : (Fetcher.machine env).execute second s = some t) {records : List Record}
    (answered : answer s = some records) :
    (∀ r ∈ records, t.partition.history.log[r.offset.toNat]? = some r) ∧
    ∀ records', answer t = some records' → ∀ r ∈ records, ∀ r' ∈ records',
      r.offset = r'.offset → r = r' := by
  obtain ⟨before, after⟩ := (Machine.along_append ran).mp clean
  have sourced := run_sourced (initial_sourced env) before ran
  have sourced' := run_sourced sourced after later
  have kept (r : Record) (member : r ∈ records) :
      t.partition.history.log[r.offset.toNat]? = some r := by
    obtain ⟨more, grown⟩ := run_log later
    have here := log_at (log_numbered sourced.base.whole) (sourced.answers answered r member)
    have bound := (List.getElem?_eq_some_iff.mp here).1
    rw [← grown, List.getElem?_append_left bound]
    exact here
  refine ⟨kept, fun records' answered' r member r' member' same => ?_⟩
  have other := log_at (log_numbered sourced'.base.whole) (sourced'.answers answered' r' member')
  rw [← same, kept r member] at other
  exact Option.some.inj other

/-- A fetch from the active batch; then the segment fills up, is uploaded, and the process
crashes and comes back before the next fetch. -/
def firstRead : List Fetcher.Action :=
  ([.start settings, .openWriter] ++ produceOne 1 : List Action).map .partition ++
    [.begin ⟨0, 10, 0⟩, .fetch, .fetch]

def secondRead : List Fetcher.Action :=
  (produceOne 2 ++ handOver ++ upload ++ [.crash 0, .start settings, .openWriter] : List Action).map
    .partition ++ [.begin ⟨0, 1, 0⟩, .fetch, .fetch, .fetch]

theorem reads_agree_restarted : ∃ s t r r',
    (Fetcher.machine externals).execute firstRead ⟨fresh, none⟩ = some s ∧
    (Fetcher.machine externals).execute secondRead s = some t ∧ answer s = some [r] ∧
    answer t = some [r'] ∧ r = r' := by
  have runs : ((Fetcher.machine externals).execute firstRead ⟨fresh, none⟩).any (fun s =>
      (answer s).map List.length == some 1 && (answer s).any (fun rs => rs.all (·.offset == 0)) &&
      ((Fetcher.machine externals).execute secondRead s).any (fun t =>
        (answer t).map List.length == some 1 &&
        (answer t).any (fun rs => rs.all (·.offset == 0)))) = true := by decide +kernel
  have clean : (Fetcher.machine externals).Along (Admitted externals) (firstRead ++ secondRead)
      ⟨fresh, none⟩ := by decide +kernel
  obtain ⟨s, ran, facts⟩ := Option.any_eq_true _ _ |>.mp runs
  simp only [Bool.and_eq_true, beq_iff_eq] at facts
  obtain ⟨t, later, facts'⟩ := Option.any_eq_true _ _ |>.mp facts.2
  simp only [Bool.and_eq_true, beq_iff_eq] at facts'
  obtain ⟨records, answered, one⟩ := Option.map_eq_some_iff.mp facts.1.1
  obtain ⟨records', answered', one'⟩ := Option.map_eq_some_iff.mp facts'.1
  obtain ⟨r, rfl⟩ := List.length_eq_one_iff.mp one
  obtain ⟨r', rfl⟩ := List.length_eq_one_iff.mp one'
  have first : r.offset = 0 := by simpa [answered] using facts.1.2
  have second : r'.offset = 0 := by simpa [answered'] using facts'.2
  have agree := (reads_agree externals clean ran later answered).2 [r'] answered' r (by simp) r' (by simp)
  exact ⟨s, t, r, r', ran, later, answered, answered', agree (by rw [first, second])⟩

/-- Every record a fetch returns is in the log by then, and carries the schema id, the key, the
value and any timestamp of a record some earlier produce request of the run has sent. -/
theorem reads_genuine (env : Externals) {schedule : List Fetcher.Action} {s : Fetcher.State}
    (clean : (Fetcher.machine env).Along (Admitted env) schedule ⟨fresh, none⟩)
    (ran : (Fetcher.machine env).execute schedule ⟨fresh, none⟩ = some s) {records : List Record}
    (answered : answer s = some records) :
    ∀ r ∈ records, r ∈ s.partition.history.log ∧ ∃ inc ∈ sent schedule, Copied inc r := by
  have sourced := run_sourced (initial_sourced env) clean ran
  have genuine : Genuine [] fresh := fresh_held _
  intro r member
  have inside := sourced.answers answered r member
  exact ⟨inside, by simpa using (run_genuine genuine ran).log r inside⟩

theorem reads_genuine_firstRead : ∃ s r inc,
    (Fetcher.machine externals).execute firstRead ⟨fresh, none⟩ = some s ∧ answer s = some [r] ∧
    inc ∈ sent firstRead ∧ Copied inc r := by
  have runs : ((Fetcher.machine externals).execute firstRead ⟨fresh, none⟩).any (fun s =>
      (answer s).map List.length == some 1) = true := by decide +kernel
  have clean : (Fetcher.machine externals).Along (Admitted externals) firstRead ⟨fresh, none⟩ := by
    decide +kernel
  obtain ⟨s, ran, facts⟩ := Option.any_eq_true _ _ |>.mp runs
  obtain ⟨records, answered, one⟩ := Option.map_eq_some_iff.mp (beq_iff_eq.mp facts)
  obtain ⟨r, rfl⟩ := List.length_eq_one_iff.mp one
  obtain ⟨_, inc, inside, copied⟩ := reads_genuine externals clean ran answered r (by simp)
  exact ⟨s, r, inc, ran, answered, inside, copied⟩

end Kafkrs.StableReads
