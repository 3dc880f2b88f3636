import Kafkrs.LongPoll
import Kafkrs.StableReads

/-! The tail channel under a long poll. A fetch that finds nothing asks for the end of the log first
and subscribes afterwards, so a commit may fall between the two; a receiver sees only what is sent
after it was made. The handler keeps a clone of the sender, so the channel does not close on it. -/
namespace Kafkrs.Tail

open Lib Kafkrs.Partition Refinement Continuity RecoveredLog InMemory

/-- `broadcast::channel(1024)`; a receiver that falls further behind is told that it lags. -/
def capacity : Nat := 1024

/-- A partition with one fetch, the high watermarks its writer has sent to the tail, and how many of
them are past the fetch's receiver. -/
structure State where
  broker : Fetcher.State
  tail : List Int
  receiver : Option Nat

inductive Action where
  | partition (action : Partition.Action)
  | begin (req : FetchRequest)
  /-- A step of the fetch outside its wait. -/
  | fetch
  | subscribe
  | receive
  | timeout

def sends (l : Live) : Partition.Action → List Int
  | .writer => if l.writer.phase = .commit ∧ l.writer.pending ≠ [] then [l.writer.hwm] else []
  | _ => []

section Steps

variable (env : Externals)

/-- The wait is over; its receiver is dropped. -/
def wake (s : State) : Option State :=
  (Fetcher.joint env .fetch s.broker).map fun next => ⟨next, s.tail, none⟩

/-- One `recv` of the loop: blocked, lagged, or a high watermark. -/
def receive (s : State) (f : Fetch) (seen : Nat) : Option State :=
  if capacity < s.tail.length - seen then wake env s
  else
    match s.tail[seen]? with
    | none => none
    | some hwm => if f.req.fromOffset ≤ hwm then wake env s else some { s with receiver := some (seen + 1) }

def step (action : Action) (s : State) : Option State :=
  match action with
  | .partition action =>
    (Fetcher.joint env (.partition action) s.broker).map fun next =>
      if next.partition.live.isSome then
        ⟨next, s.tail ++ s.broker.partition.live.elim [] (sends · action), s.receiver⟩
      else ⟨next, [], none⟩
  | .begin req => (Fetcher.joint env (.begin req) s.broker).map fun next => ⟨next, s.tail, none⟩
  | .fetch =>
    match s.broker.fetch with
    | some f =>
      if f.phase = .waiting then none
      else (Fetcher.joint env .fetch s.broker).map fun next => ⟨next, s.tail, none⟩
    | none => none
  | .subscribe =>
    match s.broker.fetch with
    | some f =>
      if f.phase = .waiting ∧ s.receiver = none then some { s with receiver := some s.tail.length }
      else none
    | none => none
  | .receive =>
    match s.broker.fetch, s.receiver with
    | some f, some seen => if f.phase = .waiting then receive env s f seen else none
    | _, _ => none
  | .timeout =>
    match s.broker.fetch, s.receiver with
    | some f, some _ => if f.phase = .waiting then wake env s else none
    | _, _ => none

def machine : Machine State Action := ⟨⟨⟨fresh, none⟩, [], none⟩, step env⟩

end Steps

inductive Stepped (env : Externals) (s : State) : Action → State → Prop
  | partition {action : Partition.Action} {next : Fetcher.State}
      (moved : Fetcher.joint env (.partition action) s.broker = some next) :
      Stepped env s (.partition action)
        (if next.partition.live.isSome then
          ⟨next, s.tail ++ s.broker.partition.live.elim [] (sends · action), s.receiver⟩
        else ⟨next, [], none⟩)
  | begin {req : FetchRequest} {next : Fetcher.State}
      (moved : Fetcher.joint env (.begin req) s.broker = some next) :
      Stepped env s (.begin req) ⟨next, s.tail, none⟩
  | fetch {f : Fetch} {next : Fetcher.State} (asked : s.broker.fetch = some f)
      (awake : f.phase ≠ .waiting) (moved : Fetcher.joint env .fetch s.broker = some next) :
      Stepped env s .fetch ⟨next, s.tail, none⟩
  | subscribe {f : Fetch} (asked : s.broker.fetch = some f) (waits : f.phase = .waiting)
      (unheard : s.receiver = none) :
      Stepped env s .subscribe { s with receiver := some s.tail.length }
  | pass {f : Fetch} {seen : Nat} {hwm : Int} (asked : s.broker.fetch = some f)
      (waits : f.phase = .waiting) (heard : s.receiver = some seen)
      (sent : s.tail[seen]? = some hwm) (below : hwm < f.req.fromOffset) :
      Stepped env s .receive { s with receiver := some (seen + 1) }
  | wake {f : Fetch} {action : Action} {next : Fetcher.State}
      (ended : action = .receive ∨ action = .timeout) (asked : s.broker.fetch = some f)
      (waits : f.phase = .waiting) (moved : Fetcher.joint env .fetch s.broker = some next) :
      Stepped env s action ⟨next, s.tail, none⟩

theorem step_stepped {env : Externals} {s t : State} {action : Action}
    (taken : step env action s = some t) : Stepped env s action t := by
  cases action with
  | partition action =>
    obtain ⟨next, moved, rfl⟩ := Option.map_eq_some_iff.mp taken
    exact .partition moved
  | begin req =>
    obtain ⟨next, moved, rfl⟩ := Option.map_eq_some_iff.mp taken
    exact .begin moved
  | fetch =>
    simp only [step] at taken
    split at taken
    next f asked =>
      split at taken
      · cases taken
      next awake =>
        obtain ⟨next, moved, rfl⟩ := Option.map_eq_some_iff.mp taken
        exact .fetch asked awake moved
    · cases taken
  | subscribe =>
    simp only [step] at taken
    split at taken
    next f asked =>
      split at taken
      next ready =>
        cases taken
        exact .subscribe asked ready.1 ready.2
      · cases taken
    · cases taken
  | receive =>
    simp only [step] at taken
    split at taken
    next f seen asked heard =>
      split at taken
      next waits =>
        unfold receive at taken
        split at taken
        · obtain ⟨next, moved, rfl⟩ := Option.map_eq_some_iff.mp taken
          exact .wake (.inl rfl) asked waits moved
        · split at taken
          · cases taken
          next hwm sent =>
            split at taken
            · obtain ⟨next, moved, rfl⟩ := Option.map_eq_some_iff.mp taken
              exact .wake (.inl rfl) asked waits moved
            next below =>
              cases taken
              exact .pass asked waits heard sent (Int.not_le.mp below)
      · cases taken
    · cases taken
  | timeout =>
    simp only [step] at taken
    split at taken
    next f _ asked _ =>
      split at taken
      next waits =>
        obtain ⟨next, moved, rfl⟩ := Option.map_eq_some_iff.mp taken
        exact .wake (.inr rfl) asked waits moved
      · cases taken
    · cases taken

def Admitted (env : Externals) (s : State) : Action → Prop
  | .partition action => Admits (cleanly env) s.broker.partition action
  | _ => True

/-- The subscription finds the offset not committed yet. -/
def Prompt (s : State) : Action → Prop
  | .subscribe => s.receiver = none → ∀ f, s.broker.fetch = some f → f.phase = .waiting →
      (s.broker.partition.history.log.length : Int) ≤ f.req.fromOffset
  | _ => True

/-- A fetch waits for an offset that is committed, and nothing in its channel will wake it. -/
def Asleep (s : State) : Prop :=
  ∃ f seen, s.broker.fetch = some f ∧ f.phase = .waiting ∧ s.receiver = some seen ∧
    f.req.fromOffset < s.broker.partition.history.log.length ∧
    s.tail.length - seen ≤ capacity ∧ ∀ hwm ∈ s.tail.drop seen, hwm < f.req.fromOffset

/-- The tail has been told of everything committed since a waiting fetch asked. -/
structure Told (env : Externals) (s : State) : Prop where
  whole : Whole env (cleanly env) s.broker.partition
  sent : ∀ hwm ∈ s.tail, hwm < s.broker.partition.history.log.length
  covered : ∀ f, s.broker.fetch = some f → f.phase = .waiting → 0 ≤ f.req.fromOffset ∧
    (f.req.fromOffset < s.broker.partition.history.log.length →
      ∃ hwm ∈ s.tail, f.req.fromOffset ≤ hwm)

/-- What a receiver is past would not have woken its fetch. -/
structure Heard (env : Externals) (s : State) : Prop extends Told env s where
  past : ∀ f seen, s.broker.fetch = some f → f.phase = .waiting → s.receiver = some seen →
    seen ≤ s.tail.length ∧ ∀ hwm ∈ s.tail.take seen, hwm < f.req.fromOffset

section Commit

variable {env : Externals} {regime : Regime} {p q : Partition.State} {action : Partition.Action}

/-- A step that is survived commits nothing, or sends the offset of the last record. -/
theorem sends_spec (whole : Whole env regime p) (taken : Partition.step env action p = some q)
    (up : q.live.isSome) :
    (q.history.log = p.history.log ∧ p.live.elim [] (sends · action) = []) ∨
      (p.history.log.length ≤ q.history.log.length ∧
        p.live.elim [] (sends · action) = [(q.history.log.length : Int) - 1]) := by
  cases Partition.step_stepped taken with
  | interrupt down | start down => exact .inl ⟨rfl, by simp [down]⟩
  | @moved l _ _ live moved =>
    cases moved with
    | crash => cases up
    | commit phase =>
      have length := log_length whole live
      by_cases empty : l.writer.pending = []
      · exact .inl ⟨by simp [empty], by simp [live, sends, empty]⟩
      · refine .inr ⟨by simp, ?_⟩
        simp only [live, Option.elim_some, sends, phase, empty, ne_eq, not_false_eq_true, and_self,
          if_true, PartitionWriter.hwm, List.length_append]
        push_cast
        rw [← length]
        congr 1
        omega
    | sealActive phase | handoff phase | openNext phase =>
      exact .inl ⟨rfl, by simp [live, sends, phase]⟩
    | _ => exact .inl ⟨rfl, by simp [live, sends]⟩

/-- A fetch starts to wait only after its first `Locate`, at an offset nobody has produced. -/
theorem waits_above {w : PartitionWriter} {store : Store} {f : Fetch} (awake : f.phase ≠ .waiting)
    (early : Fetcher.advance w store f = .locate ∨ Fetcher.advance w store f = .waiting) :
    f.phase = .locate ∧ w.nextOffset ≤ f.req.fromOffset := by
  obtain ⟨req, phase⟩ := f
  cases phase with
  | locate =>
    refine ⟨rfl, ?_⟩
    simp only [Fetcher.advance] at early
    by_contra low
    dsimp only at low
    have inside : req.fromOffset ≤ w.hwm := by
      simp only [PartitionWriter.hwm]
      omega
    rcases FetchCoverage.locate_cases w inside with ⟨found, _⟩ | ⟨found | found, _⟩
    all_goals
      rw [found] at early
      rcases early with early | early <;> cases early
  | waiting => exact absurd rfl awake
  | relocate =>
    simp only [Fetcher.advance, Fetcher.relocated] at early
    split at early <;> rcases early with early | early <;> cases early
  | readActive | done => rcases early with early | early <;> cases early
  | readManifest inFlight =>
    simp only [Fetcher.advance, Fetcher.manifestRead] at early
    split at early <;> rcases early with early | early <;> cases early
  | readSegment seg hwm inFlight =>
    simp only [Fetcher.advance, Fetcher.segmentRead] at early
    split at early <;> rcases early with early | early <;> cases early

end Commit

section Steps

variable {env : Externals} {s t : State} {action : Action}

/-- A step of the fetch leaves the partition, and a fetch that waits after it asked just now. -/
theorem fetch_told (told : Told env s) {next : Fetcher.State}
    (moved : Fetcher.joint env .fetch s.broker = some next)
    (awake : ∀ f, s.broker.fetch = some f → f.phase ≠ .waiting) : Told env ⟨next, s.tail, none⟩ := by
  obtain ⟨l, f, live, asked, same, outcome⟩ := Fetching.fetch_step_cases moved
  refine ⟨by rw [same]; exact told.whole, by rw [same]; exact told.sent, fun g now waits => ?_⟩
  rcases outcome with ⟨_, stopped⟩ | ⟨_, _, advanced⟩
  · rw [stopped] at now
    cases now
    cases waits
  · rw [advanced] at now
    cases now
    obtain ⟨_, above⟩ := waits_above (awake f asked) (.inr waits)
    have length := log_length told.whole live
    dsimp only at above ⊢
    rw [same]
    exact ⟨by omega, fun committed => by omega⟩

theorem wake_told (told : Told env s) {f : Fetch} {next : Fetcher.State}
    (asked : s.broker.fetch = some f) (waits : f.phase = .waiting)
    (moved : Fetcher.joint env .fetch s.broker = some next) : Told env ⟨next, s.tail, none⟩ := by
  obtain ⟨l, g, live, asked', same, outcome⟩ := Fetching.fetch_step_cases moved
  obtain rfl := Option.some.inj (asked.symm.trans asked')
  refine ⟨by rw [same]; exact told.whole, by rw [same]; exact told.sent, fun g now waits' => ?_⟩
  rcases outcome with ⟨_, stopped⟩ | ⟨_, _, advanced⟩
  · rw [stopped] at now
    cases now
    cases waits'
  · rw [advanced] at now
    cases now
    simp only [Fetcher.advance, waits] at waits'
    cases waits'

theorem partition_told (told : Told env s) {action : Partition.Action} {next : Fetcher.State}
    (admits : Admits (cleanly env) s.broker.partition action)
    (moved : Fetcher.joint env (.partition action) s.broker = some next) :
    Told env (if next.partition.live.isSome then
      ⟨next, s.tail ++ s.broker.partition.live.elim [] (sends · action), s.receiver⟩
      else ⟨next, [], none⟩) := by
  obtain ⟨p, taken, rfl⟩ := Option.map_eq_some_iff.mp moved
  have whole := told.whole.step admits (fun _ clean => clean) taken
  split
  next up =>
    rcases sends_spec told.whole taken up with ⟨same, none⟩ | ⟨grown, sent⟩
    · rw [none, List.append_nil]
      exact ⟨whole, by rw [same]; exact told.sent, fun f asked waits => by
        rw [same]; exact told.covered f asked waits⟩
    · rw [sent]
      refine ⟨whole, fun hwm member => ?_, fun f asked waits => ?_⟩
      · rcases List.mem_append.mp member with old | new
        · have := told.sent hwm old
          dsimp only
          omega
        · rw [List.mem_singleton.mp new]
          dsimp only
          omega
      · refine ⟨(told.covered f asked waits).1, fun committed => ⟨_, List.mem_append_right _
          (List.mem_singleton_self _), ?_⟩⟩
        dsimp only at committed
        omega
  next down =>
    exact ⟨whole, fun _ none => (by cases none), fun _ none => by cases none⟩

theorem Told.step (told : Told env s) (admits : Admitted env s action)
    (taken : Tail.step env action s = some t) : Told env t := by
  cases step_stepped taken with
  | partition moved => exact partition_told told admits moved
  | begin moved =>
    have same := Fetching.begin_partition moved
    refine ⟨by rw [same]; exact told.whole, by rw [same]; exact told.sent, fun f now waits => ?_⟩
    rw [← Fetching.begin_fetch moved now] at waits
    unfold Fetcher.start at waits
    dsimp only at waits
    split at waits <;> cases waits
  | fetch asked awake moved =>
    exact fetch_told told moved fun g asked' => Option.some.inj (asked.symm.trans asked') ▸ awake
  | subscribe | pass => exact ⟨told.whole, told.sent, told.covered⟩
  | wake _ asked waits moved => exact wake_told told asked waits moved

theorem Heard.step (heard : Heard env s) (admits : Admitted env s action) (prompt : Prompt s action)
    (taken : Tail.step env action s = some t) : Heard env t := by
  refine ⟨heard.toTold.step admits taken, ?_⟩
  cases step_stepped taken with
  | partition moved =>
    obtain ⟨p, _, rfl⟩ := Option.map_eq_some_iff.mp moved
    split
    next up =>
      intro f seen asked waits passed
      obtain ⟨inside, below⟩ := heard.past f seen asked waits passed
      refine ⟨by simp only [List.length_append]; omega, fun hwm member => ?_⟩
      rw [List.take_append_of_le_length inside] at member
      exact below hwm member
    next => exact fun _ _ _ _ none => by cases none
  | begin | fetch | wake => exact fun _ _ _ _ none => by cases none
  | subscribe asked waits unheard =>
    intro f seen asked' waits' passed
    cases passed
    refine ⟨le_rfl, fun hwm member => ?_⟩
    have := prompt unheard f asked' waits'
    have := heard.sent hwm (List.mem_of_mem_take member)
    omega
  | @pass f seen hwm asked waits passed sent below =>
    intro g seen' asked' waits' passed'
    cases passed'
    obtain rfl := Option.some.inj (asked.symm.trans asked')
    obtain ⟨inside, earlier⟩ := heard.past f seen asked waits passed
    refine ⟨?_, fun other member => ?_⟩
    · obtain ⟨bound, _⟩ := List.getElem?_eq_some_iff.mp sent
      exact bound
    · rw [List.take_add_one, sent, List.mem_append] at member
      rcases member with old | new
      · exact earlier other old
      · obtain rfl : other = hwm := by simpa using new
        exact below

/-- What told the tail of a committed offset is still to be received. -/
theorem Heard.unread (heard : Heard env s) {f : Fetch} {seen : Nat} (asked : s.broker.fetch = some f)
    (waits : f.phase = .waiting) (passed : s.receiver = some seen)
    (committed : f.req.fromOffset < s.broker.partition.history.log.length) :
    ∃ hwm ∈ s.tail.drop seen, f.req.fromOffset ≤ hwm := by
  obtain ⟨hwm, member, covers⟩ := (heard.covered f asked waits).2 committed
  rw [← List.take_append_drop seen s.tail, List.mem_append] at member
  refine ⟨hwm, member.resolve_left fun old => ?_, covers⟩
  have := (heard.past f seen asked waits passed).2 hwm old
  omega

theorem Heard.awake (heard : Heard env s) : ¬ Asleep s := by
  rintro ⟨f, seen, asked, waits, passed, committed, _, silent⟩
  obtain ⟨hwm, member, covers⟩ := heard.unread asked waits passed committed
  have := silent hwm member
  omega

/-- Subscribing after the commit is what puts a fetch to sleep. -/
theorem overslept (late : ¬ Prompt s action) (taken : Tail.step env action s = some t) : Asleep t := by
  cases action with
  | subscribe =>
    simp only [Prompt, not_forall, not_le] at late
    obtain ⟨_, f, asked, waits, committed⟩ := late
    cases step_stepped taken with
    | subscribe =>
      exact ⟨f, s.tail.length, asked, waits, rfl, committed, by simp, by simp⟩
    | wake ended => rcases ended with other | other <;> cases other
  | _ => exact absurd trivial late

theorem initial_heard (env : Externals) : Heard env (machine env).initial where
  whole := fresh_whole env _
  sent := fun _ none => by cases none
  covered := fun _ none => by cases none
  past := fun _ _ none => by cases none

/-- A long poll never sleeps through the commit it waits for, exactly as long as it is subscribed
before that commit: a commit between its two steps is not heard. -/
theorem awake_iff_prompt (env : Externals) (schedule : List Action)
    (admitted : (machine env).Along (Admitted env) schedule (machine env).initial) :
    (machine env).Throughout (fun s => ¬ Asleep s) schedule (machine env).initial ↔
      (machine env).Along Prompt schedule (machine env).initial := by
  refine Machine.throughout_iff_admitted (fun _ => Heard.awake) ?_ ?_ ?_ (initial_heard env) admitted
  · exact fun _ _ _ heard admits prompt taken => heard.step admits prompt taken
  · exact fun _ _ _ _ _ late taken awake => awake (overslept late taken)
  · intro s action disabled
    cases action with
    | subscribe =>
      intro unheard f asked waits
      simp [machine, Tail.step, asked, waits, unheard] at disabled
    | _ => trivial

end Steps

section Answer

variable {env : Externals} {s : State} {l : Live} {f : Fetch}

/-- Where the second `Locate` finds the offset in a readable tier, the answer starts at it. -/
theorem reResolve_serves {p : Partition.State} {req : FetchRequest}
    (whole : Whole env (cleanly env) p) (live : p.live = some l) (running : l.writer.phase ≠ .stopped)
    (limit : 1 ≤ req.maxRecords) (low : (p.history.evicted.length : Int) ≤ req.fromOffset)
    (high : req.fromOffset < p.history.log.length)
    (stored : req.fromOffset < uploadedEnd p.disk.store.manifest ∨
      ∃ first, l.writer.active.head? = some first ∧ first.offset ≤ req.fromOffset) :
    ∃ resp, LongPoll.reResolve l.writer (.of p.disk.store) req = .ok resp ∧
      resp.records.head?.map (·.offset) = some req.fromOffset := by
  have linked := whole.continuous.live (view l) (by simp [abstract, live])
  have length := log_length whole live
  have reachable : req.fromOffset ≤ l.writer.hwm := by
    simp only [PartitionWriter.hwm]
    omega
  unfold LongPoll.reResolve
  rw [if_neg running]
  rcases FetchCoverage.locate_cases l.writer reachable with ⟨located, r, head, inside⟩ | ⟨located, above⟩
  · obtain ⟨first, numbered, _, ending⟩ := Fetching.active_numbered whole live
    have begins := numbered.head head
    rw [located]
    exact ⟨_, rfl, FetchCoverage.selection_head numbered (by omega) (by omega) limit⟩
  · have uploaded : req.fromOffset < uploadedEnd p.disk.store.manifest := by
      refine stored.resolve_right ?_
      rintro ⟨first, head, inside⟩
      have := above first head
      omega
    obtain ⟨seg, records, found, object, own, base, top⟩ := FetchCoverage.segmentForOffset_found
      linked.chained whole.inv.valid.durable.ordered low uploaded
    have read : LongPoll.readObjectStore (.of p.disk.store) req =
        .ok ⟨Fetcher.selected req records, p.disk.store.manifest.lastUploadedOffset.getD (-1)⟩ := by
      simp only [abstract] at found object
      simp only [LongPoll.readObjectStore, LongPoll.View.of, found, object]
    refine ⟨⟨Fetcher.selected req records,
      p.disk.store.manifest.lastUploadedOffset.getD (-1)⟩, ?_, FetchCoverage.selection_head own base top limit⟩
    rcases located with found | found <;> rw [found] <;> exact read

/-- Past its wait a fetch never waits again. -/
theorem advance_later {w : PartitionWriter} {store : Store} {f : Fetch}
    (later : f.phase ≠ .locate ∧ f.phase ≠ .waiting) :
    Fetcher.advance w store f ≠ .locate ∧ Fetcher.advance w store f ≠ .waiting :=
  ⟨fun early => later.1 (waits_above later.2 (.inl early)).1,
    fun early => later.1 (waits_above later.2 (.inr early)).1⟩

theorem execute_fetch {k : Nat} {broker next : Fetcher.State} {tail : List Int}
    (later : ∀ f, broker.fetch = some f → f.phase ≠ .locate ∧ f.phase ≠ .waiting)
    (ran : (Fetcher.machine env).execute (List.replicate k .fetch) broker = some next) :
    (machine env).execute (List.replicate k .fetch) ⟨broker, tail, none⟩ =
      some ⟨next, tail, none⟩ := by
  induction k generalizing broker with
  | zero =>
    cases ran
    rfl
  | succ k ih =>
    obtain ⟨middle, moved, rest⟩ := Machine.execute_cons ran
    have moved : Fetcher.joint env .fetch broker = some middle := moved
    obtain ⟨l, f, live, asked, same, outcome⟩ := Fetching.fetch_step_cases moved
    have taken : (machine env).step .fetch ⟨broker, tail, none⟩ = some ⟨middle, tail, none⟩ := by
      simp [machine, Tail.step, asked, (later f asked).2, moved]
    rw [List.replicate_succ, Machine.execute_step taken]
    refine ih (fun g now => ?_) rest
    rcases outcome with ⟨_, stopped⟩ | ⟨_, _, advanced⟩
    · rw [stopped] at now
      cases now
      exact ⟨nofun, nofun⟩
    · rw [advanced] at now
      cases now
      exact advance_later (later f asked)

theorem alone_req (w : PartitionWriter) (store : Store) (n : Nat) (f : Fetch) :
    (Fetcher.alone w store n f).req = f.req := by
  induction n generalizing f with
  | zero => rfl
  | succ n ih => exact ih _

/-- The receiver comes to a high watermark that wakes its fetch. -/
theorem hears (live : s.broker.partition.live = some l) (asked : s.broker.fetch = some f)
    (waits : f.phase = .waiting) {seen : Nat} (passed : s.receiver = some seen)
    (covers : ∃ hwm ∈ s.tail.drop seen, f.req.fromOffset ≤ hwm) :
    ∃ n, (machine env).execute (List.replicate n .receive) s =
      some ⟨⟨s.broker.partition, some ⟨f.req, .relocate⟩⟩, s.tail, none⟩ := by
  have woken : wake env s = some ⟨⟨s.broker.partition, some ⟨f.req, .relocate⟩⟩, s.tail, none⟩ := by
    simp [wake, Fetcher.joint, live, asked, Fetcher.step, waits, Fetcher.asks, Fetcher.advance]
  induction left : s.tail.length - seen generalizing s seen with
  | zero =>
    obtain ⟨hwm, member, _⟩ := covers
    rw [List.drop_of_length_le (by omega)] at member
    cases member
  | succ n ih =>
    have inside : seen < s.tail.length := by omega
    have taken : Tail.step env .receive s = receive env s f seen := by
      simp [Tail.step, asked, passed, waits]
    by_cases lagged : capacity < s.tail.length - seen
    · refine ⟨1, ?_⟩
      rw [List.replicate_one, Machine.execute_step (show (machine env).step .receive s = _ from
        taken.trans ((if_pos lagged).trans woken))]
      rfl
    · by_cases enough : f.req.fromOffset ≤ s.tail[seen]
      · refine ⟨1, ?_⟩
        have here : receive env s f seen = wake env s := by
          simp [receive, lagged, List.getElem?_eq_getElem inside, enough]
        rw [List.replicate_one, Machine.execute_step (show (machine env).step .receive s = _ from
          taken.trans (here.trans woken))]
        rfl
      · have here : receive env s f seen = some { s with receiver := some (seen + 1) } := by
          simp [receive, lagged, List.getElem?_eq_getElem inside, enough]
        obtain ⟨hwm, member, above⟩ := covers
        rw [List.drop_eq_getElem_cons inside, List.mem_cons] at member
        have later := member.resolve_left (by rintro rfl; exact enough above)
        obtain ⟨m, ran⟩ := @ih { s with receiver := some (seen + 1) } live asked (seen + 1) rfl
          ⟨hwm, later, above⟩ woken (by dsimp only; omega)
        exact ⟨m + 1, by rw [List.replicate_succ, Machine.execute_step (show (machine env).step
          .receive s = _ from taken.trans here), ran]⟩

/-- In a run whose long polls all subscribed in time, a waiting fetch whose offset is committed and
readable is answered by its own steps: it hears of the commit and returns records from the offset
on, unless the offset was evicted. -/
theorem woken_served (env : Externals)
    (reached : (machine env).Reaches (fun s action => Admitted env s action ∧ Prompt s action) s)
    (live : s.broker.partition.live = some l) (recv : l.writer.phase = .recv)
    (asked : s.broker.fetch = some f) (waits : f.phase = .waiting) {seen : Nat}
    (subscribed : s.receiver = some seen) (limit : 1 ≤ f.req.maxRecords)
    (low : (s.broker.partition.history.evicted.length : Int) ≤ f.req.fromOffset)
    (committed : f.req.fromOffset < s.broker.partition.history.log.length)
    (stored : f.req.fromOffset < uploadedEnd s.broker.partition.disk.store.manifest ∨
      ∃ first, l.writer.active.head? = some first ∧ first.offset ≤ f.req.fromOffset) :
    ∃ n k resp, (machine env).execute (List.replicate n .receive ++ List.replicate k .fetch) s =
        some ⟨⟨s.broker.partition, some ⟨f.req, .done (.ok resp)⟩⟩, s.tail, none⟩ ∧
      resp.records.head?.map (·.offset) = some f.req.fromOffset := by
  have heard : Heard env s := reached.invariant (initial_heard env)
    fun _ _ _ heard guard taken => heard.step guard.1 guard.2 taken
  obtain ⟨n, woke⟩ := @hears env s l f live asked waits seen subscribed
    (heard.unread asked waits subscribed committed)
  have running : l.writer.phase ≠ .stopped := by simp [recv]
  obtain ⟨resp, served, head⟩ := reResolve_serves heard.whole live running limit low committed stored
  obtain ⟨k, _, ran⟩ := FetchCoverage.alone_runs env live recv 3 ⟨f.req, .relocate⟩
  have answer := @LongPoll.relocate_alone l.writer f.req running s.broker.partition.disk.store
  have same := alone_req l.writer s.broker.partition.disk.store 3 ⟨f.req, .relocate⟩
  rw [served] at answer
  generalize Fetcher.alone l.writer s.broker.partition.disk.store 3 ⟨f.req, .relocate⟩ = last at *
  obtain ⟨req, phase⟩ := last
  obtain rfl : req = f.req := same
  obtain rfl : phase = .done (.ok resp) := answer
  refine ⟨n, k, resp, ?_, head⟩
  rw [Machine.execute_append, woke, Option.bind_some]
  refine execute_fetch (fun g now => ?_) ran
  cases now
  exact ⟨nofun, nofun⟩

end Answer

section Sample

instance (env : Externals) (s : State) : DecidablePred (Admitted env s)
  | .partition action => inferInstanceAs (Decidable (Admits (cleanly env) s.broker.partition action))
  | .begin _ | .fetch | .subscribe | .receive | .timeout => .isTrue trivial

instance (s : State) : DecidablePred (Prompt s)
  | .subscribe => inferInstanceAs (Decidable (s.receiver = none → ∀ f ∈ s.broker.fetch,
      f.phase = .waiting → (s.broker.partition.history.log.length : Int) ≤ f.req.fromOffset))
  | .partition _ | .begin _ | .fetch | .receive | .timeout => .isTrue trivial

def asks : List Action :=
  ([.start settings, .openWriter] : List Partition.Action).map .partition ++
    [.begin ⟨0, 10, 100⟩, .fetch]

/-- It subscribes before the first record is committed, or after. -/
def inTime : List Action := asks ++ [.subscribe] ++ (produceOne 1).map .partition

def tooLate : List Action := asks ++ (produceOne 1).map .partition ++ [.subscribe]

theorem awake_iff_prompt_late :
    (machine externals).Throughout (fun s => ¬ Asleep s) inTime (machine externals).initial ∧
      ¬ (machine externals).Throughout (fun s => ¬ Asleep s) tooLate (machine externals).initial :=
  ⟨(awake_iff_prompt externals _ (by decide +kernel)).mpr (by decide +kernel),
    (awake_iff_prompt externals _ (by decide +kernel)).not.mpr (by decide +kernel)⟩

theorem woken_served_inTime : ∃ s n k t resp,
    (machine externals).execute inTime (machine externals).initial = some s ∧
    (machine externals).execute (List.replicate n .receive ++ List.replicate k .fetch) s = some t ∧
    t.broker.fetch = some ⟨⟨0, 10, 100⟩, .done (.ok resp)⟩ ∧
    resp.records.head?.map (·.offset) = some 0 := by
  have runs : ((machine externals).execute inTime (machine externals).initial).any (fun s =>
      decide (s.receiver = some 0 ∧ s.broker.partition.history.evicted.length = 0 ∧
        s.broker.partition.history.log.length = 1) &&
      (s.broker.fetch.any fun f => decide (f.req = ⟨0, 10, 100⟩ ∧ f.phase = .waiting)) &&
      s.broker.partition.live.any fun l => decide (l.writer.phase = .recv ∧
        l.writer.active.head?.map (·.offset) = some 0)) = true := by decide +kernel
  have guarded : (machine externals).Along (fun s action => Admitted externals s action ∧
      Prompt s action) inTime (machine externals).initial := by decide +kernel
  obtain ⟨s, ran, facts⟩ := Option.any_eq_true _ _ |>.mp runs
  simp only [Bool.and_eq_true, decide_eq_true_eq] at facts
  obtain ⟨⟨⟨subscribed, none, one⟩, asked⟩, facts⟩ := facts
  obtain ⟨⟨_, phase⟩, asked, shape⟩ := Option.any_eq_true _ _ |>.mp asked
  obtain ⟨rfl, waits⟩ := of_decide_eq_true shape
  obtain ⟨l, live, facts⟩ := Option.any_eq_true _ _ |>.mp facts
  obtain ⟨recv, head⟩ := of_decide_eq_true facts
  obtain ⟨first, isHead, offset⟩ := Option.map_eq_some_iff.mp head
  obtain ⟨n, k, resp, ran', served⟩ := woken_served externals ⟨inTime, guarded, ran⟩ live recv asked
    waits subscribed (show 1 ≤ 10 by decide) (by simp [none]) (by simp [one])
    (.inr ⟨first, isHead, by rw [offset]⟩)
  exact ⟨s, n, k, _, resp, ran, ran', rfl, served⟩

end Sample

end Kafkrs.Tail
