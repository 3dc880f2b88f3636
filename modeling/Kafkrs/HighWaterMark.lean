import Kafkrs.Location

/-! The high-water mark of a fetch response, against what is committed. Each tier makes up its own:
the writer's counter of received records, the last record returned, the end of the manifest, or a
constant. -/
namespace Kafkrs.HighWaterMark

open Lib Wal Pipeline Kafkrs.Partition Refinement Continuity RecoveredLog Location
open Kafkrs.Fetching (active_numbered selection_numbered segmentForOffset_mem)

section Tiers

variable {w : PartitionWriter} {req : FetchRequest} {start : Int}

/-- The active batch answers with the end of what it returns. -/
theorem activeRead_hwm (numbered : Numbered Record.offset start w.active)
    (inside : start ≤ req.fromOffset) :
    (Fetcher.activeRead req w).hwm = req.fromOffset +
      (min req.maxRecords (w.active.length - (req.fromOffset - start).toNat) : Nat) - 1 := by
  have chosen := selection_numbered numbered inside req.maxRecords
  have length : (w.readActive req.fromOffset req.maxRecords).length =
      min req.maxRecords (w.active.length - (req.fromOffset - start).toNat) := by
    rw [PartitionWriter.readActive, numbered.filter_ge inside, List.length_take, List.length_drop]
  rw [← length]
  cases final : (w.readActive req.fromOffset req.maxRecords).getLast? with
  | none =>
    have empty := List.getLast?_eq_none_iff.mp final
    simp [Fetcher.activeRead, empty]
  | some r =>
    simp only [Fetcher.activeRead, final, Option.map_some, Option.getD_some]
    exact chosen.last final

/-- At the tail, with or without a wait, the writer's counter is the answer. -/
theorem fetchNow_tail {k : Int} (store : Store) (natural : 0 ≤ req.fromOffset)
    (located : w.locate req.fromOffset = .hwm k) :
    Fetcher.fetchNow w store req = .done (.ok ⟨[], k⟩) := by
  by_cases wait : req.maxWaitMs = 0
  all_goals
    simp [Fetcher.fetchNow, Fetcher.start, not_lt.mpr natural, Fetcher.alone, Fetcher.advance,
      located, Fetcher.located, Fetcher.relocated, wait]

end Tiers

section Log

variable {env : Externals} {s next : State} {action : Action}

theorem step_log (taken : step env action s = some next) : s.history.log <+: next.history.log := by
  cases step_stepped taken with
  | interrupt | start => exact List.prefix_rfl
  | moved live moved =>
    cases moved with
    | commit | crash => exact List.prefix_append _ _
    | _ => exact List.prefix_rfl

theorem run_log {schedule : List Action} {later : State}
    (ran : (machine env).execute schedule s = some later) : s.history.log <+: later.history.log := by
  have grows (state : State) (action : Action) (after : State)
      (grown : s.history.log <+: state.history.log) (_ : True)
      (taken : (machine env).step action state = some after) : s.history.log <+: after.history.log :=
    grown.trans (step_log taken)
  exact Machine.execute_invariant grows List.prefix_rfl (Machine.along_true schedule s) ran

/-- The answer to a fetch that nothing interrupts carries the highest committed offset. -/
def Truthful (s : State) (req : FetchRequest) : Prop :=
  ∀ l, s.live = some l → ∀ resp, Fetcher.fetchNow l.writer s.disk.store req = .done (.ok resp) →
    resp.hwm = highest s.history.log

/-- The tier that serves the request ends where the log ends: nothing received is uncommitted, the
request takes the active batch to its end, or everything is uploaded. -/
def Reports (s : State) (req : FetchRequest) : Prop :=
  ∀ l, s.live = some l → 0 ≤ req.fromOffset →
    match l.writer.locate req.fromOffset with
    | .hwm _ => l.writer.pending = []
    | .inActiveBatch => req.fromOffset ≤ s.history.log.length ∧
        (s.history.log.length : Int) ≤ req.fromOffset + req.maxRecords
    | .inFlight => s.disk.store.manifest.segmentForOffset req.fromOffset ≠ none ∧
        uploadedEnd s.disk.store.manifest = s.history.log.length
    | .belowInFlight => s.disk.store.manifest.segmentForOffset req.fromOffset ≠ none →
        uploadedEnd s.disk.store.manifest = s.history.log.length

/-- A WAL file with records has them in the log. -/
theorem held_log {crc32c : Bytes → UInt32} {files : Recovery.WalDir} {store : Store}
    {history : History} {v : View} (linked : Linked crc32c files store history v)
    (ordered : store.manifest.Ordered) {base : Int} {records : List Record}
    (held : Holds crc32c files base records) (filled : records ≠ []) : history.log ≠ [] := by
  intro empty
  have split := linked.chained.log
  rw [empty] at split
  obtain ⟨old, tail⟩ := List.append_eq_nil_iff.mp split.symm
  obtain ⟨evicted, uploaded⟩ := List.append_eq_nil_iff.mp old
  rcases linked.known base records held filled with notified | here
  · -- with nothing evicted its segment is still listed, and is not empty
    obtain ⟨seg, member, _⟩ := Manifest.lists_iff.mp ((linked.notified base notified).2 evicted)
    obtain ⟨stored, found, own, last⟩ := linked.chained.objects seg member
    have range := ordered.ranges seg member
    obtain ⟨r, inside, _⟩ := own.exists_mem (le_refl _) (by omega)
    have : r ∈ uploadedRecords store :=
      List.mem_flatMap.mpr ⟨seg, member, by simpa [objectRecords, found] using inside⟩
    rw [uploaded] at this
    cases this
  · have : records = [] := List.flatMap_eq_nil_iff.mp tail (base, records) here
    exact filled this

theorem inFlight_log {s : State} {l : Live} (loaded : InMemory.Loaded env s) (live : s.live = some l)
    {offset : Int} (located : l.writer.locate offset = .inFlight) : s.history.log ≠ [] := by
  have tracked := loaded.tracked l live
  have filled : l.writer.inFlight.toList ≠ [] := by
    intro empty
    simp only [PartitionWriter.locate, Dir.keys_eq, empty, List.map_nil, List.head?_nil] at located
    split at located
    · cases located
    · split at located
      · split at located <;> cases located
      · split at located <;> cases located
  obtain ⟨entry, rest, shape⟩ := List.exists_cons_of_ne_nil filled
  have sealed : entry ∈ l.writer.inFlight.toList := by simp [shape]
  have linked := loaded.whole.continuous.live (view l) (by simp [abstract, live])
  refine held_log linked loaded.whole.inv.valid.durable.ordered (tracked.held entry sealed) ?_
  intro empty
  have first := tracked.piece.batches entry sealed
  simp [empty] at first

/-- The answer of the object store ends where the uploads end. -/
theorem lastUploaded_end (m : Manifest) : m.lastUploadedOffset.getD (-1) = uploadedEnd m - 1 := by
  cases last : m.lastUploadedOffset <;> simp [uploadedEnd, last]

theorem locate_tail {w : PartitionWriter} {offset k : Int} (located : w.locate offset = .hwm k) :
    k = w.hwm := by
  by_cases above : offset > w.hwm
  · simpa [PartitionWriter.locate, above, eq_comm] using located
  · rcases FetchCoverage.locate_cases w (not_lt.mp above) with ⟨other, _⟩ | ⟨other | other, _⟩
    all_goals
      rw [located] at other
      cases other

theorem loaded_top {s : State} {l : Live} (loaded : InMemory.Loaded env s) (live : s.live = some l) :
    highest s.history.log = s.history.log.length - 1 :=
  highest_log (loaded.whole.continuous.live (view l) (by simp [abstract, live])).chained.numbered

theorem answered_iff {phase : Fetcher.Phase} {answer : FetchResponse} {top : Int}
    (answered : phase = .done (.ok answer)) :
    (∀ resp, phase = .done (.ok resp) → resp.hwm = top) ↔ answer.hwm = top := by
  simp [answered]

section Answers

variable {l : Live} {req : FetchRequest} (loaded : InMemory.Loaded env s) (live : s.live = some l)
  (natural : 0 ≤ req.fromOffset)

include loaded live natural

theorem tail_iff {k : Int} (located : l.writer.locate req.fromOffset = .hwm k) :
    (∀ resp, Fetcher.fetchNow l.writer s.disk.store req = .done (.ok resp) →
      resp.hwm = highest s.history.log) ↔ l.writer.pending = [] := by
  have split := InMemory.log_length loaded.whole live
  rw [answered_iff (fetchNow_tail _ natural located), loaded_top loaded live, locate_tail located,
    PartitionWriter.hwm, ← List.length_eq_zero_iff]
  dsimp only
  omega

theorem active_iff (located : l.writer.locate req.fromOffset = .inActiveBatch) :
    (∀ resp, Fetcher.fetchNow l.writer s.disk.store req = .done (.ok resp) →
      resp.hwm = highest s.history.log) ↔
      req.fromOffset ≤ s.history.log.length ∧
        (s.history.log.length : Int) ≤ req.fromOffset + req.maxRecords := by
  have inside : req.fromOffset ≤ l.writer.hwm := by
    by_contra above
    simp [PartitionWriter.locate, not_le.mp above] at located
  obtain ⟨_, first, head, low⟩ : l.writer.locate req.fromOffset = .inActiveBatch ∧
      ∃ first, l.writer.active.head? = some first ∧ first.offset ≤ req.fromOffset := by
    rcases FetchCoverage.locate_cases l.writer inside with here | ⟨other | other, _⟩
    · exact here
    all_goals
      rw [located] at other
      cases other
  obtain ⟨start, numbered, _, ending⟩ := active_numbered loaded.whole live
  have base := numbered.head head
  rw [answered_iff (FetchCoverage.fetchNow_active natural located), loaded_top loaded live,
    activeRead_hwm numbered (by omega)]
  omega

theorem store_iff (located : l.writer.locate req.fromOffset = .inFlight ∨
      l.writer.locate req.fromOffset = .belowInFlight) :
    (∀ resp, Fetcher.fetchNow l.writer s.disk.store req = .done (.ok resp) →
      resp.hwm = highest s.history.log) ↔
      (s.disk.store.manifest.segmentForOffset req.fromOffset = none →
        l.writer.locate req.fromOffset = .belowInFlight) ∧
      (s.disk.store.manifest.segmentForOffset req.fromOffset ≠ none →
        uploadedEnd s.disk.store.manifest = s.history.log.length) := by
  obtain ⟨inFlight, flag, outcome⟩ := FetchCoverage.fetchNow_store s.disk.store natural located
  cases found : s.disk.store.manifest.segmentForOffset req.fromOffset with
  | none =>
    simp only [found] at outcome
    simp only [true_implies, ne_eq, not_true_eq_false, false_implies, and_true]
    cases inFlight with
    | false =>
      have below := located.resolve_left fun other => by simpa using flag.mpr other
      simp [outcome, Fetcher.failed, below]
    | true =>
      have sealed := flag.mp rfl
      have filled := List.length_pos_iff.mpr (inFlight_log loaded live sealed)
      rw [@answered_iff _ ⟨[], -1⟩ _ outcome, loaded_top loaded live, sealed]
      simp only [reduceCtorEq, iff_false]
      omega
  | some seg =>
    obtain ⟨member, _⟩ := segmentForOffset_mem found
    have chained := (loaded.whole.continuous.live (view l) (by simp [abstract, live])).chained
    obtain ⟨records, object, _⟩ := chained.objects seg member
    have answer : Fetcher.fetchNow l.writer s.disk.store req = .done (.ok
        ⟨Fetcher.selected req records, s.disk.store.manifest.lastUploadedOffset.getD (-1)⟩) := by
      simp only [outcome, found, Fetcher.segmentRead]
      simp only [abstract] at object
      rw [object]
    rw [answered_iff answer, loaded_top loaded live, lastUploaded_end]
    simp only [reduceCtorEq, false_implies, true_and, ne_eq, not_false_eq_true, true_implies]
    omega

end Answers

theorem truthful_iff_reports (env : Externals) {s : State} (req : FetchRequest)
    (reached : (machine env).Reaches (Admits (cleanly env)) s) : Truthful s req ↔ Reports s req := by
  have loaded := InMemory.reached_loaded reached
  refine forall₂_congr fun l live => ?_
  by_cases natural : 0 ≤ req.fromOffset
  · simp only [natural, true_implies]
    cases located : l.writer.locate req.fromOffset with
    | hwm k => exact tail_iff loaded live natural located
    | inActiveBatch => exact active_iff loaded live natural located
    | inFlight =>
      rw [store_iff loaded live natural (.inl located), located]
      simp only [reduceCtorEq]
      tauto
    | belowInFlight =>
      rw [store_iff loaded live natural (.inr located), located]
      simp
  · have refused : Fetcher.fetchNow l.writer s.disk.store req = .done (.error .offsetOutOfRange) := by
      have negative : req.fromOffset < 0 := by omega
      simp [Fetcher.fetchNow, Fetcher.start, negative, Fetcher.alone, Fetcher.advance]
    simp [refused, natural]

/-- In every state reached through clean restarts, the answer to an uninterrupted fetch carries the
highest committed offset if and only if the tier that serves it ends where the log ends; the marks
of such answers never go down from one fetch to a later one. -/
theorem hwm_committed (env : Externals) {s : State} (req : FetchRequest)
    (reached : (machine env).Reaches (Admits (cleanly env)) s) :
    (Truthful s req ↔ Reports s req) ∧
    ∀ schedule later req' l l' resp resp', (machine env).Along (Admits (cleanly env)) schedule s →
      (machine env).execute schedule s = some later → s.live = some l → later.live = some l' →
      Fetcher.fetchNow l.writer s.disk.store req = .done (.ok resp) →
      Fetcher.fetchNow l'.writer later.disk.store req' = .done (.ok resp') →
      Reports s req → Reports later req' → resp.hwm ≤ resp'.hwm := by
  refine ⟨truthful_iff_reports env req reached, ?_⟩
  intro schedule later req' l l' resp resp' along ran live live' answer answer' reports reports'
  have reached' : (machine env).Reaches (Admits (cleanly env)) later := by
    obtain ⟨before, admitted, ran'⟩ := reached
    exact ⟨before ++ schedule, (Machine.along_append ran').mpr ⟨admitted, along⟩,
      by simp [Machine.execute_append, ran', ran]⟩
  have top := (truthful_iff_reports env req reached).mpr reports l live resp answer
  have top' := (truthful_iff_reports env req' reached').mpr reports' l' live' resp' answer'
  have grown := (run_log ran).length_le
  rw [top, top', loaded_top (InMemory.reached_loaded reached) live,
    loaded_top (InMemory.reached_loaded reached') live']
  omega

/-- Two records are sealed and in flight, a third is in the active batch. -/
def threeRecords : List Action := FetchCoverage.sealedRun ++ produceOne 3

theorem hwm_committed_threeRecords : ∃ s, (machine externals).execute threeRecords fresh = some s ∧
    Truthful s ⟨2, 10, 0⟩ := by
  have runs : ((machine externals).execute threeRecords fresh).any (fun s => s.live.any (fun l =>
      decide (l.writer.locate 2 = .inActiveBatch ∧ s.history.log.length = 3))) = true := by
    decide +kernel
  have along : (machine externals).Along (Admits (cleanly externals)) threeRecords fresh := by
    decide +kernel
  obtain ⟨s, ran, facts⟩ := Option.any_eq_true _ _ |>.mp runs
  obtain ⟨l, live, facts⟩ := Option.any_eq_true _ _ |>.mp facts
  obtain ⟨active, length⟩ := of_decide_eq_true facts
  refine ⟨s, ran, (hwm_committed externals ⟨2, 10, 0⟩ ⟨_, along, ran⟩).1.mpr ?_⟩
  intro l' live' _
  obtain rfl := Option.some.inj (live.symm.trans live')
  simp [active, length]

/-- In one state the active batch answers 2 and an offset in flight -1. -/
theorem threeRecords_disagree : ∃ s l resp, (machine externals).execute threeRecords fresh = some s ∧
    s.live = some l ∧ l.writer.phase = .recv ∧ highest s.history.log = 2 ∧
    Fetcher.fetchNow l.writer s.disk.store ⟨2, 10, 0⟩ = .done (.ok resp) ∧ resp.hwm = 2 ∧
    Fetcher.fetchNow l.writer s.disk.store ⟨0, 10, 0⟩ = .done (.ok ⟨[], -1⟩) ∧
    ¬ Truthful s ⟨0, 10, 0⟩ := by
  have runs : ((machine externals).execute threeRecords fresh).any (fun s => s.live.any (fun l =>
      decide (l.writer.phase = .recv ∧ highest s.history.log = 2 ∧
        Fetcher.fetchNow l.writer s.disk.store ⟨2, 10, 0⟩ =
          .done (.ok (Fetcher.activeRead ⟨2, 10, 0⟩ l.writer)) ∧
        (Fetcher.activeRead ⟨2, 10, 0⟩ l.writer).hwm = 2 ∧
        Fetcher.fetchNow l.writer s.disk.store ⟨0, 10, 0⟩ = .done (.ok ⟨[], -1⟩)))) = true := by
    decide +kernel
  obtain ⟨s, ran, facts⟩ := Option.any_eq_true _ _ |>.mp runs
  obtain ⟨l, live, facts⟩ := Option.any_eq_true _ _ |>.mp facts
  obtain ⟨recv, top, answer, mark, lost⟩ := of_decide_eq_true facts
  refine ⟨s, l, _, ran, live, recv, top, answer, mark, lost, fun truthful => ?_⟩
  have := truthful l live _ lost
  rw [top] at this
  cases this

end Log

end Kafkrs.HighWaterMark
