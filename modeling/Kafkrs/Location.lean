import Kafkrs.FetchCoverage
import Kafkrs.InMemory

/-! What `locate` answers, against what is committed. The writer counts a record into its
high-water mark when it receives it, so the answers are about committed offsets exactly when
nothing is waiting for a commit. -/
namespace Kafkrs.Location

open Lib Kafkrs.Partition Refinement RecoveredLog InMemory

def highest (log : List Record) : Int := (log.map (·.offset)).foldr max (-1)

/-- What the answers to `locate` should say of committed offsets. -/
structure Answers (w : PartitionWriter) (log : List Record) : Prop where
  hwm : ∀ offset : Int, 0 ≤ offset → ∀ k,
    w.locate offset = .hwm k ↔ highest log < offset ∧ k = highest log
  active : ∀ offset : Int, 0 ≤ offset →
    (w.locate offset = .inActiveBatch ↔ ∃ r ∈ w.active, r.offset = offset)
  inFlight : ∀ offset : Int, 0 ≤ offset →
    (w.locate offset = .inFlight ↔
      ∃ entry ∈ w.inFlight.toList, ∃ r ∈ entry.2, r.offset = offset)
  below : ∀ offset : Int, 0 ≤ offset → w.locate offset = .belowInFlight →
    ∀ r ∈ memory w, offset < r.offset
  /-- A record waiting for its commit is neither located nor read. -/
  waiting : ∀ r ∈ w.pending, w.locate r.offset ≠ .inActiveBatch ∧ w.locate r.offset ≠ .inFlight ∧
    ∀ low limit, r ∉ w.readActive low limit

section Regions

variable {w : PartitionWriter} {log : List Record} {offset start : Int}

theorem highest_numbered (numbered : Numbered Record.offset start log) (low : -1 ≤ start) :
    highest log = if log = [] then -1 else start + log.length - 1 := by
  induction log generalizing start with
  | nil => rfl
  | cons r rest ih =>
    have here : highest (r :: rest) = max r.offset (highest rest) := rfl
    rw [here, ih numbered.2 (by omega), numbered.1]
    simp only [List.length_cons, reduceCtorEq, if_false]
    push_cast
    split
    next empty =>
      simp only [empty, List.length_nil]
      omega
    next => omega

theorem highest_log (numbered : Numbered Record.offset 0 log) : highest log = log.length - 1 := by
  rw [highest_numbered numbered (by omega)]
  split
  next empty => simp [empty]
  next => omega

theorem oldest_base (piece : InPiece w) {entry : Int × List Record} {rest : List (Int × List Record)}
    (oldest : w.inFlight.toList = entry :: rest) : entry.1 = w.nextOffset - (memory w).length := by
  obtain ⟨first, isFirst, offset⟩ := Option.map_eq_some_iff.mp (piece.batches entry (by simp [oldest]))
  obtain ⟨more, shape⟩ := List.head?_eq_some_iff.mp isFirst
  rw [← offset]
  refine piece.numbered.head ?_
  simp [memory, oldest, shape]

theorem active_base (piece : InPiece w) {first : Record} (head : w.active.head? = some first) :
    first.offset = w.nextOffset - w.pending.length - w.active.length := by
  have numbered := piece.numbered
  rw [memory, List.append_assoc, Numbered.append_iff] at numbered
  rw [numbered.2.head (by simp [head])]
  simp only [List.length_append]
  push_cast
  omega

/-- With nothing waiting, `locate` tells apart what lies past the log, in the active batch, in the
batches in flight, and before all of these. -/
theorem locate_committed (piece : InPiece w) (committed : w.pending = []) (offset : Int) :
    w.locate offset =
      if w.nextOffset ≤ offset then .hwm w.hwm
      else if w.nextOffset - w.active.length ≤ offset then .inActiveBatch
      else if w.nextOffset - (memory w).length ≤ offset then .inFlight
      else .belowInFlight := by
  have length : (memory w).length = (w.inFlight.toList.flatMap Prod.snd).length + w.active.length := by
    simp [memory, committed]
  have past : offset > w.hwm ↔ w.nextOffset ≤ offset := by
    simp only [PartitionWriter.hwm]
    omega
  have ends : offset = w.hwm + 1 ↔ offset = w.nextOffset := by
    simp only [PartitionWriter.hwm]
    omega
  simp only [PartitionWriter.locate, past, ends, Dir.keys_eq]
  cases shape : w.inFlight.toList with
  | nil =>
    rw [shape, List.flatMap_nil, List.length_nil] at length
    cases head : w.active.head? with
    | none =>
      have empty := List.head?_eq_none_iff.mp head
      rw [empty, List.length_nil] at length ⊢
      simp only [List.map_nil, List.head?_nil]
      split_ifs <;> first | rfl | omega
    | some first =>
      have base := active_base piece head
      rw [committed, List.length_nil] at base
      simp only [List.map_nil, List.head?_nil]
      split_ifs <;> first | rfl | omega
  | cons entry rest =>
    have oldest := oldest_base piece shape
    cases head : w.active.head? with
    | none =>
      have empty := List.head?_eq_none_iff.mp head
      rw [empty, List.length_nil] at length ⊢
      simp only [List.map_cons, List.head?_cons]
      split_ifs <;> first | rfl | omega
    | some first =>
      have base := active_base piece head
      rw [committed, List.length_nil] at base
      simp only [List.map_cons, List.head?_cons]
      split_ifs <;> first | rfl | omega

/-- These are the answers there should be. -/
theorem answers_committed (piece : InPiece w) (committed : w.pending = [])
    (top : w.hwm = highest log) : Answers w log := by
  have numbered := piece.numbered
  have length : (memory w).length = (w.inFlight.toList.flatMap Prod.snd).length + w.active.length := by
    simp [memory, committed]
  have end' : w.nextOffset = highest log + 1 := by
    simp only [PartitionWriter.hwm] at top
    omega
  rw [memory, committed, List.append_nil, Numbered.append_iff] at numbered
  obtain ⟨older, active⟩ := numbered
  simp only [List.length_append] at older active
  push_cast at older active
  refine ⟨fun offset _ k => ?_, fun offset _ => ?_, fun offset _ => ?_, fun offset _ located => ?_,
    fun r member => ?_⟩
  · rw [locate_committed piece committed, ← top]
    constructor
    · intro located
      split_ifs at located
      cases located
      exact ⟨by omega, rfl⟩
    · rintro ⟨high, rfl⟩
      rw [if_pos (by omega)]
  · constructor
    · intro located
      rw [locate_committed piece committed] at located
      split_ifs at located
      exact active.exists_mem (by omega) (by omega)
    · rintro ⟨r, member, rfl⟩
      have bounds := active.mem_bounds member
      rw [locate_committed piece committed, if_neg (by omega), if_pos (by omega)]
  · constructor
    · intro located
      rw [locate_committed piece committed] at located
      split_ifs at located
      obtain ⟨r, member, same⟩ := older.exists_mem (n := offset) (by omega) (by omega)
      obtain ⟨entry, sealed, inside⟩ := List.mem_flatMap.mp member
      exact ⟨entry, sealed, r, inside, same⟩
    · rintro ⟨entry, sealed, r, inside, rfl⟩
      have bounds := older.mem_bounds (List.mem_flatMap.mpr ⟨entry, sealed, inside⟩)
      rw [locate_committed piece committed, if_neg (by omega), if_neg (by omega), if_pos (by omega)]
  · rw [locate_committed piece committed] at located
    split_ifs at located
    intro r member
    have := (piece.numbered.mem_bounds member).1
    omega
  · rw [committed] at member
    cases member

end Regions

/-- Whatever waits for its commit is claimed to be committed. -/
theorem waiting_misplaced {w : PartitionWriter} {log : List Record} (top : highest log = log.length - 1)
    (split : w.nextOffset - w.pending.length = log.length) (waiting : w.pending ≠ []) :
    ¬ Answers w log := by
  intro answers
  have filled := List.length_pos_iff.mpr waiting
  have located := (answers.hwm log.length (by omega) (highest log)).mpr ⟨by omega, rfl⟩
  have inside : (log.length : Int) ≤ w.hwm := by
    simp only [PartitionWriter.hwm]
    omega
  rcases FetchCoverage.locate_cases w inside with ⟨answer, _⟩ | ⟨answer | answer, _⟩
  all_goals
    rw [located] at answer
    cases answer

/-- In every state of every run with clean restarts, all answers to `locate` are about what is
committed if and only if no record is waiting for its commit. -/
theorem locate_committed_iff (env : Externals) {s : State} {l : Live}
    (reached : (machine env).Reaches (Admits (cleanly env)) s) (live : s.live = some l) :
    Answers l.writer s.history.log ↔ l.writer.pending = [] := by
  have loaded := reached_loaded reached
  have split := log_length loaded.whole live
  have top := highest_log (loaded.whole.continuous.live (view l) (by simp [abstract, live])).chained.numbered
  constructor
  · intro answers
    by_contra waiting
    exact waiting_misplaced top split waiting answers
  · intro committed
    refine answers_committed (loaded.tracked l live).piece committed ?_
    rw [committed] at split
    dsimp only [abstract] at top
    rw [top, PartitionWriter.hwm, ← split, List.length_nil]
    omega

/-- A sealed batch in flight and an active one after it, all committed. -/
theorem locate_committed_iff_sealedRun : ∃ s l,
    (machine externals).execute (FetchCoverage.sealedRun ++ produceOne 3) fresh = some s ∧
    s.live = some l ∧ l.writer.locate 1 = .inFlight ∧ l.writer.locate 2 = .inActiveBatch ∧
    l.writer.locate 3 = .hwm 2 ∧ Answers l.writer s.history.log := by
  have runs : ((machine externals).execute (FetchCoverage.sealedRun ++ produceOne 3) fresh).any
      (fun s => s.live.any (fun l => decide (l.writer.locate 1 = .inFlight ∧
        l.writer.locate 2 = .inActiveBatch ∧ l.writer.locate 3 = .hwm 2 ∧
        l.writer.pending = []))) = true := by decide +kernel
  have along : (machine externals).Along (Admits (cleanly externals))
      (FetchCoverage.sealedRun ++ produceOne 3) fresh := by decide +kernel
  obtain ⟨s, ran, facts⟩ := Option.any_eq_true _ _ |>.mp runs
  obtain ⟨l, live, facts⟩ := Option.any_eq_true _ _ |>.mp facts
  obtain ⟨inFlight, active, tail, committed⟩ := of_decide_eq_true facts
  exact ⟨s, l, ran, live, inFlight, active, tail,
    (locate_committed_iff externals ⟨_, along, ran⟩ live).mpr committed⟩

def waitingRun : List Action :=
  [.start { settings with groupCommitRecordCount := 10, segmentSizeBytes := 100 }, .openWriter,
    .produce [sample 1] (fun _ => 0), .commitTimeout, .writer, .produce [sample 2] (fun _ => 0)]

/-- A poll at the tail is sent to the active batch, which does not have its record. -/
theorem waitingRun_misplaced : ∃ s l, (machine externals).execute waitingRun fresh = some s ∧
    s.live = some l ∧ l.writer.phase = .recv ∧ highest s.history.log = 0 ∧
    l.writer.locate 1 = .inActiveBatch ∧ l.writer.readActive 1 10 = [] ∧
    ¬ Answers l.writer s.history.log := by
  have runs : ((machine externals).execute waitingRun fresh).any (fun s => s.live.any (fun l =>
      decide (l.writer.phase = .recv ∧ highest s.history.log = 0 ∧
        l.writer.locate 1 = .inActiveBatch ∧ l.writer.readActive 1 10 = []))) = true := by
    decide +kernel
  obtain ⟨s, ran, facts⟩ := Option.any_eq_true _ _ |>.mp runs
  obtain ⟨l, live, facts⟩ := Option.any_eq_true _ _ |>.mp facts
  obtain ⟨recv, top, located, empty⟩ := of_decide_eq_true facts
  refine ⟨s, l, ran, live, recv, top, located, empty, fun answers => ?_⟩
  have tail := (answers.hwm 1 (by decide) 0).mpr ⟨by rw [top]; decide, top.symm⟩
  rw [located] at tail
  cases tail

end Kafkrs.Location
