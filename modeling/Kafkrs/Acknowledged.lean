import Kafkrs.GroupCommit
import Kafkrs.StableReads

/-! What an acknowledgement promises. While no commit finds two requests waiting, the offsets a
request is answered with are where its records are, in its order and for good. -/
namespace Kafkrs.Acknowledged

open Lib Kafkrs.Partition GroupCommit
open PartitionWriter (stamp stamp_length stamp_numbered)

def Made (given : List (List IncomingRecord)) (stored : List Record) : Prop :=
  ∃ incoming ∈ given, ∃ now next, stored = stamp now next incoming

theorem Made.mono {given more : List (List IncomingRecord)} {stored : List Record}
    (made : Made given stored) (inside : given ⊆ more) : Made more stored :=
  made.imp fun _ => And.imp_left (inside ·)

structure Promised (given : List (List IncomingRecord)) (log : List Record) (w : PartitionWriter) :
    Prop where
  grouped : Grouped w
  waiting : ∀ stored ∈ w.pendingAcks, Made given stored
  made : ∀ p ∈ w.produced, Made given p.stored
  kept : ∀ p ∈ w.produced, ∀ r ∈ p.stored, r ∈ log
  accurate : ∀ p ∈ w.produced, Accurate p

def requested : Partition.Action → List (List IncomingRecord)
  | .produce records _ => [records]
  | _ => []

section Steps

variable {env : Externals} {given : List (List IncomingRecord)} {s next : State} {l l' : Live}
  {log log' : List Record} {w w' : PartitionWriter}

theorem Promised.grow (promised : Promised given log w) (grown : log <+: log') :
    Promised given log' w :=
  { promised with kept := fun p member r inside => grown.subset (promised.kept p member r inside) }

theorem Promised.weaken {more : List (List IncomingRecord)} (promised : Promised given log w)
    (inside : given ⊆ more) : Promised more log w :=
  { promised with
    waiting := fun stored member => (promised.waiting stored member).mono inside
    made := fun p member => (promised.made p member).mono inside }

theorem Promised.untouched (promised : Promised given log w) (same : Untouched w w') :
    Promised given log w' := by
  refine ⟨promised.grouped.untouched same, ?_, ?_, ?_, ?_⟩
  · rw [same.pendingAcks]; exact promised.waiting
  all_goals rw [same.produced]
  · exact promised.made
  · exact promised.kept
  · exact promised.accurate

theorem Promised.receive (promised : Promised given log w) {records : List IncomingRecord}
    {now : Nat → Int64} (filled : records ≠ []) (stored : w.onProduce records now = some w') :
    Promised (given ++ [records]) log w' := by
  have grouped := promised.grouped.receive filled stored
  obtain ⟨_, _, _, rfl⟩ := PartitionWriter.onProduce_some stored
  refine ⟨grouped, fun group member => ?_, fun p member => (promised.made p member).mono (List.subset_append_left _ _),
    promised.kept, promised.accurate⟩
  rcases List.mem_append.mp member with old | new
  · exact (promised.waiting group old).mono (List.subset_append_left _ _)
  · rw [List.mem_singleton.mp new]
    exact ⟨records, by simp, now, w.nextOffset, rfl⟩

/-- A commit answers the one request that waits, whose records it has put into the log. -/
theorem Promised.commit (promised : Promised given log w) (single : w.pendingAcks.length ≤ 1) :
    Promised given (log ++ w.pending) w.flushCommit := by
  have grown := promised.grow (List.prefix_append log w.pending)
  by_cases empty : w.pending = []
  · exact grown.untouched (flushCommit_empty w empty)
  · obtain ⟨_, _, acks, produced⟩ := flushCommit_requests w empty
    have flat := promised.grouped.flat
    refine ⟨promised.grouped.commit, by simp [acks], ?_, ?_, ?_⟩
    all_goals
      rw [produced]
      intro p member
      rcases List.mem_append.mp member with old | new
    · exact grown.made p old
    · obtain ⟨stored, waiting, rfl⟩ := List.mem_map.mp new
      exact promised.waiting stored waiting
    · exact grown.kept p old
    · obtain ⟨stored, waiting, rfl⟩ := List.mem_map.mp new
      intro r inside
      rw [← flat]
      exact List.mem_append_right _ (List.mem_flatten_of_mem waiting inside)
    · exact promised.accurate p old
    · obtain ⟨stored, waiting, rfl⟩ := List.mem_map.mp new
      obtain ⟨only, isOnly⟩ : ∃ only, w.pendingAcks = [only] :=
        List.length_eq_one_iff.mp (by have := List.length_pos_of_mem waiting; omega)
      obtain rfl : stored = only := by simpa [isOnly] using waiting
      exact commit_accurate promised.grouped isOnly

theorem promised_step
    (promised : ∀ l, s.live = some l → Promised given s.history.log l.writer)
    {action : Partition.Action} (single : SingleCommit s action)
    (taken : Partition.step env action s = some next) :
    ∀ l, next.live = some l →
      Promised (given ++ requested action) next.history.log l.writer := by
  intro l' live
  have grown := HighWaterMark.step_log taken
  rcases step_requests taken live with ⟨_, cfg, start, recovered, isNew⟩ | ⟨l, was, cases⟩
  · rw [isNew]
    refine ⟨new_grouped cfg start recovered, ?_, ?_, ?_, ?_⟩ <;> simp [PartitionWriter.new]
  · rcases cases with ⟨same, _⟩ | ⟨records, now, rfl, filled, stored⟩ | ⟨rfl, phase, committed⟩
    · exact (((promised l was).grow grown).weaken (List.subset_append_left _ _)).untouched same
    · exact ((promised l was).receive filled stored).grow grown
    · have written : next.history.log = s.history.log ++ l.writer.pending := by
        simp only [Partition.step, was, liveStep, writerStep, phase] at taken
        rw [← Option.some.inj taken]
      rw [committed, written]
      exact ((promised l was).commit (single l was phase)).weaken (List.subset_append_left _ _)

end Steps

/-- The offsets of an answer are those of the records, one after the other. -/
theorem Promised.offsets {given : List (List IncomingRecord)} {log : List Record}
    {w : PartitionWriter} (promised : Promised given log w) {p : Produced}
    (member : p ∈ w.produced) :
    Numbered Record.offset p.response.baseOffset p.stored ∧
      p.response.lastOffset = p.response.baseOffset + p.stored.length - 1 := by
  obtain ⟨incoming, _, now, next, stamped⟩ := promised.made p member
  obtain ⟨base, last⟩ := promised.accurate p member
  obtain ⟨first, isFirst, based⟩ := Option.map_eq_some_iff.mp base
  obtain ⟨final, isFinal, ended⟩ := Option.map_eq_some_iff.mp last
  have numbered : Numbered Record.offset next p.stored := by
    rw [stamped]
    exact stamp_numbered now next incoming
  have head := numbered.head isFirst
  have low : p.response.baseOffset = next := by rw [← based, head]
  have high := numbered.last isFinal
  rw [low]
  exact ⟨numbered, by omega⟩

/-- The log has the records of an answered request at the offsets of the answer. -/
theorem Promised.placed {given : List (List IncomingRecord)} {log : List Record}
    {w : PartitionWriter} (promised : Promised given log w)
    (numbered : Numbered Record.offset 0 log) {p : Produced} (member : p ∈ w.produced) {i : Nat}
    (bound : i < p.stored.length) :
    log[(p.response.baseOffset + i).toNat]? = some p.stored[i] := by
  have inside := promised.kept p member p.stored[i] (List.getElem_mem bound)
  have here := StableReads.log_at numbered inside
  rwa [(promised.offsets member).1.get bound] at here

end Kafkrs.Acknowledged
