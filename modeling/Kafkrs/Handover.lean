import Kafkrs.Durability
import Kafkrs.Faults

/-! Where acknowledged records are while the process stays up, WAL files aside: in the active
batch, in a sealed batch on its way to the store, or stored. How long its keys are, how often
store calls fail and which file a commit went to make no difference to this. -/
namespace Kafkrs.Handover

open Lib Recovery Pipeline Kafkrs.Partition Refinement
open Kafkrs.Lifecycle (Stored)
open Kafkrs.Faults (settled settled_of insert_same)

/-- The records of a partition on their way to the store; offsets from `next` on are free. -/
structure Belt where
  store : Store
  evicted : List Record
  acked : List Record
  backlog : List (Int × List Record)
  active : List Record
  next : Int

def Filled (seg : Int × List Record) : Prop :=
  ∃ first rest, seg.2 = first :: rest ∧ first.offset = seg.1 ∧
    (first :: rest).Pairwise (fun a b => a.offset < b.offset)

structure Belt.Sound (b : Belt) : Prop where
  ordered : b.store.manifest.Ordered
  bases : (b.backlog.map Prod.fst).Pairwise (· < ·)
  filled : ∀ seg ∈ b.backlog, Filled seg
  below : ∀ seg ∈ b.backlog, seg.1 < b.next ∧ ∀ r ∈ b.active, seg.1 < r.offset
  unlisted : ∀ seg ∈ b.backlog, b.store.manifest.lists seg.1 = false
  fresh : ∀ r ∈ b.active.head?, b.store.manifest.lists r.offset = false
  sorted : b.active.Pairwise (fun a b => a.offset < b.offset)
  bounded : ∀ r ∈ b.active, r.offset < b.next
  listed : ∀ base, b.store.manifest.lists base = true → base < b.next
  acked : ∀ r ∈ b.acked, Stored b.store b.evicted r ∨ (∃ seg ∈ b.backlog, r ∈ seg.2) ∨ r ∈ b.active

inductive Move (segmentSize : List Record → Nat) : Belt → Belt → Prop
  | idle (b : Belt) : Move segmentSize b b
  /-- A group commit. -/
  | append {b : Belt} {batch : List Record} (numbered : Numbered Record.offset b.next batch) :
      Move segmentSize b { b with
        acked := b.acked ++ batch, active := b.active ++ batch, next := b.next + batch.length }
  | sealActive {b : Belt} {first : Record} {rest : List Record} (active : b.active = first :: rest) :
      Move segmentSize b { b with
        backlog := b.backlog ++ [(first.offset, first :: rest)], active := [] }
  /-- The object of the oldest batch is written. -/
  | put {b : Belt} {base : Int} {records : List Record} {rest : List (Int × List Record)}
      (oldest : b.backlog = (base, records) :: rest) :
      Move segmentSize b
        { b with store := { b.store with objects := b.store.objects.insert base records } }
  /-- The oldest batch is listed. -/
  | list {b : Belt} {base : Int} {first : Record} {records : List Record}
      {rest : List (Int × List Record)} (oldest : b.backlog = (base, first :: records) :: rest)
      (staged : b.store.objects[base]? = some (first :: records)) :
      Move segmentSize b
        { b with
          store := { b.store with manifest := (b.store.manifest.add
            (Uploader.entry segmentSize (SealedBatch.ofRecords base first records))) }
          backlog := rest }
  | evict {b : Belt} (cfg : ResolvedTopicConfig) (now : Int) :
      Move segmentSize b
        { b with
          store := { b.store with manifest := (Retention.retain b.store.manifest
            (Retention.evaluateEviction b.store.manifest cfg now)) }
          evicted := (b.evicted ++ evictedRecords b.store
            (Retention.evaluateEviction b.store.manifest cfg now)) }
  /-- The object of an unlisted segment is deleted. -/
  | delete {b : Belt} {base : Int} (unlisted : b.store.manifest.lists base = false) :
      Move segmentSize b
        { b with store := { b.store with objects := b.store.objects.erase base } }

section Belt

variable {segmentSize : List Record → Nat} {b b' : Belt}

theorem Belt.Sound.append (sound : b.Sound) {batch : List Record}
    (numbered : Numbered Record.offset b.next batch) :
    Belt.Sound { b with
      acked := b.acked ++ batch, active := b.active ++ batch, next := b.next + batch.length } where
  ordered := sound.ordered
  bases := sound.bases
  filled := sound.filled
  below := by
    intro seg member
    obtain ⟨low, older⟩ := sound.below seg member
    refine ⟨by dsimp only; omega, fun r inside => ?_⟩
    rcases List.mem_append.mp inside with old | new
    · exact older r old
    · have := (numbered.mem_bounds new).1
      omega
  unlisted := sound.unlisted
  fresh := by
    intro r isHead
    cases active : b.active with
    | cons first rest =>
      rw [active] at isHead
      exact sound.fresh r (by rw [active]; exact isHead)
    | nil =>
      rw [active, List.nil_append] at isHead
      -- The first record after a seal gets an offset no segment has reached.
      have low := (numbered.mem_bounds (List.mem_of_head? isHead)).1
      cases listed : b.store.manifest.lists r.offset with
      | false => rfl
      | true =>
        have := sound.listed _ listed
        omega
  sorted := by
    refine List.pairwise_append.mpr ⟨sound.sorted, numbered.sorted, fun r old q new => ?_⟩
    have := sound.bounded r old
    have := (numbered.mem_bounds new).1
    omega
  bounded := by
    intro r member
    rcases List.mem_append.mp member with old | new
    · have := sound.bounded r old
      dsimp only
      omega
    · exact (numbered.mem_bounds new).2
  listed := by
    intro base listed
    have := sound.listed base listed
    dsimp only
    omega
  acked := by
    intro r member
    rcases List.mem_append.mp member with old | new
    · rcases sound.acked r old with stored | waiting | active
      · exact .inl stored
      · exact .inr (.inl waiting)
      · exact .inr (.inr (List.mem_append_left _ active))
    · exact .inr (.inr (List.mem_append_right _ new))

theorem Belt.Sound.sealActive (sound : b.Sound) {first : Record} {rest : List Record}
    (active : b.active = first :: rest) :
    Belt.Sound { b with
      backlog := b.backlog ++ [(first.offset, first :: rest)], active := [] } where
  ordered := sound.ordered
  bases := by
    rw [List.map_append]
    refine List.pairwise_append.mpr ⟨sound.bases, by simp, fun base old other new => ?_⟩
    obtain ⟨seg, member, rfl⟩ := List.mem_map.mp old
    rw [List.mem_singleton.mp new]
    exact (sound.below seg member).2 first (by simp [active])
  filled := by
    intro seg member
    rcases List.mem_append.mp member with old | new
    · exact sound.filled seg old
    · rw [List.mem_singleton.mp new]
      exact ⟨first, rest, rfl, rfl, active ▸ sound.sorted⟩
  below := by
    intro seg member
    refine ⟨?_, by simp⟩
    rcases List.mem_append.mp member with old | new
    · exact (sound.below seg old).1
    · rw [List.mem_singleton.mp new]
      exact sound.bounded first (by simp [active])
  unlisted := by
    intro seg member
    rcases List.mem_append.mp member with old | new
    · exact sound.unlisted seg old
    · rw [List.mem_singleton.mp new]
      exact sound.fresh first (by simp [active])
  fresh := by simp
  sorted := List.Pairwise.nil
  bounded := by simp
  listed := sound.listed
  acked := by
    intro r member
    rcases sound.acked r member with stored | ⟨seg, waiting, inside⟩ | inside
    · exact .inl stored
    · exact .inr (.inl ⟨seg, List.mem_append_left _ waiting, inside⟩)
    · exact .inr (.inl ⟨_, List.mem_append_right _ (List.mem_singleton_self _), active ▸ inside⟩)

theorem Belt.Sound.list (sound : b.Sound) {base : Int} {first : Record} {records : List Record}
    {rest : List (Int × List Record)} (oldest : b.backlog = (base, first :: records) :: rest)
    (staged : b.store.objects[base]? = some (first :: records)) :
    Belt.Sound { b with
      store := { b.store with manifest := (b.store.manifest.add
        (Uploader.entry segmentSize (SealedBatch.ofRecords base first records))) }
      backlog := rest } := by
  have here : (base, first :: records) ∈ b.backlog := by simp [oldest]
  have later (seg : Int × List Record) (member : seg ∈ rest) : seg ∈ b.backlog := by
    simp [oldest, member]
  have bases := sound.bases
  rw [oldest, List.map_cons, List.pairwise_cons] at bases
  have stays {other : Int} (apart : other ≠ base) (unlisted : b.store.manifest.lists other = false) :
      (b.store.manifest.add (Uploader.entry segmentSize
        (SealedBatch.ofRecords base first records))).lists other = false := by
    cases listed : (b.store.manifest.add (Uploader.entry segmentSize
        (SealedBatch.ofRecords base first records))).lists other with
    | false => rfl
    | true =>
      rcases Lifecycle.lists_add.mp listed with before | same
      · rw [unlisted] at before
        cases before
      · exact absurd same apart
  refine
    { ordered := ?_, bases := bases.2, filled := fun seg member => sound.filled seg (later seg member),
      below := fun seg member => sound.below seg (later seg member), unlisted := ?_, fresh := ?_,
      sorted := sound.sorted, bounded := sound.bounded, listed := ?_, acked := ?_ }
  · refine sound.ordered.add (sound.unlisted _ here) ?_ rfl
    obtain ⟨head, tail, shape, offset, sorted⟩ := sound.filled _ here
    obtain ⟨rfl, rfl⟩ := List.cons.inj shape
    dsimp only at offset
    simp only [Uploader.entry, SealedBatch.ofRecords]
    cases last : records.getLast? with
    | none => simp [offset]
    | some r =>
      have := (List.pairwise_cons.mp sorted).1 r (List.mem_of_getLast? last)
      simp only [Option.getD_some]
      omega
  · intro seg member
    refine stays (ne_of_gt (bases.1 seg.1 (List.mem_map_of_mem member))) ?_
    exact sound.unlisted seg (later seg member)
  · intro r isHead
    refine stays (ne_of_gt ?_) (sound.fresh r isHead)
    exact (sound.below _ here).2 r (List.mem_of_head? isHead)
  · intro other listed
    rcases Lifecycle.lists_add.mp listed with before | rfl
    · exact sound.listed other before
    · exact (sound.below _ here).1
  · intro r member
    rcases sound.acked r member with stored | ⟨seg, waiting, inside⟩ | active
    · exact .inl (stored.list r)
    · rw [oldest] at waiting
      rcases List.mem_cons.mp waiting with rfl | behind
      · exact .inl (.inr ⟨base, _, Lifecycle.lists_add.mpr (.inr rfl), staged, inside⟩)
      · exact .inr (.inl ⟨seg, behind, inside⟩)
    · exact .inr (.inr active)

/-- Every move keeps the belt sound; nothing acknowledged falls off. -/
theorem Belt.Sound.move (sound : b.Sound) (moved : Move segmentSize b b') : b'.Sound := by
  cases moved with
  | idle => exact sound
  | append numbered => exact sound.append numbered
  | sealActive active => exact sound.sealActive active
  | list oldest staged => exact sound.list oldest staged
  | put oldest =>
    have unlisted := sound.unlisted _ (by rw [oldest]; exact List.mem_cons_self)
    exact { sound with
      acked := fun r member => (sound.acked r member).imp_left (Stored.put unlisted _ r) }
  | delete unlisted =>
    exact { sound with
      acked := fun r member => (sound.acked r member).imp_left (Stored.delete unlisted r) }
  | evict cfg now =>
    obtain ⟨kept, split, same, _⟩ := Lifecycle.evict_split sound.ordered cfg now
    have sub : kept.Sublist b.store.manifest.segments := by
      rw [split]
      exact List.sublist_append_right _ _
    have fewer (base : Int) (listed : (⟨kept⟩ : Manifest).lists base = true) :
        b.store.manifest.lists base = true := by
      obtain ⟨seg, member, rfl⟩ := Manifest.lists_iff.mp listed
      exact Manifest.lists_iff.mpr ⟨seg, sub.subset member, rfl⟩
    have still {base : Int} (unlisted : b.store.manifest.lists base = false) :
        (⟨kept⟩ : Manifest).lists base = false := by
      cases listed : (⟨kept⟩ : Manifest).lists base with
      | false => rfl
      | true =>
        rw [fewer base listed] at unlisted
        cases unlisted
    simp only [same]
    exact { sound with
      ordered := sound.ordered.sublist sub
      unlisted := fun seg member => still (sound.unlisted seg member)
      fresh := fun r isHead => still (sound.fresh r isHead)
      listed := fun base listed => sound.listed base (fewer base listed)
      acked := fun r member => (sound.acked r member).imp_left (Stored.evict split r) }

end Belt

end Kafkrs.Handover
