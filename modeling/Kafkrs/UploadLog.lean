import Kafkrs.Lib.Machine
import Kafkrs.Uploader

/-! One uploader under an arbitrary sequence of messages. The writer hands over consecutive
batches of the log and may repeat any of them; every store call may fail, and the process may
crash between any two. -/
namespace Kafkrs

open Lib

/-- A non-empty batch numbered from its base offset to its last one. -/
structure SealedBatch.Whole (batch : SealedBatch) : Prop where
  filled : batch.records ≠ []
  numbered : Numbered Record.offset batch.baseOffset batch.records
  last : batch.lastOffset = batch.baseOffset + batch.records.length - 1

theorem SealedBatch.ofRecords_whole {base : Int} {first : Record} {rest : List Record}
    (numbered : Numbered Record.offset base (first :: rest)) : (ofRecords base first rest).Whole := by
  refine ⟨List.cons_ne_nil _ _, numbered, ?_⟩
  apply numbered.last
  exact List.getLast?_cons

namespace UploadLog

/-- The batches cover the offsets from `next` on, each where the one before ended. -/
def Consecutive : Int → List SealedBatch → Prop
  | _, [] => True
  | next, batch :: rest =>
    batch.baseOffset = next ∧ batch.Whole ∧ Consecutive (batch.lastOffset + 1) rest

def nextBase (start : Int) (handed : List SealedBatch) : Int :=
  (handed.getLast?.map (fun batch => batch.lastOffset + 1)).getD start

structure State where
  /-- The batches of the log handed over so far, in order. -/
  handed : List SealedBatch
  store : Store
  /-- `none` while the process is down. -/
  uploader : Option Uploader

inductive Action where
  /-- An `Upload` of the next batch of the log. -/
  | handOver (first : Record) (rest : List Record)
  /-- Another `Upload` of a batch handed over before. -/
  | repeatUpload (index : Nat)
  | retentionKick
  | updateConfig (cfg : ResolvedTopicConfig)
  | uploader (now : Int) (outcome : Outcome)
  | crash
  | restart (cfg : ResolvedTopicConfig)
  deriving DecidableEq, Repr

def log (s : State) : List Record := s.handed.flatMap (·.records)

def send (msg : UploaderMsg) (s : State) : Option State :=
  s.uploader.map fun u => { s with uploader := some { u with rx := u.rx ++ [msg] } }

def step (segmentSize : List Record → Nat) (start : Int) : Action → State → Option State
  | .handOver first rest, s =>
    let base := nextBase start s.handed
    let batch := SealedBatch.ofRecords base first rest
    if Numbered Record.offset base (first :: rest) then
      send (.upload batch) { s with handed := s.handed ++ [batch] }
    else none
  | .repeatUpload index, s => s.handed[index]?.bind fun batch => send (.upload batch) s
  | .retentionKick, s => send (.control .retentionKick) s
  | .updateConfig cfg, s => send (.control (.updateConfig cfg)) s
  | .uploader now outcome, s => s.uploader.bind fun u =>
    (u.step segmentSize now outcome s.store).map fun e =>
      { s with uploader := some e.uploader, store := e.store }
  | .crash, s => s.uploader.map fun _ => { s with uploader := none }
  | .restart cfg, s =>
    if s.uploader.isNone then some { s with uploader := some (Uploader.new cfg) } else none

def machine (segmentSize : List Record → Nat) (start : Int) : Machine State Action :=
  ⟨⟨[], ⟨∅, Manifest.empty⟩, none⟩, step segmentSize start⟩

section Batches

variable {next : Int} {handed : List SealedBatch}

theorem Consecutive.snoc (consecutive : Consecutive next handed) {batch : SealedBatch}
    (base : batch.baseOffset = nextBase next handed) (whole : batch.Whole) :
    Consecutive next (handed ++ [batch]) := by
  induction handed generalizing next with
  | nil => exact ⟨base, whole, trivial⟩
  | cons first rest ih =>
    refine ⟨consecutive.1, consecutive.2.1, ih consecutive.2.2 ?_⟩
    rw [base]
    cases rest <;> simp [nextBase, List.getLast?_cons]

theorem Consecutive.whole (consecutive : Consecutive next handed) {batch : SealedBatch}
    (member : batch ∈ handed) : batch.Whole ∧ next ≤ batch.baseOffset := by
  induction handed generalizing next with
  | nil => simp at member
  | cons first rest ih =>
    obtain ⟨base, whole, later⟩ := consecutive
    rcases List.mem_cons.mp member with rfl | member
    · exact ⟨whole, base.ge⟩
    · have above := ih later member
      have := whole.last
      have := List.length_pos_iff.mpr whole.filled
      exact ⟨above.1, by omega⟩

theorem Consecutive.pairwise (consecutive : Consecutive next handed) :
    handed.Pairwise (fun a b => a.lastOffset < b.baseOffset) := by
  induction handed generalizing next with
  | nil => exact List.Pairwise.nil
  | cons first rest ih =>
    refine List.Pairwise.cons ?_ (ih consecutive.2.2)
    intro b member
    exact Int.lt_of_add_one_le (consecutive.2.2.whole member).2

/-- Two batches of the log are the same, or one lies wholly below the other. -/
theorem Consecutive.apart (consecutive : Consecutive next handed) {a b : SealedBatch}
    (left : a ∈ handed) (right : b ∈ handed) :
    a = b ∨ a.lastOffset < b.baseOffset ∨ b.lastOffset < a.baseOffset := by
  have below := consecutive.pairwise.imp (S := fun a b : SealedBatch =>
    a = b ∨ a.lastOffset < b.baseOffset ∨ b.lastOffset < a.baseOffset)
    fun below => .inr (.inl below)
  have above := consecutive.pairwise.imp (S := fun a b : SealedBatch =>
    b = a ∨ b.lastOffset < a.baseOffset ∨ a.lastOffset < b.baseOffset)
    fun below => .inr (.inr below)
  exact List.Pairwise.forall_of_forall_of_flip (fun _ _ => .inl rfl) below above left right

theorem Consecutive.unique (consecutive : Consecutive next handed) {a b : SealedBatch}
    (left : a ∈ handed) (right : b ∈ handed) (same : a.baseOffset = b.baseOffset) : a = b := by
  have := (consecutive.whole left).1.last
  have := (consecutive.whole right).1.last
  have := List.length_pos_iff.mpr (consecutive.whole left).1.filled
  have := List.length_pos_iff.mpr (consecutive.whole right).1.filled
  rcases consecutive.apart left right with same | below | above
  · exact same
  · omega
  · omega

/-- The records of a batch are those of its offset range in the log. -/
theorem Consecutive.range (consecutive : Consecutive next handed) {batch : SealedBatch}
    (member : batch ∈ handed) :
    (handed.flatMap (·.records)).filter
        (fun r => batch.baseOffset ≤ r.offset ∧ r.offset ≤ batch.lastOffset) =
      batch.records := by
  have bounds {b : SealedBatch} (b_mem : b ∈ handed) {r : Record} (r_mem : r ∈ b.records) :
      b.baseOffset ≤ r.offset ∧ r.offset ≤ b.lastOffset := by
    have whole := (consecutive.whole b_mem).1
    have inside := whole.numbered.mem_bounds r_mem
    have := whole.last
    exact ⟨inside.1, by omega⟩
  obtain ⟨before, after, rfl⟩ := List.append_of_mem member
  have order := List.pairwise_append.mp consecutive.pairwise
  have here : batch.records.filter
      (fun r => batch.baseOffset ≤ r.offset ∧ r.offset ≤ batch.lastOffset) = batch.records := by
    apply List.filter_eq_self.mpr
    intro r r_mem
    simpa using bounds member r_mem
  have left : (before.flatMap (·.records)).filter
      (fun r => batch.baseOffset ≤ r.offset ∧ r.offset ≤ batch.lastOffset) = [] := by
    apply List.filter_eq_nil_iff.mpr
    intro r r_mem
    obtain ⟨b, b_mem, r_mem⟩ := List.mem_flatMap.mp r_mem
    have := bounds (List.mem_append_left _ b_mem) r_mem
    have := order.2.2 b b_mem batch (List.mem_cons_self)
    simp; omega
  have right : (after.flatMap (·.records)).filter
      (fun r => batch.baseOffset ≤ r.offset ∧ r.offset ≤ batch.lastOffset) = [] := by
    apply List.filter_eq_nil_iff.mpr
    intro r r_mem
    obtain ⟨b, b_mem, r_mem⟩ := List.mem_flatMap.mp r_mem
    have := bounds (List.mem_append_right _ (List.mem_cons_of_mem _ b_mem)) r_mem
    have := (List.pairwise_cons.mp order.2.1).1 b b_mem
    simp; omega
  rw [List.flatMap_append, List.flatMap_cons, List.filter_append, List.filter_append, left, right,
    here, List.nil_append, List.append_nil]

end Batches

structure Sound (segmentSize : List Record → Nat) (handed : List SealedBatch) (store : Store) :
    Prop where
  ordered : store.manifest.Ordered
  listed : ∀ entry ∈ store.manifest.segments, ∃ batch ∈ handed,
    entry = Uploader.entry segmentSize batch ∧
      store.objects[batch.baseOffset]? = some batch.records

def PhaseSound (handed : List SealedBatch) (store : Store) : Uploader.Phase → Prop
  | .putSegment batch => batch ∈ handed
  | .putManifest batch => batch ∈ handed ∧ store.objects[batch.baseOffset]? = some batch.records
  | .delete evict => ∀ entry ∈ evict, store.manifest.lists entry.baseOffset = false
  | _ => True

structure Works (handed : List SealedBatch) (store : Store) (u : Uploader) : Prop where
  queued : ∀ batch, UploaderMsg.upload batch ∈ u.rx → batch ∈ handed
  phase : PhaseSound handed store u.phase

/-- The manifest's last uploaded offset does not go back from `m` to `m'`. -/
def Advances (m m' : Manifest) : Prop :=
  ∀ last, m.lastUploadedOffset = some last →
    ∃ last', m'.lastUploadedOffset = some last' ∧ last ≤ last'

theorem Advances.refl (m : Manifest) : Advances m m := fun last found => ⟨last, found, le_rfl⟩

theorem Advances.trans {a b c : Manifest} (first : Advances a b) (second : Advances b c) :
    Advances a c := by
  intro last found
  obtain ⟨middle, found, le⟩ := first last found
  obtain ⟨final, found, le'⟩ := second middle found
  exact ⟨final, found, le.trans le'⟩

section Steps

variable {segmentSize : List Record → Nat} {start : Int} {handed : List SealedBatch} {store : Store}

theorem Sound.disjoint (sound : Sound segmentSize handed store)
    (consecutive : Consecutive start handed) :
    store.manifest.segments.Pairwise (fun a b => a.lastOffset < b.baseOffset) := by
  refine sound.ordered.bases.imp_of_mem ?_
  intro a b left right less
  obtain ⟨x, x_mem, rfl, _⟩ := sound.listed a left
  obtain ⟨y, y_mem, rfl, _⟩ := sound.listed b right
  simp only [Uploader.entry] at *
  have := (consecutive.whole y_mem).1.last
  have := List.length_pos_iff.mpr (consecutive.whole y_mem).1.filled
  rcases consecutive.apart x_mem y_mem with rfl | below | above
  · omega
  · exact below
  · omega

/-- No listed segment ends above the last one. -/
theorem Sound.ends_le (sound : Sound segmentSize handed store)
    (consecutive : Consecutive start handed) {entry : SegmentEntry}
    (member : entry ∈ store.manifest.segments) :
    ∃ last, store.manifest.lastUploadedOffset = some last ∧ entry.lastOffset ≤ last := by
  have nonempty := List.ne_nil_of_mem member
  have split := List.dropLast_append_getLast nonempty
  refine ⟨(store.manifest.segments.getLast nonempty).lastOffset,
    by simp [Manifest.lastUploadedOffset, List.getLast?_eq_getLast_of_ne_nil nonempty], ?_⟩
  have range := sound.ordered.ranges _ (List.getLast_mem nonempty)
  have disjoint := sound.disjoint consecutive
  rw [← split] at member disjoint
  rcases List.mem_append.mp member with front | tail
  · have := (List.pairwise_append.mp disjoint).2.2 entry front _ (List.mem_singleton_self _)
    omega
  · rw [List.mem_singleton.mp tail]

/-- Writing the object of a batch of the log, which a listed segment of the same base already
holds. -/
theorem Sound.putSegment (sound : Sound segmentSize handed store)
    (consecutive : Consecutive start handed) {batch : SealedBatch} (member : batch ∈ handed) :
    Sound segmentSize handed
      { store with objects := store.objects.insert batch.baseOffset batch.records } := by
  refine ⟨sound.ordered, fun entry listed => ?_⟩
  obtain ⟨other, other_mem, same, object⟩ := sound.listed entry listed
  refine ⟨other, other_mem, same, ?_⟩
  by_cases base : batch.baseOffset = other.baseOffset
  · rw [consecutive.unique member other_mem base]
    simp
  · simpa [base] using object

theorem Sound.putManifest (sound : Sound segmentSize handed store)
    (consecutive : Consecutive start handed) {batch : SealedBatch} (member : batch ∈ handed)
    (object : store.objects[batch.baseOffset]? = some batch.records)
    (fresh : store.manifest.lists batch.baseOffset = false) :
    Sound segmentSize handed
      { store with manifest := store.manifest.add (Uploader.entry segmentSize batch) } := by
  have whole := (consecutive.whole member).1
  have filled := List.length_pos_iff.mpr whole.filled
  have last := whole.last
  constructor
  · apply sound.ordered.add fresh
    · simp only [Uploader.entry]; omega
    · rfl
  · intro entry listed
    rcases Manifest.mem_add.mp listed with old | rfl
    · exact sound.listed entry old
    · exact ⟨batch, member, rfl, object⟩

/-- Retention drops leading entries and always leaves the tail. -/
theorem Sound.retain (sound : Sound segmentSize handed store) (cfg : ResolvedTopicConfig)
    (now : Int) :
    let evict := Retention.evaluateEviction store.manifest cfg now
    let kept := Retention.retain store.manifest evict
    Sound segmentSize handed { store with manifest := kept } ∧
      (∀ entry ∈ evict, kept.lists entry.baseOffset = false) ∧
      kept.lastUploadedOffset = store.manifest.lastUploadedOffset := by
  intro evict kept
  obtain ⟨front, split⟩ := Retention.evaluateEviction_front store.manifest cfg now
  have whole : store.manifest.segments = evict ++ (front ++ store.manifest.segments.getLast?.toList) := by
    rw [← List.append_assoc, split]
    cases last : store.manifest.segments.getLast? with
    | none => simp [List.getLast?_eq_none_iff.mp last]
    | some tail => exact (List.dropLast_append_getLast? tail last).symm
  have same : kept = ⟨front ++ store.manifest.segments.getLast?.toList⟩ :=
    Retention.retain_front sound.ordered whole
  have sub : (front ++ store.manifest.segments.getLast?.toList).Sublist store.manifest.segments := by
    conv => rhs; rw [whole]
    exact List.sublist_append_right _ _
  refine ⟨⟨?_, ?_⟩, ?_, ?_⟩
  · rw [same]
    exact sound.ordered.sublist sub
  · rw [same]
    exact fun entry listed => sound.listed entry (sub.subset listed)
  · intro entry evicted
    have bases := sound.ordered.bases
    rw [whole] at bases
    rw [same, Bool.eq_false_iff]
    intro listed
    obtain ⟨other, other_mem, base⟩ := Manifest.lists_iff.mp listed
    have := (List.pairwise_append.mp bases).2.2 entry evicted other other_mem
    omega
  · rw [same]
    cases last : store.manifest.segments.getLast? with
    | none =>
      have := List.getLast?_eq_none_iff.mp last
      simp [this] at split
      simp [Manifest.lastUploadedOffset, this, split.2]
    | some tail => simp [Manifest.lastUploadedOffset, last]

theorem Works.receive {u : Uploader} {effect : Uploader.Effect} (works : Works handed store u)
    (taken : u.receive store = some effect) :
    effect.store = store ∧ Works handed store effect.uploader := by
  cases rx : u.rx with
  | nil => simp [Uploader.receive, rx] at taken
  | cons msg rest =>
    have queued := works.queued
    rw [rx] at queued
    have later (batch) (member : UploaderMsg.upload batch ∈ rest) : batch ∈ handed :=
      queued batch (List.mem_cons_of_mem _ member)
    rcases msg with batch | (_ | cfg | _)
    all_goals
      simp only [Uploader.receive, rx] at taken
      cases taken
    · exact ⟨rfl, later, queued batch List.mem_cons_self⟩
    · exact ⟨rfl, later, trivial⟩
    · exact ⟨rfl, later, works.phase⟩
    · exact ⟨rfl, later, trivial⟩

/-- Deleting an object that the manifest has stopped listing. -/
theorem Sound.deleteSegment (sound : Sound segmentSize handed store) {base : Int}
    (unlisted : store.manifest.lists base = false) :
    Sound segmentSize handed { store with objects := store.objects.erase base } := by
  refine ⟨sound.ordered, fun entry member => ?_⟩
  obtain ⟨batch, batch_mem, rfl, object⟩ := sound.listed entry member
  refine ⟨batch, batch_mem, rfl, ?_⟩
  have apart : base ≠ batch.baseOffset := by
    intro same
    have listed := Manifest.lists_iff.mpr ⟨_, member, same.symm⟩
    rw [unlisted] at listed
    contradiction
  simpa [apart] using object

def Upheld (segmentSize : List Record → Nat) (handed : List SealedBatch) (store : Store)
    (effect : Uploader.Effect) : Prop :=
  Sound segmentSize handed effect.store ∧ Works handed effect.store effect.uploader ∧
    Advances store.manifest effect.store.manifest

section Phases

variable {u : Uploader} {effect : Uploader.Effect} {now : Int} {outcome : Outcome}

/-- A step that leaves the store alone. -/
theorem Works.idle (works : Works handed store u) (sound : Sound segmentSize handed store)
    (same : effect.store = store) (rx : effect.uploader.rx = u.rx)
    (phase : PhaseSound handed store effect.uploader.phase) :
    Upheld segmentSize handed store effect := by
  unfold Upheld
  rw [same]
  exact ⟨sound, ⟨fun batch member => works.queued batch (rx ▸ member), phase⟩, Advances.refl _⟩

theorem Works.putSegment (works : Works handed store u) (sound : Sound segmentSize handed store)
    (consecutive : Consecutive start handed) {batch : SealedBatch}
    (at_phase : u.phase = .putSegment batch)
    (taken : u.step segmentSize now outcome store = some effect) :
    Upheld segmentSize handed store effect := by
  have member := works.phase
  rw [at_phase] at member
  simp only [Uploader.step, at_phase] at taken
  cases taken
  have written := sound.putSegment consecutive member
  by_cases ok : outcome = .ok
  · subst ok
    refine ⟨written, ⟨works.queued, member, ?_⟩, Advances.refl _⟩
    simp [Outcome.applied]
  · by_cases applied : outcome.applied
    · simp only [Upheld, applied, if_true, if_neg ok]
      exact ⟨written, ⟨works.queued, member⟩, Advances.refl _⟩
    · apply works.idle sound
      · simp [applied]
      · rfl
      · simpa [ok] using member

theorem Works.putManifest (works : Works handed store u) (sound : Sound segmentSize handed store)
    (consecutive : Consecutive start handed) {batch : SealedBatch}
    (at_phase : u.phase = .putManifest batch)
    (taken : u.step segmentSize now outcome store = some effect) :
    Upheld segmentSize handed store effect := by
  have phase := works.phase
  rw [at_phase] at phase
  obtain ⟨member, object⟩ := phase
  simp only [Uploader.step, at_phase] at taken
  cases taken
  have next (st : Store) : PhaseSound handed st
      (if outcome = .ok then .notify batch else .putSegment batch) := by
    split
    · trivial
    · exact member
  by_cases fresh : outcome.applied ∧ store.manifest.lists batch.baseOffset = false
  · simp only [Upheld, if_pos fresh]
    have added := sound.putManifest consecutive member object fresh.2
    refine ⟨added, ⟨works.queued, next _⟩, ?_⟩
    intro last found
    obtain ⟨tail, tail_last, rfl⟩ := Option.map_eq_some_iff.mp found
    exact added.ends_le consecutive (Manifest.mem_add.mpr (.inl (List.mem_of_getLast? tail_last)))
  · exact works.idle sound (if_neg fresh) rfl (next _)

theorem Works.retention (works : Works handed store u) (sound : Sound segmentSize handed store)
    (at_phase : u.phase = .retention)
    (taken : u.step segmentSize now outcome store = some effect) :
    Upheld segmentSize handed store effect := by
  obtain ⟨kept_sound, gone, same_last⟩ := sound.retain u.cfg now
  have kept_advances : Advances store.manifest
      (Retention.retain store.manifest (Retention.evaluateEviction store.manifest u.cfg now)) :=
    fun last found => ⟨last, same_last.trans found, le_rfl⟩
  simp only [Uploader.step, at_phase] at taken
  split at taken
  · cases taken
    exact works.idle sound rfl rfl trivial
  · cases taken
    by_cases ok : outcome = .ok
    · subst ok
      exact ⟨kept_sound, ⟨works.queued, gone⟩, kept_advances⟩
    · by_cases applied : outcome.applied
      · simp only [Upheld, applied, if_true, if_neg ok]
        exact ⟨kept_sound, ⟨works.queued, trivial⟩, kept_advances⟩
      · apply works.idle sound
        · simp [applied]
        · rfl
        · simp [ok, PhaseSound]

theorem Works.delete (works : Works handed store u) (sound : Sound segmentSize handed store)
    {entry : SegmentEntry} {rest : List SegmentEntry} (at_phase : u.phase = .delete (entry :: rest))
    (taken : u.step segmentSize now outcome store = some effect) :
    Upheld segmentSize handed store effect := by
  have unlisted := works.phase
  rw [at_phase] at unlisted
  have remaining : ∀ other ∈ rest, store.manifest.lists other.baseOffset = false :=
    fun other member => unlisted other (List.mem_cons_of_mem _ member)
  simp only [Uploader.step, at_phase] at taken
  cases taken
  by_cases applied : outcome.applied
  · simp only [Upheld, applied, if_true]
    exact ⟨sound.deleteSegment (unlisted entry List.mem_cons_self), ⟨works.queued, remaining⟩,
      Advances.refl _⟩
  · exact works.idle sound (if_neg applied) rfl remaining

/-- One step of the uploader, whatever the clock says and however its store call ends. -/
theorem Works.step (works : Works handed store u) (sound : Sound segmentSize handed store)
    (consecutive : Consecutive start handed)
    (taken : u.step segmentSize now outcome store = some effect) :
    Sound segmentSize handed effect.store ∧ Works handed effect.store effect.uploader ∧
      Advances store.manifest effect.store.manifest := by
  cases at_phase : u.phase with
  | recv =>
    simp only [Uploader.step, at_phase] at taken
    obtain ⟨same, works⟩ := works.receive taken
    rw [same]
    exact ⟨sound, works, Advances.refl _⟩
  | putSegment batch => exact works.putSegment sound consecutive at_phase taken
  | putManifest batch => exact works.putManifest sound consecutive at_phase taken
  | notify batch =>
    simp only [Uploader.step, at_phase] at taken
    cases taken
    exact works.idle sound rfl rfl trivial
  | retention => exact works.retention sound at_phase taken
  | delete evict =>
    cases evict with
    | nil =>
      simp only [Uploader.step, at_phase] at taken
      cases taken
      exact works.idle sound rfl rfl trivial
    | cons entry rest => exact works.delete sound at_phase taken
  | stopped => simp [Uploader.step, at_phase] at taken

end Phases

end Steps

structure Invariant (segmentSize : List Record → Nat) (start : Int) (s : State) : Prop where
  consecutive : Consecutive start s.handed
  sound : Sound segmentSize s.handed s.store
  works : ∀ u, s.uploader = some u → Works s.handed s.store u

section Runs

variable {segmentSize : List Record → Nat} {start : Int} {s next : State}

theorem Sound.mono {handed more : List SealedBatch} {store : Store}
    (sound : Sound segmentSize handed store) (sub : handed ⊆ more) :
    Sound segmentSize more store := by
  refine ⟨sound.ordered, fun entry listed => ?_⟩
  obtain ⟨batch, member, same⟩ := sound.listed entry listed
  exact ⟨batch, sub member, same⟩

theorem Works.mono {handed more : List SealedBatch} {store : Store} {u : Uploader}
    (works : Works handed store u) (sub : handed ⊆ more) : Works more store u := by
  refine ⟨fun batch queued => sub (works.queued batch queued), ?_⟩
  have phase := works.phase
  cases at_phase : u.phase with
  | putSegment batch => rw [at_phase] at phase; exact sub phase
  | putManifest batch => rw [at_phase] at phase; exact ⟨sub phase.1, phase.2⟩
  | delete evict => rw [at_phase] at phase; exact phase
  | recv | notify | retention | stopped => trivial

theorem Works.enqueue {handed : List SealedBatch} {store : Store} {u : Uploader}
    (works : Works handed store u) {msg : UploaderMsg}
    (known : ∀ batch, msg = .upload batch → batch ∈ handed) :
    Works handed store { u with rx := u.rx ++ [msg] } := by
  refine ⟨fun batch queued => ?_, works.phase⟩
  rcases List.mem_append.mp queued with old | last
  · exact works.queued batch old
  · exact known batch (List.mem_singleton.mp last).symm

theorem Invariant.send (invariant : Invariant segmentSize start s) {msg : UploaderMsg}
    (known : ∀ batch, msg = .upload batch → batch ∈ s.handed) (sent : send msg s = some next) :
    Invariant segmentSize start next ∧ Advances s.store.manifest next.store.manifest := by
  obtain ⟨u, running, rfl⟩ := Option.map_eq_some_iff.mp sent
  refine ⟨⟨invariant.consecutive, invariant.sound, ?_⟩, Advances.refl _⟩
  rintro _ ⟨⟩
  exact (invariant.works u running).enqueue known

/-- What every step keeps, and that none takes the last uploaded offset back. -/
theorem Invariant.step (invariant : Invariant segmentSize start s) {action : Action}
    (taken : step segmentSize start action s = some next) :
    Invariant segmentSize start next ∧ Advances s.store.manifest next.store.manifest := by
  cases action with
  | handOver first rest =>
    simp only [UploadLog.step] at taken
    split at taken
    · rename_i numbered
      have whole := SealedBatch.ofRecords_whole numbered
      have sub := List.subset_append_left s.handed
        [SealedBatch.ofRecords (nextBase start s.handed) first rest]
      have extended : Invariant segmentSize start { s with handed := s.handed ++
          [SealedBatch.ofRecords (nextBase start s.handed) first rest] } :=
        ⟨invariant.consecutive.snoc rfl whole, invariant.sound.mono sub,
          fun u running => (invariant.works u running).mono sub⟩
      apply extended.send ?_ taken
      rintro batch ⟨⟩
      simp
    · contradiction
  | repeatUpload index =>
    obtain ⟨batch, found, sent⟩ := Option.bind_eq_some_iff.mp taken
    apply invariant.send ?_ sent
    rintro _ ⟨⟩
    exact List.mem_of_getElem? found
  | retentionKick => exact invariant.send (by simp) taken
  | updateConfig cfg => exact invariant.send (by simp) taken
  | uploader now outcome =>
    obtain ⟨u, running, mapped⟩ := Option.bind_eq_some_iff.mp taken
    obtain ⟨effect, worked, rfl⟩ := Option.map_eq_some_iff.mp mapped
    obtain ⟨sound, works, advances⟩ :=
      (invariant.works u running).step invariant.sound invariant.consecutive worked
    refine ⟨⟨invariant.consecutive, sound, ?_⟩, advances⟩
    rintro _ ⟨⟩
    exact works
  | crash =>
    obtain ⟨u, running, rfl⟩ := Option.map_eq_some_iff.mp taken
    exact ⟨⟨invariant.consecutive, invariant.sound, fun _ same => nomatch same⟩, Advances.refl _⟩
  | restart cfg =>
    simp only [UploadLog.step] at taken
    split at taken
    · cases taken
      refine ⟨⟨invariant.consecutive, invariant.sound, ?_⟩, Advances.refl _⟩
      rintro _ ⟨⟩
      exact ⟨by simp [Uploader.new], trivial⟩
    · contradiction

theorem Invariant.run (invariant : Invariant segmentSize start s) {schedule : List Action}
    (ran : (machine segmentSize start).execute schedule s = some next) :
    Invariant segmentSize start next ∧ Advances s.store.manifest next.store.manifest := by
  induction schedule generalizing s with
  | nil => cases ran; exact ⟨invariant, Advances.refl _⟩
  | cons action schedule ih =>
    obtain ⟨middle, taken, rest⟩ := Machine.execute_cons ran
    obtain ⟨invariant', advances⟩ := invariant.step taken
    obtain ⟨final, advances'⟩ := ih invariant' rest
    exact ⟨final, advances.trans advances'⟩

theorem initial_invariant : Invariant segmentSize start (machine segmentSize start).initial :=
  ⟨trivial, ⟨Manifest.ordered_empty, fun _ listed => nomatch listed⟩, fun _ same => nomatch same⟩

end Runs

/-- What readers and recovery rely on a stored manifest for. -/
structure Faithful (records : List Record) (store : Store) : Prop where
  sorted : store.manifest.segments.Pairwise (fun a b => a.baseOffset < b.baseOffset)
  disjoint : store.manifest.segments.Pairwise (fun a b => a.lastOffset < b.baseOffset)
  counted : ∀ entry ∈ store.manifest.segments,
    (entry.recordCount : Int) = entry.lastOffset - entry.baseOffset + 1
  keyed : ∀ entry ∈ store.manifest.segments, entry.objectKey = segmentName entry.baseOffset
  stored : ∀ entry ∈ store.manifest.segments, store.objects[entry.baseOffset]? = some
    (records.filter (fun r => entry.baseOffset ≤ r.offset ∧ r.offset ≤ entry.lastOffset))

theorem Invariant.faithful {segmentSize : List Record → Nat} {start : Int} {s : State}
    (invariant : Invariant segmentSize start s) : Faithful (log s) s.store := by
  have listed := invariant.sound.listed
  refine ⟨invariant.sound.ordered.bases, invariant.sound.disjoint invariant.consecutive, ?_,
    invariant.sound.ordered.keys, ?_⟩
  · intro entry member
    obtain ⟨batch, batch_mem, rfl, _⟩ := listed entry member
    have := (invariant.consecutive.whole batch_mem).1.last
    simp only [Uploader.entry]
    omega
  · intro entry member
    obtain ⟨batch, batch_mem, rfl, object⟩ := listed entry member
    exact object.trans (congrArg some (invariant.consecutive.range batch_mem).symm)

/-- After any messages, failures and crashes the manifest is faithful to the log, and nothing
that happens later takes its last uploaded offset back. -/
theorem manifest_faithful (segmentSize : List Record → Nat) (start : Int) (schedule : List Action)
    (s : State)
    (ran : (machine segmentSize start).execute schedule (machine segmentSize start).initial = some s) :
    Faithful (log s) s.store ∧
      ∀ later s', (machine segmentSize start).execute later s = some s' →
        Advances s.store.manifest s'.store.manifest := by
  have reached := (initial_invariant.run ran).1
  exact ⟨reached.faithful, fun later s' ran' => (reached.run ran').2⟩

/-- A manifest PUT that takes effect and reports an error, a crash that loses a queued batch, a
pass that evicts the first segment, and a late repeat of its upload. -/
def retriedRun : List Action :=
  let record (offset : Int) : Record := ⟨offset, 0, 7, [], [1]⟩
  let cfg : ResolvedTopicConfig := ⟨8, 1000, 1024, 1024, 5, 1024, 1, 500, -1, 100⟩
  [.restart cfg, .handOver (record 0) [record 1], .uploader 0 .ok, .uploader 0 .ok,
    .uploader 0 (.failed true), .handOver (record 2) [], .crash, .restart cfg, .repeatUpload 0,
    .repeatUpload 1, .uploader 0 .ok, .uploader 0 (.failed true), .uploader 0 .ok, .uploader 0 .ok,
    .uploader 0 .ok, .uploader 0 .ok, .uploader 0 .ok, .uploader 0 .ok, .uploader 0 .ok,
    .uploader 0 .ok, .uploader 0 .ok, .uploader 0 .ok, .uploader 0 .ok, .repeatUpload 0,
    .uploader 0 .ok, .uploader 0 .ok, .uploader 0 .ok]

theorem manifest_faithful_retriedRun : ∃ s,
    (machine (100 * ·.length) 0).execute retriedRun (machine (100 * ·.length) 0).initial = some s ∧
      s.store.manifest.segments.map (·.lastOffset) = [1, 2] ∧ Faithful (log s) s.store ∧
      ∀ later s', (machine (100 * ·.length) 0).execute later s = some s' →
        Advances s.store.manifest s'.store.manifest := by
  have runs : ((machine (100 * ·.length) 0).execute retriedRun
      (machine (100 * ·.length) 0).initial).any
      (fun s => s.store.manifest.segments.map (·.lastOffset) == [1, 2]) = true := by decide +kernel
  obtain ⟨s, ran, lasts⟩ := Option.any_eq_true _ _ |>.mp runs
  exact ⟨s, ran, by simpa using lasts, manifest_faithful _ _ _ s ran⟩

end UploadLog
end Kafkrs
