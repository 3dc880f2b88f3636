import Kafkrs.Lib.AtomicFile
import Kafkrs.Lib.Machine
import Kafkrs.Lib.Slots
import Kafkrs.Manifest

/-! The file of unfinished deletes. Handlers and sweeps read it, change it and put it back, each
under one lock and through a temporary file; any of them can fail, be aborted or die with the
process. What the file says is what the finished ones have done, one after the other. -/
namespace Kafkrs.PendingDeletes

open Lib Lib.AtomicFile

structure PendingDelete where
  topic : String
  uuid : String
  manifestsByPartition : List (UInt32 × Manifest)
  createdNs : Int64
  deriving DecidableEq, Repr

/-- `serde_json`, for the list in the file. -/
structure Json where
  encode : List PendingDelete → Bytes
  decode : Bytes → Option (List PendingDelete)

inductive Request where
  | append (record : PendingDelete)
  | remove (uuid : String)
  deriving DecidableEq, Repr

def Request.apply (current : List PendingDelete) : Request → List PendingDelete
  | .append record => current ++ [record]
  | .remove uuid => current.filter (fun r => decide (r.uuid ≠ uuid))

inductive Phase where
  /-- At `FILE_LOCK.lock()`. -/
  | locking
  /-- In `load_all`. -/
  | loading
  /-- In `write_all`. -/
  | writing (replacement : Replacement)
  /-- The file is renamed, the lock still held. -/
  | renamed
  | returned (ok : Bool)
  /-- Aborted, or gone with its process. -/
  | dropped
  deriving DecidableEq, Repr

structure Call where
  request : Request
  phase : Phase
  deriving DecidableEq, Repr

/-- Calls are named by their place in the list. `adrift` counts the aborted calls whose blocking thread
may still be in a system call. `committed` is what has been renamed, in order; no step reads it. -/
structure State where
  files : Files
  lock : Option Nat
  calls : List Call
  adrift : Nat
  committed : List Nat

inductive Action where
  | call (request : Request)
  /-- The next step of a call; `ok` is what the file system says. -/
  | step (id amount : Nat) (ok : Bool)
  /-- `exists` cannot look at the file, and answers no. -/
  | unseen (id : Nat)
  | abort (id : Nat)
  /-- A system call of an aborted call, whatever it does to the files. -/
  | adrift (files : Files)
  /-- The process dies, with whatever of the temporary file on disk. -/
  | crash (tmp : Option Bytes)

section Steps

variable (json : Json)

def loadAll (target : Option Bytes) : Option (List PendingDelete) :=
  match target with
  | none => some []
  | some raw => json.decode raw

def State.put (s : State) (id : Nat) (call : Call) (phase : Phase) : State :=
  { s with calls := s.calls.set id { call with phase := phase } }

def State.finish (s : State) (id : Nat) (call : Call) (phase : Phase) : State :=
  { s.put id call phase with lock := none }

def State.loaded (s : State) (id : Nat) (call : Call) (current : List PendingDelete) : State :=
  s.put id call (.writing (.start (json.encode (call.request.apply current))))

def State.advance (s : State) (id : Nat) (call : Call) (amount : Nat) (ok : Bool) : Option State :=
  match call.phase with
  | .locking =>
    if s.lock = none then some { s.put id call .loading with lock := some id } else none
  | .loading =>
    match (if ok then loadAll json s.files.target else none) with
    | some current => some (s.loaded json id call current)
    | none => some (s.finish id call (.returned false))
  | .writing replacement =>
    if ok then
      match replacement.advance amount s.files with
      | (files, .going rest) => some { s.put id call (.writing rest) with files := files }
      | (files, .replaced) =>
        some { s.put id call .renamed with files := files, committed := s.committed ++ [id] }
      | (files, .failed) => some { s.finish id call (.returned false) with files := files }
    else some (s.finish id call (.returned false))
  | .renamed => some (s.finish id call (.returned true))
  | .returned _ | .dropped => none

def State.unseen (s : State) (id : Nat) (call : Call) : Option State :=
  if call.phase = .loading then some (s.loaded json id call []) else none

/-- The call's future is dropped. It leaves the lock, and a system call in its thread. -/
def State.abort (s : State) (id : Nat) (call : Call) : Option State :=
  match call.phase with
  | .locking => some (s.put id call .dropped)
  | .loading | .renamed => some (s.finish id call .dropped)
  | .writing _ => some { s.finish id call .dropped with adrift := s.adrift + 1 }
  | .returned _ | .dropped => none

def step (action : Action) (s : State) : Option State :=
  match action with
  | .call request => some { s with calls := s.calls ++ [⟨request, .locking⟩] }
  | .step id amount ok => s.calls[id]?.bind fun call => s.advance json id call amount ok
  | .unseen id => s.calls[id]?.bind fun call => s.unseen json id call
  | .abort id => s.calls[id]?.bind fun call => s.abort id call
  | .adrift files =>
    match s.adrift with
    | 0 => none
    | others + 1 => some { s with files := files, adrift := others }
  | .crash tmp =>
    some
      { files := { s.files with tmp := tmp }
        lock := none
        calls := s.calls.map fun call =>
          match call.phase with
          | .returned _ => call
          | _ => { call with phase := .dropped }
        adrift := 0
        committed := s.committed }

def machine (files : Files) : Machine State Action :=
  ⟨⟨files, none, [], 0, []⟩, step json⟩

end Steps

/-- No call is aborted between its load and its rename, and `exists` sees the file. -/
def Gentle (s : State) : Action → Prop
  | .unseen _ => s.files.target = none
  | .abort id => ∀ call ∈ s.calls[id]?, ∀ replacement, call.phase ≠ .writing replacement
  | _ => True

def State.requests (s : State) : List Request := s.calls.map Call.request

def serially (requests : List Request) (order : List Nat) (initial : List PendingDelete) :
    List PendingDelete :=
  (order.filterMap (requests[·]?)).foldl Request.apply initial

def Phase.holds : Phase → Bool
  | .loading | .writing _ | .renamed => true
  | _ => false

def Phase.past : Phase → Bool
  | .renamed | .returned true | .dropped => true
  | _ => false

structure Valid (json : Json) (initial : List PendingDelete) (s : State) : Prop where
  idle : s.adrift = 0
  holder : ∀ id call, s.calls[id]? = some call → call.phase.holds = true → s.lock = some id
  content : loadAll json s.files.target = some (serially s.requests s.committed initial)
  writing : ∀ (id : Nat) (call : Call) (replacement : Replacement), s.calls[id]? = some call →
    call.phase = .writing replacement → replacement.content =
        json.encode (call.request.apply (serially s.requests s.committed initial)) ∧
      replacement.Along s.files
  committed : ∀ id ∈ s.committed, ∃ call, s.calls[id]? = some call ∧ call.phase.past = true
  done : ∀ id call, s.calls[id]? = some call → call.phase = .renamed ∨ call.phase = .returned true →
    id ∈ s.committed
  once : s.committed.Nodup

section Steps

variable {json : Json} {initial : List PendingDelete} {s next : State} {id : Nat} {call : Call}
  {phase : Phase}

structure Moved (s next : State) (id : Nat) (call : Call) (phase : Phase) : Prop where
  found : s.calls[id]? = some call
  calls : next.calls = s.calls.set id { call with phase := phase }
  adrift : next.adrift = s.adrift
  target : next.files.target = s.files.target
  committed : next.committed = s.committed

theorem get_set {calls : List Call} (found : calls[id]? = some call) (other : Nat) :
    (calls.set id { call with phase := phase })[other]? =
      if other = id then some { call with phase := phase } else calls[other]? := by
  have bound := (List.getElem?_eq_some_iff.mp found).1
  rw [List.getElem?_set]
  by_cases same : id = other
  · subst same
    simp [bound]
  · simp [same, Ne.symm same]

/-- A step that changes the phase of one call, and whatever else besides the calls. -/
theorem next_requests (found : s.calls[id]? = some call)
    (calls : next.calls = s.calls.set id { call with phase := phase }) : next.requests = s.requests := by
  rw [State.requests, calls]
  exact Slots.map_set_same found rfl

theorem next_get (found : s.calls[id]? = some call)
    (calls : next.calls = s.calls.set id { call with phase := phase }) (other : Nat) :
    next.calls[other]? = if other = id then some { call with phase := phase } else s.calls[other]? := by
  rw [calls]
  exact get_set found other

/-- A call that is not past its rename has not been committed. -/
theorem Valid.uncommitted (valid : Valid json initial s) (found : s.calls[id]? = some call)
    (unpast : call.phase.past = false) : id ∉ s.committed := by
  intro member
  obtain ⟨call', here, past⟩ := valid.committed id member
  obtain rfl := Option.some.inj (found.symm.trans here)
  rw [unpast] at past
  cases past

/-- Only one call has the lock. -/
theorem Valid.alone (valid : Valid json initial s) (found : s.calls[id]? = some call)
    (holds : call.phase.holds = true) {other : Nat} {call' : Call}
    (here : s.calls[other]? = some call') (different : other ≠ id) : call'.phase.holds ≠ true := by
  intro holds'
  have mine := valid.holder id call found holds
  rw [valid.holder other call' here holds'] at mine
  exact different (Option.some.inj mine)

/-- What has to be shown of the new phase of a call when nothing is committed. -/
theorem Valid.moved (valid : Valid json initial s) (moved : Moved s next id call phase)
    (free : call.phase.holds = true ∨ s.lock = none ∨ next.lock = s.lock ∧ next.files = s.files)
    (held : phase.holds = true → next.lock = some id)
    (written : ∀ replacement, phase = .writing replacement →
      replacement.content =
          json.encode (call.request.apply (serially s.requests s.committed initial)) ∧
        replacement.Along next.files)
    (past : call.phase.past = true → phase.past = true)
    (done : phase = .renamed ∨ phase = .returned true → id ∈ s.committed) :
    Valid json initial next := by
  obtain ⟨found, calls, adrift, target, committed⟩ := moved
  have requests := next_requests found calls
  have look := next_get found calls
  have others (other : Nat) (call' : Call) (here : s.calls[other]? = some call')
      (different : other ≠ id) (holds : call'.phase.holds = true) :
      next.lock = some other ∧ next.files = s.files := by
    have mine := valid.holder other call' here holds
    rcases free with had | none | ⟨lock, files⟩
    · exact absurd holds (valid.alone found had here different)
    · exact absurd (mine.symm.trans none) (by simp)
    · exact ⟨lock.trans mine, files⟩
  refine ⟨adrift ▸ valid.idle, fun other call' here => ?_, ?_, ?_, fun other member => ?_,
    fun other call' here => ?_, committed ▸ valid.once⟩
  · rw [look] at here
    split at here
    next same =>
      cases here
      rw [same]
      exact held
    next different => exact fun holds => (others other call' here different holds).1
  · rw [requests, committed, target]
    exact valid.content
  · rw [requests, committed]
    intro other call' replacement here isWriting
    rw [look] at here
    split at here
    next same =>
      cases here
      exact written replacement isWriting
    next different =>
      rw [(others other call' here different (by rw [isWriting]; rfl)).2]
      exact valid.writing other call' replacement here isWriting
  · rw [committed] at member
    obtain ⟨call', here, isPast⟩ := valid.committed other member
    rw [look]
    split
    next same =>
      subst same
      obtain rfl := Option.some.inj (found.symm.trans here)
      exact ⟨_, rfl, past isPast⟩
    next => exact ⟨call', here, isPast⟩
  · rw [look] at here
    rw [committed]
    split at here
    next same =>
      cases here
      rw [same]
      exact done
    next => exact valid.done other call' here

theorem serially_append {requests : List Request} {order : List Nat} {request : Request}
    (named : requests[id]? = some request) :
    serially requests (order ++ [id]) initial = request.apply (serially requests order initial) := by
  rw [serially, List.filterMap_append, List.foldl_append]
  simp [named, serially]

/-- What `serde_json` has to read back: whatever some of the requests make of the first list. -/
def Readable (json : Json) (all : List Request) (initial : List PendingDelete) : Prop :=
  ∀ order : List Request, order ⊆ all →
    json.decode (json.encode (order.foldl Request.apply initial)) =
      some (order.foldl Request.apply initial)

/-- The rename: the file now says what it said before with the request applied. -/
theorem Valid.commit {all : List Request} (valid : Valid json initial s)
    (readable : Readable json all initial) (inside : s.requests ⊆ all)
    (found : s.calls[id]? = some call) (holds : call.phase.holds = true)
    (unpast : call.phase.past = false)
    (calls : next.calls = s.calls.set id { call with phase := .renamed })
    (adrift : next.adrift = s.adrift) (lock : next.lock = s.lock)
    (committed : next.committed = s.committed ++ [id])
    (target : next.files.target =
      some (json.encode (call.request.apply (serially s.requests s.committed initial)))) :
    Valid json initial next := by
  have named : s.requests[id]? = some call.request := Slots.map_found found
  have requests := next_requests found calls
  have look := next_get found calls
  have fresh := valid.uncommitted found unpast
  have serial := @serially_append initial id s.requests s.committed call.request named
  refine ⟨adrift ▸ valid.idle, fun other call' here => ?_, ?_, fun other call' replacement' here => ?_,
    fun other member => ?_, fun other call' here => ?_, ?_⟩
  · rw [look] at here
    rw [lock]
    split at here
    next same =>
      rw [same]
      exact fun _ => valid.holder id call found holds
    next different => exact fun holds' => absurd holds' (valid.alone found holds here different)
  · rw [requests, committed, target, loadAll, ← serial]
    exact readable _ fun request member => by
      obtain ⟨_, _, found⟩ := List.mem_filterMap.mp member
      exact inside (List.mem_of_getElem? found)
  · rw [look] at here
    intro isWriting
    split at here
    · cases here
      cases isWriting
    next different =>
      exact absurd (by rw [isWriting]; rfl) (valid.alone found holds here different)
  · rw [committed] at member
    rw [look]
    split
    · exact ⟨_, rfl, rfl⟩
    next different =>
      rcases List.mem_append.mp member with old | new
      · exact valid.committed other old
      · exact absurd (List.mem_singleton.mp new) different
  · rw [look] at here
    rw [committed]
    split at here
    next same => exact fun _ => by simp [same]
    next => exact fun after => List.mem_append_left _ (valid.done other call' here after)
  · rw [committed]
    refine List.nodup_append.mpr ⟨valid.once, List.nodup_singleton id, fun other member last isLast => ?_⟩
    rw [List.mem_singleton.mp isLast]
    rintro rfl
    exact fresh member

/-- A call has read what the file says, and starts its replacement. -/
theorem Valid.loaded (valid : Valid json initial s) (found : s.calls[id]? = some call)
    (phase : call.phase = .loading) {current : List PendingDelete}
    (read : loadAll json s.files.target = some current) :
    Valid json initial (s.loaded json id call current) := by
  have holds : call.phase.holds = true := by rw [phase]; rfl
  refine valid.moved ⟨found, rfl, rfl, rfl, rfl⟩ (.inl holds)
    (fun _ => valid.holder id call found holds) (fun replacement isWriting => ?_)
    (by simp [phase, Phase.past]) (by simp)
  cases isWriting
  rw [Option.some.inj (read.symm.trans valid.content)]
  exact ⟨rfl, start_along _ _⟩

theorem Valid.advance {all : List Request} {amount : Nat} {ok : Bool}
    (valid : Valid json initial s) (readable : Readable json all initial) (inside : s.requests ⊆ all)
    (found : s.calls[id]? = some call) (taken : s.advance json id call amount ok = some next) :
    Valid json initial next := by
  simp only [State.advance] at taken
  cases phase : call.phase with
  | locking =>
    simp only [phase] at taken
    split at taken
    next free =>
      cases taken
      exact valid.moved ⟨found, rfl, rfl, rfl, rfl⟩ (.inr (.inl free)) (fun _ => rfl) (by simp)
        (by simp [phase, Phase.past]) (by simp)
    next => cases taken
  | loading =>
    have holds : call.phase.holds = true := by rw [phase]; rfl
    simp only [phase] at taken
    split at taken
    next current loaded =>
      cases taken
      split at loaded
      · exact valid.loaded found phase loaded
      · cases loaded
    next =>
      cases taken
      exact valid.moved ⟨found, rfl, rfl, rfl, rfl⟩ (.inl holds) (by simp [Phase.holds]) (by simp)
        (by simp [phase, Phase.past]) (by simp)
  | writing replacement =>
    have holds : call.phase.holds = true := by rw [phase]; rfl
    obtain ⟨content, along⟩ := valid.writing id call replacement found phase
    simp only [phase] at taken
    split at taken
    · split at taken
      next files rest moved =>
        cases taken
        obtain ⟨target, same⟩ := advance_going moved
        refine valid.moved ⟨found, rfl, rfl, target, rfl⟩ (.inl holds)
          (fun _ => valid.holder id call found holds) (fun other isWriting => ?_)
          (by simp [phase, Phase.past]) (by simp)
        cases isWriting
        exact ⟨same.trans content, advance_along along moved⟩
      next files replaced =>
        cases taken
        exact valid.commit readable inside found holds (by rw [phase]; rfl) rfl rfl rfl rfl
          ((advance_replaced along replaced).trans (congrArg some content))
      next files failed => exact absurd failed (advance_failed along)
    · cases taken
      exact valid.moved ⟨found, rfl, rfl, rfl, rfl⟩ (.inl holds) (by simp [Phase.holds]) (by simp)
        (by simp [phase, Phase.past]) (by simp)
  | renamed =>
    simp only [phase] at taken
    cases taken
    exact valid.moved ⟨found, rfl, rfl, rfl, rfl⟩ (.inl (by rw [phase]; rfl)) (by simp [Phase.holds])
      (by simp) (fun _ => rfl) (fun _ => valid.done id call found (.inl phase))
  | returned ok => simp [phase] at taken
  | dropped => simp [phase] at taken

theorem Valid.abort (valid : Valid json initial s) (found : s.calls[id]? = some call)
    (gentle : ∀ replacement, call.phase ≠ .writing replacement)
    (taken : s.abort id call = some next) : Valid json initial next := by
  simp only [State.abort] at taken
  cases phase : call.phase with
  | locking =>
    simp only [phase] at taken
    cases taken
    exact valid.moved ⟨found, rfl, rfl, rfl, rfl⟩ (.inr (.inr ⟨rfl, rfl⟩)) (by simp [Phase.holds])
      (by simp) (by simp [Phase.past]) (by simp)
  | loading | renamed =>
    simp only [phase] at taken
    cases taken
    exact valid.moved ⟨found, rfl, rfl, rfl, rfl⟩ (.inl (by rw [phase]; rfl)) (by simp [Phase.holds])
      (by simp) (by simp [Phase.past]) (by simp)
  | writing replacement => exact absurd phase (gentle replacement)
  | returned ok => simp [phase] at taken
  | dropped => simp [phase] at taken

theorem Valid.enter (valid : Valid json initial s) (request : Request) :
    Valid json initial { s with calls := s.calls ++ [⟨request, .locking⟩] } := by
  have old (other : Nat) (call' : Call)
      (here : (s.calls ++ [⟨request, .locking⟩])[other]? = some call') :
      s.calls[other]? = some call' ∨ call'.phase = .locking := by
    rw [List.getElem?_append] at here
    split at here
    · exact .inl here
    · rw [List.mem_singleton.mp (List.mem_of_getElem? here)]
      exact .inr rfl
  have kept (other : Nat) (member : other ∈ s.committed) :
      (s.calls ++ [⟨request, .locking⟩])[other]? = s.calls[other]? := by
    obtain ⟨_, here, _⟩ := valid.committed other member
    exact List.getElem?_append_left (List.getElem?_eq_some_iff.mp here).1
  have serial : serially (State.requests { s with calls := s.calls ++ [⟨request, .locking⟩] })
      s.committed initial = serially s.requests s.committed initial := by
    rw [serially, serially]
    congr 1
    refine List.filterMap_congr fun other member => ?_
    rw [State.requests, State.requests, List.getElem?_map, List.getElem?_map]
    exact congrArg _ (kept other member)
  refine ⟨valid.idle, fun other call' here holds => ?_, ?_, fun other call' replacement here isWriting => ?_,
    fun other member => ?_, fun other call' here after => ?_, valid.once⟩
  · rcases old other call' here with before | locking
    · exact valid.holder other call' before holds
    · simp [locking, Phase.holds] at holds
  · rw [serial]
    exact valid.content
  · rw [serial]
    rcases old other call' here with before | locking
    · exact valid.writing other call' replacement before isWriting
    · simp [locking] at isWriting
  · rw [kept other member]
    exact valid.committed other member
  · rcases old other call' here with before | locking
    · exact valid.done other call' before after
    · simp [locking] at after

/-- After a crash no call is left that has not returned; the file is what it was. -/
theorem Valid.crash (valid : Valid json initial s) {tmp : Option Bytes}
    (taken : step json (.crash tmp) s = some next) : Valid json initial next := by
  cases taken
  have ended (call : Call) : (match call.phase with
      | .returned _ => call
      | _ => { call with phase := .dropped }).request = call.request := by
    split <;> rfl
  have requests : State.requests { s with calls := s.calls.map fun call => match call.phase with
      | .returned _ => call
      | _ => { call with phase := .dropped } } = s.requests := by
    rw [State.requests, State.requests, List.map_map]
    exact List.map_congr_left fun call _ => ended call
  refine ⟨rfl, fun other call' here holds => ?_, ?_, fun other call' replacement here isWriting => ?_,
    fun other member => ?_, fun other call' here after => ?_, valid.once⟩
  · obtain ⟨before, _, rfl⟩ := List.mem_map.mp (List.mem_of_getElem? here)
    split at holds
    next phase => simp [phase, Phase.holds] at holds
    next => simp [Phase.holds] at holds
  · exact requests ▸ valid.content
  · obtain ⟨before, _, rfl⟩ := List.mem_map.mp (List.mem_of_getElem? here)
    split at isWriting
    next phase => simp [phase] at isWriting
    next => simp at isWriting
  · obtain ⟨before, here, past⟩ := valid.committed other member
    refine ⟨_, Slots.map_found here, ?_⟩
    split
    · exact past
    · rfl
  · rw [List.getElem?_map] at here
    obtain ⟨before, isBefore, rfl⟩ := Option.map_eq_some_iff.mp here
    split at after
    · exact valid.done other before isBefore after
    · simp at after

theorem Valid.step {all : List Request} {action : Action} (valid : Valid json initial s)
    (readable : Readable json all initial) (inside : s.requests ⊆ all) (gentle : Gentle s action)
    (taken : step json action s = some next) : Valid json initial next := by
  cases action with
  | call request =>
    cases taken
    exact valid.enter request
  | step id amount ok =>
    obtain ⟨call, found, advanced⟩ := Option.bind_eq_some_iff.mp taken
    exact valid.advance readable inside found advanced
  | unseen id =>
    obtain ⟨call, found, missed⟩ := Option.bind_eq_some_iff.mp taken
    simp only [State.unseen] at missed
    split at missed <;> cases missed
    next phase => exact valid.loaded found phase (by rw [show s.files.target = none from gentle]; rfl)
  | abort id =>
    obtain ⟨call, found, aborted⟩ := Option.bind_eq_some_iff.mp taken
    exact valid.abort found (gentle call found) aborted
  | adrift files => simp [PendingDeletes.step, valid.idle] at taken
  | crash tmp => exact valid.crash taken

def asked (schedule : List Action) : List Request :=
  schedule.flatMap fun
    | .call request => [request]
    | _ => []

theorem step_requests {action : Action} (taken : PendingDeletes.step json action s = some next) :
    next.requests = s.requests ++ asked [action] := by
  cases action with
  | call request =>
    cases taken
    simp [State.requests, asked]
  | step id amount ok =>
    obtain ⟨call, found, advanced⟩ := Option.bind_eq_some_iff.mp taken
    rw [show asked [.step id amount ok] = [] from rfl, List.append_nil]
    simp only [State.advance] at advanced
    split at advanced
    · split at advanced <;> cases advanced
      exact next_requests found rfl
    · split at advanced <;> cases advanced <;> exact next_requests found rfl
    · split at advanced
      · split at advanced <;> cases advanced <;> exact next_requests found rfl
      · cases advanced
        exact next_requests found rfl
    · cases advanced
      exact next_requests found rfl
    · cases advanced
    · cases advanced
  | unseen id =>
    obtain ⟨call, found, missed⟩ := Option.bind_eq_some_iff.mp taken
    rw [show asked [.unseen id] = [] from rfl, List.append_nil]
    simp only [State.unseen] at missed
    split at missed <;> cases missed
    exact next_requests found rfl
  | abort id =>
    obtain ⟨call, found, aborted⟩ := Option.bind_eq_some_iff.mp taken
    rw [show asked [.abort id] = [] from rfl, List.append_nil]
    simp only [State.abort] at aborted
    split at aborted <;> cases aborted <;> exact next_requests found rfl
  | adrift files =>
    simp only [PendingDeletes.step] at taken
    split at taken <;> cases taken
    exact (List.append_nil _).symm
  | crash tmp =>
    cases taken
    rw [show asked [.crash tmp] = [] from rfl, List.append_nil, State.requests, State.requests,
      List.map_map]
    refine List.map_congr_left fun call _ => ?_
    dsimp only [Function.comp]
    split <;> rfl

theorem run_valid {schedule : List Action} {all : List Request} {files : Files}
    (valid : Valid json initial s) (readable : Readable json all initial)
    (inside : s.requests ++ asked schedule ⊆ all)
    (gentle : (machine json files).Along Gentle schedule s)
    (ran : (machine json files).execute schedule s = some next) :
    Valid json initial next ∧ next.requests = s.requests ++ asked schedule := by
  induction schedule generalizing s with
  | nil =>
    cases ran
    exact ⟨valid, (List.append_nil _).symm⟩
  | cons action schedule ih =>
    obtain ⟨middle, taken, rest⟩ := Machine.execute_cons ran
    have grown : middle.requests = s.requests ++ asked [action] := step_requests taken
    have split : s.requests ++ asked (action :: schedule) = middle.requests ++ asked schedule := by
      rw [grown, List.append_assoc, asked, asked, asked, ← List.flatMap_append, List.singleton_append]
    rw [split] at inside ⊢
    have before : s.requests ⊆ all := fun request member =>
      inside (List.mem_append_left _ (grown ▸ List.mem_append_left _ member))
    exact ih (valid.step readable before gentle.1 taken) inside (gentle.2 middle taken) rest

end Steps

/-- Whatever fails, is aborted outside `write_all` or dies with the process, the file reads as the
requests that were renamed, one after the other and each once; a call that has returned `Ok` is one of
them, and a call that has returned an error is not. -/
theorem file_serial (json : Json) {files : Files} {initial : List PendingDelete}
    (read : loadAll json files.target = some initial) {schedule : List Action} {s : State}
    (readable : Readable json (asked schedule) initial)
    (gentle : (machine json files).Along Gentle schedule (machine json files).initial)
    (ran : (machine json files).execute schedule (machine json files).initial = some s) :
    loadAll json s.files.target = some (serially (asked schedule) s.committed initial) ∧
      s.committed.Nodup ∧ ∀ id call, s.calls[id]? = some call →
        (asked schedule)[id]? = some call.request ∧
        (call.phase = .returned true → id ∈ s.committed) ∧
        (call.phase = .returned false → id ∉ s.committed) := by
  have start : Valid json initial (machine json files).initial :=
    ⟨rfl, fun id call none => by simp [machine] at none, read,
      fun id call replacement none => by simp [machine] at none,
      fun id none => by simp [machine] at none, fun id call none => by simp [machine] at none,
      List.nodup_nil⟩
  obtain ⟨valid, requests⟩ := run_valid start readable (fun request member => member) gentle ran
  have same : s.requests = asked schedule := requests
  refine ⟨same ▸ valid.content, valid.once, fun id call found => ⟨?_, ?_, ?_⟩⟩
  · rw [← same]
    exact Slots.map_found found
  · exact fun returned => valid.done id call found (.inr returned)
  · exact fun returned => valid.uncommitted found (by rw [returned]; rfl)

section Sample

/-- What `to_vec_pretty` writes when nothing is pending. -/
def emptyFile : Bytes := "\x7b\n  \"pending\": []\n\x7d".toUTF8.data.toList

def unfinished : PendingDelete := ⟨"orders", "u", [], 0⟩

def leftFile : Bytes :=
  ("\x7b\n  \"pending\": [\n    \x7b\n      \"topic\": \"orders\",\n      \"uuid\": \"u\",\n" ++
    "      \"manifests_by_partition\": \x7b\x7d,\n      \"created_ns\": 0\n    \x7d\n  ]\n\x7d").toUTF8.data.toList

def sampleJson : Json where
  encode pending := if pending = [] then emptyFile else leftFile
  decode raw := if raw = emptyFile then some [] else if raw = leftFile then some [unfinished] else none

/-- Two sweeps finish. The first dies with the process in its write; the second, after the restart,
gets through. -/
def sweepRun : List Action :=
  let step (id : Nat) : Action := .step id 4095 true
  [.call (.remove "u"), step 0, step 0, step 0, step 0, .crash (some (emptyFile.take 5)),
    .call (.remove "u"), step 1, step 1, step 1, step 1, step 1, step 1, step 1, step 1]

def sampleFiles : Files := ⟨some leftFile, none⟩

theorem sweepRun_left {order : List Request} {current : List PendingDelete}
    (inside : order ⊆ asked sweepRun) (either : current = [unfinished] ∨ current = []) :
    order.foldl Request.apply current = [unfinished] ∨ order.foldl Request.apply current = [] := by
  induction order generalizing current with
  | nil => exact either
  | cons request order ih =>
    obtain ⟨here, rest⟩ := List.cons_subset.mp inside
    obtain rfl : request = .remove "u" := by simpa [asked, sweepRun] using here
    refine ih rest (.inr ?_)
    rcases either with rfl | rfl <;> decide

theorem sweepRun_readable : Readable sampleJson (asked sweepRun) [unfinished] := by
  intro order inside
  rcases sweepRun_left inside (.inl rfl) with same | same <;> rw [same] <;> decide +kernel

theorem file_serial_sweepRun : ((machine sampleJson sampleFiles).execute sweepRun
    (machine sampleJson sampleFiles).initial).any (fun s =>
      loadAll sampleJson s.files.target = some [] ∧ s.committed = [1]) = true ∧
    ∀ s, (machine sampleJson sampleFiles).execute sweepRun (machine sampleJson sampleFiles).initial =
      some s → loadAll sampleJson s.files.target =
        some (serially (asked sweepRun) s.committed [unfinished]) :=
  ⟨by decide +kernel, fun _ ran =>
    (file_serial sampleJson (by decide +kernel) sweepRun_readable
      (by simp [Machine.Along, Gentle, sweepRun]) ran).1⟩

end Sample

end Kafkrs.PendingDeletes
