import Kafkrs.Session
import Mathlib.Data.List.InsertIdx
import Mathlib.Data.List.Perm.Basic

/-! Responses and the calls they reach. The client never looks at the correlation id of a response,
so a call gets its own only if nothing sent earlier is still on its way. -/
namespace Kafkrs.Pairing

open Lib Wal Wire Client Session
open FetchFrame (toBeBytes_length)
open FrameStream (fromBeBytes_toBeBytes encodeFrame_ok decodeFrameBody decodeFrameBody_joined)

/-- A call that returned was answered by one response under its id, and returned its content. -/
def Paired (s : State) : Prop :=
  ∀ co ∈ s.coroutines, ∀ result, co.phase = .returned result →
    ∃ resp ∈ s.responses, resp.1.correlationId.toNat = co.correlationId ∧
      co.call.finish resp.1 resp.2 = .ok result ∧
      ∀ other ∈ s.responses, other.1.correlationId.toNat = co.correlationId → other = resp

/-- A round trip starts on a connection with nothing owed and nothing to read. -/
def Clear (s : State) : Action → Prop
  | .acquire _ => ∀ socket ∈ s.socket.bind (s.sockets[·]?), socket.requests = [] ∧ socket.stream = []
  | _ => True

instance (s : State) (action : Action) : Decidable (Clear s action) := by
  cases action <;> unfold Clear <;> infer_instance

section Serving

variable (decode : Bytes → Option Command)

/-- The client's protobuf decoder reads the commands that the broker sends. -/
def ReadsBack (s : State) : Action → Prop
  | .answer k place body _ => ∀ request ∈ s.sockets[k]?.bind (·.requests[place]?),
      decode (Command.encode ⟨request.correlationId, some body⟩) =
        some ⟨request.correlationId, some body⟩
  | _ => True

instance (s : State) (action : Action) : Decidable (ReadsBack decode s action) := by
  cases action <;> unfold ReadsBack <;> infer_instance

variable (v : Exchange)

def Clean (k : Nat) : Prop := v.links[k]? = some ([], [])

def Carries (id : Nat) (body : Bytes) : Prop :=
  ∃ resp ∈ v.responses, resp.1.correlationId.toNat = id ∧ parseResponse decode body = some resp

def Pending (k id : Nat) : Prop :=
  Clean v k ∨
  (∃ request : Command, v.links[k]? = some ([request], []) ∧ request.correlationId.toNat = id) ∨
  ∃ body, v.links[k]? = some ([], toBeBytes (UInt32.ofNat body.length) ++ body) ∧
    body.length < 2 ^ 32 ∧ Carries decode v id body

def HalfRead (k id size : Nat) : Prop :=
  Clean v k ∨ ∃ body, v.links[k]? = some ([], body) ∧ size = body.length ∧ Carries decode v id body

def Served (co : Coroutine) : Phase → Prop
  | .draining k | .readingSize k =>
    Pending decode v k co.correlationId ∧ ∀ k', v.socket = some k' → k' ≠ k → Clean v k'
  | .readingBody k size => HalfRead decode v k co.correlationId size
  | .returned result => ∃ resp ∈ v.responses, resp.1.correlationId.toNat = co.correlationId ∧
      co.call.finish resp.1 resp.2 = .ok result
  | _ => True

structure Serving : Prop where
  holder : ∀ {id : Nat} {co : Coroutine}, v.coroutines[id]? = some co → co.phase.Busy → v.lock = some id
  served : ∀ {id : Nat} {co : Coroutine}, v.coroutines[id]? = some co → Served decode v co co.phase

end Serving

variable {decode : Bytes → Option Command} {v w : Exchange} {co : Coroutine}

section Layout

/-- The client reads at least what the broker's decoder does. -/
theorem parseResponse_ok {body : Bytes} {frame : Frame}
    (decoded : decodeFrameBody decode body = .ok frame) :
    parseResponse decode body = some (frame.command, frame.payload) := by
  simp only [decodeFrameBody] at decoded
  rw [parseResponse]
  split at decoded
  · cases decoded
  next sized =>
    split at decoded
    · cases decoded
    · split at decoded
      · cases decoded
      next command read =>
        cases decoded
        rw [if_neg sized]
        simp only [read, Option.map_some]

/-- A response on the wire is the size of a body and a body the client parses. -/
theorem response_layout {cmd : Command} {payload bytes : Bytes}
    (encoded : encodeFrame ⟨cmd, payload⟩ = .ok bytes) (inverse : decode cmd.encode = some cmd) :
    ∃ body, bytes = toBeBytes (UInt32.ofNat body.length) ++ body ∧ body.length < 2 ^ 32 ∧
      parseResponse decode body = some (cmd, payload) := by
  obtain ⟨fits, shape⟩ := encodeFrame_ok encoded
  dsimp only at fits shape
  rw [maxFrameSize] at fits
  have extent : (toBeBytes (UInt32.ofNat cmd.encode.length) ++ (cmd.encode ++ payload)).length =
      4 + cmd.encode.length + payload.length := by
    rw [List.length_append, List.length_append, toBeBytes_length]
    omega
  have decoded := @decodeFrameBody_joined decode cmd payload (by omega) inverse
  exact ⟨_, by rw [shape, extent], by omega, parseResponse_ok decoded⟩

end Layout

section Frames

variable {phase : Phase} {id : Nat}

theorem Carries.grown {n : Nat} {body : Bytes} (carried : Carries decode v n body)
    (responses : v.responses ⊆ w.responses) : Carries decode w n body := by
  obtain ⟨resp, member, named, parsed⟩ := carried
  exact ⟨resp, responses member, named, parsed⟩

/-- Where nothing is owed nothing comes, and a pending request stays pending. -/
theorem Served.mono (served : Served decode v co phase)
    (unowed : ∀ (k : Nat) stream, v.links[k]? = some ([], stream) → w.links[k]? = some ([], stream))
    (pending : ∀ k, Pending decode v k co.correlationId → Pending decode w k co.correlationId)
    (socket : ∀ k, w.socket = some k → v.socket = some k ∨ Clean w k)
    (responses : v.responses ⊆ w.responses) : Served decode w co phase := by
  have waiting : ∀ k, (Pending decode v k co.correlationId ∧
      ∀ k', v.socket = some k' → k' ≠ k → Clean v k') →
      Pending decode w k co.correlationId ∧ ∀ k', w.socket = some k' → k' ≠ k → Clean w k' := by
    rintro k ⟨here, elsewhere⟩
    refine ⟨pending k here, fun k' current different => ?_⟩
    rcases socket k' current with before | clean
    · exact unowed _ _ (elsewhere k' before different)
    · exact clean
  cases phase with
  | draining k => exact waiting k served
  | readingSize k => exact waiting k served
  | readingBody k size =>
    rcases served with clean | ⟨body, sent, sized, carried⟩
    · exact .inl (unowed _ _ clean)
    · exact .inr ⟨body, unowed _ _ sent, sized, carried.grown responses⟩
  | returned result =>
    obtain ⟨resp, member, named, content⟩ := served
    exact ⟨resp, responses member, named, content⟩
  | opening => trivial
  | waiting => trivial
  | raised => trivial
  | cancelled => trivial

/-- Calls do not notice new connections, or that the client forgets its own. -/
theorem Served.kept (served : Served decode v co phase)
    (links : ∀ (k : Nat) link, v.links[k]? = some link → w.links[k]? = some link)
    (socket : ∀ k, w.socket = some k → v.socket = some k ∨ Clean w k)
    (responses : v.responses ⊆ w.responses) : Served decode w co phase := by
  refine served.mono (fun k stream => links k _) (fun k here => ?_) socket responses
  rcases here with clean | ⟨request, owed, named⟩ | ⟨body, sent, small, carried⟩
  · exact .inl (links _ _ clean)
  · exact .inr (.inl ⟨request, links _ _ owed, named⟩)
  · exact .inr (.inr ⟨body, links _ _ sent, small, carried.grown responses⟩)

theorem Served.idle (served : Served decode v co phase) (idle : ¬ phase.Busy)
    (responses : v.responses ⊆ w.responses) : Served decode w co phase := by
  cases phase with
  | returned result =>
    obtain ⟨resp, member, named, content⟩ := served
    exact ⟨resp, responses member, named, content⟩
  | draining k => exact absurd trivial idle
  | readingSize k => exact absurd trivial idle
  | readingBody k size => exact absurd trivial idle
  | opening => trivial
  | waiting => trivial
  | raised => trivial
  | cancelled => trivial

/-- A step of the call that has the lock, or takes it: no other call is inside. -/
theorem Serving.mine (inv : Serving decode v) (only : ∀ j, v.lock = some j → j = id)
    (table : w.coroutines = v.coroutines.set id co) (responses : w.responses = v.responses)
    (holds : co.phase.Busy → w.lock = some id) (own : Served decode w co co.phase) :
    Serving decode w := by
  have others : ∀ j other, j ≠ id → v.coroutines[j]? = some other → ¬ other.phase.Busy :=
    fun j other different found busy => different (only j (inv.holder found busy))
  constructor
  · intro j other found busy
    rw [table] at found
    rcases Slots.set_cases found with ⟨rfl, rfl⟩ | ⟨different, old⟩
    · exact holds busy
    · exact absurd busy (others j other different old)
  · intro j other found
    rw [table] at found
    rcases Slots.set_cases found with ⟨rfl, rfl⟩ | ⟨different, old⟩
    · exact own
    · exact (inv.served old).idle (others j other different old)
        fun _ member => responses ▸ member

/-- A step of the call that has the lock. -/
theorem Serving.inside (inv : Serving decode v) {old : Coroutine}
    (found : v.coroutines[id]? = some old) (busy : old.phase.Busy)
    (table : w.coroutines = v.coroutines.set id co) (responses : w.responses = v.responses)
    (holds : co.phase.Busy → w.lock = v.lock) (own : Served decode w co co.phase) :
    Serving decode w := by
  have held := inv.holder found busy
  refine inv.mine (fun j other => ?_) table responses (fun still => (holds still).trans held) own
  exact Option.some.inj (other.symm.trans held)

/-- A step of a call outside the lock. -/
theorem Serving.aside (inv : Serving decode v) (table : w.coroutines = v.coroutines.set id co)
    (lock : ∀ j, j ≠ id → v.lock = some j → w.lock = some j)
    (links : ∀ (k : Nat) link, v.links[k]? = some link → w.links[k]? = some link)
    (socket : ∀ k, w.socket = some k → v.socket = some k ∨ Clean w k)
    (responses : w.responses = v.responses) (idle : ¬ co.phase.Busy)
    (own : Served decode w co co.phase) : Serving decode w := by
  constructor
  · intro j other found busy
    rw [table] at found
    rcases Slots.set_cases found with ⟨rfl, rfl⟩ | ⟨different, old⟩
    · exact absurd busy idle
    · exact lock j different (inv.holder old busy)
  · intro j other found
    rw [table] at found
    rcases Slots.set_cases found with ⟨rfl, rfl⟩ | ⟨different, old⟩
    · exact own
    · exact (inv.served old).kept links socket fun _ member => responses ▸ member

theorem release_other {lock : Option Nat} {j : Nat} (different : j ≠ id) (held : lock = some j) :
    release lock id = some j := by
  have other : lock ≠ some id := fun same => different (Option.some.inj (held.symm.trans same))
  rw [release, if_neg other, held]

end Frames

section Steps

variable {id k : Nat}

theorem Serving.enter (inv : Serving decode v) {n : Nat} (shape : co.phase = .opening ∨
    co.phase = .waiting ∨ co.phase = .raised) :
    Serving decode { v with next := n, coroutines := v.coroutines ++ [co] } := by
  have fresh : ¬ co.phase.Busy ∧ Served decode v co co.phase := by
    rcases shape with phase | phase | phase <;> rw [phase] <;> exact ⟨not_false, trivial⟩
  constructor
  · intro j other found busy
    rcases Slots.append_cases found with ⟨rfl, rfl⟩ | old
    · exact absurd busy fresh.1
    · exact inv.holder old busy
  · intro j other found
    rcases Slots.append_cases found with ⟨rfl, rfl⟩ | old
    · exact fresh.2
    · exact inv.served old

theorem Serving.number (inv : Serving decode v) {phase : Phase} {lock : Option Nat}
    (outcome : phase = .waiting ∧ lock = v.lock ∨ phase = .raised ∧ lock = release v.lock id) :
    Serving decode { v with
      next := v.next + 1
      socket := some v.links.length
      lock := lock
      coroutines := v.coroutines.set id { co with correlationId := v.next, phase }
      links := v.links ++ [([], [])] } := by
  refine inv.aside rfl ?_ (fun _ _ found => Slots.append_old found) ?_ rfl ?_ ?_
  · intro j different held
    rcases outcome with ⟨_, same⟩ | ⟨_, same⟩
    · rw [same, held]
    · rw [same, release_other different held]
  · intro k current
    cases current
    exact .inr List.getElem?_concat_length
  · rcases outcome with ⟨rfl, _⟩ | ⟨rfl, _⟩ <;> exact not_false
  · rcases outcome with ⟨rfl, _⟩ | ⟨rfl, _⟩ <;> trivial

/-- The request goes out on a connection that is clean. -/
theorem Serving.write (inv : Serving decode v) {cmd : Command} (free : v.lock = none)
    (here : v.socket = some k) (numbered : cmd.correlationId.toNat = co.correlationId)
    (clear : ∀ link, v.links[k]? = some link → link = ([], [])) (joined : k < v.links.length) :
    Serving decode { v with
      lock := some id
      coroutines := v.coroutines.set id { co with phase := .draining k }
      links := v.links.modify k fun link => (link.1 ++ [cmd], link.2) } := by
  have clean : v.links[k]? = some ([], []) := by
    have found := List.getElem?_eq_getElem joined
    rw [found, clear _ found]
  refine inv.mine (fun j held => ?_) rfl rfl (fun _ => rfl) ⟨.inr (.inl ⟨cmd, ?_, numbered⟩), ?_⟩
  · rw [free] at held
    cases held
  · exact Slots.modify_self clean
  · intro k' current different
    exact absurd (Option.some.inj (current.symm.trans here)) different

theorem Serving.drain (inv : Serving decode v) {k' : Nat} (found : v.coroutines[id]? = some co)
    (draining : co.phase = .draining k) (here : v.socket = some k') :
    Serving decode { v with
      coroutines := v.coroutines.set id { co with phase := .readingSize k' } } := by
  have served := inv.served found
  rw [draining] at served
  obtain ⟨pending, elsewhere⟩ := served
  refine inv.inside found (by rw [draining]; trivial) rfl rfl (fun _ => rfl) ⟨?_, ?_⟩
  · by_cases same : k' = k
    · subst same
      exact pending
    · exact .inl (elsewhere k' here same)
  · intro k'' current different
    exact absurd (Option.some.inj (current.symm.trans here)) different

/-- The size that is read is that of the response to this call. -/
theorem Serving.measure (inv : Serving decode v) {k' : Nat} {link : List Command × Bytes}
    (found : v.coroutines[id]? = some co) (reading : co.phase = .readingSize k)
    (joined : v.links[k]? = some link) (enough : 4 ≤ link.2.length) (here : v.socket = some k') :
    Serving decode { v with
      coroutines := v.coroutines.set id
        { co with phase := .readingBody k' (fromBeBytes (slice link.2 0 4)) }
      links := v.links.modify k fun link => (link.1, link.2.drop 4) } := by
  have served := inv.served found
  rw [reading] at served
  obtain ⟨pending, elsewhere⟩ := served
  refine inv.inside found (by rw [reading]; trivial) rfl rfl (fun _ => rfl) ?_
  by_cases same : k' = k
  · subst same
    rcases pending with clean | ⟨request, owed, _⟩ | ⟨body, sent, small, carried⟩
    · cases Option.some.inj (joined.symm.trans clean)
      cases enough
    · cases Option.some.inj (joined.symm.trans owed)
      cases enough
    · cases Option.some.inj (joined.symm.trans sent)
      have width := toBeBytes_length (UInt32.ofNat body.length)
      refine .inr ⟨body, ?_, ?_, carried⟩
      · rw [Slots.modify_self sent, List.drop_left' width]
      · rw [slice_zero, List.take_left' width, fromBeBytes_toBeBytes small]
  · refine .inl ?_
    rw [Clean, Slots.modify_other same]
    exact elsewhere k' here same

/-- The body that is read is that of the response to this call. -/
theorem Serving.finish (inv : Serving decode v) {size : Nat} {link : List Command × Bytes}
    {resp : Command × Bytes} {result : Returned} (found : v.coroutines[id]? = some co)
    (reading : co.phase = .readingBody k size) (joined : v.links[k]? = some link)
    (parsed : parseResponse decode (slice link.2 0 size) = some resp)
    (accepted : co.call.finish resp.1 resp.2 = .ok result) :
    Serving decode { v with
      coroutines := v.coroutines.set id { co with phase := .returned result }
      lock := release v.lock id
      links := v.links.modify k fun link => (link.1, link.2.drop size) } := by
  have served := inv.served found
  rw [reading] at served
  refine inv.inside found (by rw [reading]; trivial) rfl rfl (fun busy => absurd busy not_false) ?_
  rcases served with clean | ⟨body, sent, sized, other, member, named, own⟩
  · cases Option.some.inj (joined.symm.trans clean)
    rw [slice_zero, List.take_nil] at parsed
    cases parsed
  · cases Option.some.inj (joined.symm.trans sent)
    rw [slice_zero, sized, List.take_length, own] at parsed
    cases parsed
    exact ⟨_, member, named, accepted⟩

theorem Serving.stop (inv : Serving decode v) {phase : Phase}
    (ends : phase = .raised ∨ phase = .cancelled) :
    Serving decode { v with
      coroutines := v.coroutines.set id { co with phase }
      lock := release v.lock id } := by
  refine inv.aside rfl (fun j different held => release_other different held) (fun _ _ found => found)
    (fun _ => .inl) rfl ?_ ?_
  · rcases ends with rfl | rfl <;> exact not_false
  · rcases ends with rfl | rfl <;> trivial

theorem Serving.abandon (inv : Serving decode v) {n : Nat} (found : v.coroutines[id]? = some co)
    (busy : co.phase.Busy) :
    Serving decode { v with
      coroutines := v.coroutines.set id { co with phase := .raised }
      lock := release v.lock id
      links := v.links.modify k fun link => (link.1, link.2.drop n) } :=
  inv.inside found busy rfl rfl (fun still => absurd still not_false) trivial

/-- The broker answers: the response comes behind whatever is on that connection, and where a call
waits there is nothing. -/
theorem Serving.answer (inv : Serving decode v) {place : Nat} {link : List Command × Bytes}
    {request : Command} {body : Body} {payload bytes : Bytes} (joined : v.links[k]? = some link)
    (owed : link.1[place]? = some request)
    (encoded : encodeFrame ⟨⟨request.correlationId, some body⟩, payload⟩ = .ok bytes)
    (inverse : decode (Command.encode ⟨request.correlationId, some body⟩) =
      some ⟨request.correlationId, some body⟩) :
    Serving decode { v with
      links := v.links.modify k fun link => (link.1.eraseIdx place, link.2 ++ bytes)
      responses := v.responses ++ [(⟨request.correlationId, some body⟩, payload)] } := by
  obtain ⟨content, layout, small, parsed⟩ := response_layout encoded inverse
  have unowed : ∀ stream, v.links[k]? ≠ some ([], stream) := by
    intro stream empty
    cases Option.some.inj (joined.symm.trans empty)
    cases owed
  have grown : v.responses ⊆ v.responses ++ [(⟨request.correlationId, some body⟩, payload)] :=
    fun _ member => List.mem_append_left _ member
  have elsewhere : ∀ (k' : Nat) stream, v.links[k']? = some ([], stream) →
      (v.links.modify k fun link => (link.1.eraseIdx place, link.2 ++ bytes))[k']? =
        some ([], stream) := by
    intro k' stream found
    rw [Slots.modify_other, found]
    rintro rfl
    exact unowed stream found
  refine ⟨inv.holder, fun found => (inv.served found).mono elsewhere (fun k' here => ?_)
    (fun _ => .inl) grown⟩
  rcases here with clean | ⟨sole, waits, named⟩ | ⟨content, sent, small, carried⟩
  · exact .inl (elsewhere _ _ clean)
  · by_cases here : k' = k
    · subst here
      cases Option.some.inj (joined.symm.trans waits)
      have first : place = 0 ∧ sole = request := by
        cases place with
        | zero => exact ⟨rfl, Option.some.inj owed⟩
        | succ place => cases owed
      obtain ⟨rfl, rfl⟩ := first
      refine .inr (.inr ⟨content, ?_, small, _, ?_, named, parsed⟩)
      · rw [Slots.modify_self waits, layout]
        rfl
      · exact List.mem_append_right _ (List.mem_singleton_self _)
    · refine .inr (.inl ⟨sole, ?_, named⟩)
      rw [Slots.modify_other here, waits]
  · exact .inr (.inr ⟨content, elsewhere _ _ sent, small, carried.grown grown⟩)

theorem Serving.forget (inv : Serving decode v) : Serving decode { v with socket := none } := by
  refine ⟨inv.holder, fun found => (inv.served found).kept (fun _ _ found => found) ?_ fun _ => id⟩
  rintro k ⟨⟩

end Steps

section Numbering

def cids (cmds : List Command) : List Nat := cmds.map fun cmd => cmd.correlationId.toNat

def ids (links : List (List Command × Bytes)) (responses : List (Command × Bytes)) : List Nat :=
  (links.map fun link => cids link.1).flatten ++ cids (responses.map Prod.fst)

structure Numbered (v : Exchange) : Prop where
  joined : ∀ {k : Nat}, v.socket = some k → k < v.links.length
  positive : 0 < v.next
  below : ∀ {id : Nat} {co : Coroutine}, v.coroutines[id]? = some co → co.correlationId < v.next
  taken : ∀ {id : Nat} {co : Coroutine}, v.coroutines[id]? = some co → co.phase = .waiting →
    0 < co.correlationId
  distinct : ∀ {i j : Nat} {a b : Coroutine}, v.coroutines[i]? = some a → v.coroutines[j]? = some b →
    0 < a.correlationId → a.correlationId = b.correlationId → i = j
  once : ∀ n, (ids v.links v.responses).count n ≤ 1
  written : ∀ n ∈ ids v.links v.responses, ∃ (id : Nat) (co : Coroutine), v.coroutines[id]? = some co ∧
    co.correlationId = n ∧ co.phase ≠ .opening ∧ co.phase ≠ .waiting

variable {id k : Nat} {phase : Phase}

/-- A call moves on; at most its own id is new on the wire. -/
theorem Numbered.moved (inv : Numbered v) (found : v.coroutines[id]? = some co)
    (table : w.coroutines = v.coroutines.set id { co with phase }) (next : w.next = v.next)
    (socket : w.socket = v.socket) (links : w.links.length = v.links.length)
    (past : phase ≠ .opening ∧ phase ≠ .waiting) (once : ∀ n, (ids w.links w.responses).count n ≤ 1)
    (wire : ∀ n ∈ ids w.links w.responses, n ∈ ids v.links v.responses ∨ n = co.correlationId) : Numbered w := by
  have own : w.coroutines[id]? = some { co with phase } := by rw [table, Slots.set_self found]
  have before : ∀ {j : Nat} {other}, w.coroutines[j]? = some other →
      ∃ old, v.coroutines[j]? = some old ∧ old.correlationId = other.correlationId := by
    intro j other here
    rw [table] at here
    rcases Slots.set_cases here with ⟨rfl, rfl⟩ | ⟨_, old⟩
    · exact ⟨co, found, rfl⟩
    · exact ⟨other, old, rfl⟩
  constructor
  · intro k current
    rw [links]
    exact inv.joined (socket ▸ current)
  · exact next ▸ inv.positive
  · intro j other here
    obtain ⟨old, there, same⟩ := before here
    rw [next, ← same]
    exact inv.below there
  · intro j other here waiting
    rw [table] at here
    rcases Slots.set_cases here with ⟨rfl, rfl⟩ | ⟨_, old⟩
    · exact absurd waiting past.2
    · exact inv.taken old waiting
  · intro i j a b left right positive same
    obtain ⟨oldA, thereA, sameA⟩ := before left
    obtain ⟨oldB, thereB, sameB⟩ := before right
    exact inv.distinct thereA thereB (by omega) (by omega)
  · exact once
  · intro n member
    rcases wire n member with old | rfl
    · obtain ⟨j, other, here, named, past'⟩ := inv.written n old
      by_cases same : j = id
      · subst same
        cases Option.some.inj (found.symm.trans here)
        exact ⟨j, _, own, named, past⟩
      · refine ⟨j, other, ?_, named, past'⟩
        rw [table, Slots.set_other same, here]
    · exact ⟨id, _, own, rfl, past⟩

variable {links : List (List Command × Bytes)} {responses : List (Command × Bytes)}
  {link : List Command × Bytes}

/-- Reading moves no ids. -/
theorem ids_read (n : Nat) :
    ids (links.modify k fun link => (link.1, link.2.drop n)) responses = ids links responses := by
  have same : ∀ link : List Command × Bytes, cids (link.1, link.2.drop n).1 = id (cids link.1) :=
    fun _ => rfl
  rw [ids, Slots.map_modify same, List.modify_id, ids]

/-- A new connection owes nothing. -/
theorem ids_join : ids (links ++ [([], [])]) responses = ids links responses := by
  simp [ids, cids]

theorem count_modify (responses : List (Command × Bytes)) (g : List Nat → List Nat)
    {f : List Command × Bytes → List Command × Bytes}
    (same : ∀ link, cids (f link).1 = g (cids link.1)) (joined : links[k]? = some link) (n : Nat) :
    (ids (links.modify k f) responses).count n + (cids link.1).count n =
      (ids links responses).count n + (g (cids link.1)).count n := by
  have found : (links.map fun link => cids link.1)[k]? = some (cids link.1) :=
    Slots.map_found joined
  have counted := @Slots.count_flatten_modify _ k _ _ _ g found n
  rw [ids, ids, Slots.map_modify same, List.count_append, List.count_append]
  omega

theorem count_write {cmd : Command} (joined : links[k]? = some link) (n : Nat) :
    (ids (links.modify k fun link => (link.1 ++ [cmd], link.2)) responses).count n =
      (ids links responses).count n + [cmd.correlationId.toNat].count n := by
  have same : ∀ link : List Command × Bytes,
      cids (link.1 ++ [cmd], link.2).1 = cids link.1 ++ [cmd.correlationId.toNat] :=
    fun _ => List.map_append
  have counted := count_modify responses (· ++ [cmd.correlationId.toNat]) same joined n
  rw [List.count_append] at counted
  omega

/-- An answer moves one id from the requests to the responses. -/
theorem count_answer {place : Nat} {request : Command} {body : Body} {payload bytes : Bytes}
    (joined : links[k]? = some link) (waits : link.1[place]? = some request) (n : Nat) :
    (ids (links.modify k fun link => (link.1.eraseIdx place, link.2 ++ bytes))
      (responses ++ [(⟨request.correlationId, some body⟩, payload)])).count n =
      (ids links responses).count n := by
  have same : ∀ link : List Command × Bytes,
      cids (link.1.eraseIdx place, link.2 ++ bytes).1 = (cids link.1).eraseIdx place :=
    fun _ => (List.eraseIdx_map _ _ _).symm
  have counted := count_modify responses (·.eraseIdx place) same joined n
  obtain ⟨inside, here⟩ := List.getElem?_eq_some_iff.mp waits
  have perm : (request :: link.1.eraseIdx place).Perm link.1 :=
    here ▸ List.getElem_cons_eraseIdx_perm inside
  have moved : (request.correlationId.toNat :: (cids link.1).eraseIdx place).count n =
      (cids link.1).count n := by
    rw [cids, List.eraseIdx_map]
    exact (perm.map fun cmd => cmd.correlationId.toNat).count_eq n
  have tail : (ids (links.modify k fun link => (link.1.eraseIdx place, link.2 ++ bytes))
      (responses ++ [(⟨request.correlationId, some body⟩, payload)])).count n =
      (ids (links.modify k fun link => (link.1.eraseIdx place, link.2 ++ bytes)) responses).count n +
        [request.correlationId.toNat].count n := by
    rw [ids, ids, cids, cids, List.map_append, List.map_append, ← List.append_assoc,
      List.count_append]
    rfl
  rw [← List.singleton_append, List.count_append] at moved
  omega

theorem Numbered.read (inv : Numbered v) {lock : Option Nat} {n : Nat}
    (found : v.coroutines[id]? = some co) (past : phase ≠ .opening ∧ phase ≠ .waiting) :
    Numbered { v with
      lock := lock
      coroutines := v.coroutines.set id { co with phase }
      links := v.links.modify k fun link => (link.1, link.2.drop n) } := by
  refine inv.moved found rfl rfl rfl (List.length_modify _ _ _) past ?_ fun m member => ?_
  · simpa only [ids_read] using inv.once
  · exact .inl (ids_read n ▸ member)

/-- A call that waits has not put its id anywhere. -/
theorem Numbered.unwritten (inv : Numbered v) (found : v.coroutines[id]? = some co)
    (waiting : co.phase = .waiting) : co.correlationId ∉ ids v.links v.responses := by
  intro member
  obtain ⟨j, other, here, same, _, past⟩ := inv.written _ member
  have positive := inv.taken found waiting
  have one := inv.distinct here found (by omega) same
  subst one
  cases Option.some.inj (found.symm.trans here)
  exact past waiting

theorem Numbered.enter (inv : Numbered v) {n : Nat}
    (shape : co.correlationId = 0 ∧ co.phase = .opening ∧ n = v.next ∨
      co.correlationId = v.next ∧ (co.phase = .waiting ∨ co.phase = .raised) ∧ n = v.next + 1) :
    Numbered { v with next := n, coroutines := v.coroutines ++ [co] } := by
  have positive := inv.positive
  have later : co.correlationId < n ∧ v.next ≤ n := by
    rcases shape with ⟨none, _, same⟩ | ⟨named, _, same⟩ <;> omega
  have unnamed : co.correlationId = 0 ∨ co.correlationId = v.next := shape.imp (·.1) (·.1)
  constructor
  · exact inv.joined
  · exact Nat.lt_of_lt_of_le positive later.2
  · intro j other here
    rcases Slots.append_cases here with ⟨_, rfl⟩ | old
    · exact later.1
    · exact Nat.lt_of_lt_of_le (inv.below old) later.2
  · intro j other here waiting
    rcases Slots.append_cases here with ⟨_, rfl⟩ | old
    · rcases shape with ⟨_, opening, _⟩ | ⟨named, _, _⟩
      · rw [opening] at waiting
        cases waiting
      · omega
    · exact inv.taken old waiting
  · intro i j a b left right numbered same
    rcases Slots.append_cases left with ⟨rfl, rfl⟩ | oldA <;>
      rcases Slots.append_cases right with ⟨rfl, rfl⟩ | oldB
    · rfl
    · have := inv.below oldB
      omega
    · have := inv.below oldA
      omega
    · exact inv.distinct oldA oldB numbered same
  · exact inv.once
  · intro n member
    obtain ⟨j, other, here, rest⟩ := inv.written n member
    exact ⟨j, other, Slots.append_old here, rest⟩

theorem Numbered.number (inv : Numbered v) {lock : Option Nat}
    (found : v.coroutines[id]? = some co) (opening : co.phase = .opening) :
    Numbered { v with
      next := v.next + 1
      socket := some v.links.length
      lock := lock
      coroutines := v.coroutines.set id { co with correlationId := v.next, phase }
      links := v.links ++ [([], [])] } := by
  have positive := inv.positive
  constructor
  · intro k current
    cases current
    simp only [List.length_append, List.length_cons, List.length_nil]
    omega
  · exact Nat.succ_pos _
  · intro j other here
    rcases Slots.set_cases here with ⟨_, rfl⟩ | ⟨_, old⟩
    · exact Nat.lt_succ_self _
    · exact Nat.lt_succ_of_lt (inv.below old)
  · intro j other here waiting
    rcases Slots.set_cases here with ⟨_, rfl⟩ | ⟨_, old⟩
    · exact positive
    · exact inv.taken old waiting
  · intro i j a b left right numbered same
    rcases Slots.set_cases left with ⟨rfl, rfl⟩ | ⟨_, oldA⟩ <;>
      rcases Slots.set_cases right with ⟨rfl, rfl⟩ | ⟨_, oldB⟩
    · rfl
    · exact absurd same (Nat.ne_of_gt (inv.below oldB))
    · exact absurd same (Nat.ne_of_lt (inv.below oldA))
    · exact inv.distinct oldA oldB numbered same
  · simpa only [ids_join] using inv.once
  · intro n member
    obtain ⟨j, other, here, named, past⟩ := inv.written n (ids_join ▸ member)
    have different : j ≠ id := by
      rintro rfl
      cases Option.some.inj (found.symm.trans here)
      exact past.1 opening
    exact ⟨j, other, (Slots.set_other different).trans here, named, past⟩

theorem Numbered.write (inv : Numbered v) {cmd : Command} (found : v.coroutines[id]? = some co)
    (waiting : co.phase = .waiting) (here : v.socket = some k)
    (numbered : cmd.correlationId.toNat = co.correlationId) :
    Numbered { v with
      lock := some id
      coroutines := v.coroutines.set id { co with phase := .draining k }
      links := v.links.modify k fun link => (link.1 ++ [cmd], link.2) } := by
  have joined := List.getElem?_eq_getElem (inv.joined here)
  have absent := List.count_eq_zero.mpr (inv.unwritten found waiting)
  refine inv.moved found rfl rfl rfl (List.length_modify _ _ _) (by simp) (fun n => ?_) fun n member => ?_
  · have counted := @count_write _ _ v.responses _ cmd joined n
    have before := inv.once n
    by_cases own : n = co.correlationId
    · subst own
      rw [counted, absent, numbered]
      simp
    · rw [counted, List.count_singleton, if_neg (by simpa [numbered] using Ne.symm own)]
      exact before
  · have positive := List.count_pos_iff.mpr member
    rw [@count_write _ _ v.responses _ cmd joined n, numbered, List.count_singleton] at positive
    by_cases own : n = co.correlationId
    · exact .inr own
    · rw [if_neg (by simpa using Ne.symm own)] at positive
      exact .inl (List.count_pos_iff.mp positive)

theorem Numbered.answer (inv : Numbered v) {place : Nat} {link : List Command × Bytes}
    {request : Command} {body : Body} {payload bytes : Bytes} (joined : v.links[k]? = some link)
    (waits : link.1[place]? = some request) :
    Numbered { v with
      links := v.links.modify k fun link => (link.1.eraseIdx place, link.2 ++ bytes)
      responses := v.responses ++ [(⟨request.correlationId, some body⟩, payload)] } := by
  have counted := @count_answer _ _ v.responses _ _ _ body payload bytes joined waits
  refine ⟨fun current => ?_, inv.positive, inv.below, inv.taken, inv.distinct, fun n => ?_,
    fun n member => inv.written n ?_⟩
  · rw [List.length_modify]
    exact inv.joined current
  · rw [counted]
    exact inv.once n
  · have positive := List.count_pos_iff.mpr member
    rw [counted] at positive
    exact List.count_pos_iff.mp positive

theorem Numbered.forget (inv : Numbered v) : Numbered { v with socket := none } := by
  refine ⟨fun current => ?_, inv.positive, inv.below, inv.taken, inv.distinct, inv.once, inv.written⟩
  cases current

/-- Two responses under one id are one. -/
theorem Numbered.unique (inv : Numbered v) {resp other : Command × Bytes}
    (member : resp ∈ v.responses) (member' : other ∈ v.responses)
    (same : other.1.correlationId.toNat = resp.1.correlationId.toNat) : other = resp := by
  have nodup : (cids (v.responses.map Prod.fst)).Nodup :=
    (List.nodup_append.mp (List.nodup_iff_count_le_one.mpr inv.once)).2.1
  rw [cids, List.map_map] at nodup
  exact List.inj_on_of_nodup_map nodup member' member same

end Numbering

section Runs

variable {s next : State} {action : Action}

structure Kept (decode : Bytes → Option Command) (v : Exchange) : Prop where
  serving : Serving decode v
  numbered : Numbered v

theorem Kept.initial : Kept decode fresh.exchange := by
  have empty : ∀ {id : Nat} {co : Coroutine}, ¬ fresh.exchange.coroutines[id]? = some co := by
    intro id co found
    cases found
  constructor
  · exact ⟨fun found => absurd found empty, fun found => absurd found empty⟩
  · refine ⟨fun current => ?_, Nat.one_pos, fun found => absurd found empty,
      fun found => absurd found empty, fun found => absurd found empty, fun _ => Nat.zero_le _,
      fun _ member => absurd member List.not_mem_nil⟩
    cases current

theorem Kept.effect (inv : Kept decode v) (effect : Effect decode v action w)
    (clear : ∀ id k link, action = .acquire id → v.socket = some k → v.links[k]? = some link →
      link = ([], []))
    (reads : ∀ k place body payload link request, action = .answer k place body payload →
      v.links[k]? = some link → link.1[place]? = some request →
      decode (Command.encode ⟨request.correlationId, some body⟩) =
        some ⟨request.correlationId, some body⟩) : Kept decode w := by
  obtain ⟨serving, numbered⟩ := inv
  cases effect with
  | enter shape =>
    refine ⟨serving.enter ?_, numbered.enter shape⟩
    rcases shape with ⟨_, opening, _⟩ | ⟨_, later, _⟩
    · exact .inl opening
    · exact .inr later
  | number found opening outcome => exact ⟨serving.number outcome, numbered.number found opening⟩
  | write found waiting free here named =>
    exact ⟨serving.write free here named (fun link => clear _ _ link rfl here) (numbered.joined here),
      numbered.write found waiting here named⟩
  | drain found draining here =>
    exact ⟨serving.drain found draining here,
      numbered.moved found rfl rfl rfl rfl (by simp) numbered.once fun _ => .inl⟩
  | measure found reading joined enough here =>
    exact ⟨serving.measure found reading joined enough here, numbered.read found (by simp)⟩
  | finish found reading joined parsed accepted =>
    exact ⟨serving.finish found reading joined parsed accepted, numbered.read found (by simp)⟩
  | stop found running ends =>
    refine ⟨serving.stop ends,
      numbered.moved found rfl rfl rfl rfl ?_ numbered.once fun _ => .inl⟩
    rcases ends with rfl | rfl <;> simp
  | abandon found busy => exact ⟨serving.abandon found busy, numbered.read found (by simp)⟩
  | answer joined waits encoded =>
    exact ⟨serving.answer joined waits encoded (reads _ _ _ _ _ _ rfl joined waits),
      numbered.answer joined waits⟩
  | forget => exact ⟨serving.forget, numbered.forget⟩
  | same => exact ⟨serving, numbered⟩

theorem Kept.step (inv : Kept decode s.exchange) (reads : ReadsBack decode s action)
    (clear : Clear s action) (taken : step decode action s = some next) :
    Kept decode next.exchange := by
  have socket_of : ∀ {k : Nat} {link}, s.exchange.links[k]? = some link →
      ∃ socket, s.sockets[k]? = some socket ∧ socket.link = link := by
    intro k link joined
    rw [State.exchange, List.getElem?_map] at joined
    exact Option.map_eq_some_iff.mp joined
  refine inv.effect (step_effect taken) ?_ ?_
  · rintro id k link rfl here joined
    obtain ⟨socket, found, rfl⟩ := socket_of joined
    obtain ⟨unowed, read⟩ := clear socket (Option.bind_eq_some_iff.mpr ⟨k, here, found⟩)
    rw [Socket.link, unowed, read]
  · rintro k place body payload link request rfl joined waits
    obtain ⟨socket, found, rfl⟩ := socket_of joined
    exact reads request (Option.bind_eq_some_iff.mpr ⟨socket, found, waits⟩)

theorem Kept.paired (inv : Kept decode s.exchange) : Paired s := by
  intro co member result phase
  obtain ⟨id, found⟩ := List.mem_iff_getElem?.mp member
  have served := inv.serving.served found
  rw [phase] at served
  obtain ⟨resp, sent, named, content⟩ := served
  refine ⟨resp, sent, named, content, fun other sent' named' => ?_⟩
  exact inv.numbered.unique sent sent' (named'.trans named.symm)

/-- Cancelled or not, calls whose round trips all start on clear connections get their own
responses. -/
theorem paired_along {schedule : List Action}
    (reads : (machine decode).Along (ReadsBack decode) schedule fresh)
    (clear : (machine decode).Along Clear schedule fresh)
    (ran : (machine decode).execute schedule fresh = some s) : Paired s := by
  have along := reads.and clear
  have kept := @Machine.execute_invariant _ _ (machine decode)
    (fun s action => ReadsBack decode s action ∧ Clear s action) (fun s => Kept decode s.exchange)
    (fun _ _ _ inv meets taken => inv.step meets.1 meets.2 taken) _ _ _ Kept.initial along ran
  exact kept.paired

def decodeAmong (commands : List Command) (bytes : Bytes) : Option Command :=
  commands.find? (·.encode = bytes)

def roundtrip (id : Nat) (answers : List Action) : List Action :=
  [.acquire id, .drained id] ++ answers ++ [.readSize id, .readBody id]

/-- A call is cancelled in the middle of its round trip, and the client connects anew. -/
def reconnected : List Action :=
  [.begin (.connect "c"), .opened 0] ++ roundtrip 0 [.answer 0 0 (.connected ⟨1, "b", "k"⟩) []] ++
  [.begin .listTopics, .acquire 1, .drained 1, .cancel 1, .begin (.connect "c"), .opened 2] ++
  roundtrip 2 [.answer 1 0 (.connected ⟨1, "b", "k"⟩) []] ++
  [.begin .listTopics] ++ roundtrip 3 [.answer 1 0 (.listTopicsResp ["a"]) []]

def reconnectedReplies : List Command :=
  [⟨1, some (.connected ⟨1, "b", "k"⟩)⟩, ⟨3, some (.connected ⟨1, "b", "k"⟩)⟩,
    ⟨4, some (.listTopicsResp ["a"])⟩]

theorem paired_along_reconnected : ∃ s,
    (machine (decodeAmong reconnectedReplies)).execute reconnected fresh = some s ∧ Paired s ∧
      s.coroutines[3]?.map (·.phase) = some (.returned (.topics ["a"])) := by
  have ends : ((machine (decodeAmong reconnectedReplies)).execute reconnected fresh).map
      (fun s => s.coroutines[3]?.map (·.phase)) = some (some (.returned (.topics ["a"]))) := by
    decide +kernel
  obtain ⟨s, ran, phase⟩ := Option.map_eq_some_iff.mp ends
  exact ⟨s, ran, paired_along (by decide +kernel) (by decide +kernel) ran, phase⟩

/-- A call is cancelled in the middle of its round trip, and the next one starts on the same
connection. -/
def stale : List Action :=
  [.begin (.connect "c"), .opened 0] ++ roundtrip 0 [.answer 0 0 (.connected ⟨1, "b", "k"⟩) []] ++
  [.begin .listTopics, .acquire 1, .drained 1, .cancel 1, .begin .listTopics] ++
  roundtrip 2 [.answer 0 0 (.listTopicsResp ["a"]) [], .answer 0 0 (.listTopicsResp ["b"]) []]

def staleReplies : List Command :=
  [⟨1, some (.connected ⟨1, "b", "k"⟩)⟩, ⟨2, some (.listTopicsResp ["a"])⟩,
    ⟨3, some (.listTopicsResp ["b"])⟩]

/-- The second call returns what was sent to the one that was cancelled. -/
theorem stale_unpaired : ∃ s,
    (machine (decodeAmong staleReplies)).Along (ReadsBack (decodeAmong staleReplies)) stale fresh ∧
      (machine (decodeAmong staleReplies)).execute stale fresh = some s ∧ ¬ Paired s := by
  have ends : ((machine (decodeAmong staleReplies)).execute stale fresh).map (fun s =>
      (s.coroutines[2]?.map fun co => (co.call, co.correlationId, co.phase), s.responses)) =
      some (some (.listTopics, 3, .returned (.topics ["a"])), staleReplies.map (·, [])) := by
    decide +kernel
  obtain ⟨s, ran, same⟩ := Option.map_eq_some_iff.mp ends
  obtain ⟨last, responses⟩ := Prod.mk.inj same
  obtain ⟨co, found, shape⟩ := Option.map_eq_some_iff.mp last
  obtain ⟨rfl⟩ : co = ⟨.listTopics, 3, .returned (.topics ["a"])⟩ := by
    cases co
    cases shape
    rfl
  refine ⟨s, by decide +kernel, ran, fun paired => ?_⟩
  obtain ⟨resp, sent, named, content, _⟩ := paired _ (List.mem_of_getElem? found) _ rfl
  rw [responses] at sent
  have foreign : ∀ resp ∈ staleReplies.map fun reply => (reply, ([] : Bytes)),
      resp.1.correlationId.toNat = 3 →
        Call.finish .listTopics resp.1 resp.2 ≠ .ok (.topics ["a"]) := by
    decide +kernel
  exact foreign resp sent named content

end Runs

end Kafkrs.Pairing
