import Kafkrs.FrameStream
import Kafkrs.Lib.Machine
import Kafkrs.Lib.Slots

/-! One Python client and the sockets it opens. Each call is a coroutine that can be cancelled at
any of its awaits; the lock admits one round trip at a time, and every `self._reader` is looked up
where the code looks it up. -/
namespace Kafkrs.Session

open Lib Wal Wire Client

/-- A TCP connection: the requests not yet answered and the bytes sent back and not yet read. -/
structure Socket where
  requests : List Command
  stream : Bytes
  closed : Bool

/-- Where a call is. A socket is named by its place among those opened. -/
inductive Phase where
  /-- In `asyncio.open_connection`. -/
  | opening
  | waiting
  | draining (socket : Nat)
  | readingSize (socket : Nat)
  | readingBody (socket size : Nat)
  | returned (result : Returned)
  | raised
  | cancelled
  deriving DecidableEq

/-- The correlation id is 0 until the call takes one. -/
structure Coroutine where
  call : Call
  correlationId : Nat
  phase : Phase

/-- `socket` is that of `_reader` and `_writer`; `closing` counts the calls of `close` that wait for
the transport. The responses are kept only to speak about them. -/
structure State where
  nextCorrelationId : Nat
  socket : Option Nat
  lock : Option Nat
  closing : Nat
  coroutines : List Coroutine
  sockets : List Socket
  responses : List (Command × Bytes)

inductive Action where
  | begin (call : Call)
  | opened (id : Nat)
  | acquire (id : Nat)
  | drained (id : Nat)
  | readSize (id : Nat)
  | readBody (id : Nat)
  | cancel (id : Nat)
  /-- The connection is refused or lost, and an await of the call raises. -/
  | fail (id : Nat)
  | close
  | closed
  /-- The broker answers the request in that place. -/
  | answer (socket place : Nat) (body : Body) (payload : Bytes)
  | hangUp (socket : Nat)

def fresh : State := ⟨1, none, none, 0, [], [], []⟩

/-- The command a call builds and its payload. Setting a field to what it cannot hold raises. -/
def command (call : Call) (correlationId : Nat) : Option (Command × Bytes) := do
  let cid ← uint64Field correlationId
  let (body, payload) ← call.request
  return (⟨cid, some body⟩, payload)

def Phase.finished : Phase → Bool
  | .returned _ | .raised | .cancelled => true
  | _ => false

namespace State

def close (s : State) : State :=
  match s.socket with
  | none => s
  | some k =>
    { s with
      sockets := s.sockets.modify k fun socket => { socket with closed := true }
      closing := s.closing + 1 }

def leave (s : State) (id : Nat) (co : Coroutine) (phase : Phase) : State :=
  { s with
    coroutines := s.coroutines.set id { co with phase }
    lock := if s.lock = some id then none else s.lock }

def raise (s : State) (id : Nat) (co : Coroutine) (phase : Phase) : State :=
  match co.call with
  | .connect _ => (s.leave id co phase).close
  | _ => s.leave id co phase

def move (s : State) (id : Nat) (co : Coroutine) (phase : Phase) : State :=
  { s with coroutines := s.coroutines.set id { co with phase } }

def consume (s : State) (k n : Nat) : State :=
  { s with sockets := s.sockets.modify k fun socket => { socket with stream := socket.stream.drop n } }

/-- A method is called. All but `connect` take their id at once. -/
def begin (s : State) (call : Call) : State :=
  match call with
  | .connect _ => { s with coroutines := s.coroutines ++ [⟨call, 0, .opening⟩] }
  | _ =>
    let cid := s.nextCorrelationId
    { s with
      nextCorrelationId := cid + 1
      coroutines := s.coroutines ++
        [⟨call, cid, if (command call cid).isSome then .waiting else .raised⟩] }

/-- `connect` has its connection and takes its id. -/
def opened (s : State) (id : Nat) (co : Coroutine) : State :=
  let cid := s.nextCorrelationId
  let s : State := { s with
    nextCorrelationId := cid + 1
    socket := some s.sockets.length
    sockets := s.sockets ++ [⟨[], [], false⟩] }
  if (command co.call cid).isSome then s.move id { co with correlationId := cid } .waiting
  else s.raise id { co with correlationId := cid } .raised

def acquire (s : State) (id : Nat) (co : Coroutine) : Option State :=
  match s.socket with
  | none => some (s.raise id co .raised)
  | some k =>
    (command co.call co.correlationId).map fun (cmd, payload) =>
      match writeRequest cmd.encode payload with
      | .error _ => s.raise id co .raised
      | .ok _ =>
        { s with
          coroutines := s.coroutines.set id { co with phase := .draining k }
          lock := some id
          sockets := s.sockets.modify k fun socket =>
            { socket with requests := socket.requests ++ [cmd] } }

def read (s : State) (id : Nat) (co : Coroutine) (phase : Nat → Phase) : State :=
  match s.socket with
  | none => s.raise id co .raised
  | some k => s.move id co (phase k)

def finish (decode : Bytes → Option Command) (s : State) (id : Nat) (co : Coroutine)
    (body : Bytes) : State :=
  match parseResponse decode body with
  | none => s.raise id co .raised
  | some (resp, payload) =>
    match co.call.finish resp payload with
    | .error _ => s.raise id co .raised
    | .ok result => s.leave id co (.returned result)

def answer (s : State) (k place : Nat) (body : Body) (payload : Bytes) : Option State := do
  let socket ← s.sockets[k]?.filter (!·.closed)
  let request ← socket.requests[place]?
  let resp : Command := ⟨request.correlationId, some body⟩
  let bytes ← (encodeFrame ⟨resp, payload⟩).toOption
  return { s with
    sockets := s.sockets.modify k fun socket =>
      { socket with requests := socket.requests.eraseIdx place, stream := socket.stream ++ bytes }
    responses := s.responses ++ [(resp, payload)] }

def lost (s : State) (k : Nat) : Bool := s.sockets[k]?.any (·.closed)

end State

section Steps

variable (decode : Bytes → Option Command)

def resume (s : State) (id : Nat) (co : Coroutine) : Action → Option State
  | .opened _ => if co.phase = .opening then some (s.opened id co) else none
  | .acquire _ => if co.phase = .waiting ∧ s.lock = none then s.acquire id co else none
  | .drained _ =>
    match co.phase with
    | .draining _ => some (s.read id co .readingSize)
    | _ => none
  | .readSize _ =>
    match co.phase with
    | .readingSize k =>
      s.sockets[k]?.bind fun socket =>
        if socket.stream.length < 4 then none
        else
          let size := fromBeBytes (slice socket.stream 0 4)
          some ((s.consume k 4).read id co (.readingBody · size))
    | _ => none
  | .readBody _ =>
    match co.phase with
    | .readingBody k size =>
      s.sockets[k]?.bind fun socket =>
        if socket.stream.length < size then none
        else some ((s.consume k size).finish decode id co (slice socket.stream 0 size))
    | _ => none
  | .cancel _ =>
    if co.phase.finished then none
    else if co.phase = .opening then some (s.leave id co .cancelled)
    else some (s.raise id co .cancelled)
  | .fail _ =>
    match co.phase with
    | .opening => some (s.leave id co .raised)
    | .draining k | .readingSize k | .readingBody k _ =>
      if s.lost k then some (s.raise id co .raised) else none
    | _ => none
  | _ => none

def step (action : Action) (s : State) : Option State :=
  match action with
  | .begin call => some (s.begin call)
  | .opened id | .acquire id | .drained id | .readSize id | .readBody id | .cancel id | .fail id =>
    s.coroutines[id]?.bind fun co => resume decode s id co action
  | .close => some s.close
  | .closed =>
    if s.closing = 0 then none else some { s with socket := none, closing := s.closing - 1 }
  | .answer k place body payload => s.answer k place body payload
  | .hangUp k =>
    some { s with sockets := s.sockets.modify k fun socket => { socket with closed := true } }

def machine : Machine State Action := ⟨fresh, step decode⟩

end Steps

/-- What is said about a run: who holds the lock, where each call is, and for each socket the requests
owed an answer and the bytes to read. -/
structure Exchange where
  next : Nat
  socket : Option Nat
  lock : Option Nat
  coroutines : List Coroutine
  links : List (List Command × Bytes)
  responses : List (Command × Bytes)

def Socket.link (socket : Socket) : List Command × Bytes := (socket.requests, socket.stream)

def State.exchange (s : State) : Exchange :=
  ⟨s.nextCorrelationId, s.socket, s.lock, s.coroutines, s.sockets.map Socket.link, s.responses⟩

def release (lock : Option Nat) (id : Nat) : Option Nat := if lock = some id then none else lock

section Views

variable (s : State) (id : Nat) (co : Coroutine) (phase : Phase)

theorem links_closed (sockets : List Socket) (k : Nat) :
    (sockets.modify k fun socket => { socket with closed := true }).map Socket.link =
      sockets.map Socket.link := by
  have same : ∀ socket : Socket, { socket with closed := true }.link = id socket.link := fun _ => rfl
  rw [Slots.map_modify same, List.modify_id]

@[simp] theorem exchange_close : s.close.exchange = s.exchange := by
  unfold State.close
  split
  · rfl
  · simp only [State.exchange, links_closed]

@[simp] theorem exchange_leave : (s.leave id co phase).exchange =
    { s.exchange with
      coroutines := s.coroutines.set id { co with phase }
      lock := release s.lock id } := rfl

@[simp] theorem exchange_move : (s.move id co phase).exchange =
    { s.exchange with coroutines := s.coroutines.set id { co with phase } } := rfl

@[simp] theorem exchange_raise : (s.raise id co phase).exchange = (s.leave id co phase).exchange := by
  unfold State.raise
  split
  · exact exchange_close _
  · rfl

theorem exchange_consume (k n : Nat) : (s.consume k n).exchange =
    { s.exchange with links := s.exchange.links.modify k fun link => (link.1, link.2.drop n) } := by
  have links : (s.sockets.modify k fun socket => { socket with stream := socket.stream.drop n }).map
      Socket.link = (s.sockets.map Socket.link).modify k fun link => (link.1, link.2.drop n) :=
    Slots.map_modify fun _ => rfl
  simp only [State.exchange, State.consume, links]

end Views

def Phase.Busy : Phase → Prop
  | .draining _ | .readingSize _ | .readingBody .. => True
  | _ => False

/-- All that a step can do to an exchange. -/
inductive Effect (decode : Bytes → Option Command) (v : Exchange) : Action → Exchange → Prop
  | enter {call : Call} {co : Coroutine} {n : Nat}
      (shape : co.correlationId = 0 ∧ co.phase = .opening ∧ n = v.next ∨
        co.correlationId = v.next ∧ (co.phase = .waiting ∨ co.phase = .raised) ∧ n = v.next + 1) :
      Effect decode v (.begin call) { v with next := n, coroutines := v.coroutines ++ [co] }
  | number {id : Nat} {co : Coroutine} {phase : Phase} {lock : Option Nat}
      (found : v.coroutines[id]? = some co) (opening : co.phase = .opening)
      (outcome : phase = .waiting ∧ lock = v.lock ∨ phase = .raised ∧ lock = release v.lock id) :
      Effect decode v (.opened id) { v with
        next := v.next + 1
        socket := some v.links.length
        lock := lock
        coroutines := v.coroutines.set id { co with correlationId := v.next, phase }
        links := v.links ++ [([], [])] }
  | write {id k : Nat} {co : Coroutine} {cmd : Command} (found : v.coroutines[id]? = some co)
      (waiting : co.phase = .waiting) (free : v.lock = none) (here : v.socket = some k)
      (numbered : cmd.correlationId.toNat = co.correlationId) :
      Effect decode v (.acquire id) { v with
        lock := some id
        coroutines := v.coroutines.set id { co with phase := .draining k }
        links := v.links.modify k fun link => (link.1 ++ [cmd], link.2) }
  | drain {id k k' : Nat} {co : Coroutine} (found : v.coroutines[id]? = some co)
      (draining : co.phase = .draining k) (here : v.socket = some k') :
      Effect decode v (.drained id) { v with
        coroutines := v.coroutines.set id { co with phase := .readingSize k' } }
  | measure {id k k' : Nat} {co : Coroutine} {link : List Command × Bytes}
      (found : v.coroutines[id]? = some co) (reading : co.phase = .readingSize k)
      (joined : v.links[k]? = some link) (enough : 4 ≤ link.2.length) (here : v.socket = some k') :
      Effect decode v (.readSize id) { v with
        coroutines := v.coroutines.set id
          { co with phase := .readingBody k' (fromBeBytes (slice link.2 0 4)) }
        links := v.links.modify k fun link => (link.1, link.2.drop 4) }
  | finish {id k size : Nat} {co : Coroutine} {link : List Command × Bytes} {resp : Command × Bytes}
      {result : Returned} (found : v.coroutines[id]? = some co)
      (reading : co.phase = .readingBody k size) (joined : v.links[k]? = some link)
      (parsed : parseResponse decode (slice link.2 0 size) = some resp)
      (accepted : co.call.finish resp.1 resp.2 = .ok result) :
      Effect decode v (.readBody id) { v with
        coroutines := v.coroutines.set id { co with phase := .returned result }
        lock := release v.lock id
        links := v.links.modify k fun link => (link.1, link.2.drop size) }
  | stop {action : Action} {id : Nat} {co : Coroutine} {phase : Phase}
      (found : v.coroutines[id]? = some co) (running : co.phase.finished = false)
      (ends : phase = .raised ∨ phase = .cancelled) :
      Effect decode v action { v with
        coroutines := v.coroutines.set id { co with phase }
        lock := release v.lock id }
  | abandon {action : Action} {id k n : Nat} {co : Coroutine} (found : v.coroutines[id]? = some co)
      (busy : co.phase.Busy) :
      Effect decode v action { v with
        coroutines := v.coroutines.set id { co with phase := .raised }
        lock := release v.lock id
        links := v.links.modify k fun link => (link.1, link.2.drop n) }
  | answer {k place : Nat} {link : List Command × Bytes} {request : Command} {body : Body}
      {payload bytes : Bytes} (joined : v.links[k]? = some link)
      (owed : link.1[place]? = some request)
      (encoded : encodeFrame ⟨⟨request.correlationId, some body⟩, payload⟩ = .ok bytes) :
      Effect decode v (.answer k place body payload) { v with
        links := v.links.modify k fun link => (link.1.eraseIdx place, link.2 ++ bytes)
        responses := v.responses ++ [(⟨request.correlationId, some body⟩, payload)] }
  | forget {action : Action} : Effect decode v action { v with socket := none }
  | same {action : Action} : Effect decode v action v

section Inversion

variable {decode : Bytes → Option Command} {s next : State} {id : Nat} {co : Coroutine}

theorem command_id {call : Call} {n : Nat} {cmd : Command} {payload : Bytes}
    (built : command call n = some (cmd, payload)) : cmd.correlationId.toNat = n := by
  simp only [command, Option.bind_eq_bind, Option.bind_eq_some_iff] at built
  obtain ⟨cid, fits, request, _, same⟩ := built
  have kept : cid = cmd.correlationId := congrArg (Command.correlationId ·.1) (Option.some.inj same)
  rw [uint64Field] at fits
  split at fits
  next range =>
    have small : n < 2 ^ 64 := by exact_mod_cast range.2
    rw [← kept, ← Option.some.inj fits, Int.toNat_natCast, UInt64.toNat_ofNat', Nat.mod_eq_of_lt small]
  · cases fits

theorem begin_effect (call : Call) :
    Effect decode s.exchange (.begin call) (s.begin call).exchange := by
  unfold State.begin
  split
  · exact .enter (.inl ⟨rfl, rfl, rfl⟩)
  · refine .enter (.inr ⟨rfl, ?_, rfl⟩)
    split
    · exact .inl rfl
    · exact .inr rfl

theorem opened_effect (found : s.coroutines[id]? = some co)
    (resumed : resume decode s id co (.opened id) = some next) :
    Effect decode s.exchange (.opened id) next.exchange := by
  obtain ⟨opening, same⟩ := Option.ite_none_right_eq_some.mp resumed
  rw [← Option.some.inj same]
  have grown : (s.sockets ++ [(⟨[], [], false⟩ : Socket)]).map Socket.link =
      s.sockets.map Socket.link ++ [([], [])] := List.map_append
  have counted : s.exchange.links.length = s.sockets.length := List.length_map _
  simp only [State.opened]
  split
  · have effect : Effect decode s.exchange (.opened id) _ :=
      .number found opening (.inl ⟨rfl, rfl⟩)
    rw [counted] at effect
    simpa only [State.move, State.exchange, grown] using effect
  · have effect : Effect decode s.exchange (.opened id) _ :=
      .number found opening (.inr ⟨rfl, rfl⟩)
    rw [counted] at effect
    rw [exchange_raise, exchange_leave]
    simpa only [State.exchange, grown] using effect

theorem stop_effect {action : Action} {phase : Phase} (found : s.coroutines[id]? = some co)
    (running : co.phase.finished = false) (ends : phase = .raised ∨ phase = .cancelled) :
    Effect decode s.exchange action (s.raise id co phase).exchange := by
  rw [exchange_raise]
  exact .stop found running ends

theorem abandon_effect {action : Action} (k n : Nat) (found : s.coroutines[id]? = some co)
    (busy : co.phase.Busy) :
    Effect decode s.exchange action ((s.consume k n).raise id co .raised).exchange := by
  rw [exchange_raise, exchange_leave, exchange_consume]
  exact .abandon found busy

theorem acquire_effect (found : s.coroutines[id]? = some co)
    (resumed : resume decode s id co (.acquire id) = some next) :
    Effect decode s.exchange (.acquire id) next.exchange := by
  obtain ⟨⟨waiting, free⟩, acquired⟩ := Option.ite_none_right_eq_some.mp resumed
  have running : co.phase.finished = false := by rw [waiting]; rfl
  simp only [State.acquire] at acquired
  split at acquired
  · cases acquired
    exact stop_effect found running (.inl rfl)
  next k here =>
    obtain ⟨⟨cmd, payload⟩, built, written⟩ := Option.map_eq_some_iff.mp acquired
    dsimp only at written
    split at written
    · cases written
      exact stop_effect found running (.inl rfl)
    · cases written
      have links : (s.sockets.modify k fun socket =>
          { socket with requests := socket.requests ++ [cmd] }).map Socket.link =
          (s.sockets.map Socket.link).modify k fun link => (link.1 ++ [cmd], link.2) :=
        Slots.map_modify fun _ => rfl
      have effect : Effect decode s.exchange (.acquire id) _ :=
        .write found waiting free here (command_id built)
      simpa only [State.exchange, links] using effect

theorem drained_effect (found : s.coroutines[id]? = some co)
    (resumed : resume decode s id co (.drained id) = some next) :
    Effect decode s.exchange (.drained id) next.exchange := by
  simp only [resume] at resumed
  split at resumed
  next k draining =>
    rw [← Option.some.inj resumed, State.read]
    split
    · refine stop_effect found ?_ (.inl rfl)
      rw [draining]
      rfl
    next here => exact .drain found draining here
  · cases resumed

theorem link_of {k : Nat} {socket : Socket} (joined : s.sockets[k]? = some socket) :
    s.exchange.links[k]? = some socket.link := Slots.map_found joined

theorem readSize_effect (found : s.coroutines[id]? = some co)
    (resumed : resume decode s id co (.readSize id) = some next) :
    Effect decode s.exchange (.readSize id) next.exchange := by
  simp only [resume] at resumed
  split at resumed
  next k reading =>
    obtain ⟨socket, joined, sized⟩ := Option.bind_eq_some_iff.mp resumed
    obtain ⟨enough, same⟩ := Option.ite_none_left_eq_some.mp sized
    rw [← Option.some.inj same, State.read]
    split
    · refine abandon_effect k 4 found ?_
      rw [reading]
      trivial
    next here =>
      have effect : Effect decode s.exchange (.readSize id) _ :=
        .measure found reading (link_of joined) (Nat.le_of_not_lt enough) here
      rw [exchange_move, exchange_consume]
      exact effect
  · cases resumed

theorem finish_effect {k size : Nat} {socket : Socket} (found : s.coroutines[id]? = some co)
    (reading : co.phase = .readingBody k size) (joined : s.sockets[k]? = some socket) :
    Effect decode s.exchange (.readBody id)
      ((s.consume k size).finish decode id co (slice socket.stream 0 size)).exchange := by
  have busy : co.phase.Busy := by rw [reading]; trivial
  unfold State.finish
  split
  · exact abandon_effect k size found busy
  next resp payload parsed =>
    split
    · exact abandon_effect k size found busy
    next result accepted =>
      have effect : Effect decode s.exchange (.readBody id) _ :=
        .finish found reading (link_of joined) parsed accepted
      rw [exchange_leave, exchange_consume]
      exact effect

theorem readBody_effect (found : s.coroutines[id]? = some co)
    (resumed : resume decode s id co (.readBody id) = some next) :
    Effect decode s.exchange (.readBody id) next.exchange := by
  simp only [resume] at resumed
  split at resumed
  next k size reading =>
    obtain ⟨socket, joined, complete⟩ := Option.bind_eq_some_iff.mp resumed
    obtain ⟨_, same⟩ := Option.ite_none_left_eq_some.mp complete
    rw [← Option.some.inj same]
    exact finish_effect found reading joined
  · cases resumed

theorem ok_of_toOption {ε α : Type} {result : Except ε α} {x : α} (same : result.toOption = some x) :
    result = .ok x := by
  cases result with
  | error _ => cases same
  | ok _ => exact congrArg Except.ok (Option.some.inj same)

theorem answer_effect {k place : Nat} {body : Body} {payload : Bytes}
    (answered : s.answer k place body payload = some next) :
    Effect decode s.exchange (.answer k place body payload) next.exchange := by
  simp only [State.answer, Option.bind_eq_bind, Option.bind_eq_some_iff] at answered
  obtain ⟨socket, open_, request, owed, bytes, encoded, same⟩ := answered
  obtain ⟨joined, _⟩ := Option.filter_eq_some_iff.mp open_
  cases same
  have links : (s.sockets.modify k fun socket => { socket with
        requests := socket.requests.eraseIdx place
        stream := socket.stream ++ bytes }).map Socket.link =
      (s.sockets.map Socket.link).modify k fun link => (link.1.eraseIdx place, link.2 ++ bytes) :=
    Slots.map_modify fun _ => rfl
  have effect : Effect decode s.exchange (.answer k place body payload) _ :=
    .answer (link_of joined) owed (ok_of_toOption encoded)
  simpa only [State.exchange, links] using effect

theorem cancel_effect (found : s.coroutines[id]? = some co)
    (resumed : resume decode s id co (.cancel id) = some next) :
    Effect decode s.exchange (.cancel id) next.exchange := by
  obtain ⟨unfinished, ended⟩ := Option.ite_none_left_eq_some.mp resumed
  have running : co.phase.finished = false := Bool.eq_false_iff.mpr unfinished
  split at ended
  · cases ended
    exact .stop found running (.inr rfl)
  · cases ended
    exact stop_effect found running (.inr rfl)

theorem fail_effect (found : s.coroutines[id]? = some co)
    (resumed : resume decode s id co (.fail id) = some next) :
    Effect decode s.exchange (.fail id) next.exchange := by
  have lost : ∀ k, co.phase.finished = false →
      (if s.lost k then some (s.raise id co .raised) else none) = some next →
      Effect decode s.exchange (.fail id) next.exchange := by
    intro k running failed
    obtain ⟨_, same⟩ := Option.ite_none_right_eq_some.mp failed
    rw [← Option.some.inj same]
    exact stop_effect found running (.inl rfl)
  simp only [resume] at resumed
  cases phase : co.phase with
  | opening =>
    simp only [phase] at resumed
    cases resumed
    exact .stop found (by rw [phase]; rfl) (.inl rfl)
  | draining k => exact lost k (by rw [phase]; rfl) (by simpa only [phase] using resumed)
  | readingSize k => exact lost k (by rw [phase]; rfl) (by simpa only [phase] using resumed)
  | readingBody k size => exact lost k (by rw [phase]; rfl) (by simpa only [phase] using resumed)
  | waiting => simp only [phase] at resumed; cases resumed
  | returned result => simp only [phase] at resumed; cases resumed
  | raised => simp only [phase] at resumed; cases resumed
  | cancelled => simp only [phase] at resumed; cases resumed

theorem step_effect {action : Action} (taken : step decode action s = some next) :
    Effect decode s.exchange action next.exchange := by
  have resumes : ∀ {id}, s.coroutines[id]?.bind (fun co => resume decode s id co action) = some next →
      ∃ co, s.coroutines[id]? = some co ∧ resume decode s id co action = some next :=
    Option.bind_eq_some_iff.mp
  cases action with
  | begin call =>
    cases taken
    exact begin_effect call
  | opened id =>
    obtain ⟨co, found, resumed⟩ := resumes taken
    exact opened_effect found resumed
  | acquire id =>
    obtain ⟨co, found, resumed⟩ := resumes taken
    exact acquire_effect found resumed
  | drained id =>
    obtain ⟨co, found, resumed⟩ := resumes taken
    exact drained_effect found resumed
  | readSize id =>
    obtain ⟨co, found, resumed⟩ := resumes taken
    exact readSize_effect found resumed
  | readBody id =>
    obtain ⟨co, found, resumed⟩ := resumes taken
    exact readBody_effect found resumed
  | cancel id =>
    obtain ⟨co, found, resumed⟩ := resumes taken
    exact cancel_effect found resumed
  | fail id =>
    obtain ⟨co, found, resumed⟩ := resumes taken
    exact fail_effect found resumed
  | close =>
    cases taken
    rw [exchange_close]
    exact .same
  | closed =>
    obtain ⟨_, same⟩ := Option.ite_none_left_eq_some.mp taken
    cases same
    exact .forget
  | answer k place body payload => exact answer_effect taken
  | hangUp k =>
    cases taken
    have kept := links_closed s.sockets k
    have effect : Effect decode s.exchange (.hangUp k) s.exchange := .same
    simpa only [State.exchange, kept] using effect

end Inversion

end Kafkrs.Session
