import Kafkrs.Acknowledged
import Kafkrs.Pairing
import Kafkrs.Payload

/-! From a client's call to a client's result. Between the two lie the bytes of two sockets, the
payload cut along its metas, group commits, uploads and crashes; what comes out is what was put in. -/
namespace Kafkrs.EndToEnd

open Lib Wal Wire Client FrameStream
open Fetching (Admitted)
open Acknowledged (Promised promised_step)
open GroupCommit (SingleCommit)
open Payload (Carried fetched incoming)
open StableReads (Copied Held Sourced)

/-- One partition, and the bytes on their way to the broker on each connection. -/
structure State where
  broker : Fetcher.State
  links : Nat → Bytes

inductive Action where
  | call (link : Nat) (id : UInt64) (call : Call)
  /-- The reader and the handler of a connection; `cfg` is that of the partition's handle. -/
  | receive (link : Nat) (cfg : ResolvedTopicConfig) (now : Nat → Int64)
  | broker (action : Fetcher.Action)

section Steps

variable (env : Partition.Externals) (decode : Bytes → Option Command) (topic : String)
  (partition : UInt32)

def requestFrame (id : UInt64) (call : Call) : Option Frame :=
  call.request.map fun request => ⟨⟨id, some request.1⟩, request.2⟩

def written (id : UInt64) (call : Call) : Option Bytes :=
  (requestFrame id call).bind fun frame =>
    (writeRequest frame.command.encode frame.payload).toOption

/-- What a frame has the partition do; `none` when it is refused or about something else. -/
def asked (cfg : ResolvedTopicConfig) (now : Nat → Int64) (frame : Frame) : Option Fetcher.Action :=
  match frame.command.body with
  | some (.produce req) =>
    if req.topic = topic ∧ req.partition = partition then
      (Produce.produceInner cfg req.records frame.payload).toOption.map fun records =>
        .partition (.produce records now)
    else none
  | some (.fetch req) =>
    if req.topic = topic ∧ req.partition = partition then some (.begin (req.resolve cfg)) else none
  | _ => none

def own : Fetcher.Action → Bool
  | .begin _ | .partition (.produce _ _) => false
  | _ => true

/-- The step of the broker that an action comes to. -/
def effect (s : State) : Action → Option Fetcher.Action
  | .call .. => none
  | .receive link cfg now =>
    (readFrame decode (s.links link)).bind fun read => asked topic partition cfg now read.1
  | .broker action => if own action then some action else none

/-- A crash of the broker takes its connections with it. -/
def step (action : Action) (s : State) : Option State :=
  match action with
  | .call link id call =>
    (written id call).map fun bytes =>
      { s with links := Function.update s.links link (s.links link ++ bytes) }
  | .receive link cfg now =>
    (readFrame decode (s.links link)).bind fun read =>
      let links := Function.update s.links link ((s.links link).drop read.2)
      match asked topic partition cfg now read.1 with
      | some action => (Fetcher.joint env action s.broker).map (⟨·, links⟩)
      | none => some ⟨s.broker, links⟩
  | .broker action =>
    if own action then
      (Fetcher.joint env action s.broker).map fun next =>
        ⟨next, if next.partition.live.isSome then s.links else fun _ => []⟩
    else none

def machine : Machine State Action := ⟨⟨⟨Partition.fresh, none⟩, fun _ => []⟩,
  step env decode topic partition⟩

/-- Recovery starts from clean files, and records are ones the WAL has room for. -/
def Clean (s : State) (action : Action) : Prop :=
  ∀ taken ∈ effect decode topic partition s action, Admitted env s.broker taken

/-- No commit finds two requests waiting. -/
def Single (s : State) (action : Action) : Prop :=
  ∀ taken ∈ effect decode topic partition s action,
    match taken with
    | .partition taken => SingleCommit s.broker.partition taken
    | _ => True

end Steps

/-- The client's half of a round trip: the size, that many bytes, and what the call makes of them. -/
def clientReads (decode : Bytes → Option Command) (call : Call) (bytes : Bytes) :
    Option (Except WireError Returned) :=
  if bytes.length < 4 then none
  else
    let size := fromBeBytes (slice bytes 0 4)
    if bytes.length < 4 + size then none
    else (parseResponse decode (slice bytes 4 (4 + size))).map fun resp => call.finish resp.1 resp.2

def made (schedule : List Action) : List Call :=
  schedule.flatMap fun
    | .call _ _ call => [call]
    | _ => []

def commands (schedule : List Action) : List Command :=
  schedule.flatMap fun
    | .call _ id call => (requestFrame id call).toList.map (·.command)
    | _ => []

section Requests

variable {env : Partition.Externals} {decode : Bytes → Option Command} {topic : String}
  {partition : UInt32} {calls : List Call}

def requestOf (topic : String) (partition : UInt32) : Call → Option (List IncomingRecord)
  | .produce name part pairs schemaId timestampNs =>
    if name = topic ∧ uint32Field part = some partition then
      some (pairs.map (incoming schemaId timestampNs))
    else none
  | _ => none

/-- A record as a client has put it into a call. -/
structure Written (schemaId timestampNs : Int) (pair : Bytes × Bytes) (r : Record) : Prop where
  key : r.key = pair.1
  value : r.value = pair.2
  schemaId : (r.schemaId.toNat : Int) = schemaId
  timestampNs : timestampNs ≠ 0 → r.timestampNs.toInt = timestampNs

def FromCall (topic : String) (partition : UInt32) (calls : List Call) (r : Record) : Prop :=
  ∃ part pairs schemaId timestampNs, .produce topic part pairs schemaId timestampNs ∈ calls ∧
    uint32Field part = some partition ∧ ∃ pair ∈ pairs, Written schemaId timestampNs pair r

theorem FromCall.mono {more : List Call} {r : Record} (from' : FromCall topic partition calls r)
    (inside : calls ⊆ more) : FromCall topic partition more r := by
  obtain ⟨part, pairs, schemaId, timestampNs, member, rest⟩ := from'
  exact ⟨part, pairs, schemaId, timestampNs, inside member, rest⟩

/-- What the broker makes of the frame of a produce call: the pairs of the call, all of them and in
their order. -/
theorem asked_produce {id : UInt64} {call : Call} {frame : Frame} {cfg : ResolvedTopicConfig}
    {now clock : Nat → Int64} {records : List IncomingRecord}
    (sent : requestFrame id call = some frame)
    (taken : asked topic partition cfg now frame = some (.partition (.produce records clock))) :
    ∃ part pairs schemaId timestampNs, call = .produce topic part pairs schemaId timestampNs ∧
      uint32Field part = some partition ∧ records = pairs.map (incoming schemaId timestampNs) ∧
      ∃ metas payload, produceRecords schemaId timestampNs pairs = some (metas, payload) := by
  obtain ⟨⟨body, payload⟩, request, rfl⟩ := Option.map_eq_some_iff.mp sent
  cases call with
  | produce name part pairs schemaId timestampNs =>
    simp only [Call.request, Option.bind_eq_bind, Option.bind_eq_some_iff, Option.pure_def,
      Option.some.injEq, Prod.mk.injEq, Prod.exists] at request
    obtain ⟨number, numbered, metas, payload, produced, rfl, rfl⟩ := request
    simp only [asked] at taken
    split at taken
    next here =>
      obtain ⟨rfl, rfl⟩ := here
      obtain ⟨_, admitted, same⟩ := Option.map_eq_some_iff.mp taken
      cases same
      have sliced : Produce.slicePayload metas payload = .ok records := by
        cases inner : Produce.produceInner cfg metas payload with
        | error e => simp [inner, Except.toOption] at admitted
        | ok others =>
          obtain rfl : others = records := by simpa [inner, Except.toOption] using admitted
          simp only [Produce.produceInner] at inner
          split at inner
          · cases inner
          · obtain ⟨_, _, sliced⟩ := Produce.bind_ok.mp inner
            exact sliced
      obtain ⟨cut, whole⟩ := Payload.produceRecords_declared produced
      have back := (Payload.sliceLoop_iff (Nat.zero_le _)).mpr ⟨cut, whole⟩
      rw [Produce.slicePayload, back] at sliced
      exact ⟨part, pairs, schemaId, timestampNs, rfl, numbered, (Except.ok.inj sliced).symm,
        metas, payload, produced⟩
    next => cases taken
  | connect | deleteTopic | alterTopicConfig | listTopics | getMetadata =>
    obtain rfl := congrArg Prod.fst (Option.some.inj request)
    cases taken
  | createTopic | fetch =>
    simp only [Call.request, Option.bind_eq_bind, Option.bind_eq_some_iff, Option.pure_def,
      Option.some.injEq, Prod.mk.injEq] at request
    grind [asked]

/-- Protobuf has taken every value of a call that was sent. -/
theorem produceRecords_fields {schemaId timestampNs : Int} {pairs : List (Bytes × Bytes)}
    {metas : List Produce.InRecordMeta} {payload : Bytes}
    (produced : produceRecords schemaId timestampNs pairs = some (metas, payload)) :
    ∀ pair ∈ pairs, pair.1.length < 2 ^ 32 ∧ pair.2.length < 2 ^ 32 ∧
      (uint32Field schemaId).isSome ∧ (int64Field timestampNs).isSome := by
  induction pairs generalizing metas payload with
  | nil => simp
  | cons pair pairs ih =>
    obtain ⟨key, value⟩ := pair
    simp only [produceRecords, Option.bind_eq_bind, Option.bind_eq_some_iff, Option.pure_def,
      Option.some.injEq, Prod.mk.injEq, Prod.exists] at produced
    obtain ⟨keyLen, keySet, valueLen, valueSet, schema, schemaSet, timestamp, timestampSet,
      metas, payload, later, rfl, rfl⟩ := produced
    have keyFits := (Payload.uint32Field_some keySet).2
    have valueFits := (Payload.uint32Field_some valueSet).2
    have keyBound := keyLen.toNat_lt
    have valueBound := valueLen.toNat_lt
    refine List.forall_mem_cons.mpr ⟨⟨?_, ?_, ?_, ?_⟩, ih later⟩
    · dsimp only; omega
    · dsimp only; omega
    · simp [schemaSet]
    · simp [timestampSet]

theorem int64Field_toInt {x : Int} (set : (int64Field x).isSome) : (Int64.ofInt x).toInt = x := by
  unfold int64Field at set
  split at set
  next range => exact Int64.toInt_ofInt_of_le range.1 range.2
  next => cases set

/-- The broker's copy of a pair says what the call said. -/
theorem copied_written {schemaId timestampNs : Int} {pair : Bytes × Bytes} {r : Record}
    (schema : (uint32Field schemaId).isSome) (timestamp : (int64Field timestampNs).isSome)
    (copied : Copied (incoming schemaId timestampNs pair) r) : Written schemaId timestampNs pair r := by
  obtain ⟨field, set⟩ := Option.isSome_iff_exists.mp schema
  obtain ⟨isField, range⟩ := Payload.uint32Field_some set
  refine ⟨copied.key, copied.value, ?_, fun given => ?_⟩
  · rw [copied.schemaId, incoming, ← isField, range]
  · have back := int64Field_toInt timestamp
    have nonzero : (incoming schemaId timestampNs pair).timestampNs ≠ 0 := by
      intro zero
      change Int64.ofInt timestampNs = 0 at zero
      rw [zero] at back
      exact given back.symm
    rw [copied.timestamp nonzero, incoming, back]

/-- What is known of every record in the log: how large its numbers are and which call it is of. -/
structure Known (topic : String) (partition : UInt32) (calls : List Call) (r : Record) : Prop where
  offset : r.offset < 2 ^ 63
  key : r.key.length < 2 ^ 32
  value : r.value.length < 2 ^ 32
  origin : FromCall topic partition calls r

theorem stamp_known {part schemaId timestampNs : Int} {pairs : List (Bytes × Bytes)}
    {metas : List Produce.InRecordMeta} {payload : Bytes}
    (called : .produce topic part pairs schemaId timestampNs ∈ calls)
    (here : uint32Field part = some partition)
    (produced : produceRecords schemaId timestampNs pairs = some (metas, payload))
    {now : Nat → Int64} {next : Int}
    (room : next + (pairs.map (incoming schemaId timestampNs)).length ≤ i64Max) :
    ∀ r ∈ PartitionWriter.stamp now next (pairs.map (incoming schemaId timestampNs)),
      Known topic partition calls r := by
  intro r member
  obtain ⟨inc, inside, copied⟩ := StableReads.stamp_copied member
  obtain ⟨pair, listed, rfl⟩ := List.mem_map.mp inside
  obtain ⟨keyFits, valueFits, schema, timestamp⟩ := produceRecords_fields produced pair listed
  have bounds := (PartitionWriter.stamp_numbered now next _).mem_bounds member
  rw [PartitionWriter.stamp_length] at bounds
  rw [i64Max] at room
  exact ⟨by omega, by rw [copied.key]; exact keyFits, by rw [copied.value]; exact valueFits,
    part, pairs, schemaId, timestampNs, called, here, pair, listed,
    copied_written schema timestamp copied⟩

end Requests

section Runs

variable {env : Partition.Externals} {decode : Bytes → Option Command} {topic : String}
  {partition : UInt32} {calls : List Call} {s next : State} {action : Action}

def Carrying (decode : Bytes → Option Command) (calls : List Call) (bytes : Bytes) : Prop :=
  ∃ frames : List Frame, bytes = frames.flatMap encoding ∧ ∀ frame ∈ frames,
    Readable decode frame ∧ ∃ id, ∃ call ∈ calls, requestFrame id call = some frame

structure Faithful (env : Partition.Externals) (decode : Bytes → Option Command) (topic : String)
    (partition : UInt32) (calls : List Call) (s : State) : Prop where
  links : ∀ link, Carrying decode calls (s.links link)
  held : Held (Known topic partition calls) s.broker.partition
  sourced : Sourced env s.broker

theorem Carrying.mono {more : List Call} {bytes : Bytes} (carrying : Carrying decode calls bytes)
    (inside : calls ⊆ more) : Carrying decode more bytes := by
  obtain ⟨frames, rfl, readable⟩ := carrying
  refine ⟨frames, rfl, fun frame member => ?_⟩
  obtain ⟨reads, id, call, called, sent⟩ := readable frame member
  exact ⟨reads, id, call, inside called, sent⟩

theorem Faithful.mono {more : List Call} (faithful : Faithful env decode topic partition calls s)
    (inside : calls ⊆ more) : Faithful env decode topic partition more s where
  links link := (faithful.links link).mono inside
  held := faithful.held.mono fun _ known => { known with origin := known.origin.mono inside }
  sourced := faithful.sourced

/-- The reader takes the frame of a call, and leaves the frames behind it. -/
theorem Carrying.read {bytes : Bytes} {frame : Frame} {taken : Nat}
    (carrying : Carrying decode calls bytes) (read : readFrame decode bytes = some (frame, taken)) :
    Carrying decode calls (bytes.drop taken) ∧
      ∃ id, ∃ call ∈ calls, requestFrame id call = some frame := by
  obtain ⟨frames, rfl, readable⟩ := carrying
  cases frames with
  | nil => simp [readFrame] at read
  | cons first rest =>
    obtain ⟨reads, sent⟩ := readable first List.mem_cons_self
    have complete := (reading decode).complete first (rest.flatMap encoding) reads
    rw [List.flatMap_cons, complete] at read
    cases read
    refine ⟨⟨rest, ?_, fun other member => readable other (List.mem_cons_of_mem _ member)⟩, sent⟩
    rw [List.flatMap_cons, List.drop_left]

theorem Carrying.write {bytes more : Bytes} {id : UInt64} {call : Call}
    (inverse : ∀ frame ∈ requestFrame id call, decode frame.command.encode = some frame.command)
    (carrying : Carrying decode calls bytes) (sent : written id call = some more) :
    Carrying decode (calls ++ [call]) (bytes ++ more) := by
  obtain ⟨frame, framed, accepted⟩ := Option.bind_eq_some_iff.mp sent
  rw [writeRequest_eq] at accepted
  obtain ⟨encoded, isEncoded⟩ : ∃ encoded, encodeFrame frame = .ok encoded := by
    cases result : encodeFrame frame with
    | error e => simp [result, Except.toOption] at accepted
    | ok encoded => exact ⟨encoded, rfl⟩
  obtain rfl : encoded = more := by simpa [isEncoded, Except.toOption] using accepted
  obtain ⟨frames, rfl, readable⟩ := carrying.mono (List.subset_append_left calls [call])
  refine ⟨frames ++ [frame], by simp [encoding_eq isEncoded], fun other member => ?_⟩
  rcases List.mem_append.mp member with old | new
  · exact readable other old
  · rw [List.mem_singleton.mp new]
    exact ⟨⟨⟨encoded, isEncoded⟩, inverse frame framed⟩, id, call, by simp, framed⟩

def Requested (topic : String) (partition : UInt32) (calls : List Call)
    (taken : Fetcher.Action) : Prop :=
  ∀ records now, taken = .partition (.produce records now) →
    ∃ part pairs schemaId timestampNs, .produce topic part pairs schemaId timestampNs ∈ calls ∧
      uint32Field part = some partition ∧ records = pairs.map (incoming schemaId timestampNs) ∧
      ∃ metas payload, produceRecords schemaId timestampNs pairs = some (metas, payload)

theorem joint_held {taken : Fetcher.Action} {b b' : Fetcher.State}
    (held : Held (Known topic partition calls) b.partition)
    (requested : Requested topic partition calls taken)
    (moved : Fetcher.joint env taken b = some b') :
    Held (Known topic partition calls) b'.partition := by
  cases taken with
  | partition taken =>
    obtain ⟨p, stepped, rfl⟩ := Option.map_eq_some_iff.mp moved
    refine held.step (fun l records now _ produced room => ?_) stepped
    subst produced
    obtain ⟨part, pairs, schemaId, timestampNs, called, here, rfl, metas, payload, produced⟩ :=
      requested records now rfl
    exact stamp_known called here produced room
  | begin req =>
    rw [Fetching.begin_partition moved]
    exact held
  | fetch =>
    obtain ⟨_, _, _, _, same, _⟩ := Fetching.fetch_step_cases moved
    rw [same]
    exact held

/-- What an action has the broker do comes from a call, or is none of a client's business. -/
theorem effect_requested (carrying : ∀ link, Carrying decode calls (s.links link))
    {taken : Fetcher.Action} (effected : effect decode topic partition s action = some taken) :
    Requested topic partition calls taken := by
  rintro records clock rfl
  cases action with
  | call => cases effected
  | receive link cfg now =>
    obtain ⟨⟨frame, n⟩, read, request⟩ := Option.bind_eq_some_iff.mp effected
    obtain ⟨_, id, call, called, sent⟩ := (carrying link).read read
    obtain ⟨part, pairs, schemaId, timestampNs, rfl, rest⟩ := asked_produce sent request
    exact ⟨part, pairs, schemaId, timestampNs, called, rest⟩
  | broker taken =>
    simp only [effect] at effected
    split at effected
    next mine =>
      cases effected
      cases mine
    · cases effected

inductive LinkMoved (decode : Bytes → Option Command) (s : State) (action : Action) (link : Nat) :
    Bytes → Prop where
  | kept : LinkMoved decode s action link (s.links link)
  | reset : LinkMoved decode s action link []
  | taken {frame : Frame} {n : Nat} (read : readFrame decode (s.links link) = some (frame, n)) :
      LinkMoved decode s action link ((s.links link).drop n)
  | added {id : UInt64} {call : Call} {bytes : Bytes} (called : action = .call link id call)
      (sent : written id call = some bytes) : LinkMoved decode s action link (s.links link ++ bytes)

/-- What a step does to the broker and to the connections. -/
theorem step_effect (taken : step env decode topic partition action s = some next) :
    (next.broker = s.broker ∧ effect decode topic partition s action = none ∨
      ∃ effected, effect decode topic partition s action = some effected ∧
        Fetcher.joint env effected s.broker = some next.broker) ∧
    ∀ link, LinkMoved decode s action link (next.links link) := by
  cases action with
  | call place id call =>
    obtain ⟨bytes, sent, rfl⟩ := Option.map_eq_some_iff.mp taken
    refine ⟨.inl ⟨rfl, rfl⟩, fun link => ?_⟩
    by_cases same : link = place
    · subst same
      dsimp only
      rw [Function.update_self]
      exact .added rfl sent
    · dsimp only
      rw [Function.update_of_ne same]
      exact .kept
  | receive place cfg now =>
    obtain ⟨⟨frame, n⟩, read, taken⟩ := Option.bind_eq_some_iff.mp taken
    have drained (link : Nat) : LinkMoved decode s (.receive place cfg now) link
        (Function.update s.links place ((s.links place).drop n) link) := by
      by_cases same : link = place
      · subst same
        rw [Function.update_self]
        exact .taken read
      · rw [Function.update_of_ne same]
        exact .kept
    dsimp only at taken
    split at taken
    next effected asks =>
      obtain ⟨b, moved, rfl⟩ := Option.map_eq_some_iff.mp taken
      exact ⟨.inr ⟨effected, by simp [effect, read, asks], moved⟩, drained⟩
    next asks =>
      cases taken
      exact ⟨.inl ⟨rfl, by simp [effect, read, asks]⟩, drained⟩
  | broker action =>
    simp only [step] at taken
    split at taken
    next mine =>
      obtain ⟨b, moved, rfl⟩ := Option.map_eq_some_iff.mp taken
      refine ⟨.inr ⟨action, by simp [effect, mine], moved⟩, fun link => ?_⟩
      dsimp only
      split
      · exact .kept
      · exact .reset
    · cases taken

theorem Faithful.step (inverse : ∀ c ∈ commands [action], decode c.encode = some c)
    (faithful : Faithful env decode topic partition calls s)
    (clean : Clean env decode topic partition s action)
    (taken : step env decode topic partition action s = some next) :
    Faithful env decode topic partition (calls ++ made [action]) next := by
  obtain ⟨broker, links⟩ := step_effect taken
  have inside := List.subset_append_left calls (made [action])
  have linked (link : Nat) : Carrying decode (calls ++ made [action]) (next.links link) := by
    have moved := links link
    generalize next.links link = bytes at moved
    cases moved with
    | kept => exact (faithful.links link).mono inside
    | reset => exact ⟨[], rfl, fun _ member => absurd member List.not_mem_nil⟩
    | taken read => exact ((faithful.links link).read read).1.mono inside
    | added called sent =>
      subst called
      refine (faithful.links link).write (fun frame framed => inverse _ ?_) sent
      simpa [commands] using ⟨frame, framed, rfl⟩
  rcases broker with ⟨same, _⟩ | ⟨effected, effects, moved⟩
  · exact ⟨linked, same ▸ (faithful.mono inside).held, same ▸ faithful.sourced⟩
  · have requested := @effect_requested decode topic partition calls s action faithful.links
      effected effects
    exact ⟨linked,
      (joint_held faithful.held requested moved).mono fun _ known =>
        { known with origin := known.origin.mono inside },
      faithful.sourced.step (clean effected effects) moved⟩

theorem made_append (first second : List Action) : made (first ++ second) = made first ++ made second :=
  List.flatMap_append

theorem run_faithful {schedule : List Action}
    (inverse : ∀ c ∈ commands schedule, decode c.encode = some c) (faithful : Faithful env decode topic partition calls s)
    (clean : (machine env decode topic partition).Along (Clean env decode topic partition) schedule s)
    (ran : (machine env decode topic partition).execute schedule s = some next) :
    Faithful env decode topic partition (calls ++ made schedule) next := by
  induction schedule generalizing calls s with
  | nil =>
    cases ran
    simpa [made] using faithful
  | cons action schedule ih =>
    obtain ⟨middle, taken, rest⟩ := Machine.execute_cons ran
    have split : calls ++ made (action :: schedule) =
        (calls ++ made [action]) ++ made schedule := by
      rw [List.append_assoc, ← made_append, List.singleton_append]
    rw [split]
    have first (c : Command) (member : c ∈ commands [action]) : decode c.encode = some c :=
      inverse c (List.mem_append_left _ (by simpa [commands] using member))
    exact ih (fun c member => inverse c (List.mem_append_right _ member))
      (faithful.step first clean.1 taken) (clean.2 middle taken) rest

theorem initial_faithful : Faithful env decode topic partition []
    (machine env decode topic partition).initial :=
  ⟨fun _ => ⟨[], rfl, fun _ member => absurd member List.not_mem_nil⟩, StableReads.fresh_held _,
    StableReads.initial_sourced env⟩

def requests (topic : String) (partition : UInt32) (calls : List Call) : List (List IncomingRecord) :=
  calls.filterMap (requestOf topic partition)

def Promising (topic : String) (partition : UInt32) (calls : List Call) (s : State) : Prop :=
  ∀ l, s.broker.partition.live = some l →
    Promised (requests topic partition calls) s.broker.partition.history.log l.writer

theorem Promising.mono {more : List Call} (promising : Promising topic partition calls s)
    (inside : calls ⊆ more) : Promising topic partition more s :=
  fun l live => (promising l live).weaken fun incoming member => by
    obtain ⟨call, called, request⟩ := List.mem_filterMap.mp member
    exact List.mem_filterMap.mpr ⟨call, inside called, request⟩

theorem Promising.step (faithful : Faithful env decode topic partition calls s)
    (promising : Promising topic partition calls s)
    (single : Single decode topic partition s action)
    (taken : step env decode topic partition action s = some next) :
    Promising topic partition calls next := by
  rcases (step_effect taken).1 with ⟨same, _⟩ | ⟨effected, effects, moved⟩
  · rw [Promising, same]
    exact promising
  · have requested := @effect_requested decode topic partition calls s action faithful.links
      effected effects
    have alone := single effected effects
    cases effected with
    | begin req =>
      rw [Promising, Fetching.begin_partition moved]
      exact promising
    | fetch =>
      obtain ⟨_, _, _, _, same, _⟩ := Fetching.fetch_step_cases moved
      rw [Promising, same]
      exact promising
    | partition action =>
      obtain ⟨p, stepped, next'⟩ := Option.map_eq_some_iff.mp moved
      intro l live
      rw [← next'] at live ⊢
      refine (promised_step promising alone stepped l live).weaken fun records member => ?_
      rcases List.mem_append.mp member with old | new
      · exact old
      · cases action with
        | produce records' now =>
          obtain rfl := List.mem_singleton.mp new
          obtain ⟨part, pairs, schemaId, timestampNs, called, here, rfl, _⟩ :=
            requested records now rfl
          exact List.mem_filterMap.mpr ⟨_, called, by simp [requestOf, here]⟩
        | _ => cases new

theorem run_promising {schedule : List Action}
    (inverse : ∀ c ∈ commands schedule, decode c.encode = some c)
    (faithful : Faithful env decode topic partition calls s)
    (promising : Promising topic partition calls s)
    (clean : (machine env decode topic partition).Along (Clean env decode topic partition) schedule s)
    (single : (machine env decode topic partition).Along (Single decode topic partition) schedule s)
    (ran : (machine env decode topic partition).execute schedule s = some next) :
    Promising topic partition (calls ++ made schedule) next := by
  induction schedule generalizing calls s with
  | nil =>
    cases ran
    simpa [made] using promising
  | cons action schedule ih =>
    obtain ⟨middle, taken, rest⟩ := Machine.execute_cons ran
    have split : calls ++ made (action :: schedule) =
        (calls ++ made [action]) ++ made schedule := by
      rw [List.append_assoc, ← made_append, List.singleton_append]
    have first (c : Command) (member : c ∈ commands [action]) : decode c.encode = some c :=
      inverse c (List.mem_append_left _ (by simpa [commands] using member))
    rw [split]
    exact ih (fun c member => inverse c (List.mem_append_right _ member))
      (faithful.step first clean.1 taken)
      ((promising.step faithful single.1 taken).mono (List.subset_append_left _ _))
      (clean.2 middle taken) (single.2 middle taken) rest

def response (s : State) : Option Kafkrs.FetchResponse :=
  s.broker.fetch.bind fun f =>
    match f.phase with
    | .done (.ok resp) => some resp
    | _ => none

theorem response_answer {resp : Kafkrs.FetchResponse} (answered : response s = some resp) :
    StableReads.answer s.broker = some resp.records := by
  obtain ⟨f, fetching, finished⟩ := Option.bind_eq_some_iff.mp answered
  split at finished
  next phase =>
    cases finished
    simp [StableReads.answer, fetching, phase]
  · cases finished

/-- The client gets the command and the payload of a reply as the broker sent them. -/
theorem clientReads_encoded {reply : Frame} {bytes : Bytes}
    (inverse : decode reply.command.encode = some reply.command)
    (encoded : encodeFrame reply = .ok bytes) (call : Call) :
    clientReads decode call bytes = some (call.finish reply.command reply.payload) := by
  obtain ⟨body, rfl, small, parsed⟩ := Pairing.response_layout encoded inverse
  have width := FetchFrame.toBeBytes_length (UInt32.ofNat body.length)
  have size : slice (toBeBytes (UInt32.ofNat body.length) ++ body) 0 4 =
      toBeBytes (UInt32.ofNat body.length) := by
    rw [slice_zero, List.take_left' width]
  have content := slice_middle (toBeBytes (UInt32.ofNat body.length)) body [] width
    (show 4 + _ = 4 + body.length from rfl)
  rw [List.append_nil] at content
  have length : (toBeBytes (UInt32.ofNat body.length) ++ body).length = 4 + body.length := by
    rw [List.length_append, width]
  have sized : ¬ 4 + body.length < 4 := by omega
  simp only [clientReads, length, if_neg sized, size, fromBeBytes_toBeBytes small, lt_irrefl,
    if_false, content, parsed, Option.map_some]

/-- What a fetch call makes of the answer, when the numbers in it fit their fields. -/
theorem finish_fetch {name : String} {part fromOffset maxRecords maxWaitMs : Int} {id : UInt64}
    {resp : Kafkrs.FetchResponse} (carried : ∀ r ∈ resp.records, Carried r) :
    (Call.fetch name part fromOffset maxRecords maxWaitMs).finish
        (handleFetch id (.ok resp)).command (handleFetch id (.ok resp)).payload =
      .ok (.fetched (resp.records.map fetched) (Int64.ofInt resp.hwm).toInt) := by
  have sliced := @Payload.sliceFetched_outMeta resp.records carried
    (handleFetch id (.ok resp)).payload 0 rfl
  simp only [Call.finish, handleFetch, Option.bind_some, Call.content] at sliced ⊢
  rw [sliced]

theorem Faithful.carried (faithful : Faithful env decode topic partition calls s)
    {resp : Kafkrs.FetchResponse} (answered : response s = some resp) :
    ∀ r ∈ resp.records, Known topic partition calls r ∧ Carried r ∧
      s.broker.partition.history.log[r.offset.toNat]? = some r := by
  intro r member
  have inside := faithful.sourced.answers (response_answer answered) r member
  have known := faithful.held.log r inside
  have numbered := StableReads.log_numbered faithful.sourced.base.whole
  have low := (numbered.mem_bounds inside).1
  exact ⟨known, ⟨⟨by omega, known.offset⟩, known.key, known.value⟩,
    StableReads.log_at numbered inside⟩

theorem step_log (taken : step env decode topic partition action s = some next) :
    s.broker.partition.history.log <+: next.broker.partition.history.log := by
  rcases (step_effect taken).1 with ⟨same, _⟩ | ⟨effected, _, moved⟩
  · exact same ▸ List.prefix_rfl
  · have ran : (Fetcher.machine env).execute [effected] s.broker = some next.broker :=
      (Machine.execute_step moved).trans rfl
    exact StableReads.run_log ran

theorem run_log {schedule : List Action}
    (ran : (machine env decode topic partition).execute schedule s = some next) :
    s.broker.partition.history.log <+: next.broker.partition.history.log := by
  have grows (state : State) (action : Action) (after : State)
      (grown : s.broker.partition.history.log <+: state.broker.partition.history.log) (_ : True)
      (taken : (machine env decode topic partition).step action state = some after) :
      s.broker.partition.history.log <+: after.broker.partition.history.log :=
    grown.trans (step_log taken)
  exact Machine.execute_invariant grows List.prefix_rfl (Machine.along_true schedule s) ran

def produceReply (id : UInt64) (resp : Kafkrs.ProduceResponse) : Frame :=
  ⟨⟨id, some (.produceResp ⟨Int64.ofInt resp.baseOffset, Int64.ofInt resp.lastOffset,
    Int64.ofInt resp.hwm⟩)⟩, []⟩

theorem stamp_pairs (now : Nat → Int64) (next schemaId timestampNs : Int)
    (pairs : List (Bytes × Bytes)) :
    (PartitionWriter.stamp now next (pairs.map (incoming schemaId timestampNs))).map
      (fun r => (r.key, r.value)) = pairs := by
  induction pairs generalizing now next with
  | nil => rfl
  | cons pair pairs ih =>
    simp only [List.map_cons, PartitionWriter.stamp, ih]
    rfl

/-- An answered request is one of the calls, and its records are the pairs of it. -/
theorem Promising.called (promising : Promising topic partition calls s) {l : Partition.Live}
    (live : s.broker.partition.live = some l) {p : Produced} (acked : p ∈ l.writer.produced) :
    ∃ (part schemaId timestampNs : Int) (pairs : List (Bytes × Bytes)),
      .produce topic part pairs schemaId timestampNs ∈ calls ∧ uint32Field part = some partition ∧
      p.stored.map (fun r => (r.key, r.value)) = pairs := by
  obtain ⟨records, member, now, next, stamped⟩ := (promising l live).made p acked
  obtain ⟨call, called, request⟩ := List.mem_filterMap.mp member
  cases call with
  | produce name part pairs schemaId timestampNs =>
    simp only [requestOf] at request
    split at request
    next here =>
      cases request
      obtain ⟨rfl, number⟩ := here
      exact ⟨part, schemaId, timestampNs, pairs, called, number, stamped ▸ stamp_pairs ..⟩
    next => cases request
  | _ => cases request

end Runs

section Results

variable (env : Partition.Externals) (decode : Bytes → Option Command) (topic : String)
  (partition : UInt32)

/-- Whatever a fetch call returns is the log's, and each record of it is a pair of some produce call
of the run: the key and the value byte for byte, the schema id, and the timestamp if it set one. -/
theorem fetched_sent {schedule : List Action} {s : State}
    (inverse : ∀ c ∈ commands schedule, decode c.encode = some c)
    (clean : (machine env decode topic partition).Along (Clean env decode topic partition) schedule
      (machine env decode topic partition).initial)
    (ran : (machine env decode topic partition).execute schedule
      (machine env decode topic partition).initial = some s)
    {resp : Kafkrs.FetchResponse} (answered : response s = some resp) {id : UInt64} {bytes : Bytes}
    (encoded : encodeFrame (handleFetch id (.ok resp)) = .ok bytes)
    (reads : decode (handleFetch id (.ok resp)).command.encode =
      some (handleFetch id (.ok resp)).command)
    (name : String) (part fromOffset maxRecords maxWaitMs : Int) :
    ∃ out, clientReads decode (.fetch name part fromOffset maxRecords maxWaitMs) bytes =
        some (.ok (.fetched out (Int64.ofInt resp.hwm).toInt)) ∧
      ∀ got ∈ out, ∃ r, s.broker.partition.history.log[got.offset.toNat]? = some r ∧
        got = fetched r ∧ ∃ (calledPart schemaId timestampNs : Int) (pairs : List (Bytes × Bytes)),
          .produce topic calledPart pairs schemaId timestampNs ∈ made schedule ∧
          uint32Field calledPart = some partition ∧ (got.key, got.value) ∈ pairs ∧
          got.schemaId = schemaId ∧ (timestampNs ≠ 0 → got.timestampNs = timestampNs) := by
  have faithful := run_faithful inverse initial_faithful clean ran
  rw [List.nil_append] at faithful
  have records := faithful.carried answered
  refine ⟨resp.records.map fetched, ?_, fun got member => ?_⟩
  · rw [clientReads_encoded reads encoded,
      finish_fetch fun r member => (records r member).2.1]
  · obtain ⟨r, inside, rfl⟩ := List.mem_map.mp member
    obtain ⟨known, _, here⟩ := records r inside
    obtain ⟨calledPart, pairs, schemaId, timestampNs, called, number, pair, listed, written⟩ :=
      known.origin
    refine ⟨r, here, rfl, calledPart, schemaId, timestampNs, pairs, called, number, ?_,
      written.schemaId, written.timestampNs⟩
    rwa [fetched, written.key, written.value]

/-- While no commit finds two requests waiting, a client that has been told its offsets knows where
its pairs are: any fetch from then on, after however many uploads and crashes, that returns one of
these offsets returns the pair that was sent at that place. -/
theorem written_read {first second : List Action} {s t : State}
    (inverse : ∀ c ∈ commands (first ++ second), decode c.encode = some c)
    (clean : (machine env decode topic partition).Along (Clean env decode topic partition)
      (first ++ second) (machine env decode topic partition).initial)
    (single : (machine env decode topic partition).Along (Single decode topic partition)
      (first ++ second) (machine env decode topic partition).initial)
    (ran : (machine env decode topic partition).execute first
      (machine env decode topic partition).initial = some s)
    (later : (machine env decode topic partition).execute second s = some t)
    {l : Partition.Live} (live : s.broker.partition.live = some l) {p : Produced}
    (acked : p ∈ l.writer.produced) :
    ∃ (calledPart schemaId timestampNs : Int) (pairs : List (Bytes × Bytes)),
      .produce topic calledPart pairs schemaId timestampNs ∈ made first ∧
      uint32Field calledPart = some partition ∧
      (∀ id bytes, encodeFrame (produceReply id p.response) = .ok bytes →
        decode (produceReply id p.response).command.encode =
          some (produceReply id p.response).command →
        clientReads decode (.produce topic calledPart pairs schemaId timestampNs) bytes =
          some (.ok (.offsets p.response.baseOffset (p.response.baseOffset + pairs.length - 1)))) ∧
      ∀ resp id bytes, response t = some resp → encodeFrame (handleFetch id (.ok resp)) = .ok bytes →
        decode (handleFetch id (.ok resp)).command.encode =
          some (handleFetch id (.ok resp)).command →
        ∀ name part fromOffset maxRecords maxWaitMs, ∃ out hwm,
          clientReads decode (.fetch name part fromOffset maxRecords maxWaitMs) bytes =
            some (.ok (.fetched out hwm)) ∧
          ∀ got ∈ out, ∀ i (bound : i < pairs.length),
            got.offset = p.response.baseOffset + i → (got.key, got.value) = pairs[i] := by
  obtain ⟨cleanFirst, cleanSecond⟩ := (Machine.along_append ran).mp clean
  obtain ⟨singleFirst, _⟩ := (Machine.along_append ran).mp single
  have inverseFirst (c : Command) (member : c ∈ commands first) : decode c.encode = some c :=
    inverse c (by rw [commands, List.flatMap_append]; exact List.mem_append_left _ member)
  have inverseSecond (c : Command) (member : c ∈ commands second) : decode c.encode = some c :=
    inverse c (by rw [commands, List.flatMap_append]; exact List.mem_append_right _ member)
  have faithful := run_faithful inverseFirst initial_faithful cleanFirst ran
  have down : Promising topic partition [] (machine env decode topic partition).initial :=
    fun l none => by cases none
  have promising := run_promising inverseFirst initial_faithful down cleanFirst singleFirst ran
  have faithful' := run_faithful inverseSecond faithful cleanSecond later
  obtain ⟨part, schemaId, timestampNs, pairs, called, number, stored⟩ := promising.called live acked
  have promised := promising l live
  have numbered := StableReads.log_numbered faithful.sourced.base.whole
  obtain ⟨ordered, ended⟩ := promised.offsets acked
  have length : p.stored.length = pairs.length := by rw [← stored, List.length_map]
  refine ⟨part, schemaId, timestampNs, pairs, called, number, fun id bytes encoded reads => ?_,
    fun resp id bytes answered encoded reads name part fromOffset maxRecords maxWaitMs => ?_⟩
  · -- the two offsets are those of records in the log, so they fit their fields
    have fits (r : Record) (inside : r ∈ p.stored) : 0 ≤ r.offset ∧ r.offset < 2 ^ 63 := by
      have logged := promised.kept p acked r inside
      exact ⟨(numbered.mem_bounds logged).1, (faithful.held.log r logged).offset⟩
    obtain ⟨first, isFirst, based⟩ := Option.map_eq_some_iff.mp (promised.accurate p acked).1
    obtain ⟨final, isFinal, last⟩ := Option.map_eq_some_iff.mp (promised.accurate p acked).2
    have low := fits first (List.mem_of_head? isFirst)
    have high := fits final (List.mem_of_getLast? isFinal)
    rw [based] at low
    rw [last] at high
    have base := Int64.toInt_ofInt_of_le (show -2 ^ 63 ≤ p.response.baseOffset by omega) low.2
    have top := Int64.toInt_ofInt_of_le (show -2 ^ 63 ≤ p.response.lastOffset by omega) high.2
    rw [ended, length] at top
    rw [clientReads_encoded reads encoded]
    simp only [Call.finish, produceReply, Option.bind_some, Call.content, base, ended, length, top]
  · have records := faithful'.carried answered
    refine ⟨resp.records.map fetched, (Int64.ofInt resp.hwm).toInt, ?_,
      fun got member i bound place => ?_⟩
    · rw [clientReads_encoded reads encoded,
        finish_fetch fun r member => (records r member).2.1]
    · obtain ⟨r, inside, rfl⟩ := List.mem_map.mp member
      have here := (records r inside).2.2
      have kept := promised.placed numbered acked (show i < p.stored.length by omega)
      obtain ⟨more, grown⟩ := run_log later
      rw [show r.offset = p.response.baseOffset + i from place, ← grown,
        List.getElem?_append_left (List.getElem?_eq_some_iff.mp kept).1, kept] at here
      have isStored := Option.some.inj here
      simp only [← stored, List.getElem_map, fetched, isStored]

end Results

section Sample

instance (env : Partition.Externals) (decode : Bytes → Option Command) (topic : String)
    (partition : UInt32) (s : State) (action : Action) :
    Decidable (Clean env decode topic partition s action) :=
  inferInstanceAs (Decidable (∀ taken ∈ effect decode topic partition s action, _))

instance (p : Partition.State) : DecidablePred (SingleCommit p)
  | .writer => decidable_of_iff
      (∀ l ∈ p.live, l.writer.phase = .commit → l.writer.pendingAcks.length ≤ 1) Iff.rfl
  | .interrupt _ | .start _ | .sendOrphan | .openWriter | .produce _ _ | .commitTimeout
  | .updateWriter _ | .segmentDurable | .shutdownWriter | .enqueue _ | .uploader _ | .crash _ =>
    .isTrue trivial

instance (decode : Bytes → Option Command) (topic : String) (partition : UInt32) (s : State)
    (action : Action) : Decidable (Single decode topic partition s action) :=
  have (taken : Fetcher.Action) : Decidable (match taken with
      | .partition taken => SingleCommit s.broker.partition taken
      | _ => True) := by
    cases taken <;> infer_instance
  inferInstanceAs (Decidable (∀ taken ∈ effect decode topic partition s action, _))

def put : Call := .produce "t" 0 [([107], [1, 2, 3, 4]), ([108], [5, 6])] 7 1000

def get : Call := .fetch "t" 0 0 10 0

def decodeKnown (known : List Command) (bytes : Bytes) : Option Command :=
  known.find? fun c => c.encode == bytes

def putRun : List Action :=
  [.broker (.partition (.start Partition.settings)), .broker (.partition .openWriter),
    .call 0 1 put, .receive 0 Partition.settings (fun _ => 0), .broker (.partition .writer)]

/-- The segment is uploaded, and the broker crashes and comes back; then a fetch on another. -/
def getRun : List Action :=
  ((RecoveredLog.handOver ++ RecoveredLog.upload ++
      [.crash 0, .start Partition.settings, .openWriter] : List Partition.Action).map
      fun action => .broker (.partition action)) ++
    [.call 1 2 get, .receive 1 Partition.settings (fun _ => 0), .broker .fetch, .broker .fetch,
      .broker .fetch]

def putReply : Frame := produceReply 1 ⟨0, 1, 1⟩

def getReply : Frame :=
  handleFetch 2 (.ok ⟨[⟨0, 1000, 7, [107], [1, 2, 3, 4]⟩, ⟨1, 1000, 7, [108], [5, 6]⟩], 1⟩)

def decodeRun : Bytes → Option Command :=
  decodeKnown (commands (putRun ++ getRun) ++ [putReply.command, getReply.command])

abbrev sample : Machine State Action := machine Partition.externals decodeRun "t" 0

/-- The run, with what it leaves to be sent. -/
theorem sample_runs : ∃ s t l p resp, sample.execute putRun sample.initial = some s ∧
    sample.execute getRun s = some t ∧ s.broker.partition.live = some l ∧ p ∈ l.writer.produced ∧
    p.response = ⟨0, 1, 1⟩ ∧ response t = some resp ∧ handleFetch 2 (.ok resp) = getReply := by
  have runs : (sample.execute putRun sample.initial).any (fun s =>
      s.broker.partition.live.any (fun l =>
        l.writer.produced.any fun p => decide (p.response = ⟨0, 1, 1⟩)) &&
      (sample.execute getRun s).any fun t =>
        (response t).any fun resp => decide (handleFetch 2 (.ok resp) = getReply)) = true := by
    decide +kernel
  obtain ⟨s, ran, facts⟩ := Option.any_eq_true _ _ |>.mp runs
  obtain ⟨producing, fetching⟩ := Bool.and_eq_true_iff.mp facts
  obtain ⟨l, live, answers⟩ := Option.any_eq_true _ _ |>.mp producing
  obtain ⟨p, acked, told⟩ := List.any_eq_true.mp answers
  obtain ⟨t, later, answer⟩ := Option.any_eq_true _ _ |>.mp fetching
  obtain ⟨resp, answered, sent⟩ := Option.any_eq_true _ _ |>.mp answer
  exact ⟨s, t, l, p, resp, ran, later, live, acked, of_decide_eq_true told, answered,
    of_decide_eq_true sent⟩

theorem sample_inverse : ∀ c ∈ commands (putRun ++ getRun), decodeRun c.encode = some c := by
  decide +kernel

theorem sample_clean :
    sample.Along (Clean Partition.externals decodeRun "t" 0) (putRun ++ getRun) sample.initial := by
  decide +kernel

theorem replies_encoded : encodeFrame putReply = .ok (encoding putReply) ∧
    encodeFrame getReply = .ok (encoding getReply) := by decide +kernel

theorem replies_read : decodeRun putReply.command.encode = some putReply.command ∧
    decodeRun getReply.command.encode = some getReply.command := by decide +kernel

theorem fetched_sent_getRun : ∃ s out hwm,
    sample.execute (putRun ++ getRun) sample.initial = some s ∧
    clientReads decodeRun get (encoding getReply) = some (.ok (.fetched out hwm)) ∧
    ∀ got ∈ out, ∃ r, s.broker.partition.history.log[got.offset.toNat]? = some r ∧ got = fetched r := by
  obtain ⟨s, t, l, p, resp, ran, later, _, _, _, answered, sent⟩ := sample_runs
  have whole : sample.execute (putRun ++ getRun) sample.initial = some t := by
    rw [Machine.execute_append, ran, Option.bind_some, later]
  have encoded : encodeFrame (handleFetch 2 (.ok resp)) = .ok (encoding getReply) := by
    rw [sent]
    exact replies_encoded.2
  obtain ⟨out, read, logged⟩ := fetched_sent Partition.externals decodeRun "t" 0 sample_inverse
    sample_clean whole answered encoded (by rw [sent]; exact replies_read.2) "t" 0 0 10 0
  refine ⟨t, out, _, whole, read, fun got member => ?_⟩
  obtain ⟨r, here, same, _⟩ := logged got member
  exact ⟨r, here, same⟩

theorem written_read_getRun : ∃ out hwm,
    clientReads decodeRun put (encoding putReply) = some (.ok (.offsets 0 1)) ∧
    clientReads decodeRun get (encoding getReply) = some (.ok (.fetched out hwm)) ∧
    ∀ got ∈ out, (got.offset = 0 → (got.key, got.value) = ([107], [1, 2, 3, 4])) ∧
      (got.offset = 1 → (got.key, got.value) = ([108], [5, 6])) := by
  obtain ⟨s, t, l, p, resp, ran, later, live, acked, told, answered, sent⟩ := sample_runs
  have single : sample.Along (Single decodeRun "t" 0) (putRun ++ getRun) sample.initial := by
    decide +kernel
  have encoded : encodeFrame (handleFetch 2 (.ok resp)) = .ok (encoding getReply) := by
    rw [sent]
    exact replies_encoded.2
  obtain ⟨part, schemaId, timestampNs, pairs, called, _, tells, reads⟩ :=
    written_read Partition.externals decodeRun "t" 0 sample_inverse sample_clean single ran later live
      acked
  have only : Call.produce "t" part pairs schemaId timestampNs = put := List.mem_singleton.mp called
  cases only
  obtain ⟨out, hwm, read, placed⟩ := reads resp 2 (encoding getReply) answered encoded
    (by rw [sent]; exact replies_read.2) "t" 0 0 10 0
  rw [told] at tells placed
  refine ⟨out, hwm, tells 1 _ replies_encoded.1 replies_read.1, read, fun got member => ⟨?_, ?_⟩⟩
  · exact placed got member 0 (by decide)
  · exact placed got member 1 (by decide)

end Sample

end Kafkrs.EndToEnd
