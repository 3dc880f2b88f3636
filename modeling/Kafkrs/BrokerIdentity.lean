import Kafkrs.Lib.AtomicFile
import Kafkrs.Lib.Machine

/-! Who the broker is: the id of its configuration, or one that it made up at its first boot and
keeps in a file. A boot can fail or die anywhere; the next one finds the file whole or not there. -/
namespace Kafkrs

open Lib Lib.AtomicFile

/-- What `resolve_identity` reads of it. -/
structure BrokerConfig where
  clusterId : Option String
  id : Option String
  advertisedAddress : Option String
  advertisedPort : Option UInt16
  deriving DecidableEq, Repr

structure BrokerIdentity where
  brokerId : String
  clusterId : String
  advertisedHost : String
  advertisedPort : UInt16
  deriving DecidableEq, Repr

inductive IdentityError where
  | missingClusterId
  | ioError (message : String)
  deriving DecidableEq, Repr

def IdentityError.display : IdentityError → String
  | .missingClusterId =>
    "broker.cluster_id must be set in config.toml (it's the human-readable " ++
      "cluster identifier clients use to detect misconfiguration)"
  | .ioError message => s!"identity IO error: {message}"

namespace BrokerIdentity

/-- `data_dir.join("broker_id")`, as it is displayed. -/
def path (dataDir : String) : String :=
  if dataDir = "" ∨ dataDir.endsWith "/" then dataDir ++ "broker_id" else dataDir ++ "/broker_id"

def tmpPath (dataDir : String) : String := path dataDir ++ ".tmp"

/-- Unicode's `White_Space`. -/
def isWhitespace (c : Char) : Bool :=
  (0x09 ≤ c.toNat && c.toNat ≤ 0x0d) || c.toNat == 0x20 || c.toNat == 0x85 || c.toNat == 0xa0 ||
    c.toNat == 0x1680 || (0x2000 ≤ c.toNat && c.toNat ≤ 0x200a) || c.toNat == 0x2028 ||
    c.toNat == 0x2029 || c.toNat == 0x202f || c.toNat == 0x205f || c.toNat == 0x3000

def isAsciiGraphic (c : Char) : Bool := 0x21 ≤ c.toNat && c.toNat ≤ 0x7e

/-- `str::trim`. -/
def trim (s : String) : String :=
  String.ofList ((s.toList.dropWhile isWhitespace).reverse.dropWhile isWhitespace).reverse

def validatePersistedBrokerId (id path : String) : Except IdentityError Unit :=
  if id = "" then
    .error (.ioError (s!"broker_id file {path} is empty or whitespace-only " ++
      "(possibly corrupted mid-write; delete the file to auto-regenerate)"))
  else if id.toList.all isAsciiGraphic then .ok ()
  else
    .error (.ioError (s!"broker_id file {path} contains non-printable characters " ++
      "(possibly corrupted mid-write; delete the file to auto-regenerate)"))

/-- What `resolve_broker_id` makes of the file. -/
def persisted (raw : Bytes) (path : String) : Except IdentityError String :=
  match String.fromUTF8? ⟨raw.toArray⟩ with
  | none => .error (.ioError s!"read {path}: stream did not contain valid UTF-8")
  | some text => (validatePersistedBrokerId (trim text) path).map fun _ => trim text

def hex (byte : UInt8) : String :=
  String.ofList [(byte.toNat / 16).digitChar, (byte.toNat % 16).digitChar]

def generateBrokerId (uuid : Fin 16 → UInt8) : String :=
  "brk-" ++ hex (uuid 12) ++ hex (uuid 13) ++ hex (uuid 14) ++ hex (uuid 15)

def utf8 (text : String) : Bytes := text.toUTF8.data.toList

inductive Phase where
  /-- At `path.exists()`. -/
  | looking
  /-- In `read_to_string`. -/
  | reading
  /-- In `create_dir_all`, for a generated id. -/
  | creating (id : String)
  /-- In `atomic_write_broker_id`. -/
  | writing (id : String) (replacement : Replacement)
  /-- `resolve_identity` has returned. -/
  | resolved
  deriving DecidableEq, Repr

structure Boot where
  cfg : BrokerConfig
  address : String
  wirePort : UInt16
  phase : Phase
  deriving DecidableEq, Repr

/-- What a boot made of its configuration, and whether it ended at a call that failed. -/
structure Report where
  cfg : BrokerConfig
  result : Except IdentityError BrokerIdentity
  failed : Bool

/-- At most one process runs on a data directory. No step reads `reports`. -/
structure State where
  files : Files
  boot : Option Boot
  reports : List Report

inductive Action where
  | boot (cfg : BrokerConfig) (address : String) (wirePort : UInt16)
  /-- `path.exists()`, which says no when it cannot look; an id is made of `uuid` if it says no. -/
  | look (able : Bool) (uuid : Fin 16 → UInt8)
  /-- The next call on the file system, and what it reports if it fails. -/
  | step (amount : Nat) (error : Option String)
  /-- The process ends, with whatever of the temporary file on disk. -/
  | crash (tmp : Option Bytes)

section Steps

variable (dataDir : String)

def identity (boot : Boot) (clusterId brokerId : String) : BrokerIdentity where
  brokerId := brokerId
  clusterId := clusterId
  advertisedHost := boot.cfg.advertisedAddress.getD boot.address
  advertisedPort := boot.cfg.advertisedPort.getD boot.wirePort

def resolveIdentity (boot : Boot) (brokerId : Except IdentityError String) :
    Except IdentityError BrokerIdentity :=
  match boot.cfg.clusterId with
  | none => .error .missingClusterId
  | some clusterId => brokerId.map (identity boot clusterId)

def State.resolve (s : State) (boot : Boot) (brokerId : Except IdentityError String) (failed : Bool) :
    State :=
  { s with
    boot := some { boot with phase := .resolved }
    reports := s.reports ++ [⟨boot.cfg, resolveIdentity boot brokerId, failed⟩] }

def State.begin (s : State) (boot : Boot) : State :=
  match boot.cfg.clusterId, boot.cfg.id with
  | none, _ => s.resolve boot (.error .missingClusterId) false
  | some _, some id => s.resolve boot (.ok id) false
  | some _, none => { s with boot := some boot }

def State.fail (s : State) (boot : Boot) (message : String) : State :=
  s.resolve boot (.error (.ioError message)) true

def replaceError (phase : AtomicFile.Phase) (error : String) : String :=
  match phase with
  | .create => s!"create {tmpPath dataDir}: {error}"
  | .write _ => s!"write {tmpPath dataDir}: {error}"
  | .sync => s!"fsync {tmpPath dataDir}: {error}"
  | .rename => s!"rename {tmpPath dataDir} → {path dataDir}: {error}"

def State.advance (s : State) (boot : Boot) (amount : Nat) (error : Option String) : Option State :=
  match boot.phase, error with
  | .reading, some error => some (s.fail boot s!"read {path dataDir}: {error}")
  | .reading, none =>
    s.files.target.map fun raw => s.resolve boot (persisted raw (path dataDir)) false
  | .creating _, some error => some (s.fail boot s!"create data_dir {dataDir}: {error}")
  | .creating id, none =>
    some { s with boot := some { boot with phase := .writing id (.start (utf8 id)) } }
  | .writing _ replacement, some error =>
    some (s.fail boot (replaceError dataDir replacement.phase error))
  | .writing id replacement, none =>
    match replacement.advance amount s.files with
    | (files, .going rest) =>
      some { s with files := files, boot := some { boot with phase := .writing id rest } }
    | (files, .replaced) => some ({ s with files := files }.resolve boot (.ok id) false)
    | (_, .failed) => none
  | .looking, _ | .resolved, _ => none

def State.look (s : State) (boot : Boot) (able : Bool) (uuid : Fin 16 → UInt8) : Option State :=
  match boot.phase with
  | .looking =>
    if able && s.files.target.isSome then some { s with boot := some { boot with phase := .reading } }
    else some { s with boot := some { boot with phase := .creating (generateBrokerId uuid) } }
  | _ => none

def step (action : Action) (s : State) : Option State :=
  match action with
  | .boot cfg address wirePort =>
    match s.boot with
    | none => some (s.begin ⟨cfg, address, wirePort, .looking⟩)
    | some _ => none
  | .look able uuid => s.boot.bind fun boot => s.look boot able uuid
  | .step amount error => s.boot.bind fun boot => s.advance dataDir boot amount error
  | .crash tmp => some { s with files := { s.files with tmp := tmp }, boot := none }

def machine (files : Files) : Machine State Action := ⟨⟨files, none, []⟩, step dataDir⟩

end Steps

def Seen (s : State) : Action → Prop
  | .look able _ => able = true ∨ s.files.target = none
  | _ => True

/-- An id that can be read back: not empty, every character ASCII and visible. -/
structure Graphic (id : String) : Prop where
  nonempty : id ≠ ""
  graphic : id.toList.all isAsciiGraphic = true

section Text

variable {id p : String}

theorem visible_of_graphic {c : Char} (graphic : isAsciiGraphic c = true) :
    isWhitespace c = false := by
  simp only [isAsciiGraphic, Bool.and_eq_true, decide_eq_true_eq] at graphic
  simp only [isWhitespace, Bool.or_eq_false_iff, Bool.and_eq_false_iff, beq_eq_false_iff_ne,
    decide_eq_false_iff_not]
  omega

theorem dropWhile_visible {chars : List Char} (graphic : chars.all isAsciiGraphic = true) :
    chars.dropWhile isWhitespace = chars := by
  cases chars with
  | nil => rfl
  | cons c chars =>
    have first : isAsciiGraphic c = true := List.all_eq_true.mp graphic c List.mem_cons_self
    rw [List.dropWhile_cons_of_neg (by simp [visible_of_graphic first])]

theorem Graphic.trim (good : Graphic id) : trim id = id := by
  have back : id.toList.reverse.all isAsciiGraphic = true := by
    rw [List.all_reverse]
    exact good.graphic
  rw [BrokerIdentity.trim, dropWhile_visible good.graphic, dropWhile_visible back,
    List.reverse_reverse, String.ofList_toList]

theorem Graphic.validated (good : Graphic id) : validatePersistedBrokerId id p = .ok () := by
  rw [validatePersistedBrokerId, if_neg good.nonempty, if_pos good.graphic]

/-- What is written is read back. -/
theorem Graphic.persisted (good : Graphic id) : persisted (utf8 id) p = .ok id := by
  have read : String.fromUTF8? ⟨(utf8 id).toArray⟩ = some id := by
    rw [utf8, Array.toArray_toList, String.fromUTF8?]
    exact dif_pos id.isValidUTF8
  simp only [BrokerIdentity.persisted, read, good.trim, good.validated, Except.map]

theorem graphic_of_persisted {raw : Bytes} (read : BrokerIdentity.persisted raw p = .ok id) :
    Graphic id := by
  unfold BrokerIdentity.persisted at read
  split at read
  · cases read
  next text =>
    unfold validatePersistedBrokerId at read
    split at read
    · cases read
    next nonempty =>
      split at read
      next graphic =>
        cases read
        exact ⟨nonempty, graphic⟩
      · cases read

theorem digitChar_graphic : ∀ n < 16, isAsciiGraphic n.digitChar = true := by decide

theorem hex_graphic (byte : UInt8) : (hex byte).toList.all isAsciiGraphic = true := by
  have high : byte.toNat / 16 < 16 := by
    have := byte.toNat_lt
    omega
  simp [hex, digitChar_graphic _ high, digitChar_graphic _ (Nat.mod_lt byte.toNat (by decide : 16 > 0))]

theorem generateBrokerId_graphic (uuid : Fin 16 → UInt8) : Graphic (generateBrokerId uuid) := by
  refine ⟨fun empty => ?_, ?_⟩
  · have long := congrArg String.length empty
    simp [generateBrokerId] at long
  · simp only [generateBrokerId, String.toList_append, List.all_append, hex_graphic, Bool.and_true]
    decide

end Text

/-- What is on disk is the id that every boot without a configured one has reported, and a boot under
way does not replace it. A boot fails only with one of its calls. -/
structure Kept (dataDir : String) (known : Option String) (s : State) : Prop where
  onDisk : (s.files.target.map fun raw => persisted raw (path dataDir)) = known.map .ok
  reported : ∀ report ∈ s.reports, report.cfg.id = none → ∀ identity, report.result = .ok identity →
    known = some identity.brokerId
  configured : ∀ report ∈ s.reports, ∀ identity, report.result = .ok identity →
    report.cfg.clusterId = some identity.clusterId ∧
      ∀ id, report.cfg.id = some id → identity.brokerId = id
  up : ∀ report ∈ s.reports, report.failed = false → report.cfg.clusterId.isSome →
    ∃ identity, report.result = .ok identity
  unset : ∀ boot, s.boot = some boot → boot.phase ≠ .resolved →
    boot.cfg.id = none ∧ boot.cfg.clusterId.isSome
  reading : ∀ boot, s.boot = some boot → boot.phase = .reading → known.isSome
  creating : ∀ boot id, s.boot = some boot → boot.phase = .creating id → known = none ∧ Graphic id
  writing : ∀ boot id replacement, s.boot = some boot → boot.phase = .writing id replacement →
    known = none ∧ Graphic id ∧ replacement.content = utf8 id ∧ replacement.Along s.files

section Run

variable {dataDir : String} {known : Option String} {s next : State} {boot : Boot}

theorem resolveIdentity_up {id : String} (clustered : boot.cfg.clusterId.isSome) :
    ∃ identity, resolveIdentity boot (.ok id) = .ok identity := by
  obtain ⟨clusterId, found⟩ := Option.isSome_iff_exists.mp clustered
  rw [resolveIdentity, found]
  exact ⟨_, rfl⟩

theorem resolveIdentity_ok {brokerId : Except IdentityError String} {identity : BrokerIdentity}
    (resolved : resolveIdentity boot brokerId = .ok identity) :
    boot.cfg.clusterId = some identity.clusterId ∧ brokerId = .ok identity.brokerId := by
  unfold resolveIdentity at resolved
  split at resolved
  · cases resolved
  next clusterId found =>
    cases brokerId with
    | error e => cases resolved
    | ok id =>
      cases resolved
      exact ⟨found, rfl⟩

/-- A boot that ends: the id it reports, if any, is its configured one or the one on disk. -/
theorem Kept.resolve (kept : Kept dataDir known s) {files : Files} {known' : Option String}
    {brokerId : Except IdentityError String} {failed : Bool}
    (onDisk : (files.target.map fun raw => persisted raw (path dataDir)) = known'.map .ok)
    (grown : ∀ id, known = some id → known' = some id)
    (told : ∀ id, brokerId = .ok id →
      boot.cfg.id = some id ∨ boot.cfg.id = none ∧ known' = some id)
    (up : failed = false → boot.cfg.clusterId.isSome → ∃ id, brokerId = .ok id) :
    Kept dataDir known' ({ s with files := files }.resolve boot brokerId failed) := by
  refine ⟨onDisk, fun report member isUnset identity ok => ?_, fun report member identity ok => ?_,
    fun report member clean clustered => ?_, fun _ same unresolved => ?_, fun _ same phase => ?_,
    fun _ _ same phase => ?_, fun _ _ _ same phase => ?_⟩
  · rcases List.mem_append.mp member with old | new
    · exact grown _ (kept.reported report old isUnset identity ok)
    · obtain rfl := List.mem_singleton.mp new
      rcases told _ (resolveIdentity_ok ok).2 with set | ⟨_, same⟩
      · exact absurd (set.symm.trans isUnset) (by simp)
      · exact same
  · rcases List.mem_append.mp member with old | new
    · exact kept.configured report old identity ok
    · obtain rfl := List.mem_singleton.mp new
      obtain ⟨cluster, isId⟩ := resolveIdentity_ok ok
      refine ⟨cluster, fun id set => ?_⟩
      rcases told _ isId with same | ⟨none, _⟩
      · exact Option.some.inj (same.symm.trans set)
      · exact absurd (set.symm.trans none) (by simp)
  · rcases List.mem_append.mp member with old | new
    · exact kept.up report old clean clustered
    · obtain rfl := List.mem_singleton.mp new
      obtain ⟨id, rfl⟩ := up clean clustered
      exact resolveIdentity_up clustered
  all_goals cases same
  · exact absurd rfl unresolved
  all_goals cases phase

/-- A boot that goes on. -/
theorem Kept.goOn (kept : Kept dataDir known s) {files : Files} {phase : Phase}
    (found : s.boot = some boot) (unresolved : boot.phase ≠ .resolved)
    (target : files.target = s.files.target)
    (reading : phase = .reading → known.isSome)
    (creating : ∀ id, phase = .creating id → known = none ∧ Graphic id)
    (writing : ∀ id replacement, phase = .writing id replacement →
      known = none ∧ Graphic id ∧ replacement.content = utf8 id ∧ replacement.Along files) :
    Kept dataDir known { s with files := files, boot := some { boot with phase := phase } } := by
  refine ⟨target ▸ kept.onDisk, kept.reported, kept.configured, kept.up, fun _ same _ => ?_,
    fun _ same isPhase => ?_, fun _ id same isPhase => ?_, fun _ id replacement same isPhase => ?_⟩
  all_goals cases same
  · exact kept.unset boot found unresolved
  · exact reading isPhase
  · exact creating id isPhase
  · exact writing id replacement isPhase

/-- A step of a boot. Only the rename makes an id known. -/
theorem Kept.advance (kept : Kept dataDir known s) {amount : Nat} {error : Option String}
    (found : s.boot = some boot)
    (taken : s.advance dataDir boot amount error = some next) :
    ∃ known', (∀ id, known = some id → known' = some id) ∧ Kept dataDir known' next := by
  have failed (message : String) : Kept dataDir known (s.fail boot message) :=
    kept.resolve kept.onDisk (fun _ same => same) (fun _ none => by cases none) (by simp)
  simp only [State.advance] at taken
  split at taken
  · cases taken
    exact ⟨known, fun _ same => same, failed _⟩
  next phase =>
    obtain ⟨raw, isRaw, rfl⟩ := Option.map_eq_some_iff.mp taken
    have unset := (kept.unset boot found (by simp [phase])).1
    have read := kept.onDisk
    rw [isRaw, Option.map_some] at read
    obtain ⟨id, isKnown, same⟩ := Option.map_eq_some_iff.mp read.symm
    refine ⟨known, fun _ same => same, kept.resolve kept.onDisk (fun _ same => same) (fun id' ok => ?_)
      fun _ _ => ⟨id, same.symm⟩⟩
    obtain rfl := Except.ok.inj (same.trans ok)
    exact .inr ⟨unset, isKnown⟩
  · cases taken
    exact ⟨known, fun _ same => same, failed _⟩
  next id phase =>
    cases taken
    refine ⟨known, fun _ same => same, kept.goOn found (by simp [phase]) rfl (by simp) (by simp)
      fun id' replacement isWriting => ?_⟩
    cases isWriting
    obtain ⟨isNone, good⟩ := kept.creating boot id found phase
    exact ⟨isNone, good, rfl, start_along _ _⟩
  · cases taken
    exact ⟨known, fun _ same => same, failed _⟩
  next id replacement phase =>
    obtain ⟨isNone, good, content, along⟩ := kept.writing boot id replacement found phase
    split at taken
    next files rest moved =>
      cases taken
      obtain ⟨target, same⟩ := advance_going moved
      refine ⟨known, fun _ same => same, kept.goOn found (by simp [phase]) target (by simp) (by simp)
        fun id' replacement' isWriting => ?_⟩
      cases isWriting
      exact ⟨isNone, good, same.trans content, advance_along along moved⟩
    next files replaced =>
      cases taken
      have target : files.target = some (utf8 id) :=
        (advance_replaced along replaced).trans (congrArg some content)
      refine ⟨some id, fun _ had => absurd (isNone.symm.trans had) (by simp), ?_⟩
      refine kept.resolve ?_ (fun _ had => absurd (isNone.symm.trans had) (by simp)) (fun id' same => ?_)
        fun _ _ => ⟨id, rfl⟩
      · rw [target, Option.map_some, good.persisted]
        rfl
      · cases same
        exact .inr ⟨(kept.unset boot found (by simp [phase])).1, rfl⟩
    · cases taken
  · cases taken
  · cases taken

theorem Kept.begin (kept : Kept dataDir known s) (fresh : boot.phase = .looking) :
    Kept dataDir known (s.begin boot) := by
  unfold State.begin
  split
  next none =>
    refine kept.resolve kept.onDisk (fun _ same => same) (fun _ ok => by cases ok) fun _ clustered => ?_
    rw [none] at clustered
    cases clustered
  next id _ set =>
    refine kept.resolve kept.onDisk (fun _ same => same) (fun id' same => ?_) fun _ _ => ⟨id, rfl⟩
    cases same
    exact .inl set
  next cluster none =>
    refine ⟨kept.onDisk, kept.reported, kept.configured, kept.up, fun _ same _ => ?_, fun _ same phase => ?_,
      fun _ _ same phase => ?_, fun _ _ _ same phase => ?_⟩
    all_goals cases same
    · exact ⟨none, by rw [cluster]; rfl⟩
    all_goals exact absurd (fresh.symm.trans phase) (by simp)

theorem Kept.look (kept : Kept dataDir known s) {able : Bool} {uuid : Fin 16 → UInt8}
    (found : s.boot = some boot) (seen : able = true ∨ s.files.target = none)
    (taken : s.look boot able uuid = some next) : Kept dataDir known next := by
  simp only [State.look] at taken
  split at taken
  next phase =>
    split at taken
    next there =>
      cases taken
      refine kept.goOn found (by simp [phase]) rfl (fun _ => ?_) (by simp) (by simp)
      have read := congrArg Option.isSome kept.onDisk
      rw [Option.isSome_map, Option.isSome_map] at read
      rw [← read]
      exact (Bool.and_eq_true _ _ ▸ there).2
    next missing =>
      cases taken
      refine kept.goOn found (by simp [phase]) rfl (by simp) (fun id isCreating => ?_) (by simp)
      cases isCreating
      have target : s.files.target = none := by
        rcases seen with rfl | none
        · simpa using missing
        · exact none
      have read := kept.onDisk
      rw [target, Option.map_none] at read
      exact ⟨Option.map_eq_none_iff.mp read.symm, generateBrokerId_graphic uuid⟩
  · cases taken

theorem Kept.step {action : Action} (kept : Kept dataDir known s) (seen : Seen s action)
    (taken : step dataDir action s = some next) :
    ∃ known', (∀ id, known = some id → known' = some id) ∧ Kept dataDir known' next := by
  cases action with
  | boot cfg address wirePort =>
    simp only [BrokerIdentity.step] at taken
    split at taken
    · cases taken
      exact ⟨known, fun _ same => same, kept.begin rfl⟩
    · cases taken
  | look able uuid =>
    obtain ⟨boot, found, looked⟩ := Option.bind_eq_some_iff.mp taken
    exact ⟨known, fun _ same => same, kept.look found seen looked⟩
  | step amount error =>
    obtain ⟨boot, found, advanced⟩ := Option.bind_eq_some_iff.mp taken
    exact kept.advance found advanced
  | crash tmp =>
    cases taken
    refine ⟨known, fun _ same => same, kept.onDisk, kept.reported, kept.configured, kept.up, ?_, ?_, ?_, ?_⟩
    all_goals intro boot; intros; simp_all

theorem run_kept {schedule : List Action} {files : Files} (kept : Kept dataDir known s)
    (seen : (machine dataDir files).Along Seen schedule s)
    (ran : (machine dataDir files).execute schedule s = some next) :
    ∃ known', (∀ id, known = some id → known' = some id) ∧ Kept dataDir known' next := by
  induction schedule generalizing s known with
  | nil =>
    cases ran
    exact ⟨known, fun _ same => same, kept⟩
  | cons action schedule ih =>
    obtain ⟨middle, taken, rest⟩ := Machine.execute_cons ran
    obtain ⟨first, grown, kept⟩ := kept.step seen.1 taken
    obtain ⟨last, more, kept⟩ := ih kept (seen.2 middle taken) rest
    exact ⟨last, fun id same => more id (grown id same), kept⟩

end Run

/-- In every run of boots, failures and crashes, from no file or a readable one: a configured id is
what its boot reports; all the boots without one report one and the same id, visible ASCII and the
file's if there was one; and a boot none of whose own calls fails comes up, whatever became of the
others. -/
theorem one_identity (dataDir : String) {files : Files} {known : Option String}
    (found : (files.target.map fun raw => persisted raw (path dataDir)) = known.map .ok)
    {schedule : List Action} {s : State}
    (seen : (machine dataDir files).Along Seen schedule (machine dataDir files).initial)
    (ran : (machine dataDir files).execute schedule (machine dataDir files).initial = some s) :
    (∀ report ∈ s.reports, ∀ identity, report.result = .ok identity →
      report.cfg.clusterId = some identity.clusterId ∧
        ∀ id, report.cfg.id = some id → identity.brokerId = id) ∧
    (∃ id, (∀ other, known = some other → other = id) ∧ ∀ report ∈ s.reports, report.cfg.id = none →
      ∀ identity, report.result = .ok identity → identity.brokerId = id ∧ Graphic id) ∧
    (∀ report ∈ s.reports, report.failed = false → report.cfg.clusterId.isSome →
      ∃ identity, report.result = .ok identity) := by
  have start : Kept dataDir known (machine dataDir files).initial :=
    ⟨found, by simp [machine], by simp [machine], by simp [machine], by simp [machine],
      by simp [machine], by simp [machine], by simp [machine]⟩
  obtain ⟨known', grown, kept⟩ := run_kept start seen ran
  refine ⟨kept.configured, ?_, kept.up⟩
  cases isKnown : known' with
  | none =>
    refine ⟨"", fun other had => ?_, fun report member unset identity ok => ?_⟩
    · exact absurd ((grown other had).symm.trans isKnown) (by simp)
    · exact absurd ((kept.reported report member unset identity ok).symm.trans isKnown) (by simp)
  | some id =>
    have onDisk := kept.onDisk
    rw [isKnown] at onDisk
    obtain ⟨raw, _, read⟩ := Option.map_eq_some_iff.mp onDisk
    refine ⟨id, fun other had => Option.some.inj ((grown other had).symm.trans isKnown),
      fun report member unset identity ok => ⟨?_, graphic_of_persisted read⟩⟩
    exact Option.some.inj ((kept.reported report member unset identity ok).symm.trans isKnown)

section Sample

def unnamed : BrokerConfig := ⟨some "prod-east", none, none, some 9092⟩

/-- The first boot dies in its write; the second has its write cut short; the third comes up, with an
id of its own, and the fourth with the third's. A named boot comes in between. -/
def bootRun : List Action :=
  let boot : Action := .boot unnamed "127.0.0.1" 5432
  let step : Action := .step 7 none
  [boot, .look true (fun i => i.val.toUInt8), step, step, step, .crash (some (utf8 "brk-0c0d")),
    boot, .look true (fun _ => 0), step, step, step, .step 0 (some "No space left on device"), .crash none,
    boot, .look true (fun i => (16 * i.val).toUInt8), step, step, step, step, step, step, step,
    .crash none, .boot { unnamed with id := some "broker-1" } "127.0.0.1" 5432, .crash none,
    boot, .look true (fun _ => 255), step]

def reportedIds (s : State) : List (Option String) :=
  s.reports.map fun report => report.result.toOption.map BrokerIdentity.brokerId

theorem one_identity_bootRun : ((machine "data" ⟨none, none⟩).execute bootRun
    (machine "data" ⟨none, none⟩).initial).map reportedIds =
      some [none, some "brk-c0d0e0f0", some "broker-1", some "brk-c0d0e0f0"] ∧
    ∀ s, (machine "data" ⟨none, none⟩).execute bootRun (machine "data" ⟨none, none⟩).initial = some s →
      ∃ id, ∀ report ∈ s.reports, report.cfg.id = none →
        ∀ identity, report.result = .ok identity → identity.brokerId = id := by
  refine ⟨by decide +kernel, fun s ran => ?_⟩
  obtain ⟨id, _, same⟩ := (@one_identity "data" ⟨none, none⟩ none rfl bootRun s
    (by simp [Machine.Along, Seen, bootRun]) ran).2.1
  exact ⟨id, fun report member unset identity ok => (same report member unset identity ok).1⟩

end Sample

end BrokerIdentity

end Kafkrs
