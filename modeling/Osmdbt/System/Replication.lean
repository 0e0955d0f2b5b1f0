import Osmdbt.General.Protocol
import Osmdbt.System.World

/-! osmdbt-enable-replication and osmdbt-disable-replication: the publication and the
replication slot, which are made and dropped in two transactions. -/

namespace Osmdbt.Replication

open General

/-- The publications and the replication slots of the database server. -/
structure Server where
  publications : List Text := []
  slots : List Text := []

/-- A statement that takes effect when its transaction commits. -/
inductive Statement where
  /-- `CREATE PUBLICATION ... FOR TABLE ONLY nodes, ways, relations` -/
  | createPublication (publication : Text)
  /-- `DROP PUBLICATION IF EXISTS` -/
  | dropPublication (publication : Text)
  deriving DecidableEq

/-- What the two programs ask the server for. Slots are made and dropped at once, whatever
becomes of the transaction. -/
inductive Op where
  | connect
  | prepare
  | version
  | exec (statement : Statement)
  | createSlot (slot : Text)
  | dropSlot (slot : Text)
  | commit (statement : Option Statement)

def Op.Value : Op → Type
  | .version => List Text
  | _ => Unit

def Reply (op : Op) : Type := Except Errno op.Value

abbrev Prog (α : Type) := Program Op Reply Fault α

/-- The effect of a transaction. -/
def Statement.Commits (server : Server) : Statement → Server → Prop
  | .createPublication publication, server' =>
    publication ∉ server.publications ∧ server' = { server with publications := publication :: server.publications }
  | .dropPublication publication, server' =>
    server' = { server with publications := server.publications.filter (· ≠ publication) }

def Done (server : Server) : (op : Op) → Server → Prop
  | .exec (.createPublication publication), server' => publication ∉ server.publications ∧ server' = server
  | .createSlot slot, server' => slot ∉ server.slots ∧ server' = { server with slots := slot :: server.slots }
  | .dropSlot slot, server' => slot ∈ server.slots ∧ server' = { server with slots := server.slots.filter (· ≠ slot) }
  | .commit (some statement), server' => statement.Commits server server'
  | _, server' => server' = server

/-- Every operation can fail and then has no effect. -/
def Step (server : Server) (op : Op) : Reply op → Server → Prop
  | .ok _, server' => Done server op server'
  | .error _, server' => server' = server

def perform (op : Op) : Prog op.Value := do
  match ← Program.request op with
  | .ok value => return value
  | .error _ => Program.raise (.systemError "query failed".toList)

def getDbVersion : Prog Text := do
  let result : List Text ← perform .version
  match result with
  | [row] =>
    if row.take 10 = "PostgreSQL".toList then return row
    else Program.raise (.runtimeError "Database error: Expected version string.".toList)
  | _ => Program.raise (.runtimeError "Database error: Expected exactly one result (version).".toList)

/-- The first transaction of osmdbt-enable-replication. -/
def createPublication (config : Config) : Prog Unit := do
  perform .connect
  perform .prepare
  let _ ← getDbVersion
  perform (.exec (.createPublication config.publication))
  perform (.commit (some (.createPublication config.publication)))

/-- `app` of osmdbt-enable-replication; what it prints is left out. -/
def enableReplication (config : Config) : Prog Unit := do
  createPublication config
  perform (.createSlot config.replicationSlot)
  perform (.commit none)

/-- `app` of osmdbt-disable-replication -/
def disableReplication (config : Config) : Prog Unit := do
  perform .connect
  perform .prepare
  let _ ← getDbVersion
  perform (.dropSlot config.replicationSlot)
  perform (.commit none)
  perform (.exec (.dropPublication config.publication))
  perform (.commit (some (.dropPublication config.publication)))

inductive Phase where
  | before
  | creating
  | enabled
  | dropping
  | disabled
  deriving DecidableEq

/-- Between the two transactions: the publication is there, and the slot is not. -/
def Phase.Between : Phase → Prop
  | .creating => True
  | .dropping => True
  | _ => False

def Phase.Finished : Phase → Prop
  | .enabled => True
  | .disabled => True
  | _ => False

def Phase.next : Phase → (op : Op) → Reply op → Phase
  | .before, .commit (some (.createPublication _)), .ok _ => .creating
  | .creating, .createSlot _, .ok _ => .enabled
  | .before, .dropSlot _, .ok _ => .dropping
  | .dropping, .commit (some (.dropPublication _)), .ok _ => .disabled
  | phase, _, _ => phase

/-- Operations that change nothing. -/
def Op.Quiet : Op → Prop
  | .createSlot _ => False
  | .dropSlot _ => False
  | .commit (some _) => False
  | _ => True

/-- What a process may do in its phase. -/
inductive Allowed (config : Config) : Phase → Op → Prop where
  | quiet {phase : Phase} {op : Op} (quiet : op.Quiet) : Allowed config phase op
  | create : Allowed config .before (.commit (some (.createPublication config.publication)))
  | enable : Allowed config .creating (.createSlot config.replicationSlot)
  | drop : Allowed config .before (.dropSlot config.replicationSlot)
  | disable : Allowed config .dropping (.commit (some (.dropPublication config.publication)))

def protocol (config : Config) : Protocol Op Reply Phase where
  allowed := Allowed config
  possible _ _ := True
  advance := Phase.next

/-- Either of the two programs is started. -/
def Launched (config : Config) (program : Prog Unit) : Prop :=
  program = enableReplication config ∨ program = disableReplication config

/-- Whatever else happens leaves the publication and the slot alone. -/
def Elsewhere (config : Config) (server server' : Server) : Prop :=
  (config.publication ∈ server'.publications ↔ config.publication ∈ server.publications) ∧
    (config.replicationSlot ∈ server'.slots ↔ config.replicationSlot ∈ server.slots)

/-- Any number of processes that enable and disable replication. -/
abbrev Administrators (config : Config) {ι : Type} [DecidableEq ι] :
    Server × (ι → Option (Process Op Reply Fault Unit Phase)) →
      Server × (ι → Option (Process Op Reply Fault Unit Phase)) → Prop :=
  Interleaved (protocol config) Step (Elsewhere config) (Launched config) .before

/-- The publication without the slot. -/
def HalfWay (config : Config) (server : Server) : Prop :=
  config.publication ∈ server.publications ∧ config.replicationSlot ∉ server.slots

section Follows

variable {config : Config} {phase : Phase} {op : Op} {server server' : Server}

theorem next_quiet (quiet : op.Quiet) (reply : Reply op) : phase.next op reply = phase := by
  cases op with
  | createSlot slot => exact quiet.elim
  | dropSlot slot => exact quiet.elim
  | commit statement =>
    cases statement with
    | some statement => exact quiet.elim
    | none => cases phase <;> rfl
  | _ => cases phase <;> rfl

theorem step_quiet (quiet : op.Quiet) {reply : Reply op} (done : Step server op reply server') : server' = server := by
  cases reply with
  | error code => exact done
  | ok value =>
    cases op with
    | createSlot slot => exact quiet.elim
    | dropSlot slot => exact quiet.elim
    | exec statement =>
      cases statement with
      | createPublication publication => exact done.2
      | dropPublication publication => exact done
    | commit statement =>
      cases statement with
      | some statement => exact quiet.elim
      | none => exact done
    | _ => exact done

theorem perform_follows (allowed : Allowed config phase op) :
    (protocol config).Follows (fun value later => later = phase.next op (.ok value)) (fun _ => True)
      (perform op) phase := by
  refine ⟨allowed, fun reply _ => ?_⟩
  cases reply with
  | ok value => exact rfl
  | error code => trivial

theorem quiet_follows (quiet : op.Quiet) :
    (protocol config).Follows (fun _ later => later = phase) (fun _ => True) (perform op) phase :=
  (perform_follows (.quiet quiet)).weaken (fun value _ same => same.trans (next_quiet quiet (.ok value)))

private theorem getDbVersion_follows : (protocol config).Follows (fun _ later => later = phase)
    (fun _ => True) getDbVersion phase := by
  refine Protocol.Follows.bind ((quiet_follows (show Op.version.Quiet from trivial)).weaken ?_)
  rintro (result : List Text) later rfl
  split
  · split
    · exact rfl
    · trivial
  · trivial

/-- Both programs look at the server first. -/
theorem looks_follows {rest : Prog Unit} {post : Unit → Phase → Prop}
    (follows : (protocol config).Follows post (fun _ => True) rest .before) :
    (protocol config).Follows post (fun _ => True)
      (perform .connect >>= fun _ => perform .prepare >>= fun _ => getDbVersion >>= fun _ => rest) .before := by
  refine Protocol.Follows.bind ((quiet_follows (show Op.connect.Quiet from trivial)).weaken ?_)
  rintro _ _ rfl
  refine Protocol.Follows.bind ((quiet_follows (show Op.prepare.Quiet from trivial)).weaken ?_)
  rintro _ _ rfl
  refine Protocol.Follows.bind (getDbVersion_follows.weaken ?_)
  rintro _ _ rfl
  exact follows

theorem createPublication_follows : (protocol config).Follows (fun _ later => later = .creating) (fun _ => True)
    (createPublication config) .before := by
  refine looks_follows (Protocol.Follows.bind ((quiet_follows (show (Op.exec _).Quiet from trivial)).weaken ?_))
  rintro _ _ rfl
  exact perform_follows .create

private theorem enableReplication_follows :
    (protocol config).Follows (fun _ => Phase.Finished) (fun _ => True) (enableReplication config) .before := by
  refine Protocol.Follows.bind (createPublication_follows.weaken ?_)
  rintro _ _ rfl
  refine Protocol.Follows.bind ((perform_follows .enable).weaken ?_)
  rintro _ _ rfl
  exact (quiet_follows (show (Op.commit none).Quiet from trivial)).weaken (fun _ _ same => same ▸ trivial)

private theorem disableReplication_follows :
    (protocol config).Follows (fun _ => Phase.Finished) (fun _ => True) (disableReplication config) .before := by
  refine looks_follows (Protocol.Follows.bind ((perform_follows .drop).weaken ?_))
  rintro _ _ rfl
  refine Protocol.Follows.bind ((quiet_follows (show (Op.commit none).Quiet from trivial)).weaken ?_)
  rintro _ _ rfl
  refine Protocol.Follows.bind ((quiet_follows (show (Op.exec _).Quiet from trivial)).weaken ?_)
  rintro _ _ rfl
  exact (perform_follows .disable).weaken (fun _ _ same => same ▸ trivial)

theorem Launched.follows {program : Prog Unit} (launched : Launched config program) :
    (protocol config).Follows (fun _ => Phase.Finished) (fun _ => True) program .before := by
  rcases launched with rfl | rfl
  · exact enableReplication_follows
  · exact disableReplication_follows

end Follows

section Interleaved

variable {config : Config} {ι : Type} [DecidableEq ι] {server server' : Server} {states : ι → Option Phase}
    {i : ι} {phase : Phase}

/-- Who is between the transactions, and nobody else, leaves the publication without its slot. -/
structure Consistent (config : Config) (server : Server) (states : ι → Option Phase) : Prop where
  published : config.replicationSlot ∈ server.slots → config.publication ∈ server.publications
  halfWay : Exclusive Phase.Between (HalfWay config server) states

theorem next_error (op : Op) (code : Errno) : phase.next op (.error code) = phase := by
  cases op with
  | commit statement => cases phase <;> rcases statement with _ | _ | _ <;> rfl
  | _ => cases phase <;> rfl

theorem Elsewhere.refl (server : Server) : Elsewhere config server server := ⟨Iff.rfl, Iff.rfl⟩

theorem Elsewhere.halfWay (same : Elsewhere config server server') : HalfWay config server' ↔ HalfWay config server :=
  and_congr same.1 (not_congr same.2)

namespace Consistent

variable (consistent : Consistent config server states)
include consistent

theorem stays (same : Elsewhere config server server') (here : states i = some phase) :
    Consistent config server' (Function.update states i (some phase)) := by
  refine ⟨fun slot => same.1.mpr (consistent.published (same.2.mp slot)), consistent.halfWay.keep same.halfWay ?_⟩
  simp [here]

omit [DecidableEq ι] in
theorem between (here : states i = some phase) (holds : phase.Between) : HalfWay config server :=
  consistent.halfWay.held.mpr ⟨i, phase, here, holds⟩

theorem failed {op : Op} {code : Errno} (here : states i = some phase) (same : server' = server) :
    Consistent config server' (Function.update states i (some (phase.next op (.error code)))) := by
  subst same
  rw [next_error]
  exact consistent.stays (Elsewhere.refl _) here

/-- A step of a process. -/
theorem moved {op : Op} {reply : Reply op} (here : states i = some phase) (allowed : Allowed config phase op)
    (done : Step server op reply server') :
    Consistent config server' (Function.update states i (some (phase.next op reply))) := by
  cases allowed with
  | quiet quiet =>
    obtain rfl := step_quiet quiet done
    rw [next_quiet quiet]
    exact consistent.stays (Elsewhere.refl _) here
  | create =>
    cases reply with
    | error code => exact consistent.failed here done
    | ok value =>
      obtain ⟨fresh, rfl⟩ := done
      have noSlot : config.replicationSlot ∉ server.slots := fun slot => fresh (consistent.published slot)
      exact ⟨fun _ => List.mem_cons_self, consistent.halfWay.take (fun half => fresh half.1)
        ⟨List.mem_cons_self, noSlot⟩ trivial⟩
  | enable =>
    cases reply with
    | error code => exact consistent.failed here done
    | ok value =>
      obtain ⟨_, rfl⟩ := done
      have half := consistent.between here trivial
      exact ⟨fun _ => half.1, consistent.halfWay.release here trivial (fun later => later.2 List.mem_cons_self) id⟩
  | drop =>
    cases reply with
    | error code => exact consistent.failed here done
    | ok value =>
      obtain ⟨there, rfl⟩ := done
      have gone : config.replicationSlot ∉ server.slots.filter (· ≠ config.replicationSlot) := by simp
      have published := consistent.published there
      exact ⟨fun slot => absurd slot gone, consistent.halfWay.take (fun half => half.2 there)
        ⟨published, gone⟩ trivial⟩
  | disable =>
    cases reply with
    | error code => exact consistent.failed here done
    | ok value =>
      obtain rfl : server' = { server with publications := server.publications.filter (· ≠ config.publication) } :=
        done
      have half := consistent.between here trivial
      have gone : config.publication ∉ server.publications.filter (· ≠ config.publication) := by simp
      exact ⟨fun slot => absurd slot half.2, consistent.halfWay.release here trivial (fun later => gone later.1) id⟩

end Consistent

omit [DecidableEq ι] in
theorem phases_some {processes : ι → Option (Process Op Reply Fault Unit Phase)}
    {process : Process Op Reply Fault Unit Phase}
    (here : processes i = some process) : phases processes i = some process.phase :=
      congrArg (Option.map Process.phase) here

variable {start : Server} {current later : Server × (ι → Option (Process Op Reply Fault Unit Phase))}

/-- Replication is enabled, or it is not. -/
def Whole (config : Config) (server : Server) : Prop :=
  config.replicationSlot ∈ server.slots ↔ config.publication ∈ server.publications

theorem administrators_consistent (whole : Whole config start)
    (reached : Relation.ReflTransGen (Administrators config) (start, fun _ => none) current) :
    Consistent config current.1 (phases current.2) ∧ ∀ i program phase, current.2 i = some ⟨some program, phase⟩ →
      (protocol config).Follows (fun _ => Phase.Finished) (fun _ => True) program phase := by
  refine Interleaved.invariant (I := fun server states => Consistent config server states)
    ?_ (fun _ launched => launched.follows)
    ?_ (fun _ _ _ _ _ _ _ consistent here allowed done => consistent.moved here allowed done) (fun _ => rfl) ?_ reached
  · intro server server' states consistent same
    have half := same.halfWay
    refine ⟨fun slot => same.1.mpr (consistent.published (same.2.mp slot)), half.trans consistent.halfWay.held, ?_⟩
    exact consistent.halfWay.single
  · intro server states i consistent fresh
    refine ⟨consistent.published, consistent.halfWay.keep Iff.rfl (iff_of_false id ?_)⟩
    simp [fresh]
  · exact ⟨whole.mp, .none (fun half => half.2 (whole.mpr half.1))⟩

/-- In every interleaving a slot has its publication, and a publication without its slot
shows that one process is between its transactions, or was left there. -/
theorem replication_consistent (whole : Whole config start)
    (reached : Relation.ReflTransGen (Administrators config) (start, fun _ => none) current) :
    (config.replicationSlot ∈ current.1.slots → config.publication ∈ current.1.publications) ∧
      (HalfWay config current.1 ↔ ∃ i process, current.2 i = some process ∧ process.phase.Between) ∧
      ∀ i j process process', current.2 i = some process → current.2 j = some process' → process.phase.Between →
        process'.phase.Between → i = j := by
  obtain ⟨consistent, _⟩ := administrators_consistent whole reached
  refine ⟨consistent.published, consistent.halfWay.held.trans ⟨?_, ?_⟩,
    fun i j process process' atI atJ first second => ?_⟩
  · rintro ⟨i, own, here, between⟩
    obtain ⟨process, there, rfl⟩ := Option.map_eq_some_iff.mp here
    exact ⟨i, process, there, between⟩
  · rintro ⟨i, process, there, between⟩
    exact ⟨i, process.phase, phases_some there, between⟩
  · exact consistent.halfWay.single i j _ _ (phases_some atI) (phases_some atJ) first second

/-- Who was not there at `current` has done nothing, and all others are in the phase they were in. -/
def KnownSince (current processes : ι → Option (Process Op Reply Fault Unit Phase)) : Prop :=
  ∀ j process, processes j = some process → process.phase = .before ∨ ∃ earlier, current j = some earlier ∧
    earlier.phase = process.phase

theorem KnownSince.update {first processes : ι → Option (Process Op Reply Fault Unit Phase)}
    (known : KnownSince first processes)
    {j : ι} {process : Process Op Reply Fault Unit Phase}
    (same : process.phase = .before ∨ ∃ old, processes j = some old ∧ old.phase = process.phase) :
    KnownSince first (Function.update processes j (some process)) := by
  intro k other here
  by_cases equal : k = j
  · subst equal
    obtain rfl : process = other := by simpa using here
    rcases same with new | ⟨old, was, phase⟩
    · exact .inl new
    · exact phase ▸ known k old was
  · exact known k other (by simpa [equal] using here)

/-- Since `current` nobody has finished. -/
structure StuckSince (config : Config) (current later : Server × (ι → Option (Process Op Reply Fault Unit Phase)))
    (i : ι) : Prop where
  halfWay : HalfWay config later.1
  halted : ∃ process, later.2 i = some process ∧ process.phase.Between ∧ ¬ process.Live
  known : KnownSince current.2 later.2

theorem StuckSince.step {later' : Server × (ι → Option (Process Op Reply Fault Unit Phase))}
    (stuck : StuckSince config current later i)
    (consistent : Consistent config later.1 (phases later.2))
    (follows : ∀ i program phase, later.2 i = some ⟨some program, phase⟩ →
      (protocol config).Follows (fun _ => Phase.Finished) (fun _ => True) program phase)
    (taken : Administrators config later later') : StuckSince config current later' i := by
  obtain ⟨halfWay, ⟨halted, there, between, dead⟩, known⟩ := stuck
  cases taken with
  | env change => exact ⟨change.halfWay.mpr halfWay, ⟨halted, there, between, dead⟩, known⟩
  | @start s processes program j free begin =>
    have other : i ≠ j := by
      rintro rfl
      cases there.symm.trans free
    exact ⟨halfWay, ⟨halted, (Function.update_of_ne other _ _).trans there, between, dead⟩, known.update (.inl rfl)⟩
  | @stop s processes program phase j running =>
    refine ⟨halfWay, ?_, known.update (.inr ⟨_, running, rfl⟩)⟩
    by_cases same : i = j
    · subst same
      obtain rfl := Option.some.inj (there.symm.trans running)
      exact ⟨_, Function.update_self .., between, fun live => live.2 rfl⟩
    · exact ⟨halted, (Function.update_of_ne same _ _).trans there, between, dead⟩
  | @perform s processes op next phase reply s' j running possible done =>
    have other : i ≠ j := by
      rintro rfl
      obtain rfl := Option.some.inj (there.symm.trans running)
      refine dead ⟨?_, ?_⟩
      · rintro (⟨_, wrong⟩ | ⟨_, wrong⟩) <;> cases wrong
      · rintro ⟨⟩
    have alone (holds : phase.Between) : False :=
      other (consistent.halfWay.single i j halted.phase phase (phases_some there) (phases_some running) between holds)
    have still : s' = s ∧ phase.next op reply = phase := by
      cases reply with
      | error code => exact ⟨done, next_error op code⟩
      | ok value =>
        cases (follows j _ _ running).1 with
        | quiet quiet => exact ⟨step_quiet quiet done, next_quiet quiet _⟩
        | create => exact absurd halfWay.1 done.1
        | enable => exact (alone trivial).elim
        | drop => exact absurd done.1 halfWay.2
        | disable => exact (alone trivial).elim
    obtain ⟨rfl, same⟩ := still
    exact ⟨halfWay, ⟨halted, (Function.update_of_ne other _ _).trans there, between, dead⟩,
      known.update (.inr ⟨_, running, same.symm⟩)⟩

/-- When a process was left between its transactions, nothing changes any more, and no other
process comes to its end that had not done its work before. -/
theorem replication_stuck (whole : Whole config start)
    (reached : Relation.ReflTransGen (Administrators config) (start, fun _ => none) current)
    {process : Process Op Reply Fault Unit Phase}
    (there : current.2 i = some process) (between : process.phase.Between) (dead : ¬ process.Live)
    (more : Relation.ReflTransGen (Administrators config) current later) :
    HalfWay config later.1 ∧ ∀ j ended, later.2 j = some ended → ended.program = some (.pure ()) →
      ∃ earlier, current.2 j = some earlier ∧ earlier.phase.Finished := by
  have stuck : StuckSince config current later i := by
    induction more with
    | refl =>
      refine ⟨?_, ⟨process, there, between, dead⟩, fun j own here => .inr ⟨own, here, rfl⟩⟩
      exact ((replication_consistent whole reached).2.1).mpr ⟨i, process, there, between⟩
    | tail before taken ih =>
      obtain ⟨consistent, follows⟩ := administrators_consistent whole (reached.trans before)
      exact ih.step consistent follows taken
  refine ⟨stuck.halfWay, ?_⟩
  rintro j ⟨_, phase⟩ here rfl
  have finished : phase.Finished := (administrators_consistent whole (reached.trans more)).2 j _ _ here
  rcases stuck.known j _ here with first | ⟨earlier, was, same⟩
  · obtain rfl : phase = .before := first
    exact finished.elim
  · exact ⟨earlier, was, same ▸ finished⟩

private theorem createPublication_ends : (createPublication {}).Ends
    (fun s op reply s' => (protocol {}).possible op reply ∧ Step s op reply s') {} (.ok ())
      ⟨["osm_publication".toList], []⟩ :=
  ⟨.ok (), {}, ⟨trivial, rfl⟩, .ok (), {}, ⟨trivial, rfl⟩, .ok ["PostgreSQL 15.6".toList], {}, ⟨trivial, rfl⟩,
    .ok (), {}, ⟨trivial, List.not_mem_nil, rfl⟩, .ok (), _, ⟨trivial, List.not_mem_nil, rfl⟩, rfl, rfl⟩

/-- One process. -/
def only (process : Process Op Reply Fault Unit Phase) : ℕ → Option (Process Op Reply Fault Unit Phase) :=
  Function.update (fun _ => none) 0 (some process)

/-- osmdbt-enable-replication was stopped after its first transaction. -/
def stopped : Server × (ℕ → Option (Process Op Reply Fault Unit Phase)) :=
  (⟨["osm_publication".toList], []⟩, only ⟨none, .creating⟩)

theorem stopped_reached : Relation.ReflTransGen (Administrators {}) ({}, fun _ => none) stopped := by
  have runs (next : Unit → Prog Unit) : ∃ later, later = Phase.creating ∧ Relation.ReflTransGen (Administrators {})
      (({} : Server), only ⟨some (createPublication {} >>= next), .before⟩)
        (stopped.1, only ⟨some (next ()), later⟩) :=
    Protocol.Follows.runs createPublication_follows createPublication_ends 0 _
  obtain ⟨_, rfl, steps⟩ := runs (fun _ => perform (.createSlot "osm_repl".toList) >>= fun _ => perform (.commit none))
  have started : Administrators {} (({} : Server), fun _ : ℕ => none)
      ({}, only ⟨some (enableReplication {}), .before⟩) :=
    .start 0 rfl (.inl rfl)
  have left (program : Prog Unit) : Administrators {} (stopped.1, only ⟨some program, .creating⟩) stopped := by
    have stop : Administrators {} (stopped.1, only ⟨some program, .creating⟩)
        (stopped.1, Function.update (only ⟨some program, .creating⟩) 0 (some ⟨none, .creating⟩)) :=
          .stop 0 (Function.update_self ..)
    rwa [only, Function.update_idem] at stop
  exact .head started (steps.tail (left _))

theorem replication_consistent_stopped : HalfWay {} stopped.1 ∧ ∃ i process, stopped.2 i = some process ∧
    process.phase.Between := by
  obtain ⟨_, halfWay, _⟩ := @replication_consistent {} ℕ _ {} stopped
    (iff_of_false List.not_mem_nil List.not_mem_nil) stopped_reached
  have half : HalfWay {} stopped.1 := ⟨List.mem_cons_self, List.not_mem_nil⟩
  exact ⟨half, halfWay.mp half⟩

/-- Another process that is started afterwards. -/
theorem replication_stuck_started : ∃ later : Server × (ℕ → Option (Process Op Reply Fault Unit Phase)),
    later.2 1 = some ⟨some (disableReplication {}), .before⟩ ∧ HalfWay {} later.1 ∧
      ∀ j ended, later.2 j = some ended → ended.program = some (.pure ()) →
        ∃ earlier, stopped.2 j = some earlier ∧ earlier.phase.Finished := by
  have started : Administrators {} stopped
      (stopped.1, Function.update stopped.2 1 (some ⟨some (disableReplication {}), .before⟩)) :=
    .start 1 rfl (.inr rfl)
  have dead : ¬ (⟨none, .creating⟩ : Process Op Reply Fault Unit Phase).Live := fun live => live.2 rfl
  obtain ⟨half, none⟩ := @replication_stuck {} ℕ _ 0 {} stopped _ (iff_of_false List.not_mem_nil List.not_mem_nil)
    stopped_reached
    ⟨none, .creating⟩ rfl trivial dead (.single started)
  exact ⟨_, rfl, half, none⟩

end Interleaved

end Osmdbt.Replication
