import LocalAgent.Service.Runs

/-!
# The service on its database (`agent-persistence-sqlite/src/lib.rs:1120-1355`)

The runtime of the commands, where the ports that answered freely are those of the deployment: the
session tables and the reads of the SQLite store, the set of sessions, and the cancellation tokens.
An access to the database may fail instead, and then changes nothing.
-/
namespace LocalAgent

open Program

namespace SessionStore

/-! ## Owners of sessions -/

/-- `load_session_ownership_from_connection` (lib.rs:1334). -/
def loadFromConnection (s : SessionStore) (session : SessionId) :
    Except IdentityStoreError (Option SessionOwnershipRecord) :=
  match s.rows.lookup session with
  | none => .ok none
  | some record => (s.loadSessionMetadata session).map fun m => some (setMetadata record m)

/-- `load_session_ownership` (lib.rs:1146). -/
def loadSession (s : SessionStore) (session : SessionId) :
    Except IdentityStoreError (Option SessionOwnershipRecord) :=
  match s.rows.lookup session with
  | none => .ok none
  | some record =>
    if record.sessionId ≠ session then .error .corrupt
    else s.loadFromConnection session

/-- `create_session_ownership` (lib.rs:1120). -/
def createSession (s : SessionStore) (record : SessionOwnershipRecord) :
    Except IdentityStoreError SessionStore :=
  if (s.rows.lookup record.sessionId).isSome then .error .conflict
  else .ok { s with rows := s.rows ++ [(record.sessionId, record)] }

/-- `require_session_owner` (lib.rs:1320). -/
def requireSessionOwner (s : SessionStore) (session : SessionId) (owner : PrincipalId) :
    Except IdentityStoreError Unit := do
  match ← s.loadFromConnection session with
  | none => .error .conflict
  | some record => if record.owner ≠ owner || record.archived then .error .conflict else .ok ()

/-- Write the metadata of a session. -/
def writeMetadata (s : SessionStore) (session : SessionId) (m : ConversationMetadata) : SessionStore :=
  { s with metadata := Function.update s.metadata session (some m) }

/-- `set_session_title_if_absent` (lib.rs:1264). -/
def setTitleIfAbsent (s : SessionStore) (session : SessionId) (owner : PrincipalId) (title : String) :
    Except IdentityStoreError SessionStore :=
  if title.isEmpty || title.utf8ByteSize > maxConversationTitleBytes || title.toList.any Text.isControl then
    .error .conflict
  else (s.requireSessionOwner session owner).map fun _ =>
    s.writeMetadata session (match s.metadata session with
      | none => ⟨some title, false⟩
      | some m => { m with title := m.title <|> some title })

/-- `archive_session_ownership` (lib.rs:1296). -/
def archiveSession (s : SessionStore) (session : SessionId) (owner : PrincipalId) :
    Except IdentityStoreError SessionStore :=
  (s.requireSessionOwner session owner).map fun _ =>
    s.writeMetadata session (match s.metadata session with
      | none => ⟨none, true⟩
      | some m => { m with archived := true })

end SessionStore

/-! ## The world of a deployment -/

structure Deployment where
  world : ServiceWorld
  /-- The `sessions` set. -/
  sessions : List SessionId
  owners : SessionStore
  /-- The runs whose token is cancelled. -/
  cancelled : List RunKey

namespace Deployment

def active (w : Deployment) : List ActiveRun := w.world.active

def store (w : Deployment) : Store := w.world.storage.now

/-- A transaction on the session tables: it is done, or fails and changes nothing. -/
def Transacts (w : Deployment) (result : Except IdentityStoreError SessionStore)
    (a : Except IdentityStoreError Unit) (w' : Deployment) : Prop :=
  (∃ owners, result = .ok owners ∧ a = .ok () ∧
      w' = { w with
        world := w'.world
        owners := owners }) ∨
    ∃ e, a = .error e ∧ w' = { w with world := w'.world }

/-- What a request does beside the service. -/
def ports (w : Deployment) : (r : ServiceRequest) → ServiceAnswer r → Deployment → Prop
  | .createSession session owner, a, w' =>
    w.Transacts (w.owners.createSession ⟨session, owner, none, false⟩) a w'
  | .setTitleIfAbsent session owner title, a, w' =>
    w.Transacts (w.owners.setTitleIfAbsent session owner title) a w'
  | .archiveSession session owner, a, w' => w.Transacts (w.owners.archiveSession session owner) a w'
  | .insertSession session, _, w' => w' = { w with
      world := w'.world
      sessions := w.sessions.insert session }
  | .removeSession session, _, w' => w' = { w with
      world := w'.world
      sessions := w.sessions.erase session }
  | .requestCancel key, _, w' => w' = { w with
      world := w'.world
      cancelled := key :: w.cancelled }
  | .handles, _, w' => w' = { w with
      world := w'.world
      cancelled := (w.active.filter (·.cancellation)).map (·.key) ++ w.cancelled }
  | _, _, w' => w' = { w with world := w'.world }

/-- What a read returns, if it does not fail. -/
def reads (w : Deployment) : (r : ServiceRequest) → ServiceAnswer r → Prop
  | .loadSession session, a => a = w.owners.loadSession session ∨ ∃ e, a = .error e
  | .sessionCount, a => a = w.sessions.length
  | .findRun key, a => a = w.store.findRun key ∨ ∃ e, a = .error e
  | .listSessionRuns session limit, a =>
    a = (w.store.listSessionRuns session limit none).map Paging.Page.items ∨ ∃ e, a = .error e
  | .listRuns after limit, a => a = w.store.listRuns limit after ∨ ∃ e, a = .error e
  | .listWaiting after limit, a => a = w.store.listWaiting limit after ∨ ∃ e, a = .error e
  | _, _ => True

def exec (w : Deployment) (owner : Nat) (idle : Prop) (r : ServiceRequest) (a : ServiceAnswer r)
    (w' : Deployment) : Prop :=
  w.world.exec owner idle r a w'.world ∧ w.reads r a ∧ w.ports r a w'

def interferes (w w' : Deployment) : Prop :=
  w.world.interferes w'.world ∧ w' = { w with world := w'.world }

/-- A new service finds the database and nothing else. -/
def restart (w : Deployment) : Deployment := ⟨w.world.restart, [], w.owners, []⟩

def new (storage : Storage) (owners : SessionStore) : Deployment := ⟨.new storage, [], owners, []⟩

end Deployment

/-- The service on its database, at run time. -/
@[reducible] def AgentService.deployed (svc : AgentService) : Runtime ServiceAnswer where
  Call := ServiceCall
  Job := WorkflowTask
  Outcome := ServiceOutcome
  code := ServiceCall.code svc
  body task := finishing (task.body svc) fun _ => .ended
  awaits := ServiceRequest.awaits
  spawns := svc.runtime.spawns
  World := Deployment
  exec := Deployment.exec
  interferes := Deployment.interferes
  restart := Deployment.restart

end LocalAgent
