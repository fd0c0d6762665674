import LocalAgent.Harness.Ports
import LocalAgent.Recovery.Flags
import Mathlib.Data.List.Sort
import Mathlib.Logic.Function.Basic

/-!
# The SQLite store (`agent-persistence-sqlite/src/lib.rs:1380-1918`)

The tables `runs`, `events`, `checkpoints` and `durable_approvals`. What is serialized into a BLOB
is kept as a value, since SQLite returns bytes as they were written; the checksums compare a BLOB
with itself and are left out. Each function is one immediate transaction: it returns the store
after the commit, or an error and nothing is written. Two of them read before their transaction
begins (`create_durable_approval_wait` the run, `record_durable_approval_decision` the row); they
take the store they read and the store they write as two arguments.
-/
namespace LocalAgent

/-- A row of `runs`, with the row of `checkpoints` and the rows of `events` that refer to it. -/
structure StoredRun where
  sessionId : SessionId
  record : RunRecord
  lastSequence : Option Nat
  terminal : Bool
  throughSequence : Option Nat
  checkpointSchemaVersion : Nat
  checkpoint : DurableCheckpoint
  events : List AgentEvent

/-- A row of `durable_approvals`. -/
structure StoredApproval where
  sessionId : SessionId
  record : DurableApprovalRecord
  keyId : String
  nonce : List UInt8
  status : DurableApprovalStatus
  rowVersion : Nat

structure Store where
  /-- `PRIMARY KEY(run_id)`. -/
  runs : RunId → Option StoredRun
  /-- `PRIMARY KEY(run_id, wait_id)`. -/
  approvals : RunId → DurableApprovalWaitId → Option StoredApproval
  /-- The index of `UNIQUE(key_id, nonce)`. -/
  nonces : List (String × List UInt8)
  /-- The keys of `runs` in the order of their `rowid`, which is the order of insertion. -/
  rowids : List RunId
  /-- The keys of `durable_approvals`. -/
  waits : List (RunId × DurableApprovalWaitId)

/-- `i64::MAX`, the largest INTEGER. -/
def i64Max : Nat := 2 ^ 63 - 1

/-- `restore_store_state` (durable_approval.rs:393). -/
def DurableApprovalRecord.restoreStoreState (r : DurableApprovalRecord)
    (status : DurableApprovalStatus) (rowVersion : Nat) : DurableApprovalRecord :=
  { r with status := status, rowVersion := rowVersion }

/-- `restore_decision_identity` (durable_approval.rs:399). -/
def DurableApprovalRecord.restoreDecisionIdentity (r : DurableApprovalRecord)
    (actor : Option PrincipalId) (timestampUnixMillis : Option Nat) : DurableApprovalRecord :=
  { r with decisionActor := actor, decisionTimestampUnixMillis := timestampUnixMillis }

/-- The status a decision leads to. -/
def DurableApprovalOutcome.status : DurableApprovalOutcome → DurableApprovalStatus
  | .approve => .decisionRecordedApprove
  | .deny => .decisionRecordedDeny

namespace Store

def empty : Store := ⟨fun _ => none, fun _ _ => none, [], [], []⟩

def putRun (s : Store) (run : RunId) (row : StoredRun) : Store :=
  { s with runs := Function.update s.runs run (some row) }

def putApproval (s : Store) (run : RunId) (wait : DurableApprovalWaitId) (row : StoredApproval) :
    Store :=
  { s with
    approvals := Function.update s.approvals run (Function.update (s.approvals run) wait (some row)) }

/-! ## Runs -/

/-- `validate_record_checkpoint` (lib.rs:1903). -/
def validRecordCheckpoint (record : RunRecord) (checkpoint : DurableCheckpoint) : Bool :=
  !(record.storeSchemaVersion ≠ currentStoreSchemaVersion
    || record.checkpointSchemaVersion ≠ currentCheckpointSchemaVersion
    || checkpoint.checkpointSchemaVersion ≠ currentCheckpointSchemaVersion
    || checkpoint.state.key ≠ record.key
    || checkpoint.state.budget ≠ record.budget
    || checkpoint.state.lastSequence.isSome
    || checkpoint.state.status ≠ .pending)

/-- `create_run` (lib.rs:1380). -/
def createRun (s : Store) (record : RunRecord) (checkpoint : DurableCheckpoint) :
    Except PersistencePortError Store :=
  if !validRecordCheckpoint record checkpoint then .error .conflict
  else match s.runs record.key.runId with
    | some _ => .error .conflict
    | none => .ok { s.putRun record.key.runId
        { sessionId := record.key.sessionId, record := record, lastSequence := none
          terminal := false, throughSequence := none
          checkpointSchemaVersion := currentCheckpointSchemaVersion
          checkpoint := checkpoint, events := [] } with
      rowids := s.rowids ++ [record.key.runId] }

/-- The number after the one the writer expects to be the last. -/
def expectedNext (expected : Option Nat) : Nat :=
  match expected with
  | none => 0
  | some sequence => (checkedNext sequence).getD u64Max

/-- What `append_transition_in_transaction` writes. -/
def StoredRun.append (row : StoredRun) (t : AppendTransition) : StoredRun :=
  let row := { row with
    events := row.events ++ [t.event]
    lastSequence := some t.event.sequence
    terminal := row.terminal || t.event.kind.isRunFinished }
  match t.checkpoint with
  | none => row
  | some checkpoint => { row with
      throughSequence := some t.event.sequence
      checkpointSchemaVersion := checkpoint.checkpointSchemaVersion
      checkpoint := checkpoint }

/-- `append_transition` (lib.rs:1420) and `append_transition_in_transaction` (lib.rs:1454). -/
def appendTransition (s : Store) (t : AppendTransition) : Except PersistencePortError Store :=
  if t.event.runId ≠ t.key.runId || t.event.schemaVersion ≠ currentEventSchemaVersion
      || t.checkpoint.any (fun checkpoint =>
        checkpoint.checkpointSchemaVersion ≠ currentCheckpointSchemaVersion
          || checkpoint.state.key ≠ t.key
          || checkpoint.state.lastSequence ≠ some t.event.sequence) then .error .conflict
  else if t.event.sequence ≠ expectedNext t.expectedSequence then .error .conflict
  else match s.runs t.key.runId with
    | none => .error .conflict
    | some row =>
      if row.sessionId ≠ t.key.sessionId || row.lastSequence ≠ t.expectedSequence then
        .error .conflict
      else if row.events.any (fun e => e.sequence = t.event.sequence) then .error .conflict
      else .ok (s.putRun t.key.runId (StoredRun.append row t))

/-- The loop of `load_run` over the events, in the order of their numbers. -/
def checkEvents (key : RunKey) (n : Nat) : List AgentEvent → Except PersistencePortError Unit
  | [] => .ok ()
  | e :: events =>
    if e.schemaVersion ≠ currentEventSchemaVersion then .error .unsupportedVersion
    else if e.sequence ≠ n || e.runId ≠ key.runId then .error .corrupt
    else checkEvents key (n + 1) events

/-- `load_run` (lib.rs:1786). -/
def loadRun (s : Store) (key : RunKey) : Except PersistencePortError LoadedRun :=
  match s.runs key.runId with
  | none => .error .unavailable
  | some row =>
    if row.sessionId ≠ key.sessionId then .error .corrupt
    else if row.record.key ≠ key || row.record.storeSchemaVersion ≠ currentStoreSchemaVersion
        || row.record.checkpointSchemaVersion ≠ currentCheckpointSchemaVersion then
      .error .unsupportedVersion
    else if row.checkpointSchemaVersion ≠ currentCheckpointSchemaVersion
        || row.checkpoint.checkpointSchemaVersion ≠ currentCheckpointSchemaVersion then
      .error .unsupportedVersion
    else if row.checkpoint.state.key ≠ key
        || row.checkpoint.state.lastSequence ≠ row.throughSequence then .error .corrupt
    else
      let events := row.events.insertionSort fun a b => a.sequence ≤ b.sequence
      match checkEvents key 0 events with
      | .error e => .error e
      | .ok _ =>
        if row.lastSequence ≠ events.getLast?.map AgentEvent.sequence
            || row.terminal ≠ events.getLast?.any (fun e => e.kind.isRunFinished) then
          .error .corrupt
        else .ok ⟨row.record, row.checkpoint, events⟩

/-! ## Durable approvals -/

/-- Does the event suspend the run in this wait? -/
def suspendsIn (waitId : DurableApprovalWaitId) : AgentEventKind → Bool
  | .graph (.graphSuspended _ _ wait _ _ _ _ _) => wait = waitId
  | _ => false

/-- `create_durable_approval_wait` (lib.rs:1543). -/
def createDurableApprovalWait (read s : Store) (t : AppendTransition)
    (record : DurableApprovalRecord) : Except PersistencePortError Store :=
  match read.loadRun t.key with
  | .error e => .error e
  | .ok run =>
    if record.status ≠ .waiting || record.rowVersion ≠ 0 || record.binding.key ≠ t.key
        || record.binding.requester ≠ run.record.authorization.map (·.requester)
        || !suspendsIn record.binding.waitId t.event.kind then .error .conflict
    else match s.appendTransition t with
      | .error e => .error e
      | .ok s =>
        if (s.approvals t.key.runId record.binding.waitId).isSome
            || s.nonces.contains (record.sealedAction.keyId, record.sealedAction.nonce) then
          .error .conflict
        else .ok { s.putApproval t.key.runId record.binding.waitId
            { sessionId := t.key.sessionId, record := record
              keyId := record.sealedAction.keyId, nonce := record.sealedAction.nonce
              status := .waiting, rowVersion := 0 } with
          nonces := (record.sealedAction.keyId, record.sealedAction.nonce) :: s.nonces
          waits := s.waits ++ [(t.key.runId, record.binding.waitId)] }

/-- `load_durable_approval_wait` (lib.rs:1588). A version beyond `i64` is no INTEGER. -/
def loadDurableApprovalWait (s : Store) (key : RunKey) (waitId : DurableApprovalWaitId) :
    Except PersistencePortError DurableApprovalRecord :=
  match s.approvals key.runId waitId with
  | none => .error .unavailable
  | some row =>
    if row.rowVersion > i64Max then .error .failed
    else if row.sessionId ≠ key.sessionId then .error .corrupt
    else if !row.record.sealedAction.isValid then .error .corrupt
    else if row.record.binding.key ≠ key || row.record.binding.waitId ≠ waitId
        || row.record.sealedAction.keyId ≠ row.keyId || row.record.sealedAction.nonce ≠ row.nonce then
      .error .corrupt
    else .ok (row.record.restoreStoreState row.status row.rowVersion)

/-- Does the event record this decision? -/
def recordsDecision (command : DurableApprovalDecisionCommand) : AgentEventKind → Bool
  | .durableApprovalDecisionRecorded waitId requestId outcome rowVersion actor =>
    waitId = command.waitId && requestId = command.approvalRequestId && outcome = command.outcome
      && actor = command.actor && rowVersion = min (command.expectedRowVersion + 1) u64Max
  | _ => false

/-- The `UPDATE durable_approvals SET status, row_version = row_version + 1 WHERE ..`. -/
def advance (s : Store) (key : RunKey) (waitId : DurableApprovalWaitId)
    (expected : DurableApprovalStatus) (version : Nat) (next : DurableApprovalStatus)
    (update : DurableApprovalRecord → DurableApprovalRecord) : Except PersistencePortError Store :=
  if version > i64Max then .error .conflict
  else match s.approvals key.runId waitId with
    | none => .error .conflict
    | some row =>
      if row.sessionId ≠ key.sessionId || row.status ≠ expected || row.rowVersion ≠ version then
        .error .conflict
      else .ok (s.putApproval key.runId waitId { row with
        record := update row.record, status := next, rowVersion := row.rowVersion + 1 })

/-- `record_durable_approval_decision` (lib.rs:1667). -/
def recordDurableApprovalDecision (read s : Store) (t : AppendTransition)
    (command : DurableApprovalDecisionCommand) : Except PersistencePortError Store :=
  match read.loadDurableApprovalWait command.key command.waitId with
  | .error e => .error e
  | .ok record =>
    if record.status ≠ .waiting || record.rowVersion ≠ command.expectedRowVersion
        || record.binding.approvalRequestId ≠ command.approvalRequestId
        || record.binding.actionProposalId ≠ command.actionProposalId
        || record.binding.toolCallId ≠ command.toolCallId
        || record.binding.actionDigest ≠ command.actionDigest
        || !recordsDecision command t.event.kind then .error .conflict
    else match s.appendTransition t with
      | .error e => .error e
      | .ok s => s.advance command.key command.waitId .waiting command.expectedRowVersion
          command.outcome.status fun _ =>
            (record.restoreStoreState command.outcome.status
              (min (command.expectedRowVersion + 1) u64Max)).restoreDecisionIdentity command.actor
                command.decidedAtUnixMillis

/-- `transition_durable_approval_status` (lib.rs:1727). -/
def transitionDurableApprovalStatus (s : Store) (request : DurableApprovalStatusTransition) :
    Except PersistencePortError Store :=
  let written : Except PersistencePortError Store := match request.transition with
    | none => .ok s
    | some t => if t.key ≠ request.key then .error .conflict else s.appendTransition t
  match written with
  | .error e => .error e
  | .ok s => s.advance request.key request.waitId request.expectedStatus request.expectedRowVersion
      request.nextStatus id

/-! ## What a committed write has found and left -/

section

variable {read s s' : Store} {t : AppendTransition} {run : RunId} {row : StoredRun}

@[simp] theorem putRun_self : (s.putRun run row).runs run = some row := Function.update_self ..

theorem putRun_of_ne {other : RunId} (h : other ≠ run) : (s.putRun run row).runs other = s.runs other :=
  Function.update_of_ne h ..

@[simp] theorem putRun_approvals : (s.putRun run row).approvals = s.approvals := rfl

@[simp] theorem putApproval_runs {wait : DurableApprovalWaitId} {a : StoredApproval} :
    (s.putApproval run wait a).runs = s.runs := rfl

@[simp] theorem putApproval_self {wait : DurableApprovalWaitId} {a : StoredApproval} :
    (s.putApproval run wait a).approvals run wait = some a := by simp [putApproval]

theorem putApproval_of_ne {wait other : DurableApprovalWaitId} {run' : RunId} {a : StoredApproval}
    (h : run' ≠ run ∨ other ≠ wait) :
    (s.putApproval run wait a).approvals run' other = s.approvals run' other := by
  by_cases hrun : run' = run
  · subst hrun
    have hwait : other ≠ wait := h.resolve_left fun hne => hne rfl
    simp [putApproval, Function.update_of_ne hwait]
  · simp [putApproval, Function.update_of_ne hrun]

theorem createRun_ok {record : RunRecord} {checkpoint : DurableCheckpoint}
    (h : s.createRun record checkpoint = .ok s') :
    validRecordCheckpoint record checkpoint = true ∧ s.runs record.key.runId = none ∧
      s' = { s.putRun record.key.runId
        { sessionId := record.key.sessionId, record := record, lastSequence := none
          terminal := false, throughSequence := none
          checkpointSchemaVersion := currentCheckpointSchemaVersion
          checkpoint := checkpoint, events := [] } with
        rowids := s.rowids ++ [record.key.runId] } := by
  unfold createRun at h
  split at h
  · cases h
  · rename_i hvalid
    split at h
    · cases h
    · rename_i hnone
      cases h
      exact ⟨by simpa using hvalid, hnone, rfl⟩

/-- An accepted transition: it continues the stored log of its run. -/
structure Appended (s : Store) (t : AppendTransition) (row : StoredRun) : Prop where
  stored : s.runs t.key.runId = some row
  session : row.sessionId = t.key.sessionId
  last : row.lastSequence = t.expectedSequence
  next : t.event.sequence = expectedNext t.expectedSequence
  fresh : ∀ e ∈ row.events, e.sequence ≠ t.event.sequence
  run : t.event.runId = t.key.runId
  version : t.event.schemaVersion = currentEventSchemaVersion
  checkpoint : ∀ cp, t.checkpoint = some cp →
    cp.checkpointSchemaVersion = currentCheckpointSchemaVersion ∧ cp.state.key = t.key ∧
      cp.state.lastSequence = some t.event.sequence

theorem appendTransition_ok (h : s.appendTransition t = .ok s') :
    ∃ row, Appended s t row ∧ s' = s.putRun t.key.runId (StoredRun.append row t) := by
  unfold appendTransition at h
  split at h
  · cases h
  · rename_i hform
    split at h
    · cases h
    · rename_i hnext
      split at h
      · cases h
      · rename_i row hrow
        split at h
        · cases h
        · rename_i hlast
          split at h
          · cases h
          · rename_i hfresh
            cases h
            simp only [Bool.or_eq_true, decide_eq_true_eq, not_or, ne_eq, not_not] at hform hlast
            refine ⟨row, ⟨hrow, hlast.1, hlast.2, not_not.mp hnext, by simpa using hfresh,
              hform.1.1, hform.1.2, fun cp hcp => ?_⟩, rfl⟩
            have hcheck := hform.2
            simp only [hcp, Option.any_some, Bool.or_eq_true, decide_eq_true_eq, not_or,
              not_not] at hcheck
            exact ⟨hcheck.1.1, hcheck.1.2, hcheck.2⟩

/-- A transition that continues the stored log is accepted. -/
theorem Appended.committed {row : StoredRun} (h : Appended s t row) :
    s.appendTransition t = .ok (s.putRun t.key.runId (StoredRun.append row t)) := by
  have hcheckpoint : t.checkpoint.any (fun checkpoint =>
      checkpoint.checkpointSchemaVersion ≠ currentCheckpointSchemaVersion
        || checkpoint.state.key ≠ t.key
        || checkpoint.state.lastSequence ≠ some t.event.sequence) = false := by
    cases hcp : t.checkpoint with
    | none => rfl
    | some cp =>
      obtain ⟨hversion, hkey, hlast⟩ := h.checkpoint cp hcp
      simp [hversion, hkey, hlast]
  have hfresh : row.events.any (fun e => e.sequence = t.event.sequence) = false := by
    simpa using h.fresh
  unfold appendTransition
  rw [hcheckpoint, h.stored, if_neg (by simp [h.run, h.version]), if_neg (not_not.mpr h.next)]
  simp only [h.session, h.last, hfresh]
  simp

theorem advance_ok {key : RunKey} {wait : DurableApprovalWaitId}
    {expected next : DurableApprovalStatus} {version : Nat}
    {update : DurableApprovalRecord → DurableApprovalRecord}
    (h : s.advance key wait expected version next update = .ok s') :
    ∃ row, s.approvals key.runId wait = some row ∧ row.sessionId = key.sessionId ∧
      row.status = expected ∧ row.rowVersion = version ∧
      s' = s.putApproval key.runId wait { row with
        record := update row.record, status := next, rowVersion := row.rowVersion + 1 } := by
  unfold advance at h
  split at h
  · cases h
  · split at h
    · cases h
    · rename_i row hrow
      split at h
      · cases h
      · rename_i hmatch
        cases h
        simp only [Bool.or_eq_true, decide_eq_true_eq, not_or, ne_eq, not_not] at hmatch
        exact ⟨row, hrow, hmatch.1.1, hmatch.1.2, hmatch.2, rfl⟩

theorem loadDurableApprovalWait_ok {key : RunKey} {wait : DurableApprovalWaitId}
    {record : DurableApprovalRecord} (h : s.loadDurableApprovalWait key wait = .ok record) :
    ∃ row, s.approvals key.runId wait = some row ∧ row.sessionId = key.sessionId ∧
      row.record.binding.key = key ∧ row.record.binding.waitId = wait ∧
      record = row.record.restoreStoreState row.status row.rowVersion := by
  unfold loadDurableApprovalWait at h
  split at h
  · cases h
  · rename_i row hrow
    split at h
    · cases h
    · split at h
      · cases h
      · rename_i hsession
        split at h
        · cases h
        · split at h
          · cases h
          · rename_i hbinding
            cases h
            simp only [Bool.or_eq_true, decide_eq_true_eq, not_or, ne_eq, not_not] at hbinding
            exact ⟨row, hrow, not_not.mp hsession, hbinding.1.1.1, hbinding.1.1.2, rfl⟩

theorem loadRun_ok {key : RunKey} {loaded : LoadedRun} (h : s.loadRun key = .ok loaded) :
    ∃ row, s.runs key.runId = some row ∧ row.record.key = key ∧ loaded.record = row.record ∧
      loaded.checkpoint = row.checkpoint ∧
      loaded.events = row.events.insertionSort fun a b => a.sequence ≤ b.sequence := by
  unfold loadRun at h
  split at h
  · cases h
  · rename_i row hrow
    split at h
    · cases h
    · split at h
      · cases h
      · rename_i hrecord
        split at h
        · cases h
        · split at h
          · cases h
          · dsimp only at h
            split at h
            · cases h
            · split at h
              · cases h
              · cases h
                simp only [Bool.or_eq_true, decide_eq_true_eq, not_or, ne_eq, not_not] at hrecord
                exact ⟨row, hrow, hrecord.1.1, rfl, rfl, rfl⟩

/-- A new wait: its row did not exist. -/
theorem createDurableApprovalWait_ok {record : DurableApprovalRecord}
    (h : createDurableApprovalWait read s t record = .ok s') :
    ∃ mid, s.appendTransition t = .ok mid ∧ s'.runs = mid.runs ∧
      record.status = .waiting ∧ record.binding.key = t.key ∧
      suspendsIn record.binding.waitId t.event.kind = true ∧
      s.approvals t.key.runId record.binding.waitId = none ∧
      s'.approvals = (s.putApproval t.key.runId record.binding.waitId
        { sessionId := t.key.sessionId, record := record
          keyId := record.sealedAction.keyId, nonce := record.sealedAction.nonce
          status := .waiting, rowVersion := 0 }).approvals := by
  unfold createDurableApprovalWait at h
  split at h
  · cases h
  · split at h
    · cases h
    · rename_i hform
      split at h
      · cases h
      · rename_i mid hmid
        split at h
        · cases h
        · rename_i hfree
          cases h
          obtain ⟨row, -, rfl⟩ := appendTransition_ok hmid
          simp only [Bool.or_eq_true, decide_eq_true_eq, not_or, ne_eq, not_not, Bool.not_eq_true',
            Bool.not_eq_false, Option.not_isSome_iff_eq_none] at hform hfree
          exact ⟨_, hmid, rfl, hform.1.1.1.1, hform.1.1.2, hform.2, hfree.1, rfl⟩

/-- A recorded decision: the row that was read is bound to what the command names, and the row that
is written still waits at the version that was read. -/
structure Decided (read s : Store) (command : DurableApprovalDecisionCommand)
    (found row : StoredApproval) : Prop where
  present : read.approvals command.key.runId command.waitId = some found
  waiting : found.status = .waiting
  version : found.rowVersion = command.expectedRowVersion
  key : found.record.binding.key = command.key
  request : found.record.binding.approvalRequestId = command.approvalRequestId
  proposal : found.record.binding.actionProposalId = command.actionProposalId
  call : found.record.binding.toolCallId = command.toolCallId
  digest : found.record.binding.actionDigest = command.actionDigest
  stored : s.approvals command.key.runId command.waitId = some row
  stillWaiting : row.status = .waiting
  sameVersion : row.rowVersion = command.expectedRowVersion

theorem recordDurableApprovalDecision_ok {command : DurableApprovalDecisionCommand}
    (h : recordDurableApprovalDecision read s t command = .ok s') :
    ∃ mid found row, Decided read s command found row ∧ recordsDecision command t.event.kind = true ∧
      s.appendTransition t = .ok mid ∧ s'.runs = mid.runs ∧
      s'.approvals = (s.putApproval command.key.runId command.waitId { row with
        record := (found.record.restoreStoreState command.outcome.status
          (min (command.expectedRowVersion + 1) u64Max)).restoreDecisionIdentity command.actor
            command.decidedAtUnixMillis
        status := command.outcome.status
        rowVersion := row.rowVersion + 1 }).approvals := by
  unfold recordDurableApprovalDecision at h
  split at h
  · cases h
  · rename_i record hload
    split at h
    · cases h
    · rename_i hform
      split at h
      · cases h
      · rename_i mid hmid
        obtain ⟨found, hfound, -, hkey, -, rfl⟩ := loadDurableApprovalWait_ok hload
        obtain ⟨row, hrow, -, hstatus, hversion, rfl⟩ := advance_ok h
        obtain ⟨run, -, rfl⟩ := appendTransition_ok hmid
        rw [putRun_approvals] at hrow
        simp only [Bool.or_eq_true, decide_eq_true_eq, not_or, ne_eq, not_not, Bool.not_eq_true',
          Bool.not_eq_false] at hform
        obtain ⟨⟨⟨⟨⟨⟨hwaiting, hread⟩, hrequest⟩, hproposal⟩, hcall⟩, hdigest⟩, hevent⟩ := hform
        exact ⟨_, found, row, ⟨hfound, hwaiting, hread, hkey, hrequest, hproposal, hcall, hdigest,
          hrow, hstatus, hversion⟩, hevent, hmid, rfl, rfl⟩

/-- A moved wait: the row stood where the request says. -/
theorem transitionDurableApprovalStatus_ok {request : DurableApprovalStatusTransition}
    (h : s.transitionDurableApprovalStatus request = .ok s') :
    (∀ t, request.transition = some t → t.key = request.key ∧ ∃ mid,
      s.appendTransition t = .ok mid ∧ s'.runs = mid.runs) ∧
    (request.transition = none → s'.runs = s.runs) ∧
    ∃ row, s.approvals request.key.runId request.waitId = some row ∧
      row.status = request.expectedStatus ∧ row.rowVersion = request.expectedRowVersion ∧
      s'.approvals = (s.putApproval request.key.runId request.waitId { row with
        status := request.nextStatus, rowVersion := row.rowVersion + 1 }).approvals := by
  unfold transitionDurableApprovalStatus at h
  cases ht : request.transition with
  | none =>
    simp only [ht] at h
    obtain ⟨row, hrow, -, hstatus, hversion, rfl⟩ := advance_ok h
    exact ⟨fun t h => absurd h (by simp), fun _ => rfl, row, hrow, hstatus, hversion, rfl⟩
  | some t =>
    simp only [ht] at h
    split at h
    · cases h
    · rename_i mid hmid
      split at hmid
      · cases hmid
      · rename_i hkey
        obtain ⟨row, hrow, -, hstatus, hversion, rfl⟩ := advance_ok h
        obtain ⟨run, -, hput⟩ := appendTransition_ok hmid
        subst hput
        refine ⟨fun t' h => ?_, fun h => absurd h (by simp), row, hrow, hstatus, hversion, rfl⟩
        obtain rfl := Option.some.inj h
        exact ⟨not_not.mp hkey, _, hmid, rfl⟩

end

end Store
end LocalAgent
