import LocalAgent.Lib.Runtime
import LocalAgent.Lib.Text
import LocalAgent.Service.Events
import LocalAgent.Store.World

/-!
# The commands of the service (`agent-service/src/lib.rs:475-907, 1029-1180, 1273-1700`)

The methods of `AgentService` that touch the map of active runs, as programs of an asynchronous
runtime. The requests are what a method awaits or shares with others: the ports, the calls of the
harness (a method of the harness is run request by request), the sections under the lock of `active`,
the lifecycle flag and the task tracker. A section under a lock is one request, and so is a load or
a store of the flag. The store of the harness is the SQLite store; the other ports answer freely.

A workflow is foreign code: what it does to the store while it runs is done by `interferes`. The
observer and the start time of a slot are left out. The sessions, their owners and the cancellation
tokens answer freely here (a token is seen only through the harness).
-/
namespace LocalAgent

open Program

/-- `MAX_ACTIVE_RUNS`. -/
def maxActiveRuns : Nat := 32

/-- `MAX_SESSIONS`. -/
def maxSessions : Nat := 256

/-! ## Views -/

/-- `RunDispositionV1`. -/
inductive RunDisposition where
  | starting | running | waiting | resumable | completed | failed | manualReconciliationRequired
deriving DecidableEq, Repr

/-- `RunOutcomeV1`. -/
inductive RunOutcomeView where
  | completed | cancelled | budgetExceeded | failed
deriving DecidableEq, Repr

/-- `ApplicationCitationV1`. -/
structure ApplicationCitation where
  evidenceId : String
  backend : KnowledgeBackendId
  sourceId : String
  referenceId : String
  provenance : Option String
deriving DecidableEq, Repr

/-- `ApplicationResultV1`. -/
inductive ApplicationResult where
  | finalAnswer (answer : String) (citations : List ApplicationCitation)
  | localWriteCompleted (toolCallId : ToolCallId)
  | approvalDenied
deriving DecidableEq, Repr

/-- `WorkflowCompletion`. -/
inductive WorkflowCompletion where
  | noApplicationResult
  | applicationResult (result : ApplicationResult)

inductive WorkflowError where
  | failed | notRestartable

/-- `RunView`. -/
structure RunView where
  sessionId : SessionId
  runId : RunId
  disposition : RunDisposition
  lastSequence : Option Nat
  outcome : Option RunOutcomeView
  workflowId : Option WorkflowId
  result : Option ApplicationResult
  durationMillis : Option Nat

/-- `ActiveRun`. The owner is the call that inserted the slot; the code does not have it. -/
structure ActiveRun where
  key : RunKey
  disposition : RunDisposition
  cancellation : Bool
  workflowId : WorkflowId
  owner : Nat

def ActiveRun.session (run : ActiveRun) : SessionId := run.key.sessionId

/-- `active_view` (lib.rs:1714). -/
def activeView (active : ActiveRun) : RunView :=
  ⟨active.key.sessionId, active.key.runId, active.disposition, none, none, some active.workflowId, none,
    none⟩

/-- `service_outcome` (lib.rs:1760). -/
def serviceOutcome : RunOutcome → RunOutcomeView
  | .completed => .completed
  | .cancelled => .cancelled
  | .budgetExceeded _ => .budgetExceeded
  | .failed _ => .failed

/-- `disposition_kind` (lib.rs:1675). -/
def dispositionKind : RecoveryDisposition → RunDisposition
  | .completed _ => .completed
  | .terminalFailure .. => .failed
  | .resumable _ => .resumable
  | .waiting _ => .waiting
  | .manualReconciliationRequired .. => .manualReconciliationRequired

/-- `disposition_view` (lib.rs:1727). -/
def dispositionView (disposition : RecoveryDisposition) : RunView :=
  let outcome := match disposition with
    | .completed _ => some .completed
    | .terminalFailure _ outcome => some (serviceOutcome outcome)
    | _ => none
  let state := disposition.state
  ⟨state.key.sessionId, state.key.runId, dispositionKind disposition, state.lastSequence, outcome, none,
    none, none⟩

/-- `recovery_contract` (lib.rs:1662). -/
def recoveryContract : RecoveryDisposition → RecoveryContract
  | .completed state | .terminalFailure state _ | .manualReconciliationRequired state _ =>
    state.recoveryContract
  | .resumable run | .waiting run => run.recoveryContract

/-- `project_legacy_unowned` (lib.rs:1708). -/
def projectLegacyUnowned (unowned : Bool) (view : RunView) : RunView :=
  if unowned && view.disposition = .waiting then
    { view with disposition := .manualReconciliationRequired }
  else view

/-- `WaitingStateV1`. -/
inductive WaitingState where
  | waiting | approved | denied | executing
deriving DecidableEq, Repr

/-- `waiting_state` (lib.rs:1768). -/
def waitingState : DurableApprovalStatus → WaitingState
  | .waiting => .waiting
  | .decisionRecordedApprove | .approvedReady => .approved
  | .decisionRecordedDeny => .denied
  | .executing | .consumed => .executing

structure WaitingApprovalView where
  sessionId : SessionId
  runId : RunId
  waitId : DurableApprovalWaitId
  rowVersion : Nat
  state : WaitingState
deriving DecidableEq, Repr

/-- The cursor of a page of waits. -/
abbrev WaitingPageCursor := RunId × DurableApprovalWaitId

/-- `ShutdownReportV1`. -/
structure ShutdownReport where
  cancelledActiveRuns : Nat
  remainingActiveRuns : Nat

/-! ## The service -/

/-- `ConfiguredWorkflow`, up to the futures it runs. A new context is one for the key. -/
structure Workflow where
  id : WorkflowId
  recoveryContract : RecoveryContract
  validateInput : List UInt8 → Bool
  newContext : RunKey → RunContext
  newContext_key : ∀ key, (newContext key).key = key

/-- `AgentService`, without its ports and its shared state. -/
structure AgentService where
  lib : Library
  harness : ExecutionHarness
  workflows : List Workflow
  sha256 : List UInt8 → List UInt8
  /-- `String::from_utf8_lossy`. -/
  fromUtf8Lossy : List UInt8 → String

def AgentService.workflow? (svc : AgentService) (id : WorkflowId) : Option Workflow :=
  svc.workflows.find? (·.id = id)

/-- `recovery_workflows`. -/
def AgentService.recoveryWorkflows (svc : AgentService) : List (RecoveryContract × WorkflowId) :=
  svc.workflows.map fun workflow => (workflow.recoveryContract, workflow.id)

/-- The bytes that a workflow id may have; `dot` for those of `valid_workflow_id`. -/
def workflowIdChar (dot : Bool) (c : Char) : Bool :=
  c.isAlphanum || c = '-' || c = '_' || (dot && c = '.')

/-- `WorkflowId::validate` (lib.rs:143). -/
def WorkflowId.isValid (id : WorkflowId) : Bool :=
  !id.value.isEmpty && id.value.utf8ByteSize ≤ 64 && id.value.toList.all (workflowIdChar false)

/-- `valid_workflow_id` (agent-identity lib.rs:524). -/
def validWorkflowId (value : String) : Bool :=
  !value.isEmpty && value.utf8ByteSize ≤ 96 && value.toList.all (workflowIdChar true)

/-- The id of a workflow is one that an authorization can hold. -/
theorem validWorkflowId_of_isValid {id : WorkflowId} (h : id.isValid = true) :
    validWorkflowId id.value = true := by
  simp only [WorkflowId.isValid, Bool.and_eq_true, List.all_eq_true, decide_eq_true_eq] at h
  obtain ⟨⟨hempty, hsize⟩, hchars⟩ := h
  simp only [validWorkflowId, Bool.and_eq_true, List.all_eq_true, decide_eq_true_eq]
  refine ⟨⟨hempty, by omega⟩, fun c hc => ?_⟩
  have hchar := hchars c hc
  simp only [workflowIdChar, Bool.false_and, Bool.or_false] at hchar
  simp only [workflowIdChar, hchar, Bool.true_or]

/-- `DurableRunAuthorization::new` (agent-identity lib.rs:309). -/
def DurableRunAuthorization.new (owner requester : PrincipalId) (workflowId : String)
    (policyVersion : Nat) (policyFingerprint : Bytes32) : Option DurableRunAuthorization :=
  if policyVersion = 0 || !validWorkflowId workflowId then none
  else some ⟨owner, requester, workflowId, policyVersion, policyFingerprint⟩

/-- The sixteen bytes of a `Uuid`. -/
def uuidBytes (uuid : Nat) : List UInt8 :=
  (List.range 16).map fun i => UInt8.ofNat (uuid / 256 ^ (15 - i) % 256)

/-- `derive_run_id` (lib.rs:1688). -/
def AgentService.deriveRunId (svc : AgentService) (session : SessionId) (request : Nat) : RunId :=
  let digest := svc.sha256 ("enterprise-local-agent/service-start/v1".toUTF8.toList ++
    uuidBytes session.uuid ++ uuidBytes request)
  let bytes := ((digest.take 16).modify 6 fun b => b &&& 0x0f ||| 0x50).modify 8 fun b =>
    b &&& 0x3f ||| 0x80
  ⟨bytes.foldl (fun n b => 256 * n + b.toNat) 0⟩

/-- The longest beginning of a text that fits into so many bytes. -/
def fitting : Nat → List Char → List Char
  | _, [] => []
  | left, c :: rest => if c.utf8Size > left then [] else c :: fitting (left - c.utf8Size) rest

/-- `conversation_title_from_input` (lib.rs:1637). -/
def AgentService.conversationTitle (svc : AgentService) (input : List UInt8) : String :=
  let text := (svc.fromUtf8Lossy input).toList.filter fun c => !Text.isControl c || Text.isWhitespace c
  let words := (text.splitBy fun a b => Text.isWhitespace a = Text.isWhitespace b).filter fun word =>
    !word.any Text.isWhitespace
  let title := fitting maxConversationTitleBytes (List.intercalate [' '] words)
  if title.isEmpty then "New conversation" else String.ofList title

/-! ## Requests -/

inductive AuthorizationAction where
  | createSession | archiveSession | startWorkflow | cancelRun | listWaiting | readApprovalPreview
  | decideApproval | resumeRun | abortWaiting
deriving DecidableEq, Repr

inductive AuthorizationResource where
  | global
  | workflow (id : WorkflowId)
  | ownedSession (owner : PrincipalId)
  | ownedRun (workflowId : String) (owner : PrincipalId)
  | approval (workflowId : String) (owner requester : PrincipalId)

inductive SecurityAuditPhase where
  | authorizationGranted | mutationRequested | mutationCommitted | mutationFailed
deriving DecidableEq, Repr

/-- `SecurityAuditEvent`. -/
structure SecurityAuditEvent where
  phase : SecurityAuditPhase
  actor : PrincipalId
  action : AuthorizationAction
  sessionId : Option SessionId
  runId : Option RunId
  waitId : Option DurableApprovalWaitId

/-- The future that a call hands over to the task tracker. -/
inductive WorkflowTask where
  | run (key : RunKey) (workflow : WorkflowId) (context : RunContext) (input : List UInt8)
  | resume (key : RunKey) (workflow : WorkflowId) (disposition : RecoveryDisposition)
      (waitId : Option DurableApprovalWaitId)

def WorkflowTask.key : WorkflowTask → RunKey
  | .run key .. | .resume key .. => key

/-- The two sections that insert a slot differ in what they answer. -/
inductive Entry where
  | start | resume
deriving DecidableEq, Repr

inductive Reservation where
  | reserved
  | existing (run : ActiveRun)
  | refused (error : ServiceError)

inductive ServiceRequest where
  | harness (r : Request)
  | loadSession (session : SessionId)
  | setTitleIfAbsent (session : SessionId) (owner : PrincipalId) (title : String)
  | archiveSession (session : SessionId) (owner : PrincipalId)
  | createSession (session : SessionId) (owner : PrincipalId)
  /-- `SessionId::new`. -/
  | freshSession
  /-- `sessions.lock().await.len()`. -/
  | sessionCount
  | insertSession (session : SessionId)
  | removeSession (session : SessionId)
  /-- `SystemTime::now`, in milliseconds since the epoch if that can be represented. -/
  | wallClock
  | findRun (key : RunKey)
  | listSessionRuns (session : SessionId) (limit : Nat)
  | listRuns (after : Option RunId) (limit : Nat)
  | listWaiting (after : Option WaitingPageCursor) (limit : Nat)
  | authorize (principal : PrincipalId) (action : AuthorizationAction) (resource : AuthorizationResource)
  /-- `policy_version` and `fingerprint`. -/
  | policy
  | audit (event : SecurityAuditEvent)
  /-- `results.lock().await.get(..)`. -/
  | storedResult (key : RunKey)
  | storeResult (key : RunKey) (result : ApplicationResult)
  /-- `lifecycle.load(..) == LIFECYCLE_DRAINING`. -/
  | lifecycle
  | reserve (entry : Entry) (key : RunKey) (workflow : WorkflowId)
  | release (session : SessionId)
  /-- The section of `start_run` that makes the slot a running one. -/
  | attach (session : SessionId)
  | lookup (session : SessionId)
  /-- `request_cancel` on the handle of a slot. -/
  | requestCancel (key : RunKey)
  | beginDrain
  | closeTasks
  | handles
  | awaitTasks
  | remaining
  | workflow (task : WorkflowTask)
  | spawn (task : WorkflowTask)

@[reducible] def ServiceAnswer : ServiceRequest → Type
  | .harness r => Answer r
  | .loadSession _ => Except IdentityStoreError (Option SessionOwnershipRecord)
  | .setTitleIfAbsent .. | .archiveSession .. | .createSession .. => Except IdentityStoreError Unit
  | .freshSession => SessionId
  | .wallClock => Option Nat
  | .findRun _ => Except PersistencePortError (Option DurableRunSummary)
  | .listSessionRuns .. => Except PersistencePortError (List DurableRunSummary)
  | .listRuns .. => Except PersistencePortError (Paging.Page DurableRunSummary RunId)
  | .listWaiting .. => Except PersistencePortError (Paging.Page DurableWaitingSummary WaitingPageCursor)
  | .policy => Nat × Bytes32
  | .authorize .. | .audit _ | .lifecycle | .attach _ | .awaitTasks => Bool
  | .storedResult _ => Option (ApplicationResult × Nat)
  | .reserve .. => Reservation
  | .lookup _ => Option ActiveRun
  | .handles | .remaining | .sessionCount => Nat
  | .workflow _ => Except WorkflowError WorkflowCompletion
  | .storeResult .. | .release _ | .requestCancel _ | .insertSession _ | .removeSession _ | .beginDrain
  | .closeTasks | .spawn _ => Unit

/-- Where a future can be dropped. -/
def ServiceRequest.awaits : ServiceRequest → Bool
  | .authorize .. | .policy | .lifecycle | .requestCancel _ | .freshSession | .wallClock | .beginDrain
  | .closeTasks | .spawn _ => false
  | .harness .freshUuid | .harness .instantNow | .harness .wallClock | .harness (.isCancelled _) => false
  | _ => true

/-! ## Methods -/

abbrev ServiceM := Task ServiceAnswer ServiceError Unit

/-- One request. -/
def await (r : ServiceRequest) : ServiceM (ServiceAnswer r) := Task.ask r

/-- A program of the harness, run by the service. -/
def onHarness {α : Type} : Prog Answer α → Prog ServiceAnswer α
  | .pure a => .pure a
  | .call r k => .call (.harness r) fun a => onHarness (k a)

section Methods

variable (svc : AgentService)

/-- `ensure_serving` (lib.rs:565). -/
def ensureServing : ServiceM Unit := do
  if ← await .lifecycle then Task.fail .draining else pure ()

/-- `audit_security` (lib.rs:583). -/
def auditSecurity (principal : PrincipalId) (action : AuthorizationAction) (phase : SecurityAuditPhase)
    (key : Option RunKey) (waitId : Option DurableApprovalWaitId) : ServiceM Unit := do
  if ← await (.audit ⟨phase, principal, action, key.map RunKey.sessionId, key.map RunKey.runId, waitId⟩)
    then pure ()
  else Task.fail .securityAudit

/-- `authorize_mutation` (lib.rs:604). -/
def authorizeMutation (principal : PrincipalId) (action : AuthorizationAction)
    (resource : AuthorizationResource) (key : Option RunKey) (waitId : Option DurableApprovalWaitId) :
    ServiceM Unit := do
  if ← await (.authorize principal action resource) then do
    auditSecurity principal action .authorizationGranted key waitId
    auditSecurity principal action .mutationRequested key waitId
  else Task.fail .unauthorized

/-- `audit_mutation_result` (lib.rs:631). -/
def auditMutationResult {α : Type} (principal : PrincipalId) (action : AuthorizationAction)
    (key : Option RunKey) (waitId : Option DurableApprovalWaitId) (result : Except ServiceError α) :
    ServiceM α := do
  auditSecurity principal action
    (match result with
      | .ok _ => .mutationCommitted
      | .error _ => .mutationFailed) key waitId
  Task.ofExcept result

/-- `load_session(..).await?.ok_or(ServiceError::NotFound)?`. -/
def loadSession (session : SessionId) : ServiceM SessionOwnershipRecord := do
  match ← await (.loadSession session) with
  | .error e => Task.fail (.identityStore e)
  | .ok none => Task.fail .notFound
  | .ok (some record) => pure record

/-- A call of the harness, whose error is looked at. -/
def onHarnessM {α : Type} (p : Prog Answer α) : ServiceM α := fun s =>
  (onHarness p).bind fun a => .pure (.ok a, s)

/-- `recover_run` of the harness. -/
def recoverRunOf (key : RunKey) : ServiceM (Except HarnessError RecoveryDisposition) := fun s =>
  (onHarness (recoverRun svc.lib svc.harness key ())).bind fun p => .pure (.ok p.1, s)

/-- `start_run_with_authorization` of the harness, which changes the context. -/
def startRunOf (authorization : DurableRunAuthorization) (context : RunContext) :
    ServiceM (Except HarnessError Unit × RunContext) := fun s =>
  (onHarness (LocalAgent.startRun svc.lib svc.harness (some authorization) context)).bind fun p =>
    .pure (.ok p, s)

/-- `view_for_disposition` (lib.rs:1578). -/
def viewForDisposition (disposition : RecoveryDisposition) : ServiceM RunView := do
  let view := { dispositionView disposition with
    workflowId := svc.recoveryWorkflows.lookup (recoveryContract disposition) }
  match ← await (.storedResult ⟨view.runId, view.sessionId⟩) with
  | none => pure view
  | some (result, duration) => pure { view with
      result := some result
      durationMillis := some duration }

/-- The end of `start_run` for a run that is in the store already (lib.rs:795-817). -/
def startExisting (principal : PrincipalId) (key : RunKey) (workflowId : WorkflowId)
    (summary : DurableRunSummary) : ServiceM RunView :=
  match summary.authorization with
  -- `ok_or(ServiceError::LegacyUnowned)?`
  | none => Task.fail .legacyUnowned
  | some authorization =>
    if authorization.owner ≠ principal || authorization.workflowId ≠ workflowId.value then do
      await (.release key.sessionId)
      Task.fail .unauthorized
    else do
      let result ← (do
        match ← recoverRunOf svc key with
        | .ok disposition => viewForDisposition svc disposition
        | .error e => Task.fail (.harness e)).attempt
      await (.release key.sessionId)
      auditMutationResult principal .startWorkflow (some key) none result

/-- The end of `start_run` for a run that the harness has started (lib.rs:853-906). -/
def launch (principal : PrincipalId) (key : RunKey) (workflowId : WorkflowId) (context : RunContext)
    (input : List UInt8) : ServiceM RunView := do
  auditMutationResult principal .startWorkflow (some key) none (.ok ())
  if ← await (.attach key.sessionId) then do
    -- a run that starts while the service drains is cancelled
    if ← await .lifecycle then do
      match (← await (.lookup key.sessionId)).filter (·.cancellation) with
      | none => pure ()
      | some slot => await (.requestCancel slot.key)
    await (.spawn (.run key workflowId context input))
    pure ⟨key.sessionId, key.runId, .running, some 0, none, some workflowId, none, none⟩
  else Task.fail .conflict

/-- The end of `start_run` for a run that is not in the store (lib.rs:826-852). -/
def startNew (principal : PrincipalId) (key : RunKey) (workflow : Workflow) (input : List UInt8) :
    ServiceM RunView := do
  let (version, fingerprint) ← await .policy
  match DurableRunAuthorization.new principal principal workflow.id.value version fingerprint with
  -- `map_err(|_| ServiceError::Configuration)?`
  | none => Task.fail .configuration
  | some authorization => do
    match ← startRunOf svc authorization (workflow.newContext key) with
    | (.error e, _) => do
      await (.release key.sessionId)
      let _ ← (auditSecurity principal .startWorkflow .mutationFailed (some key) none).attempt
      Task.fail (.harness e)
    | (.ok _, context) => launch principal key workflow.id context input

/-- `start_run` after the slot is taken (lib.rs:785-906). -/
def startReserved (principal : PrincipalId) (key : RunKey) (workflow : Workflow) (input : List UInt8) :
    ServiceM RunView := do
  match ← await (.setTitleIfAbsent key.sessionId principal (svc.conversationTitle input)) with
  | .error e => do
    await (.release key.sessionId)
    Task.fail (.identityStore e)
  | .ok _ =>
    match ← await (.findRun key) with
    | .error e => do
      await (.release key.sessionId)
      Task.fail (.persistence e)
    | .ok (some summary) => startExisting svc principal key workflow.id summary
    | .ok none => startNew svc principal key workflow input

/-- `create_session` (lib.rs:690). -/
def createSession (principal : PrincipalId) : ServiceM SessionId := do
  ensureServing
  authorizeMutation principal .createSession .global none none
  let count ← await .sessionCount
  if count ≥ maxSessions then Task.fail .capacity
  else do
    let session ← await .freshSession
    let created ← await (.createSession session principal)
    auditMutationResult principal .createSession none none (created.mapError .identityStore)
    await (.insertSession session)
    pure session

/-- `start_run` (lib.rs:724). -/
def AgentService.startRun (principal : PrincipalId) (session : SessionId) (request : Nat)
    (workflowId : WorkflowId) (input : List UInt8) : ServiceM RunView := do
  ensureServing
  if !workflowId.isValid then Task.fail .invalidRequest
  else do
    let record ← loadSession session
    if record.owner ≠ principal || record.archived then Task.fail .unauthorized
    else do
      authorizeMutation principal .startWorkflow (.workflow workflowId) none none
      match svc.workflow? workflowId with
      | none => Task.fail .workflowUnavailable
      | some workflow =>
        if !workflow.validateInput input then Task.fail .invalidRequest
        else do
          let key : RunKey := ⟨svc.deriveRunId session request, session⟩
          match ← await (.reserve .start key workflowId) with
          | .existing run => pure (activeView run)
          | .refused e => Task.fail e
          | .reserved => startReserved svc principal key workflow input

/-- `run_authorization` (lib.rs:649). -/
def runAuthorizationOf (key : RunKey) : ServiceM DurableRunAuthorization := do
  Task.ofExcept (runAuthorization (← await (.findRun key)))

/-- The part of `resume_run` that settles what is resumed, by which workflow (lib.rs:1447-1472). -/
def resumable (disposition : RecoveryDisposition) (waitId : Option DurableApprovalWaitId) :
    Except ServiceError WorkflowId := do
  let run ← match disposition with
    | .waiting run => if waitId.isNone then .error .invalidRequest else .ok run
    | .resumable run => if waitId.isSome then .error .invalidRequest else .ok run
    | _ => .error .conflict
  match svc.recoveryWorkflows.lookup run.recoveryContract with
  | none => .error .workflowUnavailable
  | some workflowId =>
    match svc.workflow? workflowId with
    | none => .error .workflowUnavailable
    | some _ => if run.context.runtime.isNone then .error (.context .runtimeUnavailable) else .ok workflowId

/-- `resume_run` (lib.rs:1428). -/
def AgentService.resumeRun (principal : PrincipalId) (key : RunKey)
    (waitId : Option DurableApprovalWaitId) : ServiceM Unit := do
  ensureServing
  let authorization ← runAuthorizationOf key
  authorizeMutation principal .resumeRun (.ownedRun authorization.workflowId authorization.owner)
    (some key) waitId
  match ← recoverRunOf svc key with
  | .error e => Task.fail (.harness e)
  | .ok disposition => do
    let workflowId ← Task.ofExcept (resumable svc disposition waitId)
    match ← await (.reserve .resume key workflowId) with
    | .existing _ => Task.fail .conflict
    | .refused e => Task.fail e
    | .reserved => do
      await (.spawn (.resume key workflowId disposition waitId))
      auditMutationResult principal .resumeRun (some key) waitId (.ok ())

/-- `cancel_active_run` (lib.rs:1144). -/
def cancelActiveRun (principal : PrincipalId) (key : RunKey) : ServiceM Unit := do
  let authorization ← runAuthorizationOf key
  authorizeMutation principal .cancelRun (.ownedRun authorization.workflowId authorization.owner)
    (some key) none
  match ← await (.lookup key.sessionId) with
  | none => Task.fail .conflict
  | some slot =>
    if slot.key ≠ key || !slot.cancellation then Task.fail .conflict
    else do
      await (.requestCancel key)
      auditMutationResult principal .cancelRun (some key) none (.ok ())

/-- The disposition in `history_item` (lib.rs:1606). -/
def historyDisposition (key : RunKey) : ServiceM RunDisposition := do
  match (← await (.lookup key.sessionId)).filter (·.key = key) with
  | some active => pure (activeView active).disposition
  | none => do
    match ← recoverRunOf svc key with
    | .error e => Task.fail (.harness e)
    | .ok disposition => return (← viewForDisposition svc disposition).disposition

/-- The dispositions of a run that keeps its conversation from being archived. -/
def RunDisposition.isOpen : RunDisposition → Bool
  | .starting | .running | .waiting | .resumable | .manualReconciliationRequired => true
  | .completed | .failed => false

/-- The disposition of the latest run, if there is one (lib.rs:1065). -/
def latestDisposition : Option DurableRunSummary → ServiceM (Option RunDisposition)
  | none => pure none
  | some run => do return some (← historyDisposition svc run.key)

/-- `archive_conversation` (lib.rs:1029). -/
def archiveConversation (principal : PrincipalId) (session : SessionId) : ServiceM Unit := do
  ensureServing
  let record ← loadSession session
  if record.archived then Task.fail .conflict
  else do
    authorizeMutation principal .archiveSession (.ownedSession record.owner) none none
    if (← await (.lookup session)).isSome then
      auditMutationResult principal .archiveSession none none (.error .conflict)
    else do
      match ← await (.listSessionRuns session 1) with
      | .error e => Task.fail (.persistence e)
      | .ok runs => do
        let latest ← latestDisposition svc runs.head?
        if latest.any RunDisposition.isOpen then
          auditMutationResult principal .archiveSession none none (.error .conflict)
        else do
          let result := (← await (.archiveSession session principal)).mapError .identityStore
          auditMutationResult principal .archiveSession none none result
          await (.removeSession session)

/-- `submit_decision` (lib.rs:1339). -/
def submitDecision (principal : PrincipalId) (key : RunKey) (waitId : DurableApprovalWaitId)
    (expectedRowVersion : Nat) (outcome : DurableApprovalOutcome) : ServiceM Unit := do
  ensureServing
  let authorization ← runAuthorizationOf key
  authorizeMutation principal .decideApproval
    (.approval authorization.workflowId authorization.owner authorization.requester) (some key) (some waitId)
  match ← await .wallClock with
  | none => Task.fail .conflict
  | some decidedAt => do
    let result ← onHarnessM (recordDurableApprovalOutcome svc.lib svc.harness key waitId expectedRowVersion
      outcome (some (principal, decidedAt)))
    auditMutationResult principal .decideApproval (some key) (some waitId) (result.mapError .harness)

/-- `abort_waiting` (lib.rs:1393). -/
def abortWaiting (principal : PrincipalId) (key : RunKey) (waitId : DurableApprovalWaitId)
    (expectedRowVersion : Nat) : ServiceM Unit := do
  ensureServing
  let authorization ← runAuthorizationOf key
  authorizeMutation principal .abortWaiting (.ownedRun authorization.workflowId authorization.owner)
    (some key) (some waitId)
  let result ← onHarnessM (abortDurableWaiting svc.lib svc.harness key waitId expectedRowVersion)
  auditMutationResult principal .abortWaiting (some key) (some waitId) (result.mapError .harness)

/-- The loop over the runs of a page in `discover_runs` (lib.rs:1563-1570). -/
def discoverItems : List DurableRunSummary → ServiceM (List RunView)
  | [] => pure []
  | item :: rest => do
    match ← recoverRunOf svc item.key with
    | .error e => Task.fail (.harness e)
    | .ok disposition => do
      let view := projectLegacyUnowned item.authorization.isNone (← viewForDisposition svc disposition)
      await (.insertSession view.sessionId)
      return view :: (← discoverItems rest)

/-- The loop over the pages in `discover_runs`; `result` is what earlier pages have given. Every page
with a next one is full, so that the fuel of the caller is never used up. -/
def discoverPages (result : List RunView) (cursor : Option RunId) : Nat → ServiceM (List RunView)
  | 0 => Task.fail .capacity
  | fuel + 1 => do
    match ← await (.listRuns cursor 256) with
    | .error e => Task.fail (.persistence e)
    | .ok page => do
      let result := result ++ (← discoverItems svc page.items)
      match page.next with
      | none => pure result
      | some cursor =>
        if result.length > maxSessions then Task.fail .capacity
        else discoverPages result (some cursor) fuel

/-- `discover_runs` (lib.rs:1558). -/
def discoverRuns : ServiceM (List RunView) := discoverPages svc [] none (maxSessions + 2)

/-- One item of `waiting_page`: the preview is granted, or the item is left out. -/
def waitingItem (principal : PrincipalId) (item : DurableWaitingSummary) :
    ServiceM (Option WaitingApprovalView) := do
  match ← (runAuthorizationOf item.key).attempt with
  | .error _ => pure none
  | .ok authorization =>
    if ← await (.authorize principal .readApprovalPreview
        (.approval authorization.workflowId authorization.owner authorization.requester)) then
      pure (some ⟨item.key.sessionId, item.key.runId, item.waitId, item.rowVersion,
        waitingState item.status⟩)
    else pure none

/-- The loop over the items of a page in `waiting_page`. -/
def waitingItems (principal : PrincipalId) : List DurableWaitingSummary → ServiceM (List WaitingApprovalView)
  | [] => pure []
  | item :: rest => do
    let view ← waitingItem principal item
    return view.toList ++ (← waitingItems principal rest)

/-- `waiting_page` (lib.rs:1273). -/
def waitingPage (principal : PrincipalId) (after : Option WaitingPageCursor) (limit : Nat) :
    ServiceM (List WaitingApprovalView × Option WaitingPageCursor) := do
  if !Store.validPageLimit limit then Task.fail .invalidRequest
  else if ← await (.authorize principal .listWaiting .global) then do
    match ← await (.listWaiting after limit) with
    | .error e => Task.fail (.persistence e)
    | .ok page => return (← waitingItems principal page.items, page.next)
  else Task.fail .unauthorized

/-- `drain` (lib.rs:662); `u16::try_from(..).unwrap_or(u16::MAX)`. -/
def drain : ServiceM ShutdownReport := do
  await .beginDrain
  await .closeTasks
  let cancelled := min (← await .handles) 65535
  if ← await .awaitTasks then do
    let remaining := min (← await .remaining) 65535
    if remaining ≠ 0 then Task.fail .conflict else pure ⟨cancelled, remaining⟩
  else Task.fail .conflict

/-- The workflow of a task, unless it was recovered in a state that it cannot resume. -/
def WorkflowTask.complete (task : WorkflowTask) : ServiceM (Except WorkflowError WorkflowCompletion) :=
  match task with
  | .resume _ _ (.waiting _) none => pure (.ok .noApplicationResult)
  | .run .. | .resume _ _ (.waiting _) _ | .resume _ _ (.resumable _) _ => await (.workflow task)
  | .resume .. => pure (.ok .noApplicationResult)

/-- `if let Ok(ApplicationResult(result)) = completion { service.store_result(..) }`. -/
def storeCompletion (key : RunKey) : Except WorkflowError WorkflowCompletion → ServiceM Unit
  | .ok (.applicationResult result) => await (.storeResult key result)
  | _ => pure ()

/-- The future in a `WorkflowTask` (lib.rs:882-896, 1493-1523). -/
def WorkflowTask.body (task : WorkflowTask) : ServiceM Unit := do
  let completion ← task.complete
  storeCompletion task.key completion
  let _ ← recoverRunOf svc task.key
  await (.release task.key.sessionId)

end Methods

/-! ## The shared state -/

/-- `HashMap::get` on the active runs. -/
def slotOf (active : List ActiveRun) (session : SessionId) : Option ActiveRun :=
  active.find? (·.session = session)

/-- `HashMap::remove`. -/
def removeSlot (session : SessionId) (active : List ActiveRun) : List ActiveRun :=
  active.filter (·.session ≠ session)

/-- The sections under the lock that insert a slot (lib.rs:761-783, 1473-1490). -/
def reserveSlot (draining : Bool) (active : List ActiveRun) (entry : Entry) (run : ActiveRun) :
    Reservation × List ActiveRun :=
  if draining then (.refused .draining, active)
  else match entry, slotOf active run.session with
    | .start, some existing =>
      (if existing.key = run.key then .existing existing else .refused .conflict, active)
    | .resume, some _ => (.refused .conflict, active)
    | .start, none =>
      if active.length ≥ maxActiveRuns then (.refused .capacity, active) else (.reserved, run :: active)
    | .resume, none =>
      if active.length ≥ maxActiveRuns then (.refused .conflict, active) else (.reserved, run :: active)

/-- The slot that a section inserts. -/
def Entry.slot (entry : Entry) (key : RunKey) (workflow : WorkflowId) (owner : Nat) : ActiveRun :=
  match entry with
  | .start => ⟨key, .starting, false, workflow, owner⟩
  | .resume => ⟨key, .running, true, workflow, owner⟩

/-- `slot.disposition = Running; slot.cancellation = Some(..)`. -/
def attachSlot (session : SessionId) (active : List ActiveRun) : List ActiveRun :=
  active.map fun run =>
    if run.session = session then { run with disposition := .running, cancellation := true } else run

/-- What the methods share: the lifecycle flag, the closed flag of the task tracker, the active runs,
and the store. -/
structure ServiceWorld where
  draining : Bool
  closed : Bool
  active : List ActiveRun
  storage : Storage

/-- How a request is answered, and what it does. -/
def ServiceWorld.exec (w : ServiceWorld) (owner : Nat) (idle : Prop) :
    (r : ServiceRequest) → ServiceAnswer r → ServiceWorld → Prop
  | .harness r, a, w' => ∃ st, Served False w.storage r a st ∧ w' = { w with storage := st }
  | .lifecycle, a, w' => a = w.draining ∧ w' = w
  | .reserve entry key workflow, a, w' =>
    (a, w') = ((reserveSlot w.draining w.active entry (entry.slot key workflow owner)).1,
      { w with active := (reserveSlot w.draining w.active entry (entry.slot key workflow owner)).2 })
  | .release session, _, w' => w' = { w with active := removeSlot session w.active }
  | .attach session, a, w' =>
    a = (slotOf w.active session).isSome ∧ w' = { w with active := attachSlot session w.active }
  | .lookup session, a, w' => a = slotOf w.active session ∧ w' = w
  | .beginDrain, _, w' => w' = { w with draining := true }
  | .closeTasks, _, w' => w' = { w with closed := true }
  | .handles, a, w' => a = w.active.countP (·.cancellation) ∧ w' = w
  -- the tracker is closed and empty, or the deadline has passed
  | .awaitTasks, a, w' => (a = true → w.closed = true ∧ idle) ∧ w' = w
  | .remaining, a, w' => a = w.active.length ∧ w' = w
  | _, _, w' => w' = w

/-- Other parties, workflows among them, commit to the store. -/
def ServiceWorld.interferes (w w' : ServiceWorld) : Prop :=
  ∃ c s, w.storage.now.commit c = .ok s ∧ w' = { w with storage := ⟨s, w.storage.now :: w.storage.past⟩ }

/-- A new service finds the store and nothing else. -/
def ServiceWorld.restart (w : ServiceWorld) : ServiceWorld := ⟨false, false, [], w.storage⟩

inductive ServiceCall where
  | startRun (principal : PrincipalId) (session : SessionId) (request : Nat) (workflow : WorkflowId)
      (input : List UInt8)
  | resumeRun (principal : PrincipalId) (key : RunKey) (waitId : Option DurableApprovalWaitId)
  | cancelActiveRun (principal : PrincipalId) (key : RunKey)
  | archiveConversation (principal : PrincipalId) (session : SessionId)
  | createSession (principal : PrincipalId)
  | submitDecision (principal : PrincipalId) (key : RunKey) (waitId : DurableApprovalWaitId)
      (expectedRowVersion : Nat) (outcome : DurableApprovalOutcome)
  | abortWaiting (principal : PrincipalId) (key : RunKey) (waitId : DurableApprovalWaitId)
      (expectedRowVersion : Nat)
  | discoverRuns
  | waitingPage (principal : PrincipalId) (after : Option WaitingPageCursor) (limit : Nat)
  | drain

inductive ServiceOutcome where
  | view (result : Except ServiceError RunView)
  | done (result : Except ServiceError Unit)
  | session (result : Except ServiceError SessionId)
  | runs (result : Except ServiceError (List RunView))
  | waiting (result : Except ServiceError (List WaitingApprovalView × Option WaitingPageCursor))
  | drained (result : Except ServiceError ShutdownReport)
  | ended

/-- Run a method to its end. -/
def finishing {α : Type} (m : ServiceM α) (f : Except ServiceError α → ServiceOutcome) :
    Prog ServiceAnswer ServiceOutcome := (m ()).bind fun p => .pure (f p.1)

def ServiceCall.code (svc : AgentService) : ServiceCall → Prog ServiceAnswer ServiceOutcome
  | .startRun principal session request workflow input =>
    finishing (svc.startRun principal session request workflow input) .view
  | .resumeRun principal key waitId => finishing (svc.resumeRun principal key waitId) .done
  | .cancelActiveRun principal key => finishing (LocalAgent.cancelActiveRun principal key) .done
  | .archiveConversation principal session =>
    finishing (LocalAgent.archiveConversation svc principal session) .done
  | .createSession principal => finishing (LocalAgent.createSession principal) .session
  | .submitDecision principal key waitId expectedRowVersion outcome =>
    finishing (LocalAgent.submitDecision svc principal key waitId expectedRowVersion outcome) .done
  | .abortWaiting principal key waitId expectedRowVersion =>
    finishing (LocalAgent.abortWaiting svc principal key waitId expectedRowVersion) .done
  | .discoverRuns => finishing (LocalAgent.discoverRuns svc) .runs
  | .waitingPage principal after limit =>
    finishing (LocalAgent.waitingPage principal after limit) .waiting
  | .drain => finishing LocalAgent.drain .drained

/-- The service at run time. -/
@[reducible] def AgentService.runtime (svc : AgentService) : Runtime ServiceAnswer where
  Call := ServiceCall
  Job := WorkflowTask
  Outcome := ServiceOutcome
  code := ServiceCall.code svc
  body task := finishing (task.body svc) fun _ => .ended
  awaits := ServiceRequest.awaits
  spawns
    | .spawn task => some task
    | _ => none
  World := ServiceWorld
  exec := ServiceWorld.exec
  interferes := ServiceWorld.interferes
  restart := ServiceWorld.restart

/-- A service that has just been started, on a store. -/
def ServiceWorld.new (storage : Storage) : ServiceWorld := ⟨false, false, [], storage⟩

/-! ## A sample service -/

def sampleWorkflow : Workflow where
  id := ⟨"w"⟩
  recoveryContract := .nonRestartable
  validateInput _ := true
  newContext key := .newWithRecoveryContract key.runId key.sessionId sampleBudget .nonRestartable
  newContext_key _ := rfl

/-- One workflow; the hash of a text is the text. -/
def sampleService : AgentService where
  lib := plainLibrary
  harness := sampleHarness
  workflows := [sampleWorkflow]
  sha256 bytes := bytes
  fromUtf8Lossy _ := ""

/-- The same with a hash that tells requests apart. -/
def distinctService : AgentService := { sampleService with sha256 := List.reverse }

/-- The store answers, and all other ports are favourable. -/
def ServiceWorld.answer (w : ServiceWorld) (owner : Nat) : (r : ServiceRequest) → ServiceAnswer r × ServiceWorld
  | .harness r =>
    let out := w.storage.answer favourable r
    (out.1, { w with storage := out.2 })
  | .loadSession session => (.ok (some ⟨session, ⟨"p"⟩, none, false⟩), w)
  | .setTitleIfAbsent .. | .archiveSession .. | .createSession .. => (.ok (), w)
  | .freshSession => (⟨0⟩, w)
  | .wallClock => (some 1000, w)
  | .findRun key => (w.storage.now.findRun key, w)
  | .listSessionRuns .. => (.ok [], w)
  | .listRuns after limit => (w.storage.now.listRuns limit after, w)
  | .listWaiting after limit => (w.storage.now.listWaiting limit after, w)
  | .policy => ((1, 0#256), w)
  | .authorize .. | .audit _ | .awaitTasks => (true, w)
  | .lifecycle => (w.draining, w)
  | .storedResult _ => (none, w)
  | .reserve entry key workflow =>
    let out := reserveSlot w.draining w.active entry (entry.slot key workflow owner)
    (out.1, { w with active := out.2 })
  | .release session => ((), { w with active := removeSlot session w.active })
  | .attach session => ((slotOf w.active session).isSome, { w with active := attachSlot session w.active })
  | .lookup session => (slotOf w.active session, w)
  | .handles => (w.active.countP (·.cancellation), w)
  | .remaining => (w.active.length, w)
  | .sessionCount => ((0 : Nat), w)
  | .workflow _ => (.ok .noApplicationResult, w)
  | .beginDrain => ((), { w with draining := true })
  | .closeTasks => ((), { w with closed := true })
  | .storeResult .. | .requestCancel _ | .insertSession _ | .removeSession _ | .spawn _ => ((), w)

/-- The store does not refuse, and no wait for the tasks ends before they do. -/
def ServiceWorld.accepts (w : ServiceWorld) (idle : Bool) : ServiceRequest → Bool
  | .harness r => w.storage.accepts favourable r
  | .awaitTasks => w.closed && idle
  | _ => true

def AgentService.player (svc : AgentService) : Runtime.Player svc.runtime where
  answer := ServiceWorld.answer
  accepts := ServiceWorld.accepts
  sound := by
    intro w owner b idle r haccepts hidle
    cases r with
    | harness r => exact ⟨_, Storage.served w.storage r haccepts, rfl⟩
    | awaitTasks =>
      obtain ⟨hclosed, hb⟩ := Bool.and_eq_true_iff.mp haccepts
      exact ⟨fun _ => ⟨hclosed, hidle hb⟩, rfl⟩
    | lifecycle | attach | lookup | handles | remaining => exact ⟨rfl, rfl⟩
    | _ => rfl

/-- Two starts in two sessions. -/
def firstStart : ServiceCall := .startRun ⟨"p"⟩ ⟨1⟩ 7 ⟨"w"⟩ []
def secondStart : ServiceCall := .startRun ⟨"p"⟩ ⟨2⟩ 8 ⟨"w"⟩ []

/-- The process makes its next requests. -/
def acting (pid n : Nat) : List (Runtime.Move distinctService.runtime) := List.replicate n (.act pid)

/-- The state after a scenario, on an empty store. -/
def scenario (moves : List (Runtime.Move distinctService.runtime)) : distinctService.runtime.State :=
  (distinctService.runtime.start (.new ⟨Store.empty, []⟩)).script distinctService.player moves

/-- All moves of the scenario can be made. -/
def scenarioAllowed (moves : List (Runtime.Move distinctService.runtime)) : Bool :=
  (distinctService.runtime.start (.new ⟨Store.empty, []⟩)).allowsAll distinctService.player moves

theorem scenario_reachable (moves : List (Runtime.Move distinctService.runtime))
    (h : scenarioAllowed moves = true) :
    distinctService.runtime.Reachable (fun _ _ => True) (ServiceWorld.new ⟨Store.empty, []⟩) (scenario moves) :=
  Runtime.Reachable.script .start (fun _ _ => trivial) h

end LocalAgent
