import LocalAgent.Harness.Ports

/-!
# The guarded helpers of `ExecutionHarness` (`agent-harness/src/execution.rs:2019-2739`)

Every operation of the harness is built from a few guarded steps: check the run, take the next
event, persist it, have it audited, call a port, end the run. This file embeds those steps; the
operations themselves are in `Operations.lean`.

A method on `&mut RunContext` is a `HarnessM` program: its state is the context, and an early
`?` leaves the context as it is at that point. Dropping the future of an operation half way is
the crash of a client (`Lib/System.lean`): the context is gone with it.
-/
namespace LocalAgent

open Program

/-! ## Errors -/

inductive HarnessOperation where
  | startRun | checkpoint | beginIteration | recordLoopProgress | startGraph | enterGraphNode
  | completeGraphNode | finishGraph | invokeModel | retrieveKnowledge | bindModelGrounding
  | prepareAction | invokeValidatedAction | invokeTool | requestApproval | completeRun | failRun
  | cancelRun
deriving DecidableEq, Repr

inductive ExecutionStage where
  | preflight | preInvocationAudit | invocation | postInvocationAudit | lifecycleAudit
deriving DecidableEq, Repr

inductive AuditPhase where
  | beforeInvocation | afterInvocation | lifecycle
deriving DecidableEq, Repr

inductive OperationEffect where
  | notInvoked | invocationStarted | stateCommitted
deriving DecidableEq, Repr

inductive HarnessError where
  | invalidLifecycle (operation : HarnessOperation) (status : RunStatus)
  | budgetExceeded (dimension : BudgetDimension)
  | cancelled (stage : ExecutionStage)
  | deadlineExceeded (stage : ExecutionStage)
  | toolNotFound (name : ToolName)
  | policyDenied (denial : PolicyDenial)
  | auditDegraded
  | approvalRequired
  | capabilityNotExecutable (capability : CapabilityKind)
  | containmentUnavailable (name : ToolName)
  | approvalPortMissing
  | approvalPort (error : ApprovalPortError)
  | approvalDecisionMismatch
  | durableApprovalMismatch
  | actionSeal (error : ActionSealError)
  | approvalDenied
  | containmentPort (error : ContainmentPortError)
  | audit (phase : AuditPhase) (operation : HarnessOperation) (effect : OperationEffect)
      (kind : AuditPortError)
  | modelPort (error : ModelPortError)
  | knowledgePort (error : KnowledgeError)
  | groundingMismatch
  | toolPort (error : ToolPortError)
  | persistence (error : PersistencePortError)
  | recovery (error : RecoveryError)
  | context (error : RunContextError)
deriving DecidableEq

/-- `audit_stage` (execution.rs:2754). -/
def auditStage : AuditPhase → ExecutionStage
  | .beforeInvocation => .preInvocationAudit
  | .afterInvocation => .postInvocationAudit
  | .lifecycle => .lifecycleAudit

/-! ## The harness and its libraries -/

/-- Serialization, hashing and the action decoder, which the harness calls as pure functions.
`decode` is `TextActionDecoder::decode` and `computeActionDigest` is the digest of a tool name, a
capability and arguments (action.rs:310, 432). -/
structure Library where
  codec : EventCodec
  decode : ModelResponse → Except ActionRejectionReason (ToolName × Json)
  validateArgumentLimits : Json → Except ActionRejectionReason Unit
  computeActionDigest : ToolName → CapabilityKind → Json → ActionDigest
  computeToolContractDigest : ToolDefinition → ToolContractDigest

inductive ExecutionBinding where
  | direct | managedDirect | contained
deriving DecidableEq, Repr

/-- `ToolBinding`: the compiled schema is the predicate it decides. -/
structure ToolBinding where
  definition : ToolDefinition
  execution : ExecutionBinding
  validator : Json → Bool

/-- `ToolRegistry`: `register_binding` files every tool under the name in its definition. -/
structure ToolRegistry where
  get : ToolName → Option ToolBinding
  name_of_get : ∀ {name binding}, get name = some binding → binding.definition.name = name

inductive AuditFailurePolicy where
  | failClosed | failOpen
deriving DecidableEq, Repr

/-- `ExecutionHarness`: which optional ports are configured, the registry and the audit policy.
The ports themselves are the environment. -/
structure ExecutionHarness where
  tools : ToolRegistry
  approval : Bool
  persistence : Bool
  knowledge : Bool
  actionSeal : Bool
  workspaceBindingId : Option WorkspaceBindingId
  auditFailurePolicy : AuditFailurePolicy

/-- A method that works on a run context. -/
abbrev HarnessM := Task Answer HarnessError RunContext

/-- Ask the environment of the harness. -/
def ask {σ : Type} (r : Request) : Task Answer HarnessError σ (Answer r) := Task.ask r

section Helpers

variable (lib : Library) (h : ExecutionHarness)

/-! ## Context steps -/

/-- `context.next_event(kind)?`. -/
def nextEvent (kind : AgentEventKind) : HarnessM AgentEvent := do
  let c ← Task.look
  let (result, c') := c.nextEvent lib.codec kind
  Task.put c'
  Task.ofExcept (result.mapError .context)

def markAuditDegraded : HarnessM Unit := do
  Task.put (← Task.look).markAuditDegraded

def markPersistenceFailed : HarnessM Unit := do
  Task.put (← Task.look).markPersistenceFailed

/-- `context.commit_finished(outcome)?`. -/
def commitFinished (outcome : RunOutcome) : HarnessM Unit := do
  match (← Task.look).commitFinished outcome with
  | .error e => Task.fail (.context e)
  | .ok c => Task.put c

/-- `context.cancellation()?; context.deadline_at()?`. -/
def runtime : HarnessM RunRuntime := do
  match (← Task.look).runtime with
  | none => Task.fail (.context .runtimeUnavailable)
  | some r => pure r

/-- `trusted_unix_millis()?` (execution.rs:2743). -/
def trustedUnixMillis {σ : Type} : Task Answer HarnessError σ Nat := do
  match ← ask .wallClock with
  | none => Task.fail (.recovery .clockAmbiguous)
  | some t => pure t

/-- `require_status` (execution.rs:2317). -/
def requireStatus (operation : HarnessOperation) (required : RunStatus) : HarnessM Unit := do
  let c ← Task.look
  if c.persistenceFailed then Task.fail (.persistence .failed)
  else if c.status = required then pure ()
  else Task.fail (.invalidLifecycle operation c.status)

/-! ## Persistence -/

/-- The sequence before that of an event (execution.rs:2460, 2718). -/
def expectedSequenceOf (event : AgentEvent) : Option Nat :=
  match event.sequence with
  | 0 => none
  | n + 1 => some n

/-- `transition_for_event` (execution.rs:2453). -/
def transitionForEvent (c : RunContext) (event : AgentEvent) (checkpoint : Bool) : AppendTransition :=
  ⟨c.key, expectedSequenceOf event, event, if checkpoint then some c.durableCheckpoint else none⟩

/-- `persist_transition` (execution.rs:2712). -/
def persistTransition (event : AgentEvent) : HarnessM Unit :=
  if h.persistence then do
    let c ← Task.look
    match ← ask (.appendTransition (transitionForEvent c event c.durableState.isQuiescent)) with
    | .ok _ => pure ()
    | .error e => do
      markPersistenceFailed
      Task.fail (.persistence e)
  else pure ()

/-! ## Audit -/

inductive AuditOutcome where
  | recorded
  | failed (kind : AuditPortError)
  | cancelled
  | deadlineExceeded
deriving DecidableEq, Repr

/-- `audit_with_run_bounds` (execution.rs:2569). -/
def auditWithRunBounds (event : AgentEvent) : HarnessM AuditOutcome := do
  match (← Task.look).runtime with
  | none => pure (.failed .unavailable)
  | some _ =>
    match ← ask (.audit .bounded event) with
    | .cancelled => pure .cancelled
    | .deadlineExceeded => pure .deadlineExceeded
    | .ready (.ok _) => pure .recorded
    | .ready (.error e) => pure (.failed e)

/-- `timeout(audit_timeout, audit.record(event))`: `none` if it was recorded. -/
def auditWithTimeout (site : AuditSite) (event : AgentEvent) : HarnessM (Option AuditPortError) := do
  match ← ask (.audit site event) with
  | .ready (.ok _) => pure none
  | .ready (.error e) => pure (some e)
  | .cancelled | .deadlineExceeded => pure (some .timedOut)

/-- `audit_terminal_best_effort` (execution.rs:2699). -/
def auditTerminalBestEffort (event : AgentEvent) : HarnessM Unit := do
  match ← (persistTransition h event).attempt with
  | .error _ => markPersistenceFailed
  | .ok _ =>
    match ← auditWithTimeout .terminal event with
    | none => pure ()
    | some _ => markAuditDegraded

/-- The common body of `terminalize_safety` and `terminalize_after_start_audit_failure`. -/
def terminalize (outcome : RunOutcome) : HarnessM Unit := do
  let c ← Task.look
  if c.status = .running then
    match c.commitFinished outcome with
    | .error _ => markAuditDegraded
    | .ok c' => do
      Task.put c'
      match ← (nextEvent lib (.runFinished outcome)).attempt with
      | .ok event => auditTerminalBestEffort h event
      | .error _ => markAuditDegraded
  else pure ()

inductive SafetyTerminalization where
  | cancelled
  | deadlineExceeded
  | budgetExceeded (dimension : BudgetDimension)
deriving DecidableEq, Repr

def SafetyTerminalization.outcome : SafetyTerminalization → RunOutcome
  | .cancelled => .cancelled
  | .deadlineExceeded => .budgetExceeded .elapsed
  | .budgetExceeded d => .budgetExceeded d

/-- `terminalize_safety` (execution.rs:2655). -/
def terminalizeSafety (terminal : SafetyTerminalization) : HarnessM Unit :=
  terminalize lib h terminal.outcome

/-- `terminalize_after_start_audit_failure` (execution.rs:2680). -/
def terminalizeAfterStartAuditFailure : HarnessM Unit :=
  terminalize lib h (.failed .auditUnavailable)

/-- `record_audit_degraded` (execution.rs:2649). -/
def recordAuditDegraded : HarnessM Unit := do
  let event ← nextEvent lib .auditDegraded
  markAuditDegraded
  persistTransition h event

/-- `apply_audit_failure` (execution.rs:2626). -/
def applyAuditFailure (operation : HarnessOperation) (phase : AuditPhase) (effect : OperationEffect)
    (kind : AuditPortError) : HarnessM Unit :=
  match h.auditFailurePolicy with
  | .failClosed => Task.fail (.audit phase operation effect kind)
  | .failOpen => recordAuditDegraded lib h

/-- The reaction of `audit_required`: degrade, then fail whatever the policy. -/
def refuseAuditFailure (operation : HarnessOperation) (phase : AuditPhase) (effect : OperationEffect)
    (kind : AuditPortError) : HarnessM Unit := do
  recordAuditDegraded lib h
  Task.fail (.audit phase operation effect kind)

/-- `audit_already_persisted` (execution.rs:2408). -/
def auditAlreadyPersisted (event : AgentEvent) (operation : HarnessOperation) (phase : AuditPhase)
    (effect : OperationEffect) (required : Bool) : HarnessM Unit := do
  match ← auditWithRunBounds event with
  | .recorded => pure ()
  | .failed kind =>
    if required then refuseAuditFailure lib h operation phase effect kind
    else applyAuditFailure lib h operation phase effect kind
  | .cancelled => do
    terminalizeSafety lib h .cancelled
    Task.fail (.cancelled (auditStage phase))
  | .deadlineExceeded => do
    terminalizeSafety lib h .deadlineExceeded
    Task.fail (.deadlineExceeded (auditStage phase))

/-- `audit_invocation` (execution.rs:2341). -/
def auditInvocation (event : AgentEvent) (operation : HarnessOperation) (phase : AuditPhase)
    (effect : OperationEffect) : HarnessM Unit := do
  persistTransition h event
  auditAlreadyPersisted lib h event operation phase effect false

/-- `audit_required` (execution.rs:2374). -/
def auditRequired (event : AgentEvent) (operation : HarnessOperation) (phase : AuditPhase)
    (effect : OperationEffect) : HarnessM Unit := do
  persistTransition h event
  auditAlreadyPersisted lib h event operation phase effect true

/-- `audit_lifecycle` (execution.rs:2595). -/
def auditLifecycle (event : AgentEvent) (operation : HarnessOperation) : HarnessM Unit := do
  persistTransition h event
  match ← auditWithTimeout .lifecycle event with
  | none => pure ()
  | some kind => applyAuditFailure lib h operation .lifecycle .stateCommitted kind

/-! ## Recording one event -/

/-- Take the next event, persist it and have it audited under the configured policy. -/
def record (kind : AgentEventKind) (operation : HarnessOperation) (phase : AuditPhase)
    (effect : OperationEffect) : HarnessM Unit := do
  let event ← nextEvent lib kind
  auditInvocation lib h event operation phase effect

/-- The same with a mandatory audit. -/
def recordRequired (kind : AgentEventKind) (operation : HarnessOperation) (phase : AuditPhase)
    (effect : OperationEffect) : HarnessM Unit := do
  let event ← nextEvent lib kind
  auditRequired lib h event operation phase effect

/-- `ToolStartAudit` and `ToolTerminalAudit`: both choose one of the two. -/
inductive ToolAudit where
  | configured | required
deriving DecidableEq, Repr

def recordTool (mode : ToolAudit) (kind : AgentEventKind) (operation : HarnessOperation)
    (phase : AuditPhase) (effect : OperationEffect) : HarnessM Unit :=
  match mode with
  | .configured => record lib h kind operation phase effect
  | .required => recordRequired lib h kind operation phase effect

/-! ## Guards -/

/-- `preflight` (execution.rs:2271). -/
def preflight (operation : HarnessOperation) : HarnessM Unit := do
  requireStatus operation .running
  let r ← runtime
  let c ← Task.look
  if ← ask (.isCancelled c.runId) then do
    terminalizeSafety lib h .cancelled
    Task.fail (.cancelled .preflight)
  else do
    let now ← ask .instantNow
    if r.deadlineAt ≤ now then do
      terminalizeSafety lib h .deadlineExceeded
      Task.fail (.deadlineExceeded .preflight)
    else pure ()

/-- `if let Err(error) = context.reserve_…() { terminalize_safety(BudgetExceeded); return Err }`. -/
def reserve {α : Type} (f : RunContext → Except BudgetDimension (α × RunContext)) : HarnessM α := do
  match f (← Task.look) with
  | .ok (a, c) => do
    Task.put c
    pure a
  | .error dimension => do
    terminalizeSafety lib h (.budgetExceeded dimension)
    Task.fail (.budgetExceeded dimension)

/-! ## Ports -/

/-- What follows a `select!` over cancellation, deadline and a port future. `reap` is what has to
be done before the run may be ended (`terminate_and_reap`). -/
def settle {ε α : Type} (reap : HarnessM Unit) (wrap : ε → HarnessError) :
    Awaited (Except ε α) → HarnessM α
  | .cancelled => do
    reap
    terminalizeSafety lib h .cancelled
    Task.fail (.cancelled .invocation)
  | .deadlineExceeded => do
    reap
    terminalizeSafety lib h .deadlineExceeded
    Task.fail (.deadlineExceeded .invocation)
  | .ready (.ok a) => pure a
  | .ready (.error e) => Task.fail (wrap e)

/-- `result.map_err(wrap)?` on a port answer. -/
def mapErr {ε α : Type} (wrap : ε → HarnessError) (x : Except ε α) : HarnessM α :=
  Task.ofExcept (x.mapError wrap)

/-- `invoke_model_port` (execution.rs:1888). -/
def invokeModelPort (id : ModelCallId) (request : ModelRequest) : HarnessM ModelResponse := do
  let _ ← runtime
  let c ← Task.look
  settle lib h (pure ()) .modelPort (← ask (.modelInvoke c.runId id request))

/-- `invoke_tool_port` (execution.rs:1909). -/
def invokeToolPort (call : ToolCall) : HarnessM ToolResult := do
  let _ ← runtime
  let c ← Task.look
  settle lib h (pure ()) .toolPort (← ask (.toolInvoke c.runId call))

/-- `invoke_contained_tool_port` (execution.rs:1931). -/
def invokeContainedToolPort (call : ToolCall) : HarnessM ToolResult := do
  let _ ← runtime
  let c ← Task.look
  mapErr .containmentPort (← ask (.startContained c.runId call))
  settle lib h (do mapErr .containmentPort (← ask (.reapContained c.runId call.id)))
    .containmentPort (← ask (.waitContained c.runId call.id))

/-- `invoke_managed_tool_port` (execution.rs:1967). -/
def invokeManagedToolPort (call : ToolCall) : HarnessM ToolResult := do
  let _ ← runtime
  let c ← Task.look
  mapErr .toolPort (← ask (.startManaged c.runId call))
  settle lib h (do mapErr .toolPort (← ask (.reapManaged c.runId call.id)))
    .toolPort (← ask (.waitManaged c.runId call.id))

/-- `await_approval` (execution.rs:1993). -/
def awaitApproval (request : ApprovalRequest) : HarnessM ApprovalDecision := do
  let _ ← runtime
  let c ← Task.look
  settle lib h (pure ()) .approvalPort
    (← ask (.approvalDecide c.runId request c.auditDegraded))

/-! ## Tool invocations -/

/-- `reserve_and_record_tool_started` (execution.rs:2019). -/
def reserveAndRecordToolStarted (id : ToolCallId) (name : ToolName) (capability : CapabilityKind)
    (operation : HarnessOperation) (mode : ToolAudit) : HarnessM Unit := do
  reserve lib h fun c => c.reserveToolCall.map fun c => ((), c)
  let c ← Task.look
  recordTool lib h mode
    (.toolInvocationStarted id name capability c.usage.toolCalls c.budget.maxToolCalls)
    operation .beforeInvocation .notInvoked

/-- `record_tool_terminal_event` (execution.rs:2156). -/
def recordToolTerminalEvent (kind : AgentEventKind) (operation : HarnessOperation)
    (mode : ToolAudit) : HarnessM Unit :=
  recordTool lib h mode kind operation .afterInvocation .invocationStarted

/-- `record_tool_terminal_after_runtime_error` (execution.rs:2135). -/
def recordToolTerminalAfterRuntimeError (id : ToolCallId) (operation : HarnessOperation)
    (mode : ToolAudit) : HarnessM Unit := do
  let c ← Task.look
  if c.status = .running then
    recordToolTerminalEvent lib h (.toolInvocationAdapterFailed id) operation mode
  else
    match ← (nextEvent lib (.toolInvocationAdapterFailed id)).attempt with
    | .ok event => auditTerminalBestEffort h event
    | .error _ => markAuditDegraded

/-- The terminal event of a result (execution.rs:2087-2097). -/
def toolTerminalKind (id : ToolCallId) : ToolResult → AgentEventKind
  | .succeeded .. => .toolInvocationCompleted id
  | .domainFailure _ kind => .toolInvocationDomainFailed id kind

/-- `finish_tool_invocation` (execution.rs:2067). -/
def finishToolInvocation (id : ToolCallId) (operation : HarnessOperation)
    (result : Except HarnessError ToolResult) (mode : ToolAudit) : HarnessM ToolResult :=
  match result with
  | .ok result =>
    if result.callId ≠ id then do
      recordToolTerminalEvent lib h (.toolInvocationAdapterFailed id) operation mode
      Task.fail (.toolPort .adapterFailure)
    else do
      recordToolTerminalEvent lib h (toolTerminalKind id result) operation mode
      pure result
  | .error (.toolPort error) => do
    recordToolTerminalEvent lib h (.toolInvocationAdapterFailed id) operation mode
    Task.fail (.toolPort error)
  | .error (.containmentPort error) => do
    recordToolTerminalEvent lib h (.toolInvocationAdapterFailed id) operation mode
    Task.fail (.containmentPort error)
  | .error error => do
    recordToolTerminalAfterRuntimeError lib h id operation mode
    Task.fail error

/-- The port call of one tool binding. -/
def invokeBoundPort : ExecutionBinding → ToolCall → HarnessM ToolResult
  | .direct, call => invokeToolPort lib h call
  | .managedDirect, call => invokeManagedToolPort lib h call
  | .contained, call => invokeContainedToolPort lib h call

/-- The common body of `invoke_direct_tool`, `invoke_contained_read_only` and
`invoke_managed_tool` (execution.rs:1606-1692): they differ in the port alone. -/
def invokeBoundTool (binding : ExecutionBinding) (call : ToolCall) (name : ToolName)
    (capability : CapabilityKind) : HarnessM ToolResult := do
  reserveAndRecordToolStarted lib h call.id name capability .invokeTool .configured
  let result ← (invokeBoundPort lib h binding call).attempt
  finishToolInvocation lib h call.id .invokeTool result .configured

/-! ## Small records -/

/-- `record_knowledge_failure` (execution.rs:2187). -/
def recordKnowledgeFailure (id : KnowledgeRetrievalId) (kind : KnowledgeFailureKind) :
    HarnessM Unit :=
  record lib h (.knowledgeRetrievalFailed id kind) .retrieveKnowledge .afterInvocation
    .invocationStarted

/-- `record_knowledge_interruption` (execution.rs:2206): the audit result is only noted in the
context, no event tells of it. -/
def recordKnowledgeInterruption (id : KnowledgeRetrievalId) (kind : KnowledgeFailureKind) :
    HarnessM Unit := do
  let event ← nextEvent lib (.knowledgeRetrievalFailed id kind)
  persistTransition h event
  match ← auditWithTimeout .knowledgeInterruption event with
  | none => pure ()
  | some _ => markAuditDegraded

/-- `record_policy_denied` (execution.rs:2224). -/
def recordPolicyDenied (id : ToolCallId) (name : ToolName) (capability : CapabilityKind)
    (operation : HarnessOperation) : HarnessM Unit :=
  record lib h (.toolPolicyDenied id name capability) operation .beforeInvocation .notInvoked

/-- `record_containment_failed` (execution.rs:2247). -/
def recordContainmentFailed (id : ToolCallId) (name : ToolName) (capability : CapabilityKind)
    (kind : ContainmentFailureKind) : HarnessM Unit :=
  recordRequired lib h (.containmentFailed id name capability kind) .invokeValidatedAction
    .beforeInvocation .notInvoked

/-- `record_action_rejected` (execution.rs:2298). -/
def recordActionRejected (modelCallId : ModelCallId) (proposalId : ActionProposalId)
    (reason : ActionRejectionReason) : HarnessM Unit :=
  record lib h (.actionRejected modelCallId proposalId reason) .prepareAction .lifecycle
    .stateCommitted

end Helpers
end LocalAgent
