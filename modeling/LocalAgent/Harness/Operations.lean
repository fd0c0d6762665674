import LocalAgent.Harness.Execution

/-!
# The operations of `ExecutionHarness` (`agent-harness/src/execution.rs:135-1887`)

Each public method, in the order of the source. What a method returns to its caller is kept where
another operation takes it back: the tracked model invocation, the retrieval, the validated
action and the recovered run.
-/
namespace LocalAgent

open Program

/-- `CompletedModelInvocation`. -/
structure CompletedModelInvocation where
  modelCallId : ModelCallId
  response : ModelResponse

/-- `CompletedKnowledgeRetrieval`. -/
structure CompletedKnowledgeRetrieval where
  retrievalId : KnowledgeRetrievalId
  evidence : EvidenceSet

/-- `GroundedModelRequest`. -/
structure GroundedModelRequest where
  request : ModelRequest
  evidenceCount : Nat
  manifestDigest : Bytes32

/-- `GroundingBinding`. -/
structure GroundingBinding where
  retrievalId : KnowledgeRetrievalId
  evidenceCount : Nat
  manifestDigest : Bytes32

/-- `ValidatedAction`: only `ActionValidator::validate` and `restore_local_write` build one, and
both compute its digest from the other fields. -/
structure ValidatedAction (lib : Library) where
  proposalId : ActionProposalId
  toolName : ToolName
  arguments : Json
  capability : CapabilityKind
  digest : ActionDigest
  digest_eq : digest = lib.computeActionDigest toolName capability arguments

/-- `into_tool_call`. -/
def ValidatedAction.intoToolCall {lib : Library} (a : ValidatedAction lib) (id : ToolCallId) :
    ToolCall := ⟨id, a.toolName, a.arguments⟩

/-- `MAX_ACTION_TOOL_NAME_BYTES`. -/
def maxActionToolNameBytes : Nat := 128

/-- `ActionValidator::validate` (action.rs:373). -/
def validateAction (lib : Library) (tools : ToolRegistry) (proposalId : ActionProposalId)
    (toolName : ToolName) (arguments : Json) : Except ActionRejectionReason (ValidatedAction lib) :=
  if toolName.value.utf8ByteSize > maxActionToolNameBytes then .error .securityLimitExceeded
  else if !arguments.isObject then .error .argumentsSchemaMismatch
  else match lib.validateArgumentLimits arguments with
    | .error reason => .error reason
    | .ok _ =>
      match tools.get toolName with
      | none => .error .unknownTool
      | some binding =>
        if !binding.validator arguments then .error .argumentsSchemaMismatch
        else .ok ⟨proposalId, toolName, arguments, binding.definition.capability, _, rfl⟩

/-- `DURABLE_LOCAL_WRITE_TOOL_NAME`. -/
def durableLocalWriteToolName : ToolName := ⟨"workspace_write_file"⟩

/-- `local_write_capsule` (execution.rs:2826). -/
def localWriteCapsule (value : Json) : Except HarnessError LocalWriteActionCapsule :=
  match value with
  | .object entries =>
    if entries.length ≠ 2 then .error .durableApprovalMismatch
    else match (entries.lookup "relative_path").bind Json.asStr,
        (entries.lookup "content").bind Json.asStr with
      | some path, some content => (LocalWriteActionCapsule.new path content).mapError .actionSeal
      | _, _ => .error .durableApprovalMismatch
  | _ => .error .durableApprovalMismatch

/-- The fields of `Waiting` that `waiting_position` returns. -/
structure WaitingBinding where
  attemptId : GraphNodeAttemptId
  nodeId : GraphNodeId
  approvalRequestId : ApprovalRequestId
  actionProposalId : ActionProposalId
  toolCallId : ToolCallId
  actionDigest : ActionDigest
deriving DecidableEq

/-- `waiting_position` (execution.rs:2851), with the node beside it. -/
def waitingPosition (state : DurableRunState) (waitId : DurableApprovalWaitId) :
    Except HarnessError WaitingBinding :=
  match state.graphPosition with
  | some (.waiting attempt node wait request proposal tool digest _) =>
    if wait = waitId then .ok ⟨attempt, node, request, proposal, tool, digest⟩
    else .error .durableApprovalMismatch
  | _ => .error .durableApprovalMismatch

/-- `DurableLocalWriteResume`, without the context it hands back. -/
inductive DurableLocalWriteResume where
  | executed (attemptId : GraphNodeAttemptId) (nodeId : GraphNodeId) (result : ToolResult)
  | denied (attemptId : GraphNodeAttemptId) (nodeId : GraphNodeId)

section Operations

variable (lib : Library) (h : ExecutionHarness)

/-! ## Starting and recovering -/

/-- `recover_run` (execution.rs:135). -/
def recoverRun {σ : Type} (key : RunKey) : Task Answer HarnessError σ RecoveryDisposition := do
  if h.persistence then
    match ← ask (.loadRun .recovery key) with
    | .error e => Task.fail (.persistence e)
    | .ok loaded => do
      let nowWall ← trustedUnixMillis
      let now ← ask .instantNow
      Task.ofExcept ((recoverLoadedRun lib.codec loaded nowWall now).mapError .recovery)
  else Task.fail (.persistence .unavailable)

/-- `context.run_record()` or `context.run_record_with_authorization(..)`. -/
def runRecordFor (c : RunContext) : Option DurableRunAuthorization → RunRecord
  | none => c.runRecord
  | some authorization => c.runRecord.withAuthorization authorization

/-- `persistence.create_run(&record, &context.durable_checkpoint())` (execution.rs:178-183). -/
def createRun (authorization : Option DurableRunAuthorization) : HarnessM Unit := do
  if h.persistence then do
    let c ← Task.look
    match ← ask (.createRun (runRecordFor c authorization) c.durableCheckpoint) with
    | .error e => Task.fail (.persistence e)
    | .ok _ => pure ()
  else pure ()

/-- `context.commit_running(Instant::now(), SystemTime::now())?`. -/
def commitRunning : HarnessM Unit := do
  let now ← ask .instantNow
  let wall ← ask .wallClock
  match (← Task.look).commitRunning now wall with
  | .error e => Task.fail (.context e)
  | .ok c => Task.put c

/-- `start_run_record` (execution.rs:171); `start_run` and `start_run_with_authorization` choose
the record. -/
def startRun (authorization : Option DurableRunAuthorization) : HarnessM Unit := do
  requireStatus .startRun .pending
  createRun h authorization
  commitRunning
  let startedAt ← Task.ofExcept ((← Task.look).startedAtUnixMillis.mapError .context)
  let event ← nextEvent lib (.runStarted startedAt)
  match ← (auditLifecycle lib h event .startRun).attempt with
  | .ok _ => pure ()
  | .error e =>
    if h.auditFailurePolicy = .failClosed then do
      terminalizeAfterStartAuditFailure lib h
      Task.fail e
    else Task.fail e

/-! ## Models and knowledge -/

/-- The grounding event of `invoke_model_internal`. -/
def bindGrounding (id : ModelCallId) : Option GroundingBinding → HarnessM Unit
  | none => pure ()
  | some g =>
    record lib h (.modelGroundingBound g.retrievalId id g.evidenceCount g.manifestDigest)
      .bindModelGrounding .lifecycle .notInvoked

/-- `invoke_model_internal` (execution.rs:241). -/
def invokeModelInternal (request : ModelRequest) (grounding : Option GroundingBinding) :
    HarnessM CompletedModelInvocation := do
  preflight lib h .invokeModel
  reserve lib h fun c => c.reserveModelCall.map fun c => ((), c)
  let id ← ask .freshUuid
  let id : ModelCallId := ⟨id⟩
  let c ← Task.look
  record lib h (.modelInvocationStarted id c.usage.modelCalls c.budget.maxModelCalls)
    .invokeModel .beforeInvocation .notInvoked
  bindGrounding lib h id grounding
  match ← (invokeModelPort lib h id request).attempt with
  | .ok response => do
    record lib h (.modelInvocationCompleted id response.tokenUsage) .invokeModel .afterInvocation
      .invocationStarted
    pure ⟨id, response⟩
  | .error (.modelPort error) => do
    record lib h (.modelInvocationFailed id) .invokeModel .afterInvocation .invocationStarted
    Task.fail (.modelPort error)
  | .error error => Task.fail error

/-- `invoke_grounded_model` (execution.rs:220); `u8::try_from(..).unwrap_or(u8::MAX)`. -/
def invokeGroundedModel (retrieval : CompletedKnowledgeRetrieval) (request : GroundedModelRequest) :
    HarnessM CompletedModelInvocation :=
  if request.manifestDigest ≠ retrieval.evidence.manifestDigest
      || request.evidenceCount ≠ min retrieval.evidence.durableReferences.length 255 then
    Task.fail .groundingMismatch
  else
    invokeModelInternal lib h request.request
      (some ⟨retrieval.retrievalId, request.evidenceCount, request.manifestDigest⟩)

/-- The start event of `retrieve_knowledge` (execution.rs:340-368). -/
def retrievalEvent (pending : Option PendingKnowledgeRetrieval) (id : KnowledgeRetrievalId)
    (request : KnowledgeRequest) : Except HarnessError AgentEventKind :=
  let bytes := request.query.utf8ByteSize
  match pending with
  | some previous =>
    if !previous.matchesRequest request.route request.queryDigest bytes then
      .error (.knowledgePort (.rejected request.firstBackend))
    else .ok (.knowledgeRetrievalRestarted previous.retrievalId id request.route
      request.queryDigest bytes)
  | none => .ok (.knowledgeRetrievalStarted id request.route request.queryDigest bytes)

/-- The completion event of `retrieve_knowledge` (execution.rs:391-409). -/
def retrievalCompleted (id : KnowledgeRetrievalId) (evidence : EvidenceSet) :
    Except HarnessError AgentEventKind :=
  match evidence.durableReferences.mapM (fun r => r) with
  | none => .error (.knowledgePort .malformedResponse)
  | some references =>
    if references.length > 255 then .error (.knowledgePort .malformedResponse)
    else .ok (.knowledgeRetrievalCompleted id evidence.snapshots references references.length
      evidence.truncated evidence.degraded evidence.manifestDigest)

/-- The interrupted branches of `retrieve_knowledge` (execution.rs:426-449). -/
def interruptRetrieval {α : Type} (id : KnowledgeRetrievalId) (kind : KnowledgeFailureKind)
    (terminal : SafetyTerminalization) (error : HarnessError) : HarnessM α := do
  recordKnowledgeInterruption lib h id kind
  terminalizeSafety lib h terminal
  Task.fail error

/-- `retrieve_knowledge` (execution.rs:323). -/
def retrieveKnowledge (request : KnowledgeRequest) : HarnessM CompletedKnowledgeRetrieval := do
  preflight lib h .retrieveKnowledge
  if h.knowledge then do
    let id ← ask .freshUuid
    let id : KnowledgeRetrievalId := ⟨id⟩
    if request.query.utf8ByteSize > 65535 then Task.fail (.knowledgePort .malformedResponse)
    else do
      let c ← Task.look
      let kind ← Task.ofExcept (retrievalEvent c.durableState.pendingKnowledgeRetrieval id request)
      record lib h kind .retrieveKnowledge .beforeInvocation .notInvoked
      let _ ← runtime
      match ← ask (.knowledgeRetrieve c.runId id request) with
      | .ready (.ok evidence) => do
        let kind ← Task.ofExcept (retrievalCompleted id evidence)
        record lib h kind .retrieveKnowledge .afterInvocation .invocationStarted
        pure ⟨id, evidence⟩
      | .ready (.error error) => do
        recordKnowledgeFailure lib h id error.failureKind
        Task.fail (.knowledgePort error)
      | .cancelled =>
        interruptRetrieval lib h id .cancelled .cancelled (.cancelled .invocation)
      | .deadlineExceeded =>
        interruptRetrieval lib h id .deadlineExceeded .deadlineExceeded
          (.deadlineExceeded .invocation)
  else Task.fail (.knowledgePort (.unavailable request.firstBackend))

/-! ## Actions -/

/-- `prepare_action` (execution.rs:453). A rejected proposal is a result, not an error of the
harness. -/
def prepareAction (invocation : CompletedModelInvocation) :
    HarnessM (Except ActionRejectionReason (ValidatedAction lib)) := do
  preflight lib h .prepareAction
  let id ← ask .freshUuid
  let id : ActionProposalId := ⟨id⟩
  match lib.decode invocation.response with
  | .error reason => do
    recordActionRejected lib h invocation.modelCallId id reason
    pure (.error reason)
  | .ok (toolName, arguments) => do
    record lib h (.actionProposed invocation.modelCallId id toolName) .prepareAction .lifecycle
      .stateCommitted
    match validateAction lib h.tools id toolName arguments with
    | .error reason => do
      recordActionRejected lib h invocation.modelCallId id reason
      pure (.error reason)
    | .ok validated => do
      record lib h (.actionValidated id) .prepareAction .lifecycle .stateCommitted
      pure (.ok validated)

/-- `ApprovedLocalWriteMeta`. -/
structure ApprovedLocalWriteMeta where
  actionProposalId : ActionProposalId
  toolName : ToolName
  capability : CapabilityKind
  actionDigest : ActionDigest

/-- `ApprovalFailed` and the error it goes with. -/
def failApproval {α : Type} (id : ApprovalRequestId) (kind : ApprovalFailureKind)
    (error : HarnessError) : HarnessM α := do
  recordRequired lib h (.approvalFailed id kind) .requestApproval .afterInvocation .notInvoked
  Task.fail error

/-- What `invoke_approved_local_write` does with a decision (execution.rs:1775-1850). -/
def applyDecision (call : ToolCall) (info : ApprovedLocalWriteMeta) (id : ApprovalRequestId)
    (decision : ApprovalDecision) : HarnessM ToolResult := do
  preflight lib h .requestApproval
  if decision.requestId ≠ id || decision.actionDigest ≠ info.actionDigest then
    failApproval lib h id .decisionMismatch .approvalDecisionMismatch
  else match decision.outcome with
    | .denied => do
      recordRequired lib h (.approvalDenied id) .requestApproval .afterInvocation .notInvoked
      Task.fail .approvalDenied
    | .granted => do
      recordRequired lib h (.approvalGranted id) .requestApproval .afterInvocation .notInvoked
      preflight lib h .invokeTool
      reserveAndRecordToolStarted lib h call.id info.toolName info.capability .invokeTool .required
      let result ← (invokeContainedToolPort lib h call).attempt
      finishToolInvocation lib h call.id .invokeTool result .required

/-- `invoke_approved_local_write` (execution.rs:1694). -/
def invokeApprovedLocalWrite (call : ToolCall) (info : ApprovedLocalWriteMeta) :
    HarnessM ToolResult := do
  match ← ask (.approvalPreview info.toolName call.input) with
  | .error error => do
    recordContainmentFailed lib h call.id info.toolName info.capability error.failureKind
    Task.fail (.containmentPort error)
  | .ok preview => do
    preflight lib h .requestApproval
    if h.approval then do
      let id ← ask .freshUuid
      let id : ApprovalRequestId := ⟨id⟩
      reserve lib h fun c => c.reserveApprovalRequest.map fun c => ((), c)
      let c ← Task.look
      recordRequired lib h (.approvalRequested id info.actionProposalId call.id info.toolName
        info.capability c.usage.approvalRequests c.budget.maxApprovalRequests)
        .requestApproval .beforeInvocation .notInvoked
      match ← (awaitApproval lib h
        ⟨id, info.actionProposalId, call.id, info.toolName, info.capability, info.actionDigest,
          preview⟩).attempt with
      | .ok decision => applyDecision lib h call info id decision
      | .error (.approvalPort error) =>
        failApproval lib h id
          (match error with | .unavailable => .portUnavailable | .failed => .portFailed)
          (.approvalPort error)
      | .error error => Task.fail error
    else Task.fail .approvalPortMissing

/-- A tool that may not run: the denial is recorded, then the error is returned. -/
def denyTool {α : Type} (id : ToolCallId) (name : ToolName) (capability : CapabilityKind)
    (operation : HarnessOperation) (error : HarnessError) : HarnessM α := do
  recordPolicyDenied lib h id name capability operation
  Task.fail error

/-- The dispatch of `invoke_validated_action` over capability, decision and binding
(execution.rs:562-690). -/
def dispatchAction (action : ValidatedAction lib) (id : ToolCallId) (binding : ExecutionBinding)
    (decision : AuthorizationDecision) : HarnessM ToolResult := do
  let deny := denyTool (α := ToolResult) lib h id action.toolName action.capability
    .invokeValidatedAction
  match action.capability, decision with
  | .readOnly, .allowed =>
    invokeBoundTool lib h binding (action.intoToolCall id) action.toolName action.capability
  | .readOnly, .requiresApproval =>
    deny (.policyDenied ⟨action.capability, .approvalRequiredButUnsupported⟩)
  | .readOnly, .denied denial => deny (.policyDenied denial)
  | .localWrite, .denied denial => deny (.policyDenied denial)
  | .localWrite, .allowed => deny .approvalRequired
  | .localWrite, .requiresApproval =>
    match binding with
    | .direct | .managedDirect => do
      recordContainmentFailed lib h id action.toolName action.capability .unavailable
      Task.fail (.containmentUnavailable action.toolName)
    | .contained => do
      if (← Task.look).auditDegraded then Task.fail .auditDegraded
      else
        invokeApprovedLocalWrite lib h (action.intoToolCall id)
          ⟨action.proposalId, action.toolName, action.capability, action.digest⟩
  | .externalWrite, _ | .privileged, _ => deny (.capabilityNotExecutable action.capability)

/-- `invoke_validated_action` (execution.rs:508). -/
def invokeValidatedAction (action : ValidatedAction lib) : HarnessM ToolResult := do
  preflight lib h .invokeValidatedAction
  let id ← ask .freshUuid
  let id : ToolCallId := ⟨id⟩
  match h.tools.get action.toolName with
  | none => Task.fail (.toolNotFound action.toolName)
  | some binding =>
    if binding.definition.capability ≠ action.capability then Task.fail (.toolPort .adapterFailure)
    else do
      recordTool lib h (if action.capability = .localWrite then .required else .configured)
        (.actionExecutionBound action.proposalId id) .invokeValidatedAction .beforeInvocation
        .notInvoked
      let decision ← ask (.authorize action.capability)
      dispatchAction lib h action id binding.execution decision

/-- The dispatch of `invoke_tool` over decision, capability and binding (execution.rs:1549-1604). -/
def dispatchTool (call : ToolCall) (binding : ToolBinding) (decision : AuthorizationDecision) :
    HarnessM ToolResult := do
  let name := binding.definition.name
  let capability := binding.definition.capability
  let deny := denyTool (α := ToolResult) lib h call.id name capability .invokeTool
  match decision, capability with
  | .requiresApproval, _ => deny (.policyDenied ⟨capability, .approvalRequiredButUnsupported⟩)
  | .denied denial, _ => deny (.policyDenied denial)
  | .allowed, .readOnly => invokeBoundTool lib h binding.execution call name capability
  | .allowed, .localWrite | .allowed, .externalWrite | .allowed, .privileged =>
    deny (.capabilityNotExecutable capability)

/-- `invoke_tool` (execution.rs:1530). -/
def invokeTool (call : ToolCall) : HarnessM ToolResult := do
  preflight lib h .invokeTool
  match h.tools.get call.name with
  | none => Task.fail (.toolNotFound call.name)
  | some binding => do
    let decision ← ask (.authorize binding.definition.capability)
    dispatchTool lib h call binding decision

/-! ## Loop and graph -/

/-- `checkpoint` (execution.rs:1281). -/
def checkpoint : HarnessM Unit := preflight lib h .checkpoint

/-- `begin_iteration` (execution.rs:1285). -/
def beginIteration : HarnessM Nat := do
  preflight lib h .beginIteration
  let iteration ← reserve lib h RunContext.reserveIteration
  let c ← Task.look
  record lib h (.loop (.iterationStarted iteration c.usage.iterations c.budget.maxIterations))
    .beginIteration .lifecycle .stateCommitted
  pure iteration

/-- `record_loop_progress` (execution.rs:1321). -/
def recordLoopProgress (progress : LoopProgressEvent) : HarnessM Unit := do
  preflight lib h .recordLoopProgress
  record lib h (.loop progress.toEventKind) .recordLoopProgress .lifecycle .stateCommitted

/-- `start_graph` (execution.rs:1341). -/
def startGraph (definitionDigest : Bytes32) (startNode : GraphNodeId) (startKind : GraphNodeKind)
    (startRecovery : GraphRecoveryMode) : HarnessM Unit := do
  preflight lib h .startGraph
  record lib h (.graph (.graphStarted definitionDigest startNode startKind startRecovery))
    .startGraph .lifecycle .stateCommitted

/-- `enter_graph_node` (execution.rs:1367). -/
def enterGraphNode (nodeId : GraphNodeId) (nodeKind : GraphNodeKind)
    (recovery : GraphRecoveryMode) : HarnessM GraphNodeAttemptId := do
  preflight lib h .enterGraphNode
  let step ← reserve lib h RunContext.reserveGraphStep
  let id ← ask .freshUuid
  let c ← Task.look
  record lib h (.graph (.graphNodeEntered ⟨id⟩ nodeId nodeKind recovery step c.budget.maxGraphSteps))
    .enterGraphNode .lifecycle .stateCommitted
  pure ⟨id⟩

/-- `restart_graph_node` (execution.rs:1409). -/
def restartGraphNode (previous : Option GraphNodeAttemptId) (nodeId : GraphNodeId)
    (nodeKind : GraphNodeKind) (recovery : GraphRecoveryMode) : HarnessM GraphNodeAttemptId := do
  preflight lib h .enterGraphNode
  let step ← reserve lib h RunContext.reserveGraphStep
  let id ← ask .freshUuid
  let c ← Task.look
  record lib h
    (.graph (.graphNodeRestarted previous ⟨id⟩ nodeId nodeKind recovery step c.budget.maxGraphSteps))
    .enterGraphNode .lifecycle .stateCommitted
  pure ⟨id⟩

/-- `complete_graph_node` (execution.rs:1454). -/
def completeGraphNode (attemptId : GraphNodeAttemptId) (nodeId : GraphNodeId)
    (transition : GraphTransitionKey) (nextNode : GraphNodeId) (nextKind : GraphNodeKind)
    (nextRecovery : GraphRecoveryMode) : HarnessM Unit := do
  preflight lib h .completeGraphNode
  record lib h (.graph (.graphNodeCompleted attemptId nodeId transition nextNode nextKind
    nextRecovery)) .completeGraphNode .lifecycle .stateCommitted

/-! ## Ending a run -/

/-- Commit an outcome, then record the event that tells of it: the end of `complete_run`,
`fail_run`, `complete_graph` and `fail_graph`. -/
def finishWith (outcome : RunOutcome) (kind : RunContext → AgentEventKind)
    (operation : HarnessOperation) : HarnessM Unit := do
  preflight lib h operation
  commitFinished outcome
  let event ← nextEvent lib (kind (← Task.look))
  auditLifecycle lib h event operation

/-- `complete_graph` (execution.rs:1486). -/
def completeGraph (attemptId : GraphNodeAttemptId) (nodeId : GraphNodeId) : HarnessM Unit :=
  finishWith lib h .completed
    (fun c => .graph (.graphCompleted attemptId nodeId c.usage.graphSteps)) .finishGraph

/-- `fail_graph` (execution.rs:1505). -/
def failGraph (attemptId : GraphNodeAttemptId) (nodeId : GraphNodeId) (failure : GraphFailureKind) :
    HarnessM Unit :=
  finishWith lib h (.failed (.graph failure))
    (fun c => .graph (.graphFailed attemptId nodeId c.usage.graphSteps failure (.graph failure)))
    .finishGraph

/-- `complete_run` (execution.rs:1853). -/
def completeRun : HarnessM Unit :=
  finishWith lib h .completed (fun _ => .runFinished .completed) .completeRun

/-- `fail_run` (execution.rs:1864). -/
def failRun (kind : RunFailureKind) : HarnessM Unit :=
  finishWith lib h (.failed kind) (fun _ => .runFinished (.failed kind)) .failRun

/-- `cancel_run` (execution.rs:1874). -/
def cancelRun : HarnessM Unit := do
  requireStatus .cancelRun .running
  let _ ← runtime
  commitFinished .cancelled
  let event ← nextEvent lib (.runFinished .cancelled)
  auditTerminalBestEffort h event

end Operations
end LocalAgent
