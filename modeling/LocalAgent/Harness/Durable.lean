import LocalAgent.Harness.Operations

/-!
# Durable approvals (`agent-harness/src/execution.rs:693-1279`, `2470-2567`)

A local write that needs an approval can outlive its process: `suspend_durable_local_write` seals
the action into the store and ends at `GraphSuspended`; a decision, an abort and the resumption
are made later, by whoever recovers the run. Between any two calls of the persistence port the
process may die.
-/
namespace LocalAgent

open Program

section Durable

variable (lib : Library) (h : ExecutionHarness)

/-! ## Suspending -/

/-- The position and contract checks of `suspend_durable_local_write` (execution.rs:712-728). -/
def suspendable (c : RunContext) (durable : DurableActionContext) : Bool :=
  c.recoveryContract = .graph durable.programVersion durable.graphDigest
    && (match c.durableState.graphPosition with
      | some (.running attempt node .action .never) =>
        attempt = durable.attemptId && node = durable.nodeId
      | _ => false)

/-- The ids that `suspend_durable_local_write` draws. -/
structure SuspensionIds where
  toolCallId : ToolCallId
  approvalRequestId : ApprovalRequestId
  waitId : DurableApprovalWaitId

/-- Everything after the checks: bind the action, reserve, prepare, seal, suspend
(execution.rs:759-859). -/
def sealAndSuspend (action : ValidatedAction lib) (durable : DurableActionContext)
    (workspace : WorkspaceBindingId) (capsule : LocalWriteActionCapsule)
    (contractDigest : ToolContractDigest) (ids : SuspensionIds) : HarnessM Unit := do
  recordRequired lib h (.actionExecutionBound action.proposalId ids.toolCallId)
    .invokeValidatedAction .beforeInvocation .notInvoked
  reserve lib h fun c => c.reserveApprovalRequest.map fun c => ((), c)
  let c ← Task.look
  match ← ask (.loadRun .authorization c.key) with
  | .error e => Task.fail (.persistence e)
  | .ok loaded => do
    let binding : ActionSealBinding := {
      key := c.key, programVersion := durable.programVersion, graphDigest := durable.graphDigest,
      nodeId := durable.nodeId, attemptId := durable.attemptId, waitId := ids.waitId,
      approvalRequestId := ids.approvalRequestId, actionProposalId := action.proposalId,
      toolCallId := ids.toolCallId, actionDigest := action.digest,
      workspaceBindingId := workspace, toolContractDigest := contractDigest,
      requester := loaded.record.authorization.map DurableRunAuthorization.requester,
      capsuleVersion := localWriteCapsuleVersion }
    recordRequired lib h (.durableApprovalPrepared ids.waitId ids.approvalRequestId
      action.proposalId ids.toolCallId action.digest workspace contractDigest
      c.usage.approvalRequests c.budget.maxApprovalRequests)
      .requestApproval .beforeInvocation .notInvoked
    let sealedAction ← mapErr .actionSeal (← ask (.sealLocalWrite binding capsule))
    let suspendedAt ← trustedUnixMillis
    let startedAt ← Task.ofExcept ((← Task.look).startedAtUnixMillis.mapError .context)
    match checkedSub suspendedAt startedAt with
    | none => Task.fail (.recovery .clockAmbiguous)
    | some activeElapsedMillis => do
      let event ← nextEvent lib (.graph (.graphSuspended durable.attemptId durable.nodeId ids.waitId
        ids.approvalRequestId action.proposalId ids.toolCallId action.digest activeElapsedMillis))
      let c ← Task.look
      match ← ask (.createDurableApprovalWait (transitionForEvent c event true)
          (DurableApprovalRecord.new binding sealedAction) c.auditDegraded) with
      | .error e => do
        markPersistenceFailed
        Task.fail (.persistence e)
      | .ok _ =>
        auditAlreadyPersisted lib h event .requestApproval .lifecycle .stateCommitted false

/-- `suspend_durable_local_write` (execution.rs:693). -/
def suspendDurableLocalWrite (action : ValidatedAction lib) (durable : DurableActionContext) :
    HarnessM Unit := do
  preflight lib h .requestApproval
  if !h.persistence then Task.fail (.persistence .unavailable)
  else if !h.actionSeal then Task.fail (.actionSeal .keyUnavailable)
  else match h.workspaceBindingId with
    | none => Task.fail .durableApprovalMismatch
    | some workspace => do
      let c ← Task.look
      if !suspendable c durable then Task.fail .durableApprovalMismatch
      else if action.toolName ≠ durableLocalWriteToolName || action.capability ≠ .localWrite then
        Task.fail .durableApprovalMismatch
      else do
        let decision ← ask (.authorize action.capability)
        if decision ≠ .requiresApproval then Task.fail .durableApprovalMismatch
        else match h.tools.get action.toolName with
          | none => Task.fail (.toolNotFound action.toolName)
          | some binding =>
            if binding.execution ≠ .contained then
              Task.fail (.containmentUnavailable action.toolName)
            else if c.auditDegraded then Task.fail .auditDegraded
            else do
              let _ ← mapErr .containmentPort
                (← ask (.approvalPreview action.toolName action.arguments))
              let capsule ← Task.ofExcept (localWriteCapsule action.arguments)
              let toolCallId ← ask .freshUuid
              let approvalRequestId ← ask .freshUuid
              let waitId ← ask .freshUuid
              sealAndSuspend lib h action durable workspace capsule
                (lib.computeToolContractDigest binding.definition)
                ⟨⟨toolCallId⟩, ⟨approvalRequestId⟩, ⟨waitId⟩⟩

/-! ## Restoring the sealed action -/

/-- The binding checks of `restore_local_write` (execution.rs:2488-2519): the stored binding
names the workspace, the waiting position and the contract of the recovered run. -/
def bindingMatches (binding : ActionSealBinding) (workspace : WorkspaceBindingId)
    (state : DurableRunState) : Bool :=
  binding.workspaceBindingId = workspace && binding.capsuleVersion = localWriteCapsuleVersion
    && (match state.graphPosition with
      | some (.waiting attempt node wait request proposal tool digest _) =>
        attempt = binding.attemptId && node = binding.nodeId && wait = binding.waitId
          && request = binding.approvalRequestId && proposal = binding.actionProposalId
          && tool = binding.toolCallId && digest = binding.actionDigest
      | _ => false)
    && (match state.recoveryContract with
      | .graph version digest => version = binding.programVersion && digest = binding.graphDigest
      | _ => false)

/-- `json!({ "relative_path": .., "content": .. })`. -/
def localWriteArguments (capsule : LocalWriteActionCapsule) : Json :=
  .object [("relative_path", .string capsule.relativePath), ("content", .string capsule.content)]

/-- The arguments from an opened capsule, checked again and hashed again
(execution.rs:2544-2566). -/
def restoreArguments (record : DurableApprovalRecord) (registered : ToolBinding) :
    HarnessM (ValidatedAction lib) := do
  let capsule ← mapErr .actionSeal (← ask (.openLocalWrite record.binding record.sealedAction))
  let arguments := localWriteArguments capsule
  match lib.validateArgumentLimits arguments with
  | .error _ => Task.fail .durableApprovalMismatch
  | .ok _ =>
    if !registered.validator arguments then Task.fail .durableApprovalMismatch
    else if lib.computeActionDigest durableLocalWriteToolName .localWrite arguments
        ≠ record.binding.actionDigest then Task.fail .durableApprovalMismatch
    else do
      let _ ← mapErr .containmentPort (← ask (.approvalPreview durableLocalWriteToolName arguments))
      pure ⟨record.binding.actionProposalId, durableLocalWriteToolName, arguments, .localWrite, _,
        rfl⟩

/-- `restore_local_write` (execution.rs:2470). -/
def restoreLocalWrite (record : DurableApprovalRecord) (state : DurableRunState) :
    HarnessM (ValidatedAction lib) := do
  if !h.actionSeal then Task.fail (.actionSeal .keyUnavailable)
  else match h.workspaceBindingId with
    | none => Task.fail .durableApprovalMismatch
    | some workspace =>
      if !bindingMatches record.binding workspace state then Task.fail .durableApprovalMismatch
      else match h.tools.get durableLocalWriteToolName with
        | none => Task.fail (.toolNotFound durableLocalWriteToolName)
        | some registered =>
          if registered.definition.capability ≠ .localWrite
              || lib.computeToolContractDigest registered.definition
                ≠ record.binding.toolContractDigest then Task.fail .durableApprovalMismatch
          else do
            let decision ← ask (.authorize .localWrite)
            if decision ≠ .requiresApproval || state.context.auditDegraded then
              Task.fail .durableApprovalMismatch
            else if registered.execution ≠ .contained then
              Task.fail (.containmentUnavailable durableLocalWriteToolName)
            else restoreArguments lib record registered

/-! ## Deciding and aborting -/

/-- `load_durable_approval_wait(..).map_err(Persistence)?`. -/
def loadWait {σ : Type} (key : RunKey) (waitId : DurableApprovalWaitId) :
    Task Answer HarnessError σ DurableApprovalRecord := do
  if h.persistence then
    match ← ask (.loadDurableApprovalWait key waitId) with
    | .error e => Task.fail (.persistence e)
    | .ok record => pure record
  else Task.fail (.persistence .unavailable)

/-- Recover the run and, if it waits, go on with its context, which is dropped at the end. -/
def withWaitingRun {α : Type} (key : RunKey) (body : RecoveredRun → HarnessM α) :
    Prog Answer (Except HarnessError α) :=
  (recoverRun lib h key ()).bind fun
    | (.ok (.waiting recovered), _) =>
      (body recovered recovered.context).bind fun p => .pure p.1
    | (.ok _, _) => .pure (.error .durableApprovalMismatch)
    | (.error e, _) => .pure (.error e)

/-- `durable_approval_view` (execution.rs:862). -/
def durableApprovalView (key : RunKey) (waitId : DurableApprovalWaitId) :
    Prog Answer (Except HarnessError Unit) :=
  withWaitingRun lib h key fun recovered => do
    let record ← loadWait h key waitId
    let _ ← restoreLocalWrite lib h record recovered.state
    pure ()

/-- `record_durable_approval_decision` (execution.rs:889). -/
def recordDurableApprovalDecision (command : DurableApprovalDecisionCommand) :
    Prog Answer (Except HarnessError Unit) :=
  withWaitingRun lib h command.key fun recovered => do
    let waiting ← Task.ofExcept (waitingPosition recovered.state command.waitId)
    if waiting.approvalRequestId ≠ command.approvalRequestId
        || waiting.actionProposalId ≠ command.actionProposalId
        || waiting.toolCallId ≠ command.toolCallId
        || waiting.actionDigest ≠ command.actionDigest then Task.fail .durableApprovalMismatch
    else match checkedNext command.expectedRowVersion with
      | none => Task.fail .durableApprovalMismatch
      | some nextVersion => do
        let event ← nextEvent lib (.durableApprovalDecisionRecorded command.waitId
          command.approvalRequestId command.outcome nextVersion command.actor)
        let c ← Task.look
        match ← ask (.recordDurableApprovalDecision (transitionForEvent c event true) command) with
        | .error e => do
          markPersistenceFailed
          Task.fail (.persistence e)
        | .ok _ =>
          auditAlreadyPersisted lib h event .requestApproval .afterInvocation .notInvoked false

/-- `record_durable_approval_outcome` and `record_durable_approval_outcome_as`
(execution.rs:939, 967): read the ids from the waiting run, then decide. -/
def recordDurableApprovalOutcome (key : RunKey) (waitId : DurableApprovalWaitId)
    (expectedRowVersion : Nat) (outcome : DurableApprovalOutcome)
    (actor : Option (PrincipalId × Nat)) : Prog Answer (Except HarnessError Unit) :=
  (withWaitingRun lib h key fun recovered =>
    Task.ofExcept (waitingPosition recovered.state waitId)).bind fun
    | .error e => .pure (.error e)
    | .ok waiting => recordDurableApprovalDecision lib h {
        key := key, waitId := waitId, approvalRequestId := waiting.approvalRequestId,
        actionProposalId := waiting.actionProposalId, toolCallId := waiting.toolCallId,
        actionDigest := waiting.actionDigest, expectedRowVersion := expectedRowVersion,
        outcome := outcome, actor := actor.map Prod.fst, decidedAtUnixMillis := actor.map Prod.snd }

/-- `abort_durable_waiting` (execution.rs:999). -/
def abortDurableWaiting (key : RunKey) (waitId : DurableApprovalWaitId) (expectedRowVersion : Nat) :
    Prog Answer (Except HarnessError Unit) :=
  withWaitingRun lib h key fun recovered => do
    let _ ← Task.ofExcept (waitingPosition recovered.state waitId)
    let record ← loadWait h key waitId
    if record.status ≠ .waiting || record.rowVersion ≠ expectedRowVersion then
      Task.fail .durableApprovalMismatch
    else do
      commitFinished .cancelled
      let event ← nextEvent lib (.runFinished .cancelled)
      let c ← Task.look
      match ← ask (.transitionDurableApprovalStatus
          ⟨some (transitionForEvent c event true), key, waitId, expectedRowVersion, .waiting,
            .consumed⟩) with
      | .error e => Task.fail (.persistence e)
      | .ok _ => auditAlreadyPersisted lib h event .cancelRun .lifecycle .stateCommitted false

/-! ## Resuming -/

/-- `transition_durable_approval_status`, whose error also marks the context. -/
def advanceStatus (record : DurableApprovalRecord) (waitId : DurableApprovalWaitId)
    (event : Option AgentEvent) (expected next : DurableApprovalStatus) : HarnessM Unit := do
  let c ← Task.look
  match ← ask (.transitionDurableApprovalStatus
      ⟨event.map (transitionForEvent c · false), record.binding.key, waitId, record.rowVersion,
        expected, next⟩) with
  | .ok _ => pure ()
  | .error e => do
    markPersistenceFailed
    Task.fail (.persistence e)

/-- `GraphResumed`, persisted together with a status change (execution.rs:1086-1121,
1171-1199). -/
def recordResumed (waiting : WaitingBinding) (record : DurableApprovalRecord)
    (waitId : DurableApprovalWaitId) (expected next : DurableApprovalStatus) : HarnessM Unit := do
  let resumedAt ← trustedUnixMillis
  let event ← nextEvent lib (.graph (.graphResumed waiting.attemptId waiting.nodeId waitId resumedAt))
  advanceStatus record waitId (some event) expected next
  auditAlreadyPersisted lib h event .requestApproval .lifecycle .stateCommitted false

/-- The denied branch of `resume_durable_local_write` (execution.rs:1070-1128). -/
def resumeDenied (waiting : WaitingBinding) (record : DurableApprovalRecord)
    (waitId : DurableApprovalWaitId) : HarnessM DurableLocalWriteResume := do
  recordRequired lib h (.durableApprovalDenied waitId waiting.approvalRequestId) .requestApproval
    .afterInvocation .notInvoked
  let record ← loadWait h record.binding.key waitId
  recordResumed lib h waiting record waitId .decisionRecordedDeny .consumed
  pure (.denied waiting.attemptId waiting.nodeId)

/-- The grant of `resume_durable_local_write` (execution.rs:1137-1170): a run that crashed after
it is already `ApprovedReady` and skips it. -/
def grantApproval (waiting : WaitingBinding) (record : DurableApprovalRecord)
    (waitId : DurableApprovalWaitId) : HarnessM DurableApprovalRecord := do
  if record.status = .decisionRecordedApprove then do
    recordRequired lib h (.durableApprovalGranted waitId waiting.approvalRequestId) .requestApproval
      .afterInvocation .notInvoked
    advanceStatus record waitId none .decisionRecordedApprove .approvedReady
    loadWait h record.binding.key waitId
  else pure record

/-- From the tool start to the end of `resume_durable_local_write` (execution.rs:1209-1278). -/
def executeApproved (waiting : WaitingBinding) (action : ValidatedAction lib)
    (record : DurableApprovalRecord) (waitId : DurableApprovalWaitId) :
    HarnessM DurableLocalWriteResume := do
  let id := record.binding.toolCallId
  reserve lib h fun c => c.reserveToolCall.map fun c => ((), c)
  let c ← Task.look
  let event ← nextEvent lib (.toolInvocationStarted id action.toolName action.capability
    c.usage.toolCalls c.budget.maxToolCalls)
  advanceStatus record waitId (some event) .approvedReady .executing
  auditAlreadyPersisted lib h event .invokeTool .beforeInvocation .notInvoked true
  let result ← (invokeContainedToolPort lib h (action.intoToolCall id)).attempt
  let result ← finishToolInvocation lib h id .invokeTool result .required
  let record ← loadWait h record.binding.key waitId
  advanceStatus record waitId none .executing .consumed
  pure (.executed waiting.attemptId waiting.nodeId result)

/-- The approved branch of `resume_durable_local_write` (execution.rs:1136-1278). -/
def resumeApproved (waiting : WaitingBinding) (state : DurableRunState)
    (record : DurableApprovalRecord) (waitId : DurableApprovalWaitId) :
    HarnessM DurableLocalWriteResume := do
  let action ← restoreLocalWrite lib h record state
  let record ← grantApproval lib h waiting record waitId
  recordResumed lib h waiting record waitId .approvedReady .approvedReady
  let record ← loadWait h record.binding.key waitId
  preflight lib h .invokeTool
  executeApproved lib h waiting action record waitId

/-- `resume_durable_local_write` (execution.rs:1049), on the recovered context. -/
def resumeDurableLocalWrite (state : DurableRunState) (waitId : DurableApprovalWaitId) :
    HarnessM DurableLocalWriteResume := do
  let waiting ← Task.ofExcept (waitingPosition state waitId)
  let c ← Task.look
  let record ← loadWait h c.key waitId
  match record.status with
  | .decisionRecordedDeny => resumeDenied lib h waiting record waitId
  | .decisionRecordedApprove | .approvedReady => resumeApproved lib h waiting state record waitId
  | .waiting | .executing | .consumed => Task.fail .durableApprovalMismatch

end Durable

/-! ## Clients -/

/-- One call of a harness method. `newContext` is `RunContext::new…`; the methods that take a
recovered run use the one the client recovered. -/
inductive Operation (lib : Library) where
  | newContext (runId : RunId) (sessionId : SessionId) (budget : RunBudget)
      (contract : RecoveryContract)
  | recoverRun (key : RunKey)
  | startRun (authorization : Option DurableRunAuthorization)
  | invokeModel (request : ModelRequest)
  | invokeGroundedModel (retrieval : CompletedKnowledgeRetrieval) (request : GroundedModelRequest)
  | retrieveKnowledge (request : KnowledgeRequest)
  | prepareAction (invocation : CompletedModelInvocation)
  | invokeValidatedAction (action : ValidatedAction lib)
  | invokeTool (call : ToolCall)
  | suspendDurableLocalWrite (action : ValidatedAction lib) (durable : DurableActionContext)
  | durableApprovalView (key : RunKey) (waitId : DurableApprovalWaitId)
  | recordDurableApprovalDecision (command : DurableApprovalDecisionCommand)
  | recordDurableApprovalOutcome (key : RunKey) (waitId : DurableApprovalWaitId)
      (expectedRowVersion : Nat) (outcome : DurableApprovalOutcome)
      (actor : Option (PrincipalId × Nat))
  | abortDurableWaiting (key : RunKey) (waitId : DurableApprovalWaitId) (expectedRowVersion : Nat)
  | resumeDurableLocalWrite (waitId : DurableApprovalWaitId)
  | checkpoint
  | beginIteration
  | recordLoopProgress (progress : LoopProgressEvent)
  | startGraph (definitionDigest : Bytes32) (startNode : GraphNodeId) (startKind : GraphNodeKind)
      (startRecovery : GraphRecoveryMode)
  | enterGraphNode (nodeId : GraphNodeId) (nodeKind : GraphNodeKind) (recovery : GraphRecoveryMode)
  | restartGraphNode (previous : Option GraphNodeAttemptId) (nodeId : GraphNodeId)
      (nodeKind : GraphNodeKind) (recovery : GraphRecoveryMode)
  | completeGraphNode (attemptId : GraphNodeAttemptId) (nodeId : GraphNodeId)
      (transition : GraphTransitionKey) (nextNode : GraphNodeId) (nextKind : GraphNodeKind)
      (nextRecovery : GraphRecoveryMode)
  | completeGraph (attemptId : GraphNodeAttemptId) (nodeId : GraphNodeId)
  | failGraph (attemptId : GraphNodeAttemptId) (nodeId : GraphNodeId) (failure : GraphFailureKind)
  | completeRun
  | failRun (kind : RunFailureKind)
  | cancelRun

/-- A call on a particular harness. -/
structure Command (lib : Library) where
  harness : ExecutionHarness
  operation : Operation lib

/-- What a client holds between two calls: nothing, a run context, or a recovered run that
waits. -/
inductive Holding where
  | nothing
  | context (c : RunContext)
  | waiting (recovered : RecoveredRun)

/-- A method on a context: the client keeps the context, whatever the result. -/
def onContext {α : Type} (m : HarnessM α) (c : RunContext) : Prog Answer Holding :=
  (m c).bind fun p => .pure (.context p.2)

/-- A method that needs no context leaves nothing behind. -/
def onNothing {α : Type} (p : Prog Answer (Except HarnessError α)) : Prog Answer Holding :=
  p.bind fun _ => .pure .nothing

/-- The context method behind an operation. -/
def Operation.method {lib : Library} (h : ExecutionHarness) : Operation lib → Option (HarnessM Unit)
  | .startRun authorization => some (LocalAgent.startRun lib h authorization)
  | .invokeModel request => some (do let _ ← invokeModelInternal lib h request none)
  | .invokeGroundedModel retrieval request =>
    some (do let _ ← LocalAgent.invokeGroundedModel lib h retrieval request)
  | .retrieveKnowledge request => some (do let _ ← LocalAgent.retrieveKnowledge lib h request)
  | .prepareAction invocation => some (do let _ ← LocalAgent.prepareAction lib h invocation)
  | .invokeValidatedAction action =>
    some (do let _ ← LocalAgent.invokeValidatedAction lib h action)
  | .invokeTool call => some (do let _ ← LocalAgent.invokeTool lib h call)
  | .suspendDurableLocalWrite action durable =>
    some (LocalAgent.suspendDurableLocalWrite lib h action durable)
  | .checkpoint => some (LocalAgent.checkpoint lib h)
  | .beginIteration => some (do let _ ← LocalAgent.beginIteration lib h)
  | .recordLoopProgress progress => some (LocalAgent.recordLoopProgress lib h progress)
  | .startGraph digest node kind recovery =>
    some (LocalAgent.startGraph lib h digest node kind recovery)
  | .enterGraphNode node kind recovery =>
    some (do let _ ← LocalAgent.enterGraphNode lib h node kind recovery)
  | .restartGraphNode previous node kind recovery =>
    some (do let _ ← LocalAgent.restartGraphNode lib h previous node kind recovery)
  | .completeGraphNode attempt node transition next kind recovery =>
    some (LocalAgent.completeGraphNode lib h attempt node transition next kind recovery)
  | .completeGraph attempt node => some (LocalAgent.completeGraph lib h attempt node)
  | .failGraph attempt node failure => some (LocalAgent.failGraph lib h attempt node failure)
  | .completeRun => some (LocalAgent.completeRun lib h)
  | .failRun kind => some (LocalAgent.failRun lib h kind)
  | .cancelRun => some (LocalAgent.cancelRun lib h)
  | _ => none

/-- Run a command on what the client holds. A new context replaces whatever was held, the context
of a waiting run can be used like any other (`into_parts`), and a command that does not fit does
nothing. -/
def Command.code {lib : Library} (cmd : Command lib) (held : Holding) : Prog Answer Holding :=
  match cmd.operation, held with
  | .newContext runId sessionId budget contract, _ =>
    .pure (.context (.newWithRecoveryContract runId sessionId budget contract))
  | operation, .context c =>
    match operation.method cmd.harness with
    | some m => onContext m c
    | none => .pure held
  | .resumeDurableLocalWrite waitId, .waiting recovered =>
    (LocalAgent.resumeDurableLocalWrite lib cmd.harness recovered.state waitId
      recovered.context).bind fun
      | (.ok _, c) => .pure (.context c)
      | (.error _, _) => .pure .nothing
  | operation, .waiting recovered =>
    match operation.method cmd.harness with
    | some m => onContext m recovered.context
    | none => .pure held
  | .recoverRun key, .nothing =>
    (LocalAgent.recoverRun lib cmd.harness key ()).bind fun
      | (.ok (.resumable recovered), _) => .pure (.context recovered.context)
      | (.ok (.waiting recovered), _) => .pure (.waiting recovered)
      | _ => .pure .nothing
  | .durableApprovalView key waitId, .nothing =>
    onNothing (LocalAgent.durableApprovalView lib cmd.harness key waitId)
  | .recordDurableApprovalDecision command, .nothing =>
    onNothing (LocalAgent.recordDurableApprovalDecision lib cmd.harness command)
  | .recordDurableApprovalOutcome key waitId version outcome actor, .nothing =>
    onNothing (LocalAgent.recordDurableApprovalOutcome lib cmd.harness key waitId version outcome
      actor)
  | .abortDurableWaiting key waitId version, .nothing =>
    onNothing (LocalAgent.abortDurableWaiting lib cmd.harness key waitId version)
  | _, held => .pure held

end LocalAgent
