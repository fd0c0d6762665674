import LocalAgent.Harness.Emits

/-!
# The operations of the harness emit what they say

One rule for each operation that a program or an engine calls on a running context, in the order of
`Operations.lean` and `Durable.lean`. The effects of a program emit no progress event; a progress
operation emits the one that it is for.
-/
namespace LocalAgent

open Program

section Operations

variable {lib : Library} {h : ExecutionHarness} {K : AgentEventKind → Prop}
  (hK : ∀ kind : AgentEventKind, kind.isProgress = false → K kind)

/-! ## Reservations -/

theorem SameEvents.map {r : Except BudgetDimension RunContext} {c c' : RunContext} {a : Unit}
    (hr : ∀ x, r = .ok x → SameEvents c x) (h : (r.map fun x => ((), x)) = .ok (a, c')) :
    SameEvents c c' := by
  cases r with
  | error dimension => cases h
  | ok x =>
    cases h
    exact hr _ rfl

theorem SameEvents.rebuildUsage {c c' : RunContext} {p : Prop} [Decidable p] {x : BudgetDimension}
    {a b i r g : Nat} (h : (if p then .error x else .ok (c.rebuildUsage a b i r g) :
      Except BudgetDimension RunContext) = .ok c') : SameEvents c c' := by
  by_cases hp : p
  · rw [if_pos hp] at h
    cases h
  · rw [if_neg hp] at h
    cases h
    exact .of_eq rfl rfl rfl

theorem SameEvents.rebuildUsage_pair {c c' : RunContext} {p : Prop} [Decidable p] {x : BudgetDimension}
    {n m a b i r g : Nat} (h : (if p then .error x else .ok (n, c.rebuildUsage a b i r g) :
      Except BudgetDimension (Nat × RunContext)) = .ok (m, c')) : SameEvents c c' := by
  by_cases hp : p
  · rw [if_pos hp] at h
    cases h
  · rw [if_neg hp] at h
    cases h
    exact .of_eq rfl rfl rfl

include hK

theorem reserveModelCall_emits :
    Emits lib K (reserve lib h fun c => c.reserveModelCall.map fun c => ((), c)) :=
  reserve_emits hK fun _ _ _ => SameEvents.map fun _ => SameEvents.rebuildUsage

theorem reserveToolCall_emits :
    Emits lib K (reserve lib h fun c => c.reserveToolCall.map fun c => ((), c)) :=
  reserve_emits hK fun _ _ _ => SameEvents.map fun _ => SameEvents.rebuildUsage

theorem reserveApprovalRequest_emits :
    Emits lib K (reserve lib h fun c => c.reserveApprovalRequest.map fun c => ((), c)) :=
  reserve_emits hK fun _ _ _ => SameEvents.map fun _ => SameEvents.rebuildUsage

theorem reserveGraphStep_emits : Emits lib K (reserve lib h RunContext.reserveGraphStep) := by
  refine reserve_emits hK fun c a c' hc => ?_
  unfold RunContext.reserveGraphStep at hc
  exact SameEvents.rebuildUsage_pair hc

/-! ## Ports and tools -/

theorem settle_emits {ε α : Type} {reap : HarnessM Unit} {wrap : ε → HarnessError}
    {x : Awaited (Except ε α)} (hreap : Emits lib K reap) : Emits lib K (settle lib h reap wrap x) := by
  have hend : ∀ (terminal : SafetyTerminalization) (err : HarnessError), Emits lib K (do
      reap
      terminalizeSafety lib h terminal
      (Task.fail err : HarnessM α)) := fun _ _ =>
    .bind hreap fun _ => .bind (terminalize_emits hK) fun _ => .fail
  cases x with
  | ready y =>
    cases y with
    | ok a => exact .pure
    | error e => exact .fail
  | cancelled => exact hend _ _
  | deadlineExceeded => exact hend _ _

omit hK in
theorem mapErr_emits {ε α : Type} {wrap : ε → HarnessError} {x : Except ε α} :
    Emits lib K (mapErr wrap x) := .ofExcept

theorem invokeModelPort_emits {id : ModelCallId} {request : ModelRequest} :
    Emits lib K (invokeModelPort lib h id request) :=
  .bind runtime_emits fun _ => .bind .look fun _ => .bind (.ask rfl fun _ => rfl) fun _ =>
    settle_emits hK .pure

theorem awaitApproval_emits {request : ApprovalRequest} : Emits lib K (awaitApproval lib h request) :=
  .bind runtime_emits fun _ => .bind .look fun _ => .bind (.ask rfl fun _ => rfl) fun _ =>
    settle_emits hK .pure

theorem invokeContainedToolPort_emits {call : ToolCall} :
    Emits lib K (invokeContainedToolPort lib h call) :=
  .bind runtime_emits fun _ => .bind .look fun _ => .bind (.ask rfl fun _ => rfl) fun _ =>
    .bind mapErr_emits fun _ => .bind (.ask rfl fun _ => rfl) fun _ =>
      settle_emits hK (.bind (.ask rfl fun _ => rfl) fun _ => mapErr_emits)

theorem invokeBoundPort_emits {binding : ExecutionBinding} {call : ToolCall} :
    Emits lib K (invokeBoundPort lib h binding call) := by
  cases binding with
  | direct =>
    exact .bind runtime_emits fun _ => .bind .look fun _ => .bind (.ask rfl fun _ => rfl) fun _ =>
      settle_emits hK .pure
  | managedDirect =>
    exact .bind runtime_emits fun _ => .bind .look fun _ => .bind (.ask rfl fun _ => rfl) fun _ =>
      .bind mapErr_emits fun _ => .bind (.ask rfl fun _ => rfl) fun _ =>
        settle_emits hK (.bind (.ask rfl fun _ => rfl) fun _ => mapErr_emits)
  | contained => exact invokeContainedToolPort_emits hK

theorem reserveAndRecordToolStarted_emits {id : ToolCallId} {name : ToolName}
    {capability : CapabilityKind} {operation : HarnessOperation} {mode : ToolAudit} :
    Emits lib K (reserveAndRecordToolStarted lib h id name capability operation mode) :=
  .bind (reserveToolCall_emits hK) fun _ => .bind .look fun _ => recordTool_emits hK (hK _ rfl)

theorem recordToolTerminalAfterRuntimeError_emits {id : ToolCallId} {operation : HarnessOperation}
    {mode : ToolAudit} : Emits lib K (recordToolTerminalAfterRuntimeError lib h id operation mode) :=
  .bind .look fun _ => .ite (recordTool_emits hK (hK _ rfl))
    (.nextEvent_attempt (hK _ rfl) (fun _ _ => auditTerminalBestEffort_sends) fun _ =>
      markAuditDegraded_emits)

theorem finishToolInvocation_emits {id : ToolCallId} {operation : HarnessOperation}
    {result : Except HarnessError ToolResult} {mode : ToolAudit} :
    Emits lib K (finishToolInvocation lib h id operation result mode) := by
  have hfailed : ∀ err, Emits lib K (do
      recordToolTerminalEvent lib h (.toolInvocationAdapterFailed id) operation mode
      (Task.fail err : HarnessM ToolResult)) := fun _ =>
    .bind (recordTool_emits hK (hK _ rfl)) fun _ => .fail
  cases result with
  | ok result =>
    refine .ite (hfailed _) (.bind (recordTool_emits hK ?_) fun _ => .pure)
    cases result <;> exact hK _ rfl
  | error err =>
    cases err with
    | toolPort e => exact hfailed _
    | containmentPort e => exact hfailed _
    | _ => exact .bind (recordToolTerminalAfterRuntimeError_emits hK) fun _ => .fail

theorem invokeBoundTool_emits {binding : ExecutionBinding} {call : ToolCall} {name : ToolName}
    {capability : CapabilityKind} : Emits lib K (invokeBoundTool lib h binding call name capability) :=
  .bind (reserveAndRecordToolStarted_emits hK) fun _ => .bind (invokeBoundPort_emits hK).attempt
    fun _ => finishToolInvocation_emits hK

/-! ## Effects -/

theorem invokeModelInternal_emits {request : ModelRequest} {grounding : Option GroundingBinding} :
    Emits lib K (invokeModelInternal lib h request grounding) := by
  refine .bind (preflight_emits hK) fun _ => .bind (reserveModelCall_emits hK) fun _ =>
    .bind (.ask rfl fun _ => rfl) fun id => .bind .look fun c =>
      .bind (record_emits hK (hK _ rfl)) fun _ => .bind ?_ fun _ =>
        .bind (invokeModelPort_emits hK).attempt fun x => ?_
  · cases grounding with
    | none => exact .pure
    | some g => exact record_emits hK (hK _ rfl)
  · cases x with
    | ok response => exact .bind (record_emits hK (hK _ rfl)) fun _ => .pure
    | error err =>
      cases err with
      | modelPort e => exact .bind (record_emits hK (hK _ rfl)) fun _ => .fail
      | _ => exact .fail

theorem invokeGroundedModel_emits {retrieval : CompletedKnowledgeRetrieval}
    {request : GroundedModelRequest} : Emits lib K (invokeGroundedModel lib h retrieval request) :=
  .ite .fail (invokeModelInternal_emits hK)

theorem interruptRetrieval_emits {α : Type} {id : KnowledgeRetrievalId} {kind : KnowledgeFailureKind}
    {terminal : SafetyTerminalization} {err : HarnessError} :
    Emits lib K (interruptRetrieval lib h id kind terminal err : HarnessM α) := by
  refine .bind (.nextEvent (hK _ rfl) fun e _ => .bind persistTransition_sends fun _ =>
    .bind auditWithTimeout_emits fun x => ?_) fun _ => .bind (terminalize_emits hK) fun _ => .fail
  cases x with
  | none => exact .pure
  | some e => exact markAuditDegraded_emits

theorem retrieveKnowledge_emits {request : KnowledgeRequest} :
    Emits lib K (retrieveKnowledge lib h request) := by
  refine .bind (preflight_emits hK) fun _ => .ite (.bind (.ask rfl fun _ => rfl) fun id =>
    .ite .fail (.bind .look fun c => .ofExcept_bind fun kind hkind => ?_)) .fail
  have hstart : kind.isProgress = false := by
    unfold retrievalEvent at hkind
    cases hpending : c.durableState.pendingKnowledgeRetrieval with
    | none =>
      rw [hpending] at hkind
      cases hkind
      rfl
    | some previous =>
      rw [hpending] at hkind
      dsimp only at hkind
      split at hkind <;> cases hkind
      rfl
  refine .bind (record_emits hK (hK _ hstart)) fun _ => .bind runtime_emits fun _ =>
    .bind (.ask rfl fun _ => rfl) fun x => ?_
  cases x with
  | ready y =>
    cases y with
    | ok evidence =>
      refine .ofExcept_bind fun kind hkind => .bind (record_emits hK (hK _ ?_)) fun _ => .pure
      unfold retrievalCompleted at hkind
      cases hrefs : evidence.durableReferences.mapM (fun r => r) with
      | none =>
        rw [hrefs] at hkind
        cases hkind
      | some references =>
        rw [hrefs] at hkind
        dsimp only at hkind
        split at hkind <;> cases hkind
        rfl
    | error error => exact .bind (record_emits hK (hK _ rfl)) fun _ => .fail
  | cancelled => exact interruptRetrieval_emits hK
  | deadlineExceeded => exact interruptRetrieval_emits hK

theorem prepareAction_emits {invocation : CompletedModelInvocation} :
    Emits lib K (prepareAction lib h invocation) := by
  refine .bind (preflight_emits hK) fun _ => .bind (.ask rfl fun _ => rfl) fun id => ?_
  cases lib.decode invocation.response with
  | error reason => exact .bind (record_emits hK (hK _ rfl)) fun _ => .pure
  | ok decoded =>
    refine .bind (record_emits hK (hK _ rfl)) fun _ => ?_
    cases validateAction lib h.tools ⟨id⟩ decoded.1 decoded.2 with
    | error reason => exact .bind (record_emits hK (hK _ rfl)) fun _ => .pure
    | ok validated => exact .bind (record_emits hK (hK _ rfl)) fun _ => .pure

theorem denyTool_emits {α : Type} {id : ToolCallId} {name : ToolName} {capability : CapabilityKind}
    {operation : HarnessOperation} {error : HarnessError} :
    Emits lib K (denyTool lib h id name capability operation error : HarnessM α) :=
  .bind (record_emits hK (hK _ rfl)) fun _ => .fail

theorem failApproval_emits {α : Type} {id : ApprovalRequestId} {kind : ApprovalFailureKind}
    {error : HarnessError} : Emits lib K (failApproval lib h id kind error : HarnessM α) :=
  .bind (recordRequired_emits hK (hK _ rfl)) fun _ => .fail

theorem applyDecision_emits {call : ToolCall} {info : ApprovedLocalWriteMeta} {id : ApprovalRequestId}
    {decision : ApprovalDecision} : Emits lib K (applyDecision lib h call info id decision) := by
  refine .bind (preflight_emits hK) fun _ => .ite (failApproval_emits hK) ?_
  cases decision.outcome with
  | denied => exact .bind (recordRequired_emits hK (hK _ rfl)) fun _ => .fail
  | granted =>
    exact .bind (recordRequired_emits hK (hK _ rfl)) fun _ => .bind (preflight_emits hK) fun _ =>
      .bind (reserveAndRecordToolStarted_emits hK) fun _ =>
        .bind (invokeContainedToolPort_emits hK).attempt fun _ => finishToolInvocation_emits hK

theorem invokeApprovedLocalWrite_emits {call : ToolCall} {info : ApprovedLocalWriteMeta} :
    Emits lib K (invokeApprovedLocalWrite lib h call info) := by
  refine .bind (.ask rfl fun _ => rfl) fun preview => ?_
  cases preview with
  | error error => exact .bind (recordRequired_emits hK (hK _ rfl)) fun _ => .fail
  | ok preview =>
    refine .bind (preflight_emits hK) fun _ => .ite (.bind (.ask rfl fun _ => rfl) fun id =>
      .bind (reserveApprovalRequest_emits hK) fun _ => .bind .look fun c =>
        .bind (recordRequired_emits hK (hK _ rfl)) fun _ =>
          .bind (awaitApproval_emits hK).attempt fun x => ?_) .fail
    cases x with
    | ok decision => exact applyDecision_emits hK
    | error err =>
      cases err with
      | approvalPort e => exact failApproval_emits hK
      | _ => exact .fail

theorem dispatchAction_emits {action : ValidatedAction lib} {id : ToolCallId}
    {binding : ExecutionBinding} {decision : AuthorizationDecision} :
    Emits lib K (dispatchAction lib h action id binding decision) := by
  have hcontained : ∀ failure err, Emits lib K (do
      recordContainmentFailed lib h id action.toolName action.capability failure
      (Task.fail err : HarnessM ToolResult)) := fun _ _ =>
    .bind (recordRequired_emits hK (hK _ rfl)) fun _ => .fail
  unfold dispatchAction
  dsimp only
  split
  · exact invokeBoundTool_emits hK
  · exact denyTool_emits hK
  · exact denyTool_emits hK
  · exact denyTool_emits hK
  · exact denyTool_emits hK
  · cases binding with
    | direct => exact hcontained _ _
    | managedDirect => exact hcontained _ _
    | contained => exact .bind .look fun _ => .ite .fail (invokeApprovedLocalWrite_emits hK)
  · exact denyTool_emits hK
  · exact denyTool_emits hK

theorem invokeValidatedAction_emits {action : ValidatedAction lib} :
    Emits lib K (invokeValidatedAction lib h action) := by
  refine .bind (preflight_emits hK) fun _ => .bind (.ask rfl fun _ => rfl) fun id => ?_
  cases h.tools.get action.toolName with
  | none => exact .fail
  | some binding =>
    exact .ite .fail (.bind (recordTool_emits hK (hK _ rfl)) fun _ =>
      .bind (.ask rfl fun _ => rfl) fun _ => dispatchAction_emits hK)

/-! ## Progress -/

section Progress

variable {kind : AgentEventKind} {operation : HarnessOperation} {phase : AuditPhase}
  {effect : OperationEffect}

/-- An operation that only records an event. -/
theorem recorded_emits (hkind : K kind) :
    Emits lib K (do preflight lib h operation; record lib h kind operation phase effect) :=
  .bind (preflight_emits hK) fun _ => record_emits hK hkind

theorem enterGraphNode_emits {node : GraphNodeId} {nodeKind : GraphNodeKind}
    {recovery : GraphRecoveryMode}
    (hkind : ∀ id step limit, K (.graph (.graphNodeEntered id node nodeKind recovery step limit))) :
    Emits lib K (enterGraphNode lib h node nodeKind recovery) :=
  .bind (preflight_emits hK) fun _ => .bind (reserveGraphStep_emits hK) fun _ =>
    .bind (.ask rfl fun _ => rfl) fun _ => .bind .look fun _ =>
      .bind (record_emits hK (hkind _ _ _)) fun _ => .pure

theorem restartGraphNode_emits {previous : Option GraphNodeAttemptId} {node : GraphNodeId}
    {nodeKind : GraphNodeKind} {recovery : GraphRecoveryMode}
    (hkind : ∀ id step limit,
      K (.graph (.graphNodeRestarted previous id node nodeKind recovery step limit))) :
    Emits lib K (restartGraphNode lib h previous node nodeKind recovery) :=
  .bind (preflight_emits hK) fun _ => .bind (reserveGraphStep_emits hK) fun _ =>
    .bind (.ask rfl fun _ => rfl) fun _ => .bind .look fun _ =>
      .bind (record_emits hK (hkind _ _ _)) fun _ => .pure

theorem finishWith_emits {outcome : RunOutcome} {kind : RunContext → AgentEventKind}
    (hkind : ∀ c, K (kind c)) : Emits lib K (finishWith lib h outcome kind operation) :=
  .bind (preflight_emits hK) fun _ => .bind commitFinished_emits fun _ => .bind .look fun c =>
    .nextEvent (hkind c) fun _ _ => auditLifecycle_sends hK

end Progress

/-! ## Durable waits -/

omit hK in
theorem loadWait_emits {key : RunKey} {waitId : DurableApprovalWaitId} :
    Emits lib K (loadWait h key waitId) := by
  refine .ite (.bind (.ask rfl fun _ => rfl) fun x => ?_) .fail
  cases x with
  | error e => exact .fail
  | ok record => exact .pure

omit hK in
theorem restoreArguments_emits {record : DurableApprovalRecord} {registered : ToolBinding} :
    Emits lib K (restoreArguments lib record registered) := by
  refine .bind (.ask rfl fun _ => rfl) fun _ => .bind mapErr_emits fun capsule => ?_
  dsimp only
  cases lib.validateArgumentLimits (localWriteArguments capsule) with
  | error e => exact .fail
  | ok u =>
    exact .ite .fail (.ite .fail (.bind (.ask rfl fun _ => rfl) fun _ => .bind mapErr_emits fun _ => .pure))

omit hK in
theorem restoreLocalWrite_emits {record : DurableApprovalRecord} {state : DurableRunState} :
    Emits lib K (restoreLocalWrite lib h record state) := by
  refine .ite .fail ?_
  cases h.workspaceBindingId with
  | none => exact .fail
  | some workspace =>
    refine .ite .fail ?_
    cases h.tools.get durableLocalWriteToolName with
    | none => exact .fail
    | some registered =>
      exact .ite .fail (.bind (.ask rfl fun _ => rfl) fun _ => .ite .fail (.ite .fail restoreArguments_emits))

omit hK in
/-- A status change that carries the event. -/
theorem advanceStatus_sends {e : AgentEvent} {record : DurableApprovalRecord}
    {waitId : DurableApprovalWaitId} {expected next : DurableApprovalStatus} :
    Sends lib K e (advanceStatus record waitId (some e) expected next) := by
  refine .look fun c => .ask rfl rfl fun x => ?_
  cases x with
  | ok u => exact .pure
  | error err => exact .bind markPersistenceFailed_emits fun _ => .fail

omit hK in
/-- One that carries none. -/
theorem advanceStatus_emits {record : DurableApprovalRecord} {waitId : DurableApprovalWaitId}
    {expected next : DurableApprovalStatus} :
    Emits lib K (advanceStatus record waitId none expected next) := by
  refine .bind .look fun c => .bind (.ask rfl fun _ => rfl) fun x => ?_
  cases x with
  | ok u => exact .pure
  | error err => exact .bind markPersistenceFailed_emits fun _ => .fail

/-- **`suspend_durable_local_write`**. -/
theorem suspendDurableLocalWrite_emits {action : ValidatedAction lib} {durable : DurableActionContext}
    (hkind : ∀ wait request proposal tool digest active, K (.graph (.graphSuspended durable.attemptId
      durable.nodeId wait request proposal tool digest active))) :
    Emits lib K (suspendDurableLocalWrite lib h action durable) := by
  have hseal : ∀ workspace capsule digest ids,
      Emits lib K (sealAndSuspend lib h action durable workspace capsule digest ids) := by
    intro workspace capsule digest ids
    refine .bind (recordRequired_emits hK (hK _ rfl)) fun _ =>
      .bind (reserveApprovalRequest_emits hK) fun _ => .bind .look fun c =>
        .bind (.ask rfl fun a => ?_) fun x => ?_
    · cases a <;> rfl
    cases x with
    | error err => exact .fail
    | ok loaded =>
      refine .bind (recordRequired_emits hK (hK _ rfl)) fun _ => .bind (.ask rfl fun _ => rfl) fun _ =>
        .bind mapErr_emits fun sealedAction => .bind trustedUnixMillis_emits fun suspendedAt =>
          .bind .look fun c => .bind .ofExcept fun startedAt => ?_
      cases checkedSub suspendedAt startedAt with
      | none => exact .fail
      | some active =>
        refine .nextEvent (hkind _ _ _ _ _ _) fun e _ => .look fun c => .ask rfl rfl fun x => ?_
        cases x with
        | error err => exact .bind markPersistenceFailed_emits fun _ => .fail
        | ok u => exact auditAlreadyPersisted_emits hK
  refine .bind (preflight_emits hK) fun _ => .ite .fail (.ite .fail ?_)
  cases h.workspaceBindingId with
  | none => exact .fail
  | some workspace =>
    refine .bind .look fun c => .ite .fail (.ite .fail (.bind (.ask rfl fun _ => rfl) fun decision =>
      .ite .fail ?_))
    cases h.tools.get action.toolName with
    | none => exact .fail
    | some binding =>
      exact .ite .fail (.ite .fail (.bind (.ask rfl fun _ => rfl) fun _ => .bind mapErr_emits fun _ =>
        .bind .ofExcept fun capsule => .bind (.ask rfl fun _ => rfl) fun _ =>
          .bind (.ask rfl fun _ => rfl) fun _ => .bind (.ask rfl fun _ => rfl) fun _ => hseal _ _ _ _))

theorem recordResumed_emits {waiting : WaitingBinding} {record : DurableApprovalRecord}
    {waitId : DurableApprovalWaitId} {expected next : DurableApprovalStatus}
    (hkind : ∀ resumedAt, K (.graph (.graphResumed waiting.attemptId waiting.nodeId waitId resumedAt))) :
    Emits lib K (recordResumed lib h waiting record waitId expected next) :=
  .bind trustedUnixMillis_emits fun _ => .nextEvent (hkind _) fun _ _ => .bind advanceStatus_sends
    fun _ => auditAlreadyPersisted_emits hK

/-- **`resume_durable_local_write`**. -/
theorem resumeDurableLocalWrite_emits {state : DurableRunState} {waitId : DurableApprovalWaitId}
    (hkind : ∀ waiting resumedAt, waitingPosition state waitId = .ok waiting →
      K (.graph (.graphResumed waiting.attemptId waiting.nodeId waitId resumedAt))) :
    Emits lib K (resumeDurableLocalWrite lib h state waitId) := by
  refine .ofExcept_bind fun waiting hwaiting => .bind .look fun c => .bind loadWait_emits fun record => ?_
  have hresumed : ∀ record expected next,
      Emits lib K (recordResumed lib h waiting record waitId expected next) :=
    fun _ _ _ => recordResumed_emits hK fun resumedAt => hkind waiting resumedAt hwaiting
  have happroved : Emits lib K (resumeApproved lib h waiting state record waitId) := by
    refine .bind restoreLocalWrite_emits fun action => .bind (.ite (.bind
      (recordRequired_emits hK (hK _ rfl)) fun _ => .bind advanceStatus_emits fun _ => loadWait_emits)
        .pure) fun record => .bind (hresumed _ _ _) fun _ => .bind loadWait_emits fun record =>
          .bind (preflight_emits hK) fun _ => .bind (reserveToolCall_emits hK) fun _ =>
            .bind .look fun c => .nextEvent (hK _ rfl) fun e _ => .bind advanceStatus_sends fun _ =>
              .bind (auditAlreadyPersisted_emits hK) fun _ => ?_
    exact .bind (invokeContainedToolPort_emits hK).attempt fun _ =>
      .bind (finishToolInvocation_emits hK) fun _ => .bind loadWait_emits fun _ =>
        .bind advanceStatus_emits fun _ => .pure
  cases record.status with
  | decisionRecordedDeny =>
    exact .bind (recordRequired_emits hK (hK _ rfl)) fun _ => .bind loadWait_emits fun _ =>
      .bind (hresumed _ _ _) fun _ => .pure
  | decisionRecordedApprove => exact happroved
  | approvedReady => exact happroved
  | waiting => exact .fail
  | executing => exact .fail
  | consumed => exact .fail

end Operations
end LocalAgent
