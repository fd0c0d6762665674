import LocalAgent.Core.Run
import LocalAgent.Lib.Text

/-!
# The event vocabulary (`agent-core/src/event.rs`, `graph_control.rs`, `loop_control.rs`)

`AgentEventKind` is translated constructor for constructor with every field: the reducer
checks many of them, the store and the audit sink carry all of them.
-/
namespace LocalAgent

/-- `CURRENT_EVENT_SCHEMA_VERSION`. -/
def currentEventSchemaVersion : Nat := 10

def maxDurableKnowledgeBackends : Nat := 2
def maxDurableEvidenceReferences : Nat := 8
def maxDurableKnowledgeIdBytes : Nat := 256

/-- `agent_knowledge::MAX_QUERY_BYTES`. -/
def maxQueryBytes : Nat := 1024

/-! ## Knowledge metadata -/

inductive KnowledgeBackendId where
  | ocppRagKag | standardsMcp
deriving DecidableEq, Repr

inductive KnowledgeRouteMetadata where
  | single (backend : KnowledgeBackendId)
  | federated (backends : List KnowledgeBackendId) (allowPartial : Bool)
deriving DecidableEq, Repr

def KnowledgeRouteMetadata.backends : KnowledgeRouteMetadata → List KnowledgeBackendId
  | .single b => [b]
  | .federated bs _ => bs

/-- `KnowledgeRouteMetadata::is_valid`: one or two backends, none twice. -/
def KnowledgeRouteMetadata.isValid (r : KnowledgeRouteMetadata) : Bool :=
  !r.backends.isEmpty && r.backends.length ≤ maxDurableKnowledgeBackends && r.backends.Nodup

/-- `KnowledgeEvidenceReference`. -/
structure KnowledgeEvidenceReference where
  backend : KnowledgeBackendId
  referenceId : String
deriving DecidableEq, Repr

/-- `KnowledgeSnapshotMetadata`. -/
structure KnowledgeSnapshotMetadata where
  backend : KnowledgeBackendId
  version : String
deriving DecidableEq, Repr

/-- The shared check of `KnowledgeEvidenceReference::new` and `KnowledgeSnapshotMetadata::new`. -/
def validKnowledgeId (s : String) : Bool :=
  !s.isEmpty && s.utf8ByteSize ≤ maxDurableKnowledgeIdBytes && !s.toList.any Text.isControl

def KnowledgeEvidenceReference.isValid (r : KnowledgeEvidenceReference) : Bool :=
  validKnowledgeId r.referenceId

def KnowledgeSnapshotMetadata.isValid (m : KnowledgeSnapshotMetadata) : Bool :=
  validKnowledgeId m.version

inductive KnowledgeFailureKind where
  | unavailable | rejected | malformedResponse | snapshotMismatch | failed | cancelled
  | deadlineExceeded
deriving DecidableEq, Repr

/-! ## Other payloads -/

inductive ApprovalFailureKind where
  | portUnavailable | portFailed | decisionMismatch
deriving DecidableEq, Repr

inductive ContainmentFailureKind where
  | unavailable | previewRejected | infrastructure
deriving DecidableEq, Repr

inductive DurableApprovalOutcome where
  | approve | deny
deriving DecidableEq, Repr

inductive ActionRejectionReason where
  | emptyOutput | unsupportedOutputShape | responseTooLarge | malformedEnvelope | invalidToolName
  | securityLimitExceeded | unknownTool | argumentsSchemaMismatch
deriving DecidableEq, Repr

inductive ToolDomainFailureKind where
  | invalidInput | rejected | notFound | conflict
deriving DecidableEq, Repr

structure TokenUsage where
  inputTokens : Option Nat
  outputTokens : Option Nat
deriving DecidableEq, Repr

/-! ## Loop and graph events -/

inductive LoopEventKind where
  | iterationStarted (iteration usage limit : Nat)
  | phaseEntered (iteration : Nat) (phase : LoopPhase)
  | phaseCompleted (iteration : Nat) (phase : LoopPhase)
  | reflectDecision (iteration : Nat) (decision : LoopDecisionKind)
  | iterationCompleted (iteration : Nat)
  | loopCompleted (completedIterations : Nat)
  | loopFailed (iteration : Nat) (kind : RunFailureKind)
deriving DecidableEq, Repr

inductive GraphProgressEvent where
  | graphStarted (definitionDigest : Bytes32) (startNode : GraphNodeId) (startKind : GraphNodeKind)
      (startRecovery : GraphRecoveryMode)
  | graphNodeEntered (attemptId : GraphNodeAttemptId) (nodeId : GraphNodeId)
      (nodeKind : GraphNodeKind) (recovery : GraphRecoveryMode) (step limit : Nat)
  | graphNodeRestarted (previousAttemptId : Option GraphNodeAttemptId)
      (attemptId : GraphNodeAttemptId) (nodeId : GraphNodeId) (nodeKind : GraphNodeKind)
      (recovery : GraphRecoveryMode) (step limit : Nat)
  | graphNodeCompleted (attemptId : GraphNodeAttemptId) (nodeId : GraphNodeId)
      (transition : GraphTransitionKey) (nextNode : GraphNodeId) (nextKind : GraphNodeKind)
      (nextRecovery : GraphRecoveryMode)
  | graphSuspended (attemptId : GraphNodeAttemptId) (nodeId : GraphNodeId)
      (waitId : DurableApprovalWaitId) (approvalRequestId : ApprovalRequestId)
      (actionProposalId : ActionProposalId) (toolCallId : ToolCallId)
      (actionDigest : ActionDigest) (activeElapsedMillis : Nat)
  | graphResumed (attemptId : GraphNodeAttemptId) (nodeId : GraphNodeId)
      (waitId : DurableApprovalWaitId) (resumedAtUnixMillis : Nat)
  | graphCompleted (attemptId : GraphNodeAttemptId) (nodeId : GraphNodeId) (steps : Nat)
  | graphFailed (attemptId : GraphNodeAttemptId) (nodeId : GraphNodeId) (steps : Nat)
      (failure : GraphFailureKind) (runFailure : RunFailureKind)
deriving DecidableEq, Repr

/-! ## `AgentEventKind` and `AgentEvent` -/

inductive AgentEventKind where
  | runStarted (startedAtUnixMillis : Nat)
  | runFinished (outcome : RunOutcome)
  | auditDegraded
  | modelInvocationStarted (modelCallId : ModelCallId) (usage limit : Nat)
  | modelInvocationCompleted (modelCallId : ModelCallId) (tokenUsage : Option TokenUsage)
  | modelInvocationFailed (modelCallId : ModelCallId)
  | actionProposed (modelCallId : ModelCallId) (actionProposalId : ActionProposalId)
      (toolName : ToolName)
  | actionValidated (actionProposalId : ActionProposalId)
  | actionRejected (modelCallId : ModelCallId) (actionProposalId : ActionProposalId)
      (reason : ActionRejectionReason)
  | actionExecutionBound (actionProposalId : ActionProposalId) (toolCallId : ToolCallId)
  | toolInvocationStarted (toolCallId : ToolCallId) (toolName : ToolName)
      (capability : CapabilityKind) (usage limit : Nat)
  | toolInvocationCompleted (toolCallId : ToolCallId)
  | toolInvocationDomainFailed (toolCallId : ToolCallId) (kind : ToolDomainFailureKind)
  | toolInvocationAdapterFailed (toolCallId : ToolCallId)
  | toolPolicyDenied (toolCallId : ToolCallId) (toolName : ToolName) (capability : CapabilityKind)
  | approvalRequested (approvalRequestId : ApprovalRequestId) (actionProposalId : ActionProposalId)
      (toolCallId : ToolCallId) (toolName : ToolName) (capability : CapabilityKind)
      (usage limit : Nat)
  | approvalGranted (approvalRequestId : ApprovalRequestId)
  | approvalDenied (approvalRequestId : ApprovalRequestId)
  | approvalFailed (approvalRequestId : ApprovalRequestId) (kind : ApprovalFailureKind)
  | durableApprovalPrepared (waitId : DurableApprovalWaitId) (approvalRequestId : ApprovalRequestId)
      (actionProposalId : ActionProposalId) (toolCallId : ToolCallId) (actionDigest : ActionDigest)
      (workspaceBindingId : WorkspaceBindingId) (toolContractDigest : ToolContractDigest)
      (usage limit : Nat)
  | durableApprovalDecisionRecorded (waitId : DurableApprovalWaitId)
      (approvalRequestId : ApprovalRequestId) (outcome : DurableApprovalOutcome)
      (rowVersion : Nat) (actor : Option PrincipalId)
  | durableApprovalGranted (waitId : DurableApprovalWaitId) (approvalRequestId : ApprovalRequestId)
  | durableApprovalDenied (waitId : DurableApprovalWaitId) (approvalRequestId : ApprovalRequestId)
  | containmentFailed (toolCallId : ToolCallId) (toolName : ToolName) (capability : CapabilityKind)
      (kind : ContainmentFailureKind)
  | knowledgeRetrievalStarted (retrievalId : KnowledgeRetrievalId) (route : KnowledgeRouteMetadata)
      (queryDigest : Bytes32) (queryBytes : Nat)
  | knowledgeRetrievalRestarted (previousRetrievalId retrievalId : KnowledgeRetrievalId)
      (route : KnowledgeRouteMetadata) (queryDigest : Bytes32) (queryBytes : Nat)
  | knowledgeRetrievalCompleted (retrievalId : KnowledgeRetrievalId)
      (snapshots : List KnowledgeSnapshotMetadata)
      (evidenceReferences : List KnowledgeEvidenceReference) (evidenceCount : Nat)
      (truncated degraded : Bool) (manifestDigest : Bytes32)
  | knowledgeRetrievalFailed (retrievalId : KnowledgeRetrievalId) (kind : KnowledgeFailureKind)
  | modelGroundingBound (retrievalId : KnowledgeRetrievalId) (modelCallId : ModelCallId)
      (evidenceCount : Nat) (manifestDigest : Bytes32)
  | loop (event : LoopEventKind)
  | graph (event : GraphProgressEvent)
deriving DecidableEq, Repr

/-- `AgentEvent`. -/
structure AgentEvent where
  schemaVersion : Nat
  runId : RunId
  sequence : Nat
  kind : AgentEventKind
deriving DecidableEq, Repr

/-- `AgentEvent::new` stamps the current schema version. -/
def AgentEvent.new (runId : RunId) (sequence : Nat) (kind : AgentEventKind) : AgentEvent :=
  ⟨currentEventSchemaVersion, runId, sequence, kind⟩

end LocalAgent
