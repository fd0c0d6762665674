import LocalAgent.Core.Event

/-!
# The durable run state (`agent-harness/src/persistence.rs`, `recovery.rs:22-257`)

`DurableRunState` is the metadata the harness keeps for a run: it is written into every
checkpoint and rebuilt from the event log on recovery. This file holds the data; the reducer
that drives it is `Reducer.lean`.
-/
namespace LocalAgent

/-! ## The stored run record -/

/-- `CURRENT_STORE_SCHEMA_VERSION`. -/
def currentStoreSchemaVersion : Nat := 2

/-- `CURRENT_CHECKPOINT_SCHEMA_VERSION`. -/
def currentCheckpointSchemaVersion : Nat := 5

structure RunKey where
  runId : RunId
  sessionId : SessionId
deriving DecidableEq, Repr

/-- `RecoveryContract`: what the program promised about restarts when the run was created. -/
inductive RecoveryContract where
  | nonRestartable
  | restartable (version : Nat)
  | restartableRetrieval (version : Nat)
  | graph (programVersion : Nat) (definitionDigest : Bytes32)
deriving DecidableEq, Repr

/-- `agent_identity::DurableRunAuthorization`. -/
structure DurableRunAuthorization where
  owner : PrincipalId
  requester : PrincipalId
  workflowId : String
  policyVersion : Nat
  policyFingerprint : Bytes32
deriving DecidableEq, Repr

/-- `RunRecord`. -/
structure RunRecord where
  storeSchemaVersion : Nat
  checkpointSchemaVersion : Nat
  key : RunKey
  budget : RunBudget
  recoveryContract : RecoveryContract
  authorization : Option DurableRunAuthorization
deriving DecidableEq

/-- `RunRecord::new`. -/
def RunRecord.new (key : RunKey) (budget : RunBudget) (contract : RecoveryContract) : RunRecord :=
  ⟨currentStoreSchemaVersion, currentCheckpointSchemaVersion, key, budget, contract, none⟩

/-- `RunRecord::with_authorization`. -/
def RunRecord.withAuthorization (r : RunRecord) (a : DurableRunAuthorization) : RunRecord :=
  { r with authorization := some a }

/-- `ContextSnapshot`. -/
structure ContextSnapshot where
  key : RunKey
  budget : RunBudget
  usage : BudgetUsage
  status : RunStatus
  auditDegraded : Bool
  startedAtUnixMillis : Option Nat
deriving DecidableEq

/-! ## Positions -/

inductive DurableLoopPosition where
  | notStarted
  | ready
  | phaseReady (phase : LoopPhase)
  | phaseRunning (phase : LoopPhase)
  | reflectCompleted
  | reflectDecided (decision : LoopDecisionKind)
  | finished
deriving DecidableEq, Repr

inductive ContinuationState where
  | initialBoundary | restartableBoundary | transientStateRequired
deriving DecidableEq, Repr

inductive PendingEffect where
  | model (modelCallId : ModelCallId)
  | approval (approvalRequestId : ApprovalRequestId)
  | tool (toolCallId : ToolCallId) (capability : CapabilityKind)
deriving DecidableEq, Repr

/-- `PendingEffectKey`: what a terminal event names. -/
inductive PendingEffectKey where
  | model (modelCallId : ModelCallId)
  | approval (approvalRequestId : ApprovalRequestId)
  | tool (toolCallId : ToolCallId)
deriving DecidableEq, Repr

/-- The key under which an effect is waited for. -/
def PendingEffect.key : PendingEffect → PendingEffectKey
  | .model id => .model id
  | .approval id => .approval id
  | .tool id _ => .tool id

/-- `PendingEffectKey::matches` (recovery.rs:1125). -/
def PendingEffectKey.matches : PendingEffectKey → PendingEffect → Bool
  | .model l, .model r => l = r
  | .approval l, .approval r => l = r
  | .tool l, .tool r _ => l = r
  | _, _ => false

@[simp] theorem PendingEffectKey.matches_iff (k : PendingEffectKey) (e : PendingEffect) :
    k.matches e = true ↔ e.key = k := by
  cases k <;> cases e <;> simp [PendingEffectKey.matches, PendingEffect.key, eq_comm]

structure PendingKnowledgeRetrieval where
  retrievalId : KnowledgeRetrievalId
  route : KnowledgeRouteMetadata
  queryDigest : Bytes32
  queryBytes : Nat
deriving DecidableEq, Repr

/-- `PendingKnowledgeRetrieval::matches_request`. -/
def PendingKnowledgeRetrieval.matchesRequest (p : PendingKnowledgeRetrieval)
    (route : KnowledgeRouteMetadata) (queryDigest : Bytes32) (queryBytes : Nat) : Bool :=
  p.route = route && p.queryDigest = queryDigest && p.queryBytes = queryBytes

structure DurableKnowledgeManifest where
  retrievalId : KnowledgeRetrievalId
  evidenceCount : Nat
  manifestDigest : Bytes32
deriving DecidableEq, Repr

inductive DurableGraphPosition where
  | notStarted
  | ready (nodeId : GraphNodeId) (nodeKind : GraphNodeKind) (recovery : GraphRecoveryMode)
  | running (attemptId : GraphNodeAttemptId) (nodeId : GraphNodeId) (nodeKind : GraphNodeKind)
      (recovery : GraphRecoveryMode)
  | waiting (attemptId : GraphNodeAttemptId) (nodeId : GraphNodeId)
      (waitId : DurableApprovalWaitId) (approvalRequestId : ApprovalRequestId)
      (actionProposalId : ActionProposalId) (toolCallId : ToolCallId)
      (actionDigest : ActionDigest) (activeElapsedMillis : Nat)
  | finished
deriving DecidableEq, Repr

structure GraphRestartAnchor where
  nodeId : GraphNodeId
  attemptId : GraphNodeAttemptId
deriving DecidableEq, Repr

structure DurableGraphState where
  definitionDigest : Bytes32
  position : DurableGraphPosition
  steps : Nat
  restartAnchor : Option GraphRestartAnchor
deriving DecidableEq, Repr

/-- `DurableGraphState::can_resume` (recovery.rs:182). -/
def DurableGraphState.canResume (g : DurableGraphState) : Bool :=
  if g.restartAnchor.isSome then true
  else match g.position with
    | .ready _ _ .freshRetrieval | .ready _ _ .deterministicBoundary => true
    | .running _ _ _ .freshRetrieval | .running _ _ _ .deterministicBoundary => true
    | _ => false

/-! ## `DurableRunState` -/

structure DurableRunState where
  context : ContextSnapshot
  recoveryContract : RecoveryContract
  lastSequence : Option Nat
  eventChainDigest : Bytes32
  currentIteration : Option Nat
  completedIterations : Nat
  loopPosition : DurableLoopPosition
  continuation : ContinuationState
  pendingEffects : List PendingEffect
  pendingKnowledgeRetrieval : Option PendingKnowledgeRetrieval
  restartableKnowledgeRetrieval : Option PendingKnowledgeRetrieval
  latestKnowledgeManifest : Option DurableKnowledgeManifest
  graph : Option DurableGraphState
deriving DecidableEq

namespace DurableRunState

/-- `DurableRunState::initial` (recovery.rs:222). -/
def initial (record : RunRecord) : DurableRunState where
  context :=
    { key := record.key, budget := record.budget, usage := {}, status := .pending,
      auditDegraded := false, startedAtUnixMillis := none }
  recoveryContract := record.recoveryContract
  lastSequence := none
  eventChainDigest := 0
  currentIteration := none
  completedIterations := 0
  loopPosition := .notStarted
  continuation := .initialBoundary
  pendingEffects := []
  pendingKnowledgeRetrieval := none
  restartableKnowledgeRetrieval := none
  latestKnowledgeManifest := none
  graph := none

/-- `set_started_at`. -/
def setStartedAt (s : DurableRunState) (value : Nat) : DurableRunState :=
  { s with context.startedAtUnixMillis := some value }

/-- `set_audit_degraded`. -/
def setAuditDegraded (s : DurableRunState) : DurableRunState :=
  { s with context.auditDegraded := true }

def key (s : DurableRunState) : RunKey := s.context.key
def budget (s : DurableRunState) : RunBudget := s.context.budget
def usage (s : DurableRunState) : BudgetUsage := s.context.usage
def status (s : DurableRunState) : RunStatus := s.context.status

/-- `is_quiescent` (recovery.rs:1111): the condition for writing a checkpoint. -/
def isQuiescent (s : DurableRunState) : Bool :=
  s.pendingEffects.isEmpty && s.pendingKnowledgeRetrieval.isNone

/-- The graph position, if a graph was started (`state.graph().map(position)`). -/
def graphPosition (s : DurableRunState) : Option DurableGraphPosition :=
  s.graph.map DurableGraphState.position

end DurableRunState

/-- `DurableCheckpoint`. -/
structure DurableCheckpoint where
  checkpointSchemaVersion : Nat
  state : DurableRunState
deriving DecidableEq

/-- `DurableCheckpoint::new`. -/
def DurableCheckpoint.new (state : DurableRunState) : DurableCheckpoint :=
  ⟨currentCheckpointSchemaVersion, state⟩

/-- `LoadedRun`: what the persistence port hands to recovery. -/
structure LoadedRun where
  record : RunRecord
  checkpoint : DurableCheckpoint
  events : List AgentEvent
deriving DecidableEq

end LocalAgent
