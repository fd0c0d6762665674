import LocalAgent.Core.Tool
import LocalAgent.Lib.Program
import LocalAgent.Recovery.Recover

/-!
# What the harness asks of its environment

`ExecutionHarness` owns a model, a tool registry, a policy, an audit sink and four optional
ports, and reads clocks, ids and cancellation tokens. Each of these is a `Request` here; the
answers are whatever the environment gives. A `tokio::select!` over cancellation, deadline and a
port future is one request: its answer says which branch was taken.

Some requests carry a value that the Rust call does not pass on: the run and the call id under
which a port is called, whether the audit was degraded when an approval was asked for, why a run
is loaded, which function asks for an audit record. They name the call for whoever reads a
history; no answer depends on them.
-/
namespace LocalAgent

/-! ## Errors of the ports -/

inductive PersistencePortError where
  | unavailable | conflict | corrupt | unsupportedVersion | failed
deriving DecidableEq, Repr

inductive ModelPortError where
  | unavailable | rejected | failed
deriving DecidableEq, Repr

inductive ToolPortError where
  | unavailable | adapterFailure
deriving DecidableEq, Repr

inductive AuditPortError where
  | unavailable | recordFailed | timedOut
deriving DecidableEq, Repr

inductive ContainmentPortError where
  | unavailable | previewRejected | infrastructure
deriving DecidableEq, Repr

inductive ApprovalPortError where
  | unavailable | failed
deriving DecidableEq, Repr

inductive ActionSealError where
  | invalidCapsule | keyUnavailable | authenticationFailed | encodingFailed
deriving DecidableEq, Repr

/-- `containment_failure_kind` (execution.rs:2762). -/
def ContainmentPortError.failureKind : ContainmentPortError → ContainmentFailureKind
  | .unavailable => .unavailable
  | .previewRejected => .previewRejected
  | .infrastructure => .infrastructure

/-! ## Policy (`policy.rs`) -/

inductive PolicyDenialReason where
  | capabilityNotAllowedInM0 | capabilityNotExecutableInM6 | approvalRequiredButUnsupported
deriving DecidableEq, Repr

structure PolicyDenial where
  capability : CapabilityKind
  reason : PolicyDenialReason
deriving DecidableEq, Repr

inductive AuthorizationDecision where
  | allowed
  | requiresApproval
  | denied (denial : PolicyDenial)
deriving DecidableEq, Repr

/-! ## Approvals (`approval.rs`) -/

structure ApprovalPreview where
  summary : String
  targetLabel : String
deriving DecidableEq, Repr

structure ApprovalRequest where
  id : ApprovalRequestId
  actionProposalId : ActionProposalId
  toolCallId : ToolCallId
  toolName : ToolName
  capability : CapabilityKind
  actionDigest : ActionDigest
  preview : ApprovalPreview
deriving DecidableEq, Repr

inductive ApprovalOutcome where
  | granted | denied
deriving DecidableEq, Repr

structure ApprovalDecision where
  requestId : ApprovalRequestId
  actionDigest : ActionDigest
  outcome : ApprovalOutcome
deriving DecidableEq, Repr

/-! ## Durable approvals (`durable_approval.rs`) -/

/-- `LOCAL_WRITE_CAPSULE_VERSION`. -/
def localWriteCapsuleVersion : Nat := 1

/-- `LocalWriteActionCapsuleV1`. -/
structure LocalWriteActionCapsule where
  relativePath : String
  content : String
deriving DecidableEq, Repr

/-- `LocalWriteActionCapsuleV1::new` (durable_approval.rs:50). -/
def LocalWriteActionCapsule.new (relativePath content : String) :
    Except ActionSealError LocalWriteActionCapsule :=
  if relativePath.isEmpty || relativePath.utf8ByteSize > 240 || relativePath.toList.head? = some '/'
      || relativePath.toList.any Text.isControl
      || ((relativePath.toList.splitOn '/').any fun part => part.isEmpty || part = ['.'] || part = ['.', '.'])
      || content.utf8ByteSize > 4 * 1024 then .error .invalidCapsule
  else .ok ⟨relativePath, content⟩

/-- `ActionSealBinding`. -/
structure ActionSealBinding where
  key : RunKey
  programVersion : Nat
  graphDigest : Bytes32
  nodeId : GraphNodeId
  attemptId : GraphNodeAttemptId
  waitId : DurableApprovalWaitId
  approvalRequestId : ApprovalRequestId
  actionProposalId : ActionProposalId
  toolCallId : ToolCallId
  actionDigest : ActionDigest
  workspaceBindingId : WorkspaceBindingId
  toolContractDigest : ToolContractDigest
  requester : Option PrincipalId
  capsuleVersion : Nat
deriving DecidableEq, Repr

/-- `SealedLocalWriteAction`. -/
structure SealedLocalWriteAction where
  version : Nat
  keyId : String
  nonce : List UInt8
  ciphertext : List UInt8
deriving DecidableEq, Repr

/-- `SealedLocalWriteAction::validate` (durable_approval.rs:271). -/
def SealedLocalWriteAction.isValid (s : SealedLocalWriteAction) : Bool :=
  !(s.version ≠ localWriteCapsuleVersion || s.keyId.isEmpty || s.keyId.utf8ByteSize > 64
    || s.keyId.toList.any (fun c => !c.isAlphanum && c ≠ '-' && c ≠ '_')
    || s.nonce.isEmpty || s.ciphertext.isEmpty || s.ciphertext.length > 8 * 1024)

inductive DurableApprovalStatus where
  | waiting | decisionRecordedApprove | decisionRecordedDeny | approvedReady | executing | consumed
deriving DecidableEq, Repr

/-- `DurableApprovalRecord`. -/
structure DurableApprovalRecord where
  binding : ActionSealBinding
  sealedAction : SealedLocalWriteAction
  status : DurableApprovalStatus
  rowVersion : Nat
  decisionActor : Option PrincipalId
  decisionTimestampUnixMillis : Option Nat
deriving DecidableEq, Repr

/-- `DurableApprovalRecord::new`. -/
def DurableApprovalRecord.new (binding : ActionSealBinding)
    (sealedAction : SealedLocalWriteAction) : DurableApprovalRecord :=
  ⟨binding, sealedAction, .waiting, 0, none, none⟩

/-- `DurableApprovalDecisionCommand`. -/
structure DurableApprovalDecisionCommand where
  key : RunKey
  waitId : DurableApprovalWaitId
  approvalRequestId : ApprovalRequestId
  actionProposalId : ActionProposalId
  toolCallId : ToolCallId
  actionDigest : ActionDigest
  expectedRowVersion : Nat
  outcome : DurableApprovalOutcome
  actor : Option PrincipalId
  decidedAtUnixMillis : Option Nat
deriving DecidableEq, Repr

/-- `DurableActionContext`. -/
structure DurableActionContext where
  programVersion : Nat
  graphDigest : Bytes32
  nodeId : GraphNodeId
  attemptId : GraphNodeAttemptId
deriving DecidableEq, Repr

/-! ## Persistence (`persistence.rs`) -/

/-- `AppendTransition`. -/
structure AppendTransition where
  key : RunKey
  expectedSequence : Option Nat
  event : AgentEvent
  checkpoint : Option DurableCheckpoint
deriving DecidableEq

/-- `DurableApprovalStatusTransition`. -/
structure DurableApprovalStatusTransition where
  transition : Option AppendTransition
  key : RunKey
  waitId : DurableApprovalWaitId
  expectedRowVersion : Nat
  expectedStatus : DurableApprovalStatus
  nextStatus : DurableApprovalStatus
deriving DecidableEq

/-! ## Requests -/

/-- Which branch of a `select!` over cancellation, deadline and a future was taken. -/
inductive Awaited (α : Type) where
  | cancelled
  | deadlineExceeded
  | ready (result : α)

/-- The function that asks for an audit record. -/
inductive AuditSite where
  /-- `audit_with_run_bounds`, bounded by cancellation and the deadline of the run. -/
  | bounded
  /-- `audit_lifecycle`, bounded by the audit timeout only. -/
  | lifecycle
  /-- `audit_terminal_best_effort`. -/
  | terminal
  /-- `record_knowledge_interruption`. -/
  | knowledgeInterruption
deriving DecidableEq, Repr

/-- Why a run is loaded: to recover it, or only to read who may approve. -/
inductive LoadPurpose where
  | recovery | authorization
deriving DecidableEq, Repr

inductive Request where
  /-- `Uuid::new_v4` behind every `::new()` of an id. -/
  | freshUuid
  /-- `Instant::now`. -/
  | instantNow
  /-- `SystemTime::now`, in milliseconds since the epoch if that can be represented. -/
  | wallClock
  /-- `cancellation.is_cancelled()`. -/
  | isCancelled (run : RunId)
  | authorize (capability : CapabilityKind)
  | approvalPreview (tool : ToolName) (input : Json)
  | sealLocalWrite (binding : ActionSealBinding) (capsule : LocalWriteActionCapsule)
  | openLocalWrite (binding : ActionSealBinding) (sealedAction : SealedLocalWriteAction)
  | modelInvoke (run : RunId) (id : ModelCallId) (request : ModelRequest)
  | knowledgeRetrieve (run : RunId) (id : KnowledgeRetrievalId) (request : KnowledgeRequest)
  | approvalDecide (run : RunId) (request : ApprovalRequest) (auditDegraded : Bool)
  | toolInvoke (run : RunId) (call : ToolCall)
  | startManaged (run : RunId) (call : ToolCall)
  | waitManaged (run : RunId) (id : ToolCallId)
  | reapManaged (run : RunId) (id : ToolCallId)
  | startContained (run : RunId) (call : ToolCall)
  | waitContained (run : RunId) (id : ToolCallId)
  | reapContained (run : RunId) (id : ToolCallId)
  | audit (site : AuditSite) (event : AgentEvent)
  | createRun (record : RunRecord) (checkpoint : DurableCheckpoint)
  | loadRun (purpose : LoadPurpose) (key : RunKey)
  | appendTransition (transition : AppendTransition)
  | createDurableApprovalWait (transition : AppendTransition) (record : DurableApprovalRecord)
      (auditDegraded : Bool)
  | loadDurableApprovalWait (key : RunKey) (waitId : DurableApprovalWaitId)
  | recordDurableApprovalDecision (transition : AppendTransition)
      (command : DurableApprovalDecisionCommand)
  | transitionDurableApprovalStatus (request : DurableApprovalStatusTransition)

/-- What each request is answered with. An audit call that is not bounded by the run is never
answered with `cancelled` or `deadlineExceeded`; those branches are read as a timeout. -/
@[reducible] def Answer : Request → Type
  | .freshUuid | .instantNow => Nat
  | .wallClock => Option Nat
  | .isCancelled _ => Bool
  | .authorize _ => AuthorizationDecision
  | .approvalPreview .. => Except ContainmentPortError ApprovalPreview
  | .sealLocalWrite .. => Except ActionSealError SealedLocalWriteAction
  | .openLocalWrite .. => Except ActionSealError LocalWriteActionCapsule
  | .modelInvoke .. => Awaited (Except ModelPortError ModelResponse)
  | .knowledgeRetrieve .. => Awaited (Except KnowledgeError EvidenceSet)
  | .approvalDecide .. => Awaited (Except ApprovalPortError ApprovalDecision)
  | .toolInvoke .. => Awaited (Except ToolPortError ToolResult)
  | .startManaged .. => Except ToolPortError Unit
  | .waitManaged .. => Awaited (Except ToolPortError ToolResult)
  | .reapManaged .. => Except ToolPortError Unit
  | .startContained .. => Except ContainmentPortError Unit
  | .waitContained .. => Awaited (Except ContainmentPortError ToolResult)
  | .reapContained .. => Except ContainmentPortError Unit
  | .audit .. => Awaited (Except AuditPortError Unit)
  | .createRun .. | .appendTransition _ | .createDurableApprovalWait ..
  | .recordDurableApprovalDecision .. | .transitionDurableApprovalStatus _ =>
    Except PersistencePortError Unit
  | .loadRun .. => Except PersistencePortError LoadedRun
  | .loadDurableApprovalWait .. => Except PersistencePortError DurableApprovalRecord

/-! ## Calls and the events that frame them -/

/-- The identity of one call of an effect port. -/
inductive CallKey where
  | model (id : ModelCallId)
  | tool (id : ToolCallId)
  | approval (id : ApprovalRequestId)
  | knowledge (id : KnowledgeRetrievalId)
deriving DecidableEq, Repr

/-- The effect port call a request makes. A managed or contained tool is called when it is
started. -/
def Request.portCall : Request → Option (RunId × CallKey)
  | .modelInvoke run id _ => some (run, .model id)
  | .knowledgeRetrieve run id _ => some (run, .knowledge id)
  | .approvalDecide run request _ => some (run, .approval request.id)
  | .toolInvoke run call | .startManaged run call | .startContained run call =>
    some (run, .tool call.id)
  | _ => none

/-- The event that announces a call. -/
def AgentEventKind.opens : AgentEventKind → Option CallKey
  | .modelInvocationStarted id _ _ => some (.model id)
  | .toolInvocationStarted id _ _ _ _ => some (.tool id)
  | .approvalRequested id _ _ _ _ _ _ => some (.approval id)
  | .knowledgeRetrievalStarted id _ _ _ | .knowledgeRetrievalRestarted _ id _ _ _ =>
    some (.knowledge id)
  | _ => none

/-- The event that records how a call ended. -/
def AgentEventKind.closes : AgentEventKind → Option CallKey
  | .modelInvocationCompleted id _ | .modelInvocationFailed id => some (.model id)
  | .toolInvocationCompleted id | .toolInvocationDomainFailed id _
  | .toolInvocationAdapterFailed id => some (.tool id)
  | .approvalGranted id | .approvalDenied id | .approvalFailed id _ => some (.approval id)
  | .knowledgeRetrievalCompleted id _ _ _ _ _ _ | .knowledgeRetrievalFailed id _ =>
    some (.knowledge id)
  | _ => none

/-- The transition a request asks the store to append. -/
def Request.transition : Request → Option AppendTransition
  | .appendTransition t | .createDurableApprovalWait t _ _ | .recordDurableApprovalDecision t _ =>
    some t
  | .transitionDurableApprovalStatus request => request.transition
  | _ => none

/-- Did the store accept it? Only requests that can carry a transition matter. -/
def Request.accepted : (r : Request) → Answer r → Bool
  | .appendTransition _, .ok _ | .createDurableApprovalWait .., .ok _
  | .recordDurableApprovalDecision .., .ok _ | .transitionDurableApprovalStatus _, .ok _ => true
  | _, _ => false

/-! ## Calls of the store -/

def Request.isPersistence : Request → Bool
  | .createRun .. | .loadRun .. | .appendTransition _ | .createDurableApprovalWait ..
  | .loadDurableApprovalWait .. | .recordDurableApprovalDecision ..
  | .transitionDurableApprovalStatus _ => true
  | _ => false

/-- Did the persistence call succeed? -/
def Request.confirmed : (r : Request) → Answer r → Bool
  | .createRun .., .ok _ | .loadRun .., .ok _ | .appendTransition _, .ok _
  | .createDurableApprovalWait .., .ok _ | .loadDurableApprovalWait .., .ok _
  | .recordDurableApprovalDecision .., .ok _ | .transitionDurableApprovalStatus _, .ok _ => true
  | _, _ => false

end LocalAgent
