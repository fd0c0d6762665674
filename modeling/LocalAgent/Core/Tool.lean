import LocalAgent.Core.Event

/-!
# Payloads of the ports (`agent-core/src/tool.rs`, `model.rs`, `agent-knowledge/src/lib.rs`)

What the harness hands to its ports and gets back. The harness looks into few of these values;
the others are carried as they are.
-/
namespace LocalAgent

/-! ## JSON (`serde_json::Value`) -/

inductive JsonNumber where
  | posInt (value : Nat)
  | negInt (magnitude : Nat)
  | float (bits : UInt64)
deriving DecidableEq, Repr

/-- `serde_json::Value`; the entries of an object have distinct keys. -/
inductive Json where
  | null
  | bool (value : Bool)
  | number (value : JsonNumber)
  | string (value : String)
  | array (elements : List Json)
  | object (entries : List (String × Json))
deriving Repr

namespace Json

/-- `Value::is_object`. -/
def isObject : Json → Bool
  | .object _ => true
  | _ => false

/-- `Value::as_str`. -/
def asStr : Json → Option String
  | .string s => some s
  | _ => none

end Json

/-! ## Tools -/

/-- `ToolDefinition`. -/
structure ToolDefinition where
  name : ToolName
  description : String
  capability : CapabilityKind
  inputSchema : Json

/-- `ToolCall`. -/
structure ToolCall where
  id : ToolCallId
  name : ToolName
  input : Json

/-- `ToolResult`; a domain failure is its kind. -/
inductive ToolResult where
  | succeeded (callId : ToolCallId) (output : Json)
  | domainFailure (callId : ToolCallId) (kind : ToolDomainFailureKind)

/-- `ToolResult::call_id`. -/
def ToolResult.callId : ToolResult → ToolCallId
  | .succeeded id _ | .domainFailure id _ => id

/-! ## Models -/

inductive ModelRole where
  | system | user | assistant
deriving DecidableEq, Repr

structure ModelMessage where
  role : ModelRole
  content : String
deriving DecidableEq, Repr

structure ModelRequest where
  messages : List ModelMessage
deriving DecidableEq, Repr

inductive ModelOutputPart where
  | text (content : String)
  | toolCall (call : ToolCall)

structure ModelResponse where
  output : List ModelOutputPart
  tokenUsage : Option TokenUsage

/-! ## Knowledge -/

/-- `KnowledgeRequest`: its route names at least one backend. The digest is the SHA-256 of the
query text, computed when the harness asks for it. -/
structure KnowledgeRequest where
  route : KnowledgeRouteMetadata
  query : String
  queryDigest : Bytes32
  backends_ne_nil : route.backends ≠ []

/-- `request.route().backends()[0]`. -/
def KnowledgeRequest.firstBackend (r : KnowledgeRequest) : KnowledgeBackendId :=
  r.route.backends.head r.backends_ne_nil

/-- `EvidenceSet`, each evidence by its `durable_reference`. -/
structure EvidenceSet where
  durableReferences : List (Option KnowledgeEvidenceReference)
  snapshots : List KnowledgeSnapshotMetadata
  truncated : Bool
  degraded : Bool
  manifestDigest : Bytes32

inductive KnowledgeError where
  | unavailable (backend : KnowledgeBackendId)
  | rejected (backend : KnowledgeBackendId)
  | malformedResponse
  | snapshotMismatch
  | failed (backend : KnowledgeBackendId)
  | allBackendsFailed
deriving DecidableEq, Repr

/-- `knowledge_failure_kind` (execution.rs:2791). -/
def KnowledgeError.failureKind : KnowledgeError → KnowledgeFailureKind
  | .unavailable _ => .unavailable
  | .rejected _ => .rejected
  | .malformedResponse => .malformedResponse
  | .snapshotMismatch => .snapshotMismatch
  | .failed _ | .allBackendsFailed => .failed

/-! ## Loop progress -/

/-- `LoopProgressEvent` (loop_control.rs:65): what a loop may record; an iteration is started
by `begin_iteration` alone. -/
inductive LoopProgressEvent where
  | phaseEntered (iteration : Nat) (phase : LoopPhase)
  | phaseCompleted (iteration : Nat) (phase : LoopPhase)
  | reflectDecision (iteration : Nat) (decision : LoopDecisionKind)
  | iterationCompleted (iteration : Nat)
  | loopCompleted (completedIterations : Nat)
  | loopFailed (iteration : Nat) (kind : RunFailureKind)
deriving DecidableEq, Repr

/-- `From<LoopProgressEvent> for LoopEventKind`. -/
def LoopProgressEvent.toEventKind : LoopProgressEvent → LoopEventKind
  | .phaseEntered i p => .phaseEntered i p
  | .phaseCompleted i p => .phaseCompleted i p
  | .reflectDecision i d => .reflectDecision i d
  | .iterationCompleted i => .iterationCompleted i
  | .loopCompleted n => .loopCompleted n
  | .loopFailed i k => .loopFailed i k

end LocalAgent
