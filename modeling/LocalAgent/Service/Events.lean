import LocalAgent.Store.Read
import LocalAgent.Harness.Execution

/-!
# Reading events (`agent-service/src/lib.rs:1182`, `agent-service-http/src/lib.rs:779`)

The events of a run leave the service in three layers: a page of the store, the projection of the
service, and the frames of a server-sent-event stream that reads page after page. The answers of the
other ports, the clock and the faults of the store are arbitrary and may change from call to call.
-/
namespace LocalAgent

open Paging

/-! ## The store (`agent-persistence-sqlite/src/lib.rs:643, 916`) -/

/-- `read_events`: `next` only if events are left over. -/
def Store.readEvents (s : Store) (key : RunKey) (after : Option Nat) (limit : Nat) :
    Except PersistencePortError (Page AgentEvent Nat) :=
  if !validPageLimit limit then .error .conflict
  else match s.loadRun key with
    | .error e => .error e
    | .ok loaded =>
      if after.any fun cursor => loaded.events.getLast?.all fun event => event.sequence < cursor then
        .error .conflict
      else
        let matching := loaded.events.filter fun event => after.all fun cursor => cursor < event.sequence
        let events := matching.take limit
        let hasMore := !(matching.drop limit).isEmpty
        .ok ⟨events, if hasMore then events.getLast?.map AgentEvent.sequence else none⟩

/-! ## The projection (`lib.rs:1782-2005`) -/

/-- `SERVICE_EVENT_VERSION`. -/
def serviceEventVersion : Nat := 2

structure WorkflowId where
  value : String
deriving DecidableEq, Repr

/-- `ServiceEventCategoryV1`. -/
inductive ServiceEventCategory where
  | run | model | action | tool | approval | containment | knowledge | loop | graph | audit
deriving DecidableEq, Repr

/-- `ServiceEventPhaseV1`. -/
inductive ServiceEventPhase where
  | started | completed | failed | proposed | validated | rejected | bound | denied | granted
  | prepared | decisionRecorded | degraded | progress | suspended | resumed | finished
deriving DecidableEq, Repr

/-- `ServiceEventV2`. -/
structure ServiceEvent where
  version : Nat
  sequence : Nat
  runId : RunId
  category : ServiceEventCategory
  phase : ServiceEventPhase
  correlationId : Option String
  workflowId : Option WorkflowId
  knowledgeBackends : List KnowledgeBackendId
  graphNodeId : Option GraphNodeId
  budgetUsage : Option Nat
  budgetLimit : Option Nat
deriving DecidableEq, Repr

/-- The category, the phase and the correlation id of a graph event. -/
def GraphProgressEvent.classified :
    GraphProgressEvent → ServiceEventCategory × ServiceEventPhase × Option String
  | .graphStarted .. | .graphNodeEntered .. | .graphNodeRestarted .. => (.graph, .started, none)
  | .graphNodeCompleted .. | .graphCompleted .. => (.graph, .completed, none)
  | .graphSuspended _ _ waitId _ _ _ _ _ => (.graph, .suspended, some (uuidText waitId.uuid))
  | .graphResumed _ _ waitId _ => (.graph, .resumed, some (uuidText waitId.uuid))
  | .graphFailed .. => (.graph, .failed, none)

/-- The category, the phase and the correlation id of an event. -/
def AgentEventKind.classified :
    AgentEventKind → ServiceEventCategory × ServiceEventPhase × Option String
  | .runStarted _ => (.run, .started, none)
  | .runFinished _ => (.run, .finished, none)
  | .auditDegraded => (.audit, .degraded, none)
  | .modelInvocationStarted id _ _ => (.model, .started, some (uuidText id.uuid))
  | .modelInvocationCompleted id _ => (.model, .completed, some (uuidText id.uuid))
  | .modelInvocationFailed id => (.model, .failed, some (uuidText id.uuid))
  | .actionProposed _ id _ => (.action, .proposed, some (uuidText id.uuid))
  | .actionValidated id => (.action, .validated, some (uuidText id.uuid))
  | .actionRejected _ id _ => (.action, .rejected, some (uuidText id.uuid))
  | .actionExecutionBound _ id => (.action, .bound, some (uuidText id.uuid))
  | .toolInvocationStarted id _ _ _ _ => (.tool, .started, some (uuidText id.uuid))
  | .toolInvocationCompleted id => (.tool, .completed, some (uuidText id.uuid))
  | .toolInvocationDomainFailed id _ | .toolInvocationAdapterFailed id =>
    (.tool, .failed, some (uuidText id.uuid))
  | .toolPolicyDenied id _ _ => (.tool, .denied, some (uuidText id.uuid))
  | .approvalRequested id _ _ _ _ _ _ => (.approval, .started, some (uuidText id.uuid))
  | .approvalGranted id | .durableApprovalGranted _ id =>
    (.approval, .granted, some (uuidText id.uuid))
  | .approvalDenied id | .durableApprovalDenied _ id => (.approval, .denied, some (uuidText id.uuid))
  | .approvalFailed id _ => (.approval, .failed, some (uuidText id.uuid))
  | .durableApprovalPrepared waitId _ _ _ _ _ _ _ _ =>
    (.approval, .prepared, some (uuidText waitId.uuid))
  | .durableApprovalDecisionRecorded waitId _ _ _ _ =>
    (.approval, .decisionRecorded, some (uuidText waitId.uuid))
  | .containmentFailed id _ _ _ => (.containment, .failed, some (uuidText id.uuid))
  | .knowledgeRetrievalStarted id _ _ _ | .knowledgeRetrievalRestarted _ id _ _ _ =>
    (.knowledge, .started, some (uuidText id.uuid))
  | .knowledgeRetrievalCompleted id _ _ _ _ _ _ => (.knowledge, .completed, some (uuidText id.uuid))
  | .knowledgeRetrievalFailed id _ => (.knowledge, .failed, some (uuidText id.uuid))
  | .modelGroundingBound _ id _ _ => (.knowledge, .bound, some (uuidText id.uuid))
  | .loop _ => (.loop, .progress, none)
  | .graph event => event.classified

def AgentEventKind.knowledgeBackends : AgentEventKind → List KnowledgeBackendId
  | .knowledgeRetrievalStarted _ route _ _ | .knowledgeRetrievalRestarted _ _ route _ _ =>
    route.backends
  | _ => []

def GraphProgressEvent.nodeId : GraphProgressEvent → GraphNodeId
  | .graphStarted _ startNode _ _ => startNode
  | .graphNodeEntered _ nodeId _ _ _ _ | .graphNodeRestarted _ _ nodeId _ _ _ _
  | .graphNodeCompleted _ nodeId _ _ _ _ | .graphSuspended _ nodeId _ _ _ _ _ _
  | .graphResumed _ nodeId _ _ | .graphCompleted _ nodeId _ | .graphFailed _ nodeId _ _ _ => nodeId

def AgentEventKind.graphNodeId : AgentEventKind → Option GraphNodeId
  | .graph event => some event.nodeId
  | _ => none

/-- The usage and the limit of the events that are charged to a budget. -/
def AgentEventKind.budget : AgentEventKind → Option (Nat × Nat)
  | .modelInvocationStarted _ usage limit | .toolInvocationStarted _ _ _ usage limit =>
    some (usage, limit)
  | .graph (.graphNodeEntered _ _ _ _ step limit)
  | .graph (.graphNodeRestarted _ _ _ _ _ step limit) => some (step, limit)
  | _ => none

/-- `ServiceEventV2::new` (lib.rs:1837). -/
def ServiceEvent.new (event : AgentEvent) (workflowId : Option WorkflowId) : ServiceEvent :=
  let (category, phase, id) := event.kind.classified
  { version := serviceEventVersion, sequence := event.sequence, runId := event.runId
    category := category, phase := phase, correlationId := id, workflowId := workflowId
    knowledgeBackends := event.kind.knowledgeBackends, graphNodeId := event.kind.graphNodeId
    budgetUsage := event.kind.budget.map Prod.fst, budgetLimit := event.kind.budget.map Prod.snd }

@[simp] theorem ServiceEvent.new_sequence (event : AgentEvent) (workflowId : Option WorkflowId) :
    (ServiceEvent.new event workflowId).sequence = event.sequence := rfl

/-! ## The service -/

/-- `ServiceError`. -/
inductive ServiceError where
  | invalidRequest | unauthorized | notFound | conflict | capacity | draining | workflowUnavailable
  | configuration | legacyUnowned | securityAudit
  | identityStore (error : IdentityStoreError)
  | harness (error : HarnessError)
  | persistence (error : PersistencePortError)
  | context (error : RunContextError)

/-- What the ports answer during one call of `read_events`: the two `find_run`, the policy, and the
fault of the store, if it has one. -/
structure ReadAnswers where
  authorized : Except PersistencePortError (Option DurableRunSummary)
  granted : DurableRunAuthorization → Bool
  found : Except PersistencePortError (Option DurableRunSummary)
  fault : Option PersistencePortError

/-- `run_authorization` (lib.rs:649). -/
def runAuthorization :
    Except PersistencePortError (Option DurableRunSummary) → Except ServiceError DurableRunAuthorization
  | .error e => .error (.persistence e)
  | .ok none => .error .notFound
  | .ok (some run) =>
    match run.authorization with
    | none => .error .legacyUnowned
    | some authorization => .ok authorization

/-- `AgentService::read_events` (lib.rs:1182); `workflows` are its `recovery_workflows`. -/
def serviceReadEvents (workflows : List (RecoveryContract × WorkflowId)) (s : Store) (key : RunKey)
    (after : Option Nat) (limit : Nat) (a : ReadAnswers) : Except ServiceError (List ServiceEvent) :=
  if limit = 0 || limit > maxReadPageItems then .error .invalidRequest
  else match runAuthorization a.authorized with
    | .error e => .error e
    | .ok authorization =>
      if !a.granted authorization then .error .unauthorized
      else match a.found with
        | .error e => .error (.persistence e)
        | .ok run =>
          let workflowId := run.bind fun run => workflows.lookup run.recoveryContract
          match a.fault.elim (s.readEvents key after limit) .error with
          | .error e => .error (.persistence e)
          | .ok page => .ok (page.items.map fun event => ServiceEvent.new event workflowId)

/-! ## The stream (`agent-service-http/src/lib.rs`) -/

/-- `SSE_PAGE_SIZE`. -/
def ssePageSize : Nat := 64

/-- An `Event` of the response. -/
inductive Frame where
  | metadata (id data : String)
  | error (data : String)
deriving DecidableEq, Repr

/-- `SseState`. -/
structure SseState where
  cursor : Option Nat
  pending : List ServiceEvent
  done : Bool

/-- `u64::from_str`. -/
def parseU64 (value : String) : Option Nat :=
  let digits := match value.toList with
    | '+' :: rest => rest
    | chars => chars
  if digits.isEmpty || !digits.all Char.isDigit then none
  else
    let n := digits.foldl (fun n c => 10 * n + (c.toNat - 48)) 0
    if n ≤ u64Max then some n else none

/-- The head of `stream_events` (lib.rs:797-814): where the stream starts, from the query and the
`last-event-id` header, whose value need not be text. -/
def streamEvents (query : Option Nat) (header : Option (Option String)) : Option SseState :=
  match header with
  | none => some ⟨query, [], false⟩
  | some value =>
    match value.bind parseU64 with
    | none => none
    | some cursor =>
      if query.any (· ≠ cursor) then none else some ⟨query.or (some cursor), [], false⟩

/-- How a turn of the loop ends: the stream is over, it yields a frame, or the loop goes on. -/
inductive Turn where
  | ended
  | frame (frame : Frame)
  | again

/-- One turn of the loop in `stream_events` (lib.rs:820-863). `expired` is the answer of the clock,
`encode` is `serde_json::to_string`. -/
def SseState.turn (encode : ServiceEvent → Option String) (expired : Bool)
    (read : Option Nat → Except ServiceError (List ServiceEvent)) (st : SseState) : Turn × SseState :=
  if st.done || expired then (.ended, st)
  else match st.pending with
    | event :: pending =>
      let st := { st with pending := pending, cursor := some event.sequence }
      match encode event with
      | none => (.frame (.error "encoding_failed"), { st with done := true })
      | some encoded => (.frame (.metadata (toString event.sequence) encoded), st)
    | [] =>
      match read st.cursor with
      | .ok events => (.again, { st with pending := events })
      | .error _ => (.frame (.error "replay_boundary"), { st with done := true })

end LocalAgent
