import LocalAgent.Recovery.InPlace

/-!
# `RunContext` (`agent-harness/src/context.rs`)

The in-memory half of a run: its own status and usage, the number of the next event, and the
durable state that every emitted event is applied to before it is persisted. Methods that the
source lets fail after they changed something return the changed context beside the error.
The cancellation token is not a field here: whether it was triggered is an answer of the
environment (`Ports.lean`).
-/
namespace LocalAgent

/-- `RunRuntime`: present exactly while the run has been started in this process. -/
structure RunRuntime where
  deadlineAt : Instant
deriving DecidableEq, Repr

structure RunContext where
  runId : RunId
  sessionId : SessionId
  budget : RunBudget
  usage : BudgetUsage
  status : RunStatus
  nextEventSequence : Nat
  runtime : Option RunRuntime
  auditDegraded : Bool
  recoveryContract : RecoveryContract
  durableState : DurableRunState
  persistenceFailed : Bool
deriving DecidableEq

inductive RunContextError where
  | invalidState (error : RunStateError)
  | deadlineOutOfRange
  | wallClockOutOfRange
  | runtimeUnavailable
  | eventSequenceExhausted
  | durableTransitionInvalid
deriving DecidableEq, Repr

namespace RunContext

/-- `new_with_recovery_contract` (context.rs:96); `new`, `new_restartable`,
`new_restartable_retrieval` and `new_graph` only choose the contract. -/
def newWithRecoveryContract (runId : RunId) (sessionId : SessionId) (budget : RunBudget)
    (contract : RecoveryContract) : RunContext where
  runId := runId
  sessionId := sessionId
  budget := budget
  usage := BudgetUsage.withApprovalRequests 0 0 0 0
  status := .pending
  nextEventSequence := 0
  runtime := none
  auditDegraded := false
  recoveryContract := contract
  durableState := .initial (RunRecord.new ⟨runId, sessionId⟩ budget contract)
  persistenceFailed := false

def key (c : RunContext) : RunKey := ⟨c.runId, c.sessionId⟩

/-- `run_record`. -/
def runRecord (c : RunContext) : RunRecord := RunRecord.new c.key c.budget c.recoveryContract

/-- `durable_checkpoint`. -/
def durableCheckpoint (c : RunContext) : DurableCheckpoint := DurableCheckpoint.new c.durableState

/-- `commit_running` (context.rs:154). The wall clock is `none` when it cannot be represented. -/
def commitRunning (c : RunContext) (startedAt : Instant) (wallClock : Option Nat) :
    Except RunContextError RunContext :=
  match c.status.start with
  | .error e => .error (.invalidState e)
  | .ok status =>
    match checkedAddInstant startedAt c.budget.maxElapsed with
    | none => .error .deadlineOutOfRange
    | some deadlineAt =>
      match wallClock with
      | none => .error .wallClockOutOfRange
      | some millis => .ok { c with
          status := status, runtime := some ⟨deadlineAt⟩,
          durableState := c.durableState.setStartedAt millis }

/-- `commit_finished` (context.rs:181). -/
def commitFinished (c : RunContext) (outcome : RunOutcome) : Except RunContextError RunContext :=
  match c.status.finish outcome with
  | .error e => .error (.invalidState e)
  | .ok status => .ok { c with status := status }

/-- `started_at_unix_millis`. -/
def startedAtUnixMillis (c : RunContext) : Except RunContextError Nat :=
  match c.durableState.context.startedAtUnixMillis with
  | none => .error .wallClockOutOfRange
  | some t => .ok t

/-! ## Budget reservations (context.rs:192-277)

Each method compares one counter with its limit, then rebuilds the usage with that counter
advanced; `Err` carries the exhausted dimension. -/

def rebuildUsage (c : RunContext) (modelCalls toolCalls iterations approvalRequests graphSteps : Nat) :
    RunContext :=
  { c with usage := (BudgetUsage.withApprovalRequests modelCalls toolCalls iterations
      approvalRequests).withGraphSteps graphSteps }

def reserveModelCall (c : RunContext) : Except BudgetDimension RunContext :=
  let u := c.usage
  if u.modelCalls ≥ c.budget.maxModelCalls then .error .modelCalls
  else .ok (c.rebuildUsage (u.modelCalls + 1) u.toolCalls u.iterations u.approvalRequests u.graphSteps)

def reserveToolCall (c : RunContext) : Except BudgetDimension RunContext :=
  let u := c.usage
  if u.toolCalls ≥ c.budget.maxToolCalls then .error .toolCalls
  else .ok (c.rebuildUsage u.modelCalls (u.toolCalls + 1) u.iterations u.approvalRequests u.graphSteps)

def reserveIteration (c : RunContext) : Except BudgetDimension (Nat × RunContext) :=
  let u := c.usage
  if u.iterations ≥ c.budget.maxIterations then .error .iterations
  else .ok (u.iterations + 1,
    c.rebuildUsage u.modelCalls u.toolCalls (u.iterations + 1) u.approvalRequests u.graphSteps)

def reserveApprovalRequest (c : RunContext) : Except BudgetDimension RunContext :=
  let u := c.usage
  if u.approvalRequests ≥ c.budget.maxApprovalRequests then .error .approvalRequests
  else .ok (c.rebuildUsage u.modelCalls u.toolCalls u.iterations (u.approvalRequests + 1) u.graphSteps)

def reserveGraphStep (c : RunContext) : Except BudgetDimension (Nat × RunContext) :=
  let u := c.usage
  let limit := c.budget.maxGraphSteps
  if u.graphSteps ≥ limit || limit = 0 || limit > maxGraphStepsCeiling then .error .graphSteps
  else .ok (u.graphSteps + 1,
    c.rebuildUsage u.modelCalls u.toolCalls u.iterations u.approvalRequests (u.graphSteps + 1))

/-! ## Events -/

/-- `mark_audit_degraded` (context.rs:298): both copies, and no event. -/
def markAuditDegraded (c : RunContext) : RunContext :=
  { c with auditDegraded := true, durableState := c.durableState.setAuditDegraded }

/-- `mark_persistence_failed`. -/
def markPersistenceFailed (c : RunContext) : RunContext := { c with persistenceFailed := true }

/-- `next_event` (context.rs:303). The sequence number is taken before the reducer is asked, so
a refused event leaves a gap that the reducer will never accept an event across. -/
def nextEvent (codec : EventCodec) (c : RunContext) (kind : AgentEventKind) :
    Except RunContextError AgentEvent × RunContext :=
  match checkedNext c.nextEventSequence with
  | none => (.error .eventSequenceExhausted, c)
  | some next =>
    let event := AgentEvent.new c.runId c.nextEventSequence kind
    match c.durableState.apply codec event with
    | .error _ =>
      (.error .durableTransitionInvalid,
        { c with nextEventSequence := next, durableState := c.durableState.residue event })
    | .ok durable => (.ok event, { c with nextEventSequence := next, durableState := durable })

/-- `from_recovery` (context.rs:353). -/
def fromRecovery (state : DurableRunState) (elapsed : Duration) (now : Instant)
    (contract : RecoveryContract) : Except RunContextError RunContext :=
  match checkedSub state.context.budget.maxElapsed elapsed with
  | none => .error .deadlineOutOfRange
  | some remaining =>
    match checkedAddInstant now remaining with
    | none => .error .deadlineOutOfRange
    | some deadlineAt =>
      match state.lastSequence.elim (some 0) checkedNext with
      | none => .error .eventSequenceExhausted
      | some next => .ok {
          runId := state.context.key.runId
          sessionId := state.context.key.sessionId
          budget := state.context.budget
          usage := state.context.usage
          status := state.context.status
          nextEventSequence := next
          runtime := if state.context.status = .running then some ⟨deadlineAt⟩ else none
          auditDegraded := state.context.auditDegraded
          recoveryContract := contract
          durableState := state
          persistenceFailed := false }

end RunContext
end LocalAgent
