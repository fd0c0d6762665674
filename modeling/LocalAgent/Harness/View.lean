import LocalAgent.Harness.Durable
import LocalAgent.Lib.System
import LocalAgent.Recovery.Waits

/-!
# What one client of the harness may ask for

`View` is what an observer of one client knows: the run its context belongs to and the events it
has persisted for it, whether a write was refused, which call is announced and which was made,
and what happened since the current operation began. `View.permits` says which requests are in
order in a view:

* a transition extends the known log by an event that the reducer accepts, and a checkpoint on it
  is the replay of that log (`Extends`);
* a port is called only under the announcement that was just persisted;
* a tool that writes is started only after everything `Governed` lists;
* a durable wait moves only along its ladder (`Moves`).

The files that follow show that every operation keeps to this, whatever it is answered.
-/
namespace LocalAgent

open Program

/-- A run as far as a client knows it: its record and the events it read or persisted. -/
structure KnownRun where
  record : RunRecord
  log : List AgentEvent

/-- What an answer establishes for the rest of the operation. -/
inductive Fact where
  | authorized (capability : CapabilityKind) (decision : AuthorizationDecision)
  | decided (request : ApprovalRequest) (auditDegraded : Bool) (decision : ApprovalDecision)
  | committed (event : AgentEvent)
  | audited (event : AgentEvent)
  | loaded (key : RunKey) (waitId : DurableApprovalWaitId) (record : DurableApprovalRecord)
  | advanced (request : DurableApprovalStatusTransition)

def factsOf : (r : Request) → Answer r → List Fact
  | .authorize capability, decision => [.authorized capability decision]
  | .approvalDecide _ request degraded, .ready (.ok decision) => [.decided request degraded decision]
  | .audit _ event, .ready (.ok _) => [.audited event]
  | .appendTransition t, .ok _ | .createDurableApprovalWait t _ _, .ok _
  | .recordDurableApprovalDecision t _, .ok _ => [.committed t.event]
  | .transitionDurableApprovalStatus request, .ok _ =>
    .advanced request :: (request.transition.map fun t => .committed t.event).toList
  | .loadDurableApprovalWait key waitId, .ok record => [.loaded key waitId record]
  | _, _ => []

/-- The events that a plain append does not write: the start of a tool call of a durable wait, and
the two ends of the wait itself. -/
inductive Restricted where
  | tool | wait

def AgentEventKind.restricted : AgentEventKind → Option Restricted
  | .toolInvocationStarted .. => some .tool
  | .graph (.graphSuspended ..) | .graph (.graphResumed ..) => some .wait
  | _ => none

/-- An audit request that did not record its event. A bounded one that was cut off by the run's
own cancellation or deadline does not count: no event is written for that. -/
def auditFailed : AuditSite → Awaited (Except AuditPortError Unit) → Bool
  | _, .ready (.ok _) => false
  | .bounded, .cancelled | .bounded, .deadlineExceeded => false
  | _, _ => true

structure View (lib : Library) where
  command : Option (Command lib) := none
  run : Option KnownRun := none
  /-- The context was used by a harness without a persistence port. -/
  volatile : Bool := false
  /-- In this operation the store has confirmed the known log. -/
  current : Bool := false
  /-- The store refused a transition of this context. -/
  refused : Bool := false
  /-- It refused the announcement of a call. -/
  startRefused : Bool := false
  /-- The call announced last and not yet made. -/
  armed : Option (RunId × CallKey) := none
  /-- The call made last. -/
  called : Option CallKey := none
  /-- A running tool call was cut off. -/
  interrupted : Bool := false
  /-- The audit of `RunFinished` failed and the policy is to go on. -/
  lateAudit : Bool := false
  /-- The audit flag of the context was set without an event, before any event said it. -/
  tainted : Bool := false
  facts : List Fact := []

namespace View

variable {lib : Library} (v : View lib)

/-- The harness of the current operation has a persistence port. -/
def persistent : Bool := v.command.any fun cmd => cmd.harness.persistence

/-- The harness of the current operation tolerates audit failures. -/
def failOpen : Bool := v.command.any fun cmd => cmd.harness.auditFailurePolicy = .failOpen

/-- The known log says that the audit is degraded. -/
def degraded : Bool := v.run.any fun k => k.log.any fun e => decide (e.kind = .auditDegraded)

/-! ## Observing -/

def began (cmd : Command lib) : View lib :=
  match cmd.operation with
  | .newContext .. => { command := some cmd, volatile := !cmd.harness.persistence }
  | _ => { v with
      command := some cmd
      volatile := v.volatile || !cmd.harness.persistence
      current := false, armed := none, called := none, interrupted := false, lateAudit := false
      facts := [] }

/-- The store now holds this run for the client: it was created or read. -/
def opened (k : KnownRun) : View lib :=
  { v with run := some k, volatile := false, current := true, refused := false,
           startRefused := false, tainted := false }

/-- The store answered a transition. -/
def stored (event : AgentEvent) (accepted : Bool) : View lib :=
  if accepted then { v with
    run := v.run.map fun k => { k with log := k.log ++ [event] }
    current := true
    armed := match event.kind.opens with
      | some key => some (event.runId, key)
      | none => v.armed }
  else { v with
    refused := true
    startRefused := v.startRefused || event.kind.opens.isSome
    armed := if event.kind.opens.isSome then none else v.armed }

def calling (key : CallKey) : View lib := { v with armed := none, called := some key }

def interrupt : View lib := { v with interrupted := true }

def auditRefused (site : AuditSite) (event : AgentEvent) : View lib :=
  { v with
    lateAudit := v.lateAudit || (v.failOpen && event.kind.isRunFinished
      && (site = .lifecycle || site = .bounded))
    tainted := v.tainted || (!v.degraded && (site = .knowledgeInterruption
      || site = .terminal && v.interrupted && event.kind.isRunFinished)) }

/-- Was the future dropped by cancellation or deadline? -/
def cutOff {α : Type} : Awaited α → Bool
  | .ready _ => false
  | _ => true

def step : (r : Request) → Answer r → View lib
  | .createRun record _, .ok _ => v.opened ⟨record, []⟩
  | .loadRun .recovery _, .ok loaded => v.opened ⟨loaded.record, loaded.events⟩
  | .appendTransition t, x | .createDurableApprovalWait t _ _, x
  | .recordDurableApprovalDecision t _, x => v.stored t.event (x matches .ok _)
  | .transitionDurableApprovalStatus request, x =>
    match request.transition with
    | some t => v.stored t.event (x matches .ok _)
    | none => v
  | .modelInvoke _ id _, _ => v.calling (.model id)
  | .knowledgeRetrieve _ id _, _ => v.calling (.knowledge id)
  | .approvalDecide _ request _, _ => v.calling (.approval request.id)
  | .startManaged _ call, _ | .startContained _ call, _ => v.calling (.tool call.id)
  | .toolInvoke _ call, x =>
    if cutOff x then (v.calling (.tool call.id)).interrupt else v.calling (.tool call.id)
  | .reapManaged .., .ok _ | .reapContained .., .ok _ => v.interrupt
  | .audit site event, x => if auditFailed site x then v.auditRefused site event else v
  | _, _ => v

def observe (r : Request) (a : Answer r) : View lib :=
  { v.step r a with facts := v.facts ++ factsOf r a }

/-! ## Transitions -/

/-- A counted event moves its counter, and not past the limit. -/
def Counted (usage : BudgetUsage) (kind : AgentEventKind) : Prop :=
  ∀ x next limit, kind.counts = some (x, next, limit) → usage.count x < next ∧ next ≤ limit

/-- The transition continues the known log: its event is the next one, the reducer accepts it, a
checkpoint is the state after it, and nothing follows `RunFinished` unless a tool call was cut off
or the audit of the end failed. -/
def Extends (t : AppendTransition) : Prop :=
  ∃ k s s', v.run = some k ∧ t.key = k.record.key ∧ t.event.sequence = k.log.length ∧
    (DurableRunState.initial k.record).replay lib.codec k.log = .ok s ∧
    s.apply lib.codec t.event = .ok s' ∧
    (∀ cp, t.checkpoint = some cp →
      cp = .new s' ∨ v.tainted = true ∧ cp = .new s'.setAuditDegraded) ∧
    Counted s.context.usage t.event.kind ∧ t.event.sequence < u64Max ∧
    (k.log.any (fun e => e.kind.isRunFinished) = true → v.interrupted = true ∨ v.lateAudit = true)

/-- The transition cannot continue the stored log: the store has confirmed a log that ends before
the event that this one claims to follow. -/
def Gapped (t : AppendTransition) : Prop :=
  v.current = true ∧ ∃ k, v.run = some k ∧ t.key = k.record.key ∧ k.log.length < t.event.sequence

structure Appendable (t : AppendTransition) : Prop where
  announced : v.startRefused = false
  expected : t.expectedSequence = expectedSequenceOf t.event
  extends_ : v.refused = false → v.Extends t
  gapped : v.refused = true → v.Gapped t

/-! ## Dispatch -/

/-- The event was audited, and persisted if the harness persists. -/
def Settled (event : AgentEvent) : Prop :=
  .audited event ∈ v.facts ∧ (v.persistent = true → .committed event ∈ v.facts)

/-- A decision made in this operation: the approval port granted exactly this action, it was
asked while the audit was intact, and the grant is settled. -/
def GrantedHere (call : ToolCall) : Prop :=
  ∃ (request : ApprovalRequest) (decision : ApprovalDecision) (grant : AgentEvent),
    .decided request false decision ∈ v.facts ∧ decision.outcome = .granted ∧
    decision.requestId = request.id ∧ decision.actionDigest = request.actionDigest ∧
    request.actionDigest = lib.computeActionDigest call.name .localWrite call.input ∧
    request.toolCallId = call.id ∧ grant.kind = .approvalGranted request.id ∧ v.Settled grant

/-- Every wait that was loaded is the one it was asked for under. -/
def Faithful : Prop :=
  ∀ key waitId record, .loaded key waitId record ∈ v.facts → record.binding.key = key

/-- A durable approval: the wait was loaded, its action is this one, and its row was moved from
`ApprovedReady` to `Executing` together with the start of this call. -/
def GrantedBefore (call : ToolCall) : Prop :=
  ∃ (key : RunKey) (waitId : DurableApprovalWaitId) (first last : DurableApprovalRecord)
    (request : DurableApprovalStatusTransition) (t : AppendTransition),
    .loaded key waitId first ∈ v.facts ∧
    first.binding.actionDigest = lib.computeActionDigest call.name .localWrite call.input ∧
    last.binding.toolCallId = call.id ∧ .advanced request ∈ v.facts ∧ request.waitId = waitId ∧
    request.expectedStatus = .approvedReady ∧ request.nextStatus = .executing ∧
    request.transition = some t ∧ t.event.kind.opens = some (.tool call.id) ∧
    (v.Faithful → .loaded key waitId last ∈ v.facts ∧ request.key = key)

/-- What has to have happened before a tool that writes may be started. -/
structure Governed (call : ToolCall) : Prop where
  authorized : .authorized .localWrite .requiresApproval ∈ v.facts
  granted : v.GrantedHere call ∨ v.GrantedBefore call
  started : ∃ event : AgentEvent, event.kind.opens = some (.tool call.id) ∧ v.Settled event

/-- The start of a tool: its binding allows it. -/
def Dispatches (call : ToolCall) (contained : Bool) : Prop :=
  ∃ cmd binding, v.command = some cmd ∧ cmd.harness.tools.get call.name = some binding ∧
    (binding.definition.capability = .readOnly ∨
      binding.definition.capability = .localWrite ∧ contained = true ∧
        binding.execution = .contained ∧ (∀ call, cmd.operation ≠ .invokeTool call) ∧
        v.Governed call)

/-! ## Durable waits -/

/-- The rungs of the ladder, and what each is climbed with. -/
def Moves (request : DurableApprovalStatusTransition) : Prop :=
  match request.expectedStatus, request.nextStatus with
  | .decisionRecordedApprove, .approvedReady =>
    request.transition = none ∧ ∃ (key : RunKey) (record : DurableApprovalRecord) (grant : AgentEvent),
      .loaded key request.waitId record ∈ v.facts ∧ request.key = record.binding.key ∧
      grant.kind = .durableApprovalGranted request.waitId record.binding.approvalRequestId ∧
      v.Settled grant
  | .approvedReady, .approvedReady | .decisionRecordedDeny, .consumed =>
    ∃ t, request.transition = some t ∧ t.event.kind.resumes = some request.waitId
  | .approvedReady, .executing =>
    ∃ (t : AppendTransition) (key : RunKey) (record : DurableApprovalRecord),
      request.transition = some t ∧ .loaded key request.waitId record ∈ v.facts ∧
      request.key = record.binding.key ∧
      t.event.kind.opens = some (.tool record.binding.toolCallId) ∧
      ∃ resumed, .committed resumed ∈ v.facts ∧ resumed.kind.resumes = some request.waitId ∧
        resumed.runId = t.event.runId
  | .executing, .consumed => request.transition = none
  | .waiting, .consumed =>
    ∃ t outcome, request.transition = some t ∧ t.event.kind = .runFinished outcome
  | _, _ => False

/-- The operations that start a tool without a durable wait. -/
def startsTools : Operation lib → Bool
  | .invokeTool _ | .invokeValidatedAction _ => true
  | _ => false

/-- May the operation append such an event by itself? -/
def mayAppend (operation : Operation lib) : Restricted → Bool
  | .tool => startsTools operation
  | .wait => false

/-- The event suspends the run in the wait that the record describes. -/
def Suspends (t : AppendTransition) (b : ActionSealBinding) : Prop :=
  ∃ activeElapsedMillis, t.event.kind = .graph (.graphSuspended b.attemptId b.nodeId b.waitId
    b.approvalRequestId b.actionProposalId b.toolCallId b.actionDigest activeElapsedMillis)

/-- Demands of single requests. -/
def Ordered : Request → Prop
  | .toolInvoke _ call | .startManaged _ call => v.Dispatches call false
  | .startContained _ call => v.Dispatches call true
  | .appendTransition t =>
    ∀ x, t.event.kind.restricted = some x → v.command.any (fun cmd => mayAppend cmd.operation x)
  | .createRun record checkpoint => v.startRefused = false ∧ checkpoint = .new (.initial record) ∧
    record.storeSchemaVersion = currentStoreSchemaVersion ∧
    record.checkpointSchemaVersion = currentCheckpointSchemaVersion
  | .createDurableApprovalWait t record auditDegraded =>
    record.status = .waiting ∧ record.rowVersion = 0 ∧ auditDegraded = false ∧
    Suspends t record.binding ∧ (v.volatile = false → ∀ k, v.run = some k →
      k.log.any (fun e => e.kind.isRunFinished) = false)
  | .recordDurableApprovalDecision t _ => t.event.kind.opens = none
  | .transitionDurableApprovalStatus request => v.Moves request
  | _ => True

/-- What a client may ask for. -/
structure permits (r : Request) : Prop where
  append : ∀ t, r.transition = some t → v.volatile = false → v.Appendable t
  closes : ∀ t key, r.transition = some t → t.event.kind.closes = some key → v.called = some key
  call : ∀ x, r.portCall = some x → v.persistent = true → v.armed = some x
  ordered : v.Ordered r

end View

/-- The monitor of one client. -/
def monitor (lib : Library) : Monitor Answer where
  View := View lib
  permits := View.permits
  observe := View.observe

end LocalAgent
