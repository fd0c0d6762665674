import LocalAgent.Graph.Definition
import LocalAgent.Graph.Resume
import LocalAgent.Harness.Durable
import LocalAgent.Lib.Handler

/-!
# The graph engine (`agent-graph/src/engine.rs`, `effects.rs`, `program.rs`)

`GraphEngine` walks the nodes of a definition. For each of them it has the harness record the
entry, lets the program run its callback, and records the transition the callback has chosen. A
callback is a program over the operations that its kind of node is given (`RetrieveEffects`,
`ModelEffects`, `ActionEffects`); what it does with the results, and how often it calls, is its own
affair. The program object and its working state are one value here.

The loop of `execute` is bounded by the number of nodes, which is no restriction for a definition
without cycles (`execute_nodes_avoids`).
-/
namespace LocalAgent

open Program

/-! ## Effects -/

/-- What `KnowledgeQuery::new` and the constructors of `KnowledgeRoute` have checked
(agent-knowledge/src/lib.rs:85, 134). -/
structure CheckedRequest extends KnowledgeRequest where
  route_valid : route.isValid = true
  query_pos : 0 < query.utf8ByteSize
  query_le : query.utf8ByteSize ≤ maxQueryBytes

/-- The calls of `RetrieveEffects`. -/
inductive RetrieveEffect where
  | retrieveKnowledge (request : CheckedRequest)

def RetrieveEffect.Result : RetrieveEffect → Type
  | .retrieveKnowledge _ => Except HarnessError CompletedKnowledgeRetrieval

/-- The calls of `ModelEffects`. -/
inductive ModelEffect where
  | invokeModel (request : ModelRequest)
  | invokeGroundedModel (retrieval : CompletedKnowledgeRetrieval) (request : GroundedModelRequest)

def ModelEffect.Result : ModelEffect → Type
  | .invokeModel _ | .invokeGroundedModel .. => Except HarnessError CompletedModelInvocation

/-- `DurableApprovalWait`. -/
structure DurableApprovalWait where
  waitId : DurableApprovalWaitId
  approvalRequestId : ApprovalRequestId
  actionProposalId : ActionProposalId
  toolCallId : ToolCallId
  actionDigest : ActionDigest
deriving DecidableEq, Repr

/-- The calls of `ActionEffects`. -/
inductive ActionEffect (lib : Library) where
  | prepareAction (invocation : CompletedModelInvocation)
  | invokeValidatedAction (action : ValidatedAction lib)
  | suspendLocalWrite (action : ValidatedAction lib)

def ActionEffect.Result {lib : Library} : ActionEffect lib → Type
  | .prepareAction _ => Except HarnessError (Except ActionRejectionReason (ValidatedAction lib))
  | .invokeValidatedAction _ => Except HarnessError ToolResult
  | .suspendLocalWrite _ => Except HarnessError DurableApprovalWait

/-- `VerifyEffects`, `DecisionContext` and the two hooks of a restart have no calls. -/
abbrev NoEffect.Result : Empty → Type := fun none => nomatch none

section Effects

variable (lib : Library) (h : ExecutionHarness)

/-- `RetrieveEffects` (effects.rs:17). -/
def retrieveEffects : (effect : RetrieveEffect) → RunContext → Prog Answer (effect.Result × RunContext)
  | .retrieveKnowledge request => retrieveKnowledge lib h request.toKnowledgeRequest

/-- `ModelEffects` (effects.rs:35). -/
def modelEffects : (effect : ModelEffect) → RunContext → Prog Answer (effect.Result × RunContext)
  | .invokeModel request => invokeModelInternal lib h request none
  | .invokeGroundedModel retrieval request => invokeGroundedModel lib h retrieval request

/-- The wait that `suspend_durable_local_write` hands back: `DurableApprovalWait::new` copies the
ids of the binding, and these are the ids of the position it leaves the run in. -/
def suspendForWait (action : ValidatedAction lib) (durable : DurableActionContext) :
    HarnessM DurableApprovalWait := do
  suspendDurableLocalWrite lib h action durable
  match (← Task.look).durableState.graphPosition with
  | some (.waiting _ _ wait request proposal tool digest _) =>
    pure ⟨wait, request, proposal, tool, digest⟩
  | _ => Task.fail .durableApprovalMismatch

/-- `ActionEffects` (effects.rs:60), durable or not. -/
def actionEffects (durable : Option DurableActionContext) :
    (effect : ActionEffect lib) → RunContext → Prog Answer (effect.Result × RunContext)
  | .prepareAction invocation => prepareAction lib h invocation
  | .invokeValidatedAction action => invokeValidatedAction lib h action
  | .suspendLocalWrite action =>
    match durable with
    | none => Task.fail .durableApprovalMismatch
    | some durable => suspendForWait lib h action durable

def noEffects : (effect : Empty) → RunContext → Prog Answer (NoEffect.Result effect × RunContext) :=
  fun none => nomatch none

end Effects

/-! ## Programs -/

inductive GraphProgramError where
  | failed
deriving DecidableEq, Repr

inductive VerificationOutcome where
  | passed | failed
deriving DecidableEq, Repr

/-- `DurableActionCompletion`; the engine never builds `InfrastructureFailure`. -/
inductive DurableActionCompletion where
  | succeeded (callId : ToolCallId)
  | domainFailure
  | infrastructureFailure
deriving DecidableEq, Repr

/-- A callback that may make these calls, with the program and its working state in `σ`. -/
abbrev GraphCallback {Effect : Type} (Result : Effect → Type) (σ α : Type) :=
  Task Result GraphProgramError σ α

/-- `RestartableGraphProgram`; a `GraphProgram` is one whose last three fields are not used. -/
structure GraphProgram (lib : Library) (σ : Type) where
  retrieve : GraphNodeId → GraphCallback RetrieveEffect.Result σ Unit
  model : GraphNodeId → GraphCallback ModelEffect.Result σ Unit
  action : GraphNodeId → GraphCallback (ActionEffect.Result : ActionEffect lib → Type) σ Unit
  durableLocalWriteAction :
    GraphNodeId → GraphCallback (ActionEffect.Result : ActionEffect lib → Type) σ DurableApprovalWait
  verify : GraphNodeId → GraphCallback NoEffect.Result σ VerificationOutcome
  decide : GraphNodeId → GraphCallback NoEffect.Result σ GraphBranchId
  recoveryVersion : Nat
  restoreWorkingState : DurableRunState → GraphCallback NoEffect.Result σ Unit
  restoreDurableActionCompletion : DurableActionCompletion → GraphCallback NoEffect.Result σ Unit

/-! ## Looking up nodes and edges -/

namespace GraphDefinition

/-- `node` (definition.rs:157). -/
def node (d : GraphDefinition) (id : GraphNodeId) : Option NodeDefinition := d.nodes.find? (·.id = id)

/-- `transition` (definition.rs:162). -/
def transition (d : GraphDefinition) (id : GraphNodeId) (key : GraphTransitionKey) : Option GraphNodeId :=
  (d.edges.find? fun e => e.source = id && e.transition = key).map (·.target)

variable {d : GraphDefinition} {id target : GraphNodeId} {key : GraphTransitionKey} {n : NodeDefinition}

theorem node_eq_some (h : d.node id = some n) : n ∈ d.nodes ∧ n.id = id :=
  ⟨List.mem_of_find?_eq_some h, by simpa using List.find?_some h⟩

theorem transition_eq_some (h : d.transition id key = some target) : ⟨id, key, target⟩ ∈ d.edges := by
  obtain ⟨e, he, rfl⟩ := Option.map_eq_some_iff.mp h
  have hkey := List.find?_some he
  simp only [Bool.and_eq_true, decide_eq_true_eq] at hkey
  obtain ⟨rfl, rfl⟩ := hkey
  exact List.mem_of_find?_eq_some he

theorem exists_node (h : ∃ n ∈ d.nodes, n.id = id) : ∃ n, d.node id = some n := by
  obtain ⟨n, hn, hid⟩ := h
  exact Option.isSome_iff_exists.mp (List.find?_isSome.mpr ⟨n, hn, by simp [hid]⟩)

theorem exists_transition (h : ∃ e ∈ d.edges, e.source = id ∧ e.transition = key) :
    ∃ target, d.transition id key = some target := by
  obtain ⟨e, he, hsource, hkey⟩ := h
  have hfound : (d.edges.find? fun e => e.source = id && e.transition = key).isSome = true :=
    List.find?_isSome.mpr ⟨e, he, by simp [hsource, hkey]⟩
  obtain ⟨f, hf⟩ := Option.isSome_iff_exists.mp hfound
  exact ⟨f.target, Option.map_eq_some_iff.mpr ⟨f, hf, rfl⟩⟩

end GraphDefinition

/-! ## The engine -/

/-- `GraphError`; `outOfFuel` is none of the source's. -/
inductive GraphEngineError where
  | harness (error : HarnessError)
  | program (error : GraphProgramError)
  | recoveryMismatch
  | transitionUnavailable
  | outOfFuel
deriving DecidableEq

inductive GraphTerminalOutcome where
  | complete | fail | waiting
deriving DecidableEq, Repr

/-- `GraphRunSummary`. -/
structure GraphRunSummary where
  steps : Nat
  terminal : GraphTerminalOutcome
  waiting : Option DurableApprovalWait
deriving DecidableEq, Repr

/-- What the engine does with a context and a program. -/
abbrev EngineM (σ : Type) := Task Answer GraphEngineError (RunContext × σ)

/-- What a node leads to. -/
inductive NodeOutcome where
  | transition (key : GraphTransitionKey)
  | ended (summary : GraphRunSummary)

section Engine

variable {σ α : Type} (lib : Library) (h : ExecutionHarness) (d : GraphDefinition)
  (program : GraphProgram lib σ)

/-- `harness.method(context, ..).await?`. -/
def viaHarness (m : HarnessM α) : EngineM σ α := m.focus .harness

/-- `fail_callback` and `fail_transition` (engine.rs:433-460): the result is dropped. -/
def failQuietly (attempt : GraphNodeAttemptId) (nodeId : GraphNodeId) (failure : GraphFailureKind) :
    EngineM σ Unit := do
  let _ ← (viaHarness (failGraph lib h attempt nodeId failure)).attempt
  pure ()

/-- A callback in its node: an error of it fails the graph. -/
def inNode (attempt : GraphNodeAttemptId) (nodeId : GraphNodeId)
    (m : EngineM σ (Except GraphProgramError α)) : EngineM σ α := do
  match ← m with
  | .ok a => pure a
  | .error e => do
    failQuietly lib h attempt nodeId .callback
    Task.fail (.program e)

/-- The summary of a run that has ended here. -/
def summarize (terminal : GraphTerminalOutcome) (waiting : Option DurableApprovalWait) :
    EngineM σ NodeOutcome := do
  let (c, _) ← Task.look
  pure (.ended ⟨c.usage.graphSteps, terminal, waiting⟩)

/-- The program version for a suspension (engine.rs:346-352). -/
def durableVersion : EngineM σ Nat := do
  let (c, _) ← Task.look
  match c.recoveryContract with
  | .graph programVersion definitionDigest =>
    if definitionDigest = d.digest then pure programVersion else Task.fail .recoveryMismatch
  | _ => Task.fail .recoveryMismatch

/-- The branch transition of a verification. -/
def VerificationOutcome.key : VerificationOutcome → GraphTransitionKey
  | .passed => .verificationPassed
  | .failed => .verificationFailed

/-- The `match node.kind()` of `execute` (engine.rs:286-403). -/
def visitNode (attempt : GraphNodeAttemptId) (node : NodeDefinition) : EngineM σ NodeOutcome := do
  match node.kind with
  | .complete => do
    viaHarness (completeGraph lib h attempt node.id)
    summarize .complete none
  | .fail => do
    viaHarness (failGraph lib h attempt node.id .explicitTerminal)
    summarize .fail none
  | .retrieve => do
    inNode lib h attempt node.id ((program.retrieve node.id).callback (retrieveEffects lib h))
    pure (.transition .succeeded)
  | .model => do
    inNode lib h attempt node.id ((program.model node.id).callback (modelEffects lib h))
    pure (.transition .succeeded)
  | .action => do
    inNode lib h attempt node.id ((program.action node.id).callback (actionEffects lib h none))
    pure (.transition .succeeded)
  | .durableLocalWriteAction => do
    let programVersion ← durableVersion d
    let durable : DurableActionContext := ⟨programVersion, d.digest, node.id, attempt⟩
    let wait ← inNode lib h attempt node.id
      ((program.durableLocalWriteAction node.id).callback (actionEffects lib h (some durable)))
    summarize .waiting (some wait)
  | .verify => do
    let outcome ← inNode lib h attempt node.id ((program.verify node.id).callback noEffects)
    pure (.transition outcome.key)
  | .decision _ => do
    let branch ← inNode lib h attempt node.id ((program.decide node.id).callback noEffects)
    pure (.transition (.branch branch))

/-- The entry of a node, or its restart (engine.rs:262-284). -/
def enter (current : ResumeNode) (restarting : Bool) (node : NodeDefinition) :
    HarnessM GraphNodeAttemptId :=
  if restarting then
    restartGraphNode lib h current.previousAttempt node.id node.kind.durableKind node.recovery
  else enterGraphNode lib h node.id node.kind.durableKind node.recovery

/-- `execute` (engine.rs:247). -/
def execute : Nat → ResumeNode → Bool → EngineM σ GraphRunSummary
  | 0, _, _ => Task.fail .outOfFuel
  | fuel + 1, current, restarting => do
    match d.node current.nodeId with
    | none => Task.fail .transitionUnavailable
    | some node => do
      let attempt ← viaHarness (enter lib h current restarting node)
      match ← visitNode lib h d program attempt node with
      | .ended summary => pure summary
      | .transition key =>
        match (d.transition node.id key).bind d.node with
        | none => do
          failQuietly lib h attempt node.id .invalidTransition
          Task.fail .transitionUnavailable
        | some next => do
          viaHarness (completeGraphNode lib h attempt node.id key next.id next.kind.durableKind
            next.recovery)
          execute fuel ⟨next.id, none⟩ false

/-- `run` (engine.rs:63). -/
def runGraph : EngineM σ GraphRunSummary := do
  match d.node d.start with
  | none => Task.fail .transitionUnavailable
  | some start => do
    viaHarness (startGraph lib h d.digest start.id start.kind.durableKind start.recovery)
    execute lib h d program d.nodes.length ⟨start.id, none⟩ false

/-- `program.restore_..(..)?`. -/
def restore (hook : GraphCallback NoEffect.Result σ Unit) : EngineM σ Unit := do
  match ← (hook.callback noEffects : EngineM σ (Except GraphProgramError Unit)) with
  | .ok _ => pure ()
  | .error e => Task.fail (.program e)

/-- `resume` (engine.rs:97), on the context of the recovered run. -/
def resumeGraph (recovered : RecoveredRun) : EngineM σ GraphRunSummary := do
  match resumeNode program.recoveryVersion d.digest recovered with
  | .error _ => Task.fail .recoveryMismatch
  | .ok current => do
    restore (program.restoreWorkingState recovered.state)
    execute lib h d program d.nodes.length current true

/-- The node in which a recovered run waits (engine.rs:155-173). -/
def waitingNode (recovered : RecoveredRun) (waitId : DurableApprovalWaitId) : Option GraphNodeId :=
  if recovered.recoveryContract ≠ .graph program.recoveryVersion d.digest then none
  else match recovered.state.graphPosition with
    | some (.waiting _ nodeId current _ _ _ _ _) => if current = waitId then some nodeId else none
    | _ => none

/-- What the program is told of a decided action (engine.rs:187-203). -/
def restoreCompletion : DurableLocalWriteResume → EngineM σ (GraphNodeAttemptId × GraphNodeId × GraphTransitionKey)
  | .executed attemptId nodeId (.succeeded callId _) => do
    restore (program.restoreDurableActionCompletion (.succeeded callId))
    pure (attemptId, nodeId, .succeeded)
  | .executed attemptId nodeId (.domainFailure ..) => do
    restore (program.restoreDurableActionCompletion .domainFailure)
    pure (attemptId, nodeId, .succeeded)
  | .denied attemptId nodeId => pure (attemptId, nodeId, .approvalDenied)

/-- `resume_waiting` (engine.rs:148), on the context of the recovered run. -/
def resumeWaitingGraph (recovered : RecoveredRun) (waitId : DurableApprovalWaitId) :
    EngineM σ GraphRunSummary := do
  match waitingNode lib d program recovered waitId with
  | none => Task.fail .recoveryMismatch
  | some waiting => do
    restore (program.restoreWorkingState recovered.state)
    let resumed ← viaHarness (resumeDurableLocalWrite lib h recovered.state waitId)
    let (attemptId, nodeId, key) ← restoreCompletion lib program resumed
    if nodeId ≠ waiting then Task.fail .recoveryMismatch
    else match (d.transition nodeId key).bind d.node with
      | none => Task.fail .transitionUnavailable
      | some next => do
        viaHarness (completeGraphNode lib h attemptId nodeId key next.id next.kind.durableKind
          next.recovery)
        execute lib h d program d.nodes.length ⟨next.id, none⟩ false

end Engine
end LocalAgent
