import LocalAgent.Lib.Stateful
import LocalAgent.Recovery.Reducer

/-!
# The reducer in place (`recovery.rs:259-1031`)

`apply` is a method of `&mut self`: it checks and writes statement by statement, and a branch that
fails keeps what it has written so far. `Reducer.lean` gives the branches as functions that return the
whole new state or an error. Here they stand as the source writes them, with every check and every
write in its place, so that the state which a refused event leaves is computed and not stipulated.

Main theorems: `InPlace.outcome_apply` (both readings agree on what is accepted and on the result),
`InPlace.cleanAt_applyKind` (a branch that fails has written nothing, all but one), `apply_error` (what a
failed `apply` leaves).
-/
namespace LocalAgent
namespace DurableRunState

open Stateful Encoding

namespace InPlace

/-- A method of `&mut self` that may fail. -/
abbrev Method := EStateM TransitionError DurableRunState PUnit

/-- A write through `self.graph.as_mut()`. -/
def writeGraph (f : DurableGraphState → DurableGraphState) : Method :=
  modify fun s => { s with graph := s.graph.map f }

/-! ## Effects and retrievals -/

/-- `remove_pending` (recovery.rs:972). -/
def removePending (key : PendingEffectKey) : Method := do
  let position ← demand (fun s => s.pendingEffects.findIdx? key.matches) .effect
  modify fun s => { s with pendingEffects := s.pendingEffects.eraseIdx position }

/-- `start_knowledge_retrieval` (recovery.rs:982). -/
def startKnowledgeRetrieval (p : PendingKnowledgeRetrieval) : Method := do
  refuseIf (fun s => s.pendingKnowledgeRetrieval.isSome || !p.route.isValid || p.queryBytes = 0
    || p.queryBytes > maxQueryBytes
    || (s.loopPosition ≠ .phaseRunning .retrieve && !s.inRetrieveNode)) .effect
  modify fun s => { s with pendingKnowledgeRetrieval := some p }
  modify fun s => { s with restartableKnowledgeRetrieval := some p }
  modify fun s => { s with latestKnowledgeManifest := none }
  modify fun s => { s with continuation := .transientStateRequired }

/-- `finish_knowledge_retrieval` (recovery.rs:1018). -/
def finishKnowledgeRetrieval (id : KnowledgeRetrievalId) : Method := do
  let pending ← demand (·.pendingKnowledgeRetrieval) .effect
  refuseIf (fun _ => pending.retrievalId ≠ id) .effect
  modify fun s => { s with pendingKnowledgeRetrieval := none }

/-! ## Loop events -/

/-- `apply_loop` (recovery.rs:549). -/
def applyLoop : LoopEventKind → Method
  | .iterationStarted iteration usage limit => do
    refuseIf (fun s => !(s.loopPosition = .ready || s.loopPosition = .notStarted)
      || usage ≠ saturatingSucc s.context.usage.iterations
      || limit ≠ s.context.budget.maxIterations || iteration ≠ usage) .loop
    modify fun s => s.setUsage s.context.usage.modelCalls s.context.usage.toolCalls usage
      s.context.usage.approvalRequests
    modify fun s => { s with currentIteration := some iteration }
    modify fun s => { s with loopPosition := .phaseReady .observe }
    modify fun s => { s with continuation := .transientStateRequired }
  | .phaseEntered iteration phase => do
    refuseIf (fun s => s.currentIteration ≠ some iteration || s.loopPosition ≠ .phaseReady phase) .loop
    modify fun s => { s with loopPosition := .phaseRunning phase }
  | .phaseCompleted iteration phase => do
    refuseIf (fun s => s.currentIteration ≠ some iteration || s.loopPosition ≠ .phaseRunning phase) .loop
    refuseIf (fun s => phase = .retrieve && s.pendingKnowledgeRetrieval.isSome) .effect
    modify fun s => { s with loopPosition := afterPhase phase }
    if phase = .retrieve then
      modify fun s => { s with restartableKnowledgeRetrieval := none }
  | .reflectDecision iteration decision => do
    refuseIf (fun s => s.currentIteration ≠ some iteration || s.loopPosition ≠ .reflectCompleted) .loop
    modify fun s => { s with completedIterations := saturatingSucc s.completedIterations }
    modify fun s => { s with loopPosition := .reflectDecided decision }
  | .iterationCompleted iteration => do
    refuseIf (fun s => s.currentIteration ≠ some iteration) .loop
    let s ← get
    match s.loopPosition with
    | .reflectDecided .continue => do
      modify fun s => { s with currentIteration := none }
      modify fun s => { s with loopPosition := .ready }
      modify fun s => { s with continuation := .restartableBoundary }
    | .reflectDecided .complete | .reflectDecided .fail =>
      modify fun s => { s with loopPosition := .finished }
    | _ => throw .loop
  | .loopCompleted completedIterations => do
    refuseIf (fun s => completedIterations ≠ s.completedIterations) .loop
    modify fun s => { s with loopPosition := .finished }
  | .loopFailed iteration _ => do
    refuseIf (fun s => s.currentIteration ≠ some iteration) .loop
    modify fun s => { s with loopPosition := .finished }

/-! ## Graph events -/

/-- The writes that end `GraphNodeEntered` and `GraphNodeRestarted` (recovery.rs:711-726, 782-797). -/
def enterNode (attemptId : GraphNodeAttemptId) (nodeId : GraphNodeId) (nodeKind : GraphNodeKind)
    (recovery : GraphRecoveryMode) (step : Nat) : Method := do
  writeGraph fun g => { g with steps := step }
  writeGraph fun g => { g with position := .running attemptId nodeId nodeKind recovery }
  if recovery = .freshRetrieval then
    writeGraph fun g => { g with restartAnchor := some ⟨nodeId, attemptId⟩ }
  modify fun s => { s with context.usage := s.context.usage.withGraphSteps step }
  modify fun s => { s with continuation := .transientStateRequired }

/-- `graph_node_kind` (recovery.rs:1201). -/
def graphNodeKind : DurableGraphPosition → Option GraphNodeKind
  | .running _ _ nodeKind _ => some nodeKind
  | _ => none

/-- `graph_recovery_mode` (recovery.rs:1208). -/
def graphRecoveryMode : DurableGraphPosition → Option GraphRecoveryMode
  | .running _ _ _ recovery => some recovery
  | _ => none

/-- The elapsed time that a suspension has recorded. -/
def suspendedMillis : DurableGraphPosition → Option Nat
  | .waiting _ _ _ _ _ _ _ activeElapsedMillis => some activeElapsedMillis
  | _ => none

/-- `waiting_matches` (recovery.rs:882-892). -/
def waitingMatches (position : DurableGraphPosition) (attemptId : GraphNodeAttemptId)
    (nodeId : GraphNodeId) (waitId : DurableApprovalWaitId) : Bool :=
  match position with
  | .waiting currentAttempt currentNode currentWait _ _ _ _ _ =>
    currentAttempt = attemptId && currentNode = nodeId && currentWait = waitId
  | _ => false

/-- `finish_graph_terminal` (recovery.rs:936). -/
def finishGraphTerminal (attemptId : GraphNodeAttemptId) (nodeId : GraphNodeId) (steps : Nat)
    (expectedKind : Option GraphNodeKind) (outcome : RunOutcome) : Method := do
  let graph ← demand (·.graph) .graph
  refuseIf (fun s => graph.steps ≠ steps || !terminalAt graph.position attemptId nodeId expectedKind
    || !s.pendingEffects.isEmpty || s.pendingKnowledgeRetrieval.isSome
    || s.context.status ≠ .running) .graph
  writeGraph fun g => { g with position := .finished }
  writeGraph fun g => { g with restartAnchor := none }
  modify fun s => { s with context.status := .finished outcome }
  modify fun s => { s with continuation := .transientStateRequired }

/-- `apply_graph` (recovery.rs:651). -/
def applyGraph : GraphProgressEvent → Method
  | .graphStarted definitionDigest startNode startKind startRecovery => do
    refuseIf (fun s => s.graph.isSome || s.loopPosition ≠ .notStarted || s.context.status ≠ .running
      || !contractMatches s.recoveryContract definitionDigest
      || !validRecoveryMode startKind startRecovery) .graph
    modify fun s => { s with graph := some ⟨definitionDigest, .ready startNode startKind startRecovery, 0, none⟩ }
    modify fun s => { s with continuation := continuationFor startRecovery }
  | .graphNodeEntered attemptId nodeId nodeKind recovery step limit => do
    let graph ← demand (·.graph) .graph
    refuseIf (fun s => graph.position ≠ .ready nodeId nodeKind recovery
      || s.stepRejected graph nodeKind recovery step limit) .graph
    enterNode attemptId nodeId nodeKind recovery step
  | .graphNodeRestarted previous attemptId nodeId nodeKind recovery step limit => do
    let graph ← demand (·.graph) .graph
    refuseIf (fun s => (!directRestart graph.position previous nodeId nodeKind recovery
        && !anchorMatches graph.restartAnchor previous nodeId recovery)
      || s.stepRejected graph nodeKind recovery step limit) .graph
    enterNode attemptId nodeId nodeKind recovery step
  | .graphNodeCompleted attemptId nodeId _ nextNode nextKind nextRecovery => do
    let graph ← demand (·.graph) .graph
    let nodeKind ← demand (fun _ => graphNodeKind graph.position) .graph
    let recovery ← demand (fun _ => graphRecoveryMode graph.position) .graph
    refuseIf (fun s => graph.position ≠ .running attemptId nodeId nodeKind recovery
      || !s.pendingEffects.isEmpty || s.pendingKnowledgeRetrieval.isSome
      || !validRecoveryMode nextKind nextRecovery) .graph
    writeGraph fun g => { g with position := .ready nextNode nextKind nextRecovery }
    modify fun s => { s with continuation := continuationFor nextRecovery }
  | .graphSuspended attemptId nodeId waitId approvalRequestId actionProposalId toolCallId actionDigest
      activeElapsedMillis => do
    let graph ← demand (·.graph) .graph
    refuseIf (fun s => graph.position ≠ .running attemptId nodeId .action .never
      || !s.pendingEffects.isEmpty || s.pendingKnowledgeRetrieval.isSome
      || fromMillis activeElapsedMillis ≥ s.context.budget.maxElapsed) .graph
    writeGraph fun g => { g with
      position := .waiting attemptId nodeId waitId approvalRequestId actionProposalId toolCallId
        actionDigest activeElapsedMillis }
    writeGraph fun g => { g with restartAnchor := none }
    modify fun s => { s with continuation := .restartableBoundary }
  | .graphResumed attemptId nodeId waitId resumedAtUnixMillis => do
    let graph ← demand (·.graph) .graph
    let activeElapsedMillis ← demand (fun _ => suspendedMillis graph.position) .graph
    let rebasedStartedAt ← demand (fun _ => checkedSub resumedAtUnixMillis activeElapsedMillis) .graph
    refuseIf (fun s => !waitingMatches graph.position attemptId nodeId waitId
      || !s.pendingEffects.isEmpty) .graph
    modify fun s => { s with context.startedAtUnixMillis := some rebasedStartedAt }
    writeGraph fun g => { g with position := .running attemptId nodeId .action .never }
    modify fun s => { s with continuation := .transientStateRequired }
  | .graphCompleted attemptId nodeId steps =>
    finishGraphTerminal attemptId nodeId steps (some .complete) .completed
  | .graphFailed attemptId nodeId steps failure runFailure => do
    refuseIf (fun _ => runFailure ≠ .graph failure) .graph
    finishGraphTerminal attemptId nodeId steps none (.failed runFailure)

/-! ## `apply_kind` and `apply` -/

/-- `apply_kind` (recovery.rs:287). -/
def applyKind : AgentEventKind → Method
  | .runStarted startedAt => do
    refuseIf (fun s => s.context.status ≠ .pending) .lifecycle
    refuseIf (fun s => s.context.startedAtUnixMillis.any (· ≠ startedAt)) .lifecycle
    modify fun s => { s with context.startedAtUnixMillis := some startedAt }
    modify fun s => { s with context.status := .running }
  | .runFinished outcome => do
    refuseIf (fun s => s.context.status ≠ .running) .lifecycle
    modify fun s => { s with context.status := .finished outcome }
  | .auditDegraded => modify fun s => { s with context.auditDegraded := true }
  | .modelInvocationStarted modelCallId usage limit => do
    refuseIf (fun s => limit ≠ s.context.budget.maxModelCalls
      || usage ≠ saturatingSucc s.context.usage.modelCalls) .budget
    modify fun s => s.setUsage usage s.context.usage.toolCalls s.context.usage.iterations
      s.context.usage.approvalRequests
    let s ← get
    if s.graph.isSome then
      writeGraph fun g => { g with restartAnchor := none }
      modify fun s => { s with restartableKnowledgeRetrieval := none }
    modify fun s => { s with pendingEffects := s.pendingEffects ++ [.model modelCallId] }
    modify fun s => { s with continuation := .transientStateRequired }
  | .modelInvocationCompleted modelCallId _ | .modelInvocationFailed modelCallId =>
    removePending (.model modelCallId)
  | .approvalRequested approvalRequestId _ _ _ _ usage limit => do
    refuseIf (fun s => limit ≠ s.context.budget.maxApprovalRequests
      || usage ≠ saturatingSucc s.context.usage.approvalRequests) .budget
    modify fun s => s.setUsage s.context.usage.modelCalls s.context.usage.toolCalls
      s.context.usage.iterations usage
    modify fun s => { s with pendingEffects := s.pendingEffects ++ [.approval approvalRequestId] }
    modify fun s => { s with continuation := .transientStateRequired }
  | .approvalGranted approvalRequestId | .approvalDenied approvalRequestId
  | .approvalFailed approvalRequestId _ => removePending (.approval approvalRequestId)
  | .durableApprovalPrepared _ _ _ _ _ _ _ usage limit => do
    refuseIf (fun s => limit ≠ s.context.budget.maxApprovalRequests
      || usage ≠ saturatingSucc s.context.usage.approvalRequests) .budget
    modify fun s => s.setUsage s.context.usage.modelCalls s.context.usage.toolCalls
      s.context.usage.iterations usage
    modify fun s => { s with continuation := .transientStateRequired }
  | .durableApprovalDecisionRecorded .. | .durableApprovalGranted .. | .durableApprovalDenied .. =>
    pure ⟨⟩
  | .toolInvocationStarted toolCallId _ capability usage limit => do
    refuseIf (fun s => limit ≠ s.context.budget.maxToolCalls
      || usage ≠ saturatingSucc s.context.usage.toolCalls) .budget
    modify fun s => s.setUsage s.context.usage.modelCalls usage s.context.usage.iterations
      s.context.usage.approvalRequests
    modify fun s => { s with pendingEffects := s.pendingEffects ++ [.tool toolCallId capability] }
    modify fun s => { s with continuation := .transientStateRequired }
  | .toolInvocationCompleted toolCallId | .toolInvocationDomainFailed toolCallId _
  | .toolInvocationAdapterFailed toolCallId => removePending (.tool toolCallId)
  | .knowledgeRetrievalStarted retrievalId route queryDigest queryBytes =>
    startKnowledgeRetrieval ⟨retrievalId, route, queryDigest, queryBytes⟩
  | .knowledgeRetrievalRestarted previous retrievalId route queryDigest queryBytes => do
    let pending ← demand (·.pendingKnowledgeRetrieval) .effect
    refuseIf (fun _ => pending.retrievalId ≠ previous
      || !pending.matchesRequest route queryDigest queryBytes) .effect
    -- written before `start_knowledge_retrieval` makes its own checks
    modify fun s => { s with pendingKnowledgeRetrieval := none }
    startKnowledgeRetrieval ⟨retrievalId, route, queryDigest, queryBytes⟩
  | .knowledgeRetrievalCompleted retrievalId snapshots references count _ _ manifestDigest => do
    let attempt ← demand (·.restartableKnowledgeRetrieval) .effect
    refuseIf (fun _ => completionRejected attempt.route snapshots references count) .effect
    finishKnowledgeRetrieval retrievalId
    modify fun s => { s with latestKnowledgeManifest := some ⟨retrievalId, count, manifestDigest⟩ }
  | .knowledgeRetrievalFailed retrievalId _ => do
    finishKnowledgeRetrieval retrievalId
    modify fun s => { s with latestKnowledgeManifest := none }
    writeGraph fun g => { g with restartAnchor := none }
  | .modelGroundingBound retrievalId modelCallId count manifestDigest => do
    let manifest ← demand (·.latestKnowledgeManifest) .effect
    refuseIf (fun s => manifest ≠ ⟨retrievalId, count, manifestDigest⟩
      || !s.pendingEffects.any (· = .model modelCallId)) .effect
    modify fun s => { s with continuation := .transientStateRequired }
  | .loop event => applyLoop event
  | .graph event => applyGraph event
  | .actionProposed .. | .actionValidated .. | .actionRejected .. | .actionExecutionBound ..
  | .toolPolicyDenied .. | .containmentFailed .. =>
    modify fun s => { s with continuation := .transientStateRequired }

/-- `DurableRunState::apply` (recovery.rs:259). -/
def apply (codec : EventCodec) (event : AgentEvent) : Method := do
  refuseIf (fun s => event.schemaVersion ≠ currentEventSchemaVersion
    || event.runId ≠ s.context.key.runId) .identityOrVersion
  refuseIf (fun s => event.sequence ≠ s.expectedSequence) .sequence
  applyKind event.kind
  let bytes ← demand (fun _ => codec.toVec event) .encoding
  modify fun s => { s with
    eventChainDigest := codec.sha256
      (beBytes 32 s.eventChainDigest.toNat ++ beBytes 8 bytes.length ++ bytes) }
  modify fun s => { s with lastSequence := some event.sequence }

/-! ## Both readings agree -/

variable {s : DurableRunState}

theorem outcome_writeGraph_bind {f : DurableGraphState → DurableGraphState} {m : Method} :
    outcome (writeGraph f >>= fun _ => m) s = outcome m { s with graph := s.graph.map f } := rfl

theorem removeFirst_eq (key : PendingEffectKey) (es : List PendingEffect) :
    removeFirst key es = (es.findIdx? key.matches).map es.eraseIdx := by
  induction es with
  | nil => rfl
  | cons e es ih =>
    rw [removeFirst, List.findIdx?_cons]
    by_cases hmatch : key.matches e = true
    · rw [if_pos hmatch, if_pos hmatch]
      rfl
    · rw [if_neg hmatch, if_neg hmatch, ih, Option.map_map, Option.map_map]
      rfl

theorem outcome_removePending (key : PendingEffectKey) :
    outcome (removePending key) s = s.removePending key := by
  simp only [removePending, outcome_demand_bind, outcome_modify, DurableRunState.removePending,
    removeFirst_eq]
  cases s.pendingEffects.findIdx? key.matches <;> rfl

theorem outcome_startKnowledgeRetrieval (p : PendingKnowledgeRetrieval) :
    outcome (startKnowledgeRetrieval p) s = s.startKnowledgeRetrieval p := by
  simp only [startKnowledgeRetrieval, outcome_refuseIf_bind, outcome_modify_bind, outcome_modify,
    DurableRunState.startKnowledgeRetrieval]

theorem outcome_finishKnowledgeRetrieval (id : KnowledgeRetrievalId) :
    outcome (finishKnowledgeRetrieval id) s = s.finishKnowledgeRetrieval id := by
  simp only [finishKnowledgeRetrieval, outcome_demand_bind, outcome_refuseIf_bind, outcome_modify,
    DurableRunState.finishKnowledgeRetrieval]
  cases s.pendingKnowledgeRetrieval <;> simp

theorem outcome_applyLoop (event : LoopEventKind) : outcome (applyLoop event) s = s.applyLoop event := by
  cases event with
  | phaseCompleted iteration phase =>
    simp only [applyLoop, outcome_refuseIf_bind, outcome_modify_bind, DurableRunState.applyLoop]
    by_cases hphase : phase = .retrieve <;> simp [hphase]
  | iterationCompleted iteration =>
    simp only [applyLoop, outcome_refuseIf_bind, outcome_get_bind, DurableRunState.applyLoop]
    cases s.loopPosition with
    | reflectDecided decision => cases decision <;> simp
    | _ => simp
  | _ => simp [applyLoop, DurableRunState.applyLoop, setUsage]

theorem outcome_enterNode {g : DurableGraphState} (hg : s.graph = some g) (attemptId : GraphNodeAttemptId)
    (nodeId : GraphNodeId) (nodeKind : GraphNodeKind) (recovery : GraphRecoveryMode) (step : Nat) :
    outcome (enterNode attemptId nodeId nodeKind recovery step) s =
      .ok (s.enterNode g attemptId nodeId nodeKind recovery step) := by
  by_cases hfresh : recovery = .freshRetrieval <;>
    simp [enterNode, DurableRunState.enterNode, outcome_writeGraph_bind, hg, hfresh]

theorem outcome_finishGraphTerminal (attemptId : GraphNodeAttemptId) (nodeId : GraphNodeId) (steps : Nat)
    (expectedKind : Option GraphNodeKind) (result : RunOutcome) :
    outcome (finishGraphTerminal attemptId nodeId steps expectedKind result) s =
      s.finishGraphTerminal attemptId nodeId steps expectedKind result := by
  cases hg : s.graph <;>
    simp [finishGraphTerminal, DurableRunState.finishGraphTerminal, outcome_writeGraph_bind, hg]

/-- The position of a running node, compared as the source does it. -/
theorem runningAt_eq (nodeKind : GraphNodeKind) (recovery : GraphRecoveryMode)
    (currentAttempt attemptId : GraphNodeAttemptId) (currentNode nodeId : GraphNodeId) :
    runningAt (.running currentAttempt currentNode nodeKind recovery) attemptId nodeId =
      decide (DurableGraphPosition.running currentAttempt currentNode nodeKind recovery =
        .running attemptId nodeId nodeKind recovery) := by
  simp [runningAt]

theorem outcome_applyGraph (event : GraphProgressEvent) :
    outcome (applyGraph event) s = s.applyGraph event := by
  cases event with
  | graphStarted definitionDigest startNode startKind startRecovery =>
    simp [applyGraph, DurableRunState.applyGraph]
  | graphNodeEntered attemptId nodeId nodeKind recovery step limit =>
    cases hg : s.graph with
    | none => simp [applyGraph, DurableRunState.applyGraph, hg]
    | some g => simp [applyGraph, DurableRunState.applyGraph, hg, outcome_enterNode hg]
  | graphNodeRestarted previous attemptId nodeId nodeKind recovery step limit =>
    cases hg : s.graph with
    | none => simp [applyGraph, DurableRunState.applyGraph, hg]
    | some g => simp [applyGraph, DurableRunState.applyGraph, hg, outcome_enterNode hg]
  | graphNodeCompleted attemptId nodeId route nextNode nextKind nextRecovery =>
    cases hg : s.graph with
    | none => simp [applyGraph, DurableRunState.applyGraph, hg]
    | some g =>
      obtain ⟨definitionDigest, position, steps, anchor⟩ := g
      cases position with
      | running currentAttempt currentNode nodeKind recovery =>
        simp [applyGraph, DurableRunState.applyGraph, hg, graphNodeKind, graphRecoveryMode,
          outcome_writeGraph_bind, runningAt_eq]
      | _ => simp [applyGraph, DurableRunState.applyGraph, hg, graphNodeKind, runningAt]
  | graphSuspended attemptId nodeId waitId approvalRequestId actionProposalId toolCallId actionDigest
      activeElapsedMillis =>
    cases hg : s.graph <;> simp [applyGraph, DurableRunState.applyGraph, hg, outcome_writeGraph_bind]
  | graphResumed attemptId nodeId waitId resumedAtUnixMillis =>
    cases hg : s.graph with
    | none => simp [applyGraph, DurableRunState.applyGraph, hg]
    | some g =>
      obtain ⟨definitionDigest, position, steps, anchor⟩ := g
      cases position with
      | waiting _ _ _ _ _ _ _ activeElapsedMillis =>
        cases hsub : checkedSub resumedAtUnixMillis activeElapsedMillis <;>
          simp [applyGraph, DurableRunState.applyGraph, hg, suspendedMillis, waitingMatches, hsub,
            outcome_writeGraph_bind]
      | _ => simp [applyGraph, DurableRunState.applyGraph, hg, suspendedMillis]
  | graphCompleted attemptId nodeId steps => exact outcome_finishGraphTerminal ..
  | graphFailed attemptId nodeId steps failure runFailure =>
    simp [applyGraph, DurableRunState.applyGraph, outcome_finishGraphTerminal]

/-- **Both readings of `apply_kind` agree** on what is accepted, on the error and on the new state. -/
theorem outcome_applyKind (kind : AgentEventKind) : outcome (applyKind kind) s = s.applyKind kind := by
  cases kind with
  | runStarted startedAt => simp [applyKind, DurableRunState.applyKind]
  | runFinished outcome => simp [applyKind, DurableRunState.applyKind]
  | modelInvocationStarted modelCallId usage limit =>
    cases hg : s.graph <;>
      simp [applyKind, DurableRunState.applyKind, outcome_writeGraph_bind, setUsage, clearAnchor, hg]
  | approvalRequested => simp [applyKind, DurableRunState.applyKind, setUsage]
  | durableApprovalPrepared => simp [applyKind, DurableRunState.applyKind, setUsage]
  | toolInvocationStarted => simp [applyKind, DurableRunState.applyKind, setUsage]
  | modelInvocationCompleted => exact outcome_removePending _
  | modelInvocationFailed => exact outcome_removePending _
  | approvalGranted => exact outcome_removePending _
  | approvalDenied => exact outcome_removePending _
  | approvalFailed => exact outcome_removePending _
  | toolInvocationCompleted => exact outcome_removePending _
  | toolInvocationDomainFailed => exact outcome_removePending _
  | toolInvocationAdapterFailed => exact outcome_removePending _
  | knowledgeRetrievalStarted => exact outcome_startKnowledgeRetrieval _
  | knowledgeRetrievalRestarted previous id route digest bytes =>
    cases hp : s.pendingKnowledgeRetrieval <;>
      simp [applyKind, DurableRunState.applyKind, hp, outcome_startKnowledgeRetrieval]
  | knowledgeRetrievalCompleted id snapshots references count _ _ manifestDigest =>
    cases ha : s.restartableKnowledgeRetrieval with
    | none => simp [applyKind, DurableRunState.applyKind, ha]
    | some attempt =>
      simp only [applyKind, DurableRunState.applyKind, ha, outcome_demand_bind, outcome_refuseIf_bind]
      rw [outcome_bind, outcome_finishKnowledgeRetrieval]
      rfl
  | knowledgeRetrievalFailed id failure =>
    simp only [applyKind, DurableRunState.applyKind, outcome_bind, outcome_finishKnowledgeRetrieval]
    rfl
  | modelGroundingBound id modelCallId count manifestDigest =>
    cases hm : s.latestKnowledgeManifest <;> simp [applyKind, DurableRunState.applyKind, hm]
  | loop event => exact outcome_applyLoop event
  | graph event => exact outcome_applyGraph event
  | _ => rfl

theorem outcome_apply (codec : EventCodec) (event : AgentEvent) :
    outcome (apply codec event) s = s.apply codec event := by
  simp only [apply, DurableRunState.apply, outcome_refuseIf_bind, decide_eq_true_eq]
  rw [outcome_bind, outcome_applyKind]
  split_ifs
  · rfl
  · rfl
  · congr 1
    funext s'
    cases codec.toVec event <;> simp [chained]

/-! ## What a failed branch has written -/

theorem total_writeGraph (f : DurableGraphState → DurableGraphState) : Total (writeGraph f) := .write _

theorem cleanAt_removePending (key : PendingEffectKey) : CleanAt (removePending key) s :=
  .demand_bind fun _ _ => (Total.write _).cleanAt s

theorem cleanAt_startKnowledgeRetrieval (p : PendingKnowledgeRetrieval) :
    CleanAt (startKnowledgeRetrieval p) s :=
  .refuseIf_bind fun _ =>
    (Total.write_bind _ <| .write_bind _ <| .write_bind _ <| .write _).cleanAt s

theorem cleanAt_finishKnowledgeRetrieval (id : KnowledgeRetrievalId) :
    CleanAt (finishKnowledgeRetrieval id) s :=
  .demand_bind fun _ _ => .refuseIf_bind fun _ => (Total.write _).cleanAt s

theorem cleanAt_applyLoop (event : LoopEventKind) : CleanAt (applyLoop event) s := by
  cases event with
  | iterationStarted iteration usage limit =>
    exact .refuseIf_bind fun _ =>
      (Total.write_bind _ <| .write_bind _ <| .write_bind _ <| .write _).cleanAt s
  | phaseEntered iteration phase => exact .refuseIf_bind fun _ => (Total.write _).cleanAt s
  | phaseCompleted iteration phase =>
    refine .refuseIf_bind fun _ => .refuseIf_bind fun _ => (Total.write_bind _ ?_).cleanAt s
    exact .ite (.write _) (.pure _)
  | reflectDecision iteration decision =>
    exact .refuseIf_bind fun _ => (Total.write_bind _ <| .write _).cleanAt s
  | iterationCompleted iteration =>
    refine .refuseIf_bind fun _ => .get_bind ?_
    -- the last check is the position itself
    split
    · exact (Total.write_bind _ <| .write_bind _ <| .write _).cleanAt s
    · exact (Total.write _).cleanAt s
    · exact (Total.write _).cleanAt s
    · exact .throw _ s
  | loopCompleted completed => exact .refuseIf_bind fun _ => (Total.write _).cleanAt s
  | loopFailed iteration failure => exact .refuseIf_bind fun _ => (Total.write _).cleanAt s

theorem total_enterNode {attemptId : GraphNodeAttemptId} {nodeId : GraphNodeId}
    {nodeKind : GraphNodeKind} {recovery : GraphRecoveryMode} {step : Nat} :
    Total (enterNode attemptId nodeId nodeKind recovery step) := by
  refine (total_writeGraph _).bind fun _ => (total_writeGraph _).bind fun _ => ?_
  by_cases hfresh : recovery = .freshRetrieval
  · simp only [hfresh, if_true]
    exact (total_writeGraph _).bind fun _ => .write_bind _ <| .write _
  · simp only [hfresh, if_false]
    exact .write_bind _ <| .write _

theorem cleanAt_finishGraphTerminal {attemptId : GraphNodeAttemptId} {nodeId : GraphNodeId}
    {steps : Nat} {expectedKind : Option GraphNodeKind} {result : RunOutcome} :
    CleanAt (finishGraphTerminal attemptId nodeId steps expectedKind result) s := by
  refine .demand_bind fun _ _ => .refuseIf_bind fun _ => Total.cleanAt ?_ s
  exact (total_writeGraph _).bind fun _ => (total_writeGraph _).bind fun _ => .write_bind _ <| .write _

theorem cleanAt_applyGraph (event : GraphProgressEvent) : CleanAt (applyGraph event) s := by
  cases event with
  | graphStarted definitionDigest startNode startKind startRecovery =>
    exact .refuseIf_bind fun _ => (Total.write_bind _ <| .write _).cleanAt s
  | graphNodeEntered attemptId nodeId nodeKind recovery step limit =>
    exact .demand_bind fun _ _ => .refuseIf_bind fun _ => total_enterNode.cleanAt s
  | graphNodeRestarted previous attemptId nodeId nodeKind recovery step limit =>
    exact .demand_bind fun _ _ => .refuseIf_bind fun _ => total_enterNode.cleanAt s
  | graphNodeCompleted attemptId nodeId route nextNode nextKind nextRecovery =>
    refine .demand_bind fun _ _ => .demand_bind fun _ _ => .demand_bind fun _ _ => ?_
    exact .refuseIf_bind fun _ => ((total_writeGraph _).bind fun _ => .write _).cleanAt s
  | graphSuspended attemptId nodeId waitId approvalRequestId actionProposalId toolCallId actionDigest
      activeElapsedMillis =>
    refine .demand_bind fun _ _ => .refuseIf_bind fun _ => Total.cleanAt ?_ s
    exact (total_writeGraph _).bind fun _ => (total_writeGraph _).bind fun _ => .write _
  | graphResumed attemptId nodeId waitId resumedAtUnixMillis =>
    refine .demand_bind fun _ _ => .demand_bind fun _ _ => .demand_bind fun _ _ => ?_
    refine .refuseIf_bind fun _ => Total.cleanAt ?_ s
    exact .write_bind _ ((total_writeGraph _).bind fun _ => .write _)
  | graphCompleted attemptId nodeId steps => exact cleanAt_finishGraphTerminal
  | graphFailed attemptId nodeId steps failure runFailure =>
    exact .refuseIf_bind fun _ => cleanAt_finishGraphTerminal

/-- **A branch that fails has written nothing**: every branch checks before it writes, except the
restart of a retrieval. -/
theorem cleanAt_applyKind {kind : AgentEventKind}
    (h : ∀ previous id route digest bytes,
      kind ≠ .knowledgeRetrievalRestarted previous id route digest bytes) :
    CleanAt (applyKind kind) s := by
  cases kind with
  | runStarted startedAt =>
    exact .refuseIf_bind fun _ => .refuseIf_bind fun _ => (Total.write_bind _ <| .write _).cleanAt s
  | runFinished outcome => exact .refuseIf_bind fun _ => (Total.write _).cleanAt s
  | auditDegraded => exact (Total.write _).cleanAt s
  | modelInvocationStarted modelCallId usage limit =>
    refine .refuseIf_bind fun _ => Total.cleanAt (.write_bind _ (.get_bind fun t => ?_)) s
    by_cases hg : t.graph.isSome = true
    · simp only [hg, if_true]
      exact (total_writeGraph _).bind fun _ => .write_bind _ <| .write_bind _ <| .write _
    · simp only [hg, Bool.false_eq_true, if_false]
      exact .write_bind _ <| .write _
  | approvalRequested =>
    exact .refuseIf_bind fun _ => (Total.write_bind _ <| .write_bind _ <| .write _).cleanAt s
  | durableApprovalPrepared => exact .refuseIf_bind fun _ => (Total.write_bind _ <| .write _).cleanAt s
  | durableApprovalDecisionRecorded => exact (Total.pure _).cleanAt s
  | durableApprovalGranted => exact (Total.pure _).cleanAt s
  | durableApprovalDenied => exact (Total.pure _).cleanAt s
  | toolInvocationStarted =>
    exact .refuseIf_bind fun _ => (Total.write_bind _ <| .write_bind _ <| .write _).cleanAt s
  | modelInvocationCompleted => exact cleanAt_removePending _
  | modelInvocationFailed => exact cleanAt_removePending _
  | approvalGranted => exact cleanAt_removePending _
  | approvalDenied => exact cleanAt_removePending _
  | approvalFailed => exact cleanAt_removePending _
  | toolInvocationCompleted => exact cleanAt_removePending _
  | toolInvocationDomainFailed => exact cleanAt_removePending _
  | toolInvocationAdapterFailed => exact cleanAt_removePending _
  | knowledgeRetrievalStarted => exact cleanAt_startKnowledgeRetrieval _
  | knowledgeRetrievalRestarted previous id route digest bytes =>
    exact absurd rfl (h previous id route digest bytes)
  | knowledgeRetrievalCompleted id snapshots references count truncated degraded manifestDigest =>
    refine .demand_bind fun _ _ => .refuseIf_bind fun _ => ?_
    exact (cleanAt_finishKnowledgeRetrieval id).bind_total fun _ => .write _
  | knowledgeRetrievalFailed id failure =>
    refine (cleanAt_finishKnowledgeRetrieval id).bind_total fun _ => ?_
    exact .write_bind _ (total_writeGraph _)
  | modelGroundingBound => exact .demand_bind fun _ _ => .refuseIf_bind fun _ => (Total.write _).cleanAt s
  | loop event => exact cleanAt_applyLoop event
  | graph event => exact cleanAt_applyGraph event
  | _ => exact (Total.write _).cleanAt s

/-- A restart that fails has dropped the pending retrieval, if it got as far as asking for the new
one. -/
theorem applyKind_restart_error {previous id : KnowledgeRetrievalId} {route : KnowledgeRouteMetadata}
    {digest : Bytes32} {bytes : Nat} {err : TransitionError} {t : DurableRunState}
    (h : applyKind (.knowledgeRetrievalRestarted previous id route digest bytes) s = .error err t) :
    t = s ∨ ∃ p, s.pendingKnowledgeRetrieval = some p ∧ p.retrievalId = previous ∧
      p.matchesRequest route digest bytes = true ∧ t = { s with pendingKnowledgeRetrieval := none } := by
  cases hp : s.pendingKnowledgeRetrieval with
  | none =>
    simp only [applyKind, bind_apply, demand, hp] at h
    cases h
    exact .inl rfl
  | some p =>
    by_cases hsame : p.retrievalId = previous ∧ p.matchesRequest route digest bytes = true
    · simp only [applyKind, bind_apply, demand, hp, refuseIf, hsame.1, hsame.2, ne_eq, not_true_eq_false,
        decide_false, Bool.not_true, Bool.or_self, Bool.false_eq_true, if_false, modify_apply] at h
      exact .inr ⟨p, rfl, hsame.1, hsame.2, cleanAt_startKnowledgeRetrieval _ _ _ h⟩
    · have hdiffers : (decide (p.retrievalId ≠ previous) || !p.matchesRequest route digest bytes) = true := by
        by_cases hid : p.retrievalId = previous
        · have hrequest := fun hmatch => hsame ⟨hid, hmatch⟩
          simp [Bool.eq_false_iff.mpr hrequest]
        · simp [hid]
      simp only [applyKind, bind_apply, demand, hp, refuseIf, hdiffers, if_true] at h
      cases h
      exact .inl rfl

end InPlace

/-! ## What a failed `apply` leaves -/

/-- The state that an event leaves behind which `apply` could not take: the one that `apply_kind` stops
in, or the old one where `apply` did not get that far. -/
def residue (s : DurableRunState) (event : AgentEvent) : DurableRunState :=
  if event.schemaVersion ≠ currentEventSchemaVersion || event.runId ≠ s.context.key.runId
      || event.sequence ≠ s.expectedSequence then s
  else stopsIn (InPlace.applyKind event.kind) s

variable {s t : DurableRunState} {event : AgentEvent}

/-- `residue` is what the in-place reducer leaves when it fails. -/
theorem apply_error {codec : EventCodec} {err : TransitionError}
    (h : InPlace.apply codec event s = .error err t) :
    s.apply codec event = .error err ∧ t = s.residue event := by
  refine ⟨by rw [← InPlace.outcome_apply, outcome, h], ?_⟩
  simp only [InPlace.apply, refuseIf_bind_apply] at h
  unfold residue
  split at h
  · next hidentity =>
    cases h
    rw [if_pos (by simp only [hidentity, Bool.true_or])]
  · next hidentity =>
    split at h
    · next hsequence =>
      cases h
      rw [if_pos (by simp only [hsequence, Bool.or_true])]
    · next hsequence =>
      rw [if_neg (by simp only [hidentity, hsequence, Bool.or_self, Bool.false_eq_true, not_false_eq_true]),
        stopsIn]
      rw [bind_apply] at h
      cases happly : InPlace.applyKind event.kind s with
      | ok u m =>
        rw [happly] at h
        simp only [demand_bind_apply] at h
        cases hbytes : codec.toVec event with
        | none =>
          rw [hbytes] at h
          cases h
          rfl
        | some bytes =>
          rw [hbytes] at h
          cases h
      | error err' m =>
        rw [happly] at h
        cases h
        rfl

/-- A property of the old state that survives the loss of the pending retrieval and every accepted
event holds of what is left. -/
theorem residue_cases {P : DurableRunState → Prop} (hsame : P s)
    (hdropped : P { s with pendingKnowledgeRetrieval := none })
    (haccepted : ∀ m, s.applyKind event.kind = .ok m → P m) : P (s.residue event) := by
  unfold residue
  split
  · exact hsame
  cases happly : InPlace.applyKind event.kind s with
  | ok u m =>
    rw [stopsIn, happly]
    refine haccepted m ?_
    rw [← InPlace.outcome_applyKind, outcome, happly]
  | error err m =>
    rw [stopsIn, happly]
    by_cases hrestart : ∃ previous id route digest bytes,
        event.kind = .knowledgeRetrievalRestarted previous id route digest bytes
    · obtain ⟨previous, id, route, digest, bytes, hkind⟩ := hrestart
      rw [hkind] at happly
      rcases InPlace.applyKind_restart_error happly with rfl | ⟨p, -, -, -, rfl⟩
      · exact hsame
      · exact hdropped
    · have hclean : m = s := InPlace.cleanAt_applyKind
        (fun previous id route digest bytes hkind => hrestart ⟨previous, id, route, digest, bytes, hkind⟩)
        _ _ happly
      exact hclean ▸ hsame

end DurableRunState
end LocalAgent
