import LocalAgent.Lib.Encoding
import LocalAgent.Recovery.State

/-!
# The reducer: `DurableRunState::apply` (`recovery.rs:259-1031`)

One function drives both the live context (`RunContext::next_event`) and recovery. A branch
that checks several things and then writes is one `if` with the source's disjunction, in the
source's order. `apply` hashes the serialized event into a chain digest; serialization and
SHA-256 are library code, so they are the two fields of `EventCodec`.

The Rust reducer mutates in place and can fail half way. Recovery throws such a state away, and
so do these functions; a live context keeps it, and `InPlace.lean` computes it.
-/
namespace LocalAgent

open Encoding

/-- `serde_json::to_vec` on an event, and `Sha256`. -/
structure EventCodec where
  toVec : AgentEvent → Option (List UInt8)
  sha256 : List UInt8 → Bytes32

inductive TransitionError where
  | identityOrVersion | sequence | lifecycle | budget | loop | graph | effect | encoding
deriving DecidableEq, Repr

/-- `valid_recovery_mode` (recovery.rs:1172). -/
def validRecoveryMode : GraphNodeKind → GraphRecoveryMode → Bool
  | .retrieve, .freshRetrieval => true
  | .decision, .deterministicBoundary => true
  | .model, .never | .action, .never | .verify, .never | .complete, .never | .fail, .never => true
  | _, _ => false

/-- `continuation_for` (recovery.rs:1191). -/
def continuationFor : GraphRecoveryMode → ContinuationState
  | .never => .transientStateRequired
  | .freshRetrieval | .deterministicBoundary => .restartableBoundary

namespace DurableRunState

/-! ## Effects and retrievals -/

/-- Remove the first pending effect that the key names. -/
def removeFirst (key : PendingEffectKey) : List PendingEffect → Option (List PendingEffect)
  | [] => none
  | e :: es => if key.matches e then some es else (removeFirst key es).map (e :: ·)

/-- `remove_pending` (recovery.rs:972). -/
def removePending (s : DurableRunState) (key : PendingEffectKey) :
    Except TransitionError DurableRunState :=
  match removeFirst key s.pendingEffects with
  | none => .error .effect
  | some es => .ok { s with pendingEffects := es }

/-- The graph position in which a retrieval may start. -/
def inRetrieveNode (s : DurableRunState) : Bool :=
  match s.graphPosition with
  | some (.running _ _ .retrieve .freshRetrieval) => true
  | _ => false

/-- `start_knowledge_retrieval` (recovery.rs:982). -/
def startKnowledgeRetrieval (s : DurableRunState) (p : PendingKnowledgeRetrieval) :
    Except TransitionError DurableRunState :=
  if s.pendingKnowledgeRetrieval.isSome || !p.route.isValid || p.queryBytes = 0
      || p.queryBytes > maxQueryBytes
      || (s.loopPosition ≠ .phaseRunning .retrieve && !s.inRetrieveNode) then
    .error .effect
  else
    .ok { s with
      pendingKnowledgeRetrieval := some p
      restartableKnowledgeRetrieval := some p
      latestKnowledgeManifest := none
      continuation := .transientStateRequired }

/-- `finish_knowledge_retrieval` (recovery.rs:1018). -/
def finishKnowledgeRetrieval (s : DurableRunState) (id : KnowledgeRetrievalId) :
    Except TransitionError DurableRunState :=
  match s.pendingKnowledgeRetrieval with
  | none => .error .effect
  | some p =>
    if p.retrievalId ≠ id then .error .effect
    else .ok { s with pendingKnowledgeRetrieval := none }

/-- Drop the restart anchor of the graph, if there is a graph. -/
def clearAnchor (s : DurableRunState) : DurableRunState :=
  { s with graph := s.graph.map fun g => { g with restartAnchor := none } }

/-- The validity checks of `KnowledgeRetrievalCompleted` (recovery.rs:467-487). -/
def completionRejected (route : KnowledgeRouteMetadata) (snapshots : List KnowledgeSnapshotMetadata)
    (references : List KnowledgeEvidenceReference) (count : Nat) : Bool :=
  count ≠ references.length
    || references.length > maxDurableEvidenceReferences
    || snapshots.length > maxDurableKnowledgeBackends
    || references.any (fun r => !r.isValid)
    || snapshots.any (fun m => !m.isValid)
    || references.any (fun r => !route.backends.contains r.backend)
    || snapshots.any (fun m => !route.backends.contains m.backend)
    || !(snapshots.map KnowledgeSnapshotMetadata.backend).Nodup

/-! ## Loop events -/

/-- The position after a completed phase (recovery.rs:596-603). -/
def afterPhase : LoopPhase → DurableLoopPosition
  | .observe => .phaseReady .retrieve
  | .retrieve => .phaseReady .plan
  | .plan => .phaseReady .act
  | .act => .phaseReady .verify
  | .verify => .phaseReady .reflect
  | .reflect => .reflectCompleted

/-- `apply_loop` (recovery.rs:549). -/
def applyLoop (s : DurableRunState) : LoopEventKind → Except TransitionError DurableRunState
  | .iterationStarted iteration usage limit =>
    if !(s.loopPosition = .ready || s.loopPosition = .notStarted)
        || usage ≠ saturatingSucc s.context.usage.iterations
        || limit ≠ s.context.budget.maxIterations || iteration ≠ usage then .error .loop
    else .ok { s with
      context.usage := (BudgetUsage.withApprovalRequests s.context.usage.modelCalls
        s.context.usage.toolCalls usage s.context.usage.approvalRequests).withGraphSteps
          s.context.usage.graphSteps
      currentIteration := some iteration
      loopPosition := .phaseReady .observe
      continuation := .transientStateRequired }
  | .phaseEntered iteration phase =>
    if s.currentIteration ≠ some iteration || s.loopPosition ≠ .phaseReady phase then .error .loop
    else .ok { s with loopPosition := .phaseRunning phase }
  | .phaseCompleted iteration phase =>
    if s.currentIteration ≠ some iteration || s.loopPosition ≠ .phaseRunning phase then .error .loop
    else if phase = .retrieve && s.pendingKnowledgeRetrieval.isSome then .error .effect
    else .ok { s with
      loopPosition := afterPhase phase
      restartableKnowledgeRetrieval :=
        if phase = .retrieve then none else s.restartableKnowledgeRetrieval }
  | .reflectDecision iteration decision =>
    if s.currentIteration ≠ some iteration || s.loopPosition ≠ .reflectCompleted then .error .loop
    else .ok { s with
      completedIterations := saturatingSucc s.completedIterations
      loopPosition := .reflectDecided decision }
  | .iterationCompleted iteration =>
    if s.currentIteration ≠ some iteration then .error .loop
    else match s.loopPosition with
      | .reflectDecided .continue =>
        .ok { s with currentIteration := none, loopPosition := .ready,
                     continuation := .restartableBoundary }
      | .reflectDecided .complete | .reflectDecided .fail => .ok { s with loopPosition := .finished }
      | _ => .error .loop
  | .loopCompleted completedIterations =>
    if completedIterations ≠ s.completedIterations then .error .loop
    else .ok { s with loopPosition := .finished }
  | .loopFailed iteration _ =>
    if s.currentIteration ≠ some iteration then .error .loop
    else .ok { s with loopPosition := .finished }

/-! ## Graph events -/

/-- The step checks shared by `GraphNodeEntered` and `GraphNodeRestarted`
(recovery.rs:700-705, 772-777). -/
def stepRejected (s : DurableRunState) (g : DurableGraphState) (nodeKind : GraphNodeKind)
    (recovery : GraphRecoveryMode) (step limit : Nat) : Bool :=
  limit ≠ s.context.budget.maxGraphSteps || limit = 0 || limit > maxGraphStepsCeiling
    || step ≠ saturatingSucc g.steps || step ≠ saturatingSucc s.context.usage.graphSteps
    || !validRecoveryMode nodeKind recovery

/-- The update shared by `GraphNodeEntered` and `GraphNodeRestarted`: the node runs under a
new attempt, which becomes the restart anchor when it is a fresh retrieval. -/
def enterNode (s : DurableRunState) (g : DurableGraphState) (attemptId : GraphNodeAttemptId)
    (nodeId : GraphNodeId) (nodeKind : GraphNodeKind) (recovery : GraphRecoveryMode) (step : Nat) :
    DurableRunState :=
  { s with
    graph := some { g with
      steps := step
      position := .running attemptId nodeId nodeKind recovery
      restartAnchor :=
        if recovery = .freshRetrieval then some ⟨nodeId, attemptId⟩ else g.restartAnchor }
    context.usage := s.context.usage.withGraphSteps step
    continuation := .transientStateRequired }

/-- The `direct_restart` flag (recovery.rs:737-763). -/
def directRestart (position : DurableGraphPosition) (previous : Option GraphNodeAttemptId)
    (nodeId : GraphNodeId) (nodeKind : GraphNodeKind) (recovery : GraphRecoveryMode) : Bool :=
  match position with
  | .ready currentId currentKind currentRecovery =>
    currentId = nodeId && currentKind = nodeKind && currentRecovery = recovery
      && previous.isNone && recovery ≠ .never
  | .running currentAttempt currentId currentKind currentRecovery =>
    currentId = nodeId && currentKind = nodeKind && currentRecovery = recovery
      && previous = some currentAttempt && recovery ≠ .never
  | .notStarted | .waiting .. | .finished => false

/-- The `anchor_matches` flag (recovery.rs:764-768). -/
def anchorMatches (anchor : Option GraphRestartAnchor) (previous : Option GraphNodeAttemptId)
    (nodeId : GraphNodeId) (recovery : GraphRecoveryMode) : Bool :=
  anchor.any fun a => a.nodeId = nodeId && recovery = .freshRetrieval && previous = some a.attemptId

/-- Does the attempt run in the node? (recovery.rs:803-810). -/
def runningAt (position : DurableGraphPosition) (attemptId : GraphNodeAttemptId)
    (nodeId : GraphNodeId) : Bool :=
  match position with
  | .running currentAttempt currentNode _ _ => currentAttempt = attemptId && currentNode = nodeId
  | _ => false

/-- The position check of a terminal: a completed graph stands in a `Complete` node that cannot
be restarted, a failed one in any node (recovery.rs:945-956). -/
def terminalAt (position : DurableGraphPosition) (attemptId : GraphNodeAttemptId)
    (nodeId : GraphNodeId) (expectedKind : Option GraphNodeKind) : Bool :=
  match position with
  | .running currentAttempt currentNode nodeKind recovery =>
    currentAttempt = attemptId && currentNode = nodeId
      && expectedKind.all (nodeKind = ·) && (expectedKind.isNone || recovery = .never)
  | _ => false

/-- Does the stored contract name this graph? -/
def contractMatches (contract : RecoveryContract) (definitionDigest : Bytes32) : Bool :=
  match contract with
  | .graph _ expected => expected = definitionDigest
  | _ => false

/-- `finish_graph_terminal` (recovery.rs:936). -/
def finishGraphTerminal (s : DurableRunState) (attemptId : GraphNodeAttemptId)
    (nodeId : GraphNodeId) (steps : Nat) (expectedKind : Option GraphNodeKind)
    (outcome : RunOutcome) : Except TransitionError DurableRunState :=
  match s.graph with
  | none => .error .graph
  | some g =>
    if g.steps ≠ steps || !terminalAt g.position attemptId nodeId expectedKind
        || !s.pendingEffects.isEmpty || s.pendingKnowledgeRetrieval.isSome
        || s.context.status ≠ .running then .error .graph
    else .ok { s with
      graph := some { g with position := .finished, restartAnchor := none }
      context.status := .finished outcome
      continuation := .transientStateRequired }

/-- `apply_graph` (recovery.rs:651). -/
def applyGraph (s : DurableRunState) : GraphProgressEvent → Except TransitionError DurableRunState
  | .graphStarted definitionDigest startNode startKind startRecovery =>
    if s.graph.isSome || s.loopPosition ≠ .notStarted || s.context.status ≠ .running
        || !contractMatches s.recoveryContract definitionDigest
        || !validRecoveryMode startKind startRecovery then .error .graph
    else .ok { s with
      graph := some { definitionDigest, position := .ready startNode startKind startRecovery,
                      steps := 0, restartAnchor := none }
      continuation := continuationFor startRecovery }
  | .graphNodeEntered attemptId nodeId nodeKind recovery step limit =>
    match s.graph with
    | none => .error .graph
    | some g =>
      if g.position ≠ .ready nodeId nodeKind recovery
          || s.stepRejected g nodeKind recovery step limit then .error .graph
      else .ok (s.enterNode g attemptId nodeId nodeKind recovery step)
  | .graphNodeRestarted previous attemptId nodeId nodeKind recovery step limit =>
    match s.graph with
    | none => .error .graph
    | some g =>
      if (!directRestart g.position previous nodeId nodeKind recovery
            && !anchorMatches g.restartAnchor previous nodeId recovery)
          || s.stepRejected g nodeKind recovery step limit then .error .graph
      else .ok (s.enterNode g attemptId nodeId nodeKind recovery step)
  | .graphNodeCompleted attemptId nodeId _ nextNode nextKind nextRecovery =>
    match s.graph with
    | none => .error .graph
    | some g =>
      if !runningAt g.position attemptId nodeId || !s.pendingEffects.isEmpty
          || s.pendingKnowledgeRetrieval.isSome || !validRecoveryMode nextKind nextRecovery then
        .error .graph
      else .ok { s with
        graph := some { g with position := .ready nextNode nextKind nextRecovery }
        continuation := continuationFor nextRecovery }
  | .graphSuspended attemptId nodeId waitId approvalRequestId actionProposalId toolCallId
      actionDigest activeElapsedMillis =>
    match s.graph with
    | none => .error .graph
    | some g =>
      if g.position ≠ .running attemptId nodeId .action .never || !s.pendingEffects.isEmpty
          || s.pendingKnowledgeRetrieval.isSome
          || fromMillis activeElapsedMillis ≥ s.context.budget.maxElapsed then .error .graph
      else .ok { s with
        graph := some { g with
          position := .waiting attemptId nodeId waitId approvalRequestId actionProposalId
            toolCallId actionDigest activeElapsedMillis
          restartAnchor := none }
        continuation := .restartableBoundary }
  | .graphResumed attemptId nodeId waitId resumedAtUnixMillis =>
    match s.graph with
    | none => .error .graph
    | some g =>
      match g.position with
      | .waiting currentAttempt currentNode currentWait _ _ _ _ activeElapsedMillis =>
        match checkedSub resumedAtUnixMillis activeElapsedMillis with
        | none => .error .graph
        | some rebasedStartedAt =>
          if !(currentAttempt = attemptId && currentNode = nodeId && currentWait = waitId)
              || !s.pendingEffects.isEmpty then .error .graph
          else .ok { s with
            context.startedAtUnixMillis := some rebasedStartedAt
            graph := some { g with position := .running attemptId nodeId .action .never }
            continuation := .transientStateRequired }
      | _ => .error .graph
  | .graphCompleted attemptId nodeId steps =>
    s.finishGraphTerminal attemptId nodeId steps (some .complete) .completed
  | .graphFailed attemptId nodeId steps failure runFailure =>
    if runFailure ≠ .graph failure then .error .graph
    else s.finishGraphTerminal attemptId nodeId steps none (.failed runFailure)

/-! ## `apply_kind` -/

/-- The counter update of the five `BudgetUsage::with_approval_requests(..)` rebuilds. -/
def setUsage (s : DurableRunState) (modelCalls toolCalls iterations approvalRequests : Nat) :
    DurableRunState :=
  { s with context.usage :=
      (BudgetUsage.withApprovalRequests modelCalls toolCalls iterations
        approvalRequests).withGraphSteps s.context.usage.graphSteps }

/-- `apply_kind` (recovery.rs:287). -/
def applyKind (s : DurableRunState) : AgentEventKind → Except TransitionError DurableRunState
  | .runStarted startedAt =>
    if s.context.status ≠ .pending then .error .lifecycle
    else if s.context.startedAtUnixMillis.any (· ≠ startedAt) then .error .lifecycle
    else .ok { s with context.startedAtUnixMillis := some startedAt, context.status := .running }
  | .runFinished outcome =>
    if s.context.status ≠ .running then .error .lifecycle
    else .ok { s with context.status := .finished outcome }
  | .auditDegraded => .ok { s with context.auditDegraded := true }
  | .modelInvocationStarted modelCallId usage limit =>
    let u := s.context.usage
    if limit ≠ s.context.budget.maxModelCalls || usage ≠ saturatingSucc u.modelCalls then
      .error .budget
    else
      let s := s.setUsage usage u.toolCalls u.iterations u.approvalRequests
      let s := if s.graph.isSome then { s.clearAnchor with restartableKnowledgeRetrieval := none } else s
      .ok { s with
        pendingEffects := s.pendingEffects ++ [.model modelCallId]
        continuation := .transientStateRequired }
  | .modelInvocationCompleted modelCallId _ | .modelInvocationFailed modelCallId =>
    s.removePending (.model modelCallId)
  | .approvalRequested approvalRequestId _ _ _ _ usage limit =>
    let u := s.context.usage
    if limit ≠ s.context.budget.maxApprovalRequests || usage ≠ saturatingSucc u.approvalRequests then
      .error .budget
    else
      let s := s.setUsage u.modelCalls u.toolCalls u.iterations usage
      .ok { s with
        pendingEffects := s.pendingEffects ++ [.approval approvalRequestId]
        continuation := .transientStateRequired }
  | .approvalGranted approvalRequestId | .approvalDenied approvalRequestId
  | .approvalFailed approvalRequestId _ => s.removePending (.approval approvalRequestId)
  | .durableApprovalPrepared _ _ _ _ _ _ _ usage limit =>
    let u := s.context.usage
    if limit ≠ s.context.budget.maxApprovalRequests || usage ≠ saturatingSucc u.approvalRequests then
      .error .budget
    else .ok { s.setUsage u.modelCalls u.toolCalls u.iterations usage with
      continuation := .transientStateRequired }
  | .durableApprovalDecisionRecorded .. | .durableApprovalGranted .. | .durableApprovalDenied .. =>
    .ok s
  | .toolInvocationStarted toolCallId _ capability usage limit =>
    let u := s.context.usage
    if limit ≠ s.context.budget.maxToolCalls || usage ≠ saturatingSucc u.toolCalls then
      .error .budget
    else
      let s := s.setUsage u.modelCalls usage u.iterations u.approvalRequests
      .ok { s with
        pendingEffects := s.pendingEffects ++ [.tool toolCallId capability]
        continuation := .transientStateRequired }
  | .toolInvocationCompleted toolCallId | .toolInvocationDomainFailed toolCallId _
  | .toolInvocationAdapterFailed toolCallId => s.removePending (.tool toolCallId)
  | .knowledgeRetrievalStarted retrievalId route queryDigest queryBytes =>
    s.startKnowledgeRetrieval ⟨retrievalId, route, queryDigest, queryBytes⟩
  | .knowledgeRetrievalRestarted previous retrievalId route queryDigest queryBytes =>
    match s.pendingKnowledgeRetrieval with
    | none => .error .effect
    | some p =>
      if p.retrievalId ≠ previous || !p.matchesRequest route queryDigest queryBytes then
        .error .effect
      else { s with pendingKnowledgeRetrieval := none }.startKnowledgeRetrieval
        ⟨retrievalId, route, queryDigest, queryBytes⟩
  | .knowledgeRetrievalCompleted retrievalId snapshots references count _ _ manifestDigest =>
    match s.restartableKnowledgeRetrieval with
    | none => .error .effect
    | some attempt =>
      if completionRejected attempt.route snapshots references count then .error .effect
      else do
        let s ← s.finishKnowledgeRetrieval retrievalId
        return { s with latestKnowledgeManifest := some ⟨retrievalId, count, manifestDigest⟩ }
  | .knowledgeRetrievalFailed retrievalId _ => do
    let s ← s.finishKnowledgeRetrieval retrievalId
    return { s.clearAnchor with latestKnowledgeManifest := none }
  | .modelGroundingBound retrievalId modelCallId count manifestDigest =>
    match s.latestKnowledgeManifest with
    | none => .error .effect
    | some m =>
      if m ≠ ⟨retrievalId, count, manifestDigest⟩
          || !s.pendingEffects.any (· = .model modelCallId) then .error .effect
      else .ok { s with continuation := .transientStateRequired }
  | .loop event => s.applyLoop event
  | .graph event => s.applyGraph event
  | .actionProposed .. | .actionValidated .. | .actionRejected .. | .actionExecutionBound ..
  | .toolPolicyDenied .. | .containmentFailed .. =>
    .ok { s with continuation := .transientStateRequired }

/-! ## `apply` -/

/-- The sequence the next event must carry (recovery.rs:265-271). -/
def expectedSequence (s : DurableRunState) : Nat :=
  match s.lastSequence with
  | none => 0
  | some n => (checkedNext n).getD u64Max

/-- The last two writes of `apply`: the chain digest and the sequence (recovery.rs:273-283). -/
def chained (codec : EventCodec) (s : DurableRunState) (event : AgentEvent) (bytes : List UInt8) :
    DurableRunState :=
  { s with
    eventChainDigest := codec.sha256
      (beBytes 32 s.eventChainDigest.toNat ++ beBytes 8 bytes.length ++ bytes)
    lastSequence := some event.sequence }

/-- `DurableRunState::apply` (recovery.rs:259). -/
def apply (codec : EventCodec) (s : DurableRunState) (event : AgentEvent) :
    Except TransitionError DurableRunState :=
  if event.schemaVersion ≠ currentEventSchemaVersion || event.runId ≠ s.context.key.runId then
    .error .identityOrVersion
  else if event.sequence ≠ s.expectedSequence then .error .sequence
  else do
    let s' ← s.applyKind event.kind
    match codec.toVec event with
    | none => .error .encoding
    | some bytes => .ok (s'.chained codec event bytes)

/-- Replay a log from a state: the fold of `apply`, every application succeeding. -/
def replay (codec : EventCodec) (s : DurableRunState) (events : List AgentEvent) :
    Except TransitionError DurableRunState :=
  events.foldlM (apply codec) s

end DurableRunState
end LocalAgent
