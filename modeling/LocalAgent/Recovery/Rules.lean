import LocalAgent.Recovery.Reducer
import LocalAgent.Lib.Fold

/-!
# The reducer as rules

`applyKind` is a function with some forty branches, half of them refusals. What an accepted
event did to the state is said here once, as a relation with one rule per form of update:
`LoopRule`, `GraphRule` and `Rule`. Every later invariant of the reducer is a case analysis of
these rules and never unfolds `applyKind`.

Main theorems: `applyKind_rule` (an accepted event obeys a rule), `apply_ok` (what `apply` adds
to it), `replay_concat` (a log is read event by event).
-/
namespace LocalAgent

open FailingFold

/-! ## Classes of events -/

/-- The effect whose outcome a start event leaves open. -/
def AgentEventKind.starts : AgentEventKind → Option PendingEffect
  | .modelInvocationStarted id _ _ => some (.model id)
  | .approvalRequested id _ _ _ _ _ _ => some (.approval id)
  | .toolInvocationStarted id _ capability _ _ => some (.tool id capability)
  | _ => none

/-- The effect whose outcome a terminal event reports. -/
def AgentEventKind.resolves : AgentEventKind → Option PendingEffectKey
  | .modelInvocationCompleted id _ | .modelInvocationFailed id => some (.model id)
  | .approvalGranted id | .approvalDenied id | .approvalFailed id _ => some (.approval id)
  | .toolInvocationCompleted id | .toolInvocationDomainFailed id _
  | .toolInvocationAdapterFailed id => some (.tool id)
  | _ => none

/-- The events that only say that transient state exists (recovery.rs:541-546). -/
def AgentEventKind.isNote : AgentEventKind → Bool
  | .actionProposed .. | .actionValidated .. | .actionRejected .. | .actionExecutionBound ..
  | .toolPolicyDenied .. | .containmentFailed .. => true
  | _ => false

/-- The events of a decided durable wait, which change nothing in the state. -/
def AgentEventKind.isDecision : AgentEventKind → Bool
  | .durableApprovalDecisionRecorded .. | .durableApprovalGranted .. | .durableApprovalDenied .. =>
    true
  | _ => false

namespace DurableRunState

variable {codec : EventCodec} {s s' : DurableRunState} {e : AgentEvent} {k : AgentEventKind}

/-! ## Loop rules -/

inductive LoopRule (s : DurableRunState) : LoopEventKind → DurableRunState → Prop
  | iterationStarted {iteration usage limit}
      (position : s.loopPosition = .ready ∨ s.loopPosition = .notStarted)
      (counted : usage = saturatingSucc s.context.usage.iterations)
      (limited : limit = s.context.budget.maxIterations) (named : iteration = usage) :
      LoopRule s (.iterationStarted iteration usage limit) { s with
        context.usage := (BudgetUsage.withApprovalRequests s.context.usage.modelCalls
          s.context.usage.toolCalls usage s.context.usage.approvalRequests).withGraphSteps
            s.context.usage.graphSteps
        currentIteration := some iteration
        loopPosition := .phaseReady .observe
        continuation := .transientStateRequired }
  | phaseEntered {iteration phase} (current : s.currentIteration = some iteration)
      (position : s.loopPosition = .phaseReady phase) :
      LoopRule s (.phaseEntered iteration phase) { s with loopPosition := .phaseRunning phase }
  | phaseCompleted {iteration phase} (current : s.currentIteration = some iteration)
      (position : s.loopPosition = .phaseRunning phase)
      (settled : phase = .retrieve → s.pendingKnowledgeRetrieval = none) :
      LoopRule s (.phaseCompleted iteration phase) { s with
        loopPosition := afterPhase phase
        restartableKnowledgeRetrieval :=
          if phase = .retrieve then none else s.restartableKnowledgeRetrieval }
  | reflectDecision {iteration decision} (current : s.currentIteration = some iteration)
      (position : s.loopPosition = .reflectCompleted) :
      LoopRule s (.reflectDecision iteration decision) { s with
        completedIterations := saturatingSucc s.completedIterations
        loopPosition := .reflectDecided decision }
  | iterationContinued {iteration} (current : s.currentIteration = some iteration)
      (position : s.loopPosition = .reflectDecided .continue) :
      LoopRule s (.iterationCompleted iteration) { s with
        currentIteration := none, loopPosition := .ready, continuation := .restartableBoundary }
  | iterationStopped {iteration decision} (current : s.currentIteration = some iteration)
      (position : s.loopPosition = .reflectDecided decision) (stopped : decision ≠ .continue) :
      LoopRule s (.iterationCompleted iteration) { s with loopPosition := .finished }
  | loopCompleted {completed} (counted : completed = s.completedIterations) :
      LoopRule s (.loopCompleted completed) { s with loopPosition := .finished }
  | loopFailed {iteration kind} (current : s.currentIteration = some iteration) :
      LoopRule s (.loopFailed iteration kind) { s with loopPosition := .finished }

theorem applyLoop_rule {event : LoopEventKind} (h : s.applyLoop event = .ok s') :
    LoopRule s event s' := by
  cases event with
  | iterationStarted iteration usage limit =>
    simp only [applyLoop] at h
    split at h
    · cases h
    · rename_i hg
      simp only [Bool.or_eq_true, Bool.not_eq_true', decide_eq_true_eq, decide_eq_false_iff_not,
        ne_eq, not_or, not_not, Bool.or_eq_false_iff, not_and_or] at hg
      cases h
      exact .iterationStarted hg.1.1.1 hg.1.1.2 hg.1.2 hg.2
  | phaseEntered iteration phase =>
    simp only [applyLoop] at h
    split at h
    · cases h
    · rename_i hg
      simp only [Bool.or_eq_true, decide_eq_true_eq, ne_eq, not_or, not_not] at hg
      cases h
      exact .phaseEntered hg.1 hg.2
  | phaseCompleted iteration phase =>
    simp only [applyLoop] at h
    split at h
    · cases h
    · rename_i hg
      simp only [Bool.or_eq_true, decide_eq_true_eq, ne_eq, not_or, not_not] at hg
      split at h
      · cases h
      · rename_i hp
        simp only [Bool.and_eq_true, decide_eq_true_eq, not_and, Option.not_isSome_iff_eq_none] at hp
        cases h
        exact .phaseCompleted hg.1 hg.2 hp
  | reflectDecision iteration decision =>
    simp only [applyLoop] at h
    split at h
    · cases h
    · rename_i hg
      simp only [Bool.or_eq_true, decide_eq_true_eq, ne_eq, not_or, not_not] at hg
      cases h
      exact .reflectDecision hg.1 hg.2
  | iterationCompleted iteration =>
    simp only [applyLoop] at h
    split at h
    · cases h
    · rename_i hg
      rw [ne_eq, not_not] at hg
      split at h
      · rename_i hp
        cases h
        exact .iterationContinued hg hp
      · rename_i hp
        cases h
        exact .iterationStopped hg hp nofun
      · rename_i hp
        cases h
        exact .iterationStopped hg hp nofun
      · cases h
  | loopCompleted completed =>
    simp only [applyLoop] at h
    split at h
    · cases h
    · rename_i hg
      rw [ne_eq, not_not] at hg
      cases h
      exact .loopCompleted hg
  | loopFailed iteration kind =>
    simp only [applyLoop] at h
    split at h
    · cases h
    · rename_i hg
      rw [ne_eq, not_not] at hg
      cases h
      exact .loopFailed hg

/-! ## Graph rules -/

/-- The accepted form of `stepRejected`. -/
structure StepAccepted (s : DurableRunState) (g : DurableGraphState) (nodeKind : GraphNodeKind)
    (recovery : GraphRecoveryMode) (step limit : Nat) : Prop where
  limited : limit = s.context.budget.maxGraphSteps
  limit_pos : limit ≠ 0
  counted : step = saturatingSucc g.steps
  charged : step = saturatingSucc s.context.usage.graphSteps
  mode : validRecoveryMode nodeKind recovery = true

theorem stepAccepted_of_not_rejected {g : DurableGraphState} {nodeKind : GraphNodeKind}
    {recovery : GraphRecoveryMode} {step limit : Nat}
    (h : s.stepRejected g nodeKind recovery step limit = false) :
    s.StepAccepted g nodeKind recovery step limit := by
  simp only [stepRejected, Bool.or_eq_false_iff, decide_eq_false_iff_not, ne_eq, not_not,
    Bool.not_eq_false'] at h
  exact ⟨h.1.1.1.1.1, h.1.1.1.1.2, h.1.1.2, h.1.2, h.2⟩

inductive GraphRule (s : DurableRunState) : GraphProgressEvent → DurableRunState → Prop
  | graphStarted {digest node nodeKind recovery} (fresh : s.graph = none)
      (position : s.loopPosition = .notStarted) (running : s.context.status = .running)
      (contract : contractMatches s.recoveryContract digest = true) :
      GraphRule s (.graphStarted digest node nodeKind recovery) { s with
        graph := some { definitionDigest := digest, position := .ready node nodeKind recovery,
                        steps := 0, restartAnchor := none }
        continuation := continuationFor recovery }
  | graphNodeEntered {g attemptId nodeId nodeKind recovery step limit} (graph : s.graph = some g)
      (position : g.position = .ready nodeId nodeKind recovery)
      (accepted : s.StepAccepted g nodeKind recovery step limit) :
      GraphRule s (.graphNodeEntered attemptId nodeId nodeKind recovery step limit)
        (s.enterNode g attemptId nodeId nodeKind recovery step)
  | graphNodeRestarted {g previous attemptId nodeId nodeKind recovery step limit}
      (graph : s.graph = some g)
      (position : directRestart g.position previous nodeId nodeKind recovery = true ∨
        anchorMatches g.restartAnchor previous nodeId recovery = true)
      (accepted : s.StepAccepted g nodeKind recovery step limit) :
      GraphRule s (.graphNodeRestarted previous attemptId nodeId nodeKind recovery step limit)
        (s.enterNode g attemptId nodeId nodeKind recovery step)
  | graphNodeCompleted {g attemptId nodeId transition nextNode nextKind nextRecovery}
      (graph : s.graph = some g) (position : runningAt g.position attemptId nodeId = true)
      (settled : s.pendingEffects = []) (retrieved : s.pendingKnowledgeRetrieval = none) :
      GraphRule s (.graphNodeCompleted attemptId nodeId transition nextNode nextKind nextRecovery)
        { s with
          graph := some { g with position := .ready nextNode nextKind nextRecovery }
          continuation := continuationFor nextRecovery }
  | graphSuspended {g attemptId nodeId waitId approvalRequestId actionProposalId toolCallId
        actionDigest active} (graph : s.graph = some g)
      (position : g.position = .running attemptId nodeId .action .never)
      (settled : s.pendingEffects = []) (retrieved : s.pendingKnowledgeRetrieval = none) :
      GraphRule s (.graphSuspended attemptId nodeId waitId approvalRequestId actionProposalId
          toolCallId actionDigest active)
        { s with
          graph := some { g with
            position := .waiting attemptId nodeId waitId approvalRequestId actionProposalId
              toolCallId actionDigest active
            restartAnchor := none }
          continuation := .restartableBoundary }
  | graphResumed {g attemptId nodeId waitId approvalRequestId actionProposalId toolCallId
        actionDigest active resumedAt rebased} (graph : s.graph = some g)
      (position : g.position = .waiting attemptId nodeId waitId approvalRequestId actionProposalId
        toolCallId actionDigest active)
      (settled : s.pendingEffects = []) (clock : checkedSub resumedAt active = some rebased) :
      GraphRule s (.graphResumed attemptId nodeId waitId resumedAt) { s with
        context.startedAtUnixMillis := some rebased
        graph := some { g with position := .running attemptId nodeId .action .never }
        continuation := .transientStateRequired }
  | graphFinished {g event outcome} (graph : s.graph = some g)
      (terminal : (∃ a n steps, event = .graphCompleted a n steps ∧ outcome = .completed) ∨
        ∃ a n steps f, event = .graphFailed a n steps f (.graph f) ∧
          outcome = .failed (.graph f))
      (settled : s.pendingEffects = []) (retrieved : s.pendingKnowledgeRetrieval = none)
      (running : s.context.status = .running)
      (place : ∃ a n, runningAt g.position a n = true) :
      GraphRule s event { s with
        graph := some { g with position := .finished, restartAnchor := none }
        context.status := .finished outcome
        continuation := .transientStateRequired }

theorem finishGraphTerminal_ok {attemptId nodeId steps expectedKind outcome}
    (h : s.finishGraphTerminal attemptId nodeId steps expectedKind outcome = .ok s') :
    ∃ g, s.graph = some g ∧ s.pendingEffects = [] ∧ s.pendingKnowledgeRetrieval = none ∧
      s.context.status = .running ∧ runningAt g.position attemptId nodeId = true ∧ s' = { s with
        graph := some { g with position := .finished, restartAnchor := none }
        context.status := .finished outcome
        continuation := .transientStateRequired } := by
  unfold finishGraphTerminal at h
  split at h
  · cases h
  · rename_i g hgraph
    split at h
    · cases h
    · rename_i hg
      simp only [Bool.or_eq_true, Bool.not_eq_true', decide_eq_true_eq, not_or, not_not,
        Bool.not_eq_false, List.isEmpty_iff, Option.not_isSome_iff_eq_none, ne_eq] at hg
      cases h
      have hplace : runningAt g.position attemptId nodeId = true := by
        have hterminal := hg.1.1.1.2
        unfold terminalAt at hterminal
        split at hterminal
        · rename_i hposition
          simp only [Bool.and_eq_true] at hterminal
          rw [hposition]
          exact Bool.and_eq_true_iff.mpr hterminal.1.1
        · cases hterminal
      exact ⟨g, hgraph, hg.1.1.2, hg.1.2, hg.2, hplace, rfl⟩

theorem applyGraph_rule {event : GraphProgressEvent} (h : s.applyGraph event = .ok s') :
    GraphRule s event s' := by
  cases event with
  | graphStarted digest node nodeKind recovery =>
    simp only [applyGraph] at h
    split at h
    · cases h
    · rename_i hg
      simp only [Bool.or_eq_true, Bool.not_eq_true', decide_eq_true_eq, not_or, not_not,
        Bool.not_eq_false, Option.not_isSome_iff_eq_none, ne_eq] at hg
      cases h
      exact .graphStarted hg.1.1.1.1 hg.1.1.1.2 hg.1.1.2 hg.1.2
  | graphNodeEntered attemptId nodeId nodeKind recovery step limit =>
    simp only [applyGraph] at h
    split at h
    · cases h
    · rename_i g hgraph
      split at h
      · cases h
      · rename_i hg
        simp only [Bool.or_eq_true, decide_eq_true_eq, not_or, not_not, Bool.not_eq_true, ne_eq] at hg
        cases h
        exact .graphNodeEntered hgraph hg.1 (stepAccepted_of_not_rejected hg.2)
  | graphNodeRestarted previous attemptId nodeId nodeKind recovery step limit =>
    simp only [applyGraph] at h
    split at h
    · cases h
    · rename_i g hgraph
      split at h
      · cases h
      · rename_i hg
        simp only [Bool.or_eq_true, Bool.and_eq_true, Bool.not_eq_true', not_or, not_and_or,
          Bool.not_eq_false, Bool.not_eq_true] at hg
        cases h
        exact .graphNodeRestarted hgraph hg.1 (stepAccepted_of_not_rejected hg.2)
  | graphNodeCompleted attemptId nodeId transition nextNode nextKind nextRecovery =>
    simp only [applyGraph] at h
    split at h
    · cases h
    · rename_i g hgraph
      split at h
      · cases h
      · rename_i hg
        simp only [Bool.or_eq_true, Bool.not_eq_true', not_or, Bool.not_eq_false,
          List.isEmpty_iff, Option.not_isSome_iff_eq_none] at hg
        cases h
        exact .graphNodeCompleted hgraph hg.1.1.1 hg.1.1.2 hg.1.2
  | graphSuspended attemptId nodeId waitId approvalRequestId actionProposalId toolCallId
      actionDigest active =>
    simp only [applyGraph] at h
    split at h
    · cases h
    · rename_i g hgraph
      split at h
      · cases h
      · rename_i hg
        simp only [Bool.or_eq_true, Bool.not_eq_true', decide_eq_true_eq, not_or, not_not,
          Bool.not_eq_false, List.isEmpty_iff, Option.not_isSome_iff_eq_none, ne_eq] at hg
        cases h
        exact .graphSuspended hgraph hg.1.1.1 hg.1.1.2 hg.1.2
  | graphResumed attemptId nodeId waitId resumedAt =>
    simp only [applyGraph] at h
    split at h
    · cases h
    · rename_i g hgraph
      split at h
      · rename_i hpos
        split at h
        · cases h
        · rename_i hclock
          split at h
          · cases h
          · rename_i hg
            simp only [Bool.or_eq_true, Bool.not_eq_true', Bool.and_eq_false_iff,
              decide_eq_false_iff_not, not_or, not_not, Bool.not_eq_false, List.isEmpty_iff] at hg
            obtain ⟨⟨⟨rfl, rfl⟩, rfl⟩, hset⟩ := hg
            cases h
            exact .graphResumed hgraph hpos hset hclock
      · cases h
  | graphCompleted attemptId nodeId steps =>
    obtain ⟨g, hgraph, hset, hret, hrun, hplace, rfl⟩ := finishGraphTerminal_ok h
    exact .graphFinished hgraph (.inl ⟨_, _, _, rfl, rfl⟩) hset hret hrun ⟨_, _, hplace⟩
  | graphFailed attemptId nodeId steps failure runFailure =>
    simp only [applyGraph] at h
    split at h
    · cases h
    · rename_i hg
      rw [ne_eq, not_not] at hg
      subst hg
      obtain ⟨g, hgraph, hset, hret, hrun, hplace, rfl⟩ := finishGraphTerminal_ok h
      exact .graphFinished hgraph (.inr ⟨_, _, _, _, rfl, rfl⟩) hset hret hrun ⟨_, _, hplace⟩

/-! ## The rules of `apply_kind` -/

/-- The state after an accepted start of a retrieval. -/
def retrievalOpened (s : DurableRunState) (p : PendingKnowledgeRetrieval) : DurableRunState :=
  { s with
    pendingKnowledgeRetrieval := some p
    restartableKnowledgeRetrieval := some p
    latestKnowledgeManifest := none
    continuation := .transientStateRequired }

inductive Rule (s : DurableRunState) : AgentEventKind → DurableRunState → Prop
  | runStarted {startedAt} (pending : s.context.status = .pending)
      (agrees : ∀ t, s.context.startedAtUnixMillis = some t → t = startedAt) :
      Rule s (.runStarted startedAt)
        { s with context.startedAtUnixMillis := some startedAt, context.status := .running }
  | runFinished {outcome} (running : s.context.status = .running) :
      Rule s (.runFinished outcome) { s with context.status := .finished outcome }
  | auditDegraded : Rule s .auditDegraded { s with context.auditDegraded := true }
  | modelStarted {id usage limit} (limited : limit = s.context.budget.maxModelCalls)
      (counted : usage = saturatingSucc s.context.usage.modelCalls) :
      Rule s (.modelInvocationStarted id usage limit) { s with
        context.usage := (s.setUsage usage s.context.usage.toolCalls s.context.usage.iterations
          s.context.usage.approvalRequests).context.usage
        graph := s.clearAnchor.graph
        restartableKnowledgeRetrieval :=
          if s.graph.isSome then none else s.restartableKnowledgeRetrieval
        pendingEffects := s.pendingEffects ++ [.model id]
        continuation := .transientStateRequired }
  | approvalRequested {id proposalId callId toolName capability usage limit}
      (limited : limit = s.context.budget.maxApprovalRequests)
      (counted : usage = saturatingSucc s.context.usage.approvalRequests) :
      Rule s (.approvalRequested id proposalId callId toolName capability usage limit)
        { s.setUsage s.context.usage.modelCalls s.context.usage.toolCalls
            s.context.usage.iterations usage with
          pendingEffects := s.pendingEffects ++ [.approval id]
          continuation := .transientStateRequired }
  | durableApprovalPrepared {waitId requestId proposalId callId digest binding contract usage limit}
      (limited : limit = s.context.budget.maxApprovalRequests)
      (counted : usage = saturatingSucc s.context.usage.approvalRequests) :
      Rule s (.durableApprovalPrepared waitId requestId proposalId callId digest binding contract
          usage limit)
        { s.setUsage s.context.usage.modelCalls s.context.usage.toolCalls
            s.context.usage.iterations usage with continuation := .transientStateRequired }
  | toolStarted {id toolName capability usage limit}
      (limited : limit = s.context.budget.maxToolCalls)
      (counted : usage = saturatingSucc s.context.usage.toolCalls) :
      Rule s (.toolInvocationStarted id toolName capability usage limit)
        { s.setUsage s.context.usage.modelCalls usage s.context.usage.iterations
            s.context.usage.approvalRequests with
          pendingEffects := s.pendingEffects ++ [.tool id capability]
          continuation := .transientStateRequired }
  | resolved {kind key es} (terminal : AgentEventKind.resolves kind = some key)
      (removed : removeFirst key s.pendingEffects = some es) :
      Rule s kind { s with pendingEffects := es }
  | decided {kind} (decision : AgentEventKind.isDecision kind = true) : Rule s kind s
  | noted {kind} (note : AgentEventKind.isNote kind = true) :
      Rule s kind { s with continuation := .transientStateRequired }
  | retrievalStarted {id route digest bytes} (idle : s.pendingKnowledgeRetrieval = none)
      (place : s.loopPosition = .phaseRunning .retrieve ∨ s.inRetrieveNode = true) :
      Rule s (.knowledgeRetrievalStarted id route digest bytes)
        (s.retrievalOpened ⟨id, route, digest, bytes⟩)
  | retrievalRestarted {previous id route digest bytes p}
      (pending : s.pendingKnowledgeRetrieval = some p) (same : p.retrievalId = previous)
      (place : s.loopPosition = .phaseRunning .retrieve ∨ s.inRetrieveNode = true) :
      Rule s (.knowledgeRetrievalRestarted previous id route digest bytes)
        (s.retrievalOpened ⟨id, route, digest, bytes⟩)
  | retrievalCompleted {id snapshots references count truncated degraded manifest p}
      (pending : s.pendingKnowledgeRetrieval = some p) (same : p.retrievalId = id) :
      Rule s (.knowledgeRetrievalCompleted id snapshots references count truncated degraded manifest)
        { s with
          pendingKnowledgeRetrieval := none
          latestKnowledgeManifest := some ⟨id, count, manifest⟩ }
  | retrievalFailed {id kind p}
      (pending : s.pendingKnowledgeRetrieval = some p) (same : p.retrievalId = id) :
      Rule s (.knowledgeRetrievalFailed id kind)
        { s with
          pendingKnowledgeRetrieval := none
          graph := s.clearAnchor.graph
          latestKnowledgeManifest := none }
  | groundingBound {retrievalId modelCallId count manifest} :
      Rule s (.modelGroundingBound retrievalId modelCallId count manifest)
        { s with continuation := .transientStateRequired }
  | loop {event next} (rule : LoopRule s event next) : Rule s (.loop event) next
  | graph {event next} (rule : GraphRule s event next) : Rule s (.graph event) next

theorem removePending_ok {key : PendingEffectKey} (h : s.removePending key = .ok s') :
    ∃ es, removeFirst key s.pendingEffects = some es ∧ s' = { s with pendingEffects := es } := by
  unfold removePending at h
  split at h
  · cases h
  · rename_i es hes
    cases h
    exact ⟨es, hes, rfl⟩

theorem startKnowledgeRetrieval_ok {p : PendingKnowledgeRetrieval}
    (h : s.startKnowledgeRetrieval p = .ok s') :
    s.pendingKnowledgeRetrieval = none ∧
      (s.loopPosition = .phaseRunning .retrieve ∨ s.inRetrieveNode = true) ∧
      s' = s.retrievalOpened p := by
  unfold startKnowledgeRetrieval at h
  split at h
  · cases h
  · rename_i hg
    simp only [Bool.or_eq_true, Bool.and_eq_true, Bool.not_eq_true', decide_eq_true_eq, not_or,
      not_and_or, not_not, Bool.not_eq_false, Option.not_isSome_iff_eq_none, ne_eq] at hg
    cases h
    exact ⟨hg.1.1.1.1, hg.2, rfl⟩

theorem finishKnowledgeRetrieval_ok {id : KnowledgeRetrievalId}
    (h : s.finishKnowledgeRetrieval id = .ok s') :
    ∃ p, s.pendingKnowledgeRetrieval = some p ∧ p.retrievalId = id ∧
      s' = { s with pendingKnowledgeRetrieval := none } := by
  unfold finishKnowledgeRetrieval at h
  split at h
  · cases h
  · rename_i p hp
    split at h
    · cases h
    · rename_i hid
      cases h
      exact ⟨p, hp, not_not.mp hid, rfl⟩

/-- The budget guards of the four counted starts. -/
theorem not_budget_rejected {limit maximum usage next : Nat}
    (h : ¬ ((limit ≠ maximum || usage ≠ next) = true)) : limit = maximum ∧ usage = next := by
  simpa only [Bool.or_eq_true, decide_eq_true_eq, not_or, not_not, ne_eq] using h

/-- **Every accepted event obeys a rule.** -/
theorem applyKind_rule (h : s.applyKind k = .ok s') : Rule s k s' := by
  cases k with
  | loop event => exact .loop (applyLoop_rule h)
  | graph event => exact .graph (applyGraph_rule h)
  | auditDegraded =>
    cases h
    exact .auditDegraded
  | runStarted startedAt =>
    simp only [applyKind] at h
    split at h
    · cases h
    · rename_i hs
      split at h
      · cases h
      · rename_i ht
        cases h
        refine .runStarted (not_not.mp hs) fun t heq => ?_
        rw [heq] at ht
        simpa using ht
  | runFinished outcome =>
    simp only [applyKind] at h
    split at h
    · cases h
    · rename_i hs
      cases h
      exact .runFinished (not_not.mp hs)
  | modelInvocationStarted id usage limit =>
    simp only [applyKind] at h
    split at h
    · cases h
    · rename_i hb
      obtain ⟨hl, hu⟩ := not_budget_rejected hb
      rw [← Except.ok.inj h]
      have rule : Rule s (.modelInvocationStarted id usage limit) _ := .modelStarted hl hu
      cases hgraph : s.graph with
      | none => simpa [setUsage, clearAnchor, hgraph] using rule
      | some g => simpa [setUsage, clearAnchor, hgraph] using rule
  | approvalRequested =>
    simp only [applyKind] at h
    split at h
    · cases h
    · rename_i hb
      cases h
      exact .approvalRequested (not_budget_rejected hb).1 (not_budget_rejected hb).2
  | durableApprovalPrepared =>
    simp only [applyKind] at h
    split at h
    · cases h
    · rename_i hb
      cases h
      exact .durableApprovalPrepared (not_budget_rejected hb).1 (not_budget_rejected hb).2
  | toolInvocationStarted =>
    simp only [applyKind] at h
    split at h
    · cases h
    · rename_i hb
      cases h
      exact .toolStarted (not_budget_rejected hb).1 (not_budget_rejected hb).2
  | modelInvocationCompleted | modelInvocationFailed | approvalGranted | approvalDenied
  | approvalFailed | toolInvocationCompleted | toolInvocationDomainFailed
  | toolInvocationAdapterFailed =>
    obtain ⟨es, hes, rfl⟩ := removePending_ok h
    exact .resolved rfl hes
  | durableApprovalDecisionRecorded | durableApprovalGranted | durableApprovalDenied =>
    cases h
    exact .decided rfl
  | actionProposed | actionValidated | actionRejected | actionExecutionBound | toolPolicyDenied
  | containmentFailed =>
    cases h
    exact .noted rfl
  | knowledgeRetrievalStarted id route digest bytes =>
    obtain ⟨hidle, hplace, rfl⟩ := startKnowledgeRetrieval_ok h
    exact .retrievalStarted hidle hplace
  | knowledgeRetrievalRestarted previous id route digest bytes =>
    simp only [applyKind] at h
    split at h
    · cases h
    · rename_i p hp
      split at h
      · cases h
      · rename_i hg
        simp only [Bool.or_eq_true, decide_eq_true_eq, not_or, not_not, ne_eq] at hg
        obtain ⟨-, hplace, rfl⟩ := startKnowledgeRetrieval_ok h
        exact .retrievalRestarted hp hg.1 hplace
  | knowledgeRetrievalCompleted id snapshots references count truncated degraded manifest =>
    simp only [applyKind] at h
    split at h
    · cases h
    · split at h
      · cases h
      · obtain ⟨m, hm, h⟩ := bind_eq_ok.mp h
        obtain ⟨p, hp, hid, rfl⟩ := finishKnowledgeRetrieval_ok hm
        cases h
        exact .retrievalCompleted hp hid
  | knowledgeRetrievalFailed id kind =>
    obtain ⟨m, hm, h⟩ := bind_eq_ok.mp h
    obtain ⟨p, hp, hid, rfl⟩ := finishKnowledgeRetrieval_ok hm
    cases h
    exact .retrievalFailed hp hid
  | modelGroundingBound =>
    simp only [applyKind] at h
    split at h
    · cases h
    · split at h
      · cases h
      · cases h
        exact .groundingBound

/-! ## `apply` and replay -/

/-- What no rule touches: the identity of the run, and the two fields `apply` writes itself. -/
structure SameRun (s s' : DurableRunState) : Prop where
  key : s'.context.key = s.context.key
  budget : s'.context.budget = s.context.budget
  contract : s'.recoveryContract = s.recoveryContract
  lastSequence : s'.lastSequence = s.lastSequence
  digest : s'.eventChainDigest = s.eventChainDigest

theorem Rule.sameRun (h : Rule s k s') : SameRun s s' := by
  cases h with
  | loop rule => cases rule <;> exact ⟨rfl, rfl, rfl, rfl, rfl⟩
  | graph rule => cases rule <;> exact ⟨rfl, rfl, rfl, rfl, rfl⟩
  | _ => exact ⟨rfl, rfl, rfl, rfl, rfl⟩

/-- What an event that `apply` accepts looks like, and what it leaves. -/
structure Accepted (codec : EventCodec) (s : DurableRunState) (e : AgentEvent)
    (s' : DurableRunState) : Prop where
  version : e.schemaVersion = currentEventSchemaVersion
  run : e.runId = s.context.key.runId
  sequence : e.sequence = s.expectedSequence
  rule : ∃ m bytes, s.applyKind e.kind = .ok m ∧ Rule s e.kind m ∧ codec.toVec e = some bytes ∧
    s' = m.chained codec e bytes

/-- **Inversion of `apply`.** -/
theorem apply_ok (h : s.apply codec e = .ok s') : Accepted codec s e s' := by
  unfold apply at h
  split at h
  · cases h
  · rename_i hid
    simp only [Bool.or_eq_true, decide_eq_true_eq, not_or, not_not, ne_eq] at hid
    split at h
    · cases h
    · rename_i hseq
      obtain ⟨m, hm, h⟩ := bind_eq_ok.mp h
      split at h
      · cases h
      · rename_i bytes hbytes
        exact ⟨hid.1, hid.2, not_not.mp hseq, m, bytes, hm, applyKind_rule hm, hbytes,
          (Except.ok.inj h).symm⟩

theorem apply_lastSequence (h : s.apply codec e = .ok s') : s'.lastSequence = some e.sequence := by
  obtain ⟨m, bytes, -, -, -, rfl⟩ := (apply_ok h).rule
  rfl

/-- The identity of the run is the same in every state of a replay. -/
theorem apply_identity (h : s.apply codec e = .ok s') :
    s'.context.key = s.context.key ∧ s'.context.budget = s.context.budget ∧
      s'.recoveryContract = s.recoveryContract := by
  obtain ⟨m, bytes, -, hrule, -, rfl⟩ := (apply_ok h).rule
  exact ⟨hrule.sameRun.key, hrule.sameRun.budget, hrule.sameRun.contract⟩

theorem replay_identity {events : List AgentEvent} (h : s.replay codec events = .ok s') :
    s'.context.key = s.context.key ∧ s'.context.budget = s.context.budget ∧
      s'.recoveryContract = s.recoveryContract := by
  refine invariant (I := fun t => t.context.key = s.context.key ∧
    t.context.budget = s.context.budget ∧ t.recoveryContract = s.recoveryContract)
    ⟨rfl, rfl, rfl⟩ ?_ h
  rintro e m m' ⟨hk, hb, hc⟩ hm
  obtain ⟨hk', hb', hc'⟩ := apply_identity hm
  exact ⟨hk'.trans hk, hb'.trans hb, hc'.trans hc⟩

@[simp] theorem replay_nil : s.replay codec [] = .ok s := rfl

theorem replay_append {l₁ l₂ : List AgentEvent} :
    s.replay codec (l₁ ++ l₂) = .ok s' ↔
      ∃ m, s.replay codec l₁ = .ok m ∧ m.replay codec l₂ = .ok s' :=
  foldlM_append_ok

theorem replay_cons {l : List AgentEvent} :
    s.replay codec (e :: l) = .ok s' ↔
      ∃ m, s.apply codec e = .ok m ∧ m.replay codec l = .ok s' :=
  foldlM_cons_ok

theorem replay_concat {l : List AgentEvent} :
    s.replay codec (l ++ [e]) = .ok s' ↔
      ∃ m, s.replay codec l = .ok m ∧ m.apply codec e = .ok s' :=
  foldlM_concat_ok

end DurableRunState
end LocalAgent
