import LocalAgent.Recovery.Rules

/-!
# Status, audit flag and counters along a replay

The context keeps its own copy of three things the reducer also keeps: the status, the
`audit_degraded` flag and the budget counters. This file says how an accepted event moves the
reducer's copies, and that the flag, which the harness also sets without an event, is never read
by the reducer (`apply_setAuditDegraded`).
-/
namespace LocalAgent

open FailingFold

/-- `RunFinished`, the event the store takes for the end of a run. -/
def AgentEventKind.isRunFinished : AgentEventKind → Bool
  | .runFinished _ => true
  | _ => false

def AgentEventKind.isRunStarted : AgentEventKind → Bool
  | .runStarted _ => true
  | _ => false

/-- `GraphCompleted` and `GraphFailed`. -/
def AgentEventKind.isGraphTerminal : AgentEventKind → Bool
  | .graph (.graphCompleted ..) | .graph (.graphFailed ..) => true
  | _ => false

/-- The events that change the status of a run. -/
def AgentEventKind.isLifecycle : AgentEventKind → Bool
  | .runStarted _ | .runFinished _ | .graph (.graphCompleted ..) | .graph (.graphFailed ..) => true
  | _ => false

namespace DurableRunState

variable {codec : EventCodec} {s s' t : DurableRunState} {e : AgentEvent} {k : AgentEventKind}

/-! ## Status -/

theorem Rule.status (h : Rule s k s') (hk : k.isLifecycle = false) :
    s'.context.status = s.context.status := by
  cases h with
  | runStarted | runFinished => cases hk
  | loop rule => cases rule <;> rfl
  | graph rule =>
    cases rule with
    | graphFinished _ terminal =>
      obtain ⟨a, n, steps, rfl, -⟩ | ⟨a, n, steps, f, rfl, -⟩ := terminal <;> cases hk
    | _ => rfl
  | _ => rfl

/-- A finished run stays finished. -/
theorem Rule.isFinished (h : Rule s k s') (hs : s.context.status.isFinished = true) :
    s'.context.status.isFinished = true := by
  by_cases hk : k.isLifecycle = false
  · rw [h.status hk]
    exact hs
  · cases h with
    | runStarted pending =>
      rw [pending] at hs
      cases hs
    | runFinished => rfl
    | graph rule =>
      cases rule with
      | graphFinished => rfl
      | _ => exact absurd rfl hk
    | loop => exact absurd rfl hk
    | resolved terminal =>
      refine absurd ?_ hk
      cases k <;> first | rfl | cases terminal
    | decided decision =>
      refine absurd ?_ hk
      cases k <;> first | rfl | cases decision
    | noted note =>
      refine absurd ?_ hk
      cases k <;> first | rfl | cases note
    | _ => exact absurd rfl hk

theorem apply_isRunFinished (h : s.apply codec e = .ok s') (hk : e.kind.isRunFinished = true) :
    s'.context.status.isFinished = true := by
  obtain ⟨m, bytes, -, hrule, -, rfl⟩ := (apply_ok h).rule
  generalize e.kind = k at hrule hk
  cases k with
  | runFinished outcome =>
    cases hrule with
    | runFinished => rfl
    | resolved terminal => cases terminal
    | decided decision => cases decision
    | noted note => cases note
  | _ => cases hk

theorem apply_isFinished (h : s.apply codec e = .ok s') (hs : s.context.status.isFinished = true) :
    s'.context.status.isFinished = true := by
  obtain ⟨m, bytes, -, hrule, -, rfl⟩ := (apply_ok h).rule
  exact hrule.isFinished hs

/-- A log with `RunFinished` replays to a finished run. -/
theorem replay_isFinished {events : List AgentEvent} (h : s.replay codec events = .ok t)
    (hfin : events.any (fun e => e.kind.isRunFinished) = true) :
    t.context.status.isFinished = true := by
  refine history (R := fun l m => l.any (fun e => e.kind.isRunFinished) = true →
    m.context.status.isFinished = true) (by simp) ?_ h hfin
  intro l e m m' _ ih hm hany
  rw [List.any_append, Bool.or_eq_true] at hany
  rcases hany with hold | hlast
  · exact apply_isFinished hm (ih hold)
  · exact apply_isRunFinished hm (by simpa using hlast)

/-! ## The audit flag -/

theorem Rule.auditDegraded_eq (h : Rule s k s') :
    s'.context.auditDegraded = (s.context.auditDegraded || decide (k = .auditDegraded)) := by
  cases h with
  | auditDegraded => simp
  | loop rule => cases rule <;> simp
  | graph rule => cases rule <;> simp [enterNode]
  | resolved terminal =>
    have hk : k ≠ .auditDegraded := by rintro rfl; cases terminal
    simp [hk]
  | decided decision =>
    have hk : k ≠ .auditDegraded := by rintro rfl; cases decision
    simp [hk]
  | noted note =>
    have hk : k ≠ .auditDegraded := by rintro rfl; cases note
    simp [hk]
  | _ => simp [setUsage, retrievalOpened]

theorem apply_auditDegraded (h : s.apply codec e = .ok s') :
    s'.context.auditDegraded = (s.context.auditDegraded || decide (e.kind = .auditDegraded)) := by
  obtain ⟨m, bytes, -, hrule, -, rfl⟩ := (apply_ok h).rule
  exact hrule.auditDegraded_eq

/-- The flag of a replayed log: set exactly if `AuditDegraded` is in the log. -/
theorem replay_auditDegraded {record : RunRecord} {events : List AgentEvent}
    (h : (initial record).replay codec events = .ok t) :
    t.context.auditDegraded = events.any fun e => decide (e.kind = .auditDegraded) := by
  refine history (R := fun l m => m.context.auditDegraded =
    l.any fun e => decide (e.kind = .auditDegraded)) rfl ?_ h
  intro l e m m' _ ih hm
  rw [apply_auditDegraded hm, ih]
  simp

theorem setAuditDegraded_of_degraded (h : s.context.auditDegraded = true) :
    s.setAuditDegraded = s := by
  cases s with
  | mk context =>
    cases context
    simp_all [setAuditDegraded]

theorem map_ite {ε α β : Type} {p : Prop} [Decidable p] {a b : Except ε α} (f : α → β) :
    (if p then a else b).map f = if p then a.map f else b.map f := by
  split <;> rfl

/-- The audit flag, the chain digest and the last number, which no event reads. -/
def stamp (flag : Bool) (digest : Bytes32) (last : Option Nat) (s : DurableRunState) :
    DurableRunState :=
  { s with context.auditDegraded := flag, eventChainDigest := digest, lastSequence := last }

section Stamp

variable {flag : Bool} {digest : Bytes32} {last : Option Nat}

theorem applyLoop_stamp {event : LoopEventKind} :
    (s.stamp flag digest last).applyLoop event =
      (s.applyLoop event).map (stamp flag digest last) := by
  cases event with
  | iterationCompleted iteration =>
    by_cases hcurrent : s.currentIteration = some iteration
    · cases hposition : s.loopPosition with
      | reflectDecided decision =>
        cases decision <;> simp [applyLoop, stamp, hcurrent, hposition, Except.map]
      | _ => simp [applyLoop, stamp, hcurrent, hposition, Except.map]
    · simp [applyLoop, stamp, hcurrent, Except.map]
  | _ =>
    simp only [applyLoop, map_ite]
    rfl

theorem applyGraph_stamp {event : GraphProgressEvent} :
    (s.stamp flag digest last).applyGraph event =
      (s.applyGraph event).map (stamp flag digest last) := by
  obtain ⟨context, contract, seq, chain, current, completed, position, continuation, effects,
    retrieval, restartable, manifest, graph⟩ := s
  cases event with
  | graphStarted =>
    simp only [applyGraph, map_ite]
    rfl
  | graphResumed attemptId nodeId waitId resumedAt =>
    cases graph with
    | none => rfl
    | some g =>
      obtain ⟨definition, position, steps, anchor⟩ := g
      cases position with
      | waiting a n w r p tool d active =>
        cases hclock : checkedSub resumedAt active with
        | none => simp [applyGraph, stamp, hclock, Except.map]
        | some rebased =>
          simp only [applyGraph, stamp, hclock, map_ite]
          rfl
      | _ => rfl
  | graphFailed attemptId nodeId steps failure runFailure =>
    cases graph with
    | none =>
      simp only [applyGraph, map_ite]
      rfl
    | some g =>
      simp only [applyGraph, finishGraphTerminal, stamp, map_ite]
      rfl
  | _ =>
    cases graph with
    | none => rfl
    | some g =>
      simp only [applyGraph, finishGraphTerminal, stamp, map_ite]
      rfl

/-- **No event reads the stamp of a state**, and only one writes to it. -/
theorem applyKind_stamp (hk : k ≠ .auditDegraded) :
    (s.stamp flag digest last).applyKind k = (s.applyKind k).map (stamp flag digest last) := by
  cases k with
  | auditDegraded => exact absurd rfl hk
  | loop event => exact applyLoop_stamp
  | graph event => exact applyGraph_stamp
  | runStarted | runFinished | approvalRequested | durableApprovalPrepared
  | toolInvocationStarted =>
    simp only [applyKind, map_ite]
    rfl
  | modelInvocationStarted id usage limit =>
    obtain ⟨context, contract, seq, chain, current, completed, position, continuation, effects,
      retrieval, restartable, manifest, graph⟩ := s
    cases graph <;>
      · simp only [applyKind, map_ite]
        rfl
  | knowledgeRetrievalStarted id route digest bytes =>
    simp only [applyKind, startKnowledgeRetrieval, map_ite]
    rfl
  | knowledgeRetrievalRestarted previous id route digest bytes =>
    obtain ⟨context, contract, seq, chain, current, completed, position, continuation, effects,
      retrieval, restartable, manifest, graph⟩ := s
    cases retrieval with
    | none => rfl
    | some p =>
      simp only [applyKind, stamp, startKnowledgeRetrieval, map_ite]
      rfl
  | knowledgeRetrievalCompleted id snapshots references count truncated degraded manifestDigest =>
    obtain ⟨context, contract, seq, chain, current, completed, position, continuation, effects,
      retrieval, restartable, manifest, graph⟩ := s
    cases restartable with
    | none => rfl
    | some attempt =>
      cases retrieval with
      | none =>
        simp only [applyKind, stamp, finishKnowledgeRetrieval, map_ite]
        rfl
      | some p =>
        simp only [applyKind, stamp, finishKnowledgeRetrieval, map_ite]
        split_ifs <;> rfl
  | knowledgeRetrievalFailed id kind =>
    obtain ⟨context, contract, seq, chain, current, completed, position, continuation, effects,
      retrieval, restartable, manifest, graph⟩ := s
    cases retrieval with
    | none => rfl
    | some p =>
      simp only [applyKind, stamp, finishKnowledgeRetrieval]
      split_ifs <;> rfl
  | modelGroundingBound retrievalId modelCallId count manifestDigest =>
    obtain ⟨context, contract, seq, chain, current, completed, position, continuation, effects,
      retrieval, restartable, manifest, graph⟩ := s
    cases manifest with
    | none => rfl
    | some m =>
      simp only [applyKind, stamp, map_ite]
      rfl
  | modelInvocationCompleted id | modelInvocationFailed id | approvalGranted id | approvalDenied id
  | approvalFailed id | toolInvocationCompleted id | toolInvocationDomainFailed id
  | toolInvocationAdapterFailed id =>
    simp only [applyKind, removePending]
    cases hremoved : removeFirst _ s.pendingEffects with
    | none => simp [stamp, hremoved, Except.map]
    | some es => simp [stamp, hremoved, Except.map]
  | _ => rfl

end Stamp

theorem applyKind_setAuditDegraded :
    s.setAuditDegraded.applyKind k = (s.applyKind k).map setAuditDegraded := by
  by_cases hk : k = .auditDegraded
  · subst hk
    rfl
  · have hstamp : s.setAuditDegraded = s.stamp true s.eventChainDigest s.lastSequence := rfl
    rw [hstamp, applyKind_stamp hk]
    cases happly : s.applyKind k with
    | error err => rfl
    | ok m =>
      have hsame := (applyKind_rule happly).sameRun
      simp only [Except.map, stamp, setAuditDegraded, ← hsame.lastSequence, ← hsame.digest]

/-- **The reducer never reads the audit flag.** -/
theorem apply_setAuditDegraded :
    s.setAuditDegraded.apply codec e = (s.apply codec e).map setAuditDegraded := by
  simp only [apply, applyKind_setAuditDegraded, map_ite]
  cases s.applyKind e.kind with
  | error err => rfl
  | ok m => cases codec.toVec e <;> rfl

/-! ## The start time -/

/-- `commit_running` writes the start time before `RunStarted` says it. -/
theorem apply_setStartedAt {startedAt : Nat} (hs : s.context.startedAtUnixMillis = none)
    (hk : e.kind = .runStarted startedAt) :
    (s.setStartedAt startedAt).apply codec e = s.apply codec e := by
  have hkind : (s.setStartedAt startedAt).applyKind (.runStarted startedAt) =
      s.applyKind (.runStarted startedAt) := by
    simp [applyKind, setStartedAt, hs]
  simp only [apply, hk, hkind]
  rfl

theorem Rule.started (h : Rule s k s')
    (hs : s.context.status ≠ .pending → s.context.startedAtUnixMillis.isSome = true)
    (hs' : s'.context.status ≠ .pending) : s'.context.startedAtUnixMillis.isSome = true := by
  cases h with
  | runStarted => rfl
  | runFinished running => exact hs (by simp [running])
  | loop rule => cases rule <;> exact hs hs'
  | graph rule =>
    cases rule with
    | graphFinished _ _ _ _ running => exact hs (by simp [running])
    | graphResumed => rfl
    | _ => exact hs hs'
  | _ => exact hs hs'

/-- A running state knows when it was started. -/
theorem replay_started {record : RunRecord} {events : List AgentEvent}
    (h : (initial record).replay codec events = .ok t) (hs : t.context.status = .running) :
    t.context.startedAtUnixMillis.isSome = true := by
  refine history (R := fun _ m => m.context.status ≠ .pending →
    m.context.startedAtUnixMillis.isSome = true) (by simp [initial]) ?_ h (by simp [hs])
  intro l e m m' _ ih hm hne
  obtain ⟨n, bytes, -, hrule, -, rfl⟩ := (apply_ok hm).rule
  exact hrule.started ih hne

end DurableRunState

/-! ## Counters -/

/-- What a budget counts. -/
inductive Counter where
  | modelCalls | toolCalls | iterations | approvalRequests | graphSteps
deriving DecidableEq, Repr

def BudgetUsage.count (u : BudgetUsage) : Counter → Nat
  | .modelCalls => u.modelCalls
  | .toolCalls => u.toolCalls
  | .iterations => u.iterations
  | .approvalRequests => u.approvalRequests
  | .graphSteps => u.graphSteps

def RunBudget.limit (b : RunBudget) : Counter → Nat
  | .modelCalls => b.maxModelCalls
  | .toolCalls => b.maxToolCalls
  | .iterations => b.maxIterations
  | .approvalRequests => b.maxApprovalRequests
  | .graphSteps => b.maxGraphSteps

theorem RunBudget.limit_le (b : RunBudget) (x : Counter) : b.limit x ≤ u32Max := by
  cases x with
  | modelCalls => exact b.maxModelCalls_le
  | toolCalls => exact b.maxToolCalls_le
  | iterations => exact b.maxIterations_le
  | approvalRequests => exact b.maxApprovalRequests_le
  | graphSteps => exact Nat.le_trans b.maxGraphSteps_le (by decide)

/-- The counter an event advances, the value it gives it and the limit it names. -/
def AgentEventKind.counts : AgentEventKind → Option (Counter × Nat × Nat)
  | .modelInvocationStarted _ usage limit => some (.modelCalls, usage, limit)
  | .toolInvocationStarted _ _ _ usage limit => some (.toolCalls, usage, limit)
  | .approvalRequested _ _ _ _ _ usage limit | .durableApprovalPrepared _ _ _ _ _ _ _ usage limit =>
    some (.approvalRequests, usage, limit)
  | .loop (.iterationStarted _ usage limit) => some (.iterations, usage, limit)
  | .graph (.graphNodeEntered _ _ _ _ step limit)
  | .graph (.graphNodeRestarted _ _ _ _ _ step limit) => some (.graphSteps, step, limit)
  | _ => none

namespace DurableRunState

variable {codec : EventCodec} {s s' t : DurableRunState} {e : AgentEvent} {k : AgentEventKind}

/-- A counted event names the next value of its counter and the limit of the budget, and moves no
other counter. -/
theorem Rule.counted (h : Rule s k s') {x : Counter} {usage limit : Nat}
    (hk : k.counts = some (x, usage, limit)) :
    usage = saturatingSucc (s.context.usage.count x) ∧ limit = s.context.budget.limit x ∧
      ∀ y, s'.context.usage.count y = if y = x then usage else s.context.usage.count y := by
  cases h with
  | modelStarted limited counted | approvalRequested limited counted
  | durableApprovalPrepared limited counted | toolStarted limited counted =>
    cases hk
    exact ⟨counted, limited, fun y => by cases y <;> rfl⟩
  | loop rule =>
    cases rule with
    | iterationStarted _ counted limited =>
      cases hk
      exact ⟨counted, limited, fun y => by cases y <;> rfl⟩
    | _ => cases hk
  | graph rule =>
    cases rule with
    | graphNodeEntered _ _ accepted | graphNodeRestarted _ _ accepted =>
      cases hk
      exact ⟨accepted.charged, accepted.limited, fun y => by cases y <;> rfl⟩
    | graphFinished _ terminal =>
      obtain ⟨a, n, steps, rfl, -⟩ | ⟨a, n, steps, f, rfl, -⟩ := terminal <;> cases hk
    | _ => cases hk
  | resolved terminal => cases k <;> first | (cases terminal; done) | cases hk
  | decided decision => cases k <;> first | (cases decision; done) | cases hk
  | noted note => cases k <;> first | (cases note; done) | cases hk
  | _ => cases hk

theorem Rule.uncounted (h : Rule s k s') (hk : k.counts = none) :
    s'.context.usage = s.context.usage := by
  cases h with
  | modelStarted | approvalRequested | durableApprovalPrepared | toolStarted => cases hk
  | loop rule =>
    cases rule with
    | iterationStarted => cases hk
    | _ => rfl
  | graph rule =>
    cases rule with
    | graphNodeEntered | graphNodeRestarted => cases hk
    | _ => rfl
  | _ => rfl

/-- A usage that covers the counters of the state covers them after an event that carries it. -/
theorem Rule.usage_le (h : Rule s k s') {u : BudgetUsage} (hu : ∀ x, s.context.usage.count x ≤ u.count x)
    (hk : ∀ x usage limit, k.counts = some (x, usage, limit) → usage = u.count x) (x : Counter) :
    s'.context.usage.count x ≤ u.count x := by
  cases hcounts : k.counts with
  | none =>
    rw [h.uncounted hcounts]
    exact hu x
  | some c =>
    obtain ⟨y, usage, limit⟩ := c
    rw [(h.counted hcounts).2.2 x]
    split_ifs with hxy
    · rw [hxy]
      exact Nat.le_of_eq (hk y usage limit hcounts)
    · exact hu x

end DurableRunState
end LocalAgent
