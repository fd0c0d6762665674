import LocalAgent.Harness.Ledger
import LocalAgent.Recovery.Effects

/-!
# The effects of a program keep a context even

The operations that a loop or graph program may call (models, retrievals, actions, tools) start
even and end even: whatever is answered, every event that they build is accepted by the reducer,
so the status and the usage of the context are those of the persisted log. They also keep the
`Stage` of the run, which only the engines move.
-/
namespace LocalAgent

open Program DurableRunState

/-! ## Stages -/

/-- What only the loop and the graph move. -/
structure Stage where
  loopPosition : DurableLoopPosition
  currentIteration : Option Nat
  completedIterations : Nat
  graph : Option (Bytes32 × DurableGraphPosition × Nat)
  iterations : Nat
  graphSteps : Nat
  budget : RunBudget
  contract : RecoveryContract

/-- Events of the loop and of the graph. -/
def AgentEventKind.isProgress : AgentEventKind → Bool
  | .loop _ | .graph _ => true
  | _ => false

namespace DurableRunState

def stage (s : DurableRunState) : Stage where
  loopPosition := s.loopPosition
  currentIteration := s.currentIteration
  completedIterations := s.completedIterations
  graph := s.graph.map fun g => (g.definitionDigest, g.position, g.steps)
  iterations := s.context.usage.iterations
  graphSteps := s.context.usage.graphSteps
  budget := s.context.budget
  contract := s.recoveryContract

variable {s s' : DurableRunState} {k : AgentEventKind}

theorem Rule.stage (h : Rule s k s') (hk : k.isProgress = false) : s'.stage = s.stage := by
  have hanchor : s.clearAnchor.graph.map (fun g => (g.definitionDigest, g.position, g.steps)) =
      s.graph.map fun g => (g.definitionDigest, g.position, g.steps) := by
    simp only [clearAnchor, Option.map_map]
    rfl
  cases h with
  | modelStarted => simp only [DurableRunState.stage, hanchor]; rfl
  | retrievalFailed => simp only [DurableRunState.stage, hanchor]
  | loop => cases hk
  | graph => cases hk
  | _ => rfl

@[simp] theorem stage_finish {outcome : RunOutcome} : (s.finish outcome).stage = s.stage := rfl

end DurableRunState

/-- The context is even, and the run on the stage of `s`. -/
def Stays (s : DurableRunState) (y : Standing) : Prop := ∃ t, y = .even t ∧ t.stage = s.stage

theorem Stays.refl {s : DurableRunState} : Stays s (.even s) := ⟨s, rfl, rfl⟩

/-- The same while the run runs. -/
def Runs (s : DurableRunState) (y : Standing) : Prop :=
  ∃ t, y = .even t ∧ t.context.status = .running ∧ t.stage = s.stage

theorem Runs.stays {s : DurableRunState} {y : Standing} (h : Runs s y) : Stays s y := by
  obtain ⟨t, rfl, -, hst⟩ := h
  exact ⟨t, rfl, hst⟩

theorem Parts.stays {s t : DurableRunState} {y : Standing} (h : Parts t y) (hst : t.stage = s.stage) :
    Stays s y := by
  rcases h with ⟨-, outcome, rfl⟩ | rfl
  · exact ⟨_, rfl, hst⟩
  · exact ⟨t, rfl, hst⟩

theorem Exits.parts {lib : Library} {env : Environment Answer (Option KnownRun)}
    {h : ExecutionHarness} {kind : AgentEventKind} {s : DurableRunState} {y : Standing}
    (hx : Exits lib env h kind s y) : Parts s y := by
  rcases hx with hcut | ⟨rfl, -⟩
  · exact .inl hcut
  · exact .inr rfl

theorem Due.stage {x : Standing} {kind : AgentEventKind} {s' : DurableRunState} (h : Due x kind s')
    (hk : kind.isProgress = false) : s'.stage = x.durable.stage :=
  (applyKind_rule h.takes).stage hk

/-! ## Accepted events -/

/-- One more of what is counted. -/
def BudgetUsage.bump (u : BudgetUsage) : Counter → BudgetUsage
  | .modelCalls => { u with modelCalls := u.modelCalls + 1 }
  | .toolCalls => { u with toolCalls := u.toolCalls + 1 }
  | .iterations => { u with iterations := u.iterations + 1 }
  | .approvalRequests => { u with approvalRequests := u.approvalRequests + 1 }
  | .graphSteps => { u with graphSteps := u.graphSteps + 1 }

theorem BudgetUsage.eq_bump {u v : BudgetUsage} {x : Counter}
    (h : ∀ y, v.count y = if y = x then u.count x + 1 else u.count y) : v = u.bump x := by
  obtain ⟨a, b, c, d, e⟩ := v
  have hmodel := h .modelCalls
  have htool := h .toolCalls
  have hiteration := h .iterations
  have happroval := h .approvalRequests
  have hgraph := h .graphSteps
  cases x <;> simp_all [BudgetUsage.count, BudgetUsage.bump]

section Accepted

variable {s s' : DurableRunState} {kind : AgentEventKind} {x : Counter}

/-- An event that counts nothing and ends nothing. -/
theorem due_of_takes (hrunning : s.context.status = .running) (htakes : s.applyKind kind = .ok s')
    (hne : kind ≠ .auditDegraded) (hcounts : kind.counts = none) (hlife : kind.isLifecycle = false) :
    Due (.even s) kind s' := by
  have hrule := applyKind_rule htakes
  exact ⟨hne, htakes, (hrule.status hlife).symm, (hrule.uncounted hcounts).symm,
    (hrule.status hlife).trans hrunning⟩

/-- An event that counts what was reserved for it. -/
theorem due_of_counted (hrunning : s.context.status = .running) (htakes : s.applyKind kind = .ok s')
    {limit : Nat} (hcounts : kind.counts = some (x, s.context.usage.count x + 1, limit)) :
    Due ⟨s, .running, s.context.usage.bump x⟩ kind s' := by
  have hrule := applyKind_rule htakes
  have hlife : kind.isLifecycle = false := by
    cases kind with
    | runStarted | runFinished => cases hcounts
    | graph event => cases event <;> first | rfl | cases hcounts
    | _ => rfl
  have hne : kind ≠ .auditDegraded := by
    rintro rfl
    cases hcounts
  have husage := BudgetUsage.eq_bump (hrule.counted hcounts).2.2
  exact ⟨hne, htakes, (hrule.status hlife).trans hrunning |>.symm, husage.symm,
    (hrule.status hlife).trans hrunning⟩

theorem due_note (hrunning : s.context.status = .running) (hk : kind.isNote = true) :
    Due (.even s) kind { s with continuation := .transientStateRequired } := by
  cases kind with
  | actionProposed | actionValidated | actionRejected | actionExecutionBound | toolPolicyDenied
  | containmentFailed => exact due_of_takes hrunning rfl nofun rfl rfl
  | _ => cases hk

/-- A call that can be paid for may start. -/
theorem takes_start (hlt : s.context.usage.count x < s.context.budget.limit x)
    (hcounts : kind.counts = some (x, s.context.usage.count x + 1, s.context.budget.limit x))
    (hk : kind.isProgress = false) : s.Takes kind := by
  have hnext := saturatingSucc_of_lt (Nat.lt_of_lt_of_le hlt (s.context.budget.limit_le x))
  cases kind with
  | modelInvocationStarted | toolInvocationStarted | approvalRequested | durableApprovalPrepared =>
    cases hcounts
    simp only [BudgetUsage.count] at hnext
    simp [Takes, applyKind, hnext, BudgetUsage.count, RunBudget.limit]
  | loop | graph => cases hk
  | _ => cases hcounts

theorem mem_pending_of_starts (htakes : s.applyKind kind = .ok s') {e : PendingEffect}
    (hk : kind.starts = some e) : e ∈ s'.pendingEffects := by
  cases (applyKind_rule htakes).pendingStep with
  | push effect start _ pushed =>
    obtain rfl := Option.some.inj (hk.symm.trans start)
    simp [pushed]
  | remove _ start => cases hk.symm.trans start
  | keep start => cases hk.symm.trans start

theorem removeFirst_isSome {key : PendingEffectKey} {es : List PendingEffect} {e : PendingEffect}
    (he : e ∈ es) (hkey : e.key = key) : ∃ es', removeFirst key es = some es' := by
  induction es with
  | nil => cases he
  | cons first rest ih =>
    by_cases hmatch : key.matches first = true
    · exact ⟨rest, by simp [removeFirst, hmatch]⟩
    · rcases List.mem_cons.mp he with rfl | hrest
      · exact absurd ((PendingEffectKey.matches_iff key e).mpr hkey) hmatch
      · obtain ⟨es', hes'⟩ := ih hrest
        exact ⟨first :: es', by simp [removeFirst, hmatch, hes']⟩

/-- The end of a pending effect is accepted. -/
theorem takes_resolved {key : PendingEffectKey} {e : PendingEffect} (he : e ∈ s.pendingEffects)
    (hkey : e.key = key) (hk : kind.resolves = some key) : s.Takes kind := by
  obtain ⟨es, hes⟩ := removeFirst_isSome he hkey
  cases kind with
  | modelInvocationCompleted | modelInvocationFailed | approvalGranted | approvalDenied
  | approvalFailed | toolInvocationCompleted | toolInvocationDomainFailed
  | toolInvocationAdapterFailed =>
    cases hk
    simp [Takes, applyKind, removePending, hes]
  | _ => cases hk

theorem due_resolved (hrunning : s.context.status = .running) {key : PendingEffectKey}
    {e : PendingEffect} (he : e ∈ s.pendingEffects) (hkey : e.key = key)
    (hk : kind.resolves = some key) : ∃ s', Due (.even s) kind s' ∧ s'.stage = s.stage := by
  obtain ⟨s', htakes⟩ := takes_resolved he hkey hk
  have hfree : kind ≠ .auditDegraded ∧ kind.counts = none ∧ kind.isLifecycle = false ∧
      kind.isProgress = false := by
    cases kind <;> first | (cases hk; done) | exact ⟨nofun, rfl, rfl, rfl⟩
  obtain ⟨hne, hcounts, hlife, hprogress⟩ := hfree
  have hdue := due_of_takes hrunning htakes hne hcounts hlife
  exact ⟨s', hdue, hdue.stage hprogress⟩

end Accepted

/-! ## Reservations -/

/-- A reservation that succeeds counts one more, within the budget. -/
theorem reserved {lib : Library} {s : DurableRunState} {c c' : RunContext} {k : KnownRun}
    (x : Counter) (dimension : BudgetDimension) {r : Except BudgetDimension RunContext} {a : Unit}
    (hc : Stands lib (.even s) c k)
    (hr : r = if c.usage.count x ≥ c.budget.limit x then .error dimension
      else .ok { c with usage := c.usage.bump x })
    (h : (r.map fun c => ((), c)) = .ok (a, c')) :
    c' = { c with usage := s.context.usage.bump x } ∧
      s.context.usage.count x < s.context.budget.limit x := by
  have husage : c.usage = s.context.usage := hc.usage
  have hbudget : c.budget = s.context.budget := hc.budget
  rw [hr, husage, hbudget] at h
  by_cases hlt : s.context.usage.count x ≥ s.context.budget.limit x
  · rw [if_pos hlt] at h
    cases h
  · rw [if_neg hlt] at h
    cases h
    exact ⟨by simp [hbudget], Nat.lt_of_not_le hlt⟩

/-- The announcement of a call that was reserved. -/
theorem due_start {s : DurableRunState} {kind : AgentEventKind} {x : Counter}
    (hrunning : s.context.status = .running)
    (hlt : s.context.usage.count x < s.context.budget.limit x)
    (hcounts : kind.counts = some (x, s.context.usage.count x + 1, s.context.budget.limit x))
    (hk : kind.isProgress = false) :
    ∃ t, Due ⟨s, .running, s.context.usage.bump x⟩ kind t ∧ t.stage = s.stage ∧
      t.latestKnowledgeManifest = s.latestKnowledgeManifest ∧
      ∀ e, kind.starts = some e → e ∈ t.pendingEffects := by
  obtain ⟨t, htakes⟩ := takes_start hlt hcounts hk
  have hdue := due_of_counted hrunning htakes hcounts
  refine ⟨t, hdue, hdue.stage hk, ?_, fun e he => mem_pending_of_starts htakes he⟩
  cases applyKind_rule htakes with
  | retrievalStarted | retrievalRestarted | retrievalCompleted | retrievalFailed => cases hcounts
  | loop | graph => cases hk
  | _ => rfl

/-! ## Effects -/

section Effects

variable {lib : Library} {env : Environment Answer (Option KnownRun)} (henv : Honest env)
  (hserde : lib.Serializes) {h : ExecutionHarness} (hp : h.persistence = true)
  {s t : DurableRunState} {operation : HarnessOperation} {phase : AuditPhase}
  {effect : OperationEffect} {kind : AgentEventKind}

/-- An operation of a program: it starts and ends even, on one stage. -/
def Effect (lib : Library) (env : Environment Answer (Option KnownRun)) {α : Type} (m : HarnessM α)
    (s : DurableRunState) : Prop :=
  Goes lib env m (.even s) (fun _ y => Stays s y) (fun _ y => Stays s y)

/-- Errors of a port that leave the run running. -/
def HarnessError.ofPort : HarnessError → Bool
  | .toolPort _ | .containmentPort _ => true
  | _ => false

/-- How the call of a tool port ends. -/
def PortEnds (t : DurableRunState) (err : HarnessError) (y : Standing) : Prop :=
  err.ofPort = true ∧ y = .even t ∨ err.ofPort = false ∧ Cut t y

include henv hserde hp

/-- Recording on the stage of `s`. -/
theorem record_stays {x : Standing} (hdue : Due x kind t) (hst : t.stage = s.stage) :
    Goes lib env (record lib h kind operation phase effect) x (fun _ y => y = .even t)
      (fun _ y => Stays s y) :=
  record_goes henv hserde hp hdue fun _ _ hy => hy.parts.stays hst

theorem recordRequired_stays {x : Standing} (hdue : Due x kind t) (hst : t.stage = s.stage) :
    Goes lib env (recordRequired lib h kind operation phase effect) x (fun _ y => y = .even t)
      (fun _ y => Stays s y) :=
  recordRequired_goes henv hserde hp hdue fun _ _ hy => hy.stays hst

theorem recordTool_stays {mode : ToolAudit} {x : Standing} (hdue : Due x kind t)
    (hst : t.stage = s.stage) :
    Goes lib env (recordTool lib h mode kind operation phase effect) x (fun _ y => y = .even t)
      (fun _ y => Stays s y) :=
  recordTool_goes henv hserde hp hdue fun _ _ hy => hy.stays hst

theorem preflight_stays (hst : t.stage = s.stage) :
    Goes lib env (preflight lib h operation) (.even t)
      (fun _ y => y = .even t ∧ t.context.status = .running) (fun _ y => Stays s y) :=
  preflight_goes henv hserde hp (fun _ _ => ⟨t, rfl, hst⟩)
    fun _ y hy => (show Parts t y from .inl hy).stays hst

/-- The end of an effect that is pending. -/
theorem recordResolved_stays (mode : ToolAudit) (hrunning : t.context.status = .running)
    (hst : t.stage = s.stage) {key : PendingEffectKey} {e : PendingEffect} (he : e ∈ t.pendingEffects)
    (hkey : e.key = key) (hk : kind.resolves = some key) :
    Goes lib env (recordTool lib h mode kind operation phase effect) (.even t) (fun _ y => Stays s y)
      (fun _ y => Stays s y) := by
  obtain ⟨t', hdue, hstage⟩ := due_resolved hrunning he hkey hk
  refine (recordTool_stays henv hserde hp hdue (hstage.trans hst)).mono ?_ fun _ _ hy => hy
  rintro _ y rfl
  exact ⟨t', rfl, hstage.trans hst⟩

/-! ### Models -/

theorem bindGrounding_stays {id : ModelCallId} {grounding : Option GroundingBinding}
    (hrunning : t.context.status = .running) (hst : t.stage = s.stage)
    (hpending : .model id ∈ t.pendingEffects)
    (hground : ∀ g, grounding = some g →
      t.latestKnowledgeManifest = some ⟨g.retrievalId, g.evidenceCount, g.manifestDigest⟩) :
    Goes lib env (bindGrounding lib h id grounding) (.even t)
      (fun _ y => ∃ t', y = .even t' ∧ t'.context.status = .running ∧ t'.stage = s.stage ∧
        .model id ∈ t'.pendingEffects) (fun _ y => Stays s y) := by
  cases grounding with
  | none => exact Goes.pure ⟨t, rfl, hrunning, hst, hpending⟩
  | some g =>
    have htakes : t.applyKind (.modelGroundingBound g.retrievalId id g.evidenceCount g.manifestDigest) =
        .ok { t with continuation := .transientStateRequired } := by
      simp [applyKind, hground g rfl, hpending]
    have hdue := due_of_takes hrunning htakes (by simp) rfl rfl
    refine (record_stays henv hserde hp hdue (hdue.stage rfl |>.trans hst)).mono ?_ fun _ _ hy => hy
    rintro _ y rfl
    exact ⟨_, rfl, hrunning, hdue.stage rfl |>.trans hst, hpending⟩

/-- **`invoke_model`**, grounded or not. -/
theorem invokeModelInternal_effect {request : ModelRequest} {grounding : Option GroundingBinding}
    (hground : ∀ g, grounding = some g →
      s.latestKnowledgeManifest = some ⟨g.retrievalId, g.evidenceCount, g.manifestDigest⟩) :
    Effect lib env (invokeModelInternal lib h request grounding) s := by
  refine Goes.bind (preflight_stays henv hserde hp rfl) ?_
  rintro _ y ⟨rfl, hrunning⟩
  refine Goes.bind (reserve_goes henv hserde hp hrunning (fun c k hc a c' => reserved .modelCalls .modelCalls hc rfl)
    fun _ y hy => (show Parts s y from .inl hy).stays rfl) ?_
  rintro _ y ⟨rfl, hlt⟩
  refine Goes.ask henv rfl (fun _ => rfl) fun id _ => Goes.look fun c k hc => ?_
  have husage : c.usage = s.context.usage.bump .modelCalls := hc.usage
  have hbudget : c.budget = s.context.budget := hc.budget
  rw [husage, hbudget]
  obtain ⟨t, hdue, hst, hmanifest, hstarts⟩ := due_start hrunning hlt
    (rfl : (AgentEventKind.modelInvocationStarted ⟨id⟩ _ _).counts = _) rfl
  refine Goes.bind (record_stays henv hserde hp hdue hst) ?_
  rintro _ y rfl
  refine Goes.bind (bindGrounding_stays henv hserde hp hdue.running hst (hstarts _ rfl) fun g hg =>
    hmanifest.trans (hground g hg)) ?_
  rintro _ y ⟨t', rfl, hrunning', hst', hpending⟩
  -- the port: a call that was cut off leaves a finished run, an error of the port a running one
  have hport : Goes lib env (invokeModelPort lib h ⟨id⟩ request) (.even t') (fun _ y => y = .even t')
      (fun err y => (∃ e, err = .modelPort e) ∧ y = .even t' ∨
        (∀ e, err ≠ .modelPort e) ∧ Parts t' y) := by
    refine Goes.bind (runtime_goes hrunning') ?_
    rintro _ y rfl
    refine Goes.look fun c k _ => Goes.ask henv rfl (fun _ => rfl) fun a _ => ?_
    exact settle_goes henv hserde hp hrunning' (Goes.pure rfl) (fun e => .inl ⟨⟨e, rfl⟩, rfl⟩)
      fun y hy => ⟨.inr ⟨nofun, .inl hy⟩, .inr ⟨nofun, .inl hy⟩⟩
  refine Goes.attempt hport ?_ ?_
  · rintro response y rfl
    refine Goes.bind (recordResolved_stays henv hserde hp .configured hrunning' hst' hpending rfl
      rfl) ?_
    intro _ y hy
    exact Goes.pure hy
  · rintro err y (⟨⟨e, rfl⟩, rfl⟩ | ⟨hne, hy⟩)
    · refine Goes.bind (recordResolved_stays henv hserde hp .configured hrunning' hst' hpending rfl
      rfl) ?_
      intro _ y hy
      exact Goes.fail hy
    · cases err with
      | modelPort e => exact absurd rfl (hne e)
      | _ => exact Goes.fail (hy.stays hst')

/-! ### Retrievals -/

omit henv hserde hp in
/-- What a started retrieval leaves. -/
theorem retrieval_opened {id : KnowledgeRetrievalId} {request : KnowledgeRequest}
    (hkind : retrievalEvent s.pendingKnowledgeRetrieval id request = .ok kind)
    (htakes : s.applyKind kind = .ok t) :
    kind.isProgress = false ∧ kind.counts = none ∧ kind.isLifecycle = false ∧ kind ≠ .auditDegraded ∧
      ∃ p, p.retrievalId = id ∧ p.route = request.route ∧ t.pendingKnowledgeRetrieval = some p ∧
        t.restartableKnowledgeRetrieval = some p := by
  have hrule := applyKind_rule htakes
  cases hpending : s.pendingKnowledgeRetrieval with
  | none =>
    rw [hpending] at hkind
    cases hkind
    cases hrule with
    | retrievalStarted => exact ⟨rfl, rfl, rfl, nofun, _, rfl, rfl, rfl, rfl⟩
    | resolved terminal => cases terminal
    | decided hd => cases hd
    | noted hn => cases hn
  | some previous =>
    rw [hpending] at hkind
    simp only [retrievalEvent] at hkind
    split at hkind
    · cases hkind
    · cases hkind
      cases hrule with
      | retrievalRestarted => exact ⟨rfl, rfl, rfl, nofun, _, rfl, rfl, rfl, rfl⟩
      | resolved terminal => cases terminal
      | decided hd => cases hd
      | noted hn => cases hn

omit henv hserde hp in
theorem takes_retrievalFailed {p : PendingKnowledgeRetrieval} (failure : KnowledgeFailureKind)
    (hpending : t.pendingKnowledgeRetrieval = some p) :
    t.Takes (.knowledgeRetrievalFailed p.retrievalId failure) := by
  simp [Takes, applyKind, finishKnowledgeRetrieval, hpending]

omit henv hserde hp in
/-- Evidence that keeps to the route is accepted. -/
theorem takes_retrievalCompleted {p : PendingKnowledgeRetrieval} {request : KnowledgeRequest}
    {evidence : EvidenceSet} (hpending : t.pendingKnowledgeRetrieval = some p)
    (hrestart : t.restartableKnowledgeRetrieval = some p) (hroute : p.route = request.route)
    (hfits : evidenceFits request p.retrievalId evidence = true)
    (hkind : retrievalCompleted p.retrievalId evidence = .ok kind) :
    t.Takes kind ∧ kind.isProgress = false ∧ kind.counts = none ∧ kind.isLifecycle = false ∧
      kind ≠ .auditDegraded := by
  unfold evidenceFits at hfits
  rw [hkind] at hfits
  unfold retrievalCompleted at hkind
  split at hkind
  · cases hkind
  · split at hkind
    · cases hkind
    · cases hkind
      refine ⟨?_, rfl, rfl, rfl, nofun⟩
      simp only [Bool.not_eq_true'] at hfits
      simp [Takes, applyKind, hrestart, hroute, hfits, finishKnowledgeRetrieval, hpending]

/-- The interruption of a retrieval ends the run. -/
theorem interruptRetrieval_stays {α : Type} {p : PendingKnowledgeRetrieval}
    {failure : KnowledgeFailureKind} {terminal : SafetyTerminalization} {err : HarnessError}
    {Q : α → Standing → Prop} (hrunning : t.context.status = .running) (hst : t.stage = s.stage)
    (hpending : t.pendingKnowledgeRetrieval = some p) :
    Goes lib env (interruptRetrieval lib h p.retrievalId failure terminal err : HarnessM α) (.even t) Q
      (fun _ y => Stays s y) := by
  obtain ⟨t', htakes⟩ := takes_retrievalFailed failure hpending
  have hdue := due_of_takes hrunning htakes nofun rfl rfl
  have hst' : t'.stage = s.stage := (hdue.stage rfl).trans hst
  have hrecord : Goes lib env (recordKnowledgeInterruption lib h p.retrievalId failure) (.even t)
      (fun _ y => y = .even t') (fun _ y => Stays s y) := by
    refine recorded_goes henv hserde hp hdue fun e _ => Goes.bind (auditWithTimeout_goes henv) ?_
    rintro result y rfl
    cases result with
    | none => exact Goes.pure rfl
    | some error =>
      rintro c l ⟨k, rfl, hc⟩
      exact ⟨_, ⟨k, rfl, hc.markAuditDegraded⟩, rfl⟩
  refine Goes.bind hrecord ?_
  rintro _ y rfl
  exact terminalized_goes henv hserde hp hdue.running terminal err fun y hy =>
    (show Parts t' y from .inl hy).stays hst'

/-- **`retrieve_knowledge`**, where the reducer accepts the start. -/
theorem retrieveKnowledge_effect {request : KnowledgeRequest}
    (hfits : ∀ id kind, retrievalEvent s.pendingKnowledgeRetrieval id request = .ok kind → s.Takes kind) :
    Effect lib env (retrieveKnowledge lib h request) s := by
  refine Goes.bind (preflight_stays henv hserde hp rfl) ?_
  rintro _ y ⟨rfl, hrunning⟩
  refine Goes.ite (fun _ => ?_) fun _ => Goes.fail .refl
  refine Goes.ask henv rfl (fun _ => rfl) fun id _ => ?_
  refine Goes.ite (fun _ => Goes.fail .refl) fun _ => Goes.look fun c k hc => ?_
  have hpending : c.durableState.pendingKnowledgeRetrieval = s.pendingKnowledgeRetrieval := by
    obtain ⟨flag, digest, last, hstate⟩ := hc.stamped
    rw [hstate]
    rfl
  rw [hpending]
  refine Goes.ofExcept (fun kind hkind => ?_) fun _ _ => .refl
  obtain ⟨t, htakes⟩ := hfits ⟨id⟩ kind hkind
  obtain ⟨hprogress, hcounts, hlife, hne, p, hid, hroute, hopen, hrestart⟩ :=
    retrieval_opened hkind htakes
  rw [← hid]
  have hdue := due_of_takes hrunning htakes hne hcounts hlife
  have hst : t.stage = s.stage := hdue.stage hprogress
  refine Goes.bind (record_stays henv hserde hp hdue hst) ?_
  rintro _ y rfl
  refine Goes.bind (runtime_goes hdue.running) ?_
  rintro _ y rfl
  refine Goes.ask henv rfl (fun _ => rfl) fun a ha => ?_
  cases a with
  | cancelled | deadlineExceeded => exact interruptRetrieval_stays henv hserde hp hdue.running hst hopen
  | ready result =>
    cases result with
    | error error =>
      obtain ⟨t', htakes'⟩ := takes_retrievalFailed error.failureKind hopen
      have hdue' := due_of_takes hdue.running htakes' nofun rfl rfl
      refine Goes.bind (record_stays henv hserde hp hdue' ((hdue'.stage rfl).trans hst)) ?_
      rintro _ y rfl
      exact Goes.fail ⟨t', rfl, (hdue'.stage rfl).trans hst⟩
    | ok evidence =>
      obtain ⟨l, l', hstep⟩ := ha
      have hevidence := (henv.sound hstep).evidence _ _ _ _ rfl
      refine Goes.ofExcept (fun kind hkind => ?_) fun _ _ => ⟨t, rfl, hst⟩
      obtain ⟨⟨t', htakes'⟩, hprogress', hcounts', hlife', hne'⟩ :=
        takes_retrievalCompleted hopen hrestart hroute hevidence hkind
      have hdue' := due_of_takes hdue.running htakes' hne' hcounts' hlife'
      refine Goes.bind (record_stays henv hserde hp hdue' ((hdue'.stage hprogress').trans hst)) ?_
      rintro _ y rfl
      exact Goes.pure ⟨t', rfl, (hdue'.stage hprogress').trans hst⟩

/-! ### Actions -/

theorem recordNote_runs (mode : ToolAudit) (hrunning : t.context.status = .running)
    (hst : t.stage = s.stage) (hk : kind.isNote = true) :
    Goes lib env (recordTool lib h mode kind operation phase effect) (.even t) (fun _ y => Runs s y)
      (fun _ y => Stays s y) := by
  have hdue := due_note hrunning hk
  refine (recordTool_stays henv hserde hp hdue hst).mono ?_ fun _ _ hy => hy
  rintro _ y rfl
  exact ⟨_, rfl, hrunning, hst⟩

/-- **`prepare_action`**. -/
theorem prepareAction_effect {invocation : CompletedModelInvocation} :
    Effect lib env (prepareAction lib h invocation) s := by
  refine Goes.bind (preflight_stays henv hserde hp rfl) ?_
  rintro _ y ⟨rfl, hrunning⟩
  refine Goes.ask henv rfl (fun _ => rfl) fun id _ => ?_
  cases hdecode : lib.decode invocation.response with
  | error reason =>
    refine Goes.bind (recordNote_runs henv hserde hp .configured hrunning rfl rfl) ?_
    rintro _ y hy
    exact Goes.pure hy.stays
  | ok proposal =>
    refine Goes.bind (recordNote_runs henv hserde hp .configured hrunning rfl rfl) ?_
    rintro _ y ⟨t, rfl, hrunning', hst⟩
    cases validateAction lib h.tools ⟨id⟩ proposal.1 proposal.2 with
    | error reason =>
      refine Goes.bind (recordNote_runs henv hserde hp .configured hrunning' hst rfl) ?_
      rintro _ y hy
      exact Goes.pure hy.stays
    | ok validated =>
      refine Goes.bind (recordNote_runs henv hserde hp .configured hrunning' hst rfl) ?_
      rintro _ y hy
      exact Goes.pure hy.stays

theorem denyTool_stays {α : Type} {id : ToolCallId} {name : ToolName} {capability : CapabilityKind}
    {err : HarnessError} {Q : α → Standing → Prop} (hrunning : t.context.status = .running)
    (hst : t.stage = s.stage) :
    Goes lib env (denyTool lib h id name capability operation err : HarnessM α) (.even t) Q
      (fun _ y => Stays s y) := by
  refine Goes.bind (recordNote_runs henv hserde hp .configured hrunning hst rfl) ?_
  intro _ y hy
  exact Goes.fail hy.stays

theorem recordContainmentFailed_stays {α : Type} {id : ToolCallId} {name : ToolName}
    {capability : CapabilityKind} {failure : ContainmentFailureKind} {err : HarnessError}
    {Q : α → Standing → Prop} (hrunning : t.context.status = .running) (hst : t.stage = s.stage) :
    Goes lib env (do recordContainmentFailed lib h id name capability failure
                     (Task.fail err : HarnessM α)) (.even t) Q (fun _ y => Stays s y) := by
  refine Goes.bind (recordNote_runs henv hserde hp .required hrunning hst rfl) ?_
  intro _ y hy
  exact Goes.fail hy.stays

/-! ### Tools -/

theorem reserveAndRecordToolStarted_runs {id : ToolCallId} {name : ToolName}
    {capability : CapabilityKind} {mode : ToolAudit} (hrunning : t.context.status = .running)
    (hst : t.stage = s.stage) :
    Goes lib env (reserveAndRecordToolStarted lib h id name capability operation mode) (.even t)
      (fun _ y => ∃ t', y = .even t' ∧ t'.context.status = .running ∧ t'.stage = s.stage ∧
        .tool id capability ∈ t'.pendingEffects) (fun _ y => Stays s y) := by
  refine Goes.bind (reserve_goes henv hserde hp hrunning
    (fun c k hc a c' => reserved .toolCalls .toolCalls hc rfl)
    fun _ y hy => (show Parts t y from .inl hy).stays hst) ?_
  rintro _ y ⟨rfl, hlt⟩
  refine Goes.look fun c k hc => ?_
  have husage : c.usage = t.context.usage.bump .toolCalls := hc.usage
  have hbudget : c.budget = t.context.budget := hc.budget
  rw [husage, hbudget]
  obtain ⟨t', hdue, hst', -, hstarts⟩ := due_start hrunning hlt
    (rfl : (AgentEventKind.toolInvocationStarted id name capability _ _).counts = _) rfl
  refine (recordTool_stays henv hserde hp hdue (hst'.trans hst)).mono ?_ fun _ _ hy => hy
  rintro _ y rfl
  exact ⟨t', rfl, hdue.running, hst'.trans hst, hstarts _ rfl⟩

theorem settleTool_ends {ε : Type} {reap : HarnessM Unit} {wrap : ε → HarnessError}
    {a : Awaited (Except ε ToolResult)} (hrunning : t.context.status = .running)
    (hwrap : ∀ err, (wrap err).ofPort = true)
    (hreap : Goes lib env reap (.even t) (fun _ y => y = .even t) (PortEnds t)) :
    Goes lib env (settle lib h reap wrap a) (.even t) (fun _ y => y = .even t) (PortEnds t) :=
  settle_goes henv hserde hp hrunning hreap (fun err => .inl ⟨hwrap err, rfl⟩)
    fun _ hy => ⟨.inr ⟨rfl, hy⟩, .inr ⟨rfl, hy⟩⟩

theorem invokeToolPort_ends {call : ToolCall} (hrunning : t.context.status = .running) :
    Goes lib env (invokeToolPort lib h call) (.even t) (fun _ y => y = .even t) (PortEnds t) := by
  refine Goes.bind (runtime_goes hrunning) ?_
  rintro _ y rfl
  refine Goes.look fun c k _ => Goes.ask henv rfl (fun _ => rfl) fun a _ => ?_
  exact settleTool_ends henv hserde hp hrunning (fun _ => rfl) (Goes.pure rfl)

theorem invokeManagedToolPort_ends {call : ToolCall} (hrunning : t.context.status = .running) :
    Goes lib env (invokeManagedToolPort lib h call) (.even t) (fun _ y => y = .even t)
      (PortEnds t) := by
  refine Goes.bind (runtime_goes hrunning) ?_
  rintro _ y rfl
  refine Goes.look fun c k _ => Goes.ask henv rfl (fun _ => rfl) fun a _ => ?_
  refine Goes.bind (mapErr_goes fun _ => .inl ⟨rfl, rfl⟩) ?_
  rintro _ y ⟨rfl, -⟩
  refine Goes.ask henv rfl (fun _ => rfl) fun a _ => ?_
  refine settleTool_ends henv hserde hp hrunning (fun _ => rfl) ?_
  refine Goes.ask henv rfl (fun _ => rfl) fun a _ => ?_
  exact (mapErr_goes fun _ => .inl ⟨rfl, rfl⟩).mono (fun _ _ hy => hy.1) fun _ _ hy => hy

theorem invokeContainedToolPort_ends {call : ToolCall} (hrunning : t.context.status = .running) :
    Goes lib env (invokeContainedToolPort lib h call) (.even t) (fun _ y => y = .even t)
      (PortEnds t) := by
  refine Goes.bind (runtime_goes hrunning) ?_
  rintro _ y rfl
  refine Goes.look fun c k _ => Goes.ask henv rfl (fun _ => rfl) fun a _ => ?_
  refine Goes.bind (mapErr_goes fun _ => .inl ⟨rfl, rfl⟩) ?_
  rintro _ y ⟨rfl, -⟩
  refine Goes.ask henv rfl (fun _ => rfl) fun a _ => ?_
  refine settleTool_ends henv hserde hp hrunning (fun _ => rfl) ?_
  refine Goes.ask henv rfl (fun _ => rfl) fun a _ => ?_
  exact (mapErr_goes fun _ => .inl ⟨rfl, rfl⟩).mono (fun _ _ hy => hy.1) fun _ _ hy => hy

theorem invokeBoundPort_ends {binding : ExecutionBinding} {call : ToolCall}
    (hrunning : t.context.status = .running) :
    Goes lib env (invokeBoundPort lib h binding call) (.even t) (fun _ y => y = .even t)
      (PortEnds t) := by
  cases binding with
  | direct => exact invokeToolPort_ends henv hserde hp hrunning
  | managedDirect => exact invokeManagedToolPort_ends henv hserde hp hrunning
  | contained => exact invokeContainedToolPort_ends henv hserde hp hrunning

/-- The end of a tool whose run was cut while it ran. -/
theorem recordToolTerminalAfterRuntimeError_stays {id : ToolCallId} {capability : CapabilityKind}
    {mode : ToolAudit} {y : Standing} (hcut : Cut t y) (hst : t.stage = s.stage)
    (hpending : .tool id capability ∈ t.pendingEffects) :
    Goes lib env (recordToolTerminalAfterRuntimeError lib h id operation mode) y
      (fun _ y => Stays s y) (fun _ y => Stays s y) := by
  obtain ⟨-, outcome, rfl⟩ := hcut
  refine Goes.look fun c k hc => ?_
  have hstatus : c.status = .finished outcome := hc.status
  have hne : c.status ≠ .running := by
    rw [hstatus]
    nofun
  rw [if_neg hne]
  have hopen : .tool id capability ∈ (t.finish outcome).pendingEffects := hpending
  have hkind : AgentEventKind.toolInvocationAdapterFailed id ≠ .auditDegraded := nofun
  obtain ⟨t', htakes⟩ := takes_resolved hopen rfl
    (rfl : (AgentEventKind.toolInvocationAdapterFailed id).resolves = some (.tool id))
  have hrule := applyKind_rule htakes
  refine (bestEffort_goes henv hserde hp hkind htakes).mono ?_ fun _ _ hy => hy
  rintro _ y rfl
  refine ⟨t', ?_, (hrule.stage rfl).trans hst⟩
  have hstatus' := hrule.status rfl
  have husage := hrule.uncounted rfl
  simp only [Standing.even, hstatus', husage]

theorem finishToolInvocation_stays {id : ToolCallId} {capability : CapabilityKind}
    {mode : ToolAudit} {result : Except HarnessError ToolResult} {y : Standing}
    (hrunning : t.context.status = .running) (hst : t.stage = s.stage)
    (hpending : .tool id capability ∈ t.pendingEffects)
    (hends : match result with | .ok _ => y = .even t | .error err => PortEnds t err y) :
    Goes lib env (finishToolInvocation lib h id operation result mode) y (fun _ y => Stays s y)
      (fun _ y => Stays s y) := by
  have hfailed : ∀ (kind : AgentEventKind) (err : HarnessError),
      kind.resolves = some (.tool id) →
      Goes lib env (do recordToolTerminalEvent lib h kind operation mode
                       (Task.fail err : HarnessM ToolResult)) (.even t) (fun _ y => Stays s y)
        (fun _ y => Stays s y) := by
    intro kind err hk
    refine Goes.bind (recordResolved_stays henv hserde hp mode hrunning hst hpending rfl hk) ?_
    intro _ y hy
    exact Goes.fail hy
  cases result with
  | ok result =>
    obtain rfl : y = .even t := hends
    refine Goes.ite (fun _ => hfailed _ _ rfl) fun _ => ?_
    have hk : (toolTerminalKind id result).resolves = some (.tool id) := by cases result <;> rfl
    refine Goes.bind (recordResolved_stays henv hserde hp mode hrunning hst hpending rfl hk) ?_
    intro _ y hy
    exact Goes.pure hy
  | error err =>
    rcases hends with ⟨hport, rfl⟩ | ⟨hport, hcut⟩
    · cases err with
      | toolPort e => exact hfailed _ _ rfl
      | containmentPort e => exact hfailed _ _ rfl
      | _ => cases hport
    · have hcutoff : Goes lib env (do recordToolTerminalAfterRuntimeError lib h id operation mode
                                      (Task.fail err : HarnessM ToolResult)) y
          (fun _ y => Stays s y) (fun _ y => Stays s y) := by
        refine Goes.bind (recordToolTerminalAfterRuntimeError_stays henv hserde hp hcut hst hpending) ?_
        intro _ y hy
        exact Goes.fail hy
      cases err with
      | toolPort | containmentPort => cases hport
      | _ => exact hcutoff

/-- A tool port under a guard that has announced it. -/
theorem finishCall_stays {m : HarnessM ToolResult} {id : ToolCallId} {capability : CapabilityKind}
    {mode : ToolAudit} (hrunning : t.context.status = .running) (hst : t.stage = s.stage)
    (hpending : .tool id capability ∈ t.pendingEffects)
    (hport : Goes lib env m (.even t) (fun _ y => y = .even t) (PortEnds t)) :
    Goes lib env (do let result ← m.attempt
                     finishToolInvocation lib h id operation result mode) (.even t)
      (fun _ y => Stays s y) (fun _ y => Stays s y) :=
  Goes.attempt hport
    (fun _ _ hy => finishToolInvocation_stays henv hserde hp hrunning hst hpending hy)
    fun _ _ hy => finishToolInvocation_stays henv hserde hp hrunning hst hpending hy

theorem invokeBoundTool_stays {binding : ExecutionBinding} {call : ToolCall} {name : ToolName}
    {capability : CapabilityKind} (hrunning : t.context.status = .running)
    (hst : t.stage = s.stage) :
    Goes lib env (invokeBoundTool lib h binding call name capability) (.even t)
      (fun _ y => Stays s y) (fun _ y => Stays s y) := by
  refine Goes.bind (reserveAndRecordToolStarted_runs henv hserde hp hrunning hst) ?_
  rintro _ y ⟨t', rfl, hrunning', hst', hpending⟩
  exact finishCall_stays henv hserde hp hrunning' hst' hpending
    (invokeBoundPort_ends henv hserde hp hrunning')

/-- **`invoke_tool`**. -/
theorem invokeTool_effect {call : ToolCall} : Effect lib env (invokeTool lib h call) s := by
  refine Goes.bind (preflight_stays henv hserde hp rfl) ?_
  rintro _ y ⟨rfl, hrunning⟩
  cases h.tools.get call.name with
  | none => exact Goes.fail .refl
  | some binding =>
    refine Goes.ask henv rfl (fun _ => rfl) fun decision _ => ?_
    unfold dispatchTool
    dsimp only
    split
    · exact denyTool_stays henv hserde hp hrunning rfl
    · exact denyTool_stays henv hserde hp hrunning rfl
    · exact invokeBoundTool_stays henv hserde hp hrunning rfl
    all_goals exact denyTool_stays henv hserde hp hrunning rfl

/-! ### Approved writes -/

theorem failApproval_stays {α : Type} {id : ApprovalRequestId} {failure : ApprovalFailureKind}
    {err : HarnessError} {Q : α → Standing → Prop} (hrunning : t.context.status = .running)
    (hst : t.stage = s.stage) (hpending : .approval id ∈ t.pendingEffects) :
    Goes lib env (failApproval lib h id failure err : HarnessM α) (.even t) Q
      (fun _ y => Stays s y) := by
  refine Goes.bind (recordResolved_stays henv hserde hp .required hrunning hst hpending rfl rfl) ?_
  intro _ y hy
  exact Goes.fail hy

theorem applyDecision_stays {call : ToolCall} {info : ApprovedLocalWriteMeta}
    {id : ApprovalRequestId} {decision : ApprovalDecision} (hst : t.stage = s.stage)
    (hpending : .approval id ∈ t.pendingEffects) :
    Goes lib env (applyDecision lib h call info id decision) (.even t) (fun _ y => Stays s y)
      (fun _ y => Stays s y) := by
  refine Goes.bind (preflight_stays henv hserde hp hst) ?_
  rintro _ y ⟨rfl, hrunning⟩
  refine Goes.ite (fun _ => failApproval_stays henv hserde hp hrunning hst hpending) fun _ => ?_
  cases decision.outcome with
  | denied =>
    refine Goes.bind (recordResolved_stays henv hserde hp .required hrunning hst hpending rfl rfl) ?_
    intro _ y hy
    exact Goes.fail hy
  | granted =>
    refine Goes.bind (recordResolved_stays henv hserde hp .required hrunning hst hpending rfl rfl) ?_
    rintro _ y ⟨t', rfl, hst'⟩
    refine Goes.bind (preflight_stays henv hserde hp hst') ?_
    rintro _ y ⟨rfl, hrunning'⟩
    refine Goes.bind (reserveAndRecordToolStarted_runs henv hserde hp hrunning' hst') ?_
    rintro _ y ⟨t'', rfl, hrunning'', hst'', hstarted⟩
    exact finishCall_stays henv hserde hp hrunning'' hst'' hstarted
      (invokeContainedToolPort_ends henv hserde hp hrunning'')

theorem awaitApproval_ends {request : ApprovalRequest} (hrunning : t.context.status = .running) :
    Goes lib env (awaitApproval lib h request) (.even t) (fun _ y => y = .even t)
      (fun err y => (∃ e, err = .approvalPort e) ∧ y = .even t ∨
        (∀ e, err ≠ .approvalPort e) ∧ Cut t y) := by
  refine Goes.bind (runtime_goes hrunning) ?_
  rintro _ y rfl
  refine Goes.look fun c k _ => Goes.ask henv rfl (fun _ => rfl) fun a _ => ?_
  exact settle_goes henv hserde hp hrunning (Goes.pure rfl) (fun e => .inl ⟨⟨e, rfl⟩, rfl⟩)
    fun y hy => ⟨.inr ⟨nofun, hy⟩, .inr ⟨nofun, hy⟩⟩

theorem invokeApprovedLocalWrite_stays {call : ToolCall} {info : ApprovedLocalWriteMeta}
    (hrunning : t.context.status = .running) (hst : t.stage = s.stage) :
    Goes lib env (invokeApprovedLocalWrite lib h call info) (.even t) (fun _ y => Stays s y)
      (fun _ y => Stays s y) := by
  refine Goes.ask henv rfl (fun _ => rfl) fun preview _ => ?_
  cases preview with
  | error error => exact recordContainmentFailed_stays henv hserde hp hrunning hst
  | ok preview =>
    refine Goes.bind (preflight_stays henv hserde hp hst) ?_
    rintro _ y ⟨rfl, -⟩
    refine Goes.ite (fun _ => ?_) fun _ => Goes.fail ⟨t, rfl, hst⟩
    refine Goes.ask henv rfl (fun _ => rfl) fun id _ => ?_
    refine Goes.bind (reserve_goes henv hserde hp hrunning
      (fun c k hc a c' => reserved .approvalRequests .approvalRequests hc rfl)
      fun _ y hy => (show Parts t y from .inl hy).stays hst) ?_
    rintro _ y ⟨rfl, hlt⟩
    refine Goes.look fun c k hc => ?_
    have husage : c.usage = t.context.usage.bump .approvalRequests := hc.usage
    have hbudget : c.budget = t.context.budget := hc.budget
    rw [husage, hbudget]
    obtain ⟨t', hdue, hst', -, hstarts⟩ := due_start hrunning hlt
      (rfl : (AgentEventKind.approvalRequested ⟨id⟩ info.actionProposalId call.id info.toolName
        info.capability _ _).counts = _) rfl
    have hpending := hstarts _ rfl
    refine Goes.bind (recordRequired_stays henv hserde hp hdue (hst'.trans hst)) ?_
    rintro _ y rfl
    refine Goes.attempt (awaitApproval_ends henv hserde hp hdue.running) ?_ ?_
    · rintro decision y rfl
      exact applyDecision_stays henv hserde hp (hst'.trans hst) hpending
    · rintro err y (⟨⟨e, rfl⟩, rfl⟩ | ⟨hne, hcut⟩)
      · exact failApproval_stays henv hserde hp hdue.running (hst'.trans hst) hpending
      · have hstays := (show Parts t' y from .inl hcut).stays (hst'.trans hst)
        cases err with
        | approvalPort e => exact absurd rfl (hne e)
        | _ => exact Goes.fail hstays

theorem dispatchAction_stays {action : ValidatedAction lib} {id : ToolCallId}
    {binding : ExecutionBinding} {decision : AuthorizationDecision}
    (hrunning : t.context.status = .running) (hst : t.stage = s.stage) :
    Goes lib env (dispatchAction lib h action id binding decision) (.even t) (fun _ y => Stays s y)
      (fun _ y => Stays s y) := by
  unfold dispatchAction
  dsimp only
  split
  · exact invokeBoundTool_stays henv hserde hp hrunning hst
  · exact denyTool_stays henv hserde hp hrunning hst
  · exact denyTool_stays henv hserde hp hrunning hst
  · exact denyTool_stays henv hserde hp hrunning hst
  · exact denyTool_stays henv hserde hp hrunning hst
  · cases binding with
    | direct | managedDirect => exact recordContainmentFailed_stays henv hserde hp hrunning hst
    | contained =>
      refine Goes.look fun c k _ => ?_
      exact Goes.ite (fun _ => Goes.fail ⟨t, rfl, hst⟩) fun _ =>
        invokeApprovedLocalWrite_stays henv hserde hp hrunning hst
  all_goals exact denyTool_stays henv hserde hp hrunning hst

/-- **`invoke_validated_action`**. -/
theorem invokeValidatedAction_effect {action : ValidatedAction lib} :
    Effect lib env (invokeValidatedAction lib h action) s := by
  refine Goes.bind (preflight_stays henv hserde hp rfl) ?_
  rintro _ y ⟨rfl, hrunning⟩
  refine Goes.ask henv rfl (fun _ => rfl) fun id _ => ?_
  cases h.tools.get action.toolName with
  | none => exact Goes.fail .refl
  | some binding =>
    refine Goes.ite (fun _ => Goes.fail .refl) fun _ => ?_
    refine Goes.bind (recordNote_runs henv hserde hp _ hrunning rfl rfl) ?_
    rintro _ y ⟨t, rfl, hrunning', hst⟩
    refine Goes.ask henv rfl (fun _ => rfl) fun decision _ => ?_
    exact dispatchAction_stays henv hserde hp hrunning' hst

end Effects
end LocalAgent
