import LocalAgent.Harness.Sync

/-!
# The operations of the engines

`checkpoint`, the loop and graph operations and the ends of a run, where the reducer accepts the
event that the operation builds. In contrast to the effects of a program each of them moves the
run to a known state; the exits with an error are that the run was over or cut (`Over`), or that
the audit of the event was refused (`Exits`).

Main theorem: `EngineCall.even` (whatever an engine calls, the context says what the log says).
-/
namespace LocalAgent

open Program DurableRunState

/-- The run is not running, or was cut at `s`. -/
def Over (s : DurableRunState) (y : Standing) : Prop :=
  y = .even s ∧ s.context.status ≠ .running ∨ Cut s y

theorem Over.stays {s t : DurableRunState} {y : Standing} (h : Over t y) (hst : t.stage = s.stage) :
    Stays s y := by
  rcases h with ⟨rfl, -⟩ | hcut
  · exact ⟨t, rfl, hst⟩
  · exact (show Parts t y from .inl hcut).stays hst

/-- The run is finished, and the context agrees. -/
def Halted (y : Standing) : Prop := ∃ t outcome, y = .even t ∧ t.context.status = .finished outcome

theorem Cut.halted {s : DurableRunState} {y : Standing} (h : Cut s y) : Halted y := by
  obtain ⟨-, outcome, rfl⟩ := h
  exact ⟨_, outcome, rfl, rfl⟩

theorem Over.halted {s : DurableRunState} {y : Standing} (h : Over s y)
    (hrunning : s.context.status = .running) : Halted y := by
  rcases h with ⟨-, hne⟩ | hcut
  · exact absurd hrunning hne
  · exact hcut.halted

section Operations

variable {lib : Library} {env : Environment Answer (Option KnownRun)} (henv : Honest env)
  (hserde : lib.Serializes) {h : ExecutionHarness} (hp : h.persistence = true)
  {s s' : DurableRunState} {operation operation' : HarnessOperation} {phase : AuditPhase}
  {effect : OperationEffect} {kind : AgentEventKind}

include henv hserde hp

theorem preflight_over :
    Goes lib env (preflight lib h operation) (.even s)
      (fun _ y => y = .even s ∧ s.context.status = .running) (fun _ y => Over s y) :=
  preflight_goes henv hserde hp (fun hne _ => .inl ⟨rfl, hne⟩) fun _ _ hy => .inr hy

/-- **`checkpoint`**. -/
theorem checkpoint_goes :
    Goes lib env (checkpoint lib h) (.even s)
      (fun _ y => y = .even s ∧ s.context.status = .running) (fun _ y => Over s y) :=
  preflight_over henv hserde hp

/-! ## Progress events -/

/-- A progress event that counts nothing. -/
theorem progress_goes (htakes : s.context.status = .running → s.applyKind kind = .ok s')
    (hne : kind ≠ .auditDegraded) (hcounts : kind.counts = none) (hlife : kind.isLifecycle = false) :
    Goes lib env (do preflight lib h operation; record lib h kind operation' phase effect) (.even s)
      (fun _ y => y = .even s' ∧ s'.context.status = .running)
      (fun _ y => Over s y ∨ Exits lib env h kind s' y) := by
  refine Goes.bind ((preflight_over henv hserde hp).mono (fun _ _ hy => hy) fun _ _ hy => .inl hy) ?_
  rintro _ y ⟨rfl, hrunning⟩
  have hdue := due_of_takes hrunning (htakes hrunning) hne hcounts hlife
  refine (record_goes henv hserde hp hdue fun _ _ hy => .inr hy).mono ?_ fun _ _ hy => hy
  rintro _ y rfl
  exact ⟨rfl, hdue.running⟩

/-- **`record_loop_progress`**. -/
theorem recordLoopProgress_goes {progress : LoopProgressEvent}
    (htakes : s.context.status = .running → s.applyLoop progress.toEventKind = .ok s') :
    Goes lib env (recordLoopProgress lib h progress) (.even s)
      (fun _ y => y = .even s' ∧ s'.context.status = .running)
      (fun _ y => Over s y ∨ Exits lib env h (.loop progress.toEventKind) s' y) := by
  have hne : AgentEventKind.loop progress.toEventKind ≠ .auditDegraded := nofun
  have hcounts : (AgentEventKind.loop progress.toEventKind).counts = none := by
    cases progress <;> rfl
  exact progress_goes henv hserde hp htakes hne hcounts rfl

/-- **`start_graph`**. -/
theorem startGraph_goes {digest : Bytes32} {node : GraphNodeId} {nodeKind : GraphNodeKind}
    {recovery : GraphRecoveryMode}
    (htakes : s.context.status = .running →
      s.applyGraph (.graphStarted digest node nodeKind recovery) = .ok s') :
    Goes lib env (startGraph lib h digest node nodeKind recovery) (.even s)
      (fun _ y => y = .even s' ∧ s'.context.status = .running)
      (fun _ y => Over s y ∨
        Exits lib env h (.graph (.graphStarted digest node nodeKind recovery)) s' y) := by
  have hne : AgentEventKind.graph (.graphStarted digest node nodeKind recovery) ≠ .auditDegraded :=
    nofun
  exact progress_goes henv hserde hp htakes hne rfl rfl

/-- **`complete_graph_node`**. -/
theorem completeGraphNode_goes {attempt : GraphNodeAttemptId} {node next : GraphNodeId}
    {transition : GraphTransitionKey} {nodeKind : GraphNodeKind} {recovery : GraphRecoveryMode}
    (htakes : s.context.status = .running → s.applyGraph
      (.graphNodeCompleted attempt node transition next nodeKind recovery) = .ok s') :
    Goes lib env (completeGraphNode lib h attempt node transition next nodeKind recovery) (.even s)
      (fun _ y => y = .even s' ∧ s'.context.status = .running)
      (fun _ y => Over s y ∨ Exits lib env h
        (.graph (.graphNodeCompleted attempt node transition next nodeKind recovery)) s' y) := by
  have hne : AgentEventKind.graph
      (.graphNodeCompleted attempt node transition next nodeKind recovery) ≠ .auditDegraded := nofun
  exact progress_goes henv hserde hp htakes hne rfl rfl

/-! ## Counted progress -/

omit henv hserde hp in
theorem reserveIteration_ok {c c' : RunContext} {k : KnownRun} {n : Nat}
    (hc : Stands lib (.even s) c k) (h : c.reserveIteration = .ok (n, c')) :
    c' = { c with usage := s.context.usage.bump .iterations } ∧
      n = s.context.usage.iterations + 1 ∧
      s.context.usage.iterations < s.context.budget.maxIterations := by
  have husage : c.usage = s.context.usage := hc.usage
  have hbudget : c.budget = s.context.budget := hc.budget
  unfold RunContext.reserveIteration at h
  rw [husage, hbudget] at h
  by_cases hlt : s.context.usage.iterations ≥ s.context.budget.maxIterations
  · simp [hlt] at h
  · simp only [hlt, if_false] at h
    cases h
    exact ⟨rfl, rfl, Nat.lt_of_not_le hlt⟩

/-- The event of `begin_iteration`. -/
def iterationEvent (s : DurableRunState) : LoopEventKind :=
  .iterationStarted (s.context.usage.iterations + 1) (s.context.usage.iterations + 1)
    s.context.budget.maxIterations

/-- **`begin_iteration`**. -/
theorem beginIteration_goes
    (htakes : s.context.status = .running →
      s.context.usage.iterations < s.context.budget.maxIterations →
      s.applyLoop (iterationEvent s) = .ok s') :
    Goes lib env (beginIteration lib h) (.even s)
      (fun n y => n = s.context.usage.iterations + 1 ∧ y = .even s' ∧ s'.context.status = .running ∧
        s.context.usage.iterations < s.context.budget.maxIterations)
      (fun _ y => Over s y ∨ Exits lib env h (.loop (iterationEvent s)) s' y) := by
  refine Goes.bind ((preflight_over henv hserde hp).mono (fun _ _ hy => hy) fun _ _ hy => .inl hy) ?_
  rintro _ y ⟨rfl, hrunning⟩
  refine Goes.bind (reserve_goes henv hserde hp hrunning
    (fun c k hc n c' hr => reserveIteration_ok hc hr) fun _ _ hy => .inl (.inr hy)) ?_
  rintro n y ⟨rfl, rfl, hlt⟩
  refine Goes.look fun c k hc => ?_
  have husage : c.usage = s.context.usage.bump .iterations := hc.usage
  have hbudget : c.budget = s.context.budget := hc.budget
  rw [husage, hbudget]
  have hdue : Due ⟨s, .running, s.context.usage.bump .iterations⟩ (.loop (iterationEvent s)) s' :=
    due_of_counted hrunning (htakes hrunning hlt) rfl
  refine Goes.bind (record_goes henv hserde hp hdue fun _ _ hy => .inr hy) ?_
  rintro _ y rfl
  exact Goes.pure ⟨rfl, rfl, hdue.running, hlt⟩

/-- There are graph steps left. -/
def StepsLeft (s : DurableRunState) : Prop :=
  s.context.usage.graphSteps < s.context.budget.maxGraphSteps ∧
    s.context.budget.maxGraphSteps ≤ maxGraphStepsCeiling

omit henv hserde hp in
theorem reserveGraphStep_ok {c c' : RunContext} {k : KnownRun} {n : Nat}
    (hc : Stands lib (.even s) c k) (h : c.reserveGraphStep = .ok (n, c')) :
    c' = { c with usage := s.context.usage.bump .graphSteps } ∧
      n = s.context.usage.graphSteps + 1 ∧ StepsLeft s := by
  have husage : c.usage = s.context.usage := hc.usage
  have hbudget : c.budget = s.context.budget := hc.budget
  unfold RunContext.reserveGraphStep at h
  rw [husage, hbudget] at h
  by_cases hstop : s.context.usage.graphSteps ≥ s.context.budget.maxGraphSteps ∨
      s.context.budget.maxGraphSteps = 0 ∨ s.context.budget.maxGraphSteps > maxGraphStepsCeiling
  · simp [or_assoc, hstop] at h
  · simp only [not_or, Nat.not_le, Nat.not_lt] at hstop
    simp [hstop, Nat.not_le.mpr hstop.1, Nat.not_lt.mpr hstop.2.2] at h
    obtain ⟨rfl, rfl⟩ := h
    exact ⟨rfl, rfl, hstop.1, hstop.2.2⟩

/-- A node is entered under a new attempt: the end of `enter_graph_node` and
`restart_graph_node`. -/
theorem enterStep_goes (event : GraphNodeAttemptId → Nat → Nat → GraphProgressEvent)
    {next : GraphNodeAttemptId → DurableRunState}
    (hcounts : ∀ id step limit,
      (AgentEventKind.graph (event id step limit)).counts = some (.graphSteps, step, limit))
    (htakes : s.context.status = .running → StepsLeft s → ∀ id,
      s.applyGraph (event id (s.context.usage.graphSteps + 1) s.context.budget.maxGraphSteps) =
        .ok (next id)) :
    Goes lib env (do
        preflight lib h operation
        let step ← reserve lib h RunContext.reserveGraphStep
        let id ← ask .freshUuid
        let c ← Task.look
        record lib h (.graph (event ⟨id⟩ step c.budget.maxGraphSteps)) operation .lifecycle
          .stateCommitted
        (pure ⟨id⟩ : HarnessM GraphNodeAttemptId)) (.even s)
      (fun id y => y = .even (next id) ∧ (next id).context.status = .running ∧ StepsLeft s)
      (fun _ y => Over s y ∨ ∃ id, Exits lib env h (.graph
        (event id (s.context.usage.graphSteps + 1) s.context.budget.maxGraphSteps)) (next id) y) := by
  refine Goes.bind ((preflight_over henv hserde hp).mono (fun _ _ hy => hy) fun _ _ hy => .inl hy) ?_
  rintro _ y ⟨rfl, hrunning⟩
  refine Goes.bind (reserve_goes henv hserde hp hrunning
    (fun c k hc n c' hr => reserveGraphStep_ok hc hr) fun _ _ hy => .inl (.inr hy)) ?_
  rintro n y ⟨rfl, rfl, hleft⟩
  refine Goes.ask henv rfl (fun _ => rfl) fun id _ => Goes.look fun c k hc => ?_
  have hbudget : c.budget = s.context.budget := hc.budget
  rw [hbudget]
  have hdue : Due ⟨s, .running, s.context.usage.bump .graphSteps⟩ (.graph
      (event ⟨id⟩ (s.context.usage.graphSteps + 1) s.context.budget.maxGraphSteps)) (next ⟨id⟩) :=
    due_of_counted hrunning (htakes hrunning hleft ⟨id⟩) (hcounts _ _ _)
  refine Goes.bind (record_goes henv hserde hp hdue fun _ _ hy => .inr ⟨_, hy⟩) ?_
  rintro _ y rfl
  exact Goes.pure ⟨rfl, hdue.running, hleft⟩

/-- **`enter_graph_node`**. -/
theorem enterGraphNode_goes {node : GraphNodeId} {nodeKind : GraphNodeKind}
    {recovery : GraphRecoveryMode} {next : GraphNodeAttemptId → DurableRunState}
    (htakes : s.context.status = .running → StepsLeft s → ∀ id, s.applyGraph (.graphNodeEntered id node
      nodeKind recovery (s.context.usage.graphSteps + 1) s.context.budget.maxGraphSteps) = .ok (next id)) :
    Goes lib env (enterGraphNode lib h node nodeKind recovery) (.even s)
      (fun id y => y = .even (next id) ∧ (next id).context.status = .running ∧ StepsLeft s)
      (fun _ y => Over s y ∨ ∃ id, Exits lib env h (.graph (.graphNodeEntered id node nodeKind recovery
        (s.context.usage.graphSteps + 1) s.context.budget.maxGraphSteps)) (next id) y) :=
  enterStep_goes henv hserde hp (fun id => .graphNodeEntered id node nodeKind recovery)
    (fun _ _ _ => rfl) htakes

/-- **`restart_graph_node`**. -/
theorem restartGraphNode_goes {previous : Option GraphNodeAttemptId} {node : GraphNodeId}
    {nodeKind : GraphNodeKind} {recovery : GraphRecoveryMode}
    {next : GraphNodeAttemptId → DurableRunState}
    (htakes : s.context.status = .running → StepsLeft s → ∀ id, s.applyGraph (.graphNodeRestarted
      previous id node nodeKind recovery (s.context.usage.graphSteps + 1)
      s.context.budget.maxGraphSteps) = .ok (next id)) :
    Goes lib env (restartGraphNode lib h previous node nodeKind recovery) (.even s)
      (fun id y => y = .even (next id) ∧ (next id).context.status = .running ∧ StepsLeft s)
      (fun _ y => Over s y ∨ ∃ id, Exits lib env h (.graph (.graphNodeRestarted previous id node nodeKind
        recovery (s.context.usage.graphSteps + 1) s.context.budget.maxGraphSteps)) (next id) y) :=
  enterStep_goes henv hserde hp (fun id => .graphNodeRestarted previous id node nodeKind recovery)
    (fun _ _ _ => rfl) htakes

/-! ## Ends -/

omit henv hserde hp in
/-- The outcome is committed before there is an event of it. -/
theorem commitFinished_goes {α : Type} {m : HarnessM α} {outcome : RunOutcome}
    {Q : α → Standing → Prop} {E : HarnessError → Standing → Prop}
    (hrunning : s.context.status = .running)
    (hm : Goes lib env m ⟨s, .finished outcome, s.context.usage⟩ Q E) :
    Goes lib env (do commitFinished outcome; m) (.even s) Q E := by
  rintro c l ⟨k, rfl, hc⟩
  have hstatus : c.status = .running := hc.status.trans hrunning
  have hfinish : c.commitFinished outcome = .ok { c with status := .finished outcome } := by
    simp [RunContext.commitFinished, hstatus, RunStatus.finish]
  have hahead : Stands lib ⟨s, .finished outcome, s.context.usage⟩
      { c with status := .finished outcome } k :=
    ⟨hc.healthy, rfl, hc.usage, hc.budget, by simp, hc.run, hc.stamped, hc.next, hc.expected, hc.room,
      hc.replayed⟩
  refine Task.wlp_bind.mpr ?_
  unfold commitFinished
  refine Task.wlp_look_bind.mpr ?_
  rw [hfinish]
  exact hm _ _ ⟨k, rfl, hahead⟩

/-- The end of a run, with the event that tells of it. -/
theorem finishWith_goes {outcome : RunOutcome} {kind : RunContext → AgentEventKind}
    (event : AgentEventKind) (hne : event ≠ .auditDegraded)
    (hkind : ∀ c : RunContext, c.usage = s.context.usage → kind c = event)
    (htakes : s.context.status = .running → s.applyKind event = .ok s')
    (hends : s.context.status = .running →
      s'.context.status = .finished outcome ∧ s'.context.usage = s.context.usage) :
    Goes lib env (finishWith lib h outcome kind operation) (.even s) (fun _ y => y = .even s')
      (fun _ y => Over s y ∨ y = .even s') := by
  refine Goes.bind ((preflight_over henv hserde hp).mono (fun _ _ hy => hy) fun _ _ hy => .inl hy) ?_
  rintro _ y ⟨rfl, hrunning⟩
  obtain ⟨hstatus, husage⟩ := hends hrunning
  refine commitFinished_goes hrunning (Goes.look fun c k hc => ?_)
  rw [hkind c hc.usage]
  refine Goes.nextEvent hserde hne (htakes hrunning) fun e _ => Settles.persist henv hp ?_
  have heven : (⟨s', .finished outcome, s.context.usage⟩ : Standing) = .even s' := by
    rw [← hstatus, ← husage]
    rfl
  rw [heven]
  refine Goes.bind (auditWithTimeout_goes henv) ?_
  rintro result y rfl
  cases result with
  | none => exact Goes.pure rfl
  | some err => exact applyAuditFailure_goes henv hserde hp fun _ _ => .inr rfl

/-- **`complete_run`** and **`fail_run`**. -/
theorem finishRun_goes {outcome : RunOutcome} :
    Goes lib env (finishWith lib h outcome (fun _ => .runFinished outcome) operation) (.even s)
      (fun _ y => y = .even (s.finish outcome))
      (fun _ y => Over s y ∨ y = .even (s.finish outcome)) := by
  have hne : AgentEventKind.runFinished outcome ≠ .auditDegraded := nofun
  refine finishWith_goes henv hserde hp (.runFinished outcome) hne (fun _ _ => rfl) ?_ fun _ => ⟨rfl, rfl⟩
  intro hrunning
  simp [applyKind, hrunning, DurableRunState.finish]

omit henv hserde hp in
/-- The end of a graph is the end of its run, and is not charged. -/
theorem graphTerminal_ends {event : GraphProgressEvent} {outcome : RunOutcome}
    (hterminal : (∃ a n steps, event = .graphCompleted a n steps ∧ outcome = .completed) ∨
      ∃ a n steps f, event = .graphFailed a n steps f (.graph f) ∧ outcome = .failed (.graph f))
    (h : s.applyGraph event = .ok s') :
    s'.context.status = .finished outcome ∧ s'.context.usage = s.context.usage := by
  have hrule := applyGraph_rule h
  rcases hterminal with ⟨a, n, steps, rfl, rfl⟩ | ⟨a, n, steps, f, rfl, rfl⟩
  all_goals
    cases hrule with
    | graphFinished graph terminal =>
      rcases terminal with ⟨a', n', steps', heq, rfl⟩ | ⟨a', n', steps', f', heq, rfl⟩ <;> cases heq
      exact ⟨rfl, rfl⟩

/-- The end of `complete_graph` and `fail_graph`. -/
theorem finishGraph_goes {outcome : RunOutcome} (event : Nat → GraphProgressEvent)
    (hterminal : ∀ k, (∃ a n steps, event k = .graphCompleted a n steps ∧ outcome = .completed) ∨
      ∃ a n steps f, event k = .graphFailed a n steps f (.graph f) ∧ outcome = .failed (.graph f))
    (htakes : s.context.status = .running →
      s.applyGraph (event s.context.usage.graphSteps) = .ok s') :
    Goes lib env (finishWith lib h outcome (fun c => .graph (event c.usage.graphSteps)) operation)
      (.even s) (fun _ y => y = .even s') (fun _ y => Over s y ∨ y = .even s') := by
  have hne : AgentEventKind.graph (event s.context.usage.graphSteps) ≠ .auditDegraded := nofun
  refine finishWith_goes henv hserde hp _ hne (fun c hc => ?_) htakes fun hrunning =>
    graphTerminal_ends (hterminal _) (htakes hrunning)
  rw [hc]

/-- **`complete_graph`**. -/
theorem completeGraph_goes {attempt : GraphNodeAttemptId} {node : GraphNodeId}
    (htakes : s.context.status = .running →
      s.applyGraph (.graphCompleted attempt node s.context.usage.graphSteps) = .ok s') :
    Goes lib env (completeGraph lib h attempt node) (.even s) (fun _ y => y = .even s')
      (fun _ y => Over s y ∨ y = .even s') :=
  finishGraph_goes henv hserde hp (.graphCompleted attempt node) (fun k => .inl ⟨_, _, k, rfl, rfl⟩)
    htakes

/-- **`fail_graph`**. -/
theorem failGraph_goes {attempt : GraphNodeAttemptId} {node : GraphNodeId} {failure : GraphFailureKind}
    (htakes : s.context.status = .running → s.applyGraph
      (.graphFailed attempt node s.context.usage.graphSteps failure (.graph failure)) = .ok s') :
    Goes lib env (failGraph lib h attempt node failure) (.even s) (fun _ y => y = .even s')
      (fun _ y => Over s y ∨ y = .even s') :=
  finishGraph_goes henv hserde hp (fun k => .graphFailed attempt node k failure (.graph failure))
    (fun k => .inr ⟨_, _, k, _, rfl, rfl⟩) htakes

/-- **`cancel_run`**. -/
theorem cancelRun_goes :
    Goes lib env (cancelRun lib h) (.even s) (fun _ y => Cut s y) (fun _ y => Over s y) := by
  refine Goes.bind (requireStatus_goes fun hne _ => .inl ⟨rfl, hne⟩) ?_
  rintro _ y ⟨rfl, hrunning⟩
  refine Goes.bind (runtime_goes hrunning) ?_
  rintro _ y rfl
  have hne : AgentEventKind.runFinished .cancelled ≠ .auditDegraded := nofun
  have htakes : s.applyKind (.runFinished .cancelled) = .ok (s.finish .cancelled) := by
    simp [applyKind, hrunning, DurableRunState.finish]
  refine commitFinished_goes hrunning (Goes.nextEvent hserde hne htakes fun e _ c k howes => ?_)
  have hlast : Settles lib env e (auditTerminalBestEffort h e) (.even (s.finish .cancelled))
      (fun _ y => y = .even (s.finish .cancelled)) (fun _ y => Over s y) :=
    auditTerminalBestEffort_settles henv hp
  refine Task.wlp_mono (hlast c k howes) ?_
  rintro r c l ⟨y, hy, hr⟩
  refine ⟨y, hy, ?_⟩
  cases r with
  | ok u => exact ⟨hrunning, .cancelled, hr⟩
  | error err => exact hr

end Operations

/-! ## The calls of an engine -/

/-- What an engine or its program calls on a run that has come to `s`. The reducer accepts the event
that the call builds. -/
inductive EngineCall (lib : Library) (h : ExecutionHarness) (s : DurableRunState) :
    {α : Type} → HarnessM α → Prop
  | invokeModel {request} {grounding : Option GroundingBinding} (ground : ∀ g, grounding = some g →
      s.latestKnowledgeManifest = some ⟨g.retrievalId, g.evidenceCount, g.manifestDigest⟩) :
      EngineCall lib h s (invokeModelInternal lib h request grounding)
  | retrieveKnowledge {request} (takes : ∀ id kind,
      retrievalEvent s.pendingKnowledgeRetrieval id request = .ok kind → s.Takes kind) :
      EngineCall lib h s (retrieveKnowledge lib h request)
  | prepareAction {invocation} : EngineCall lib h s (prepareAction lib h invocation)
  | invokeTool {call} : EngineCall lib h s (invokeTool lib h call)
  | invokeValidatedAction {action} : EngineCall lib h s (invokeValidatedAction lib h action)
  | checkpoint : EngineCall lib h s (checkpoint lib h)
  | beginIteration {s'} (takes : s.context.status = .running →
      s.context.usage.iterations < s.context.budget.maxIterations →
      s.applyLoop (iterationEvent s) = .ok s') : EngineCall lib h s (beginIteration lib h)
  | recordLoopProgress {progress s'} (takes : s.context.status = .running →
      s.applyLoop progress.toEventKind = .ok s') :
      EngineCall lib h s (recordLoopProgress lib h progress)
  | startGraph {digest node nodeKind recovery s'} (takes : s.context.status = .running →
      s.applyGraph (.graphStarted digest node nodeKind recovery) = .ok s') :
      EngineCall lib h s (startGraph lib h digest node nodeKind recovery)
  | enterGraphNode {node nodeKind recovery} {next : GraphNodeAttemptId → DurableRunState}
      (takes : s.context.status = .running → StepsLeft s → ∀ id, s.applyGraph (.graphNodeEntered id
        node nodeKind recovery (s.context.usage.graphSteps + 1) s.context.budget.maxGraphSteps) =
          .ok (next id)) :
      EngineCall lib h s (enterGraphNode lib h node nodeKind recovery)
  | restartGraphNode {previous node nodeKind recovery} {next : GraphNodeAttemptId → DurableRunState}
      (takes : s.context.status = .running → StepsLeft s → ∀ id, s.applyGraph (.graphNodeRestarted
        previous id node nodeKind recovery (s.context.usage.graphSteps + 1)
        s.context.budget.maxGraphSteps) = .ok (next id)) :
      EngineCall lib h s (restartGraphNode lib h previous node nodeKind recovery)
  | completeGraphNode {attempt node transition next nodeKind recovery s'}
      (takes : s.context.status = .running → s.applyGraph
        (.graphNodeCompleted attempt node transition next nodeKind recovery) = .ok s') :
      EngineCall lib h s (completeGraphNode lib h attempt node transition next nodeKind recovery)
  | completeGraph {attempt node s'} (takes : s.context.status = .running →
      s.applyGraph (.graphCompleted attempt node s.context.usage.graphSteps) = .ok s') :
      EngineCall lib h s (completeGraph lib h attempt node)
  | failGraph {attempt node failure s'} (takes : s.context.status = .running → s.applyGraph
      (.graphFailed attempt node s.context.usage.graphSteps failure (.graph failure)) = .ok s') :
      EngineCall lib h s (failGraph lib h attempt node failure)
  | completeRun : EngineCall lib h s (completeRun lib h)
  | failRun {kind} : EngineCall lib h s (failRun lib h kind)
  | cancelRun : EngineCall lib h s (cancelRun lib h)

/-- The context says what the log says. -/
def IsEven (y : Standing) : Prop := ∃ t, y = .even t

theorem Halted.isEven {y : Standing} (h : Halted y) : IsEven y := by
  obtain ⟨t, -, rfl, -⟩ := h
  exact ⟨t, rfl⟩

theorem Stays.isEven {s : DurableRunState} {y : Standing} (h : Stays s y) : IsEven y := by
  obtain ⟨t, rfl, -⟩ := h
  exact ⟨t, rfl⟩

theorem Over.isEven {s : DurableRunState} {y : Standing} (h : Over s y) : IsEven y :=
  (h.stays rfl).isEven

theorem Exits.isEven {lib : Library} {env : Environment Answer (Option KnownRun)}
    {h : ExecutionHarness} {kind : AgentEventKind} {s : DurableRunState} {y : Standing}
    (hx : Exits lib env h kind s y) : IsEven y :=
  (hx.parts.stays rfl).isEven

/-- **Every call of an engine leaves the context as the log has it**, whatever the ports answer and
whether the call returns or fails. -/
theorem EngineCall.even {lib : Library} {env : Environment Answer (Option KnownRun)} (henv : Honest env)
    (hserde : lib.Serializes) {h : ExecutionHarness} (hp : h.persistence = true) {s : DurableRunState}
    {α : Type} {m : HarnessM α} (hm : EngineCall lib h s m) :
    Goes lib env m (.even s) (fun _ y => IsEven y) (fun _ y => IsEven y) := by
  have heffect : ∀ {α : Type} {m : HarnessM α}, Effect lib env m s →
      Goes lib env m (.even s) (fun _ y => IsEven y) (fun _ y => IsEven y) := fun hm =>
    hm.mono (fun _ _ hy => hy.isEven) fun _ _ hy => hy.isEven
  cases hm with
  | invokeModel ground => exact heffect (invokeModelInternal_effect henv hserde hp ground)
  | retrieveKnowledge takes => exact heffect (retrieveKnowledge_effect henv hserde hp takes)
  | prepareAction => exact heffect (prepareAction_effect henv hserde hp)
  | invokeTool => exact heffect (invokeTool_effect henv hserde hp)
  | invokeValidatedAction => exact heffect (invokeValidatedAction_effect henv hserde hp)
  | checkpoint =>
    exact (checkpoint_goes henv hserde hp).mono (fun _ _ hy => ⟨s, hy.1⟩) fun _ _ hy => hy.isEven
  | beginIteration takes =>
    exact (beginIteration_goes henv hserde hp takes).mono (fun _ _ hy => ⟨_, hy.2.1⟩) fun _ _ hy =>
      hy.elim Over.isEven Exits.isEven
  | recordLoopProgress takes =>
    exact (recordLoopProgress_goes henv hserde hp takes).mono (fun _ _ hy => ⟨_, hy.1⟩) fun _ _ hy =>
      hy.elim Over.isEven Exits.isEven
  | startGraph takes =>
    exact (startGraph_goes henv hserde hp takes).mono (fun _ _ hy => ⟨_, hy.1⟩) fun _ _ hy =>
      hy.elim Over.isEven Exits.isEven
  | enterGraphNode takes =>
    exact (enterGraphNode_goes henv hserde hp takes).mono (fun _ _ hy => ⟨_, hy.1⟩)
      fun _ _ hy => hy.elim Over.isEven fun hx => hx.elim fun _ hx => hx.isEven
  | restartGraphNode takes =>
    exact (restartGraphNode_goes henv hserde hp takes).mono (fun _ _ hy => ⟨_, hy.1⟩)
      fun _ _ hy => hy.elim Over.isEven fun hx => hx.elim fun _ hx => hx.isEven
  | completeGraphNode takes =>
    exact (completeGraphNode_goes henv hserde hp takes).mono (fun _ _ hy => ⟨_, hy.1⟩) fun _ _ hy =>
      hy.elim Over.isEven Exits.isEven
  | completeGraph takes =>
    exact (completeGraph_goes henv hserde hp takes).mono
      (fun _ _ hy => ⟨_, hy⟩) fun _ _ hy => hy.elim Over.isEven fun heq => ⟨_, heq⟩
  | failGraph takes =>
    exact (failGraph_goes henv hserde hp takes).mono
      (fun _ _ hy => ⟨_, hy⟩) fun _ _ hy => hy.elim Over.isEven fun heq => ⟨_, heq⟩
  | completeRun =>
    exact (finishRun_goes henv hserde hp).mono (fun _ _ hy => ⟨_, hy⟩) fun _ _ hy =>
      hy.elim Over.isEven fun heq => ⟨_, heq⟩
  | failRun =>
    exact (finishRun_goes henv hserde hp).mono (fun _ _ hy => ⟨_, hy⟩) fun _ _ hy =>
      hy.elim Over.isEven fun heq => ⟨_, heq⟩
  | cancelRun =>
    exact (cancelRun_goes henv hserde hp).mono (fun _ _ hy => hy.halted.isEven) fun _ _ hy => hy.isEven

end LocalAgent
