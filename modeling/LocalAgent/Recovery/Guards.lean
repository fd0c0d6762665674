import LocalAgent.Recovery.Flags
import LocalAgent.Recovery.Recover
import LocalAgent.Lib.Position

/-!
# What the reducer does not guard

Recovery trusts `DurableRunState::apply` to refuse an illegal log. Two rules of the live harness
are missing in it. A counted start (`recovery.rs:312`, `341`, `370`, `395`, `551`, `685`, `726`)
must name the limit of the budget and the next value of its counter, but the value is never
compared with the limit. And only `RunStarted`, `RunFinished`, `GraphStarted` and the two graph
terminals look at the status, so most effects are accepted before the run has started and after
it has finished.

Main theorems: `replay_usage_within_budget_iff` (a log stays within its budget exactly if it does
not start more than the budget allows), `effects_within_run_iff` (which misplaced events the
positions of the loop and of the graph keep out, and which they do not).
-/
namespace LocalAgent

open FailingFold

/-! ## Budgets -/

/-- Every counter is within its limit. -/
structure BudgetUsage.Within (u : BudgetUsage) (b : RunBudget) : Prop where
  modelCalls : u.modelCalls ≤ b.maxModelCalls
  toolCalls : u.toolCalls ≤ b.maxToolCalls
  approvalRequests : u.approvalRequests ≤ b.maxApprovalRequests
  iterations : u.iterations ≤ b.maxIterations
  graphSteps : u.graphSteps ≤ b.maxGraphSteps

theorem BudgetUsage.within_iff {u : BudgetUsage} {b : RunBudget} :
    u.Within b ↔ ∀ x, u.count x ≤ b.limit x := by
  constructor
  · intro h x
    cases x with
    | modelCalls => exact h.modelCalls
    | toolCalls => exact h.toolCalls
    | iterations => exact h.iterations
    | approvalRequests => exact h.approvalRequests
    | graphSteps => exact h.graphSteps
  · intro h
    exact ⟨h .modelCalls, h .toolCalls, h .approvalRequests, h .iterations, h .graphSteps⟩

/-- The start events of a log that are charged to a counter. -/
def startCount (x : Counter) (events : List AgentEvent) : Nat :=
  events.countP fun e => e.kind.counts.any (·.1 = x)

namespace DurableRunState

variable {codec : EventCodec} {s s' t : DurableRunState} {e : AgentEvent} {k : AgentEventKind}
  {record : RunRecord} {events : List AgentEvent}

/-- **A counter is the number of its start events**, up to the end of `u32`. -/
theorem replay_count (h : (initial record).replay codec events = .ok t) (x : Counter) :
    t.context.usage.count x = min (startCount x events) u32Max := by
  refine history (R := fun log m => m.context.usage.count x = min (startCount x log) u32Max)
    (by cases x <;> rfl) ?_ h
  intro log e m m' _ ih hm
  obtain ⟨next, bytes, -, hrule, -, rfl⟩ := (apply_ok hm).rule
  show next.context.usage.count x = _
  rw [startCount, List.countP_append, List.countP_singleton]
  change m.context.usage.count x = min (log.countP _) u32Max at ih
  cases hcounts : e.kind.counts with
  | none => simpa [hrule.uncounted hcounts] using ih
  | some c =>
    obtain ⟨y, usage, limit⟩ := c
    obtain ⟨hnext, -, hall⟩ := hrule.counted hcounts
    rw [hall x]
    by_cases hxy : x = y
    · subst hxy
      rw [if_pos rfl, hnext, ih, saturatingSucc]
      simp only [Option.any_some, decide_true, if_true]
      omega
    · simpa [hxy, Ne.symm hxy] using ih

end DurableRunState

variable {codec : EventCodec} {record : RunRecord} {events : List AgentEvent} {t : DurableRunState}

/-- **Recovered usage and the budget.** The usage of an accepted log is within the budget of the
record exactly if the log has no more start events than the budget allows (a limit of `u32::MAX`
allows any number: the counter saturates there). -/
theorem replay_usage_within_budget_iff
    (h : (DurableRunState.initial record).replay codec events = .ok t) :
    t.context.usage.Within record.budget ↔
      ∀ x, startCount x events ≤ record.budget.limit x ∨ record.budget.limit x = u32Max := by
  rw [BudgetUsage.within_iff]
  refine forall_congr' fun x => ?_
  have hlimit := record.budget.limit_le x
  rw [DurableRunState.replay_count h x]
  omega

/-- One model call of four. -/
theorem replay_usage_of_one_call :
    ∃ t, (DurableRunState.initial (sampleRecord .nonRestartable)).replay plainCodec
        (sampleLog [.runStarted 1000, .modelInvocationStarted ⟨7⟩ 1 4]) = .ok t ∧
      t.context.usage.Within sampleBudget := by
  obtain ⟨t, ht⟩ : ∃ t, (DurableRunState.initial (sampleRecord .nonRestartable)).replay plainCodec
      (sampleLog [.runStarted 1000, .modelInvocationStarted ⟨7⟩ 1 4]) = .ok t := ⟨_, rfl⟩
  refine ⟨t, ht, (replay_usage_within_budget_iff ht).mpr fun x => .inl ?_⟩
  cases x <;> decide

/-- A budget of one model call. -/
def oneCallBudget : RunBudget :=
  { sampleBudget with maxModelCalls := 1, maxModelCalls_le := by decide }

def oneCallRecord : RunRecord := .new ⟨⟨1⟩, ⟨2⟩⟩ oneCallBudget .nonRestartable

/-- Two model calls of one. -/
def overspentLog : List AgentEvent :=
  sampleLog [.runStarted 1000, .modelInvocationStarted ⟨7⟩ 1 1, .modelInvocationCompleted ⟨7⟩ none,
    .modelInvocationStarted ⟨8⟩ 2 1, .modelInvocationCompleted ⟨8⟩ none]

/-- The reducer accepts a log with one more model call than its budget allows, and recovery does
not find it corrupt. -/
theorem overspent_log_recovered :
    ∃ t d, (DurableRunState.initial oneCallRecord).replay plainCodec overspentLog = .ok t ∧
      ¬ t.context.usage.modelCalls ≤ oneCallRecord.budget.maxModelCalls ∧
      recoverLoadedRun plainCodec ⟨oneCallRecord, .new (.initial oneCallRecord), overspentLog⟩
        2000 0 = .ok d ∧ d.state = t := by
  refine ⟨_, _, rfl, ?_, rfl, rfl⟩
  decide

/-! ## Effects and the lifecycle -/

/-- The starts that belong to a running run. -/
def AgentEventKind.isEffectStart : AgentEventKind → Bool
  | .modelInvocationStarted .. | .approvalRequested .. | .durableApprovalPrepared ..
  | .toolInvocationStarted .. | .knowledgeRetrievalStarted .. | .loop (.iterationStarted ..)
  | .graph (.graphNodeEntered ..) => true
  | _ => false

/-- The events that make the status `Finished`. -/
def AgentEventKind.isFinish (k : AgentEventKind) : Bool := k.isRunFinished || k.isGraphTerminal

/-- Every effect of the log starts after `RunStarted` and before the run is finished. -/
def EffectsWithinRun (events : List AgentEvent) : Prop :=
  ∀ before e after, events = before ++ e :: after → e.kind.isEffectStart = true →
    (∃ b ∈ before, b.kind.isRunStarted = true) ∧ ∀ b ∈ before, b.kind.isFinish = false

/-- The starts whose branch of the reducer looks neither at the status nor at a position that only
a started run can have. -/
def AgentEventKind.isUnguardedStart : AgentEventKind → Bool
  | .modelInvocationStarted .. | .approvalRequested .. | .durableApprovalPrepared ..
  | .toolInvocationStarted .. | .loop (.iterationStarted ..) => true
  | _ => false

def AgentEventKind.isRetrievalStart : AgentEventKind → Bool
  | .knowledgeRetrievalStarted .. => true
  | _ => false

def AgentEventKind.isNodeEntry : AgentEventKind → Bool
  | .graph (.graphNodeEntered ..) => true
  | _ => false

theorem AgentEventKind.isEffectStart_eq (k : AgentEventKind) :
    k.isEffectStart = (k.isUnguardedStart || k.isRetrievalStart || k.isNodeEntry) := by
  cases k with
  | loop event => cases event <;> rfl
  | graph event => cases event <;> rfl
  | _ => rfl

/-- The misplaced effects that no position keeps out: an unguarded start before `RunStarted`, an
unguarded start or a retrieval after any finish, a node entry after `RunFinished`. -/
structure StartsInPlace (events : List AgentEvent) : Prop where
  started : ∀ before e after, events = before ++ e :: after → e.kind.isUnguardedStart = true →
    ∃ b ∈ before, b.kind.isRunStarted = true
  unfinished : ∀ before e after, events = before ++ e :: after →
    (e.kind.isUnguardedStart || e.kind.isRetrievalStart) = true →
    ∀ b ∈ before, b.kind.isFinish = false
  entered : ∀ before e after, events = before ++ e :: after → e.kind.isNodeEntry = true →
    ∀ b ∈ before, b.kind.isRunFinished = false

/-- The loop stands before or in a phase. -/
def DurableLoopPosition.inPhase : DurableLoopPosition → Bool
  | .phaseReady _ | .phaseRunning _ => true
  | _ => false

namespace DurableRunState

variable {s s' : DurableRunState} {k : AgentEventKind}

/-! ### Before the start -/

theorem Rule.leaves_pending (h : Rule s k s') (hs : s.context.status = .pending)
    (hs' : s'.context.status ≠ .pending) : k.isRunStarted = true := by
  cases h with
  | runStarted => rfl
  | runFinished running => exact absurd (hs.symm.trans running) nofun
  | loop rule => cases rule <;> exact absurd hs hs'
  | graph rule =>
    cases rule with
    | graphFinished _ _ _ _ running => exact absurd (hs.symm.trans running) nofun
    | _ => exact absurd hs hs'
  | _ => exact absurd hs hs'

/-- A state that is no longer pending has seen `RunStarted`. -/
theorem replay_runStarted (h : (initial record).replay codec events = .ok t)
    (ht : t.context.status ≠ .pending) : ∃ e ∈ events, e.kind.isRunStarted = true := by
  refine history (R := fun log m => m.context.status ≠ .pending →
    ∃ e ∈ log, e.kind.isRunStarted = true) (fun hne => absurd rfl hne) ?_ h ht
  intro log e m m' _ ih hm hne
  obtain ⟨next, bytes, -, hrule, -, rfl⟩ := (apply_ok hm).rule
  by_cases hpending : m.context.status = .pending
  · exact ⟨e, by simp, hrule.leaves_pending hpending hne⟩
  · obtain ⟨b, hb, hstart⟩ := ih hpending
    exact ⟨b, List.mem_append_left [e] hb, hstart⟩

theorem Rule.status_ne_pending (h : Rule s k s') (hs : s.context.status ≠ .pending) :
    s'.context.status ≠ .pending := by
  cases h with
  | runStarted | runFinished => exact nofun
  | loop rule => cases rule <;> exact hs
  | graph rule =>
    cases rule with
    | graphFinished => exact nofun
    | _ => exact hs
  | _ => exact hs

/-- Only a running run starts a graph. -/
theorem Rule.graph_isSome (h : Rule s k s') (hs : s.graph = none) (hs' : s'.graph ≠ none) :
    s.context.status ≠ .pending := by
  cases h with
  | graph rule =>
    cases rule with
    | graphStarted _ _ running => simp [running]
    | _ => simp_all
  | loop rule => cases rule <;> exact absurd hs hs'
  | modelStarted | retrievalFailed => simp_all [clearAnchor]
  | _ => exact absurd hs hs'

theorem replay_graph_started (h : (initial record).replay codec events = .ok t)
    (ht : t.graph ≠ none) : t.context.status ≠ .pending := by
  refine invariant (I := fun m => m.graph ≠ none → m.context.status ≠ .pending)
    (fun hne => absurd rfl hne) ?_ h ht
  intro e m m' ih hm hne
  obtain ⟨next, bytes, -, hrule, -, rfl⟩ := (apply_ok hm).rule
  refine hrule.status_ne_pending ?_
  by_cases hgraph : m.graph = none
  · exact hrule.graph_isSome hgraph hne
  · exact ih hgraph

/-! ### Phases of the loop -/

theorem Rule.inPhase (h : Rule s k s') (hs' : s'.loopPosition.inPhase = true) :
    s.loopPosition.inPhase = true ∨ k.isUnguardedStart = true := by
  cases h with
  | loop rule =>
    cases rule with
    | iterationStarted => exact .inr rfl
    | phaseEntered _ position | phaseCompleted _ position => exact .inl (by rw [position]; rfl)
    | _ => cases hs'
  | graph rule => cases rule <;> exact .inl hs'
  | _ => exact .inl hs'

/-- A loop in a phase has started an iteration. -/
theorem replay_inPhase (h : (initial record).replay codec events = .ok t)
    (ht : t.loopPosition.inPhase = true) :
    ∃ before e after, events = before ++ e :: after ∧ e.kind.isUnguardedStart = true := by
  refine history (R := fun log m => m.loopPosition.inPhase = true →
    ∃ before e after, log = before ++ e :: after ∧ e.kind.isUnguardedStart = true)
    (fun hin => by cases hin) ?_ h ht
  intro log e m m' _ ih hm hin
  obtain ⟨next, bytes, -, hrule, -, rfl⟩ := (apply_ok hm).rule
  rcases hrule.inPhase hin with hold | hstart
  · obtain ⟨before, b, after, rfl, hb⟩ := ih hold
    exact ⟨before, b, after ++ [e], by simp, hb⟩
  · exact ⟨log, e, [], rfl, hstart⟩

/-! ### After a graph terminal -/

/-- The graph is over: no position and no anchor to go on from. -/
def GraphOver (s : DurableRunState) : Prop :=
  ∃ g, s.graph = some g ∧ g.position = .finished ∧ g.restartAnchor = none

theorem GraphOver.clearAnchor (h : s.GraphOver) : s.clearAnchor.GraphOver := by
  obtain ⟨g, hg, hposition, -⟩ := h
  exact ⟨{ g with restartAnchor := none }, by simp [DurableRunState.clearAnchor, hg], hposition, rfl⟩

/-- No graph event leads out of a finished graph. -/
theorem GraphRule.graphOver {event : GraphProgressEvent} (h : GraphRule s event s')
    (hs : s.GraphOver) : s'.GraphOver := by
  obtain ⟨g, hg, hposition, hanchor⟩ := hs
  have hsame : ∀ {g'}, s.graph = some g' → g'.position = .finished ∧ g'.restartAnchor = none := by
    intro g' hg'
    obtain rfl : g = g' := Option.some.inj (hg.symm.trans hg')
    exact ⟨hposition, hanchor⟩
  cases h with
  | graphStarted fresh => exact absurd (hg.symm.trans fresh) nofun
  | graphNodeEntered graph position | graphSuspended graph position
  | graphResumed graph position =>
    exact absurd ((hsame graph).1.symm.trans position) nofun
  | graphNodeRestarted graph position =>
    obtain ⟨hp, ha⟩ := hsame graph
    rw [hp, ha] at position
    simp [directRestart, anchorMatches] at position
  | graphNodeCompleted graph position =>
    rw [(hsame graph).1] at position
    cases position
  | graphFinished graph => exact ⟨_, rfl, rfl, rfl⟩

theorem Rule.graphOver (h : Rule s k s') (hs : s.GraphOver ∨ k.isGraphTerminal = true) :
    s'.GraphOver := by
  rcases hs with hs | hk
  · cases h with
    | graph rule => exact rule.graphOver hs
    | loop rule => cases rule <;> exact hs
    | modelStarted | retrievalFailed => exact hs.clearAnchor
    | _ => exact hs
  · cases h with
    | graph rule =>
      cases rule with
      | graphFinished => exact ⟨_, rfl, rfl, rfl⟩
      | _ => cases hk
    | resolved terminal => cases k <;> first | (cases terminal; done) | cases hk
    | decided decision => cases k <;> first | (cases decision; done) | cases hk
    | noted note => cases k <;> first | (cases note; done) | cases hk
    | _ => cases hk

theorem replay_graphOver (h : (initial record).replay codec events = .ok t)
    (hterminal : ∃ e ∈ events, e.kind.isGraphTerminal = true) : t.GraphOver := by
  refine history (R := fun log m => (∃ e ∈ log, e.kind.isGraphTerminal = true) → m.GraphOver)
    (by simp) ?_ h hterminal
  intro log e m m' _ ih hm hany
  obtain ⟨next, bytes, -, hrule, -, rfl⟩ := (apply_ok hm).rule
  refine hrule.graphOver ?_
  obtain ⟨b, hb, hfinish⟩ := hany
  rcases List.mem_append.mp hb with hold | hlast
  · exact .inl (ih ⟨b, hold, hfinish⟩)
  · obtain rfl := List.mem_singleton.mp hlast
    exact .inr hfinish

/-! ### The end -/

/-- Only a running run ends. -/
theorem Rule.finish (h : Rule s k s') (hk : k.isFinish = true) :
    s.context.status.isFinished = false ∧ s'.context.status.isFinished = true := by
  cases h with
  | runFinished running => exact ⟨by rw [running]; rfl, rfl⟩
  | graph rule =>
    cases rule with
    | graphFinished _ _ _ _ running => exact ⟨by rw [running]; rfl, rfl⟩
    | _ => cases hk
  | resolved terminal => cases k <;> first | (cases terminal; done) | cases hk
  | decided decision => cases k <;> first | (cases decision; done) | cases hk
  | noted note => cases k <;> first | (cases note; done) | cases hk
  | _ => cases hk

theorem Rule.unfinished (h : Rule s k s') (hk : k.isFinish = false) :
    s'.context.status.isFinished = s.context.status.isFinished := by
  cases h with
  | runStarted pending => simp [pending, RunStatus.isFinished]
  | runFinished => cases hk
  | loop rule => cases rule <;> rfl
  | graph rule =>
    cases rule with
    | graphFinished _ terminal =>
      obtain ⟨a, n, steps, rfl, -⟩ | ⟨a, n, steps, f, rfl, -⟩ := terminal <;> cases hk
    | _ => rfl
  | _ => rfl

/-- A run ends at most once, and is finished exactly if it has ended. -/
theorem replay_finish_count (h : (initial record).replay codec events = .ok t) :
    events.countP (fun e => e.kind.isFinish) = if t.context.status.isFinished then 1 else 0 := by
  refine history (R := fun log m => log.countP (fun e => e.kind.isFinish) =
    if m.context.status.isFinished then 1 else 0) rfl ?_ h
  intro log e m m' _ ih hm
  obtain ⟨next, bytes, -, hrule, -, rfl⟩ := (apply_ok hm).rule
  rw [List.countP_append, List.countP_singleton, ih]
  change _ = if next.context.status.isFinished then 1 else 0
  cases hk : e.kind.isFinish with
  | true =>
    obtain ⟨hbefore, hafter⟩ := hrule.finish hk
    simp [hbefore, hafter]
  | false => simp [hrule.unfinished hk]

/-- The events that end a run are of two sorts. -/
theorem countP_isFinish (events : List AgentEvent) :
    events.countP (fun e => e.kind.isFinish) = events.countP (fun e => e.kind.isRunFinished) +
      events.countP fun e => e.kind.isGraphTerminal := by
  induction events with
  | nil => rfl
  | cons e events ih =>
    have hkind : e.kind.isRunFinished = true → e.kind.isGraphTerminal = false := by
      cases e.kind <;> simp [AgentEventKind.isRunFinished, AgentEventKind.isGraphTerminal]
    simp only [List.countP_cons, ih]
    cases hrun : e.kind.isRunFinished with
    | true =>
      simp [AgentEventKind.isFinish, hrun, hkind hrun]
      omega
    | false =>
      simp [AgentEventKind.isFinish, hrun]
      omega

/-! ### What the positions keep out -/

theorem Rule.retrievalStart (h : Rule s k s') (hk : k.isRetrievalStart = true) :
    s.loopPosition.inPhase = true ∨ s.graph ≠ none := by
  cases h with
  | retrievalStarted _ place =>
    rcases place with hloop | hgraph
    · exact .inl (by rw [hloop]; rfl)
    · refine .inr fun hnone => ?_
      simp [inRetrieveNode, graphPosition, hnone] at hgraph
  | resolved terminal => cases k <;> first | (cases terminal; done) | cases hk
  | decided decision => cases k <;> first | (cases decision; done) | cases hk
  | noted note => cases k <;> first | (cases note; done) | cases hk
  | _ => cases hk

theorem Rule.nodeEntry (h : Rule s k s') (hk : k.isNodeEntry = true) :
    s.graph ≠ none ∧ ¬ s.GraphOver := by
  cases h with
  | graph rule =>
    cases rule with
    | graphNodeEntered graph position =>
      refine ⟨by simp [graph], ?_⟩
      rintro ⟨g, hg, hover, -⟩
      obtain rfl := Option.some.inj (graph.symm.trans hg)
      exact absurd (position.symm.trans hover) nofun
    | graphFinished _ terminal =>
      obtain ⟨a, n, steps, rfl, -⟩ | ⟨a, n, steps, f, rfl, -⟩ := terminal <;> cases hk
    | _ => cases hk
  | resolved terminal => cases k <;> first | (cases terminal; done) | cases hk
  | decided decision => cases k <;> first | (cases decision; done) | cases hk
  | noted note => cases k <;> first | (cases note; done) | cases hk
  | _ => cases hk

end DurableRunState

open DurableRunState in
/-- **Which effects belong to a running run.** In an accepted log every effect starts after
`RunStarted` and before the run is finished exactly if the starts that the reducer does not guard
do: retrievals before the start, node entries before the start and node entries after a graph
terminal are never accepted. -/
theorem effects_within_run_iff (h : (initial record).replay codec events = .ok t) :
    EffectsWithinRun events ↔ StartsInPlace events := by
  constructor
  · intro hwithin
    refine ⟨fun before e after hsplit hk => ?_, fun before e after hsplit hk => ?_,
      fun before e after hsplit hk => ?_⟩
    · exact (hwithin before e after hsplit (by rw [AgentEventKind.isEffectStart_eq, hk]; rfl)).1
    · exact (hwithin before e after hsplit (by rw [AgentEventKind.isEffectStart_eq, hk]; rfl)).2
    · intro b hb
      have := (hwithin before e after hsplit
        (by rw [AgentEventKind.isEffectStart_eq, hk, Bool.or_true])).2 b hb
      exact (Bool.or_eq_false_iff.mp this).1
  · intro hplace before e after hsplit hk
    obtain ⟨m, m', hbefore, hm⟩ : ∃ m m', (initial record).replay codec before = .ok m ∧
        m.apply codec e = .ok m' := by
      rw [hsplit, replay_append] at h
      obtain ⟨m, hbefore, h⟩ := h
      obtain ⟨m', hm, -⟩ := replay_cons.mp h
      exact ⟨m, m', hbefore, hm⟩
    obtain ⟨next, bytes, -, hrule, -, -⟩ := (apply_ok hm).rule
    have hgraph : m.graph ≠ none → ∃ b ∈ before, b.kind.isRunStarted = true := fun hne =>
      replay_runStarted hbefore (replay_graph_started hbefore hne)
    rw [AgentEventKind.isEffectStart_eq, Bool.or_eq_true, Bool.or_eq_true] at hk
    rcases hk with (hk | hk) | hk
    · exact ⟨hplace.started before e after hsplit hk,
        hplace.unfinished before e after hsplit (by rw [hk]; rfl)⟩
    · refine ⟨?_, hplace.unfinished before e after hsplit (by rw [hk, Bool.or_true])⟩
      rcases hrule.retrievalStart hk with hloop | hne
      · obtain ⟨early, start, rest, rfl, hstart⟩ := replay_inPhase hbefore hloop
        obtain ⟨b, hb, hrun⟩ := hplace.started early start (rest ++ e :: after)
          (by simp [hsplit]) hstart
        exact ⟨b, List.mem_append_left _ hb, hrun⟩
      · exact hgraph hne
    · obtain ⟨hne, hover⟩ := hrule.nodeEntry hk
      refine ⟨hgraph hne, fun b hb => ?_⟩
      refine Bool.or_eq_false_iff.mpr ⟨hplace.entered before e after hsplit hk b hb, ?_⟩
      by_contra hterminal
      exact hover (replay_graphOver hbefore ⟨b, hb, by simpa using hterminal⟩)

/-- A run with one model call, from start to finish. -/
def oneCallLog : List AgentEvent :=
  sampleLog [.runStarted 1000, .modelInvocationStarted ⟨7⟩ 1 4, .modelInvocationCompleted ⟨7⟩ none,
    .runFinished .completed]

theorem effects_within_run_of_one_call :
    ((DurableRunState.initial (sampleRecord .nonRestartable)).replay plainCodec
        oneCallLog).isOk = true ∧ EffectsWithinRun oneCallLog := by
  obtain ⟨t, ht⟩ : ∃ t, (DurableRunState.initial (sampleRecord .nonRestartable)).replay plainCodec
      oneCallLog = .ok t := ⟨_, rfl⟩
  refine ⟨by rw [ht]; rfl, (effects_within_run_iff ht).mpr ⟨?_, ?_, ?_⟩⟩
  all_goals
    refine Position.forall_split_iff.mpr ?_
    decide

/-- A model call before the start of the run and a tool call after its end. -/
def strayCallsLog : List AgentEvent :=
  sampleLog [.modelInvocationStarted ⟨7⟩ 1 4, .modelInvocationCompleted ⟨7⟩ none, .runStarted 1000,
    .runFinished .completed, .toolInvocationStarted ⟨9⟩ ⟨"write"⟩ .localWrite 1 4]

/-- The reducer accepts both calls. -/
theorem stray_calls_accepted :
    ((DurableRunState.initial (sampleRecord .nonRestartable)).replay plainCodec
        strayCallsLog).isOk = true ∧ ¬ EffectsWithinRun strayCallsLog := by
  refine ⟨rfl, fun h => ?_⟩
  have hplaced := Position.forall_split_iff.mp h
  revert hplaced
  decide

end LocalAgent
