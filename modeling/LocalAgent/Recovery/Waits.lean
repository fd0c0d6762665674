import LocalAgent.Recovery.Guards

/-!
# Suspensions in an accepted log

A graph that waits has been suspended by an event that names exactly this wait, and leaves the wait
only by `GraphResumed`. So in every accepted log the suspensions and resumptions of one wait are
balanced, up to the wait in which the graph still is.

Main theorems: `replay_suspended` (where the ids of the position come from) and
`replay_suspensions` (the balance).
-/
namespace LocalAgent

open FailingFold

/-- The wait in which the event suspends a run. -/
def AgentEventKind.suspends : AgentEventKind → Option DurableApprovalWaitId
  | .graph (.graphSuspended _ _ waitId _ _ _ _ _) => some waitId
  | _ => none

/-- The wait from which the event resumes a run. -/
def AgentEventKind.resumes : AgentEventKind → Option DurableApprovalWaitId
  | .graph (.graphResumed _ _ waitId _) => some waitId
  | _ => none

/-- The wait of a position. -/
def DurableGraphPosition.wait : DurableGraphPosition → Option DurableApprovalWaitId
  | .waiting _ _ waitId _ _ _ _ _ => some waitId
  | _ => none

namespace DurableRunState

variable {codec : EventCodec} {s s' t : DurableRunState} {k : AgentEventKind} {record : RunRecord}
  {events : List AgentEvent} {waitId : DurableApprovalWaitId}

/-- The wait in which the graph is. -/
def wait (s : DurableRunState) : Option DurableApprovalWaitId :=
  s.graphPosition.bind DurableGraphPosition.wait

/-- A graph that waits cannot be restarted. -/
def Parked (s : DurableRunState) : Prop :=
  ∀ g, s.graph = some g → g.position.wait.isSome = true → g.restartAnchor = none

theorem Parked.clearAnchor : s.clearAnchor.Parked := by
  intro g hg _
  obtain ⟨g', -, rfl⟩ := Option.map_eq_some_iff.mp hg
  rfl

@[simp] theorem graphPosition_clearAnchor : s.clearAnchor.graphPosition = s.graphPosition := by
  simp [graphPosition, clearAnchor, Function.comp_def]

theorem wait_of_graph {g : DurableGraphState} (h : s.graph = some g) : s.wait = g.position.wait := by
  simp [wait, graphPosition, h]

theorem wait_of_runningAt {position : DurableGraphPosition} {a : GraphNodeAttemptId} {n : GraphNodeId}
    (h : runningAt position a n = true) : position.wait = none := by
  cases position <;> first | rfl | cases h

/-- How an accepted event moves the wait of the graph. -/
inductive WaitStep (s : DurableRunState) (k : AgentEventKind) (s' : DurableRunState) : Prop
  | suspended {w : DurableApprovalWaitId} (event : k.suspends = some w) (other : k.resumes = none)
      (before : s.wait = none) (after : s'.wait = some w)
  | resumed {w : DurableApprovalWaitId} (event : k.resumes = some w) (other : k.suspends = none)
      (before : s.wait = some w) (after : s'.wait = none)
  | still (suspends : k.suspends = none) (resumes : k.resumes = none) (same : s'.wait = s.wait)

theorem GraphRule.waitStep {event : GraphProgressEvent} (h : GraphRule s event s') (hs : s.Parked) :
    WaitStep s (.graph event) s' ∧ s'.Parked := by
  have hmoved : ∀ {g : DurableGraphState}, s'.graph = some g → g.position.wait = none →
      s'.wait = none ∧ s'.Parked := by
    intro g hg hposition
    refine ⟨(wait_of_graph hg).trans hposition, fun g' hg' hwaits => ?_⟩
    obtain rfl := Option.some.inj (hg.symm.trans hg')
    rw [hposition] at hwaits
    cases hwaits
  cases h with
  | graphStarted fresh =>
    obtain ⟨hwait, hparked⟩ := hmoved rfl rfl
    exact ⟨.still rfl rfl (hwait.trans (by simp [wait, graphPosition, fresh])), hparked⟩
  | graphNodeEntered graph position =>
    obtain ⟨hwait, hparked⟩ := hmoved rfl rfl
    exact ⟨.still rfl rfl (hwait.trans (by rw [wait_of_graph graph, position]; rfl)), hparked⟩
  | graphNodeRestarted graph position =>
    obtain ⟨hwait, hparked⟩ := hmoved rfl rfl
    refine ⟨.still rfl rfl (hwait.trans ?_), hparked⟩
    rw [wait_of_graph graph]
    rcases position with hdirect | hanchor
    · revert hdirect
      unfold directRestart
      split <;> simp_all [DurableGraphPosition.wait]
    · -- an anchor is left, so the graph does not wait
      refine (Option.eq_none_iff_forall_ne_some.mpr fun w hw => ?_).symm
      rw [hs _ graph (by rw [hw]; rfl)] at hanchor
      cases hanchor
  | graphNodeCompleted graph position =>
    obtain ⟨hwait, hparked⟩ := hmoved rfl rfl
    refine ⟨.still rfl rfl (hwait.trans ?_), hparked⟩
    rw [wait_of_graph graph, wait_of_runningAt position]
  | graphSuspended graph position =>
    refine ⟨.suspended rfl rfl (by rw [wait_of_graph graph, position]; rfl) rfl, ?_⟩
    intro g hg _
    obtain rfl := Option.some.inj hg
    rfl
  | graphResumed graph position =>
    obtain ⟨hwait, hparked⟩ := hmoved rfl rfl
    exact ⟨.resumed rfl rfl (by rw [wait_of_graph graph, position]; rfl) hwait, hparked⟩
  | graphFinished graph terminal _ _ _ place =>
    obtain ⟨hwait, hparked⟩ := hmoved rfl rfl
    obtain ⟨a, n, hplace⟩ := place
    have hsame := hwait.trans ((wait_of_graph graph).trans (wait_of_runningAt hplace)).symm
    obtain ⟨a, n, steps, rfl, -⟩ | ⟨a, n, steps, f, rfl, -⟩ := terminal <;>
      exact ⟨.still rfl rfl hsame, hparked⟩

theorem Rule.waitStep (h : Rule s k s') (hs : s.Parked) : WaitStep s k s' ∧ s'.Parked := by
  cases h with
  | graph rule => exact rule.waitStep hs
  | loop rule => cases rule <;> exact ⟨.still rfl rfl rfl, hs⟩
  | modelStarted =>
    refine ⟨.still rfl rfl ?_, fun g hg => Parked.clearAnchor g hg⟩
    show s.clearAnchor.wait = s.wait
    simp [wait]
  | retrievalFailed =>
    refine ⟨.still rfl rfl ?_, fun g hg => Parked.clearAnchor g hg⟩
    show s.clearAnchor.wait = s.wait
    simp [wait]
  | resolved terminal => cases k <;> first | (cases terminal; done) | exact ⟨.still rfl rfl rfl, hs⟩
  | decided decision => cases k <;> first | (cases decision; done) | exact ⟨.still rfl rfl rfl, hs⟩
  | noted note => cases k <;> first | (cases note; done) | exact ⟨.still rfl rfl rfl, hs⟩
  | _ => exact ⟨.still rfl rfl rfl, hs⟩

theorem replay_parked (h : (initial record).replay codec events = .ok t) : t.Parked := by
  refine invariant (I := Parked) (fun g hg => by cases hg) ?_ h
  intro e m m' hm hstep
  obtain ⟨next, bytes, -, hrule, -, rfl⟩ := (apply_ok hstep).rule
  exact (hrule.waitStep hm).2

/-- **A wait is suspended once more than it is resumed** exactly while the graph is in it. -/
theorem replay_suspensions (h : (initial record).replay codec events = .ok t)
    (waitId : DurableApprovalWaitId) :
    events.countP (fun e => e.kind.suspends = some waitId) =
      events.countP (fun e => e.kind.resumes = some waitId) +
        if t.wait = some waitId then 1 else 0 := by
  refine history (R := fun log m => log.countP (fun e => e.kind.suspends = some waitId) =
    log.countP (fun e => e.kind.resumes = some waitId) + if m.wait = some waitId then 1 else 0)
    rfl ?_ h
  intro log e m m' hlog ih hm
  obtain ⟨next, bytes, -, hrule, -, rfl⟩ := (apply_ok hm).rule
  rw [List.countP_append, List.countP_append, ih, List.countP_singleton, List.countP_singleton]
  change _ = _ + if next.wait = some waitId then 1 else 0
  cases (hrule.waitStep (replay_parked hlog)).1 with
  | suspended event other before after =>
    simp [event, other, before, after]
  | resumed event other before after =>
    simp [event, other, before, after]
  | still suspends resumes same =>
    simp only [suspends, resumes, same]
    simp

/-- **The position of a waiting graph was written by the event that suspended it.** -/
theorem replay_suspended (h : (initial record).replay codec events = .ok t)
    {attemptId : GraphNodeAttemptId} {nodeId : GraphNodeId} {requestId : ApprovalRequestId}
    {proposalId : ActionProposalId} {toolCallId : ToolCallId} {digest : ActionDigest} {active : Nat}
    (ht : t.graphPosition =
      some (.waiting attemptId nodeId waitId requestId proposalId toolCallId digest active)) :
    ∃ e ∈ events, e.kind = .graph (.graphSuspended attemptId nodeId waitId requestId proposalId
      toolCallId digest active) := by
  refine history (R := fun log m => m.graphPosition =
    some (.waiting attemptId nodeId waitId requestId proposalId toolCallId digest active) →
    ∃ e ∈ log, e.kind = .graph (.graphSuspended attemptId nodeId waitId requestId proposalId
      toolCallId digest active)) (fun hnone => by cases hnone) ?_ h ht
  intro log e m m' _ ih hm hposition
  obtain ⟨next, bytes, -, hrule, -, rfl⟩ := (apply_ok hm).rule
  change next.graphPosition = _ at hposition
  have hold : m.graphPosition = next.graphPosition → ∃ b ∈ log ++ [e], b.kind =
      .graph (.graphSuspended attemptId nodeId waitId requestId proposalId toolCallId digest active) := by
    intro hsame
    obtain ⟨b, hb, hkind⟩ := ih (hsame.trans hposition)
    exact ⟨b, List.mem_append_left _ hb, hkind⟩
  generalize hk : e.kind = k at hrule
  cases hrule with
  | graph rule =>
    cases rule with
    | graphSuspended =>
      cases hposition
      exact ⟨e, by simp, hk⟩
    | _ => cases hposition
  | loop rule => cases rule <;> exact hold rfl
  | modelStarted => exact hold graphPosition_clearAnchor.symm
  | retrievalFailed => exact hold graphPosition_clearAnchor.symm
  | _ => exact hold rfl

end DurableRunState
end LocalAgent
