import LocalAgent.Recovery.Recover
import LocalAgent.Lib.Position

/-!
# Restarting a loop (`agent-loop/src/engine.rs:73-190`)

A loop run continues from the start of the run, from the boundary after an iteration that
decided to go on, or, for a program that restarts interrupted retrievals, from the beginning of
the retrieve phase it stopped in. For the first two the reducer remembers in `continuation`
whether anything happened since. For the third nothing does: a model call, an approval or a tool
that a program starts inside its retrieve phase leaves the remembered retrieval in place.

Main theorem: `resumed_loop_repeats_nothing_iff` (exactly which resumable logs have an effect
behind the point where the loop continues).
-/
namespace LocalAgent

open FailingFold Position

variable {codec : EventCodec} {s s' : DurableRunState} {k : AgentEventKind}

/-! ## `LoopEngine::resume` -/

inductive LoopTerminal where
  | complete
  | fail (kind : LoopFailureKind)
deriving DecidableEq, Repr

inductive LoopPosition where
  | ready
  | phaseReady (phase : LoopPhase)
  | phaseRunning (phase : LoopPhase)
  | finished (terminal : LoopTerminal)
deriving DecidableEq, Repr

/-- `LoopState` (agent-loop/src/state.rs:5). -/
structure LoopState where
  currentIteration : Option Nat
  completedIterations : Nat
  position : LoopPosition
deriving DecidableEq, Repr

namespace LoopState

def new : LoopState := ⟨none, 0, .ready⟩

def recoveredReady (completedIterations : Nat) : LoopState := ⟨none, completedIterations, .ready⟩

def recoveredRetrieveRunning (iteration completedIterations : Nat) : LoopState :=
  ⟨some iteration, completedIterations, .phaseRunning .retrieve⟩

end LoopState

/-- The errors with which `resume` refuses a recovered run. -/
inductive LoopError where
  | recoveryContractMismatch | recoveryStateInvalid
deriving DecidableEq, Repr

/-- The `contract_matches` flag (engine.rs:80-91), for the two constants of the program. -/
def contractAccepted (recoveryVersion : Nat) (restartInterruptedRetrieval : Bool) :
    RecoveryContract → Bool
  | .restartable version => version = recoveryVersion
  | .restartableRetrieval version => version = recoveryVersion && restartInterruptedRetrieval
  | .nonRestartable | .graph .. => false

/-- The loop state with which `LoopEngine::resume` continues (engine.rs:80-113). -/
def resumeState (recoveryVersion : Nat) (restartInterruptedRetrieval : Bool)
    (recovered : RecoveredRun) : Except LoopError LoopState :=
  if !contractAccepted recoveryVersion restartInterruptedRetrieval recovered.recoveryContract then
    .error .recoveryContractMismatch
  else
    let durable := recovered.state
    match durable.loopPosition with
    | .notStarted => .ok .new
    | .ready => .ok (.recoveredReady durable.completedIterations)
    | .phaseRunning .retrieve =>
      if restartInterruptedRetrieval && durable.restartableKnowledgeRetrieval.isSome then
        match durable.currentIteration with
        | none => .error .recoveryStateInvalid
        | some iteration => .ok (.recoveredRetrieveRunning iteration durable.completedIterations)
      else .error .recoveryStateInvalid
    | _ => .error .recoveryStateInvalid

/-! ## The point a loop continues from, in the log -/

def AgentEventKind.isLoop : AgentEventKind → Bool
  | .loop _ => true
  | _ => false

/-- A loop progress event. -/
def progresses (e : AgentEvent) : Bool := e.kind.isLoop

/-- The starts of model calls, approvals and tools. -/
def startsCall (e : AgentEvent) : Bool := e.kind.starts.isSome

/-- `PhaseEntered` of this phase in this iteration. -/
def entersPhase (iteration : Nat) (phase : LoopPhase) (e : AgentEvent) : Bool :=
  e.kind = .loop (.phaseEntered iteration phase)

def completesIteration (e : AgentEvent) : Bool :=
  match e.kind with
  | .loop (.iterationCompleted _) => true
  | _ => false

def AgentEventKind.decision : AgentEventKind → Option LoopDecisionKind
  | .loop (.reflectDecision _ decision) => some decision
  | _ => none

def decides (decision : LoopDecisionKind) (e : AgentEvent) : Bool := e.kind.decision = some decision

def decidesAny (e : AgentEvent) : Bool := e.kind.decision.isSome

/-- Event `i` completes an iteration whose decision, the last one before it, was to continue. -/
def ContinuedAt (events : List AgentEvent) (i : Nat) : Prop :=
  At events completesIteration i ∧ Since (events.take i) (decides .continue) decidesAny

/-- No call was started after the point from which this position continues. -/
def NothingRepeated (events : List AgentEvent) (durable : DurableRunState) : Prop :=
  match durable.loopPosition with
  | .notStarted => ∀ j, ¬ At events startsCall j
  | .ready => ∃ i, ContinuedAt events i ∧ ∀ j, i < j → ¬ At events startsCall j
  | .phaseRunning .retrieve => ∃ iteration, durable.currentIteration = some iteration ∧
      Since events (entersPhase iteration .retrieve) startsCall
  | _ => False

theorem ContinuedAt.concat {events : List AgentEvent} {i : Nat} (h : ContinuedAt events i)
    (e : AgentEvent) : ContinuedAt (events ++ [e]) i := by
  refine ⟨h.1.concat e, ?_⟩
  rw [List.take_append_of_le_length (Nat.le_of_lt h.1.lt)]
  exact h.2

/-- What the log says about a state of a run that is not a graph. -/
structure LoopHistory (log : List AgentEvent) (s : DurableRunState) : Prop where
  graph : s.graph = none
  initial : s.continuation = .initialBoundary →
    (s.loopPosition = .notStarted ∨ s.loopPosition = .finished) ∧ ∀ j, ¬ At log startsCall j
  boundary : s.continuation = .restartableBoundary →
    (s.loopPosition = .ready ∨ s.loopPosition = .finished) ∧
      ∃ i, ContinuedAt log i ∧ ∀ j, i < j → ¬ At log startsCall j
  running : ∀ phase, s.loopPosition = .phaseRunning phase →
    ∃ iteration, s.currentIteration = some iteration ∧
      Since log (entersPhase iteration phase) progresses
  decided : ∀ decision, s.loopPosition = .reflectDecided decision →
    Since log (decides decision) decidesAny

/-- The events that are no loop progress: the position stays, and a call start that is not
answered by an anchor of its own ends the boundary. -/
theorem LoopHistory.concat_other {log : List AgentEvent} {e : AgentEvent} (h : LoopHistory log s)
    (hgraph : s'.graph = none) (hposition : s'.loopPosition = s.loopPosition)
    (hiteration : s'.currentIteration = s.currentIteration) (hloop : e.kind.isLoop = false)
    (hcontinuation : s'.continuation = .transientStateRequired ∨
      s'.continuation = s.continuation ∧ e.kind.starts = none) :
    LoopHistory (log ++ [e]) s' := by
  have hnodecision : decidesAny e = false := by
    cases hk : e.kind with
    | loop event => rw [hk] at hloop; cases hloop
    | _ => simp [decidesAny, hk, AgentEventKind.decision]
  refine ⟨hgraph, fun hinit => ?_, fun hbound => ?_, fun phase hphase => ?_, fun d hd => ?_⟩
  · rcases hcontinuation with htransient | ⟨hsame, hstart⟩
    · exact absurd (htransient.symm.trans hinit) nofun
    · obtain ⟨hpos, hnone⟩ := h.initial (hsame.symm.trans hinit)
      exact ⟨by rwa [hposition], fun j => not_at_concat (hnone j) (by rw [startsCall, hstart]; rfl)⟩
  · rcases hcontinuation with htransient | ⟨hsame, hstart⟩
    · exact absurd (htransient.symm.trans hbound) nofun
    · obtain ⟨hpos, i, hi, hnone⟩ := h.boundary (hsame.symm.trans hbound)
      exact ⟨by rwa [hposition], i, hi.concat e,
        fun j hj => not_at_concat (hnone j hj) (by rw [startsCall, hstart]; rfl)⟩
  · obtain ⟨iteration, hit, hsince⟩ := h.running phase (hposition ▸ hphase)
    exact ⟨iteration, by rwa [hiteration], hsince.concat hloop⟩
  · exact (h.decided d (hposition ▸ hd)).concat hnodecision

/-- The loop events: an iteration that continues opens a boundary, every other one leaves the
continuation alone or ends it. -/
theorem LoopHistory.concat_loop {log : List AgentEvent} {e : AgentEvent} {event : LoopEventKind}
    (h : LoopHistory log s) (hkind : e.kind = .loop event)
    (rule : DurableRunState.LoopRule s event s') : LoopHistory (log ++ [e]) s' := by
  have hcall : startsCall e = false := by rw [startsCall, hkind]; rfl
  have hquiet : ∀ i, (∀ j, i < j → ¬ At log startsCall j) →
      ∀ j, i < j → ¬ At (log ++ [e]) startsCall j :=
    fun i hnone j hj => not_at_concat (hnone j hj) hcall
  cases rule with
  | iterationStarted => exact ⟨h.graph, nofun, nofun, nofun, nofun⟩
  | phaseEntered current position =>
    rename_i iteration phase
    refine ⟨h.graph, fun hinit => ?_, fun hbound => ?_, fun ph hph => ?_, nofun⟩
    · rcases (h.initial hinit).1 with hpos | hpos <;> exact absurd (position.symm.trans hpos) nofun
    · rcases (h.boundary hbound).1 with hpos | hpos <;> exact absurd (position.symm.trans hpos) nofun
    · cases hph
      exact ⟨iteration, current, since_concat (decide_eq_true hkind)⟩
  | phaseCompleted current position settled =>
    refine ⟨h.graph, fun hinit => ?_, fun hbound => ?_, fun ph hph => ?_, fun d hd => ?_⟩
    · rcases (h.initial hinit).1 with hpos | hpos <;> exact absurd (position.symm.trans hpos) nofun
    · rcases (h.boundary hbound).1 with hpos | hpos <;> exact absurd (position.symm.trans hpos) nofun
    · rename_i phase
      cases phase <;> cases hph
    · rename_i phase
      cases phase <;> cases hd
  | reflectDecision current position =>
    refine ⟨h.graph, fun hinit => ?_, fun hbound => ?_, nofun, fun d hd => ?_⟩
    · rcases (h.initial hinit).1 with hpos | hpos <;> exact absurd (position.symm.trans hpos) nofun
    · rcases (h.boundary hbound).1 with hpos | hpos <;> exact absurd (position.symm.trans hpos) nofun
    · cases hd
      refine since_concat (decide_eq_true ?_)
      rw [hkind]
      rfl
  | iterationContinued current position =>
    refine ⟨h.graph, nofun, fun _ => ⟨.inl rfl, log.length, ⟨?_, ?_⟩, fun j hj hat => ?_⟩, nofun, nofun⟩
    · refine at_concat.mpr (.inr ⟨rfl, ?_⟩)
      rw [completesIteration, hkind]
    · rw [List.take_left]
      exact h.decided .continue position
    · have := hat.lt
      rw [List.length_append, List.length_singleton] at this
      omega
  | iterationStopped current position stopped =>
    refine ⟨h.graph, fun hinit => ?_, fun hbound => ?_, nofun, nofun⟩
    · rcases (h.initial hinit).1 with hpos | hpos <;> exact absurd (position.symm.trans hpos) nofun
    · rcases (h.boundary hbound).1 with hpos | hpos <;> exact absurd (position.symm.trans hpos) nofun
  | loopCompleted counted =>
    refine ⟨h.graph, fun hinit => ?_, fun hbound => ?_, nofun, nofun⟩
    · exact ⟨.inr rfl, fun j => not_at_concat ((h.initial hinit).2 j) hcall⟩
    · obtain ⟨-, i, hi, hnone⟩ := h.boundary hbound
      exact ⟨.inr rfl, i, hi.concat e, hquiet i hnone⟩
  | loopFailed current =>
    refine ⟨h.graph, fun hinit => ?_, fun hbound => ?_, nofun, nofun⟩
    · exact ⟨.inr rfl, fun j => not_at_concat ((h.initial hinit).2 j) hcall⟩
    · obtain ⟨-, i, hi, hnone⟩ := h.boundary hbound
      exact ⟨.inr rfl, i, hi.concat e, hquiet i hnone⟩

theorem contractMatches_eq_false {contract : RecoveryContract} {digest : Bytes32}
    (h : ∀ version d, contract ≠ .graph version d) :
    DurableRunState.contractMatches contract digest = false := by
  cases contract with
  | graph version d => exact absurd rfl (h version d)
  | _ => rfl

theorem LoopHistory.concat {log : List AgentEvent} {e : AgentEvent} (h : LoopHistory log s)
    (hcontract : ∀ version digest, s.recoveryContract ≠ .graph version digest)
    (rule : DurableRunState.Rule s e.kind s') : LoopHistory (log ++ [e]) s' := by
  generalize hk : e.kind = k at rule
  cases rule with
  | loop rule => exact h.concat_loop hk rule
  | graph rule =>
    -- a run that is not a graph accepts no graph event
    cases rule with
    | graphStarted fresh position running contract =>
      rw [contractMatches_eq_false hcontract] at contract
      cases contract
    | graphNodeEntered graph | graphNodeRestarted graph | graphNodeCompleted graph
    | graphSuspended graph | graphResumed graph | graphFinished graph =>
      exact absurd (h.graph.symm.trans graph) nofun
  | runStarted | runFinished | auditDegraded | retrievalCompleted =>
    exact h.concat_other h.graph rfl rfl (by rw [hk]; rfl) (.inr ⟨rfl, by rw [hk]; rfl⟩)
  | retrievalFailed =>
    refine h.concat_other ?_ rfl rfl (by rw [hk]; rfl) (.inr ⟨rfl, by rw [hk]; rfl⟩)
    simp [DurableRunState.clearAnchor, h.graph]
  | modelStarted =>
    refine h.concat_other ?_ rfl rfl (by rw [hk]; rfl) (.inl rfl)
    simp [DurableRunState.clearAnchor, h.graph]
  | approvalRequested | durableApprovalPrepared | toolStarted | retrievalStarted
  | retrievalRestarted | groundingBound =>
    exact h.concat_other h.graph rfl rfl (by rw [hk]; rfl) (.inl rfl)
  | resolved terminal =>
    cases k <;> first
      | cases terminal; done
      | exact h.concat_other h.graph rfl rfl (by rw [hk]; rfl) (.inr ⟨rfl, by rw [hk]; rfl⟩)
  | decided decision =>
    cases k <;> first
      | cases decision; done
      | exact h.concat_other h.graph rfl rfl (by rw [hk]; rfl) (.inr ⟨rfl, by rw [hk]; rfl⟩)
  | noted note =>
    cases k <;> first
      | cases note; done
      | exact h.concat_other h.graph rfl rfl (by rw [hk]; rfl) (.inl rfl)

theorem replay_loopHistory {record : RunRecord} {events : List AgentEvent}
    (h : (DurableRunState.initial record).replay codec events = .ok s)
    (hcontract : ∀ version digest, record.recoveryContract ≠ .graph version digest) :
    LoopHistory events s := by
  refine history (R := LoopHistory) ?_ ?_ h
  · exact ⟨rfl, fun _ => ⟨.inl rfl, fun j hj => absurd hj.lt (Nat.not_lt_zero j)⟩, nofun, nofun, nofun⟩
  · intro log e m m' hm ih hm'
    have hid : m.recoveryContract = record.recoveryContract :=
      (DurableRunState.replay_identity hm).2.2
    obtain ⟨next, bytes, -, hrule, -, rfl⟩ := (DurableRunState.apply_ok hm').rule
    have hnext := ih.concat (by rwa [hid]) hrule
    exact ⟨hnext.graph, hnext.initial, hnext.boundary, hnext.running, hnext.decided⟩

/-! ## Exactly when the loop repeats nothing -/

/-- What `resume` accepts: never a graph, and one of three positions. -/
theorem resumeState_ok {version : Nat} {flag : Bool} {recovered : RecoveredRun} {state : LoopState}
    (h : resumeState version flag recovered = .ok state) :
    (∀ v digest, recovered.recoveryContract ≠ .graph v digest) ∧
      (recovered.state.loopPosition = .notStarted ∨ recovered.state.loopPosition = .ready ∨
        recovered.state.loopPosition = .phaseRunning .retrieve) := by
  unfold resumeState at h
  split at h
  · cases h
  rename_i hcontract
  refine ⟨fun v digest heq => hcontract (by rw [heq]; rfl), ?_⟩
  dsimp only at h
  split at h
  · rename_i hpos
    exact .inl hpos
  · rename_i hpos
    exact .inr (.inl hpos)
  · rename_i hpos
    exact .inr (.inr hpos)
  · cases h

/-- **Loop restart safety.** When `LoopEngine::resume` continues a resumable run, no model call,
approval or tool was started after the point it continues from if and only if every such start of
the log is followed by a later loop progress event. -/
theorem resumed_loop_repeats_nothing_iff {record : RunRecord} {stored : DurableCheckpoint}
    {events : List AgentEvent} {nowUnixMillis : Nat} {now : Instant} {recovered : RecoveredRun}
    {recoveryVersion : Nat} {restartInterruptedRetrieval : Bool} {state : LoopState}
    (h : recoverLoadedRun codec ⟨record, stored, events⟩ nowUnixMillis now =
      .ok (.resumable recovered))
    (hresume : resumeState recoveryVersion restartInterruptedRetrieval recovered = .ok state) :
    NothingRepeated events recovered.state ↔ Followed events startsCall progresses := by
  obtain ⟨durable, hlog, hclass⟩ := recover_verified h
  obtain ⟨rfl, hcontract, hrestart⟩ := classify_resumable hclass
  obtain ⟨hnograph, hposition⟩ := resumeState_ok hresume
  rw [hcontract] at hnograph
  have hist := replay_loopHistory hlog.replayed hnograph
  -- outside a retrieve phase the run is resumable only through its continuation
  have hboundary : recovered.state.loopPosition ≠ .phaseRunning .retrieve →
      recovered.state.continuation = .initialBoundary ∨
        recovered.state.continuation = .restartableBoundary := by
    intro hne
    rcases hrestart.boundary with hretrieval | hgraph | hcont
    · simp [retrievalRestart, hne] at hretrieval
    · unfold graphRestart at hgraph
      split at hgraph
      · rename_i heq
        exact absurd heq (hnograph _ _)
      · cases hgraph
    · exact hcont
  rcases hposition with hpos | hpos | hpos
  · -- nothing was started at all
    rcases hboundary (by rw [hpos]; nofun) with hcont | hcont
    · obtain ⟨-, hnone⟩ := hist.initial hcont
      simp only [NothingRepeated, hpos]
      exact ⟨fun _ j hj => absurd hj (hnone j), fun _ => hnone⟩
    · rcases (hist.boundary hcont).1 with hready | hfin
      · exact absurd (hpos.symm.trans hready) nofun
      · exact absurd (hpos.symm.trans hfin) nofun
  · -- the boundary after a continued iteration
    rcases hboundary (by rw [hpos]; nofun) with hcont | hcont
    · rcases (hist.initial hcont).1 with hstart | hfin
      · exact absurd (hpos.symm.trans hstart) nofun
      · exact absurd (hpos.symm.trans hfin) nofun
    · obtain ⟨-, i, hi, hnone⟩ := hist.boundary hcont
      simp only [NothingRepeated, hpos]
      refine ⟨fun _ => ?_, fun _ => ⟨i, hi, hnone⟩⟩
      have hsince : Since events completesIteration startsCall := ⟨i, hi.1, hnone⟩
      refine hsince.followed (fun e he => ?_) (fun e he => ?_)
      all_goals
        unfold completesIteration at he
        split at he
        · rename_i hk
          simp [progresses, startsCall, hk, AgentEventKind.isLoop, AgentEventKind.starts]
        · cases he
  · -- inside a retrieve phase the last loop event is the entry of that phase
    obtain ⟨iteration, hit, hsince⟩ := hist.running .retrieve hpos
    simp only [NothingRepeated, hpos]
    constructor
    · rintro ⟨iteration', -, hcalls⟩
      refine hcalls.followed (fun e he => ?_) (fun e he => ?_)
      all_goals
        have hk := of_decide_eq_true he
        simp [progresses, startsCall, hk, AgentEventKind.isLoop, AgentEventKind.starts]
    · intro hfollowed
      refine ⟨iteration, hit, hsince.of_reached fun j hj => ?_⟩
      obtain ⟨i, hi, hprogress⟩ := hfollowed j hj
      exact ⟨i, Nat.le_of_lt hi, hprogress⟩

/-- A program that asks the model inside its retrieve phase, after the retrieval. -/
def modelInRetrieveLog : List AgentEvent :=
  sampleLog
    [ .runStarted 1000,
      .loop (.iterationStarted 1 1 4),
      .loop (.phaseEntered 1 .observe),
      .loop (.phaseCompleted 1 .observe),
      .loop (.phaseEntered 1 .retrieve),
      .knowledgeRetrievalStarted ⟨20⟩ (.single .standardsMcp) 5 12,
      .knowledgeRetrievalCompleted ⟨20⟩ [] [] 0 false false 6,
      .modelInvocationStarted ⟨30⟩ 1 4,
      .modelInvocationCompleted ⟨30⟩ none ]

/-- **A completed model call behind the restart point**: the log recovers as resumable, the loop
engine continues with the retrieve phase, and the model call comes after its entry. -/
theorem resumed_loop_repeats_model_call :
    ¬ ∀ (codec : EventCodec) (record : RunRecord) (stored : DurableCheckpoint)
        (events : List AgentEvent) (nowUnixMillis : Nat) (now : Instant)
        (recovered : RecoveredRun) (recoveryVersion : Nat) (restartInterruptedRetrieval : Bool)
        (state : LoopState),
      recoverLoadedRun codec ⟨record, stored, events⟩ nowUnixMillis now =
        .ok (.resumable recovered) →
      resumeState recoveryVersion restartInterruptedRetrieval recovered = .ok state →
      NothingRepeated events recovered.state := by
  intro claim
  have hrepeat := claim plainCodec (sampleRecord (.restartableRetrieval 1))
    (.new (.initial (sampleRecord (.restartableRetrieval 1)))) modelInRetrieveLog 2000 0 _ 1 true
    (.recoveredRetrieveRunning 1 0) rfl rfl
  obtain ⟨iteration, hit, i, hi, hnone⟩ : ∃ iteration, some 1 = some iteration ∧
      Since modelInRetrieveLog (entersPhase iteration .retrieve) startsCall := hrepeat
  cases hit
  have hentry : ∀ i < modelInRetrieveLog.length,
      At modelInRetrieveLog (entersPhase 1 .retrieve) i → i ≤ 4 := by decide
  have hmodel : At modelInRetrieveLog startsCall 7 := by decide
  have hle := hentry i hi.lt hi
  exact hnone 7 (by omega) hmodel

/-- The same run stopped right after its retrieval satisfies both sides. -/
theorem resumed_loop_after_retrieval :
    Followed (modelInRetrieveLog.take 7) startsCall progresses ∧
      ∃ recovered, recoverLoadedRun plainCodec ⟨sampleRecord (.restartableRetrieval 1),
          .new (.initial (sampleRecord (.restartableRetrieval 1))), modelInRetrieveLog.take 7⟩
          2000 0 = .ok (.resumable recovered) ∧
        NothingRepeated (modelInRetrieveLog.take 7) recovered.state := by
  have hfollowed : Followed (modelInRetrieveLog.take 7) startsCall progresses := by
    intro j hj
    exact absurd hj ((by decide : ∀ j < (modelInRetrieveLog.take 7).length,
      ¬ At (modelInRetrieveLog.take 7) startsCall j) j hj.lt)
  have hrecover : ∃ recovered, recoverLoadedRun plainCodec
        ⟨sampleRecord (.restartableRetrieval 1),
          .new (.initial (sampleRecord (.restartableRetrieval 1))), modelInRetrieveLog.take 7⟩
        2000 0 = .ok (.resumable recovered) ∧
      resumeState 1 true recovered = .ok (.recoveredRetrieveRunning 1 0) := ⟨_, rfl, rfl⟩
  obtain ⟨recovered, h, hresume⟩ := hrecover
  exact ⟨hfollowed, recovered, h, (resumed_loop_repeats_nothing_iff h hresume).mpr hfollowed⟩

end LocalAgent
