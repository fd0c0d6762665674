import LocalAgent.Recovery.Recover
import LocalAgent.Lib.Position

/-!
# Restarting a graph (`agent-graph/src/engine.rs:97-146`)

A graph run is resumed at its restart anchor: the last fresh-retrieval node it entered. The
anchor outlives that node, so everything the run does in later nodes must drop it, or the effect
is repeated. The reducer drops it when a model call starts, when a retrieval fails, when the
graph is suspended and when it ends, but neither when an approval is requested or prepared nor
when a tool starts.

Main theorem: `resumable_anchor_covers_no_effect_iff` (exactly which resumable logs have an
effect behind their anchor).
-/
namespace LocalAgent

open FailingFold Position

variable {codec : EventCodec} {s s' : DurableRunState} {k : AgentEventKind}

/-! ## `GraphEngine::resume` -/

inductive GraphError where
  | recoveryMismatch
deriving DecidableEq, Repr

/-- `ResumeNode`. -/
structure ResumeNode where
  nodeId : GraphNodeId
  previousAttempt : Option GraphNodeAttemptId
deriving DecidableEq, Repr

/-- The node at which `GraphEngine::resume` continues, for a program of this version and a
definition with this digest (engine.rs:103-141). -/
def resumeNode (programVersion : Nat) (definitionDigest : Bytes32) (recovered : RecoveredRun) :
    Except GraphError ResumeNode :=
  if recovered.recoveryContract ≠ .graph programVersion definitionDigest then
    .error .recoveryMismatch
  else
    match recovered.state.graph with
    | none => .error .recoveryMismatch
    | some g =>
      if g.definitionDigest ≠ definitionDigest then .error .recoveryMismatch
      else
        match g.restartAnchor, g.position with
        | some anchor, _ => .ok ⟨anchor.nodeId, some anchor.attemptId⟩
        | none, .ready nodeId _ recovery =>
          if recovery ≠ .never then .ok ⟨nodeId, none⟩ else .error .recoveryMismatch
        | none, .running attemptId nodeId _ recovery =>
          if recovery ≠ .never then .ok ⟨nodeId, some attemptId⟩ else .error .recoveryMismatch
        | none, _ => .error .recoveryMismatch

/-! ## Events around the anchor -/

/-- The anchor an entry into a fresh-retrieval node sets. -/
def AgentEventKind.anchors : AgentEventKind → Option GraphRestartAnchor
  | .graph (.graphNodeEntered attemptId nodeId _ .freshRetrieval _ _)
  | .graph (.graphNodeRestarted _ attemptId nodeId _ .freshRetrieval _ _) =>
    some ⟨nodeId, attemptId⟩
  | _ => none

def AgentEventKind.isModelStart : AgentEventKind → Bool
  | .modelInvocationStarted .. => true
  | _ => false

/-- The starts of governed actions: approvals, in process or durable, and tools. -/
def AgentEventKind.isGovernedStart : AgentEventKind → Bool
  | .approvalRequested .. | .durableApprovalPrepared .. | .toolInvocationStarted .. => true
  | _ => false

/-- The `GraphNodeEntered` or `GraphNodeRestarted` event of the anchor's attempt. -/
def entersAnchor (anchor : GraphRestartAnchor) (e : AgentEvent) : Bool :=
  e.kind.anchors = some anchor

/-- The entry of some fresh-retrieval node. -/
def entersFresh (e : AgentEvent) : Bool := e.kind.anchors.isSome

def startsGoverned (e : AgentEvent) : Bool := e.kind.isGovernedStart

/-- The events that must not be repeated. -/
def startsEffect (e : AgentEvent) : Bool := e.kind.isModelStart || e.kind.isGovernedStart

theorem startsEffect_eq_false_of_entersAnchor {a : GraphRestartAnchor} {e : AgentEvent}
    (h : entersAnchor a e = true) : startsEffect e = false := by
  have hkind := of_decide_eq_true h
  unfold startsEffect
  cases hk : e.kind with
  | graph event => rfl
  | _ =>
    rw [hk] at hkind
    cases hkind

namespace DurableRunState

/-- The restart anchor of the graph, if there is one. -/
def anchor (s : DurableRunState) : Option GraphRestartAnchor := s.graph.bind (·.restartAnchor)

theorem anchor_clearAnchor : s.clearAnchor.anchor = none := by
  cases hg : s.graph with
  | none => simp [anchor, clearAnchor, hg]
  | some g => simp [anchor, clearAnchor, hg]

theorem anchor_enterNode {g : DurableGraphState} (hg : s.graph = some g) (attemptId nodeId nodeKind)
    (recovery : GraphRecoveryMode) (step : Nat) :
    (s.enterNode g attemptId nodeId nodeKind recovery step).anchor =
      if recovery = .freshRetrieval then some ⟨nodeId, attemptId⟩ else s.anchor := by
  simp [anchor, enterNode, hg]

/-- What an accepted event does to the anchor. -/
inductive AnchorStep (k : AgentEventKind) (before after : Option GraphRestartAnchor) : Prop
  | set (a : GraphRestartAnchor) (entry : k.anchors = some a) (now : after = some a)
  | drop (entry : k.anchors = none) (now : after = none)
  | keep (entry : k.anchors = none) (model : k.isModelStart = false) (now : after = before)

theorem enterNode_anchorStep {g : DurableGraphState} {attemptId nodeId nodeKind recovery step}
    (hg : s.graph = some g) (hmodel : k.isModelStart = false)
    (hentry : k.anchors = if recovery = .freshRetrieval then some ⟨nodeId, attemptId⟩ else none) :
    AnchorStep k s.anchor (s.enterNode g attemptId nodeId nodeKind recovery step).anchor := by
  have hafter := anchor_enterNode hg attemptId nodeId nodeKind recovery step
  by_cases hfresh : recovery = .freshRetrieval
  · rw [if_pos hfresh] at hentry hafter
    exact .set _ hentry hafter
  · rw [if_neg hfresh] at hentry hafter
    exact .keep hentry hmodel hafter

theorem GraphRule.anchorStep {event : GraphProgressEvent} (h : GraphRule s event s') :
    AnchorStep (.graph event) s.anchor s'.anchor := by
  cases h with
  | graphStarted => exact .drop rfl rfl
  | graphNodeEntered graph =>
    refine enterNode_anchorStep graph rfl ?_
    rename_i recovery _ _ _ _
    cases recovery <;> rfl
  | graphNodeRestarted graph =>
    refine enterNode_anchorStep graph rfl ?_
    rename_i recovery _ _ _ _
    cases recovery <;> rfl
  | graphNodeCompleted graph | graphResumed graph =>
    refine .keep rfl rfl ?_
    simp [anchor, graph]
  | graphSuspended graph => exact .drop rfl rfl
  | graphFinished graph terminal =>
    rcases terminal with ⟨_, _, _, rfl, -⟩ | ⟨_, _, _, _, rfl, -⟩
    · exact .drop rfl rfl
    · exact .drop rfl rfl

theorem Rule.anchorStep (h : Rule s k s') : AnchorStep k s.anchor s'.anchor := by
  cases h with
  | modelStarted => exact .drop rfl anchor_clearAnchor
  | retrievalFailed => exact .drop rfl anchor_clearAnchor
  | resolved terminal => cases k <;> first | exact .keep rfl rfl rfl | cases terminal
  | decided decision => cases k <;> first | exact .keep rfl rfl rfl | cases decision
  | noted note => cases k <;> first | exact .keep rfl rfl rfl | cases note
  | loop rule => cases rule <;> exact .keep rfl rfl rfl
  | graph rule => exact rule.anchorStep
  | _ => exact .keep rfl rfl rfl

/-- **The anchor in the log**: it is the last fresh entry, and no model call started since. -/
theorem replay_anchor {record : RunRecord} {events : List AgentEvent} {a : GraphRestartAnchor}
    (h : (initial record).replay codec events = .ok s) (ha : s.anchor = some a) :
    Since events (entersAnchor a) (fun e => e.kind.isModelStart || entersFresh e) := by
  refine history (R := fun log t => ∀ a, t.anchor = some a →
    Since log (entersAnchor a) (fun e => e.kind.isModelStart || entersFresh e))
    (fun a ha => nomatch (show none = some a from ha)) ?_ h a ha
  intro log e m m' _ ih hm a ha
  obtain ⟨next, bytes, -, hrule, -, rfl⟩ := (apply_ok hm).rule
  change next.anchor = some a at ha
  cases hrule.anchorStep with
  | set b entry now =>
    obtain rfl : b = a := Option.some.inj (now.symm.trans ha)
    exact since_concat (decide_eq_true entry)
  | drop entry now => exact absurd (now.symm.trans ha) nofun
  | keep entry model now =>
    refine (ih a (now.symm.trans ha)).concat ?_
    rw [model, entersFresh, entry]
    rfl

end DurableRunState

/-! ## Exactly when the anchor is safe -/

/-- **Restart-anchor safety.** Of a resumable graph log with an anchor, no model call, approval
or tool was started after the anchor's node was entered if and only if every approval and every
tool start of the log is followed by the entry of a later fresh-retrieval node. -/
theorem resumable_anchor_covers_no_effect_iff {record : RunRecord} {stored : DurableCheckpoint}
    {events : List AgentEvent} {nowUnixMillis : Nat} {now : Instant} {recovered : RecoveredRun}
    {a : GraphRestartAnchor}
    (h : recoverLoadedRun codec ⟨record, stored, events⟩ nowUnixMillis now =
      .ok (.resumable recovered))
    (ha : recovered.state.anchor = some a) :
    Since events (entersAnchor a) startsEffect ↔ Followed events startsGoverned entersFresh := by
  obtain ⟨state, hlog, hclass⟩ := recover_verified h
  obtain rfl : recovered.state = state := classify_state hclass
  constructor
  · intro hsafe
    have heffect : Followed events startsEffect entersFresh := by
      refine hsafe.followed (fun e he => ?_) (fun e he => startsEffect_eq_false_of_entersAnchor he)
      rw [entersFresh, of_decide_eq_true he]
      rfl
    intro j hj
    obtain ⟨e, he, hgov⟩ := at_iff.mp hj
    exact heffect j (at_iff.mpr ⟨e, he, by rw [startsEffect, Bool.or_eq_true]; exact .inr hgov⟩)
  · intro hfollowed
    refine (DurableRunState.replay_anchor hlog.replayed ha).of_reached fun j hj => ?_
    obtain ⟨e, he, heffect⟩ := at_iff.mp hj
    rw [startsEffect, Bool.or_eq_true] at heffect
    rcases heffect with hmodel | hgov
    · -- a model start drops the anchor by itself
      exact ⟨j, Nat.le_refl j, at_iff.mpr ⟨e, he, by rw [hmodel]; rfl⟩⟩
    · obtain ⟨i, hi, hfresh⟩ := hfollowed j (at_iff.mpr ⟨e, he, hgov⟩)
      obtain ⟨e', he', hanchor⟩ := at_iff.mp hfresh
      exact ⟨i, Nat.le_of_lt hi, at_iff.mpr ⟨e', he', by rw [hanchor, Bool.or_true]⟩⟩

/-- A graph that asks the model, retrieves, and then writes: the run stopped between the completed
write and the completion of its action node. -/
def completedWriteLog : List AgentEvent :=
  sampleLog
    [ .runStarted 1000,
      .graph (.graphStarted 7 ⟨"ask"⟩ .model .never),
      .graph (.graphNodeEntered ⟨10⟩ ⟨"ask"⟩ .model .never 1 8),
      .modelInvocationStarted ⟨20⟩ 1 4,
      .modelInvocationCompleted ⟨20⟩ none,
      .graph (.graphNodeCompleted ⟨10⟩ ⟨"ask"⟩ .succeeded ⟨"look"⟩ .retrieve .freshRetrieval),
      .graph (.graphNodeEntered ⟨11⟩ ⟨"look"⟩ .retrieve .freshRetrieval 2 8),
      .graph (.graphNodeCompleted ⟨11⟩ ⟨"look"⟩ .succeeded ⟨"write"⟩ .action .never),
      .graph (.graphNodeEntered ⟨12⟩ ⟨"write"⟩ .action .never 3 8),
      .approvalRequested ⟨30⟩ ⟨31⟩ ⟨32⟩ ⟨"workspace_write_file"⟩ .localWrite 1 4,
      .approvalGranted ⟨30⟩,
      .toolInvocationStarted ⟨32⟩ ⟨"workspace_write_file"⟩ .localWrite 1 4,
      .toolInvocationCompleted ⟨32⟩ ]

/-- **A completed write behind a live anchor**: the log recovers as resumable, the engine resumes
at the retrieval, and the approval and the write come after it. -/
theorem resumable_anchor_before_completed_write :
    ¬ ∀ (codec : EventCodec) (record : RunRecord) (stored : DurableCheckpoint)
        (events : List AgentEvent) (nowUnixMillis : Nat) (now : Instant)
        (recovered : RecoveredRun) (a : GraphRestartAnchor) (version : Nat) (digest : Bytes32),
      record.recoveryContract = .graph version digest →
      recoverLoadedRun codec ⟨record, stored, events⟩ nowUnixMillis now =
        .ok (.resumable recovered) →
      recovered.state.anchor = some a → Since events (entersAnchor a) startsEffect := by
  intro claim
  have hsince := claim plainCodec (sampleRecord (.graph 1 7))
    (.new (.initial (sampleRecord (.graph 1 7)))) completedWriteLog 2000 0 _ ⟨⟨"look"⟩, ⟨11⟩⟩ 1 7
    rfl rfl rfl
  obtain ⟨i, hi, hnone⟩ := hsince
  have hentry : ∀ i < completedWriteLog.length,
      At completedWriteLog (entersAnchor ⟨⟨"look"⟩, ⟨11⟩⟩) i → i ≤ 6 := by decide
  have htool : At completedWriteLog startsEffect 11 := by decide
  have hle := hentry i hi.lt hi
  exact hnone 11 (by omega) htool

/-- The same run stopped in its retrieval node satisfies both sides. -/
theorem resumable_anchor_in_retrieval :
    Followed (completedWriteLog.take 7) startsGoverned entersFresh ∧
      Since (completedWriteLog.take 7) (entersAnchor ⟨⟨"look"⟩, ⟨11⟩⟩) startsEffect := by
  have hfollowed : Followed (completedWriteLog.take 7) startsGoverned entersFresh := by
    intro j hj
    exact absurd hj ((by decide : ∀ j < (completedWriteLog.take 7).length,
      ¬ At (completedWriteLog.take 7) startsGoverned j) j hj.lt)
  have hrecover : ∃ recovered, recoverLoadedRun plainCodec ⟨sampleRecord (.graph 1 7),
        .new (.initial (sampleRecord (.graph 1 7))), completedWriteLog.take 7⟩ 2000 0 =
      .ok (.resumable recovered) ∧ recovered.state.anchor = some ⟨⟨"look"⟩, ⟨11⟩⟩ := ⟨_, rfl, rfl⟩
  obtain ⟨recovered, h, ha⟩ := hrecover
  exact ⟨hfollowed, (resumable_anchor_covers_no_effect_iff h ha).mpr hfollowed⟩

end LocalAgent
