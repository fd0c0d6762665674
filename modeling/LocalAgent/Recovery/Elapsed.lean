import LocalAgent.Recovery.Recover
import LocalAgent.Recovery.Waits

/-!
# The active time of a run

The durable state keeps no sum of active segments. It keeps one number, `started_at`, which
`GraphResumed` moves forward so that the time spent waiting drops out, and the active time that
`GraphSuspended` reports. An `Account` keeps the sum itself, with the clock reading of the last
boundary; `Accounted` relates the two and is kept by every accepted event, as long as a suspension
does not read a clock that is behind the last resumption.
-/
namespace LocalAgent

/-- The active time that a suspension reports. -/
def AgentEventKind.activeElapsed : AgentEventKind → Option Nat
  | .graph (.graphSuspended _ _ _ _ _ _ _ activeElapsedMillis) => some activeElapsedMillis
  | _ => none

/-- The length of the active segments that have ended, and the clock reading at which the last one
ended or the current one began. -/
structure Account where
  total : Nat := 0
  since : Option Nat := none
deriving DecidableEq, Repr

namespace Account

/-- A start, a suspension and a resumption are boundaries. A suspension does not carry the reading
of the clock, so the reading is given. -/
def enter (acc : Account) (reading : Option Nat) : AgentEventKind → Account
  | .runStarted startedAt => { acc with since := some startedAt }
  | .graph (.graphSuspended ..) =>
    match acc.since, reading with
    | some since, some now => ⟨acc.total + (now - since), some now⟩
    | _, _ => acc
  | .graph (.graphResumed _ _ _ resumedAt) => { acc with since := some resumedAt }
  | _ => acc

/-- The reading is not behind the last boundary by at most the active time so far. -/
def Unambiguous (acc : Account) (now : Nat) : Prop :=
  ∀ since, acc.since = some since → since ≤ now ∨ now + acc.total < since

end Account

namespace DurableRunState

variable {acc : Account} {s s' : DurableRunState} {k : AgentEventKind} {reading : Option Nat}

/-- The durable state keeps the account. -/
structure Accounted (acc : Account) (s : DurableRunState) : Prop where
  since : acc.since = s.context.startedAtUnixMillis.map (· + acc.total)
  fresh : s.context.startedAtUnixMillis = none → acc.total = 0
  pending : s.context.status = .pending ↔ s.context.startedAtUnixMillis = none
  started : s.graph.isSome = true → s.context.startedAtUnixMillis.isSome = true
  waiting : ∀ active, waitingElapsed s = some active → active = acc.total

theorem accounted_initial {record : RunRecord} : Accounted {} (initial record) where
  since := rfl
  fresh _ := rfl
  pending := ⟨fun _ => rfl, fun _ => rfl⟩
  started h := by cases h
  waiting active h := by cases h

/-- What a suspension reports is the time since `started_at`. -/
def ReadAt (s : DurableRunState) (now active : Nat) : Prop :=
  ∃ startedAt, s.context.startedAtUnixMillis = some startedAt ∧ now = startedAt + active

/-- Only a start and a resumption set `started_at`. -/
theorem Rule.keeps_started (h : Rule s k s') (hstart : ∀ startedAt, k ≠ .runStarted startedAt)
    (hresumes : k.resumes = none) :
    s'.context.startedAtUnixMillis = s.context.startedAtUnixMillis := by
  cases h with
  | runStarted => exact absurd rfl (hstart _)
  | loop rule => cases rule <;> rfl
  | graph rule =>
    cases rule with
    | graphResumed => cases hresumes
    | _ => rfl
  | _ => rfl

theorem Accounted.running (h : Accounted acc s) (hrunning : s.context.status = .running) :
    s.context.startedAtUnixMillis.isSome = true := by
  refine Option.isSome_iff_ne_none.mpr fun hnone => ?_
  rw [h.pending.mpr hnone] at hrunning
  cases hrunning

/-- An event that keeps the position and is no boundary. -/
theorem Accounted.still (h : Accounted acc s)
    (hstarted : s'.context.startedAtUnixMillis = s.context.startedAtUnixMillis)
    (hpending : s'.context.status = .pending ↔ s.context.status = .pending)
    (hgraph : s'.graph.isSome = s.graph.isSome) (hposition : s'.graphPosition = s.graphPosition) :
    Accounted acc s' where
  since := by rw [hstarted, h.since]
  fresh := by rw [hstarted]; exact h.fresh
  pending := by rw [hstarted, hpending]; exact h.pending
  started := by rw [hgraph, hstarted]; exact h.started
  waiting active hactive := by
    rw [waitingElapsed, hposition] at hactive
    exact h.waiting active hactive

/-- A graph event that is no boundary leaves a graph that does not wait. -/
theorem Accounted.moved (h : Accounted acc s)
    (hstarted : s'.context.startedAtUnixMillis = s.context.startedAtUnixMillis)
    (hpending : s'.context.status = .pending ↔ s.context.status = .pending)
    (hsome : s.context.startedAtUnixMillis.isSome = true) (hwaiting : waitingElapsed s' = none) :
    Accounted acc s' where
  since := by rw [hstarted, h.since]
  fresh := by rw [hstarted]; exact h.fresh
  pending := by rw [hstarted, hpending]; exact h.pending
  started _ := by rw [hstarted]; exact hsome
  waiting active hactive := by
    rw [hwaiting] at hactive
    cases hactive

/-- A suspension whose reading is unambiguous ends a segment that began at the last boundary. -/
theorem Accounted.suspends (h : Accounted acc s) {now active : Nat} (hread : s.ReadAt now active)
    (hnow : acc.Unambiguous now) :
    ∃ since, acc.since = some since ∧ since ≤ now ∧ active = acc.total + (now - since) := by
  obtain ⟨startedAt, hstarted, rfl⟩ := hread
  have hsince : acc.since = some (startedAt + acc.total) := by rw [h.since, hstarted]; rfl
  refine ⟨_, hsince, ?_⟩
  rcases hnow _ hsince with hle | hlt
  · omega
  · omega

theorem GraphRule.accounted {event : GraphProgressEvent} (h : GraphRule s event s')
    (hs : Accounted acc s)
    (hclock : ∀ active, AgentEventKind.activeElapsed (.graph event) = some active →
      ∃ now, reading = some now ∧ s.ReadAt now active ∧ acc.Unambiguous now) :
    Accounted (acc.enter reading (.graph event)) s' := by
  cases h with
  | graphStarted fresh position running contract =>
    exact hs.moved rfl Iff.rfl (hs.running running) rfl
  | graphNodeEntered graph position accepted =>
    exact hs.moved rfl Iff.rfl (hs.started (by rw [graph]; rfl)) rfl
  | graphNodeRestarted graph position accepted =>
    exact hs.moved rfl Iff.rfl (hs.started (by rw [graph]; rfl)) rfl
  | graphNodeCompleted graph position settled retrieved =>
    exact hs.moved rfl Iff.rfl (hs.started (by rw [graph]; rfl)) rfl
  | @graphSuspended g attemptId nodeId waitId requestId proposalId callId digest active graph position =>
    obtain ⟨now, rfl, hread, hnow⟩ := hclock active rfl
    obtain ⟨since, hsince, hle, hactive⟩ := hs.suspends hread hnow
    obtain ⟨startedAt, hstarted, rfl⟩ := hread
    have henter : acc.enter (some (startedAt + active)) (.graph (.graphSuspended attemptId nodeId waitId
        requestId proposalId callId digest active)) = ⟨active, some (startedAt + active)⟩ := by
      simp only [Account.enter, hsince, ← hactive]
    rw [henter]
    constructor
    · show _ = s.context.startedAtUnixMillis.map _
      rw [hstarted]
      rfl
    · intro hnone
      rw [show s.context.startedAtUnixMillis = none from hnone] at hstarted
      cases hstarted
    · exact hs.pending
    · intro _
      exact hs.started (by rw [graph]; rfl)
    · intro a ha
      exact (Option.some.inj ha).symm
  | @graphResumed g attemptId nodeId waitId _ _ _ _ active resumedAt rebased graph position settled clock =>
    have hactive : active = acc.total := hs.waiting active (by simp [waitingElapsed, graphPosition, graph, position])
    have hsome := hs.started (by rw [graph]; rfl)
    obtain ⟨hle, rfl⟩ : active ≤ resumedAt ∧ resumedAt - active = rebased := by
      simpa [checkedSub] using clock
    constructor
    · show some resumedAt = some (resumedAt - active + acc.total)
      rw [← hactive, Nat.sub_add_cancel hle]
    · intro hnone
      cases hnone
    · refine ⟨fun hp => ?_, fun hnone => by cases hnone⟩
      rw [hs.pending.mp hp] at hsome
      cases hsome
    · intro _
      rfl
    · intro a ha
      cases ha
  | graphFinished graph terminal settled retrieved running place =>
    have hsome := hs.running running
    obtain ⟨a, n, steps, rfl, -⟩ | ⟨a, n, steps, f, rfl, -⟩ := terminal
    · exact hs.moved rfl (by simp [running]) hsome rfl
    · exact hs.moved rfl (by simp [running]) hsome rfl

/-- **An accepted event keeps the account.** -/
theorem Rule.accounted (h : Rule s k s') (hs : Accounted acc s)
    (hclock : ∀ active, k.activeElapsed = some active →
      ∃ now, reading = some now ∧ s.ReadAt now active ∧ acc.Unambiguous now) :
    Accounted (acc.enter reading k) s' := by
  cases h with
  | @runStarted startedAt pending agrees =>
    have hnone := hs.pending.mp pending
    have hzero := hs.fresh hnone
    have hgraph : s.graph = none := by
      refine Option.eq_none_iff_forall_ne_some.mpr fun g hg => ?_
      have hsome := hs.started (by rw [hg]; rfl)
      rw [hnone] at hsome
      cases hsome
    constructor
    · show some startedAt = some (startedAt + acc.total)
      rw [hzero]
      rfl
    · intro h
      cases h
    · constructor
      · intro hp
        cases hp
      · intro hp
        cases hp
    · intro _
      rfl
    · intro active hactive
      simp [waitingElapsed, graphPosition, hgraph] at hactive
  | runFinished running => exact hs.still rfl (by simp [running]) rfl rfl
  | loop rule => cases rule <;> exact hs.still rfl Iff.rfl rfl rfl
  | graph rule => exact rule.accounted hs hclock
  | modelStarted =>
    refine hs.still rfl Iff.rfl ?_ graphPosition_clearAnchor
    simp [clearAnchor]
  | retrievalFailed =>
    refine hs.still rfl Iff.rfl ?_ graphPosition_clearAnchor
    simp [clearAnchor]
  | resolved terminal => cases k <;> first | (cases terminal; done) | exact hs.still rfl Iff.rfl rfl rfl
  | decided decision => cases k <;> first | (cases decision; done) | exact hs.still rfl Iff.rfl rfl rfl
  | noted note => cases k <;> first | (cases note; done) | exact hs.still rfl Iff.rfl rfl rfl
  | _ => exact hs.still rfl Iff.rfl rfl rfl

theorem apply_accounted {codec : EventCodec} {e : AgentEvent} (h : s.apply codec e = .ok s')
    (hs : Accounted acc s)
    (hclock : ∀ active, e.kind.activeElapsed = some active →
      ∃ now, reading = some now ∧ s.ReadAt now active ∧ acc.Unambiguous now) :
    Accounted (acc.enter reading e.kind) s' := by
  obtain ⟨m, bytes, -, hrule, -, rfl⟩ := (apply_ok h).rule
  have hm := hrule.accounted hs hclock
  exact ⟨hm.since, hm.fresh, hm.pending, hm.started, hm.waiting⟩

end DurableRunState

/-! ## Recovering -/

open DurableRunState

variable {acc : Account} {state : DurableRunState} {contract : RecoveryContract}
  {nowUnixMillis : Nat} {now : Instant} {recovered : RecoveredRun}

/-- The context is running, and its deadline leaves the budget less `elapsed`. -/
def RecoveredRun.Leaves (recovered : RecoveredRun) (now : Instant) (elapsed : Duration) : Prop :=
  elapsed < recovered.state.context.budget.maxElapsed ∧
    recovered.context.runtime = some ⟨now + (recovered.state.context.budget.maxElapsed - elapsed)⟩

end LocalAgent
