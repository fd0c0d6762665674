import LocalAgent.Service.Runs
import LocalAgent.Service.Delivery
import LocalAgent.Recovery.Recover

/-!
# The status of a run (`agent-service/src/lib.rs:909, 1582`)

`get_run_status` answers from the slot of the session when the slot is this run's, and from the
recovered run otherwise. The slot has no last sequence. The recovered run has the number of the last
event of its log (`getRunStatus_ok`).
-/
namespace LocalAgent

/-- What the ports and the shared state answer during one call of `get_run_status`: `find_run`, the
policy, the slot of the session, the fault of the store or of the clock, the two clocks, and the stored
result with its duration. -/
structure StatusAnswers where
  authorized : Except PersistencePortError (Option DurableRunSummary)
  granted : DurableRunAuthorization → Bool
  slot : Option ActiveRun
  fault : Option HarnessError
  nowUnixMillis : Nat
  now : Instant
  stored : Option (ApplicationResult × Nat)

/-- `recover_run` (execution.rs:137). -/
def recoverStored (codec : EventCodec) (s : Store) (key : RunKey) (a : StatusAnswers) :
    Except HarnessError RecoveryDisposition :=
  match a.fault with
  | some e => .error e
  | none =>
    match s.loadRun key with
    | .error e => .error (.persistence e)
    | .ok loaded =>
      match recoverLoadedRun codec loaded a.nowUnixMillis a.now with
      | .error e => .error (.recovery e)
      | .ok disposition => .ok disposition

/-- `view_for_disposition` (lib.rs:1582) with the result that is stored. -/
def storedView (workflows : List (RecoveryContract × WorkflowId)) (disposition : RecoveryDisposition)
    (stored : Option (ApplicationResult × Nat)) : RunView :=
  { dispositionView disposition with
    workflowId := workflows.lookup (recoveryContract disposition)
    result := stored.map Prod.fst
    durationMillis := stored.map Prod.snd }

/-- `AgentService::get_run_status` (lib.rs:909); `workflows` are its `recovery_workflows`. -/
def getRunStatus (workflows : List (RecoveryContract × WorkflowId)) (codec : EventCodec) (s : Store)
    (key : RunKey) (a : StatusAnswers) : Except ServiceError RunView :=
  match runAuthorization a.authorized with
  | .error e => .error e
  | .ok authorization =>
    if !a.granted authorization then .error .unauthorized
    else
      match a.slot.filter fun run => run.key = key with
      | some run => .ok (activeView run)
      | none =>
        match recoverStored codec s key a with
        | .error e => .error (.harness e)
        | .ok disposition => .ok (storedView workflows disposition a.stored)

variable {workflows : List (RecoveryContract × WorkflowId)} {codec : EventCodec} {s : Store}
  {key : RunKey} {a : StatusAnswers}

/-- The last sequence of a recovered run is that of its log. -/
theorem recoverStored_lastSequence {d : RecoveryDisposition} (hs : s.AllNumbered)
    (h : recoverStored codec s key a = .ok d) :
    d.state.lastSequence = Store.lastOf (s.log key.runId).length := by
  unfold recoverStored at h
  split at h
  · cases h
  split at h
  · cases h
  rename_i loaded hload
  split at h
  · cases h
  rename_i d' hrecover
  cases h
  obtain ⟨row, hrow, -, -, -, hevents⟩ := Store.loadRun_ok hload
  have hlog : loaded.events = s.log key.runId := by
    rw [hevents, (hs _ row hrow).sorted, Store.log, hrow]
  obtain ⟨state, hreplayed, hclass⟩ := recover_verified hrecover
  rw [classify_state hclass, ← hlog]
  have hreplay := hreplayed.replayed
  cases hnil : loaded.events with
  | nil =>
    rw [hnil] at hreplay
    cases hreplay
    rfl
  | cons e rest =>
    have hne : loaded.events ≠ [] := by simp [hnil]
    rw [replay_lastSequence hreplay hreplayed.sequenced hne, hnil]
    simp [Store.lastOf]

/-- A status names no last sequence or that of the log. -/
theorem getRunStatus_ok {view : RunView} (hs : s.AllNumbered)
    (h : getRunStatus workflows codec s key a = .ok view) :
    view.lastSequence = none ∨ view.lastSequence = Store.lastOf (s.log key.runId).length := by
  unfold getRunStatus at h
  split at h
  · cases h
  split at h
  · cases h
  split at h
  · cases h
    exact .inl rfl
  split at h
  · cases h
  · rename_i d hrecover
    cases h
    exact .inr (recoverStored_lastSequence hs hrecover)

end LocalAgent
