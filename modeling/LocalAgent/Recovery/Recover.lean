import LocalAgent.Harness.Context
import LocalAgent.Recovery.Rules

/-!
# `recover_loaded_run` (`recovery.rs:1313-1469`)

Recovery reads a stored run three times: a first loop checks identities and sequence numbers of
the whole log and replays the part the checkpoint covers, the checkpoint is compared with that
replay at its own sequence number, and a second loop applies the remaining events to the
checkpoint. The result is then classified.

Main theorems: `recover_eq_replay` (whatever the checkpoint, the classified state is the replay
of the whole log from the initial state) and `recover_of_replayed_checkpoint` (a checkpoint that
was taken from the log changes nothing at all).
-/
namespace LocalAgent

inductive RecoveryError where
  | unsupportedOrInconsistentSchema | corruptLog | corruptCheckpoint | clockAmbiguous
  | invalidRuntime
deriving DecidableEq, Repr

inductive ManualReconciliationReason where
  | unresolvedEffect (effect : PendingEffect)
  | nonRestartableProgram
  | transientStateUnavailable
deriving DecidableEq, Repr

/-- `RecoveredRun` and `RecoveredWaitingRun` have the same three fields. -/
structure RecoveredRun where
  context : RunContext
  state : DurableRunState
  recoveryContract : RecoveryContract
deriving DecidableEq

inductive RecoveryDisposition where
  | completed (state : DurableRunState)
  | terminalFailure (state : DurableRunState) (outcome : RunOutcome)
  | resumable (recovered : RecoveredRun)
  | waiting (recovered : RecoveredRun)
  | manualReconciliationRequired (state : DurableRunState) (reason : ManualReconciliationReason)
deriving DecidableEq

/-- The state a disposition carries. -/
def RecoveryDisposition.state : RecoveryDisposition → DurableRunState
  | .completed s | .terminalFailure s _ | .manualReconciliationRequired s _ => s
  | .resumable r | .waiting r => r.state

/-- The body of the first loop: apply the event if the checkpoint covers it, and compare with
the checkpoint when its own event is reached (recovery.rs:1338-1347). -/
def coverStep (codec : EventCodec) (checkpoint state : DurableRunState) (event : AgentEvent) :
    Except RecoveryError DurableRunState :=
  if checkpoint.lastSequence.any (event.sequence ≤ ·) then
    match state.apply codec event with
    | .error _ => .error .corruptLog
    | .ok state' =>
      if checkpoint.lastSequence = some event.sequence && state' ≠ checkpoint then
        .error .corruptCheckpoint
      else .ok state'
  else .ok state

/-- The first loop (recovery.rs:1330-1349). -/
def verifyLog (codec : EventCodec) (record : RunRecord) (checkpoint : DurableRunState) :
    Nat → DurableRunState → List AgentEvent → Except RecoveryError Unit
  | _, _, [] => .ok ()
  | expected, state, event :: events =>
    if event.runId ≠ record.key.runId || event.schemaVersion ≠ currentEventSchemaVersion
        || event.sequence ≠ expected then .error .corruptLog
    else
      match coverStep codec checkpoint state event with
      | .error e => .error e
      | .ok state' =>
        match checkedNext expected with
        | none => .error .corruptLog
        | some next => verifyLog codec record checkpoint next state' events

/-- The `retrieval_restart` flag (recovery.rs:1433). -/
def retrievalRestart (contract : RecoveryContract) (state : DurableRunState) : Bool :=
  (match contract with | .restartableRetrieval _ => true | _ => false)
    && state.loopPosition = .phaseRunning .retrieve && state.restartableKnowledgeRetrieval.isSome

/-- The `graph_restart` flag (recovery.rs:1439). -/
def graphRestart (contract : RecoveryContract) (state : DurableRunState) : Bool :=
  match contract with
  | .graph _ digest => state.graph.any fun g => g.definitionDigest = digest && g.canResume
  | _ => false

/-- The active time of a waiting run (recovery.rs:1396). -/
def waitingElapsed (state : DurableRunState) : Option Nat :=
  match state.graphPosition with
  | some (.waiting _ _ _ _ _ _ _ activeElapsedMillis) => some activeElapsedMillis
  | _ => none

/-- The classification of a running, settled state after its active time (recovery.rs:1405-1468). -/
def classifyRunning (contract : RecoveryContract) (elapsed : Duration) (now : Instant)
    (state : DurableRunState) : Except RecoveryError RecoveryDisposition :=
  if elapsed ≥ state.context.budget.maxElapsed then
    .ok (.terminalFailure state (.budgetExceeded .elapsed))
  else if (waitingElapsed state).isSome then
    match RunContext.fromRecovery state elapsed now contract with
    | .error _ => .error .invalidRuntime
    | .ok context => .ok (.waiting ⟨context, state, contract⟩)
  else if contract = .nonRestartable then
    .ok (.manualReconciliationRequired state .nonRestartableProgram)
  else if !retrievalRestart contract state && !graphRestart contract state
      && !(state.continuation = .initialBoundary || state.continuation = .restartableBoundary) then
    .ok (.manualReconciliationRequired state .transientStateUnavailable)
  else
    match RunContext.fromRecovery state elapsed now contract with
    | .error _ => .error .invalidRuntime
    | .ok context => .ok (.resumable ⟨context, state, contract⟩)

/-- The classification of the replayed state (recovery.rs:1376-1404). -/
def classify (contract : RecoveryContract) (nowUnixMillis : Nat) (now : Instant)
    (state : DurableRunState) : Except RecoveryError RecoveryDisposition :=
  match state.pendingEffects with
  | effect :: _ => .ok (.manualReconciliationRequired state (.unresolvedEffect effect))
  | [] =>
    match state.context.status with
    | .finished .completed => .ok (.completed state)
    | .finished outcome => .ok (.terminalFailure state outcome)
    | .pending => .ok (.manualReconciliationRequired state .transientStateUnavailable)
    | .running =>
      match state.context.startedAtUnixMillis with
      | none => .error .corruptCheckpoint
      | some started =>
        match checkedSub nowUnixMillis started with
        | none => .error .clockAmbiguous
        | some elapsedMillis =>
          if (waitingElapsed state).any (elapsedMillis < ·) then .error .clockAmbiguous
          else classifyRunning contract (fromMillis ((waitingElapsed state).getD elapsedMillis)) now
            state

/-- `recover_loaded_run` (recovery.rs:1313). -/
def recoverLoadedRun (codec : EventCodec) (loaded : LoadedRun) (nowUnixMillis : Nat)
    (now : Instant) : Except RecoveryError RecoveryDisposition :=
  let record := loaded.record
  let checkpoint := loaded.checkpoint.state
  if record.storeSchemaVersion ≠ currentStoreSchemaVersion
      || record.checkpointSchemaVersion ≠ currentCheckpointSchemaVersion
      || loaded.checkpoint.checkpointSchemaVersion ≠ currentCheckpointSchemaVersion
      || checkpoint.context.key ≠ record.key || checkpoint.context.budget ≠ record.budget then
    .error .unsupportedOrInconsistentSchema
  else
    match verifyLog codec record checkpoint 0 (.initial record) loaded.events with
    | .error e => .error e
    | .ok () =>
      if checkpoint.lastSequence.any
          (fun n => (loaded.events[n]?).map AgentEvent.sequence ≠ some n) then
        .error .corruptCheckpoint
      else if checkpoint.lastSequence.isNone && checkpoint ≠ .initial record then
        .error .corruptCheckpoint
      else
        -- `usize` has 64 bits: the conversion of the saturated tail start cannot fail
        let tailStart := checkpoint.lastSequence.elim 0 fun n => min (n + 1) u64Max
        if tailStart > loaded.events.length then .error .corruptLog
        else
          match checkpoint.replay codec (loaded.events.drop tailStart) with
          | .error _ => .error .corruptLog
          | .ok state => classify record.recoveryContract nowUnixMillis now state

/-! ## The first loop -/

variable {codec : EventCodec} {record : RunRecord} {checkpoint state : DurableRunState}
  {events : List AgentEvent}

/-- What the first loop checks whatever the checkpoint is: the log carries the run's identity,
the current version and consecutive sequence numbers that stay below the last `u64`. -/
def WellSequenced (record : RunRecord) : Nat → List AgentEvent → Prop
  | _, [] => True
  | expected, event :: events =>
    event.runId = record.key.runId ∧ event.schemaVersion = currentEventSchemaVersion ∧
      event.sequence = expected ∧ expected < u64Max ∧ WellSequenced record (expected + 1) events

/-- One turn of the first loop. -/
theorem verifyLog_cons {expected : Nat} {event : AgentEvent}
    (h : verifyLog codec record checkpoint expected state (event :: events) = .ok ()) :
    (event.runId = record.key.runId ∧ event.schemaVersion = currentEventSchemaVersion ∧
      event.sequence = expected ∧ expected < u64Max) ∧
    ∃ state', coverStep codec checkpoint state event = .ok state' ∧
      verifyLog codec record checkpoint (expected + 1) state' events = .ok () := by
  unfold verifyLog at h
  split at h
  · cases h
  · rename_i hid
    simp only [Bool.or_eq_true, decide_eq_true_eq, not_or, not_not, ne_eq] at hid
    split at h
    · cases h
    · rename_i state' hcover
      split at h
      · cases h
      · rename_i next hnext
        obtain ⟨hlt, rfl⟩ := checkedNext_eq_some.mp hnext
        exact ⟨⟨hid.1.1, hid.1.2, hid.2, hlt⟩, state', hcover, h⟩

theorem verifyLog_wellSequenced {expected : Nat}
    (h : verifyLog codec record checkpoint expected state events = .ok ()) :
    WellSequenced record expected events := by
  induction events generalizing expected state with
  | nil => trivial
  | cons event events ih =>
    obtain ⟨⟨hrun, hver, hseq, hlt⟩, state', -, hrest⟩ := verifyLog_cons h
    exact ⟨hrun, hver, hseq, hlt, ih hrest⟩

theorem WellSequenced.length_le {expected : Nat} (h : WellSequenced record expected events)
    (hexp : expected ≤ u64Max) : expected + events.length ≤ u64Max := by
  induction events generalizing expected with
  | nil => simpa using hexp
  | cons event events ih =>
    obtain ⟨-, -, -, hlt, hrest⟩ := h
    have := ih hrest hlt
    rw [List.length_cons]
    omega

/-- The `i`-th event carries the `i`-th number. -/
theorem WellSequenced.getElem?_sequence {expected : Nat} (h : WellSequenced record expected events)
    {i : Nat} (hi : i < events.length) :
    (events[i]?).map AgentEvent.sequence = some (expected + i) := by
  induction events generalizing expected i with
  | nil => exact absurd hi (Nat.not_lt_zero i)
  | cons event events ih =>
    obtain ⟨-, -, hseq, -, hrest⟩ := h
    cases i with
    | zero => simp [hseq]
    | succ i =>
      rw [List.getElem?_cons_succ, ih hrest (Nat.lt_of_succ_lt_succ hi)]
      congr 1
      omega

theorem WellSequenced.take {expected : Nat} (h : WellSequenced record expected events) (n : Nat) :
    WellSequenced record expected (events.take n) := by
  induction events generalizing expected n with
  | nil =>
    rw [List.take_nil]
    trivial
  | cons event events ih =>
    obtain ⟨hrun, hver, hseq, hlt, hrest⟩ := h
    cases n with
    | zero => trivial
    | succ n => exact ⟨hrun, hver, hseq, hlt, ih hrest n⟩

/-- An event that the checkpoint covers is applied. -/
theorem coverStep_covered {event : AgentEvent} {n : Nat} {state' : DurableRunState}
    (hn : checkpoint.lastSequence = some n) (hle : event.sequence ≤ n)
    (h : coverStep codec checkpoint state event = .ok state') :
    state.apply codec event = .ok state' ∧ (event.sequence = n → state' = checkpoint) := by
  unfold coverStep at h
  rw [if_pos (by simpa [hn] using hle)] at h
  split at h
  · cases h
  · rename_i next happly
    split at h
    · cases h
    · rename_i hne
      cases h
      refine ⟨happly, fun heq => ?_⟩
      simpa [hn, heq] using hne

/-- The checkpoint the first loop lets through is the replay of the events it covers. -/
theorem verifyLog_covered {expected n : Nat}
    (h : verifyLog codec record checkpoint expected state events = .ok ())
    (hn : checkpoint.lastSequence = some n) (hle : expected ≤ n)
    (hlt : n < expected + events.length) :
    state.replay codec (events.take (n + 1 - expected)) = .ok checkpoint := by
  induction events generalizing expected state with
  | nil => exact absurd hlt (by simpa using hle)
  | cons event events ih =>
    obtain ⟨⟨-, -, hseq, -⟩, state', hcover, hrest⟩ := verifyLog_cons h
    obtain ⟨happly, hlast⟩ := coverStep_covered hn (hseq ▸ hle) hcover
    have hsplit : n + 1 - expected = (n - expected) + 1 := by omega
    rw [hsplit, List.take_succ_cons, DurableRunState.replay_cons]
    refine ⟨state', happly, ?_⟩
    rcases Nat.eq_or_lt_of_le hle with heq | hgt
    · rw [← hlast (hseq.trans heq), heq, Nat.sub_self, List.take_zero]
      rfl
    · have htail := ih hrest hgt (by rw [List.length_cons] at hlt; omega)
      rwa [show n + 1 - (expected + 1) = n - expected by omega] at htail

/-! ## Recovery is replay -/

/-- The log a recovery can classify: a current record, and events that replay. -/
structure ReplayedLog (codec : EventCodec) (record : RunRecord) (events : List AgentEvent)
    (state : DurableRunState) : Prop where
  store : record.storeSchemaVersion = currentStoreSchemaVersion
  recordCheckpoint : record.checkpointSchemaVersion = currentCheckpointSchemaVersion
  sequenced : WellSequenced record 0 events
  replayed : (DurableRunState.initial record).replay codec events = .ok state

/-- What `recover_loaded_run` has tested when it classifies. -/
theorem recover_tested {loaded : LoadedRun} {nowUnixMillis : Nat} {now : Instant}
    {d : RecoveryDisposition} (h : recoverLoadedRun codec loaded nowUnixMillis now = .ok d) :
    (loaded.record.storeSchemaVersion = currentStoreSchemaVersion ∧
      loaded.record.checkpointSchemaVersion = currentCheckpointSchemaVersion) ∧
    verifyLog codec loaded.record loaded.checkpoint.state 0 (.initial loaded.record) loaded.events =
      .ok () ∧
    (loaded.checkpoint.state.lastSequence = none → loaded.checkpoint.state = .initial loaded.record) ∧
    (∀ n, loaded.checkpoint.state.lastSequence = some n → n < loaded.events.length) ∧
    ∃ state, loaded.checkpoint.state.replay codec
        (loaded.events.drop (loaded.checkpoint.state.lastSequence.elim 0 (· + 1))) = .ok state ∧
      classify loaded.record.recoveryContract nowUnixMillis now state = .ok d := by
  simp only [recoverLoadedRun] at h
  split at h
  · cases h
  rename_i hschema
  simp only [Bool.or_eq_true, decide_eq_true_eq, not_or, not_not, ne_eq] at hschema
  split at h
  · cases h
  rename_i hverify
  have hlen := (verifyLog_wellSequenced hverify).length_le (Nat.zero_le _)
  split at h
  · cases h
  rename_i hindex
  split at h
  · cases h
  rename_i hinitial
  split at h
  · cases h
  split at h
  · cases h
  rename_i state htail
  have hcovered : ∀ n, loaded.checkpoint.state.lastSequence = some n → n < loaded.events.length := by
    intro n hn
    have hget : (loaded.events[n]?).map AgentEvent.sequence = some n := by simpa [hn] using hindex
    by_contra hge
    rw [List.getElem?_eq_none (Nat.le_of_not_lt hge)] at hget
    cases hget
  refine ⟨hschema.1.1.1, hverify, fun hn => by simpa [hn] using hinitial, hcovered, state, ?_, h⟩
  cases hn : loaded.checkpoint.state.lastSequence with
  | none =>
    rw [hn] at htail
    exact htail
  | some n =>
    have hlt := hcovered n hn
    have hstart : min (n + 1) u64Max = n + 1 := Nat.min_eq_left (by omega)
    rw [hn, Option.elim_some, hstart] at htail
    exact htail

/-- The checkpoint of a recovered run is the replay of a prefix of its log. -/
theorem recover_covered {loaded : LoadedRun} {nowUnixMillis : Nat} {now : Instant}
    {d : RecoveryDisposition} (h : recoverLoadedRun codec loaded nowUnixMillis now = .ok d) :
    (DurableRunState.initial loaded.record).replay codec
        (loaded.events.take (loaded.checkpoint.state.lastSequence.elim 0 (· + 1))) =
      .ok loaded.checkpoint.state := by
  obtain ⟨-, hverify, hinitial, hcovered, -⟩ := recover_tested h
  cases hn : loaded.checkpoint.state.lastSequence with
  | none =>
    rw [Option.elim_none, List.take_zero, hinitial hn]
    rfl
  | some n => exact verifyLog_covered hverify hn (Nat.zero_le n) (by have := hcovered n hn; omega)

/-- What `recover_loaded_run` has established when it classifies. -/
theorem recover_verified {loaded : LoadedRun} {nowUnixMillis : Nat} {now : Instant}
    {d : RecoveryDisposition} (h : recoverLoadedRun codec loaded nowUnixMillis now = .ok d) :
    ∃ state, ReplayedLog codec loaded.record loaded.events state ∧
      classify loaded.record.recoveryContract nowUnixMillis now state = .ok d := by
  obtain ⟨hschema, hverify, -, -, state, htail, hclass⟩ := recover_tested h
  refine ⟨state, ⟨hschema.1, hschema.2, verifyLog_wellSequenced hverify, ?_⟩, hclass⟩
  have hcovered := recover_covered h
  rw [← List.take_append_drop (loaded.checkpoint.state.lastSequence.elim 0 (· + 1)) loaded.events]
  exact DurableRunState.replay_append.mpr ⟨_, hcovered, htail⟩

theorem classifyRunning_state {contract : RecoveryContract} {elapsed : Duration} {now : Instant}
    {d : RecoveryDisposition} (h : classifyRunning contract elapsed now state = .ok d) :
    d.state = state := by
  unfold classifyRunning at h
  repeat' split at h
  all_goals cases h
  all_goals rfl

/-- Whatever the disposition, it carries the classified state. -/
theorem classify_state {contract : RecoveryContract} {nowUnixMillis : Nat} {now : Instant}
    {d : RecoveryDisposition} (h : classify contract nowUnixMillis now state = .ok d) :
    d.state = state := by
  unfold classify at h
  repeat' split at h
  all_goals first
    | exact classifyRunning_state h
    | cases h
  all_goals rfl

/-- The three ways to be resumable. -/
structure RestartPoint (contract : RecoveryContract) (state : DurableRunState) : Prop where
  settled : state.pendingEffects = []
  running : state.context.status = .running
  boundary : retrievalRestart contract state = true ∨ graphRestart contract state = true ∨
    state.continuation = .initialBoundary ∨ state.continuation = .restartableBoundary

theorem classifyRunning_resumable {contract : RecoveryContract} {elapsed : Duration} {now : Instant}
    {recovered : RecoveredRun}
    (h : classifyRunning contract elapsed now state = .ok (.resumable recovered)) :
    recovered.recoveryContract = contract ∧
      (retrievalRestart contract state = true ∨ graphRestart contract state = true ∨
        state.continuation = .initialBoundary ∨ state.continuation = .restartableBoundary) := by
  unfold classifyRunning at h
  split at h
  · cases h
  split at h
  · split at h <;> cases h
  split at h
  · cases h
  split at h
  · cases h
  · rename_i hrestart
    split at h
    · cases h
    · cases h
      refine ⟨rfl, ?_⟩
      simpa only [Bool.and_eq_true, Bool.not_eq_true', not_and_or, Bool.not_eq_false,
        Bool.or_eq_true, decide_eq_true_eq, or_assoc] using hrestart

theorem classify_resumable {contract : RecoveryContract} {nowUnixMillis : Nat} {now : Instant}
    {recovered : RecoveredRun}
    (h : classify contract nowUnixMillis now state = .ok (.resumable recovered)) :
    recovered.state = state ∧ recovered.recoveryContract = contract ∧
      RestartPoint contract state := by
  have hstate : recovered.state = state := classify_state h
  unfold classify at h
  split at h
  · cases h
  rename_i hpending
  split at h
  · cases h
  · cases h
  · cases h
  rename_i hrunning
  repeat' split at h
  · cases h
  · cases h
  · cases h
  · obtain ⟨hcontract, hboundary⟩ := classifyRunning_resumable h
    exact ⟨hstate, hcontract, hpending, hrunning, hboundary⟩

/-! ## A checkpoint of a prefix changes nothing -/

/-- The sequence numbers of a log that replays. -/
theorem replay_wellSequenced {k : Nat} {final : DurableRunState}
    (h : state.replay codec events = .ok final) (hkey : state.context.key = record.key)
    (hk : state.expectedSequence = k) (hlen : k + events.length ≤ u64Max) :
    WellSequenced record k events := by
  induction events generalizing state k with
  | nil => trivial
  | cons event events ih =>
    obtain ⟨m, hm, hrest⟩ := DurableRunState.replay_cons.mp h
    have hacc := DurableRunState.apply_ok hm
    rw [List.length_cons] at hlen
    have hseq : event.sequence = k := hacc.sequence.trans hk
    have hlt : k < u64Max := by omega
    have hnext : m.expectedSequence = k + 1 := by
      rw [DurableRunState.expectedSequence, DurableRunState.apply_lastSequence hm, hseq]
      simp [checkedNext, hlt]
    have hkey' : m.context.key = record.key := (DurableRunState.apply_identity hm).1.trans hkey
    exact ⟨hacc.run.trans (congrArg RunKey.runId hkey), hacc.version, hseq, hlt,
      ih hrest hkey' hnext (by omega)⟩

/-- A log that the reducer accepts, of a length a vector can have, is a log recovery can classify. -/
theorem ReplayedLog.of_replay (hstore : record.storeSchemaVersion = currentStoreSchemaVersion)
    (hversion : record.checkpointSchemaVersion = currentCheckpointSchemaVersion)
    (hlen : events.length ≤ u64Max)
    (h : (DurableRunState.initial record).replay codec events = .ok state) :
    ReplayedLog codec record events state :=
  ⟨hstore, hversion, replay_wellSequenced h rfl rfl (by omega), h⟩

/-- The number a replay stops at. -/
theorem replay_lastSequence {k : Nat} {final : DurableRunState}
    (h : state.replay codec events = .ok final) (hseq : WellSequenced record k events)
    (hne : events ≠ []) : final.lastSequence = some (k + events.length - 1) := by
  obtain ⟨init, last, rfl⟩ := List.eq_nil_or_concat events |>.resolve_left hne
  rw [List.concat_eq_append] at h hseq ⊢
  obtain ⟨m, -, hlast⟩ := DurableRunState.replay_concat.mp h
  have hget := hseq.getElem?_sequence (i := init.length) (by simp)
  rw [List.getElem?_concat_length, Option.map_some] at hget
  rw [DurableRunState.apply_lastSequence hlast, Option.some.inj hget]
  simp

/-- Events past the checkpoint are only checked for their numbers. -/
theorem verifyLog_uncovered {k : Nat} (hseq : WellSequenced record k events)
    (hlast : ∀ n, checkpoint.lastSequence = some n → n < k) :
    verifyLog codec record checkpoint k state events = .ok () := by
  induction events generalizing k with
  | nil => rfl
  | cons event events ih =>
    obtain ⟨hrun, hver, hev, hlt, hrest⟩ := hseq
    have hcover : coverStep codec checkpoint state event = .ok state := by
      refine if_neg ?_
      rw [Option.any_eq_true, hev]
      rintro ⟨n, hn, hle⟩
      exact absurd (of_decide_eq_true hle) (Nat.not_le_of_lt (hlast n hn))
    unfold verifyLog
    rw [if_neg (by simp [hrun, hver, hev]), hcover,
      show checkedNext k = some (k + 1) from checkedNext_eq_some.mpr ⟨hlt, rfl⟩]
    exact ih hrest fun n hn => Nat.lt_succ_of_lt (hlast n hn)

/-- The first loop accepts the checkpoint that the log itself produces. -/
theorem verifyLog_of_replay {k m : Nat} (hseq : WellSequenced record k events)
    (h : state.replay codec (events.take (m + 1)) = .ok checkpoint)
    (hlast : checkpoint.lastSequence = some (k + m)) :
    verifyLog codec record checkpoint k state events = .ok () := by
  induction events generalizing state k m with
  | nil => rfl
  | cons event events ih =>
    obtain ⟨hrun, hver, hev, hlt, hrest⟩ := hseq
    rw [List.take_succ_cons, DurableRunState.replay_cons] at h
    obtain ⟨next, happly, hprefix⟩ := h
    have hcover : coverStep codec checkpoint state event = .ok next := by
      rw [coverStep, if_pos (by simp [hlast, hev]), happly]
      refine if_neg ?_
      -- the comparison only happens at the checkpoint's own event, the last covered one
      rw [Bool.and_eq_true, decide_eq_true_eq, decide_eq_true_eq, hlast, hev]
      rintro ⟨hsame, hne⟩
      have hm : m = 0 := by
        have := Option.some.inj hsame
        omega
      rw [hm, List.take_zero, DurableRunState.replay_nil] at hprefix
      exact hne (Except.ok.inj hprefix)
    unfold verifyLog
    rw [if_neg (by simp [hrun, hver, hev]), hcover,
      show checkedNext k = some (k + 1) from checkedNext_eq_some.mpr ⟨hlt, rfl⟩]
    cases m with
    | zero =>
      refine verifyLog_uncovered hrest fun n hn => ?_
      rw [hlast] at hn
      have := Option.some.inj hn
      omega
    | succ m => exact ih hrest hprefix (by rw [hlast]; congr 1; omega)

/-- What lets `recover_loaded_run` reach its classification, tests in the source's order. -/
theorem recover_of_tests (loaded : LoadedRun)
    (hlog : ReplayedLog codec loaded.record loaded.events state)
    (hversion : loaded.checkpoint.checkpointSchemaVersion = currentCheckpointSchemaVersion)
    (hkey : loaded.checkpoint.state.context.key = loaded.record.key)
    (hbudget : loaded.checkpoint.state.context.budget = loaded.record.budget)
    (hverify : verifyLog codec loaded.record loaded.checkpoint.state 0 (.initial loaded.record)
      loaded.events = .ok ())
    (hinitial : loaded.checkpoint.state.lastSequence = none →
      loaded.checkpoint.state = .initial loaded.record)
    (hcovered : ∀ n, loaded.checkpoint.state.lastSequence = some n → n < loaded.events.length)
    (htail : loaded.checkpoint.state.replay codec
      (loaded.events.drop (loaded.checkpoint.state.lastSequence.elim 0 (· + 1))) = .ok state)
    (nowUnixMillis : Nat) (now : Instant) :
    recoverLoadedRun codec loaded nowUnixMillis now =
      classify loaded.record.recoveryContract nowUnixMillis now state := by
  have hlen := hlog.sequenced.length_le (Nat.zero_le _)
  simp only [recoverLoadedRun]
  rw [if_neg (by simp [hlog.store, hlog.recordCheckpoint, hversion, hkey, hbudget]), hverify]
  cases hn : loaded.checkpoint.state.lastSequence with
  | none =>
    rw [hn, Option.elim_none, List.drop_zero] at htail
    simp only [Option.any_none, Option.elim_none, List.drop_zero, htail]
    simp [hinitial hn]
  | some n =>
    have hlt := hcovered n hn
    have hget := hlog.sequenced.getElem?_sequence hlt
    have hstart : min (n + 1) u64Max = n + 1 := Nat.min_eq_left (by omega)
    rw [hn, Option.elim_some] at htail
    rw [Nat.zero_add] at hget
    simp only [Option.any_some, Option.elim_some, hstart, htail, hget]
    simp [Nat.not_lt.mpr (Nat.succ_le_of_lt hlt)]

/-- **A checkpoint taken from the log changes nothing**: recovery with the replay of any prefix
of the log as its checkpoint classifies the replay of the whole log. -/
theorem recover_of_replayed_checkpoint {n : Nat} (hlog : ReplayedLog codec record events state)
    (hn : n ≤ events.length)
    (hcp : (DurableRunState.initial record).replay codec (events.take n) = .ok checkpoint)
    (nowUnixMillis : Nat) (now : Instant) :
    recoverLoadedRun codec ⟨record, .new checkpoint, events⟩ nowUnixMillis now =
      classify record.recoveryContract nowUnixMillis now state := by
  obtain ⟨hkey, hbudget, -⟩ := DurableRunState.replay_identity hcp
  have htail : checkpoint.replay codec (events.drop n) = .ok state := by
    have hall := hlog.replayed
    rw [← List.take_append_drop n events, DurableRunState.replay_append] at hall
    obtain ⟨m, hm, hrest⟩ := hall
    rw [hcp] at hm
    rwa [Except.ok.inj hm]
  have tests := recover_of_tests ⟨record, .new checkpoint, events⟩ hlog rfl hkey hbudget
  cases n with
  | zero =>
    rw [List.take_zero, DurableRunState.replay_nil] at hcp
    obtain rfl : DurableRunState.initial record = checkpoint := Except.ok.inj hcp
    exact tests (verifyLog_uncovered hlog.sequenced nofun) (fun _ => rfl) nofun htail _ _
  | succ n =>
    have hlast : checkpoint.lastSequence = some n := by
      have hne : events.take (n + 1) ≠ [] := by
        rw [ne_eq, List.take_eq_nil_iff]
        rintro (h | h)
        · exact Nat.succ_ne_zero n h
        · rw [h] at hn
          exact Nat.not_succ_le_zero n hn
      have := replay_lastSequence hcp (hlog.sequenced.take (n + 1)) hne
      rw [this, List.length_take, Nat.min_eq_left hn]
      simp
    have hverify := verifyLog_of_replay hlog.sequenced hcp (by rw [hlast, Nat.zero_add])
    refine tests hverify (fun h => ?_) (fun m hm => ?_) ?_ _ _
    · exact absurd (hlast.symm.trans h) nofun
    · exact Nat.lt_of_succ_le (Option.some.inj (hlast.symm.trans hm) ▸ hn)
    · show checkpoint.replay codec (events.drop (checkpoint.lastSequence.elim 0 (· + 1))) = _
      rw [hlast]
      exact htail

/-- **Checkpoint recovery is full replay.** Whatever checkpoint was stored, an `Ok` recovery
carries the replay of the whole log from the initial state; another checkpoint that recovers
gives the same disposition, and every checkpoint that a prefix of the log produces recovers. -/
theorem recover_eq_replay {stored : DurableCheckpoint} {nowUnixMillis : Nat} {now : Instant}
    {d : RecoveryDisposition}
    (h : recoverLoadedRun codec ⟨record, stored, events⟩ nowUnixMillis now = .ok d) :
    (DurableRunState.initial record).replay codec events = .ok d.state ∧
    (∀ other d', recoverLoadedRun codec ⟨record, other, events⟩ nowUnixMillis now = .ok d' →
      d' = d) ∧
    ∀ n ≤ events.length, ∃ covered,
      (DurableRunState.initial record).replay codec (events.take n) = .ok covered ∧
      recoverLoadedRun codec ⟨record, .new covered, events⟩ nowUnixMillis now = .ok d := by
  obtain ⟨state, hlog, hclass⟩ := recover_verified h
  have hstate := classify_state hclass
  refine ⟨hstate ▸ hlog.replayed, ?_, ?_⟩
  · intro other d' h'
    obtain ⟨state', hlog', hclass'⟩ := recover_verified h'
    obtain rfl : state = state' := Except.ok.inj (hlog.replayed.symm.trans hlog'.replayed)
    exact Except.ok.inj (hclass'.symm.trans hclass)
  · intro n hn
    have hall := hlog.replayed
    rw [← List.take_append_drop n events, DurableRunState.replay_append] at hall
    obtain ⟨covered, hcp, -⟩ := hall
    refine ⟨covered, hcp, ?_⟩
    rw [recover_of_replayed_checkpoint hlog hn hcp]
    exact hclass

/-! ## A sample run

A codec that encodes every event: no test of the reducer reads the digest, so which one it is
does not matter. -/

def plainCodec : EventCodec := ⟨fun _ => some [], fun _ => 0⟩

def sampleBudget : RunBudget where
  maxModelCalls := 4
  maxToolCalls := 4
  maxIterations := 4
  maxApprovalRequests := 4
  maxGraphSteps := 8
  maxElapsed := fromMillis 60000
  maxModelCalls_le := by decide
  maxToolCalls_le := by decide
  maxIterations_le := by decide
  maxApprovalRequests_le := by decide
  maxGraphSteps_le := by decide
  maxElapsed_pos := by decide

def sampleRecord (contract : RecoveryContract) : RunRecord :=
  .new ⟨⟨1⟩, ⟨2⟩⟩ sampleBudget contract

/-- A log of the sample run with these events, numbered from zero. -/
def sampleLog (kinds : List AgentEventKind) : List AgentEvent :=
  kinds.mapIdx fun i kind => .new ⟨1⟩ i kind

def RecoveryDisposition.isWaiting : RecoveryDisposition → Bool
  | .waiting _ => true
  | _ => false

theorem RecoveryDisposition.isWaiting_eq {d : RecoveryDisposition} (h : d.isWaiting = true) :
    ∃ run, d = .waiting run := by
  cases d with
  | waiting run => exact ⟨run, rfl⟩
  | _ => cases h

/-- A run that waits for the approval of a write. -/
def waitingKinds : List AgentEventKind :=
  [.runStarted 1000, .graph (.graphStarted 7#256 ⟨"write"⟩ .action .never),
    .graph (.graphNodeEntered ⟨3⟩ ⟨"write"⟩ .action .never 1 8), .actionExecutionBound ⟨9⟩ ⟨4⟩,
    .durableApprovalPrepared ⟨4⟩ ⟨4⟩ ⟨9⟩ ⟨4⟩ ⟨0⟩ ⟨0⟩ ⟨0⟩ 1 4,
    .graph (.graphSuspended ⟨3⟩ ⟨"write"⟩ ⟨4⟩ ⟨4⟩ ⟨9⟩ ⟨4⟩ ⟨0⟩ 500)]

/-- The run is recovered from the checkpoint after three of its six events, and the checkpoint after five
recovers to the same wait. -/
theorem recover_eq_replay_waiting : ∃ third run,
    (DurableRunState.initial (sampleRecord (.graph 1 7#256))).replay plainCodec
        ((sampleLog waitingKinds).take 3) = .ok third ∧
      recoverLoadedRun plainCodec
        ⟨sampleRecord (.graph 1 7#256), .new third, sampleLog waitingKinds⟩ 2000 0 = .ok (.waiting run) ∧
      (DurableRunState.initial (sampleRecord (.graph 1 7#256))).replay plainCodec (sampleLog waitingKinds) =
        .ok run.state ∧
      ∃ fifth, (DurableRunState.initial (sampleRecord (.graph 1 7#256))).replay plainCodec
          ((sampleLog waitingKinds).take 5) = .ok fifth ∧
        recoverLoadedRun plainCodec
          ⟨sampleRecord (.graph 1 7#256), .new fifth, sampleLog waitingKinds⟩ 2000 0 = .ok (.waiting run) := by
  obtain ⟨third, hthird, hwaits⟩ := isOkAnd_iff.mp (show isOkAnd
    ((DurableRunState.initial (sampleRecord (.graph 1 7#256))).replay plainCodec ((sampleLog waitingKinds).take 3))
    (fun third => isOkAnd (recoverLoadedRun plainCodec
      ⟨sampleRecord (.graph 1 7#256), .new third, sampleLog waitingKinds⟩ 2000 0) RecoveryDisposition.isWaiting) =
      true by decide +kernel)
  obtain ⟨d, hrecovers, hd⟩ := isOkAnd_iff.mp hwaits
  obtain ⟨run, rfl⟩ := RecoveryDisposition.isWaiting_eq hd
  obtain ⟨hreplay, -, hprefix⟩ := recover_eq_replay hrecovers
  exact ⟨third, run, hthird, hrecovers, hreplay, hprefix 5 (by decide)⟩

end LocalAgent
