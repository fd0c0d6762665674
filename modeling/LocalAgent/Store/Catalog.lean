import LocalAgent.Store.Read
import LocalAgent.Store.World

/-!
# What a restart needs of a stored run

Whoever writes, a row has the form of `RowWritten`: the transactions check it. Such a row is loaded
unless an event was written behind its `RunFinished` (`RowWritten.load`), and what was loaded is
recovered exactly in the cases of `Recoverable` (`RowWritten.recovers_iff`).
-/
namespace LocalAgent

open Program Store

/-! ## Rows -/

/-- What the transactions see to in a row. -/
structure RowWritten (run : RunId) (row : StoredRun) : Prop where
  key : row.record.key = ⟨run, row.sessionId⟩
  storeVersion : row.record.storeSchemaVersion = currentStoreSchemaVersion
  checkpointVersion : row.record.checkpointSchemaVersion = currentCheckpointSchemaVersion
  numbered : Numbered row
  events : ∀ e ∈ row.events, e.schemaVersion = currentEventSchemaVersion ∧ e.runId = run
  terminal : row.terminal = row.events.any fun e => e.kind.isRunFinished
  stored : row.checkpointSchemaVersion = currentCheckpointSchemaVersion ∧
    row.checkpoint.checkpointSchemaVersion = currentCheckpointSchemaVersion ∧
    row.checkpoint.state.key = row.record.key ∧ row.checkpoint.state.lastSequence = row.throughSequence

/-- The end of the run, if it is in the log, is the last event. -/
def EndsLast (row : StoredRun) : Prop :=
  (row.events.any fun e => e.kind.isRunFinished) = row.events.getLast?.any fun e => e.kind.isRunFinished

instance (row : StoredRun) : Decidable (EndsLast row) := inferInstanceAs (Decidable (_ = _))

section

variable {s : Store} {run : RunId} {row : StoredRun} {t : AppendTransition}

theorem rowWritten_new {record : RunRecord} {checkpoint : DurableCheckpoint}
    (hvalid : validRecordCheckpoint record checkpoint = true) :
    RowWritten record.key.runId
      { sessionId := record.key.sessionId, record := record, lastSequence := none
        terminal := false, throughSequence := none
        checkpointSchemaVersion := currentCheckpointSchemaVersion
        checkpoint := checkpoint, events := [] } := by
  simp only [validRecordCheckpoint, Bool.not_eq_true', Bool.or_eq_false_iff, decide_eq_false_iff_not,
    not_not, ne_eq, Option.isSome_eq_false_iff, Option.isNone_iff_eq_none] at hvalid
  obtain ⟨⟨⟨⟨⟨⟨hstore, hcheckpoint⟩, hversion⟩, hkey⟩, -⟩, hlast⟩, -⟩ := hvalid
  exact ⟨rfl, hstore, hcheckpoint, ⟨rfl, rfl⟩, by simp, rfl, rfl, hversion, hkey, hlast⟩

theorem RowWritten.append (h : RowWritten run row) (happ : Appended s t row) (hrun : t.key.runId = run) :
    RowWritten run (StoredRun.append row t) := by
  refine ⟨by simpa using h.key, by simpa using h.storeVersion, by simpa using h.checkpointVersion,
    h.numbered.append happ, ?_, ?_, ?_⟩
  · intro e he
    rw [append_events] at he
    rcases List.mem_append.mp he with hold | hlast
    · exact h.events e hold
    · obtain rfl := List.mem_singleton.mp hlast
      exact ⟨happ.version, happ.run.trans hrun⟩
  · rw [append_events, append_terminal, h.terminal]
    simp
  · rw [append_record]
    cases hcp : t.checkpoint with
    | none => simpa only [StoredRun.append, hcp] using h.stored
    | some cp =>
      obtain ⟨hversion, hkey, hlast⟩ := happ.checkpoint cp hcp
      simp only [StoredRun.append, hcp]
      refine ⟨hversion, hversion, ?_, hlast⟩
      rw [hkey, h.key, ← hrun, happ.session]

theorem checkEvents_ok {key : RunKey} {events : List AgentEvent} {n : Nat}
    (hevents : ∀ e ∈ events, e.schemaVersion = currentEventSchemaVersion ∧ e.runId = key.runId)
    (hseq : events.map AgentEvent.sequence = List.range' n events.length) :
    checkEvents key n events = .ok () := by
  induction events generalizing n with
  | nil => rfl
  | cons e events ih =>
    obtain ⟨hversion, hrun⟩ := hevents e List.mem_cons_self
    rw [List.map_cons, List.length_cons, List.range'_succ, List.cons.injEq] at hseq
    unfold checkEvents
    rw [if_neg (by simp [hversion]), if_neg (by simp [hseq.1, hrun])]
    exact ih (fun e' he' => hevents e' (List.mem_cons_of_mem e he')) hseq.2

theorem Store.Numbered.getLast (h : Numbered row) :
    row.lastSequence = row.events.getLast?.map AgentEvent.sequence := by
  rw [h.last]
  have hsequences := h.sequences
  rcases List.eq_nil_or_concat row.events with hnil | ⟨init, e, hconcat⟩
  · rw [hnil]
    rfl
  · rw [List.concat_eq_append] at hconcat
    rw [hconcat] at hsequences ⊢
    rw [List.map_append, List.length_append, List.length_singleton, List.range_succ] at hsequences
    have hlast : e.sequence = init.length :=
      List.singleton_inj.mp (List.append_inj_right' hsequences rfl)
    simp [lastOf, hlast]

/-- A row is loaded, unless something was written behind its end. -/
theorem RowWritten.load (h : RowWritten run row) (hrow : s.runs run = some row) :
    s.loadRun row.record.key =
      if EndsLast row then .ok ⟨row.record, row.checkpoint, row.events⟩ else .error .corrupt := by
  obtain ⟨hcolumn, hversion, hkey, hthrough⟩ := h.stored
  have hcheck : checkEvents row.record.key 0 row.events = .ok () := by
    refine checkEvents_ok ?_ ?_
    · rw [h.key]
      exact h.events
    · rw [h.numbered.sequences, List.range_eq_range']
  have hsession : row.record.key.sessionId = row.sessionId := by rw [h.key]
  have hrun : s.runs row.record.key.runId = some row := by rw [h.key, hrow]
  unfold loadRun
  rw [hrun]
  dsimp only
  rw [if_neg (by simp [hsession]), if_neg (by simp [h.storeVersion, h.checkpointVersion]),
    if_neg (by simp [hcolumn, hversion]), if_neg (by simp [hkey, hthrough]), h.numbered.sorted, hcheck]
  dsimp only
  rw [← h.numbered.getLast, h.terminal]
  have hlast : EndsLast row ↔ (row.events.any fun e => e.kind.isRunFinished) =
      row.events.getLast?.any fun e => e.kind.isRunFinished := Iff.rfl
  by_cases hends : EndsLast row
  · rw [if_pos hends, if_neg (by simpa using hlast.mp hends)]
  · rw [if_neg hends, if_pos (by simpa using fun h => hends (hlast.mpr h))]

end

/-! ## The clock -/

/-- The run is continued in a context of its own. -/
def NeedsContext (contract : RecoveryContract) (state : DurableRunState) : Prop :=
  (waitingElapsed state).isSome = true ∨ contract ≠ .nonRestartable ∧
    (retrievalRestart contract state = true ∨ graphRestart contract state = true ∨
      state.continuation = .initialBoundary ∨ state.continuation = .restartableBoundary)

/-- What recovery asks of the clocks: an unfinished run with no open effect was not started, and its
active time not used, in the future, and the rest of its budget ends at an instant. -/
structure ClockAdmits (contract : RecoveryContract) (state : DurableRunState) (nowUnixMillis : Nat)
    (now : Instant) (started : Nat) : Prop where
  past : started + (waitingElapsed state).getD 0 ≤ nowUnixMillis
  deadline : NeedsContext contract state →
    fromMillis ((waitingElapsed state).getD (nowUnixMillis - started)) < state.context.budget.maxElapsed →
    now + (state.context.budget.maxElapsed -
      fromMillis ((waitingElapsed state).getD (nowUnixMillis - started))) ≤ instantMax

section

variable {contract : RecoveryContract} {state : DurableRunState} {nowUnixMillis : Nat} {now : Instant}

theorem fromRecovery_ok_iff (contract : RecoveryContract) {elapsed : Duration} (helapsed : elapsed < state.context.budget.maxElapsed)
    (hnext : (state.lastSequence.elim (some 0) checkedNext).isSome = true) :
    (∃ c, RunContext.fromRecovery state elapsed now contract = .ok c) ↔
      now + (state.context.budget.maxElapsed - elapsed) ≤ instantMax := by
  obtain ⟨next, hnext⟩ := Option.isSome_iff_exists.mp hnext
  have hsub : checkedSub state.context.budget.maxElapsed elapsed =
      some (state.context.budget.maxElapsed - elapsed) := if_pos (Nat.le_of_lt helapsed)
  unfold RunContext.fromRecovery checkedAddInstant
  rw [hsub]
  dsimp only
  by_cases hdeadline : now + (state.context.budget.maxElapsed - elapsed) ≤ instantMax
  · simp [hdeadline, hnext]
  · simp [hdeadline]

theorem classifyRunning_ok_iff {elapsed : Duration}
    (hnext : (state.lastSequence.elim (some 0) checkedNext).isSome = true) :
    (∃ d, classifyRunning contract elapsed now state = .ok d) ↔
      (NeedsContext contract state → elapsed < state.context.budget.maxElapsed →
        now + (state.context.budget.maxElapsed - elapsed) ≤ instantMax) := by
  unfold classifyRunning NeedsContext
  by_cases hspent : elapsed ≥ state.context.budget.maxElapsed
  · simp [hspent, Nat.not_lt.mpr hspent]
  · have hlt : elapsed < state.context.budget.maxElapsed := Nat.lt_of_not_le hspent
    rw [if_neg hspent]
    have hadmits : (∃ c, RunContext.fromRecovery state elapsed now contract = .ok c) ↔
        now + (state.context.budget.maxElapsed - elapsed) ≤ instantMax :=
      fromRecovery_ok_iff contract hlt hnext
    by_cases hwaiting : (waitingElapsed state).isSome = true
    · rw [if_pos hwaiting]
      refine Iff.trans ?_ (hadmits.trans ?_)
      · cases RunContext.fromRecovery state elapsed now contract <;> simp
      · simp [hwaiting, hlt]
    · rw [if_neg hwaiting]
      by_cases hcontract : contract = .nonRestartable
      · simp [hcontract, hwaiting]
      · rw [if_neg hcontract]
        split
        · rename_i hnone
          simp only [Bool.and_eq_true, Bool.not_eq_true', Bool.or_eq_false_iff,
            decide_eq_false_iff_not] at hnone
          simp [hnone, hwaiting]
        · rename_i hsome
          refine Iff.trans ?_ (hadmits.trans ?_)
          · cases RunContext.fromRecovery state elapsed now contract <;> simp
          simp only [Bool.and_eq_true, Bool.not_eq_true', Bool.or_eq_false_iff, decide_eq_false_iff_not,
            not_and_or, not_not, Bool.not_eq_false] at hsome
          have hneeds : NeedsContext contract state := by
            refine .inr ⟨hcontract, ?_⟩
            rcases hsome with (hretrieval | hgraph) | hboundary
            · exact .inl hretrieval
            · exact .inr (.inl hgraph)
            · exact .inr (.inr hboundary)
          exact ⟨fun h _ _ => h, fun h => h hneeds hlt⟩

/-- What the classification asks of a replayed state. -/
theorem classify_ok_iff
    (hnext : (state.lastSequence.elim (some 0) checkedNext).isSome = true)
    (hstarted : state.context.status = .running → state.context.startedAtUnixMillis.isSome = true) :
    (∃ d, classify contract nowUnixMillis now state = .ok d) ↔
      (state.pendingEffects = [] → state.context.status = .running →
        ∀ started, state.context.startedAtUnixMillis = some started →
          ClockAdmits contract state nowUnixMillis now started) := by
  unfold classify
  cases hpending : state.pendingEffects with
  | cons effect rest => simp
  | nil =>
    cases hstatus : state.context.status with
    | finished outcome => cases outcome <;> simp
    | pending => simp
    | running =>
      obtain ⟨started, hstart⟩ := Option.isSome_iff_exists.mp (hstarted hstatus)
      simp only [hstart, Option.some.injEq, forall_const, forall_eq']
      by_cases hpast : started ≤ nowUnixMillis
      · have hsub : checkedSub nowUnixMillis started = some (nowUnixMillis - started) := if_pos hpast
        rw [hsub]
        dsimp only
        have hearly : (waitingElapsed state).any (nowUnixMillis - started < ·) = true ↔
            ¬ started + (waitingElapsed state).getD 0 ≤ nowUnixMillis := by
          cases waitingElapsed state with
          | none => simpa using hpast
          | some active =>
            simp only [Option.any_some, decide_eq_true_eq, Option.getD_some]
            omega
        by_cases hactive : started + (waitingElapsed state).getD 0 ≤ nowUnixMillis
        · rw [if_neg (fun h => hearly.mp h hactive), classifyRunning_ok_iff hnext]
          exact ⟨fun h => ⟨hactive, h⟩, fun h => h.deadline⟩
        · rw [if_pos (hearly.mpr hactive)]
          constructor
          · rintro ⟨d, hd⟩
            cases hd
          · intro h
            exact absurd h.past hactive
      · have hsub : checkedSub nowUnixMillis started = none := if_neg hpast
        rw [hsub]
        constructor
        · rintro ⟨d, hd⟩
          cases hd
        · intro h
          exact absurd (Nat.le_trans (Nat.le_add_right _ _) h.past) hpast

end

/-! ## Recovery -/

/-- What a restart needs of a row, at these readings of the clocks. -/
structure Recoverable (codec : EventCodec) (row : StoredRun) (nowUnixMillis : Nat) (now : Instant) : Prop where
  short : row.events.length ≤ u64Max
  /-- The log begins with the start of the run, -/
  first : ∀ e, row.events.head? = some e → e.kind.isRunStarted = true
  /-- nothing is written behind its end, -/
  ends : EndsLast row
  /-- the checkpoint is the replay of a prefix, -/
  checkpoint : ∃ n ≤ row.events.length,
    (DurableRunState.initial row.record).replay codec (row.events.take n) = .ok row.checkpoint.state
  /-- and the replay of the whole log is admitted by the clocks. -/
  clock : ∃ state, (DurableRunState.initial row.record).replay codec row.events = .ok state ∧
    (state.pendingEffects = [] → state.context.status = .running →
      ∀ started, state.context.startedAtUnixMillis = some started →
        ClockAdmits row.record.recoveryContract state nowUnixMillis now started)

section

variable {s : Store} {run : RunId} {row : StoredRun} {codec : EventCodec} {nowUnixMillis : Nat} {now : Instant}

theorem RowWritten.readable (h : RowWritten run row)
    (hfirst : ∀ e, row.events.head? = some e → e.kind.isRunStarted = true) : ReadableRun run row := by
  refine ⟨h.key, h.storeVersion, h.checkpointVersion, h.numbered, fun e he => ?_⟩
  have hmem : e ∈ row.events := List.mem_of_mem_head? he
  exact ⟨(h.events e hmem).1, (h.events e hmem).2, hfirst e he⟩

theorem replay_next {state : DurableRunState} (hshort : row.events.length ≤ u64Max)
    (hstate : (DurableRunState.initial row.record).replay codec row.events = .ok state) :
    (state.lastSequence.elim (some 0) checkedNext).isSome = true := by
  by_cases hnil : row.events = []
  · rw [hnil] at hstate
    obtain rfl := Except.ok.inj hstate
    rfl
  · have hseq := replay_wellSequenced (k := 0) hstate rfl rfl (by omega)
    have hpos := List.length_pos_of_ne_nil hnil
    rw [replay_lastSequence hstate hseq hnil, Option.elim_some]
    unfold checkedNext
    rw [if_pos (by omega)]
    rfl

/-- **When a stored run is recovered.** -/
theorem RowWritten.recovers_iff (h : RowWritten run row) (hrow : s.runs run = some row)
    (hfirst : ∀ e, row.events.head? = some e → e.kind.isRunStarted = true) :
    (∃ loaded d, s.loadRun row.record.key = .ok loaded ∧
        recoverLoadedRun codec loaded nowUnixMillis now = .ok d) ↔
      Recoverable codec row nowUnixMillis now := by
  rw [h.load hrow]
  constructor
  · rintro ⟨loaded, d, hload, hrecover⟩
    have hends : EndsLast row := by
      by_contra hnot
      rw [if_neg hnot] at hload
      cases hload
    rw [if_pos hends] at hload
    obtain rfl := Except.ok.inj hload
    obtain ⟨state, hlog, hclass⟩ := recover_verified hrecover
    have hlen := hlog.sequenced.length_le (Nat.zero_le _)
    have hshort : row.events.length ≤ u64Max := by simpa using hlen
    obtain ⟨-, -, -, hcovered, -⟩ := recover_tested hrecover
    refine ⟨hshort, hfirst, hends, ⟨_, ?_, recover_covered hrecover⟩, state, hlog.replayed, ?_⟩
    · cases hlast : row.checkpoint.state.lastSequence with
      | none => exact Nat.zero_le _
      | some n => exact hcovered n hlast
    · exact (classify_ok_iff (replay_next hshort hlog.replayed)
        (DurableRunState.replay_started hlog.replayed)).mp ⟨d, hclass⟩
  · intro hr
    obtain ⟨n, hn, hcovered⟩ := hr.checkpoint
    obtain ⟨state, hstate, hclock⟩ := hr.clock
    have hcheckpoint : row.checkpoint = .new row.checkpoint.state := by
      have hversion := h.stored.2.1
      generalize row.checkpoint = checkpoint at hversion
      obtain ⟨version, stored⟩ := checkpoint
      obtain rfl : version = currentCheckpointSchemaVersion := hversion
      rfl
    have hlog := ReplayedLog.of_replay h.storeVersion h.checkpointVersion hr.short hstate
    obtain ⟨d, hd⟩ := (classify_ok_iff (replay_next hr.short hstate)
      (DurableRunState.replay_started hstate)).mpr hclock
    refine ⟨_, d, if_pos hr.ends, ?_⟩
    rw [hcheckpoint, recover_of_replayed_checkpoint hlog hn hcovered]
    exact hd

end

/-! ## Every run is in the table once -/

/-- The same runs are in the table. -/
def SameRuns (s s' : Store) : Prop :=
  s'.rowids = s.rowids ∧ ∀ run, (s'.runs run).isSome = (s.runs run).isSome

section

variable {s s' s'' : Store} {lib : Library} {reliable serial : Prop}

theorem SameRuns.listed (h : SameRuns s s') (hs : s.Listed) : s'.Listed := by
  refine ⟨?_, fun run => ?_⟩
  · rw [h.1]
    exact hs.nodup
  · rw [h.1, h.2]
    exact hs.listed run

theorem appendTransition_sameRuns {t : AppendTransition} (h : s.appendTransition t = .ok s') :
    SameRuns s s' := by
  obtain ⟨row, hrow, rfl⟩ := appendTransition_ok h
  refine ⟨rfl, fun run => ?_⟩
  by_cases hrun : run = t.key.runId
  · rw [hrun, putRun_self, hrow.stored]
    rfl
  · rw [putRun_of_ne hrun]

theorem advance_sameRuns {key : RunKey} {wait : DurableApprovalWaitId}
    {expected next : DurableApprovalStatus} {version : Nat}
    {update : DurableApprovalRecord → DurableApprovalRecord}
    (h : s.advance key wait expected version next update = .ok s') : SameRuns s s' := by
  unfold advance at h
  split at h
  · cases h
  · split at h
    · cases h
    · split at h
      · cases h
      · obtain rfl := Except.ok.inj h
        exact ⟨rfl, fun run => rfl⟩

theorem SameRuns.trans (h : SameRuns s s') (h' : SameRuns s' s'') : SameRuns s s'' :=
  ⟨h'.1.trans h.1, fun run => (h'.2 run).trans (h.2 run)⟩

theorem createDurableApprovalWait_sameRuns {read : Store} {t : AppendTransition}
    {record : DurableApprovalRecord} (h : createDurableApprovalWait read s t record = .ok s') :
    SameRuns s s' := by
  unfold createDurableApprovalWait at h
  split at h
  · cases h
  · split at h
    · cases h
    · split at h
      · cases h
      · next hmid =>
        split at h
        · cases h
        · obtain rfl := Except.ok.inj h
          exact (appendTransition_sameRuns hmid).trans ⟨rfl, fun _ => rfl⟩

theorem recordDurableApprovalDecision_sameRuns {read : Store} {t : AppendTransition}
    {command : DurableApprovalDecisionCommand}
    (h : Store.recordDurableApprovalDecision read s t command = .ok s') : SameRuns s s' := by
  unfold Store.recordDurableApprovalDecision at h
  split at h
  · cases h
  · split at h
    · cases h
    · split at h
      · cases h
      · next hmid => exact (appendTransition_sameRuns hmid).trans (advance_sameRuns h)

theorem transitionDurableApprovalStatus_sameRuns {request : DurableApprovalStatusTransition}
    (h : s.transitionDurableApprovalStatus request = .ok s') : SameRuns s s' := by
  unfold transitionDurableApprovalStatus at h
  cases ht : request.transition with
  | none =>
    simp only [ht] at h
    exact advance_sameRuns h
  | some t =>
    simp only [ht] at h
    split at h
    · cases h
    · next hmid =>
      split at hmid
      · cases hmid
      · exact (appendTransition_sameRuns hmid).trans (advance_sameRuns h)

theorem createRun_listed {record : RunRecord} {checkpoint : DurableCheckpoint}
    (h : s.createRun record checkpoint = .ok s') (hs : s.Listed) : s'.Listed := by
  obtain ⟨-, habsent, rfl⟩ := createRun_ok h
  have hfresh : record.key.runId ∉ s.rowids := by
    rw [hs.listed, habsent]
    simp
  constructor
  · refine List.nodup_append.mpr ⟨hs.nodup, by simp, ?_⟩
    intro a ha b hb heq
    rw [List.mem_singleton.mp hb] at heq
    exact hfresh (heq ▸ ha)
  · intro run
    simp only [List.mem_append, List.mem_singleton, hs.listed, putRun]
    by_cases hrun : run = record.key.runId
    · simp [hrun]
    · simp [hrun]

theorem commit_listed {c : StoreCall} (h : s.commit c = .ok s') (hs : s.Listed) : s'.Listed := by
  cases c with
  | createRun record checkpoint => exact createRun_listed h hs
  | append t => exact (appendTransition_sameRuns h).listed hs
  | createWait read t record => exact (createDurableApprovalWait_sameRuns h).listed hs
  | recordDecision read t command => exact (recordDurableApprovalDecision_sameRuns h).listed hs
  | transitionStatus request => exact (transitionDurableApprovalStatus_sameRuns h).listed hs

/-- The table of a reachable store, and its rows. -/
structure Written (s : Store) : Prop where
  listed : s.Listed
  rows : ∀ run row, s.runs run = some row → RowWritten run row

theorem reachable_written {s : (sqlite lib reliable serial).clients.State}
    (hs : (sqlite lib reliable serial).clients.Reachable ⟨empty, []⟩ s) : Written s.world.now := by
  refine hs.induct (P := fun (w : Storage) _ => Written w.now) (Setting.watch_sound _) ?_ ?_ ?_ ?_
  · refine ⟨⟨List.nodup_nil, by simp [Store.empty]⟩, fun run row hrow => ?_⟩
    cases hrow
  · exact fun w h i cmd l hw _ => hw
  · intro w h i r a w' hw hacts
    have hserved : Served reliable w r a w' := hacts.answered
    refine ⟨?_, fun run row hrow => ?_⟩
    · cases hserved with
      | wrote _ _ _ committed => exact commit_listed committed hw.listed
      | _ => exact hw.listed
    · cases hserved.runsMoved with
      | created record checkpoint _ _ _ valid runs =>
        rw [runs] at hrow
        by_cases hrun : run = record.key.runId
        · subst hrun
          rw [putRun_self] at hrow
          obtain rfl := Option.some.inj hrow
          exact rowWritten_new valid
        · rw [putRun_of_ne hrun] at hrow
          exact hw.rows run row hrow
      | appended t old _ _ continues runs =>
        rw [runs] at hrow
        by_cases hrun : run = t.key.runId
        · subst hrun
          rw [putRun_self] at hrow
          obtain rfl := Option.some.inj hrow
          exact (hw.rows _ old continues.stored).append continues rfl
        · rw [putRun_of_ne hrun] at hrow
          exact hw.rows run row hrow
      | still _ _ runs =>
        rw [runs] at hrow
        exact hw.rows run row hrow
  · exact fun w h i hw => hw

end

end LocalAgent
