import LocalAgent.Lib.Trail
import LocalAgent.Store.Runs

/-!
# The approval rows

A durable wait is kept twice: as the position of the graph, which the log determines, and as a row
of `durable_approvals`. `WaitsKept` is what relates the two in every reachable store, whatever
fails, however the clients interleave and wherever they crash:

* an event that suspends a run stands in the log together with its row, which stays and keeps its
  binding;
* the row has left the part of the ladder in which the wait is open only if the log has left the
  wait too;
* the committed updates of a row are a trail up the ladder, and the version of the row counts them.

It needs nothing of `Consistent`: a client whose write was refused may go on with a log that is
no longer the stored one, and the rows stay right all the same.
-/
namespace LocalAgent

open Program Store

/-! ## The ladder -/

/-- The updates of a row that a harness makes. -/
def DurableApprovalStatus.rung : DurableApprovalStatus → DurableApprovalStatus → Bool
  | .waiting, .decisionRecordedApprove | .waiting, .decisionRecordedDeny | .waiting, .consumed
  | .decisionRecordedApprove, .approvedReady | .decisionRecordedDeny, .consumed
  | .approvedReady, .approvedReady | .approvedReady, .executing | .executing, .consumed => true
  | _, _ => false

/-- How far up the ladder a status is. -/
def DurableApprovalStatus.rank : DurableApprovalStatus → Nat
  | .waiting => 0
  | .decisionRecordedApprove | .decisionRecordedDeny => 1
  | .approvedReady => 2
  | .executing => 3
  | .consumed => 4

/-- The wait is decided and carried out, or given up. -/
def DurableApprovalStatus.isOver : DurableApprovalStatus → Bool
  | .executing | .consumed => true
  | _ => false

theorem DurableApprovalStatus.rank_le_of_rung {a b : DurableApprovalStatus}
    (h : a.rung b = true) : a.rank ≤ b.rank := by
  cases a <;> cases b <;> first | decide | cases h

/-- The row that an answer has updated, and from which status to which. -/
def Request.moved : (r : Request) → Answer r →
    Option ((RunId × DurableApprovalWaitId) × (DurableApprovalStatus × DurableApprovalStatus))
  | .recordDurableApprovalDecision _ command, .ok _ =>
    some ((command.key.runId, command.waitId), (.waiting, command.outcome.status))
  | .transitionDurableApprovalStatus request, .ok _ =>
    some ((request.key.runId, request.waitId), (request.expectedStatus, request.nextStatus))
  | _, _ => none

section

variable {lib : Library} {S : Setting lib}

/-- The committed updates of a row, in their order. -/
def updates (run : RunId) (waitId : DurableApprovalWaitId) (h : S.clients.History) :
    List (DurableApprovalStatus × DurableApprovalStatus) :=
  h.filterMap fun
    | (_, .did r a) => ((r.moved a).filter fun m => m.1 = (run, waitId)).map Prod.snd
    | _ => none

/-- The wait of this record was created, for this run. -/
def WaitCreated (h : S.clients.History) (run : RunId) (record : DurableApprovalRecord) : Prop :=
  ∃ i t degraded, (i, .did (.createDurableApprovalWait t record degraded) (.ok ())) ∈ h ∧
    t.key.runId = run

theorem WaitCreated.append {h h' : S.clients.History} {run : RunId} {record : DurableApprovalRecord}
    (ho : WaitCreated h run record) : WaitCreated (h ++ h') run record := by
  obtain ⟨i, t, degraded, hmem, hrun⟩ := ho
  exact ⟨i, t, degraded, List.mem_append_left _ hmem, hrun⟩

theorem updates_append {run : RunId} {waitId : DurableApprovalWaitId} {h h' : S.clients.History} :
    updates run waitId (h ++ h') = updates run waitId h ++ updates run waitId h' :=
  List.filterMap_append

theorem updates_did {run : RunId} {waitId : DurableApprovalWaitId} {i : Nat} {r : Request}
    {a : Answer r} : updates (S := S) run waitId [(i, .did r a)] =
      (((r.moved a).filter fun m => m.1 = (run, waitId)).map Prod.snd).toList := by
  simp only [updates, List.filterMap_cons, List.filterMap_nil]
  cases ((r.moved a).filter fun m => m.1 = (run, waitId)).map Prod.snd <;> rfl

end

/-! ## What a request does to the rows -/

section

variable {reliable : Prop} {w w' : Storage} {r : Request} {a : Answer r}

/-- What a request did to the approval rows. -/
inductive WaitsMoved (w : Storage) (r : Request) (a : Answer r) (w' : Storage) : Prop
  | created (t : AppendTransition) (record : DurableApprovalRecord) (degraded : Bool)
      (request : r = .createDurableApprovalWait t record degraded) (accepted : r.accepted a = true)
      (key : record.binding.key = t.key)
      (absent : w.now.approvals t.key.runId record.binding.waitId = none)
      (rows : w'.now.approvals = (w.now.putApproval t.key.runId record.binding.waitId
        { sessionId := t.key.sessionId, record := record
          keyId := record.sealedAction.keyId, nonce := record.sealedAction.nonce
          status := .waiting, rowVersion := 0 }).approvals)
  | moved (run : RunId) (waitId : DurableApprovalWaitId)
      (move : DurableApprovalStatus × DurableApprovalStatus) (row row' : StoredApproval)
      (request : r.moved a = some ((run, waitId), move))
      (stored : w.now.approvals run waitId = some row) (left : row.status = move.1)
      (entered : row'.status = move.2) (version : row'.rowVersion = row.rowVersion + 1)
      (binding : ∃ read found, (read = w.now ∨ read ∈ w.past) ∧
        read.approvals run waitId = some found ∧ row'.record.binding = found.record.binding)
      (rows : w'.now.approvals = (w.now.putApproval run waitId row').approvals)
  | still (quiet : r.moved a = none)
      (uncreated : ∀ t record degraded, r = .createDurableApprovalWait t record degraded →
        r.accepted a = false)
      (rows : w'.now.approvals = w.now.approvals)

theorem Request.confirmed_of_moved {r : Request} {a : Answer r}
    {m : (RunId × DurableApprovalWaitId) × (DurableApprovalStatus × DurableApprovalStatus)}
    (h : r.moved a = some m) : r.confirmed a = true := by
  cases r with
  | recordDurableApprovalDecision | transitionDurableApprovalStatus =>
    cases a with
    | ok u => rfl
    | error e => cases h
  | _ => cases h

theorem Served.waitsMoved (h : Served reliable w r a w') : WaitsMoved w r a w' := by
  have hstill : r.confirmed a = false → w' = w → WaitsMoved w r a w' := by
    rintro hfalse rfl
    refine .still ?_ (fun t record degraded _ => ?_) rfl
    · refine Option.eq_none_iff_forall_ne_some.mpr fun m hm => ?_
      exact Bool.eq_false_iff.mp hfalse (Request.confirmed_of_moved hm)
    · exact Bool.eq_false_iff.mpr fun haccepted =>
        Bool.eq_false_iff.mp hfalse (Request.confirmed_of_accepted haccepted)
  cases h with
  | @wrote _ _ read s c reads call ok committed =>
    cases r with
    | createRun record checkpoint =>
      cases call
      obtain ⟨-, -, rfl⟩ := createRun_ok committed
      exact .still rfl (fun t record degraded hr => by cases hr) rfl
    | appendTransition t =>
      cases call
      obtain ⟨row, -, rfl⟩ := appendTransition_ok committed
      exact .still rfl (fun t record degraded hr => by cases hr) rfl
    | createDurableApprovalWait t record degraded =>
      cases call
      cases a with
      | error e => cases ok
      | ok u =>
        obtain ⟨mid, -, -, -, hkey, -, habsent, hrows⟩ := createDurableApprovalWait_ok committed
        exact .created t record degraded rfl rfl hkey habsent hrows
    | recordDurableApprovalDecision t command =>
      cases call
      cases a with
      | error e => cases ok
      | ok u =>
        obtain ⟨mid, found, row, hdecided, -, -, -, hrows⟩ :=
          recordDurableApprovalDecision_ok committed
        refine .moved _ _ _ row _ rfl hdecided.stored hdecided.stillWaiting ?_ ?_ ?_ hrows
        · rfl
        · rfl
        · exact ⟨read, found, reads, hdecided.present, rfl⟩
    | transitionDurableApprovalStatus request =>
      cases call
      cases a with
      | error e => cases ok
      | ok u =>
        obtain ⟨-, -, row, hrow, hstatus, -, hrows⟩ := transitionDurableApprovalStatus_ok committed
        refine .moved _ _ _ row _ rfl hrow hstatus ?_ ?_ ?_ hrows
        · rfl
        · rfl
        · exact ⟨w.now, row, .inl rfl, hrow, rfl⟩
    | _ => simp [Request.storeCall] at call
  | failed _ _ error => exact hstill error rfl
  | loadedRun | loadedWait => exact .still rfl (fun t record degraded hr => by cases hr) rfl
  | other free =>
    refine hstill (Bool.eq_false_iff.mpr fun hc => ?_) rfl
    exact Bool.eq_false_iff.mp free (Request.isPersistence_of_confirmed hc)

/-- The earlier stores are kept. -/
theorem Served.past (h : Served reliable w r a w') {old : Store} :
    old = w'.now ∨ old ∈ w'.past ↔ old = w'.now ∨ old = w.now ∨ old ∈ w.past := by
  cases h with
  | wrote => rw [List.mem_cons]
  | _ =>
    refine ⟨Or.imp_right .inr, ?_⟩
    rintro (hnow | hnow | hpast)
    · exact .inl hnow
    · exact .inl hnow
    · exact .inr hpast

/-- A decision is committed with the event that records it. -/
theorem Served.decision {t : AppendTransition} {command : DurableApprovalDecisionCommand}
    {a : Answer (.recordDurableApprovalDecision t command)}
    (h : Served reliable w (.recordDurableApprovalDecision t command) a w')
    (ha : Request.accepted _ a = true) : recordsDecision command t.event.kind = true := by
  cases a with
  | error e => cases ha
  | ok u =>
    cases h with
    | wrote reads call ok committed =>
      cases call
      obtain ⟨-, -, -, -, hrecords, -⟩ := recordDurableApprovalDecision_ok committed
      exact hrecords
    | failed _ _ error => cases error
    | other free => cases free

/-- A row stays. -/
theorem WaitsMoved.stays (h : WaitsMoved w r a w') {run : RunId} {waitId : DurableApprovalWaitId}
    {row : StoredApproval} (hrow : w.now.approvals run waitId = some row) :
    ∃ row', w'.now.approvals run waitId = some row' := by
  cases h with
  | created t record _ _ _ _ absent rows =>
    rw [rows, putApproval_of_ne, hrow]
    · exact ⟨row, rfl⟩
    · by_contra hsame
      simp only [not_or, not_not] at hsame
      rw [hsame.1, hsame.2, absent] at hrow
      cases hrow
  | moved run' waitId' _ _ row' _ _ _ _ _ _ rows =>
    by_cases hsame : run = run' ∧ waitId = waitId'
    · rw [rows, hsame.1, hsame.2, putApproval_self]
      exact ⟨row', rfl⟩
    · rw [rows, putApproval_of_ne (not_and_or.mp hsame), hrow]
      exact ⟨row, rfl⟩
  | still _ _ rows => exact ⟨row, by rw [rows, hrow]⟩

end

/-! ## The invariant -/

/-- The event suspends a run in the wait of this binding. -/
def ActionSealBinding.Suspends (b : ActionSealBinding) (kind : AgentEventKind) : Prop :=
  ∃ activeElapsedMillis, kind = .graph (.graphSuspended b.attemptId b.nodeId b.waitId
    b.approvalRequestId b.actionProposalId b.toolCallId b.actionDigest activeElapsedMillis)

variable {lib : Library} {reliable serial : Prop}

structure WaitsKept (w : Storage) (h : (sqlite lib reliable serial).clients.History) : Prop where
  /-- Every suspension has its row. -/
  suspended : ∀ run e waitId, e ∈ w.now.log run → e.kind.suspends = some waitId →
    ∃ row, w.now.approvals run waitId = some row ∧ row.record.binding.Suspends e.kind
  once : ∀ run waitId, (w.now.log run).countP (fun e => e.kind.suspends = some waitId) ≤ 1
  /-- A row that is over has left its trace in the log. -/
  settled : ∀ run waitId row, w.now.approvals run waitId = some row → row.status.isOver = true →
    ∃ e ∈ w.now.log run, e.kind.resumes = some waitId ∨ e.kind.isRunFinished = true
  /-- What a client has committed stands in the log. -/
  heard : ∀ i e, .committed e ∈ ((sqlite lib reliable serial).view i h).facts →
    e ∈ w.now.log e.runId
  /-- What a client has loaded is bound as the row is. -/
  loaded : ∀ i key waitId record,
    .loaded key waitId record ∈ ((sqlite lib reliable serial).view i h).facts →
    record.binding.key = key ∧ record.binding.waitId = waitId ∧
      ∃ row, w.now.approvals key.runId waitId = some row ∧ row.record.binding = record.binding
  /-- A row that was ever read is there, with the same binding. -/
  bound : ∀ old ∈ w.past, ∀ run waitId row, old.approvals run waitId = some row →
    ∃ row', w.now.approvals run waitId = some row' ∧ row'.record.binding = row.record.binding
  /-- A row was created, with this binding. -/
  opened : ∀ run waitId row, w.now.approvals run waitId = some row → ∃ record,
    WaitCreated h run record ∧ record.binding = row.record.binding ∧ record.binding.waitId = waitId
  created : ∀ run record, WaitCreated h run record → ∃ row,
    w.now.approvals run record.binding.waitId = some row ∧ row.record.binding = record.binding
  absent : ∀ run waitId, w.now.approvals run waitId = none → updates run waitId h = []
  climbed : ∀ run waitId row, w.now.approvals run waitId = some row →
    Trail.Leads .waiting (updates run waitId h) row.status ∧
      row.rowVersion = (updates run waitId h).length
  rungs : ∀ run waitId, ∀ m ∈ updates run waitId h, m.1.rung m.2 = true

namespace View

variable {v : View lib} {request : DurableApprovalStatusTransition} {t : AppendTransition}

theorem Moves.rung (h : v.Moves request) :
    request.expectedStatus.rung request.nextStatus = true := by
  unfold Moves at h
  split at h
  all_goals first | (rename_i hexpected hnext; rw [hexpected, hnext]; rfl) | cases h

/-- The events that a row is moved with. -/
theorem Moves.event (h : v.Moves request) (ht : request.transition = some t) :
    t.event.kind.resumes = some request.waitId ∨ (∃ id, t.event.kind.opens = some (.tool id)) ∨
      t.event.kind.isRunFinished = true := by
  unfold Moves at h
  split at h
  · exact absurd (h.1.symm.trans ht) (by simp)
  · obtain ⟨t', ht', hresumes⟩ := h
    obtain rfl := Option.some.inj (ht.symm.trans ht')
    exact .inl hresumes
  · obtain ⟨t', ht', hresumes⟩ := h
    obtain rfl := Option.some.inj (ht.symm.trans ht')
    exact .inl hresumes
  · obtain ⟨t', key, record, ht', -, -, hopens, -⟩ := h
    obtain rfl := Option.some.inj (ht.symm.trans ht')
    exact .inr (.inl ⟨_, hopens⟩)
  · exact absurd (h.symm.trans ht) (by simp)
  · obtain ⟨t', outcome, ht', hkind⟩ := h
    obtain rfl := Option.some.inj (ht.symm.trans ht')
    exact .inr (.inr (by rw [hkind]; rfl))
  · cases h

/-- What is known when a row is moved to where its wait is over. -/
theorem Moves.settles (h : v.Moves request) (hover : request.nextStatus.isOver = true) :
    request.expectedStatus.isOver = true ∨ ∃ t, request.transition = some t ∧
      (t.event.kind.resumes = some request.waitId ∨ t.event.kind.isRunFinished = true ∨
        ∃ resumed, .committed resumed ∈ v.facts ∧ resumed.kind.resumes = some request.waitId ∧
          resumed.runId = t.event.runId) := by
  unfold Moves at h
  split at h
  · rename_i hnext
    rw [hnext] at hover
    cases hover
  · rename_i hnext
    rw [hnext] at hover
    cases hover
  · obtain ⟨t, ht, hresumes⟩ := h
    exact .inr ⟨t, ht, .inl hresumes⟩
  · obtain ⟨t, key, record, ht, -, -, -, resumed, hresumed⟩ := h
    exact .inr ⟨t, ht, .inr (.inr ⟨resumed, hresumed⟩)⟩
  · rename_i hexpected _
    exact .inl (by rw [hexpected]; rfl)
  · obtain ⟨t, outcome, ht, hkind⟩ := h
    exact .inr ⟨t, ht, .inr (.inl (by rw [hkind]; rfl))⟩
  · cases h

end View

/-- An event that suspends does nothing else. -/
theorem AgentEventKind.suspends_only {k : AgentEventKind} {waitId : DurableApprovalWaitId}
    (h : k.suspends = some waitId) : k.restricted = some .wait ∧ k.resumes = none ∧ k.opens = none ∧
      k.isRunFinished = false := by
  unfold suspends at h
  split at h
  · exact ⟨rfl, rfl, rfl, rfl⟩
  · cases h

section

variable {w w' : Storage} {h : (sqlite lib reliable serial).clients.History} {i : Nat} {r : Request}
  {a : Answer r}

/-- Only the creation of a wait suspends a run. -/
theorem commits_suspension
    (hacts : Machine.Acts (sqlite lib reliable serial).watch w h i r a w') {run : RunId}
    {e : AgentEvent} (he : r.commits a run = some e) {waitId : DurableApprovalWaitId}
    (hsuspends : e.kind.suspends = some waitId) :
    ∃ t record degraded, r = .createDurableApprovalWait t record degraded ∧ t.event = e ∧
      t.key.runId = run ∧ record.binding.waitId = waitId ∧ record.binding.Suspends e.kind := by
  unfold Request.commits at he
  split at he
  · rename_i haccepted
    obtain ⟨t, ht, rfl⟩ := Option.map_eq_some_iff.mp he
    obtain ⟨htransition, hrun⟩ := Option.filter_eq_some_iff.mp ht
    have hordered := hacts.permitted.ordered
    cases r with
    | appendTransition t' =>
      cases htransition
      obtain ⟨cmd, -, hmay⟩ := (Option.any_eq_true ..).mp
        (hordered .wait (AgentEventKind.suspends_only hsuspends).1)
      cases hmay
    | createDurableApprovalWait t' record degraded =>
      cases htransition
      obtain ⟨-, -, -, ⟨active, hkind⟩, -⟩ := hordered
      refine ⟨t, record, degraded, rfl, rfl, by simpa using hrun, ?_, active, hkind⟩
      rw [hkind] at hsuspends
      exact Option.some.inj hsuspends
    | recordDurableApprovalDecision t' command =>
      cases htransition
      have hrecords := Served.decision hacts.answered haccepted
      unfold recordsDecision at hrecords
      split at hrecords
      · rename_i hkind
        rw [hkind] at hsuspends
        cases hsuspends
      · cases hrecords
    | transitionDurableApprovalStatus request =>
      obtain ⟨-, hresumes, hopens, hfinished⟩ := AgentEventKind.suspends_only hsuspends
      rcases View.Moves.event hordered htransition with hevent | ⟨id, hevent⟩ | hevent
      · exact absurd (hresumes.symm.trans hevent) (by simp)
      · exact absurd (hopens.symm.trans hevent) (by simp)
      · exact absurd (hfinished.symm.trans hevent) (by simp)
    | _ => cases htransition
  · cases he

theorem accepted_of_commits {run : RunId} {e : AgentEvent} (h : r.commits a run = some e) :
    r.accepted a = true ∧ ∃ t, r.transition = some t ∧ t.key.runId = run ∧ t.event = e := by
  unfold Request.commits at h
  split at h
  · rename_i haccepted
    obtain ⟨t, ht, rfl⟩ := Option.map_eq_some_iff.mp h
    obtain ⟨htransition, hrun⟩ := Option.filter_eq_some_iff.mp ht
    exact ⟨haccepted, t, htransition, by simpa using hrun, rfl⟩
  · cases h

theorem commits_of_accepted {t : AppendTransition} (ht : r.transition = some t)
    (ha : r.accepted a = true) : r.commits a t.key.runId = some t.event := by
  simp [Request.commits, ha, ht, Option.filter]

theorem mem_log_did (hmoved : RunsMoved w r a w') {run : RunId} {e : AgentEvent} :
    e ∈ w'.now.log run ↔ e ∈ w.now.log run ∨ r.commits a run = some e := by
  rw [hmoved.log, List.mem_append, Option.mem_toList]

/-- What is written is written under the run that the event names. -/
theorem RunsMoved.runId (hmoved : RunsMoved w r a w') {t : AppendTransition}
    (ht : r.transition = some t) (ha : r.accepted a = true) : t.event.runId = t.key.runId := by
  cases hmoved with
  | created _ _ request =>
    subst request
    cases ht
  | appended t' row transition _ continues =>
    obtain rfl : t' = t := Option.some.inj (transition.symm.trans ht)
    exact continues.run
  | still silent => exact absurd (ha.symm.trans (silent t ht)) (by simp)

theorem committed_of_factsOf {e : AgentEvent} (h : .committed e ∈ factsOf r a) :
    ∃ t, r.transition = some t ∧ r.accepted a = true ∧ t.event = e := by
  unfold factsOf at h
  split at h
  all_goals try (simp at h; done)
  · cases List.mem_singleton.mp h
    exact ⟨_, rfl, rfl, rfl⟩
  · cases List.mem_singleton.mp h
    exact ⟨_, rfl, rfl, rfl⟩
  · cases List.mem_singleton.mp h
    exact ⟨_, rfl, rfl, rfl⟩
  · rename_i request u
    simp only [List.mem_cons, reduceCtorEq, false_or, Option.mem_toList, Option.map_eq_some_iff,
      Fact.committed.injEq] at h
    obtain ⟨t, ht, rfl⟩ := h
    exact ⟨t, ht, rfl, rfl⟩

theorem loaded_of_factsOf {key : RunKey} {waitId : DurableApprovalWaitId}
    {record : DurableApprovalRecord} (h : .loaded key waitId record ∈ factsOf r a) :
    ∃ hr : r = .loadDurableApprovalWait key waitId, hr ▸ a = .ok record := by
  unfold factsOf at h
  split at h
  all_goals try (simp at h; done)
  cases List.mem_singleton.mp h
  exact ⟨rfl, rfl⟩

/-- The row and the event of one request belong to one run. -/
theorem Served.combined {request : DurableApprovalStatusTransition}
    {a : Answer (.transitionDurableApprovalStatus request)} {t : AppendTransition}
    (hserved : Served reliable w (.transitionDurableApprovalStatus request) a w')
    (ha : Request.accepted _ a = true) (ht : request.transition = some t) : t.key = request.key := by
  cases a with
  | error e => cases ha
  | ok u =>
    cases hserved with
    | wrote reads call ok committed =>
      cases call
      exact ((transitionDurableApprovalStatus_ok committed).1 t ht).1
    | failed _ _ error => cases error
    | other free => cases free

namespace WaitsKept

/-- An act that tells nothing of the rows. -/
theorem silent (hk : WaitsKept w h) {e : (sqlite lib reliable serial).clients.Act}
    (he : ∀ r a, e ≠ .did r a)
    (hforgets : ((sqlite lib reliable serial).view i (h ++ [(i, e)])).facts = []) :
    WaitsKept w (h ++ [(i, e)]) := by
  have hsame : ∀ run waitId, updates run waitId (h ++ [(i, e)]) = updates run waitId h := by
    intro run waitId
    have hnone : updates (S := sqlite lib reliable serial) run waitId [(i, e)] = [] := by
      cases e with
      | did r a => exact absurd rfl (he r a)
      | _ => rfl
    rw [updates_append, hnone, List.append_nil]
  have hfacts : ∀ {j f}, f ∈ ((sqlite lib reliable serial).view j (h ++ [(i, e)])).facts →
      f ∈ ((sqlite lib reliable serial).view j h).facts := by
    intro j f hf
    by_cases hji : j = i
    · subst hji
      rw [hforgets] at hf
      cases hf
    · rwa [Setting.view_other hji] at hf
  refine ⟨hk.suspended, hk.once, hk.settled, fun j e' he' => hk.heard j e' (hfacts he'),
    fun j key waitId record hf => hk.loaded j key waitId record (hfacts hf), hk.bound,
    fun run waitId row hrow => ?_, fun run record hcreated => ?_, ?_, ?_, ?_⟩
  · obtain ⟨record, hopened, hrecord⟩ := hk.opened run waitId row hrow
    exact ⟨record, hopened.append, hrecord⟩
  · obtain ⟨j, t, degraded, hmem, hrun⟩ := hcreated
    rcases List.mem_append.mp hmem with hold | hnew
    · exact hk.created run record ⟨j, t, degraded, hold, hrun⟩
    · cases List.mem_singleton.mp hnew
      exact absurd rfl (he _ _)
  · simpa only [hsame] using hk.absent
  · simpa only [hsame] using hk.climbed
  · simpa only [hsame] using hk.rungs

/-- A row that was ever read is what is bound now. -/
theorem binding (hk : WaitsKept w h) {read : Store} (hread : read = w.now ∨ read ∈ w.past)
    {run : RunId} {waitId : DurableApprovalWaitId} {found row : StoredApproval}
    (hfound : read.approvals run waitId = some found) (hrow : w.now.approvals run waitId = some row) :
    row.record.binding = found.record.binding := by
  rcases hread with rfl | hpast
  · obtain rfl := Option.some.inj (hrow.symm.trans hfound)
    rfl
  · obtain ⟨row', hrow', hsame⟩ := hk.bound read hpast run waitId found hfound
    obtain rfl := Option.some.inj (hrow.symm.trans hrow')
    exact hsame

theorem binding_did (hk : WaitsKept w h) (hmoved : WaitsMoved w r a w') {run : RunId}
    {waitId : DurableApprovalWaitId} {row : StoredApproval}
    (hrow : w.now.approvals run waitId = some row) :
    ∃ row', w'.now.approvals run waitId = some row' ∧ row'.record.binding = row.record.binding := by
  obtain ⟨row', hrow'⟩ := hmoved.stays hrow
  refine ⟨row', hrow', ?_⟩
  cases hmoved with
  | created t record _ _ _ _ absent rows =>
    rw [rows] at hrow'
    by_cases hsame : run = t.key.runId ∧ waitId = record.binding.waitId
    · rw [hsame.1, hsame.2, absent] at hrow
      cases hrow
    · rw [putApproval_of_ne (not_and_or.mp hsame), hrow] at hrow'
      obtain rfl := Option.some.inj hrow'
      rfl
  | moved run₁ waitId₁ _ row₁ next _ stored _ _ _ binding rows =>
    rw [rows] at hrow'
    by_cases hsame : run = run₁ ∧ waitId = waitId₁
    · obtain ⟨rfl, rfl⟩ := hsame
      rw [putApproval_self] at hrow'
      obtain rfl := Option.some.inj hrow'
      obtain ⟨read, found, hread, hfound, hbinding⟩ := binding
      rw [hbinding, hk.binding hread hfound hrow]
    · rw [putApproval_of_ne (not_and_or.mp hsame), hrow] at hrow'
      obtain rfl := Option.some.inj hrow'
      rfl
  | still _ _ rows =>
    rw [rows, hrow] at hrow'
    obtain rfl := Option.some.inj hrow'
    rfl

/-- A row after the request is a row from before, the new one, or the moved one. -/
theorem row_did (hmoved : WaitsMoved w r a w') {run : RunId} {waitId : DurableApprovalWaitId}
    {row' : StoredApproval} (hrow' : w'.now.approvals run waitId = some row') :
    (w.now.approvals run waitId = some row' ∧ ∀ m, r.moved a ≠ some ((run, waitId), m)) ∨
    (w.now.approvals run waitId = none ∧ r.moved a = none ∧ row'.status = .waiting ∧
      row'.rowVersion = 0 ∧ ∃ t degraded, t.key.runId = run ∧ row'.record.binding.waitId = waitId ∧
        r.accepted a = true ∧ r = .createDurableApprovalWait t row'.record degraded) ∨
    ∃ row m, w.now.approvals run waitId = some row ∧ r.moved a = some ((run, waitId), m) ∧
      row.status = m.1 ∧ row'.status = m.2 ∧ row'.rowVersion = row.rowVersion + 1 := by
  cases hmoved with
  | created t record degraded request accepted key absent rows =>
    rw [rows] at hrow'
    have hquiet : r.moved a = none := by
      subst request
      cases a <;> rfl
    by_cases hsame : run = t.key.runId ∧ waitId = record.binding.waitId
    · obtain ⟨rfl, rfl⟩ := hsame
      rw [putApproval_self] at hrow'
      obtain rfl := Option.some.inj hrow'
      exact .inr (.inl ⟨absent, hquiet, rfl, rfl, t, degraded, rfl, rfl, accepted, request⟩)
    · rw [putApproval_of_ne (not_and_or.mp hsame)] at hrow'
      exact .inl ⟨hrow', fun m hm => absurd (hquiet.symm.trans hm) (by simp)⟩
  | moved run₁ waitId₁ m row next request stored left entered version _ rows =>
    rw [rows] at hrow'
    by_cases hsame : run = run₁ ∧ waitId = waitId₁
    · obtain ⟨rfl, rfl⟩ := hsame
      rw [putApproval_self] at hrow'
      obtain rfl := Option.some.inj hrow'
      exact .inr (.inr ⟨row, m, stored, request, left, entered, version⟩)
    · rw [putApproval_of_ne (not_and_or.mp hsame)] at hrow'
      refine .inl ⟨hrow', fun m' hm => hsame ?_⟩
      have heq := Option.some.inj (request.symm.trans hm)
      simp only [Prod.mk.injEq] at heq
      exact ⟨heq.1.1.symm, heq.1.2.symm⟩
  | still quiet _ rows =>
    rw [rows] at hrow'
    exact .inl ⟨hrow', fun m hm => absurd (quiet.symm.trans hm) (by simp)⟩

variable (hacts : Machine.Acts (sqlite lib reliable serial).watch w h i r a w')

include hacts

theorem suspended_did (hk : WaitsKept w h) (run : RunId) (e : AgentEvent)
    (waitId : DurableApprovalWaitId) (he : e ∈ w'.now.log run)
    (hsuspends : e.kind.suspends = some waitId) :
    ∃ row, w'.now.approvals run waitId = some row ∧ row.record.binding.Suspends e.kind := by
  have hmoved := Served.waitsMoved hacts.answered
  rcases (mem_log_did (Served.runsMoved hacts.answered)).mp he with hold | hnew
  · obtain ⟨row, hrow, hrowsuspends⟩ := hk.suspended run e waitId hold hsuspends
    obtain ⟨row', hrow', hbinding⟩ := hk.binding_did hmoved hrow
    exact ⟨row', hrow', by rwa [hbinding]⟩
  · obtain ⟨t, record, degraded, rfl, -, rfl, rfl, hrecord⟩ := commits_suspension hacts hnew hsuspends
    cases hmoved with
    | created t' record' _ request _ _ _ rows =>
      cases request
      exact ⟨_, by rw [rows, putApproval_self], hrecord⟩
    | moved _ _ _ _ _ request => cases a <;> cases request
    | still _ uncreated =>
      have hrefused := uncreated t record degraded rfl
      rw [(accepted_of_commits hnew).1] at hrefused
      cases hrefused

theorem once_did (hk : WaitsKept w h) (run : RunId) (waitId : DurableApprovalWaitId) :
    (w'.now.log run).countP (fun e => e.kind.suspends = some waitId) ≤ 1 := by
  rw [(Served.runsMoved hacts.answered).log, List.countP_append]
  have hbefore := hk.once run waitId
  cases hnew : r.commits a run with
  | none => simpa using hbefore
  | some e =>
    by_cases hsuspends : e.kind.suspends = some waitId
    · -- the row did not exist, so no earlier event has suspended the run in this wait
      obtain ⟨t, record, degraded, rfl, -, rfl, rfl, -⟩ := commits_suspension hacts hnew hsuspends
      have habsent : w.now.approvals t.key.runId record.binding.waitId = none := by
        cases Served.waitsMoved hacts.answered with
        | created t' record' _ request _ _ absent _ =>
          cases request
          exact absent
        | moved _ _ _ _ _ request => cases a <;> cases request
        | still _ uncreated =>
          have hrefused := uncreated t record degraded rfl
          rw [(accepted_of_commits hnew).1] at hrefused
          cases hrefused
      have hnone : (w.now.log t.key.runId).countP
          (fun e => e.kind.suspends = some record.binding.waitId) = 0 := by
        rw [List.countP_eq_zero]
        intro e' he' hsame
        obtain ⟨row, hrow, -⟩ := hk.suspended _ e' _ he' (of_decide_eq_true hsame)
        rw [habsent] at hrow
        cases hrow
      simp [hnone, hsuspends]
    · simpa [hsuspends] using hbefore

theorem over_did (hk : WaitsKept w h) (run : RunId) (waitId : DurableApprovalWaitId)
    (row' : StoredApproval) (hrow' : w'.now.approvals run waitId = some row')
    (hover : row'.status.isOver = true) :
    ∃ e ∈ w'.now.log run, e.kind.resumes = some waitId ∨ e.kind.isRunFinished = true := by
  have hruns := Served.runsMoved hacts.answered
  have hgrown : ∀ {e}, e ∈ w.now.log run → e ∈ w'.now.log run := fun he =>
    (mem_log_did hruns).mpr (.inl he)
  have hbefore : ∀ {row}, w.now.approvals run waitId = some row → row.status.isOver = true →
      ∃ e ∈ w'.now.log run, e.kind.resumes = some waitId ∨ e.kind.isRunFinished = true := by
    intro row hrow hover
    obtain ⟨e, he, hkind⟩ := hk.settled run waitId row hrow hover
    exact ⟨e, hgrown he, hkind⟩
  rcases row_did (Served.waitsMoved hacts.answered) hrow' with
    ⟨hrow, -⟩ | ⟨-, -, hstatus, -⟩ | ⟨row, m, hrow, hm, hleft, hentered, -⟩
  · exact hbefore hrow hover
  · rw [hstatus] at hover
    cases hover
  · rw [hentered] at hover
    have hordered := hacts.permitted.ordered
    cases r with
    | recordDurableApprovalDecision t command =>
      cases a with
      | error e => cases hm
      | ok u =>
        cases hm
        cases hout : command.outcome <;> simp only [hout] at hover <;> cases hover
    | transitionDurableApprovalStatus request =>
      cases a with
      | error e => cases hm
      | ok u =>
        cases hm
        rcases View.Moves.settles hordered hover with hexpected | ⟨t, ht, hevent⟩
        · exact hbefore hrow (by rw [hleft]; exact hexpected)
        · have hkey := Served.combined hacts.answered rfl ht
          have hrun := hruns.runId ht rfl
          have hnew : t.event ∈ w'.now.log request.key.runId := by
            refine (mem_log_did hruns).mpr (.inr ?_)
            rw [← hkey]
            exact commits_of_accepted ht rfl
          rcases hevent with hresumes | hfinished | ⟨resumed, hfact, hresumes, hsame⟩
          · exact ⟨t.event, hnew, .inl hresumes⟩
          · exact ⟨t.event, hnew, .inr hfinished⟩
          · refine ⟨resumed, hgrown ?_, .inl hresumes⟩
            have hheard := hk.heard i resumed hfact
            rwa [hsame, hrun, hkey] at hheard
    | _ => cases hm

theorem heard_did (hk : WaitsKept w h) (j : Nat) (e : AgentEvent)
    (he : .committed e ∈ ((sqlite lib reliable serial).view j (h ++ [(i, .did r a)])).facts) :
    e ∈ w'.now.log e.runId := by
  have hruns := Served.runsMoved hacts.answered
  by_cases hji : j = i
  · subst hji
    rw [Setting.view_did] at he
    rcases List.mem_append.mp he with hold | hnew
    · exact (mem_log_did hruns).mpr (.inl (hk.heard j e hold))
    · obtain ⟨t, ht, haccepted, rfl⟩ := committed_of_factsOf hnew
      refine (mem_log_did hruns).mpr (.inr ?_)
      rw [hruns.runId ht haccepted]
      exact commits_of_accepted ht haccepted
  · rw [Setting.view_other hji] at he
    exact (mem_log_did hruns).mpr (.inl (hk.heard j e he))

theorem bound_did (hk : WaitsKept w h) (old : Store) (hold : old ∈ w'.past) (run : RunId)
    (waitId : DurableApprovalWaitId) (row : StoredApproval)
    (hrow : old.approvals run waitId = some row) :
    ∃ row', w'.now.approvals run waitId = some row' ∧ row'.record.binding = row.record.binding := by
  have hmoved := Served.waitsMoved hacts.answered
  rcases (Served.past hacts.answered).mp (.inr hold) with rfl | rfl | hpast
  · exact ⟨row, hrow, rfl⟩
  · exact hk.binding_did hmoved hrow
  · obtain ⟨mid, hmid, hbinding⟩ := hk.bound old hpast run waitId row hrow
    obtain ⟨row', hrow', hbinding'⟩ := hk.binding_did hmoved hmid
    exact ⟨row', hrow', hbinding'.trans hbinding⟩

theorem opened_did (hk : WaitsKept w h) (run : RunId) (waitId : DurableApprovalWaitId)
    (row' : StoredApproval) (hrow' : w'.now.approvals run waitId = some row') :
    ∃ record, WaitCreated (h ++ [(i, .did r a)]) run record ∧ record.binding = row'.record.binding ∧
      record.binding.waitId = waitId := by
  have hmoved := Served.waitsMoved hacts.answered
  have hold : ∀ {row}, w.now.approvals run waitId = some row →
      ∃ record, WaitCreated (h ++ [(i, .did r a)]) run record ∧ record.binding = row'.record.binding ∧
        record.binding.waitId = waitId := by
    intro row hrow
    obtain ⟨record, hopened, hbinding, hwait⟩ := hk.opened run waitId row hrow
    obtain ⟨row'', hrow'', hsame⟩ := hk.binding_did hmoved hrow
    obtain rfl := Option.some.inj (hrow'.symm.trans hrow'')
    exact ⟨record, hopened.append, hbinding.trans hsame.symm, hwait⟩
  rcases row_did hmoved hrow' with ⟨hrow, -⟩ | ⟨-, -, -, -, t, degraded, hrun, hwait, ha, rfl⟩ |
    ⟨row, m, hrow, -⟩
  · exact hold hrow
  · cases a with
    | error e => cases ha
    | ok u => exact ⟨row'.record, ⟨i, t, degraded, by simp, hrun⟩, rfl, hwait⟩
  · exact hold hrow

theorem created_did (hk : WaitsKept w h) (run : RunId) (record : DurableApprovalRecord)
    (hcreated : WaitCreated (h ++ [(i, .did r a)]) run record) :
    ∃ row, w'.now.approvals run record.binding.waitId = some row ∧
      row.record.binding = record.binding := by
  have hmoved := Served.waitsMoved hacts.answered
  obtain ⟨j, t, degraded, hmem, hrun⟩ := hcreated
  rcases List.mem_append.mp hmem with hold | hnew
  · obtain ⟨row, hrow, hbinding⟩ := hk.created run record ⟨j, t, degraded, hold, hrun⟩
    obtain ⟨row', hrow', hsame⟩ := hk.binding_did hmoved hrow
    exact ⟨row', hrow', hsame.trans hbinding⟩
  · cases List.mem_singleton.mp hnew
    cases hmoved with
    | created t' record' _ request _ _ _ rows =>
      cases request
      rw [rows, ← hrun, putApproval_self]
      exact ⟨_, rfl, rfl⟩
    | moved _ _ _ _ _ request => cases request
    | still _ uncreated => cases uncreated t record degraded rfl

theorem loaded_did (hk : WaitsKept w h) (j : Nat) (key : RunKey) (waitId : DurableApprovalWaitId)
    (record : DurableApprovalRecord)
    (hf : .loaded key waitId record ∈
      ((sqlite lib reliable serial).view j (h ++ [(i, .did r a)])).facts) :
    record.binding.key = key ∧ record.binding.waitId = waitId ∧
      ∃ row, w'.now.approvals key.runId waitId = some row ∧ row.record.binding = record.binding := by
  have hold : .loaded key waitId record ∈ ((sqlite lib reliable serial).view j h).facts →
      record.binding.key = key ∧ record.binding.waitId = waitId ∧
        ∃ row, w'.now.approvals key.runId waitId = some row ∧
          row.record.binding = record.binding := by
    intro hf
    obtain ⟨hkey, hwait, row, hrow, hbinding⟩ := hk.loaded j key waitId record hf
    obtain ⟨row', hrow', hsame⟩ := hk.binding_did (Served.waitsMoved hacts.answered) hrow
    exact ⟨hkey, hwait, row', hrow', hsame.trans hbinding⟩
  by_cases hji : j = i
  · subst hji
    rw [Setting.view_did] at hf
    rcases List.mem_append.mp hf with hbefore | hnew
    · exact hold hbefore
    · obtain ⟨rfl, hload⟩ := loaded_of_factsOf hnew
      cases hload
      cases hacts.answered with
      | wrote _ call => cases call
      | failed _ _ error => cases error
      | loadedWait load =>
        obtain ⟨row, hrow, -, hkey, hwait, rfl⟩ := loadDurableApprovalWait_ok load
        exact ⟨hkey, hwait, row, hrow, rfl⟩
      | other free => cases free
  · rw [Setting.view_other hji] at hf
    exact hold hf

theorem rung_of_moved {x : RunId × DurableApprovalWaitId}
    {m : DurableApprovalStatus × DurableApprovalStatus} (hm : r.moved a = some (x, m)) :
    m.1.rung m.2 = true := by
  have hordered := hacts.permitted.ordered
  cases r with
  | recordDurableApprovalDecision t command =>
    cases a with
    | error e => cases hm
    | ok u =>
      cases hm
      cases command.outcome <;> rfl
  | transitionDurableApprovalStatus request =>
    cases a with
    | error e => cases hm
    | ok u =>
      cases hm
      exact View.Moves.rung hordered
  | _ => cases hm

omit hacts in
/-- The updates of a row after one more answer. -/
theorem updates_concat (run : RunId) (waitId : DurableApprovalWaitId) :
    (∃ m, r.moved a = some ((run, waitId), m) ∧
      updates run waitId (h ++ [(i, .did r a)]) = updates run waitId h ++ [m]) ∨
    (∀ m, r.moved a ≠ some ((run, waitId), m)) ∧
      updates run waitId (h ++ [(i, .did r a)]) = updates run waitId h := by
  rw [updates_append, updates_did]
  cases hm : r.moved a with
  | none => exact .inr ⟨fun m => by simp, by simp⟩
  | some x =>
    obtain ⟨y, m⟩ := x
    by_cases hsame : y = (run, waitId)
    · exact .inl ⟨m, by rw [hsame], by simp [Option.filter, hsame]⟩
    · refine .inr ⟨fun m' heq => ?_, by simp [Option.filter, hsame]⟩
      exact hsame (congrArg Prod.fst (Option.some.inj heq))

theorem did (hk : WaitsKept w h) : WaitsKept w' (h ++ [(i, .did r a)]) := by
  have hmoved := Served.waitsMoved hacts.answered
  refine ⟨suspended_did hacts hk, once_did hacts hk, over_did hacts hk, heard_did hacts hk,
    loaded_did hacts hk, bound_did hacts hk, opened_did hacts hk, created_did hacts hk,
    fun run waitId hnone => ?_, fun run waitId row' hrow' => ?_,
    fun run waitId m hmem => ?_⟩
  · have hbefore : w.now.approvals run waitId = none := by
      refine Option.eq_none_iff_forall_ne_some.mpr fun row hrow => ?_
      obtain ⟨row', hrow'⟩ := hmoved.stays hrow
      rw [hnone] at hrow'
      cases hrow'
    rcases updates_concat (h := h) (i := i) (r := r) (a := a) run waitId with ⟨m, hm, -⟩ | ⟨-, heq⟩
    · cases hmoved with
      | created _ _ _ request =>
        subst request
        cases a <;> cases hm
      | moved _ _ _ _ _ request stored =>
        cases request.symm.trans hm
        rw [hbefore] at stored
        cases stored
      | still quiet => exact absurd (quiet.symm.trans hm) (by simp)
    · rw [heq]
      exact hk.absent run waitId hbefore
  · rcases updates_concat (h := h) (i := i) (r := r) (a := a) run waitId with ⟨m, hm, heq⟩ | ⟨hother, heq⟩
    · rcases row_did hmoved hrow' with ⟨-, hne⟩ | ⟨-, hquiet, -⟩ |
        ⟨row, m', hrow, hm', hleft, hentered, hversion⟩
      · exact absurd hm (hne m)
      · exact absurd (hquiet.symm.trans hm) (by simp)
      · obtain rfl : m' = m := congrArg Prod.snd (Option.some.inj (hm'.symm.trans hm))
        obtain ⟨htrail, hcount⟩ := hk.climbed run waitId row hrow
        rw [heq, hentered, hversion, hcount, List.length_append, List.length_singleton]
        rw [hleft] at htrail
        exact ⟨htrail.concat, rfl⟩
    · rw [heq]
      rcases row_did hmoved hrow' with ⟨hrow, -⟩ | ⟨hnone, -, hstatus, hversion, -⟩ |
        ⟨row, m, -, hm, -⟩
      · exact hk.climbed run waitId row' hrow
      · rw [hk.absent run waitId hnone, hstatus, hversion]
        exact ⟨rfl, rfl⟩
      · exact absurd hm (hother m)
  · rcases updates_concat (h := h) (i := i) (r := r) (a := a) run waitId with ⟨m', hm, heq⟩ | ⟨-, heq⟩
    · rw [heq] at hmem
      rcases List.mem_append.mp hmem with hold | hnew
      · exact hk.rungs run waitId m hold
      · obtain rfl := List.mem_singleton.mp hnew
        exact rung_of_moved hacts hm
    · rw [heq] at hmem
      exact hk.rungs run waitId m hmem

end WaitsKept

end

theorem reachable_waitsKept {s : (sqlite lib reliable serial).clients.State}
    (hs : (sqlite lib reliable serial).clients.Reachable ⟨empty, []⟩ s) :
    WaitsKept s.world s.history := by
  refine hs.induct (P := WaitsKept) (sqlite lib reliable serial).watch_sound ?_ ?_ ?_ ?_
  · refine ⟨?_, fun _ _ => Nat.zero_le 1, ?_, ?_, ?_, ?_, ?_, ?_, fun _ _ _ => rfl, ?_, ?_⟩
    · intro run e waitId he
      cases he
    · intro run waitId row hrow
      cases hrow
    · intro i e he
      cases he
    · intro i key waitId record hf
      cases hf
    · intro old hold
      cases hold
    · intro run waitId row hrow
      cases hrow
    · rintro run record ⟨i, t, degraded, hmem, -⟩
      cases hmem
    · intro run waitId row hrow
      cases hrow
    · intro run waitId m hm
      cases hm
  · intro w h i cmd l hk _
    refine hk.silent (fun r a he => by cases he) ?_
    rw [Setting.view_began]
    unfold View.began
    split <;> rfl
  · intro w h i r a w' hk hacts
    exact WaitsKept.did hacts hk
  · intro w h i hk
    refine hk.silent (fun r a he => by cases he) ?_
    rw [Setting.view_crashed]

/-! ## Log and rows -/

/-- If the log of a run says that it waits, then there is the row of just this wait, and it is
open. -/
def RowsAgree (codec : EventCodec) (s : Store) : Prop :=
  ∀ run row t attemptId nodeId waitId requestId proposalId toolCallId digest active,
    s.runs run = some row → (DurableRunState.initial row.record).replay codec row.events = .ok t →
    t.context.status = .running →
    t.graphPosition =
      some (.waiting attemptId nodeId waitId requestId proposalId toolCallId digest active) →
    ∃ approval, s.approvals run waitId = some approval ∧
      approval.record.binding.attemptId = attemptId ∧ approval.record.binding.nodeId = nodeId ∧
      approval.record.binding.approvalRequestId = requestId ∧
      approval.record.binding.actionProposalId = proposalId ∧
      approval.record.binding.toolCallId = toolCallId ∧
      approval.record.binding.actionDigest = digest ∧
      approval.status ∈ [.waiting, .decisionRecordedApprove, .decisionRecordedDeny, .approvedReady]

/-- Between two histories a row goes up its ladder, update by update. -/
structure ClimbsTo (moves : List (DurableApprovalStatus × DurableApprovalStatus))
    (row row' : StoredApproval) : Prop where
  leads : Trail.Leads row.status moves row'.status
  rungs : ∀ m ∈ moves, m.1.rung m.2 = true
  forward : row.status.rank ≤ row'.status.rank
  version : row'.rowVersion = row.rowVersion + moves.length

theorem WaitsKept.rowsAgree {w : Storage} {h : (sqlite lib reliable serial).clients.History}
    (hk : WaitsKept w h) : RowsAgree lib.codec w.now := by
  intro run row t attemptId nodeId waitId requestId proposalId toolCallId digest active hrow ht
    hrunning hposition
  have hlog : w.now.log run = row.events := by simp only [Store.log, hrow]
  have hwaits : t.wait = some waitId := by simp [DurableRunState.wait, hposition, DurableGraphPosition.wait]
  obtain ⟨e, he, hkind⟩ := DurableRunState.replay_suspended ht hposition
  obtain ⟨approval, happroval, active', hbound⟩ :=
    hk.suspended run e waitId (by rwa [hlog]) (by rw [hkind]; rfl)
  rw [hkind] at hbound
  simp only [AgentEventKind.graph.injEq, GraphProgressEvent.graphSuspended.injEq] at hbound
  obtain ⟨rfl, rfl, -, rfl, rfl, rfl, rfl, -⟩ := hbound
  refine ⟨approval, happroval, rfl, rfl, rfl, rfl, rfl, rfl, ?_⟩
  have hopen : approval.status.isOver ≠ true := by
    intro hover
    obtain ⟨e', he', htrace⟩ := hk.settled run waitId approval happroval hover
    rw [hlog] at he'
    rcases htrace with hresumes | hfinished
    · -- the wait was resumed, so the graph would be in it only after a second suspension
      have hbalance := DurableRunState.replay_suspensions ht waitId
      have honce := hk.once run waitId
      have hpos : 0 < row.events.countP fun e => decide (e.kind.resumes = some waitId) :=
        List.countP_pos_iff.mpr ⟨e', he', by simpa using hresumes⟩
      rw [hlog] at honce
      rw [if_pos hwaits] at hbalance
      omega
    · have hend := DurableRunState.replay_finish_count ht
      have hpos : 0 < row.events.countP fun e => e.kind.isFinish :=
        List.countP_pos_iff.mpr ⟨e', he', by simp [AgentEventKind.isFinish, hfinished]⟩
      rw [hend, hrunning] at hpos
      exact absurd hpos (Nat.lt_irrefl 0)
  cases hstatus : approval.status <;> simp_all [DurableApprovalStatus.isOver]

theorem WaitsKept.climbsTo {w w' : Storage} {h rest : (sqlite lib reliable serial).clients.History}
    (hk : WaitsKept w h) (hk' : WaitsKept w' (h ++ rest)) {run : RunId}
    {waitId : DurableApprovalWaitId} {row row' : StoredApproval}
    (hrow : w.now.approvals run waitId = some row) (hrow' : w'.now.approvals run waitId = some row') :
    ClimbsTo (updates run waitId rest) row row' := by
  obtain ⟨htrail, hversion⟩ := hk.climbed run waitId row hrow
  obtain ⟨htrail', hversion'⟩ := hk'.climbed run waitId row' hrow'
  have hrungs : ∀ m ∈ updates run waitId rest, m.1.rung m.2 = true := by
    intro m hm
    refine hk'.rungs run waitId m ?_
    rw [updates_append]
    exact List.mem_append_right _ hm
  rw [updates_append] at htrail' hversion'
  have hleads := htrail.rest htrail'
  refine ⟨hleads, hrungs, ?_, ?_⟩
  · exact (hleads.rank_le fun m hm => DurableApprovalStatus.rank_le_of_rung (hrungs m hm)).1
  · rw [hversion', hversion, List.length_append]

/-- **The log and the approval rows agree**, and every row only goes up its ladder. -/
theorem log_and_rows_agree {s : (sqlite lib reliable serial).clients.State}
    (hs : (sqlite lib reliable serial).clients.Reachable ⟨empty, []⟩ s) :
    RowsAgree lib.codec s.world.now ∧
      ∀ s', Relation.ReflTransGen (sqlite lib reliable serial).clients.Step s s' →
        ∀ run waitId row, s.world.now.approvals run waitId = some row →
          ∃ row', s'.world.now.approvals run waitId = some row' ∧
            ClimbsTo (updates run waitId (s'.history.drop s.history.length)) row row' := by
  have hk := reachable_waitsKept hs
  refine ⟨hk.rowsAgree, fun s' hlater run waitId row hrow => ?_⟩
  obtain ⟨⟨rest, hrest⟩, hworld⟩ := Machine.later_of_steps
    (K := fun w w' : Storage => w.now = w'.now ∨ w.now ∈ w'.past) (fun _ => .inl rfl)
    (fun w₁ w r a w' hold hserved => (Served.past hserved).mpr (.inr hold)) hlater
  have hk' := reachable_waitsKept (hs.trans hlater)
  rw [← hrest] at hk'
  obtain ⟨row', hrow'⟩ : ∃ row', s'.world.now.approvals run waitId = some row' := by
    rcases hworld with hsame | hpast
    · exact ⟨row, by rw [← hsame, hrow]⟩
    · obtain ⟨row', hrow', -⟩ := hk'.bound _ hpast run waitId row hrow
      exact ⟨row', hrow'⟩
  refine ⟨row', hrow', ?_⟩
  rw [← hrest, List.drop_left]
  exact hk.climbsTo hk' hrow hrow'

/-- The write that the sample run asks for. -/
def sampleAction : ValidatedAction plainLibrary := plainWrite (localWriteArguments ⟨"a", ""⟩)

/-- A graph whose first node suspends the run. -/
def suspendCommands : List (Nat × Command plainLibrary) :=
  [(0, sampleCommand (.newContext ⟨1⟩ ⟨2⟩ sampleBudget (.graph 1 7#256))),
   (0, sampleCommand (.startRun none)),
   (0, sampleCommand (.startGraph 7#256 ⟨"write"⟩ .action .never)),
   (0, sampleCommand (.enterGraphNode ⟨"write"⟩ .action .never)),
   (0, sampleCommand (.suspendDurableLocalWrite sampleAction ⟨1, 7#256, ⟨"write"⟩, ⟨3⟩⟩))]

/-- A second client approves, a third recovers the run and carries the write out. -/
def approveCommands : List (Nat × Command plainLibrary) :=
  [(1, sampleCommand (.recordDurableApprovalOutcome ⟨⟨1⟩, ⟨2⟩⟩ ⟨4⟩ 0 .approve none)),
   (2, sampleCommand (.recoverRun ⟨⟨1⟩, ⟨2⟩⟩)),
   (2, sampleCommand (.resumeDurableLocalWrite ⟨4⟩))]

/-- The run waits, its row agrees, and after the approval the row is consumed by five updates. -/
theorem approved_wait_agrees :
    (∃ approval, (sqliteRun favourable suspendCommands).world.now.approvals ⟨1⟩ ⟨4⟩ = some approval ∧
      approval.record.binding.toolCallId = ⟨4⟩ ∧ approval.status ∈ [.waiting,
        .decisionRecordedApprove, .decisionRecordedDeny, .approvedReady]) ∧
    ∃ row row', (sqliteRun favourable suspendCommands).world.now.approvals ⟨1⟩ ⟨4⟩ = some row ∧
      (sqliteRun favourable (suspendCommands ++ approveCommands)).world.now.approvals ⟨1⟩ ⟨4⟩ =
        some row' ∧ row'.rowVersion = row.rowVersion + 5 ∧ row.status.rank ≤ row'.status.rank := by
  obtain ⟨hpasses, hlater⟩ := sqliteRun_steps favourable suspendCommands approveCommands
    (by decide +kernel)
  obtain ⟨hagree, hclimb⟩ := log_and_rows_agree (sqliteRun_reachable favourable suspendCommands hpasses)
  have hall : ((sqliteRun favourable suspendCommands).world.now.runs ⟨1⟩).any (fun row =>
      isOkAnd ((DurableRunState.initial row.record).replay plainCodec row.events) fun t =>
        decide (t.context.status = .running ∧ t.graphPosition =
          some (.waiting ⟨3⟩ ⟨"write"⟩ ⟨4⟩ ⟨4⟩ ⟨9⟩ ⟨4⟩ ⟨0⟩ 0))) = true := by decide +kernel
  obtain ⟨row, hrow, hstate⟩ := (Option.any_eq_true ..).mp hall
  obtain ⟨t, ht, hdecided⟩ := isOkAnd_iff.mp hstate
  obtain ⟨hrunning, hposition⟩ := of_decide_eq_true hdecided
  obtain ⟨approval, happroval, -, -, -, -, hcall, -, hstatus⟩ :=
    hagree _ _ _ _ _ _ _ _ _ _ _ hrow ht hrunning hposition
  obtain ⟨approval', happroval', hclimbs⟩ := hclimb _ hlater ⟨1⟩ ⟨4⟩ approval happroval
  have hcount : (updates ⟨1⟩ ⟨4⟩ ((sqliteRun favourable (suspendCommands ++ approveCommands)).history.drop
      (sqliteRun favourable suspendCommands).history.length)).length = 5 := by decide +kernel
  refine ⟨⟨approval, happroval, hcall, hstatus⟩, approval, approval', happroval, happroval', ?_,
    hclimbs.forward⟩
  rw [hclimbs.version, hcount]

end LocalAgent
