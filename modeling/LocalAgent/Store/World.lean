import LocalAgent.Harness.Clients
import LocalAgent.Recovery.Guards
import LocalAgent.Store.Log

/-!
# Clients of one SQLite store

The world of the clients is the store: a persistence request is answered with what the transaction
returns, or it fails and nothing is written; everything else the environment answers freely. The
two calls that read before their transaction may have read any earlier state of the store, so the
earlier states are kept.

`Consistent` relates the store to what the clients know of it. It holds in every reachable state if
no persistence call fails, in any interleaving, and if commands run one after another, whatever
fails: either way a write that the store accepts extends the log that its client knows.
-/
namespace LocalAgent

open Program Store

/-- The store, and every store it was before. -/
structure Storage where
  now : Store
  past : List Store

/-- The call of the store a request makes; `read` is the store it has read before. -/
def Request.storeCall (read : Store) : Request → Option StoreCall
  | .createRun record checkpoint => some (.createRun record checkpoint)
  | .appendTransition t => some (.append t)
  | .createDurableApprovalWait t record _ => some (.createWait read t record)
  | .recordDurableApprovalDecision t command => some (.recordDecision read t command)
  | .transitionDurableApprovalStatus request => some (.transitionStatus request)
  | _ => none

/-- What an accepted transition or an opened run says about the call. -/
theorem Request.confirmed_of_accepted {r : Request} {a : Answer r} (h : r.accepted a = true) :
    r.confirmed a = true := by
  cases r with
  | appendTransition | createDurableApprovalWait | recordDurableApprovalDecision
  | transitionDurableApprovalStatus =>
    cases a with
    | ok u => rfl
    | error e => exact h
  | _ => exact absurd h Bool.false_ne_true

theorem Request.confirmed_of_openedRun {r : Request} {a : Answer r} {k : KnownRun}
    (h : r.openedRun a = some k) : r.confirmed a = true := by
  cases r with
  | createRun =>
    cases a with
    | ok u => rfl
    | error e => exact absurd h nofun
  | loadRun purpose =>
    cases a with
    | ok loaded => rfl
    | error e =>
      cases purpose with
      | recovery => exact absurd h nofun
      | authorization => exact absurd h nofun
  | _ => exact absurd h nofun

theorem Request.isPersistence_of_confirmed {r : Request} {a : Answer r} (h : r.confirmed a = true) :
    r.isPersistence = true := by
  cases r with
  | createRun | loadRun | appendTransition | createDurableApprovalWait | loadDurableApprovalWait
  | recordDurableApprovalDecision | transitionDurableApprovalStatus => rfl
  | _ => exact absurd h Bool.false_ne_true

/-- How the store answers. With `reliable` no persistence call fails. -/
inductive Served (reliable : Prop) (w : Storage) : (r : Request) → Answer r → Storage → Prop
  | wrote {r : Request} {a : Answer r} {read s : Store} {c : StoreCall}
      (reads : read = w.now ∨ read ∈ w.past) (call : r.storeCall read = some c)
      (ok : r.confirmed a = true) (committed : w.now.commit c = .ok s) :
      Served reliable w r a ⟨s, w.now :: w.past⟩
  | failed {r : Request} {a : Answer r} (unreliable : ¬ reliable) (persistence : r.isPersistence = true)
      (error : r.confirmed a = false) : Served reliable w r a w
  | loadedRun {purpose : LoadPurpose} {key : RunKey} {loaded : LoadedRun}
      (load : w.now.loadRun key = .ok loaded) :
      Served reliable w (.loadRun purpose key) (.ok loaded) w
  | loadedWait {key : RunKey} {waitId : DurableApprovalWaitId} {record : DurableApprovalRecord}
      (load : w.now.loadDurableApprovalWait key waitId = .ok record) :
      Served reliable w (.loadDurableApprovalWait key waitId) (.ok record) w
  | other {r : Request} {a : Answer r} (free : r.isPersistence = false) : Served reliable w r a w

/-- Clients whose harnesses persist to one SQLite store. -/
@[reducible] def sqlite (lib : Library) (reliable serial : Prop) : Setting lib where
  admits cmd := cmd.harness.persistence = true
  World := Storage
  exec := Served reliable
  serial := serial

/-! ## A sample store

The store answers for itself, `ports` for everything else; the number of writes so far serves as
the next id. -/

/-- A committed transaction, or the error of one that was rolled back. -/
def Storage.written (w : Storage) (result : Except PersistencePortError Store) :
    Except PersistencePortError Unit × Storage :=
  match result with
  | .ok s => (.ok (), ⟨s, w.now :: w.past⟩)
  | .error e => (.error e, w)

def Storage.answer (ports : Nat → (r : Request) → Answer r) (w : Storage) :
    (r : Request) → Answer r × Storage
  | .createRun record checkpoint => w.written (w.now.commit (.createRun record checkpoint))
  | .appendTransition t => w.written (w.now.commit (.append t))
  | .createDurableApprovalWait t record _ => w.written (w.now.commit (.createWait w.now t record))
  | .recordDurableApprovalDecision t command =>
    w.written (w.now.commit (.recordDecision w.now t command))
  | .transitionDurableApprovalStatus request => w.written (w.now.commit (.transitionStatus request))
  | .loadRun _ key => (w.now.loadRun key, w)
  | .loadDurableApprovalWait key waitId => (w.now.loadDurableApprovalWait key waitId, w)
  | r => (ports w.past.length r, w)

/-- The store does not refuse the request. -/
def Storage.accepts (ports : Nat → (r : Request) → Answer r) (w : Storage) (r : Request) : Bool :=
  !r.isPersistence || r.confirmed (w.answer ports r).1

/-- What the sample store answers without refusing is an answer of a store that never fails. -/
theorem Storage.served {reliable : Prop} {ports : Nat → (r : Request) → Answer r} (w : Storage)
    (r : Request) (h : w.accepts ports r = true) :
    Served reliable w r (w.answer ports r).1 (w.answer ports r).2 := by
  have hwrote : ∀ {r : Request} {c : StoreCall} {a : Answer r × Storage}
      (result : Except PersistencePortError Store), r.storeCall w.now = some c →
      w.now.commit c = result → (r.confirmed a.1 = true → ∃ s, result = .ok s ∧ a.2 = ⟨s, w.now :: w.past⟩) →
      r.confirmed a.1 = true → Served reliable w r a.1 a.2 := by
    intro r c a result hcall hresult hok hconfirmed
    obtain ⟨s, rfl, hw⟩ := hok hconfirmed
    rw [hw]
    exact .wrote (.inl rfl) hcall hconfirmed hresult
  cases r with
  | createRun | appendTransition | createDurableApprovalWait | recordDurableApprovalDecision
  | transitionDurableApprovalStatus =>
    refine hwrote _ rfl rfl (fun hconfirmed => ?_) h
    simp only [answer, written] at hconfirmed ⊢
    split at hconfirmed
    · rename_i s hs
      exact ⟨s, hs, by simp only⟩
    · cases hconfirmed
  | loadRun purpose key =>
    simp only [answer]
    cases hload : w.now.loadRun key with
    | ok loaded => exact .loadedRun hload
    | error e => simp [accepts, answer, hload, Request.isPersistence, Request.confirmed] at h
  | loadDurableApprovalWait key waitId =>
    simp only [answer]
    cases hload : w.now.loadDurableApprovalWait key waitId with
    | ok record => exact .loadedWait hload
    | error e => simp [accepts, answer, hload, Request.isPersistence, Request.confirmed] at h
  | _ => exact .other rfl

/-- The state after a script of commands on the sample store, which is empty at first. -/
def sqliteRun (ports : Nat → (r : Request) → Answer r) (cmds : List (Nat × Command plainLibrary)) :
    (sqlite plainLibrary True False).clients.State :=
  ((sqlite plainLibrary True False).clients.start ⟨empty, []⟩).script (Storage.answer ports) cmds

/-- Every harness persists and the store refuses nothing. -/
def sqlitePasses (ports : Nat → (r : Request) → Answer r)
    (cmds : List (Nat × Command plainLibrary)) : Bool :=
  (cmds.all fun cmd => cmd.2.harness.persistence) &&
    ((sqlite plainLibrary True False).clients.start ⟨empty, []⟩).scriptPasses (Storage.answer ports)
      (Storage.accepts ports) cmds

section

variable (ports : Nat → (r : Request) → Answer r) (cmds more : List (Nat × Command plainLibrary))

theorem sqliteRun_idle (h : sqlitePasses ports cmds = true) :
    Relation.ReflTransGen (sqlite plainLibrary True False).clients.Step
        ((sqlite plainLibrary True False).clients.start ⟨empty, []⟩) (sqliteRun ports cmds) ∧
      (sqlite plainLibrary True False).clients.AllIdle (sqliteRun ports cmds) := by
  obtain ⟨hadmits, hpasses⟩ := Bool.and_eq_true_iff.mp h
  refine Machine.steps_script (Storage.accepts ports) Storage.served Machine.allIdle_start ?_ hpasses
  intro cmd hcmd
  exact List.all_eq_true.mp hadmits cmd hcmd

theorem sqliteRun_reachable (h : sqlitePasses ports cmds = true) :
    (sqlite plainLibrary True False).clients.Reachable ⟨empty, []⟩ (sqliteRun ports cmds) :=
  Machine.Reachable.start.trans (sqliteRun_idle ports cmds h).1

/-- A longer script leads on from where a shorter one ends. -/
theorem sqliteRun_steps (h : sqlitePasses ports (cmds ++ more) = true) :
    sqlitePasses ports cmds = true ∧
      Relation.ReflTransGen (sqlite plainLibrary True False).clients.Step (sqliteRun ports cmds)
        (sqliteRun ports (cmds ++ more)) := by
  obtain ⟨hadmits, hpasses⟩ := Bool.and_eq_true_iff.mp h
  rw [List.all_append, Bool.and_eq_true] at hadmits
  rw [Machine.scriptPasses_append, Bool.and_eq_true] at hpasses
  have hfirst : sqlitePasses ports cmds = true := Bool.and_eq_true_iff.mpr ⟨hadmits.1, hpasses.1⟩
  refine ⟨hfirst, ?_⟩
  have hrest := Machine.steps_script (Storage.accepts ports) Storage.served
    (sqliteRun_idle ports cmds hfirst).2
    (fun cmd hcmd => List.all_eq_true.mp hadmits.2 cmd hcmd) hpasses.2
  have hscript : sqliteRun ports (cmds ++ more) =
      (sqliteRun ports cmds).script (Storage.answer ports) more := List.foldl_append ..
  rw [hscript]
  exact hrest.1

end

/-! ## What a request does to the runs -/

section

variable {reliable : Prop} {w w' : Storage} {r : Request} {a : Answer r}

/-- What a request did to the rows of the runs, and what it told the client about them. -/
inductive RunsMoved (w : Storage) (r : Request) (a : Answer r) (w' : Storage) : Prop
  | created (record : RunRecord) (checkpoint : DurableCheckpoint)
      (request : r = .createRun record checkpoint) (opened : r.openedRun a = some ⟨record, []⟩)
      (absent : w.now.runs record.key.runId = none)
      (valid : validRecordCheckpoint record checkpoint = true)
      (runs : w'.now.runs = (w.now.putRun record.key.runId
        { sessionId := record.key.sessionId, record := record, lastSequence := none
          terminal := false, throughSequence := none
          checkpointSchemaVersion := currentCheckpointSchemaVersion
          checkpoint := checkpoint, events := [] }).runs)
  | appended (t : AppendTransition) (row : StoredRun) (transition : r.transition = some t)
      (accepted : r.accepted a = true) (continues : Appended w.now t row)
      (runs : w'.now.runs = (w.now.putRun t.key.runId (StoredRun.append row t)).runs)
  | still (silent : ∀ t, r.transition = some t → r.accepted a = false)
      (opened : ∀ k, r.openedRun a = some k → ∃ key checkpoint,
        w.now.loadRun key = .ok ⟨k.record, checkpoint, k.log⟩)
      (runs : w'.now.runs = w.now.runs)

theorem Served.runsMoved (h : Served reliable w r a w') : RunsMoved w r a w' := by
  cases h with
  | @wrote _ _ read s c _ call ok committed =>
    have happend : ∀ {t mid}, r.transition = some t → r.accepted a = true →
        w.now.appendTransition t = .ok mid → s.runs = mid.runs →
        RunsMoved w r a ⟨s, w.now :: w.past⟩ := by
      intro t mid htransition haccepted ht hruns
      obtain ⟨row, hrow, rfl⟩ := appendTransition_ok ht
      exact .appended t row htransition haccepted hrow hruns
    cases r with
    | createRun record checkpoint =>
      cases call
      cases a with
      | error e => cases ok
      | ok u =>
        obtain ⟨hvalid, habsent, rfl⟩ := createRun_ok committed
        exact .created record checkpoint rfl rfl habsent hvalid rfl
    | appendTransition t =>
      cases call
      cases a with
      | error e => cases ok
      | ok u => exact happend rfl rfl committed rfl
    | createDurableApprovalWait t record degraded =>
      cases call
      cases a with
      | error e => cases ok
      | ok u =>
        obtain ⟨mid, ht, hruns, -⟩ := createDurableApprovalWait_ok committed
        exact happend rfl rfl ht hruns
    | recordDurableApprovalDecision t command =>
      cases call
      cases a with
      | error e => cases ok
      | ok u =>
        obtain ⟨mid, -, -, -, -, ht, hruns, -⟩ := recordDurableApprovalDecision_ok committed
        exact happend rfl rfl ht hruns
    | transitionDurableApprovalStatus request =>
      cases call
      cases a with
      | error e => cases ok
      | ok u =>
        obtain ⟨hsome, hnone, -⟩ := transitionDurableApprovalStatus_ok committed
        cases hreq : request.transition with
        | none =>
          refine .still (fun t ht => ?_) (fun k hk => ?_) (hnone hreq)
          · exact absurd (hreq.symm.trans ht) (by simp)
          · simp [Request.openedRun] at hk
        | some t =>
          obtain ⟨-, mid, ht, hruns⟩ := hsome t hreq
          exact happend hreq rfl ht hruns
    | _ => simp [Request.storeCall] at call
  | failed _ _ error =>
    refine .still (fun t _ => ?_) (fun k hk => ?_) rfl
    · exact Bool.eq_false_iff.mpr fun haccepted =>
        Bool.eq_false_iff.mp error (Request.confirmed_of_accepted haccepted)
    · exact absurd (Request.confirmed_of_openedRun hk) (Bool.eq_false_iff.mp error)
  | @loadedRun purpose key loaded load =>
    refine .still (fun t ht => by cases ht) (fun k hk => ?_) rfl
    cases purpose with
    | authorization => cases hk
    | recovery =>
      cases hk
      exact ⟨key, loaded.checkpoint, load⟩
  | loadedWait => exact .still (fun t ht => by cases ht) (fun k hk => by cases hk) rfl
  | other free =>
    have hfree : ¬ r.confirmed a = true := fun hc =>
      Bool.eq_false_iff.mp free (Request.isPersistence_of_confirmed hc)
    refine .still (fun t _ => ?_) (fun k hk => ?_) rfl
    · exact Bool.eq_false_iff.mpr fun haccepted => hfree (Request.confirmed_of_accepted haccepted)
    · exact absurd (Request.confirmed_of_openedRun hk) hfree

/-- Where no persistence call fails, every transition is accepted. -/
theorem Served.accepted (h : Served reliable w r a w') (hreliable : reliable) {t : AppendTransition}
    (ht : r.transition = some t) : r.accepted a = true := by
  have hpersistence : r.isPersistence = true := by
    cases r with
    | appendTransition | createDurableApprovalWait | recordDurableApprovalDecision
    | transitionDurableApprovalStatus => rfl
    | _ => cases ht
  have hconfirmed : r.confirmed a = true := by
    cases h with
    | wrote _ _ ok => exact ok
    | failed unreliable => exact absurd hreliable unreliable
    | loadedRun | loadedWait => rfl
    | other free => exact absurd (free.symm.trans hpersistence) (by simp)
  cases r with
  | appendTransition | createDurableApprovalWait | recordDurableApprovalDecision
  | transitionDurableApprovalStatus =>
    cases a with
    | ok u => rfl
    | error e => exact hconfirmed
  | _ => cases ht

end

/-! ## The rows of the runs -/

/-- A row as the harness leaves it. `marred` stands for a context that was marked audit-degraded
without an event, `late` for an event after the end of a run; both happen only in the places
`View` names. -/
structure RowKept (lib : Library) (marred late : Prop) (run : RunId) (row : StoredRun) : Prop where
  key : row.record.key = ⟨run, row.sessionId⟩
  storeVersion : row.record.storeSchemaVersion = currentStoreSchemaVersion
  checkpointVersion : row.record.checkpointSchemaVersion = currentCheckpointSchemaVersion
  numbered : Numbered row
  events : ∀ e ∈ row.events, e.schemaVersion = currentEventSchemaVersion ∧ e.runId = run
  short : row.events.length ≤ u64Max
  replayed : ∃ s, (DurableRunState.initial row.record).replay lib.codec row.events = .ok s
  terminal : row.terminal = row.events.any fun e => e.kind.isRunFinished
  afforded : ∀ x, startCount x row.events ≤ row.record.budget.limit x
  covered : ∃ n ≤ row.events.length, ∃ s,
    (DurableRunState.initial row.record).replay lib.codec (row.events.take n) = .ok s ∧
      row.throughSequence = lastOf n ∧
      row.checkpointSchemaVersion = currentCheckpointSchemaVersion ∧
      (row.checkpoint = .new s ∨ marred ∧ row.checkpoint = .new s.setAuditDegraded)
  last : late ∨ ∀ e ∈ row.events.dropLast, e.kind.isRunFinished = false

variable {lib : Library} {marred late marred' late' : Prop} {run : RunId} {row : StoredRun}
  {t : AppendTransition} {s : Store}

theorem RowKept.mono (h : RowKept lib marred late run row) (hmarred : marred → marred')
    (hlate : late → late') : RowKept lib marred' late' run row where
  __ := h
  covered := by
    obtain ⟨n, hn, s, hs, hthrough, hversion, hcheckpoint⟩ := h.covered
    exact ⟨n, hn, s, hs, hthrough, hversion, hcheckpoint.imp_right fun hm => ⟨hmarred hm.1, hm.2⟩⟩
  last := h.last.imp_left hlate

theorem rowKept_new {record : RunRecord} {checkpoint : DurableCheckpoint}
    (hvalid : validRecordCheckpoint record checkpoint = true)
    (hinitial : checkpoint = .new (.initial record)) :
    RowKept lib marred late record.key.runId
      { sessionId := record.key.sessionId, record := record, lastSequence := none
        terminal := false, throughSequence := none
        checkpointSchemaVersion := currentCheckpointSchemaVersion
        checkpoint := checkpoint, events := [] } where
  key := rfl
  storeVersion := by
    simp only [validRecordCheckpoint, Bool.not_eq_true', Bool.or_eq_false_iff,
      decide_eq_false_iff_not, not_not, ne_eq] at hvalid
    exact hvalid.1.1.1.1.1.1
  checkpointVersion := by
    simp only [validRecordCheckpoint, Bool.not_eq_true', Bool.or_eq_false_iff,
      decide_eq_false_iff_not, not_not, ne_eq] at hvalid
    exact hvalid.1.1.1.1.1.2
  numbered := ⟨rfl, rfl⟩
  events := by simp
  short := Nat.zero_le _
  replayed := ⟨_, rfl⟩
  terminal := rfl
  afforded _ := Nat.zero_le _
  covered := ⟨0, Nat.le_refl 0, _, rfl, rfl, rfl, .inl hinitial⟩
  last := .inr (by simp)

/-- A counted event that the reducer accepts and the context could afford. -/
theorem startCount_concat_le {m m' : DurableRunState} {e : AgentEvent} {record : RunRecord}
    {events : List AgentEvent}
    (hreplay : (DurableRunState.initial record).replay lib.codec events = .ok m)
    (happly : m.apply lib.codec e = .ok m') (hcounted : View.Counted m.context.usage e.kind)
    (hafford : ∀ x, startCount x events ≤ record.budget.limit x) (x : Counter) :
    startCount x (events ++ [e]) ≤ record.budget.limit x := by
  have hcount := DurableRunState.replay_count hreplay x
  have hle := hafford x
  have hmax := record.budget.limit_le x
  have hbudget : m.context.budget = record.budget := (DurableRunState.replay_identity hreplay).2.1
  obtain ⟨n, bytes, -, hrule, -, -⟩ := (DurableRunState.apply_ok happly).rule
  rw [startCount, List.countP_append, List.countP_singleton]
  change m.context.usage.count x = min (events.countP _) u32Max at hcount
  change events.countP _ ≤ _ at hle
  cases hkind : e.kind.counts with
  | none => simpa using hle
  | some c =>
    obtain ⟨y, next, limit⟩ := c
    obtain ⟨hnext, hlimit, -⟩ := hrule.counted hkind
    obtain ⟨hlt, hwithin⟩ := hcounted y next limit hkind
    by_cases hxy : x = y
    · subst hxy
      rw [hbudget] at hlimit
      rw [saturatingSucc] at hnext
      simp only [Option.any_some, decide_true, if_true]
      omega
    · simpa [Ne.symm hxy] using hle

/-- **An accepted write leaves a sound row**, if it extends the stored log. -/
theorem RowKept.append (h : RowKept lib marred late run row) (happ : Appended s t row)
    (hrun : t.key.runId = run) {v : View lib} {k : KnownRun} (hk : v.run = some k)
    (hrecord : row.record = k.record) (hlog : row.events = k.log) (hext : v.Extends t)
    (hmarred : v.tainted = true → marred)
    (hlate : v.interrupted = true ∨ v.lateAudit = true → late) :
    RowKept lib marred late run (StoredRun.append row t) := by
  obtain ⟨k', m, m', hk', -, hseq, hreplay, happly, hcheckpoint, hcounted, hbound, hfinished⟩ := hext
  obtain rfl : k = k' := Option.some.inj (hk.symm.trans hk')
  rw [← hrecord, ← hlog] at hreplay
  have hnext : (DurableRunState.initial row.record).replay lib.codec (row.events ++ [t.event]) =
      .ok m' := DurableRunState.replay_concat.mpr ⟨m, hreplay, happly⟩
  refine ⟨by simpa using h.key, by simpa using h.storeVersion, by simpa using h.checkpointVersion,
    h.numbered.append happ, ?_, ?_, ?_, ?_, ?_, ?_, ?_⟩
  · intro e he
    rw [append_events] at he
    rcases List.mem_append.mp he with hold | hlast
    · exact h.events e hold
    · obtain rfl := List.mem_singleton.mp hlast
      exact ⟨happ.version, happ.run.trans hrun⟩
  · rw [append_events, List.length_append, List.length_singleton, ← happ.sequence h.numbered]
    exact hbound
  · rw [append_events, append_record]
    exact ⟨m', hnext⟩
  · rw [append_events, append_terminal, h.terminal]
    simp
  · rw [append_events, append_record]
    exact startCount_concat_le hreplay happly hcounted h.afforded
  · rw [append_events, append_record]
    cases hcp : t.checkpoint with
    | none =>
      obtain ⟨n, hn, p, hp, hthrough, hversion, hstored⟩ := h.covered
      refine ⟨n, ?_, p, ?_, ?_⟩
      · rw [List.length_append]
        omega
      · rwa [List.take_append_of_le_length hn]
      · simpa only [StoredRun.append, hcp] using ⟨hthrough, hversion, hstored⟩
    | some cp =>
      refine ⟨row.events.length + 1, by simp, m', ?_, ?_⟩
      · rwa [List.take_of_length_le (by simp)]
      · have hversion := (happ.checkpoint cp hcp).1
        simp only [StoredRun.append, hcp, happ.sequence h.numbered]
        exact ⟨rfl, hversion, (hcheckpoint cp hcp).imp_right fun ht => ⟨hmarred ht.1, ht.2⟩⟩
  · rw [append_events, List.dropLast_concat]
    by_cases hfin : row.events.any (fun e => e.kind.isRunFinished) = true
    · rw [hlog] at hfin
      exact .inl (hlate (hfinished hfin))
    · refine .inr fun e he => ?_
      by_contra hne
      exact hfin (List.any_eq_true.mpr ⟨e, he, by simpa using hne⟩)

end LocalAgent
