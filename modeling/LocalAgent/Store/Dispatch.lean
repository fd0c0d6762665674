import LocalAgent.Harness.WriteAhead
import LocalAgent.Store.Approvals

/-!
# An approved write is started once

Whoever resumes a durable wait starts its tool under the event that moves the row from
`ApprovedReady` to `Executing`. The committed updates of a row are a trail up its ladder, so this
move is made at most once, only behind the move that an approval makes, and never on a trail that
began with a denial or an abort.
-/
namespace LocalAgent

open Program Store

variable {lib : Library} {reliable serial : Prop}

/-! ## Starts -/

section

variable {S : Setting lib}

/-- No client starts a tool but to resume a durable wait. -/
def OnlyWaits (h : S.clients.History) : Prop :=
  ∀ i cmd l, (i, .began cmd l) ∈ h → View.startsTools cmd.operation = false

/-- No two waits were created with the same tool call id. -/
def DistinctCalls (h : S.clients.History) : Prop :=
  ∀ run record run' record', WaitCreated h run record → WaitCreated h run' record' →
    record.binding.toolCallId = record'.binding.toolCallId →
    run = run' ∧ record.binding.waitId = record'.binding.waitId

/-- The act commits `ToolInvocationStarted` of the call. -/
def commitsStart (id : ToolCallId) : Nat × S.clients.Act → Bool
  | (_, .did r a) => (r.announces a).any fun x => x.2 = .tool id
  | _ => false

/-- The act starts a tool port for the call. -/
def startsPort (id : ToolCallId) : Nat × S.clients.Act → Bool
  | (_, .did r _) => r.portCall.any fun x => x.2 = .tool id
  | _ => false

theorem WaitCreated.of_take {h : S.clients.History} {p : Nat} {run : RunId}
    {record : DurableApprovalRecord} (hc : WaitCreated (h.take p) run record) :
    WaitCreated h run record := by
  obtain ⟨i, t, degraded, hmem, hrun⟩ := hc
  exact ⟨i, t, degraded, List.mem_of_mem_take hmem, hrun⟩

theorem mem_updates {h : S.clients.History} {run : RunId} {waitId : DurableApprovalWaitId}
    {m : DurableApprovalStatus × DurableApprovalStatus} :
    m ∈ updates run waitId h ↔
      ∃ (p i : Nat) (r : Request) (a : Answer r), h[p]? = some (i, .did r a) ∧
        r.moved a = some ((run, waitId), m) := by
  constructor
  · intro hm
    obtain ⟨⟨i, e⟩, hmem, hx⟩ := List.mem_filterMap.mp hm
    obtain ⟨p, hp⟩ := List.mem_iff_getElem?.mp hmem
    cases e with
    | did r a =>
      obtain ⟨⟨x, m'⟩, hfilter, rfl⟩ := Option.map_eq_some_iff.mp hx
      obtain ⟨hmoved, hsame⟩ := Option.filter_eq_some_iff.mp hfilter
      obtain rfl : x = (run, waitId) := of_decide_eq_true hsame
      exact ⟨p, i, r, a, hp, hmoved⟩
    | _ => cases hx
  · rintro ⟨p, i, r, a, hp, hmoved⟩
    refine List.mem_filterMap.mpr ⟨_, List.mem_iff_getElem?.mpr ⟨p, hp⟩, ?_⟩
    simp [hmoved, Option.filter]

end

theorem View.Moves.opens {v : View lib} {request : DurableApprovalStatusTransition}
    {t : AppendTransition} {id : ToolCallId} (h : v.Moves request)
    (ht : request.transition = some t) (hopens : t.event.kind.opens = some (.tool id)) :
    request.expectedStatus = .approvedReady ∧ request.nextStatus = .executing ∧
      ∃ key record, .loaded key request.waitId record ∈ v.facts ∧
        request.key = record.binding.key ∧ record.binding.toolCallId = id := by
  have hresumes : t.event.kind.resumes = none := by
    revert hopens
    cases t.event.kind <;> first | (intro; rfl) | (intro hnone; cases hnone)
  unfold Moves at h
  split at h
  · exact absurd (h.1.symm.trans ht) (by simp)
  · obtain ⟨t', ht', hresumed⟩ := h
    obtain rfl := Option.some.inj (ht.symm.trans ht')
    exact absurd (hresumes.symm.trans hresumed) (by simp)
  · obtain ⟨t', ht', hresumed⟩ := h
    obtain rfl := Option.some.inj (ht.symm.trans ht')
    exact absurd (hresumes.symm.trans hresumed) (by simp)
  · rename_i hexpected hnext
    obtain ⟨t', key, record, ht', hloaded, hkey, hopened, -⟩ := h
    obtain rfl := Option.some.inj (ht.symm.trans ht')
    rw [hopens] at hopened
    cases hopened
    exact ⟨hexpected, hnext, key, record, hloaded, hkey, rfl⟩
  · exact absurd (h.symm.trans ht) (by simp)
  · obtain ⟨t', outcome, ht', hkind⟩ := h
    obtain rfl := Option.some.inj (ht.symm.trans ht')
    rw [hkind] at hopens
    cases hopens
  · cases h

section

variable {w w' : Storage} {h : (sqlite lib reliable serial).clients.History} {i : Nat} {r : Request}
  {a : Answer r} {id : ToolCallId} {run : RunId} {waitId : DurableApprovalWaitId}

/-- **A start is committed only by the last but one move of a row.** -/
theorem WaitsKept.start_committed (hk : WaitsKept w h)
    (hacts : Machine.Acts (sqlite lib reliable serial).watch w h i r a w') (honly : OnlyWaits h)
    (hstart : commitsStart (S := sqlite lib reliable serial) id (i, .did r a) = true) :
    ∃ run record, WaitCreated h run record ∧ record.binding.toolCallId = id ∧
      r.moved a = some ((run, record.binding.waitId), (.approvedReady, .executing)) := by
  obtain ⟨x, hx, hid⟩ := (Option.any_eq_true ..).mp hstart
  unfold Request.announces at hx
  split at hx
  · rename_i haccepted
    obtain ⟨t, ht, hx⟩ := Option.bind_eq_some_iff.mp hx
    obtain ⟨key, hopens, rfl⟩ := Option.map_eq_some_iff.mp hx
    obtain rfl : key = .tool id := of_decide_eq_true hid
    have hordered := hacts.permitted.ordered
    cases r with
    | appendTransition t' =>
      cases ht
      have hrestricted : t.event.kind.restricted = some .tool := by
        revert hopens
        cases t.event.kind <;> first | (intro; rfl) | (intro hnone; cases hnone)
      obtain ⟨cmd, hcmd, hmay⟩ := (Option.any_eq_true ..).mp (hordered .tool hrestricted)
      have hcmd' : (sqlite lib reliable serial).clients.running i h = some cmd := by
        rw [← Setting.view_command]
        exact hcmd
      obtain ⟨l, hbegan⟩ := Machine.began_of_running hcmd'
      rw [View.mayAppend, honly i cmd l hbegan] at hmay
      cases hmay
    | createDurableApprovalWait t' record degraded =>
      cases ht
      obtain ⟨-, -, -, ⟨active, hkind⟩, -⟩ := hordered
      rw [hkind] at hopens
      cases hopens
    | recordDurableApprovalDecision t' command =>
      cases ht
      exact absurd (Eq.symm hordered |>.trans hopens) (by simp)
    | transitionDurableApprovalStatus request =>
      obtain ⟨hexpected, hnext, key, record, hloaded, hkey, hcall⟩ :=
        View.Moves.opens hordered ht hopens
      obtain ⟨hrecordKey, -, row, hrow, hbinding⟩ := hk.loaded i key request.waitId record hloaded
      obtain ⟨record', hcreated, hbinding', hwait⟩ := hk.opened _ _ row hrow
      rw [← hrecordKey, ← hkey] at hcreated
      refine ⟨request.key.runId, record', hcreated, ?_, ?_⟩
      · rw [hbinding', hbinding, hcall]
      · cases a with
        | error e => cases haccepted
        | ok u => rw [hwait, Request.moved, hexpected, hnext]
    | _ => cases ht
  · cases hx

/-- The trail of a row. -/
theorem WaitsKept.trail (hk : WaitsKept w h) {row : StoredApproval}
    (hrow : w.now.approvals run waitId = some row) :
    Trail.Leads .waiting (updates run waitId h) row.status ∧
      ∀ m ∈ updates run waitId h, m.1.rank ≤ m.2.rank :=
  ⟨(hk.climbed run waitId row hrow).1,
    fun m hm => DurableApprovalStatus.rank_le_of_rung (hk.rungs run waitId m hm)⟩

end

/-! ## The history of a wait -/

section

variable {s : (sqlite lib reliable serial).clients.State} {run : RunId}
  {record : DurableApprovalRecord}

/-- Every record of one wait has the same binding. -/
theorem binding_unique (hs : (sqlite lib reliable serial).clients.Reachable ⟨empty, []⟩ s)
    {record' : DurableApprovalRecord} (hc : WaitCreated s.history run record)
    (hc' : WaitCreated s.history run record')
    (hwait : record'.binding.waitId = record.binding.waitId) : record'.binding = record.binding := by
  have hk := reachable_waitsKept hs
  obtain ⟨row, hrow, hbinding⟩ := hk.created run record hc
  obtain ⟨row', hrow', hbinding'⟩ := hk.created run record' hc'
  rw [hwait, hrow] at hrow'
  obtain rfl := Option.some.inj hrow'
  rw [← hbinding, ← hbinding']

/-- The start of the call of a wait moves the row of this wait. -/
theorem moves_of_commitsStart (hs : (sqlite lib reliable serial).clients.Reachable ⟨empty, []⟩ s)
    (honly : OnlyWaits s.history) (hdistinct : DistinctCalls s.history)
    (hc : WaitCreated s.history run record) {p i : Nat} {r : Request} {a : Answer r}
    (hp : s.history[p]? = some (i, .did r a))
    (hstart : commitsStart (S := sqlite lib reliable serial) record.binding.toolCallId
      (i, .did r a) = true) :
    r.moved a = some ((run, record.binding.waitId), (.approvedReady, .executing)) := by
  obtain ⟨t, w', ht, hhistory, hacts⟩ := hs.acts (sqlite lib reliable serial).watch_sound hp
  have honly' : OnlyWaits t.history := by
    intro j cmd l hmem
    rw [hhistory] at hmem
    exact honly j cmd l (List.mem_of_mem_take hmem)
  obtain ⟨run', record', hc', hid, hmoved⟩ :=
    (reachable_waitsKept ht).start_committed hacts honly' hstart
  rw [hhistory] at hc'
  obtain ⟨hrun, hwait⟩ := hdistinct run' record' run record hc'.of_take hc hid
  rw [hmoved, hrun, hwait]

/-- The command approves the action of the wait. -/
structure Approves (command : DurableApprovalDecisionCommand) (run : RunId)
    (b : ActionSealBinding) : Prop where
  run : command.key.runId = run
  wait : command.waitId = b.waitId
  outcome : command.outcome = .approve
  request : command.approvalRequestId = b.approvalRequestId
  proposal : command.actionProposalId = b.actionProposalId
  call : command.toolCallId = b.toolCallId
  digest : command.actionDigest = b.actionDigest

/-- An approval carries the ids of the wait it moves. -/
theorem decision_of_moves (hs : (sqlite lib reliable serial).clients.Reachable ⟨empty, []⟩ s)
    (hc : WaitCreated s.history run record) {p i : Nat} {r : Request} {a : Answer r}
    (hp : s.history[p]? = some (i, .did r a))
    (hmoved : r.moved a = some ((run, record.binding.waitId), (.waiting, .decisionRecordedApprove))) :
    ∃ (t : AppendTransition) (command : DurableApprovalDecisionCommand),
      s.history[p]? = some (i, .did (.recordDurableApprovalDecision t command) (.ok ())) ∧
      Approves command run record.binding := by
  obtain ⟨u, w', hu, hhistory, hacts⟩ := hs.acts (sqlite lib reliable serial).watch_sound hp
  have hk := reachable_waitsKept hu
  have hordered := hacts.permitted.ordered
  cases r with
  | recordDurableApprovalDecision t command =>
    cases a with
    | error e => cases hmoved
    | ok u =>
      simp only [Request.moved, Option.some.injEq, Prod.mk.injEq, true_and] at hmoved
      obtain ⟨⟨hrun, hwait⟩, hstatus⟩ := hmoved
      have houtcome : command.outcome = .approve := by
        cases hout : command.outcome with
        | approve => rfl
        | deny => rw [hout] at hstatus; cases hstatus
      cases hacts.answered with
      | wrote reads call ok committed =>
        cases call
        obtain ⟨-, found, row, hdecided, -⟩ := recordDurableApprovalDecision_ok committed
        have hbinding := hk.binding reads hdecided.present hdecided.stored
        obtain ⟨record', hc', hsame, hwait'⟩ := hk.opened _ _ row hdecided.stored
        rw [hhistory, hrun] at hc'
        have hunique := binding_unique hs hc hc'.of_take (hwait'.trans hwait)
        have hfound : found.record.binding = record.binding := by
          rw [← hbinding, ← hsame, hunique]
        refine ⟨t, command, hp, hrun, hwait, houtcome, ?_, ?_, ?_, ?_⟩
        · rw [← hfound, hdecided.request]
        · rw [← hfound, hdecided.proposal]
        · rw [← hfound, hdecided.call]
        · rw [← hfound, hdecided.digest]
      | failed _ _ error => cases error
      | other free => cases free
  | transitionDurableApprovalStatus request =>
    cases a with
    | error e => cases hmoved
    | ok u =>
      simp only [Request.moved, Option.some.injEq, Prod.mk.injEq] at hmoved
      have hmoves : View.Moves _ request := hordered
      unfold View.Moves at hmoves
      rw [hmoved.2.1, hmoved.2.2] at hmoves
      cases hmoves
  | _ => cases hmoved

/-- What holds of the call of a wait over a whole history. -/
structure StartedOnce (h : (sqlite lib reliable serial).clients.History) (run : RunId)
    (record : DurableApprovalRecord) : Prop where
  committed : h.countP (commitsStart record.binding.toolCallId) ≤ 1
  started : h.countP (startsPort record.binding.toolCallId) ≤ 1
  approved : ∀ (p i : Nat) (r : Request) (a : Answer r), h[p]? = some (i, .did r a) →
    startsPort (S := sqlite lib reliable serial) record.binding.toolCallId (i, .did r a) = true →
    ∃ q < p, ∃ (i : Nat) (t : AppendTransition) (command : DurableApprovalDecisionCommand),
      h[q]? = some (i, .did (.recordDurableApprovalDecision t command) (.ok ())) ∧
      Approves command run record.binding
  denied : ∀ i t command, (i, .did (.recordDurableApprovalDecision t command) (.ok ())) ∈ h →
    command.key.runId = run → command.waitId = record.binding.waitId → command.outcome = .deny →
    h.countP (startsPort record.binding.toolCallId) = 0
  aborted : ∀ i request, (i, .did (.transitionDurableApprovalStatus request) (.ok ())) ∈ h →
    request.key.runId = run → request.waitId = record.binding.waitId →
    request.expectedStatus = .waiting → request.nextStatus = .consumed →
    h.countP (startsPort record.binding.toolCallId) = 0

/-- Every start of the port follows a committed start, and no two the same. -/
theorem startsPort_follows (hs : (sqlite lib reliable serial).clients.Reachable ⟨empty, []⟩ s)
    (id : ToolCallId) : s.history.countP (startsPort id) ≤ s.history.countP (commitsStart id) ∧
      ∀ (p : Nat) (x : Nat × (sqlite lib reliable serial).clients.Act), s.history[p]? = some x →
        startsPort id x = true → ∃ q < p, ∃ y : Nat × (sqlite lib reliable serial).clients.Act,
          s.history[q]? = some y ∧ commitsStart id y = true := by
  obtain ⟨start, hstart, hinj⟩ := calls_announced (fun _ hadmits => hadmits) hs
  have hcall : ∀ (p : Nat) (x : Nat × (sqlite lib reliable serial).clients.Act),
      s.history[p]? = some x → startsPort id x = true →
      (∃ (i : Nat) (r : Request) (a : Answer r), x = (i, .did r a) ∧ r.portCall.isSome = true) ∧
        start p < p ∧ ∃ y : Nat × (sqlite lib reliable serial).clients.Act,
          s.history[start p]? = some y ∧ commitsStart id y = true := by
    rintro p ⟨i, e⟩ hp hx
    cases e with
    | did r a =>
      obtain ⟨⟨run, key⟩, hport, hkey⟩ := (Option.any_eq_true ..).mp hx
      obtain rfl : key = .tool id := of_decide_eq_true hkey
      obtain ⟨hlt, -, r', a', hq, hann⟩ := hstart p i r a _ hp hport
      refine ⟨⟨i, r, a, rfl, by rw [hport]; rfl⟩, hlt, _, hq, ?_⟩
      simp [commitsStart, hann]
    | _ => cases hx
  refine ⟨Position.countP_le_of_injOn start ?_ ?_, fun p x hp hx => ?_⟩
  · intro p hp
    obtain ⟨x, hget, hx⟩ := Position.at_iff.mp hp
    exact Position.at_iff.mpr (hcall p x hget hx).2.2
  · intro p q hp hq heq
    obtain ⟨x, hgetp, hx⟩ := Position.at_iff.mp hp
    obtain ⟨y, hgetq, hy⟩ := Position.at_iff.mp hq
    obtain ⟨⟨i, r, a, rfl, hr⟩, -⟩ := hcall p x hgetp hx
    obtain ⟨⟨j, r', a', rfl, hr'⟩, -⟩ := hcall q y hgetq hy
    exact hinj p q i j r r' a a' hgetp hr hgetq hr' heq
  · obtain ⟨-, hlt, y, hget, hy⟩ := hcall p x hp hx
    exact ⟨start p, hlt, y, hget, hy⟩

/-- A committed start has the move of an approval before it. -/
theorem approval_before (hs : (sqlite lib reliable serial).clients.Reachable ⟨empty, []⟩ s)
    (honly : OnlyWaits s.history) (hdistinct : DistinctCalls s.history)
    (hc : WaitCreated s.history run record) {p : Nat}
    {x : Nat × (sqlite lib reliable serial).clients.Act} (hp : s.history[p]? = some x)
    (hx : commitsStart record.binding.toolCallId x = true) :
    (.waiting, .decisionRecordedApprove) ∈
      updates run record.binding.waitId (s.history.take p) := by
  obtain ⟨i, e⟩ := x
  cases e with
  | did r a =>
    have hmoved := moves_of_commitsStart hs honly hdistinct hc hp hx
    obtain ⟨u, w', hu, hhistory, hacts⟩ := hs.acts (sqlite lib reliable serial).watch_sound hp
    have hk := reachable_waitsKept hu
    rw [← hhistory]
    obtain ⟨row, hrow, hstatus⟩ : ∃ row, u.world.now.approvals run record.binding.waitId = some row ∧
        row.status = .approvedReady := by
      cases Served.waitsMoved hacts.answered with
      | created _ _ _ request =>
        subst request
        cases a <;> cases hmoved
      | moved _ _ _ row _ request stored left =>
        cases request.symm.trans hmoved
        exact ⟨row, stored, left⟩
      | still quiet => exact absurd (quiet.symm.trans hmoved) (by simp)
    -- the way to `ApprovedReady` leads through the approval
    obtain ⟨htrail, -⟩ := hk.trail hrow
    obtain ⟨⟨before, after⟩, hm, hout, hin⟩ := htrail.enters
      (P := fun status => status = .decisionRecordedApprove ∨ status = .approvedReady) (by simp)
      (.inr hstatus)
    have hrung := hk.rungs _ _ _ hm
    cases before <;> cases after <;> first
      | exact hm
      | (cases hrung; done)
      | exact (hout (.inl rfl)).elim
      | exact (hout (.inr rfl)).elim
      | exact absurd hin (by simp)
  | _ => cases hx

end

/-- **An approved write is started once**, under any interleaving of the clients and any crash. -/
theorem approved_write_starts_once {s : (sqlite lib reliable serial).clients.State}
    (hs : (sqlite lib reliable serial).clients.Reachable ⟨empty, []⟩ s)
    (honly : OnlyWaits s.history) (hdistinct : DistinctCalls s.history) {run : RunId}
    {record : DurableApprovalRecord} (hc : WaitCreated s.history run record) :
    StartedOnce s.history run record := by
  have hk := reachable_waitsKept hs
  obtain ⟨row, hrow, -⟩ := hk.created run record hc
  obtain ⟨htrail, hup⟩ := hk.trail hrow
  have hcommitted : s.history.countP (commitsStart record.binding.toolCallId) ≤
      (updates run record.binding.waitId s.history).count (.approvedReady, .executing) := by
    rw [List.count, updates, List.countP_filterMap]
    refine List.countP_mono_left fun x hx hstart => ?_
    obtain ⟨p, hp⟩ := List.mem_iff_getElem?.mp hx
    obtain ⟨i, e⟩ := x
    cases e with
    | did r a =>
      have hmoved := moves_of_commitsStart hs honly hdistinct hc hp hstart
      simp [hmoved, Option.filter]
    | _ => cases hstart
  have honce : s.history.countP (commitsStart record.binding.toolCallId) ≤ 1 :=
    Nat.le_trans hcommitted (htrail.count_le_one hup (by decide))
  obtain ⟨hports, hfollows⟩ := startsPort_follows hs record.binding.toolCallId
  -- no start on a trail that began otherwise
  have hnever : ∀ next, (.waiting, next) ∈ updates run record.binding.waitId s.history →
      0 < DurableApprovalStatus.rank next → next ≠ .decisionRecordedApprove →
      s.history.countP (startsPort record.binding.toolCallId) = 0 := by
    intro next hnext hrank hne
    refine List.countP_eq_zero.mpr fun x hx hstart => ?_
    obtain ⟨p, hp⟩ := List.mem_iff_getElem?.mp hx
    obtain ⟨q, -, y, hq, hy⟩ := hfollows p x hp hstart
    have happroved := approval_before hs honly hdistinct hc hq hy
    obtain ⟨n, i, r, a, hn, hmoved⟩ := mem_updates.mp happroved
    have hmem := mem_updates.mpr ⟨n, i, r, a, (getElem?_of_take hn).2, hmoved⟩
    have heq := htrail.up_unique hup hnext hmem rfl hrank (by decide)
    exact hne (congrArg Prod.snd heq)
  refine ⟨honce, Nat.le_trans hports honce, fun p i r a hp hx => ?_,
    fun i t command hmem hrun hwait hout => ?_, fun i request hmem hrun hwait hexpected hnext => ?_⟩
  · obtain ⟨q, hqp, y, hq, hy⟩ := hfollows p _ hp hx
    obtain ⟨n, j, r', a', hn, hmoved⟩ := mem_updates.mp (approval_before hs honly hdistinct hc hq hy)
    obtain ⟨hnq, hn⟩ := getElem?_of_take hn
    obtain ⟨t, command, hget, hcommand⟩ := decision_of_moves hs hc hn hmoved
    exact ⟨n, Nat.lt_trans hnq hqp, j, t, command, hget, hcommand⟩
  · obtain ⟨p, hp⟩ := List.mem_iff_getElem?.mp hmem
    refine hnever .decisionRecordedDeny (mem_updates.mpr ⟨p, i, _, _, hp, ?_⟩) (by decide) (by decide)
    rw [Request.moved, hrun, hwait, hout]
    rfl
  · obtain ⟨p, hp⟩ := List.mem_iff_getElem?.mp hmem
    refine hnever .consumed (mem_updates.mpr ⟨p, i, _, _, hp, ?_⟩) (by decide) (by decide)
    rw [Request.moved, hrun, hwait, hexpected, hnext]

/-- The act creates no wait but the one of the sample run, and no command starts a tool without one. -/
def onlySampleWait : Nat × (sqlite lib reliable serial).clients.Act → Bool
  | (_, .did (.createDurableApprovalWait t record _) _) =>
    decide (t.key.runId = ⟨1⟩ ∧ record.binding.waitId = ⟨4⟩)
  | (_, .began cmd _) => !View.startsTools cmd.operation
  | _ => true

theorem distinctCalls_of_sample {h : (sqlite lib reliable serial).clients.History}
    (hall : h.all onlySampleWait = true) : OnlyWaits h ∧ DistinctCalls h := by
  have hwait : ∀ run record, WaitCreated h run record →
      run = ⟨1⟩ ∧ record.binding.waitId = ⟨4⟩ := by
    rintro run record ⟨i, t, degraded, hmem, rfl⟩
    exact of_decide_eq_true (List.all_eq_true.mp hall _ hmem)
  refine ⟨fun i cmd l hmem => ?_, fun run record run' record' hc hc' _ => ?_⟩
  · simpa [onlySampleWait] using List.all_eq_true.mp hall _ hmem
  · obtain ⟨rfl, hid⟩ := hwait run record hc
    obtain ⟨rfl, hid'⟩ := hwait run' record' hc'
    exact ⟨rfl, hid.trans hid'.symm⟩

/-- The approved write of the sample run is started, and only once. -/
theorem approved_sample_starts_once :
    (sqliteRun favourable (suspendCommands ++ approveCommands)).history.countP (startsPort ⟨4⟩) = 1 ∧
    ∃ record, StartedOnce (sqliteRun favourable (suspendCommands ++ approveCommands)).history ⟨1⟩ record ∧
      record.binding.toolCallId = ⟨4⟩ := by
  have hreach := sqliteRun_reachable favourable (suspendCommands ++ approveCommands) (by decide +kernel)
  obtain ⟨honly, hdistinct⟩ := distinctCalls_of_sample
    (h := (sqliteRun favourable (suspendCommands ++ approveCommands)).history) (by decide +kernel)
  have hrow : ((sqliteRun favourable (suspendCommands ++ approveCommands)).world.now.approvals
      ⟨1⟩ ⟨4⟩).any (fun row => row.record.binding.toolCallId = ⟨4⟩) = true := by decide +kernel
  obtain ⟨row, hstored, hcall⟩ := (Option.any_eq_true ..).mp hrow
  obtain ⟨record, hc, hbinding, -⟩ := (reachable_waitsKept hreach).opened _ _ row hstored
  refine ⟨by decide +kernel, record, approved_write_starts_once hreach honly hdistinct hc, ?_⟩
  rw [hbinding]
  exact of_decide_eq_true hcall

end LocalAgent
