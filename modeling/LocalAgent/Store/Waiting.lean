import LocalAgent.Harness.Reasons
import LocalAgent.Store.Approvals

/-!
# The queue of open waits

`list_waiting` shows the operator every approval row that is not consumed. `abort_durable_waiting`
ends a run and consumes its wait in one transaction; every other path that ends a run
(`terminalize_safety` after a cancellation, a deadline or a failed audit, and the methods that
finish a context) writes to the event log alone. Where such a path meets an open wait, the queue
keeps an item of a finished run.

`Undisturbed` says when none does: no client with an open wait in its run is told to stop, calls a
method that is there to end the run, or spends more than its budgets. Since every end of a run has a
reason (`Harness/Reasons.lean`), and the client knows of the wait when the reason is given
(`KnowsWait.earlier`), no run is then ended beside an open wait (`endsWaits_of_undisturbed`).
-/
namespace LocalAgent

open Program Store DurableRunState

variable {lib : Library} {reliable serial : Prop}

section

variable {S : Setting lib}

/-- The wait was created, and no committed update has consumed it. -/
def WaitOpen (h : S.clients.History) (run : RunId) (waitId : DurableApprovalWaitId) : Prop :=
  (∃ record, WaitCreated h run record ∧ record.binding.waitId = waitId) ∧
    ∀ m ∈ updates run waitId h, m.2 ≠ .consumed

/-- Whoever ends a run consumes its open waits with it. -/
def EndsWaits (h : S.clients.History) : Prop :=
  ∀ p i r a run e waitId, h[p]? = some (i, .did r a) → r.commits a run = some e →
    e.kind.isFinish = true → WaitOpen (h.take p) run waitId →
    ∃ before, r.moved a = some ((run, waitId), (before, .consumed))

theorem EndsWaits.before {h : S.clients.History} {x : Nat × S.clients.Act}
    (hends : EndsWaits (h ++ [x])) : EndsWaits h := by
  intro p i r a run e waitId hp he hfinish hopen
  have hlt := (List.getElem?_eq_some_iff.mp hp).1
  refine hends p i r a run e waitId ?_ he hfinish ?_
  · rwa [List.getElem?_append_left hlt]
  · rwa [List.take_append_of_le_length (Nat.le_of_lt hlt)]

end

section

variable {w w' : Storage} {h : (sqlite lib reliable serial).clients.History} {i : Nat} {r : Request}
  {a : Answer r} {run : RunId} {waitId : DurableApprovalWaitId} {row : StoredApproval}

/-- A row that is not consumed belongs to an open wait. -/
theorem WaitsKept.waitOpen (hk : WaitsKept w h) (hrow : w.now.approvals run waitId = some row)
    (hstatus : row.status ≠ .consumed) : WaitOpen h run waitId := by
  obtain ⟨record, hcreated, -, hwait⟩ := hk.opened run waitId row hrow
  refine ⟨⟨record, hcreated, hwait⟩, fun m hm hconsumed => hstatus ?_⟩
  refine (hk.climbed run waitId row hrow).1.stays (P := (· = .consumed)) (fun m hm hleft => ?_)
    (.inr ⟨m, hm, hconsumed⟩)
  have hrung := hk.rungs run waitId m hm
  rw [hleft] at hrung
  cases hrung

/-- No run that has ended is suspended. -/
theorem Consistent.unfinished_of_suspends (hc : Consistent w h) (htrust : reliable ∨ serial)
    {t : AppendTransition} {record : DurableApprovalRecord} {degraded : Bool}
    {a : Answer (.createDurableApprovalWait t record degraded)}
    (hacts : Machine.Acts (sqlite lib reliable serial).watch w h i
      (.createDurableApprovalWait t record degraded) a w')
    (ha : Request.accepted _ a = true) : ∀ e ∈ w.now.log t.key.runId, e.kind.isFinish = false := by
  obtain ⟨-, -, -, ⟨active, hkind⟩, hfinished⟩ := hacts.permitted.ordered
  cases Served.runsMoved hacts.answered with
  | created _ _ request => cases request
  | still silent => exact absurd (ha.symm.trans (silent t rfl)) (by simp)
  | appended t' stored transition _ continues =>
    cases transition
    obtain ⟨k, hk, -, hlog, k', m, m', hk', -, -, hreplay, happly, -⟩ :=
      hc.extends htrust hacts rfl continues
    obtain rfl : k = k' := Option.some.inj (hk.symm.trans hk')
    have hrunFinished := hfinished (hc.persistent i) k hk
    intro e he
    simp only [Store.log, continues.stored, hlog] at he
    refine Bool.or_eq_false_iff.mpr ⟨?_, ?_⟩
    · exact Bool.eq_false_iff.mpr (List.any_eq_false.mp hrunFinished e he)
    · -- after a graph terminal there is no node to be suspended in
      refine Bool.eq_false_iff.mpr fun hterminal => ?_
      obtain ⟨g, hgraph, hover, -⟩ := replay_graphOver hreplay ⟨e, he, hterminal⟩
      obtain ⟨next, bytes, -, hrule, -, -⟩ := (apply_ok happly).rule
      rw [hkind] at hrule
      cases hrule with
      | graph rule =>
        cases rule with
        | graphSuspended graph position =>
          obtain rfl := Option.some.inj (hgraph.symm.trans graph)
          rw [hover] at position
          cases position
        | graphFinished _ terminal =>
          obtain ⟨_, _, _, heq, -⟩ | ⟨_, _, _, _, heq, -⟩ := terminal <;> cases heq
      | resolved terminal => cases terminal
      | decided decision => cases decision
      | noted note => cases note

/-- A wait is opened in a run that has not ended. -/
theorem Consistent.unfinished_after_suspends (hc : Consistent w h) (htrust : reliable ∨ serial)
    {t : AppendTransition} {record : DurableApprovalRecord} {degraded : Bool}
    {a : Answer (.createDurableApprovalWait t record degraded)}
    (hacts : Machine.Acts (sqlite lib reliable serial).watch w h i
      (.createDurableApprovalWait t record degraded) a w')
    (ha : Request.accepted _ a = true) : ∀ e ∈ w'.now.log t.key.runId, e.kind.isFinish = false := by
  intro e he
  rcases (mem_log_did (Served.runsMoved hacts.answered)).mp he with hold | hnew
  · exact hc.unfinished_of_suspends htrust hacts ha e hold
  · obtain ⟨-, -, -, ⟨active, hkind⟩, -⟩ := hacts.permitted.ordered
    obtain ⟨-, t', ht', -, rfl⟩ := accepted_of_commits hnew
    cases ht'
    rw [hkind]
    rfl

/-- A row that is moved was not consumed. -/
theorem WaitsKept.unconsumed_of_moved {r : Request} {a : Answer r}
    (hacts : Machine.Acts (sqlite lib reliable serial).watch w h i r a w')
    {run : RunId} {waitId : DurableApprovalWaitId} {m : DurableApprovalStatus × DurableApprovalStatus}
    (hm : r.moved a = some ((run, waitId), m)) : m.1 ≠ .consumed := by
  intro hconsumed
  have hrung := WaitsKept.rung_of_moved hacts hm
  rw [hconsumed] at hrung
  cases hrung

/-- **The rows of a run that has ended are consumed**, if every end took the open waits with it. -/
theorem ended_waits_consumed (htrust : reliable ∨ serial)
    {s : (sqlite lib reliable serial).clients.State}
    (hs : (sqlite lib reliable serial).clients.Reachable ⟨empty, []⟩ s) (hends : EndsWaits s.history) :
    ∀ run waitId row, s.world.now.approvals run waitId = some row →
      (∃ e ∈ s.world.now.log run, e.kind.isFinish = true) → row.status = .consumed := by
  refine hs.induct_with (I := fun w h => Consistent w h ∧ WaitsKept w h)
    (P := fun w h => EndsWaits h → ∀ run waitId row, w.now.approvals run waitId = some row →
      (∃ e ∈ w.now.log run, e.kind.isFinish = true) → row.status = .consumed)
    (sqlite lib reliable serial).watch_sound
    (fun t ht => ⟨reachable_consistent htrust ht, reachable_waitsKept ht⟩) ?_ ?_ ?_ ?_ hends
  · intro _ run waitId row hrow
    cases hrow
  · intro w h i cmd l _ ih _ hends
    exact ih hends.before
  · rintro w h i r a w' ⟨hc, hk⟩ ih hacts hends run waitId row' hrow' ⟨e, he, hfinish⟩
    have hbefore := ih hends.before
    have hmoved := Served.waitsMoved hacts.answered
    have hopened : ∀ {t degraded}, r = .createDurableApprovalWait t row'.record degraded →
        r.accepted a = true → t.key.runId = run → row'.status = .consumed := by
      rintro t degraded rfl ha rfl
      rw [hc.unfinished_after_suspends htrust hacts ha e he] at hfinish
      cases hfinish
    rcases (mem_log_did (Served.runsMoved hacts.answered)).mp he with hold | hnew
    · rcases WaitsKept.row_did hmoved hrow' with ⟨hrow, -⟩ |
        ⟨-, -, -, -, t, degraded, hrun, -, ha, hr⟩ | ⟨row, m, hrow, hm, hleft, -⟩
      · exact hbefore run waitId row' hrow ⟨e, hold, hfinish⟩
      · exact hopened hr ha hrun
      · exact absurd (hleft.symm.trans (hbefore run waitId row hrow ⟨e, hold, hfinish⟩))
          (WaitsKept.unconsumed_of_moved hacts hm)
    · have hlast : (h ++ [(i, .did r a)])[h.length]? = some (i, .did r a) := by simp
      have htaken : ∀ {row}, w.now.approvals run waitId = some row → row.status ≠ .consumed →
          ∃ before, r.moved a = some ((run, waitId), (before, .consumed)) := by
        intro row hrow hstatus
        refine hends h.length i r a run e waitId hlast hnew hfinish ?_
        rw [List.take_left]
        exact hk.waitOpen hrow hstatus
      rcases WaitsKept.row_did hmoved hrow' with ⟨hrow, hother⟩ |
        ⟨-, -, -, -, t, degraded, hrun, -, ha, hr⟩ | ⟨row, m, hrow, hm, hleft, hentered, -⟩
      · by_contra hstatus
        obtain ⟨before, hm⟩ := htaken hrow hstatus
        exact hother _ hm
      · exact hopened hr ha hrun
      · have hstatus := WaitsKept.unconsumed_of_moved hacts hm
        obtain ⟨before, hm'⟩ := htaken hrow (hleft ▸ hstatus)
        obtain rfl : m = (before, .consumed) := congrArg Prod.snd (Option.some.inj (hm.symm.trans hm'))
        exact hentered
  · intro w h i _ ih hends
    exact ih hends.before

end

/-! ## When no run is ended beside an open wait -/

section

variable {S : Setting lib}

/-- The client knows the run, and the run has this wait open. -/
def Beside (h : S.clients.History) (i : Nat) (waitId : DurableApprovalWaitId) : Prop :=
  ∃ k, (S.view i h).run = some k ∧ WaitOpen h k.record.key.runId waitId

/-- Nothing gives a client a reason to end a run that has an open wait. -/
structure Undisturbed (h : S.clients.History) : Prop where
  /-- No method is called that is there to end the run, and none with a budget that is spent. -/
  called : ∀ p i cmd held c waitId, h[p]? = some (i, .began cmd held) → held.offers = some c →
    Beside (h.take p) i waitId → cmd.endsRun c = false
  /-- No call is answered by a cancellation, after the deadline, or cut off. -/
  answered : ∀ p i r a waitId, h[p]? = some (i, .did r a) → Beside (h.take p) i waitId →
    stopsRun ((S.clients.held i (h.take p)).bind Holding.offers) r a = false
  /-- A wait is given up only where the run has no other. -/
  aborted : ∀ p i key loaded cmd waitId other, h[p]? = some (i, .did (.loadRun .recovery key) (.ok loaded)) →
    S.clients.running i (h.take p) = some cmd → cmd.operation.givesUp = some waitId →
    WaitOpen (h.take p) loaded.record.key.runId other → other = waitId

theorem Undisturbed.before {h past : S.clients.History} (hh : Undisturbed h) (hpast : past <+: h) :
    Undisturbed past := by
  have hat : ∀ {p x}, past[p]? = some x → h[p]? = some x ∧ past.take p = h.take p := by
    obtain ⟨rest, rfl⟩ := hpast
    intro p x hp
    have hlt := (List.getElem?_eq_some_iff.mp hp).1
    exact ⟨(List.getElem?_append_left hlt).trans hp,
      (List.take_append_of_le_length (Nat.le_of_lt hlt)).symm⟩
  refine ⟨fun p i cmd held c waitId hp hc hbeside => ?_, fun p i r a waitId hp hbeside => ?_,
    fun p i key loaded cmd waitId other hp hcmd hgives hopen => ?_⟩
  · exact hh.called p i cmd held c waitId (hat hp).1 hc ((hat hp).2 ▸ hbeside)
  · rw [(hat hp).2] at hbeside ⊢
    exact hh.answered p i r a waitId (hat hp).1 hbeside
  · rw [(hat hp).2] at hcmd hopen
    exact hh.aborted p i key loaded cmd waitId other (hat hp).1 hcmd hgives hopen

/-- What is open and was created before was open before. -/
theorem WaitOpen.earlier {h : S.clients.History} {run : RunId} {waitId : DurableApprovalWaitId} {q : Nat}
    (hopen : WaitOpen h run waitId) (hcreated : ∃ record, WaitCreated (h.take q) run record ∧
      record.binding.waitId = waitId) : WaitOpen (h.take q) run waitId := by
  refine ⟨hcreated, fun m hm => hopen.2 m ?_⟩
  rw [← List.take_append_drop q h, updates_append]
  exact List.mem_append_left _ hm

/-- A wait is created by nothing but its request. -/
theorem WaitCreated.before {h : S.clients.History} {i : Nat} {e : S.clients.Act} {run : RunId}
    {record : DurableApprovalRecord} (hcreated : WaitCreated (h ++ [(i, e)]) run record)
    (he : ∀ t degraded, e ≠ .did (.createDurableApprovalWait t record degraded) (.ok ())) :
    WaitCreated h run record := by
  obtain ⟨j, t, degraded, hmem, hrun⟩ := hcreated
  rcases List.mem_append.mp hmem with hold | hnew
  · exact ⟨j, t, degraded, hold, hrun⟩
  · exact absurd (congrArg Prod.snd (List.mem_singleton.mp hnew)).symm (he t degraded)

end

section

variable {s : (sqlite lib reliable serial).clients.State} {p q i : Nat} {r : Request} {a : Answer r}
  {run : RunId} {waitId : DurableApprovalWaitId}

/-- A wait that was created is named in the log of its run. -/
theorem suspended_of_created (hs : (sqlite lib reliable serial).clients.Reachable ⟨empty, []⟩ s)
    {record : DurableApprovalRecord} (hcreated : WaitCreated s.history run record) :
    ∃ e ∈ s.world.now.log run, e.kind.suspends = some record.binding.waitId := by
  obtain ⟨i, t, degraded, hmem, rfl⟩ := hcreated
  obtain ⟨p, hp⟩ := List.mem_iff_getElem?.mp hmem
  obtain ⟨-, -, -, ⟨active, hkind⟩, -⟩ := (Setting.acted hs hp).1.ordered
  refine ⟨t.event, ?_, by rw [hkind]; rfl⟩
  rw [(reachable_chronicled hs).log]
  exact List.mem_filterMap.mpr ⟨_, hmem, commits_of_accepted rfl rfl⟩

/-- The client knows the run, with an event that suspends it in this wait. -/
def KnowsWait (run : RunId) (waitId : DurableApprovalWaitId) (v : View lib) : Prop :=
  ∃ k, v.run = some k ∧ k.record.key.runId = run ∧ ∃ e ∈ k.log, e.kind.suspends = some waitId

/-- Who ends a run with an open wait knows of the wait. -/
theorem knowsWait_of_commits (htrust : reliable ∨ serial)
    (hs : (sqlite lib reliable serial).clients.Reachable ⟨empty, []⟩ s) {w' : Storage}
    (hacts : Machine.Acts (sqlite lib reliable serial).watch s.world s.history i r a w') {e : AgentEvent}
    (he : r.commits a run = some e) (hopen : WaitOpen s.history run waitId) :
    KnowsWait run waitId ((sqlite lib reliable serial).view i s.history) := by
  obtain ⟨⟨record, hcreated, rfl⟩, -⟩ := hopen
  obtain ⟨suspension, hmem, hsuspends⟩ := suspended_of_created hs hcreated
  obtain ⟨ha, t, ht, rfl, -⟩ := accepted_of_commits he
  cases Served.runsMoved hacts.answered with
  | created _ _ request =>
    subst request
    cases ht
  | still silent => exact absurd (ha.symm.trans (silent t ht)) (by simp)
  | appended t' row transition _ continues =>
    obtain rfl : t' = t := Option.some.inj (transition.symm.trans ht)
    obtain ⟨k, hk, -, hlog, k', -, -, hk', hkey, -⟩ :=
      (reachable_consistent htrust hs).extends htrust hacts ht continues
    obtain rfl : k = k' := Option.some.inj (hk.symm.trans hk')
    refine ⟨k, hk, by rw [← hkey], suspension, ?_, hsuspends⟩
    simpa only [Store.log, continues.stored, hlog] using hmem

/-- What a client knows of a wait it has known since it turned to the run. -/
theorem KnowsWait.earlier (hs : (sqlite lib reliable serial).clients.Reachable ⟨empty, []⟩ s)
    (hq : q ≤ s.history.length)
    (hstays : ∀ m e, q ≤ m → s.history[m]? = some (i, e) → turns e = false)
    (hknows : KnowsWait run waitId ((sqlite lib reliable serial).view i s.history)) :
    KnowsWait run waitId ((sqlite lib reliable serial).view i (s.history.take q)) := by
  rw [← List.take_length (l := s.history)] at hknows
  refine Machine.Watch.of_later (W := (sqlite lib reliable serial).watch) hq (Nat.le_refl _)
    (fun m e hqm hm hnow => ?_) hknows
  have hturns := hstays m e hqm hm
  cases e with
  | began | crashed => cases hturns
  | did r a =>
    obtain ⟨u, w', hu, hpast, hacts⟩ := hs.acts (sqlite lib reliable serial).watch_sound hm
    obtain ⟨hclosed, hunsuspended⟩ := Bool.or_eq_false_iff.mp hturns
    rw [Option.isSome_eq_false_iff, Option.isNone_iff_eq_none] at hclosed
    obtain ⟨k, hk, hrun, e, he, hsuspends⟩ := hnow
    change (((sqlite lib reliable serial).view i (s.history.take m)).observe r a).run = some k at hk
    by_cases hstored : ∃ t, r.transition = some t ∧ r.accepted a = true
    · -- the event that was stored does not suspend the run
      obtain ⟨t, ht, ha⟩ := hstored
      rw [(View.observe_stored ht ha).1] at hk
      obtain ⟨old, hold, rfl⟩ := Option.map_eq_some_iff.mp hk
      refine ⟨old, hold, hrun, e, ?_, hsuspends⟩
      rcases List.mem_append.mp he with hbefore | hnew
      · exact hbefore
      · rw [List.mem_singleton.mp hnew] at hsuspends
        obtain ⟨_, _, _, rfl, -⟩ := commits_suspension hacts (commits_of_accepted ht ha) hsuspends
        cases hunsuspended
    · have hsilent : ∀ t, r.transition = some t → r.accepted a = false :=
        fun t ht => Bool.eq_false_iff.mpr fun ha => hstored ⟨t, ht, ha⟩
      rw [(View.observe_quiet hclosed hsilent).1] at hk
      exact ⟨k, hk, hrun, e, he, hsuspends⟩

/-- A wait that a client knows of was created. -/
theorem KnowsWait.created (htrust : reliable ∨ serial)
    (hs : (sqlite lib reliable serial).clients.Reachable ⟨empty, []⟩ s)
    (hknows : KnowsWait run waitId ((sqlite lib reliable serial).view i s.history)) :
    ∃ record, WaitCreated s.history run record ∧ record.binding.waitId = waitId := by
  obtain ⟨k, hk, rfl, e, he, hsuspends⟩ := hknows
  obtain ⟨row, hrow, -, hheld⟩ := (reachable_consistent htrust hs).known i k hk
  have hmem : e ∈ s.world.now.log k.record.key.runId := by
    simpa only [Store.log, hrow] using hheld.subset he
  have hkept := reachable_waitsKept hs
  obtain ⟨approval, happroval, -⟩ := hkept.suspended _ e waitId hmem hsuspends
  obtain ⟨record, hcreated, -, hwait⟩ := hkept.opened _ waitId approval happroval
  exact ⟨record, hcreated, hwait⟩

/-- An answer that stops a run tells nothing of runs. -/
theorem stopsRun_plain {c : Option RunContext} (h : stopsRun c r a = true) :
    r.openedRun a = none ∧ r.transition = none := by
  cases r with
  | isCancelled | instantNow | audit | modelInvoke | knowledgeRetrieve | approvalDecide | toolInvoke
  | waitManaged | waitContained => exact ⟨rfl, rfl⟩
  | _ => cases h

/-- A row that is consumed with the end of its run is a row of this run. -/
theorem Served.consumes {w w' : Storage} {request : DurableApprovalStatusTransition}
    {a : Answer (.transitionDurableApprovalStatus request)}
    (h : Served reliable w (.transitionDurableApprovalStatus request) a w') {t : AppendTransition}
    (ht : request.transition = some t) (ha : Request.accepted _ a = true)
    (hconsumed : request.nextStatus = .consumed) : ∃ before,
      Request.moved _ a = some ((t.key.runId, request.waitId), (before, .consumed)) := by
  cases a with
  | error err => cases ha
  | ok u =>
    cases h with
    | wrote reads call ok committed =>
      cases call
      rw [((transitionDurableApprovalStatus_ok committed).1 t ht).1, ← hconsumed]
      exact ⟨request.expectedStatus, rfl⟩
    | failed _ _ error => cases error
    | other free => cases free

/-- Who ends a run with an open wait knew of the wait when the reason was given, and the wait was open
before. -/
theorem known_at_reason (htrust : reliable ∨ serial)
    (hs : (sqlite lib reliable serial).clients.Reachable ⟨empty, []⟩ s) {w' : Storage}
    (hacts : Machine.Acts (sqlite lib reliable serial).watch s.world s.history i r a w') {e : AgentEvent}
    (he : r.commits a run = some e) (hopen : WaitOpen s.history run waitId)
    {x : (sqlite lib reliable serial).clients.Act} (hq : s.history[q]? = some (i, x))
    (hafter : ∀ m e, q + 1 ≤ m → s.history[m]? = some (i, e) → turns e = false) :
    KnowsWait run waitId ((sqlite lib reliable serial).view i (s.history.take q ++ [(i, x)])) ∧
      ((∀ t record degraded, x ≠ .did (.createDurableApprovalWait t record degraded) (.ok ())) →
        WaitOpen (s.history.take q) run waitId) := by
  have hnow := knowsWait_of_commits htrust hs hacts he hopen
  obtain ⟨v, hv, hvpast⟩ := hs.take (q + 1)
  have htake : s.history.take (q + 1) = s.history.take q ++ [(i, x)] := by
    rw [List.take_add_one, hq, Option.toList_some]
  have hknows := hnow.earlier hs (q := q + 1) (List.getElem?_eq_some_iff.mp hq).1 hafter
  rw [htake] at hknows hvpast
  refine ⟨hknows, fun hx => hopen.earlier ?_⟩
  rw [← hvpast] at hknows
  obtain ⟨record, hrecord, hwait⟩ := hknows.created htrust hv
  rw [hvpast] at hrecord
  exact ⟨record, hrecord.before fun t degraded => hx t record degraded, hwait⟩

/-- **No run is ended beside an open wait**, if nothing gives a client a reason to. -/
theorem endsWaits_of_undisturbed (htrust : reliable ∨ serial)
    (hs : (sqlite lib reliable serial).clients.Reachable ⟨empty, []⟩ s)
    (hundisturbed : Undisturbed s.history) : EndsWaits s.history := by
  intro p i r a run e waitId hp he hfinish hopen
  have hpermits := (hs.permitted ((sqlite lib reliable serial).endings_sound fun _ h => h) hp).1
  obtain ⟨u, w', hu, hpast, hacts⟩ := hs.acts (sqlite lib reliable serial).watch_sound hp
  have hcalm := hundisturbed.before (hpast ▸ List.take_prefix p s.history)
  rw [← hpast] at hopen hpermits
  clear hundisturbed
  obtain ⟨ha, t, ht, rfl, rfl⟩ := accepted_of_commits he
  obtain ⟨q, x, hq, hreason, hgives, hafter⟩ := Setting.reason_given (hpermits.due t ht hfinish)
  obtain ⟨hknows, hbefore⟩ := known_at_reason htrust hu hacts he hopen hq fun m e hm => hafter m e hm
  obtain ⟨k, hk, hrun, suspension, hmem, -⟩ := hknows
  cases hreason with
  | @called cmd held c offers ends =>
    have hopen := hbefore fun _ _ _ h => by cases h
    rw [Setting.view_began] at hk
    rcases (View.began_cases ((sqlite lib reliable serial).view i (u.history.take q)) cmd).1 with
      ⟨hnone, -⟩ | ⟨hsame, -⟩
    · rw [hnone] at hk
      cases hk
    · rw [hsame] at hk
      have hends := hcalm.called q i cmd held c waitId hq offers ⟨k, hk, hrun ▸ hopen⟩
      rw [hends] at ends
      cases ends
  | created opened =>
    rw [Setting.view_did, (View.observe_opened opened).1] at hk
    obtain rfl := Option.some.inj hk
    cases hmem
  | @read key loaded other aborts =>
    have hopen := hbefore fun _ _ _ h => by cases h
    rw [Setting.view_did, (View.observe_opened (r := .loadRun .recovery key) (a := .ok loaded) rfl).1] at hk
    obtain rfl := Option.some.inj hk
    obtain ⟨cmd, hcmd, hother⟩ := Option.bind_eq_some_iff.mp aborts
    rw [Setting.endings_view.1] at hcmd
    obtain rfl : waitId = other := hcalm.aborted q i key loaded cmd other waitId hq hcmd hother (hrun ▸ hopen)
    obtain ⟨request, rfl, rfl, hconsumed⟩ := hpermits.consumes t waitId ht hfinish (hgives.symm.trans aborts)
    exact Served.consumes hacts.answered ht ha hconsumed
  | @stopped r' a' stops =>
    obtain ⟨hclosed, hsilent⟩ := stopsRun_plain stops
    have hopen := hbefore fun _ _ _ h => by cases h; cases stops
    rw [Setting.view_did, (View.observe_quiet hclosed fun t ht => by rw [hsilent] at ht; cases ht).1] at hk
    have hstops := hcalm.answered q i r' a' waitId hq ⟨k, hk, hrun ▸ hopen⟩
    rw [← Setting.endings_view.2, stops] at hstops
    cases hstops

end

/-- No item of the queue belongs to a finished run. -/
def QueueLive (codec : EventCodec) (s : Store) : Prop :=
  ∀ limit after page item row, s.listWaiting limit after = .ok page → item ∈ page.items →
    s.runs item.key.runId = some row → ¬ row.Finished codec

theorem listWaiting_open {s : Store} {limit : Nat} {after : Option (RunId × DurableApprovalWaitId)}
    {page : Paging.Page DurableWaitingSummary (RunId × DurableApprovalWaitId)} {item : DurableWaitingSummary}
    (h : s.listWaiting limit after = .ok page) (hitem : item ∈ page.items) :
    ∃ row, s.approvals item.key.runId item.waitId = some row ∧ row.status ≠ .consumed := by
  unfold listWaiting at h
  split at h
  · cases h
  · obtain ⟨x, hx, hread⟩ := Paging.mem_of_fetch h hitem
    obtain ⟨hrow, hstatus⟩ :=
      List.mem_filter.mp ((List.mem_insertionSort _).mp (List.mem_filter.mp hx).1)
    obtain ⟨key, -, hkey⟩ := List.mem_filterMap.mp hrow
    obtain ⟨row, hstored, rfl⟩ := Option.map_eq_some_iff.mp hkey
    dsimp only at hread
    split at hread
    · cases hread
    · cases hread
      exact ⟨row, hstored, by simpa using hstatus⟩

/-- **The queue holds only live waits**, as long as nothing gives a client a reason to end a run that has
an open wait. -/
theorem queue_live {s : (sqlite lib True False).clients.State}
    (hs : (sqlite lib True False).clients.Reachable ⟨empty, []⟩ s) (hundisturbed : Undisturbed s.history) :
    QueueLive lib.codec s.world.now := by
  intro limit after page item row hlist hitem hrow ⟨t, ht, hfinished⟩
  obtain ⟨approval, happroval, hstatus⟩ := listWaiting_open hlist hitem
  have hends := endsWaits_of_undisturbed (.inl trivial) hs hundisturbed
  refine hstatus (ended_waits_consumed (.inl trivial) hs hends _ _ approval happroval ?_)
  have hcount := replay_finish_count ht
  rw [if_pos hfinished] at hcount
  obtain ⟨e, he, hkind⟩ := List.countP_pos_iff.mp (hcount ▸ Nat.one_pos)
  exact ⟨e, by simpa only [Store.log, hrow] using he, hkind⟩

/-- An operator aborts the wait of the sample run. -/
def abortCommands : List (Nat × Command plainLibrary) :=
  suspendCommands ++ [(1, sampleCommand (.abortDurableWaiting ⟨⟨1⟩, ⟨2⟩⟩ ⟨4⟩ 0))]

/-- The wait is approved and carried out, and then the graph and with it the run are completed. -/
def finishCommands : List (Nat × Command plainLibrary) :=
  suspendCommands ++ approveCommands ++
  [(2, sampleCommand (.completeGraphNode ⟨3⟩ ⟨"write"⟩ .succeeded ⟨"end"⟩ .complete .never)),
   (2, sampleCommand (.enterGraphNode ⟨"end"⟩ .complete .never)),
   (2, sampleCommand (.completeGraph ⟨15⟩ ⟨"end"⟩))]

/-- The act creates or gives up no wait but that of the sample run. -/
def onSampleWait : (sqlite plainLibrary reliable serial).clients.Act → Bool
  | .began cmd _ => cmd.operation.givesUp.all fun waitId => waitId = ⟨4⟩
  | .did (.createDurableApprovalWait t record _) _ => t.key.runId = ⟨1⟩ && record.binding.waitId = ⟨4⟩
  | _ => true

/-- The act is no reason to end a run. -/
def calm (i : Nat) (h : (sqlite plainLibrary reliable serial).clients.History) :
    (sqlite plainLibrary reliable serial).clients.Act → Bool
  | .began cmd held => !held.offers.any cmd.endsRun
  | .did r a =>
    !stopsRun (((sqlite plainLibrary reliable serial).clients.held i h).bind Holding.offers) r a
  | .crashed => true

/-- As long as the wait of the sample run is not consumed, all acts are calm. -/
def calmThrough (h : (sqlite plainLibrary reliable serial).clients.History) : Bool :=
  h.all (fun e => onSampleWait e.2) && (List.range h.length).all fun p =>
    (updates ⟨1⟩ ⟨4⟩ (h.take p)).any (fun m => m.2 = .consumed) ||
      (h[p]?).all fun e => calm e.1 (h.take p) e.2

theorem undisturbed_of_calm {h : (sqlite plainLibrary reliable serial).clients.History}
    (hcalm : calmThrough h = true) : Undisturbed h := by
  obtain ⟨hsample, hacts⟩ := Bool.and_eq_true_iff.mp hcalm
  have honly : ∀ {p run waitId}, WaitOpen (h.take p) run waitId → run = ⟨1⟩ ∧ waitId = ⟨4⟩ := by
    rintro p run waitId ⟨⟨record, ⟨j, t, degraded, hmem, rfl⟩, rfl⟩, -⟩
    have hcreate := List.all_eq_true.mp hsample _ (List.mem_of_mem_take hmem)
    simpa [onSampleWait] using hcreate
  have hquiet : ∀ {p i e run waitId}, h[p]? = some (i, e) → WaitOpen (h.take p) run waitId →
      calm i (h.take p) e = true := by
    intro p i e run waitId hp hopen
    have hat := List.all_eq_true.mp hacts p (List.mem_range.mpr (List.getElem?_eq_some_iff.mp hp).1)
    rw [hp, Bool.or_eq_true] at hat
    rcases hat with hover | hcalm
    · obtain ⟨m, hm, hconsumed⟩ := List.any_eq_true.mp hover
      obtain ⟨rfl, rfl⟩ := honly hopen
      exact absurd (of_decide_eq_true hconsumed) (hopen.2 m hm)
    · exact hcalm
  refine ⟨fun p i cmd held c waitId hp hc hbeside => ?_, fun p i r a waitId hp hbeside => ?_,
    fun p i key loaded cmd waitId other hp hcmd hgives hopen => ?_⟩
  · obtain ⟨k, -, hopen⟩ := hbeside
    have hcalled := hquiet hp hopen
    simpa [calm, hc] using hcalled
  · obtain ⟨k, -, hopen⟩ := hbeside
    have hanswered := hquiet hp hopen
    simpa [calm] using hanswered
  · obtain ⟨held, hbegan⟩ := Machine.began_of_running hcmd
    have hgiven := List.all_eq_true.mp hsample _ (List.mem_of_mem_take hbegan)
    simp only [onSampleWait, hgives, Option.all_some, decide_eq_true_eq] at hgiven
    rw [(honly hopen).2, hgiven]

/-- A run that was aborted and one that was approved, carried out and completed. -/
theorem queue_live_after_end :
    (QueueLive plainCodec (sqliteRun favourable abortCommands).world.now ∧
      ∃ row, (sqliteRun favourable abortCommands).world.now.runs ⟨1⟩ = some row ∧ row.terminal = true) ∧
    QueueLive plainCodec (sqliteRun favourable finishCommands).world.now ∧
      ∃ e ∈ (sqliteRun favourable finishCommands).world.now.log ⟨1⟩, e.kind.isFinish = true := by
  have habort := sqliteRun_reachable favourable abortCommands (by decide +kernel)
  have hfinish := sqliteRun_reachable favourable finishCommands (by decide +kernel)
  have hterminal : ((sqliteRun favourable abortCommands).world.now.runs ⟨1⟩).any (·.terminal) = true := by
    decide +kernel
  have hfinished : ((sqliteRun favourable finishCommands).world.now.log ⟨1⟩).any
      (fun e => e.kind.isFinish) = true := by decide +kernel
  refine ⟨⟨queue_live habort (undisturbed_of_calm (by decide +kernel)), (Option.any_eq_true ..).mp hterminal⟩,
    queue_live hfinish (undisturbed_of_calm (by decide +kernel)), ?_⟩
  obtain ⟨e, he, hkind⟩ := List.any_eq_true.mp hfinished
  exact ⟨e, he, hkind⟩

/-- The run is cancelled while its suspension is recorded in the audit. -/
def cancelledSuspension (n : Nat) : (r : Request) → Answer r
  | .audit _ event => if event.kind.suspends.isSome then .cancelled else .ready (.ok ())
  | r => favourable n r

/-- The run is finished, and its wait is still in the queue. -/
theorem finished_run_in_queue :
    (sqlite plainLibrary True False).clients.Reachable ⟨empty, []⟩
        (sqliteRun cancelledSuspension suspendCommands) ∧
      ¬ QueueLive plainCodec (sqliteRun cancelledSuspension suspendCommands).world.now := by
  refine ⟨sqliteRun_reachable _ _ (by decide +kernel), fun hlive => ?_⟩
  have hlisted : isOkAnd ((sqliteRun cancelledSuspension suspendCommands).world.now.listWaiting 10 none)
      (fun page => page.items.any fun item => decide (item.key.runId = ⟨1⟩)) = true := by decide +kernel
  have hall : ((sqliteRun cancelledSuspension suspendCommands).world.now.runs ⟨1⟩).any (fun row =>
      isOkAnd ((DurableRunState.initial row.record).replay plainCodec row.events)
        (·.context.status.isFinished)) = true := by decide +kernel
  obtain ⟨row, hrow, hfinished⟩ := (Option.any_eq_true ..).mp hall
  obtain ⟨page, hpage, hany⟩ := isOkAnd_iff.mp hlisted
  obtain ⟨item, hitem, hrun⟩ := List.any_eq_true.mp hany
  refine hlive 10 none page item row hpage hitem ?_ (isOkAnd_iff.mp hfinished)
  rw [of_decide_eq_true hrun]
  exact hrow

end LocalAgent
