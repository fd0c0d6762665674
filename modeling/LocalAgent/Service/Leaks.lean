import LocalAgent.Service.Active

/-!
# Slots that are left behind

A slot is given back by hand, on every way out of `start_run` and at the end of a task. `no_slot_leaked`
is that a slot is always held by a call or a task that is still there, in every run that keeps away
from the ways out which forget it: the two `?` after `find_run` and `policy_version`, the `?` on the
audit of a start that was committed, a future that is dropped between the insertion of the slot and
the spawn of the task, and a task that panics. On the first of these the slot stays for good
(`slot_left_behind`).
-/
namespace LocalAgent

open Program

variable {svc : AgentService}

/-- A task of this run is at work. -/
def TaskRuns (s : svc.runtime.State) (key : RunKey) : Prop :=
  ∃ pid parent task r k, s.procs pid = some ⟨.job parent task, .call r k⟩ ∧ task.key = key

/-- The process has a slot to give back: it is a call whose slot is in the map and no task of it runs
yet, or a task whose slot is in the map. -/
def HoldsSlot (s : svc.runtime.State) (pid : Nat) : Prop :=
  ∃ proc, s.procs pid = some proc ∧ ∃ run ∈ s.world.active, run.owner = proc.kind.owner pid ∧
    (proc.kind.isCall = true → ¬ TaskRuns s run.key)

/-- The step is not one of those that forget a slot. -/
def Meets (s : svc.runtime.State) : svc.runtime.Event → Prop
  | .did pid (.findRun _) (.ok (some summary)) => HoldsSlot s pid → summary.authorization ≠ none
  | .did pid .policy answer => HoldsSlot s pid → answer.1 ≠ 0
  | .did pid (.audit event) recorded => HoldsSlot s pid → event.phase = .mutationCommitted → recorded = true
  | .dropped pid => ¬ HoldsSlot s pid
  | _ => True

/-- Every slot has a holder, and nobody who is about to end without giving one back. -/
structure Guarded (s : svc.runtime.State) (views : Nat → SlotView) : Prop extends Slotted s views where
  owned : Owned s views
  held : ∀ id ∈ ids s.world.active, ∃ pid, Holder s views pid id.1 id.2
  clean : ∀ pid proc, s.procs pid = some proc → (views pid).tainted = false

theorem slotOf_of_mem {active : List ActiveRun} {key : RunKey} {owner : Nat} (h : (key, owner) ∈ ids active) :
    (slotOf active key.sessionId).isSome = true := by
  obtain ⟨run, hrun, hid⟩ := List.mem_map.mp h
  refine List.find?_isSome.mpr ⟨run, hrun, decide_eq_true ?_⟩
  rw [ActiveRun.session, (Prod.mk.inj hid).1]

section Moves

variable {s t : svc.runtime.State} {views views' : Nat → (slots svc).View} {e : svc.runtime.Event}

/-- Whoever holds a slot by its view has it to give back. -/
theorem Guarded.holdsSlot (h : Guarded s views) (hfollows : (slots svc).Follows s views) {pid : Nat}
    {key : RunKey} {owner : Nat} (hholder : Holder s views pid key owner) : HoldsSlot s pid := by
  obtain ⟨run, hrun, hid⟩ := List.mem_map.mp (h.holds pid key owner hholder)
  obtain ⟨hkey, howner⟩ := Prod.mk.inj hid
  obtain ⟨proc, hproc, hslot, rfl⟩ := hholder
  refine ⟨proc, hproc, run, hrun, howner, fun hcall => ?_⟩
  rintro ⟨job, parent, task, r, k, hjob, htask⟩
  -- the task would hold the same slot
  obtain ⟨hjobview, -, hown⟩ := h.owned job _ hjob
  have hlive := (hfollows.prog job _ hjob).1.1 hjobview
  obtain ⟨key', hslot'⟩ := Option.isSome_iff_exists.mp hlive
  have hsession : key.sessionId = key'.sessionId := by rw [hown key' hslot', htask, hkey]
  have heq := h.single pid job key key' _ _ ⟨proc, hproc, hslot, rfl⟩ ⟨_, hjob, hslot', rfl⟩ hsession
  subst heq
  rw [hproc] at hjob
  cases hjob
  cases hcall

/-- An answer that meets the condition taints nobody. -/
theorem Guarded.observe_clean (h : Guarded s views) (hfollows : (slots svc).Follows s views) {pid : Nat}
    {proc : svc.runtime.Proc} (hproc : s.procs pid = some proc) {r : ServiceRequest} {a : ServiceAnswer r}
    {w : ServiceWorld} {owner : Nat} (hpermits : (views pid).permits svc r)
    (hexec : s.world.exec owner s.Idle r a w) (hmeets : Meets s (.did pid r a)) :
    ((views pid).observe r a).tainted = false := by
  have hclean := h.clean pid proc hproc
  have htaint : ∀ bad : Bool, (HoldsSlot s pid → bad = false) → ((views pid).taint bad).tainted = false := by
    intro bad hbad
    cases hslot : (views pid).slot with
    | none => rw [SlotView.taint_of_none hslot, hclean]
    | some key =>
      rw [hbad (h.holdsSlot hfollows ⟨proc, hproc, hslot, rfl⟩), SlotView.taint_false, hclean]
  cases r with
  | harness r =>
    cases r with
    | createRun record checkpoint => cases a <;> exact hclean
    | _ => exact hclean
  | reserve entry key workflow => cases a <;> exact hclean
  | findRun key =>
    match a with
    | .error e => exact hclean
    | .ok none => exact hclean
    | .ok (some summary) =>
      refine htaint _ fun hholds => ?_
      exact Option.isNone_eq_false_iff.mpr (Option.isSome_iff_ne_none.mpr (hmeets hholds))
  | policy => exact htaint _ fun hholds => decide_eq_false (hmeets hholds)
  | audit event =>
    refine htaint _ fun hholds => ?_
    by_cases hphase : event.phase = .mutationCommitted
    · rw [hmeets hholds hphase]
      rfl
    · simp [hphase]
  | attach session =>
    -- the slot is there
    refine htaint _ fun _ => ?_
    obtain ⟨-, key, hslot, rfl⟩ := hpermits
    rw [hexec.1, slotOf_of_mem (h.holds pid key _ ⟨proc, hproc, hslot, rfl⟩)]
    rfl
  | _ => exact hclean

/-- Whoever else held a slot holds it still. -/
theorem Holder.acted {pid other : Nat} {kind : svc.runtime.Kind} {q : Prog ServiceAnswer ServiceOutcome}
    {w : ServiceWorld} {v : SlotView} {history : List svc.runtime.Event} {key : RunKey} {owner : Nat}
    (h : Holder s views other key owner) (hne : other ≠ pid) :
    Holder (acted s pid kind q w history) (Function.update views pid v) other key owner := by
  obtain ⟨proc, hproc, hslot, howner⟩ := h
  exact ⟨proc, by simpa [Function.update_of_ne hne] using hproc,
    by simpa [Function.update_of_ne hne] using hslot, howner⟩

/-- After a request every slot has a holder. -/
theorem Guarded.held_acted (h : Guarded s views) {pid : Nat} {kind : svc.runtime.Kind}
    {p q : Prog ServiceAnswer ServiceOutcome} {w : ServiceWorld} {v : SlotView}
    {history : List svc.runtime.Event} (hproc : s.procs pid = some ⟨kind, p⟩)
    {r : ServiceRequest} (hmove : SlotMove s.world (views pid) (kind.owner pid) r w v) :
    ∀ id ∈ ids w.active, ∃ holder, Holder (acted s pid kind q w history) (Function.update views pid v)
      holder id.1 id.2 := by
  have hself : ∀ {key}, v.slot = some key → Holder (LocalAgent.acted s pid kind q w history)
      (Function.update views pid v) pid key (kind.owner pid) := fun hslot =>
    ⟨⟨kind, q⟩, by simp, by simpa using hslot, rfl⟩
  intro id hid
  cases hmove with
  | kept hactive hslot =>
    rw [hactive] at hid
    obtain ⟨holder, hholder⟩ := h.held id hid
    by_cases hpid : holder = pid
    · subst hpid
      obtain ⟨proc, hproc', hslot', howner⟩ := hholder
      rw [hproc, Option.some.injEq] at hproc'
      subst hproc'
      rw [← howner]
      exact ⟨holder, hself (hslot.trans hslot')⟩
    · exact ⟨holder, hholder.acted hpid⟩
  | took key run hserving hvacant hroom hactive hrun hfree hslot =>
    rw [hactive, ids, List.map_cons] at hid
    rcases List.mem_cons.mp hid with rfl | hid
    · rw [hrun.1, hrun.2]
      exact ⟨pid, hself hslot⟩
    · obtain ⟨holder, hholder⟩ := h.held id hid
      refine ⟨holder, hholder.acted ?_⟩
      rintro rfl
      obtain ⟨proc, hproc', hslot', -⟩ := hholder
      rw [hfree] at hslot'
      cases hslot'
  | gave key hrequest hheld hactive hslot =>
    rw [hactive, ids_removeSlot, List.mem_filter] at hid
    obtain ⟨holder, hholder⟩ := h.held id hid.1
    refine ⟨holder, hholder.acted ?_⟩
    rintro rfl
    obtain ⟨proc, hproc', hslot', -⟩ := hholder
    rw [hheld] at hslot'
    have hne : id.1.sessionId ≠ key.sessionId := of_decide_eq_true hid.2
    exact hne (by rw [← Option.some.inj hslot'])

/-- After a process that holds no slot is gone. -/
theorem Guarded.held_erased (h : Guarded s views) {pid : Nat} {history : List svc.runtime.Event}
    (hfree : ∀ key owner, ¬ Holder s views pid key owner) :
    ∀ id ∈ ids s.world.active, ∃ holder, Holder { s with
      procs := Function.update s.procs pid none
      history := history } views holder id.1 id.2 := by
  intro id hid
  obtain ⟨holder, hholder⟩ := h.held id hid
  have hne : holder ≠ pid := by
    rintro rfl
    exact hfree _ _ hholder
  obtain ⟨proc, hproc, hslot, howner⟩ := hholder
  exact ⟨holder, proc, by simpa [Function.update_of_ne hne] using hproc, hslot, howner⟩

/-- After a call has come in. -/
theorem Guarded.held_called (h : Guarded s views) (hfollows : (slots svc).Follows s views)
    {proc : svc.runtime.Proc} {v : SlotView} {history : List svc.runtime.Event} :
    ∀ id ∈ ids s.world.active, ∃ holder, Holder { s with
      procs := Function.update s.procs s.next (some proc)
      next := s.next + 1
      history := history } (Function.update views s.next v) holder id.1 id.2 := by
  intro id hid
  obtain ⟨holder, proc', hproc, hslot, howner⟩ := h.held id hid
  have hne : holder ≠ s.next := (hfollows.lt_next hproc).ne
  exact ⟨holder, proc', by simpa [Function.update_of_ne hne] using hproc,
    by simpa [Function.update_of_ne hne] using hslot, howner⟩

/-- After a task was spawned with the slot of its call. -/
theorem Guarded.held_spawned (h : Guarded s views) (hfollows : (slots svc).Follows s views) {pid : Nat}
    {kind : svc.runtime.Kind} {p q : Prog ServiceAnswer ServiceOutcome} {task : WorkflowTask}
    {v : SlotView} {w : ServiceWorld} {history : List svc.runtime.Event}
    (hproc : s.procs pid = some ⟨kind, p⟩) (htask : (views pid).slot = some task.key)
    (hactive : w.active = s.world.active) :
    ∀ id ∈ ids w.active, ∃ holder, Holder { s with
      world := w
      procs := Function.update (Function.update s.procs pid (some ⟨kind, q⟩)) s.next
        (some ⟨.job (kind.owner pid) task, svc.runtime.body task⟩)
      next := s.next + 1
      history := history }
      (Function.update (Function.update views pid v) s.next { slot := some task.key, job := true })
      holder id.1 id.2 := by
  intro id hid
  rw [hactive] at hid
  obtain ⟨holder, proc, hproc', hslot, howner⟩ := h.held id hid
  have hne : holder ≠ s.next := (hfollows.lt_next hproc').ne
  by_cases hpid : holder = pid
  · subst hpid
    rw [hproc, Option.some.injEq] at hproc'
    subst hproc'
    rw [htask, Option.some.injEq] at hslot
    exact ⟨s.next, _, Function.update_self .., by simp [hslot], howner⟩
  · exact ⟨holder, proc, by simpa [Function.update_of_ne hne, Function.update_of_ne hpid] using hproc',
      by simpa [Function.update_of_ne hne, Function.update_of_ne hpid] using hslot, howner⟩

theorem Guarded.moves (h : Guarded s views) (hfollows : (slots svc).Follows s views)
    (hmove : (slots svc).Moves s views e t views') (hmeets : Meets s e) : Guarded t views' := by
  refine ⟨h.toSlotted.moves hfollows hmove, h.owned.moves hmove, ?_, ?_⟩
  · cases hmove with
    | call c => exact h.held_called hfollows
    | @act pid kind r k a w hproc hjob hexec hpermits =>
      refine h.held_acted hproc (slotMove hexec hpermits fun task htask => ?_)
      subst htask
      cases hjob
    | @spawn pid kind r k a w task hproc hjob hexec hpermits =>
      cases r with
      | spawn task' =>
        cases hjob
        exact h.held_spawned hfollows hproc hpermits.2.1 (by rw [hexec])
      | _ => cases hjob
    | @«return» pid kind o hproc hreturns =>
      refine h.held_erased fun key owner hholder => ?_
      obtain ⟨proc, hproc', hslot, -⟩ := hholder
      rcases hreturns.1 with hnone | htainted
      · rw [hnone] at hslot
        cases hslot
      · rw [h.clean pid _ hproc] at htainted
        cases htainted
    | drop hproc hpermits =>
      exact h.held_erased fun key owner hholder => hmeets (h.holdsSlot hfollows hholder)
    | interfere hworld =>
      obtain ⟨c, st, -, rfl⟩ := hworld
      exact h.held
    | restart => exact nofun
  · refine hmove.each (D := slots svc) (P := fun _ _ v => v.tainted = false) h.clean (fun _ => rfl)
      (fun he hproc hpermits hexec => ?_) (fun hv _ => hv) (fun _ _ _ => rfl) fun hv _ => hv
    exact h.observe_clean hfollows hproc hpermits hexec (he ▸ hmeets)

end Moves

theorem Guarded.start (storage : Storage) (views : Nat → SlotView) :
    Guarded (svc.runtime.start (ServiceWorld.new storage)) views := by
  refine ⟨Slotted.start storage views, fun pid proc hproc => ?_, fun id hid => ?_, fun pid proc hproc => ?_⟩
  · cases hproc
  · cases hid
  · cases hproc

/-! ## Two runs -/

/-- The call of the samples, and its run. -/
def sampleStart : ServiceCall := .startRun ⟨"p"⟩ ⟨2⟩ 7 ⟨"w"⟩ []

def sampleKey : RunKey := ⟨sampleService.deriveRunId ⟨2⟩ 7, ⟨2⟩⟩

/-- The slot is in the map and the call goes on with the title. -/
structure TookSlot (s : sampleService.runtime.State) : Prop where
  active : s.world.active = [⟨sampleKey, .starting, false, ⟨"w"⟩, 0⟩]
  call : s.procs 0 = some ⟨.call sampleStart,
    finishing (startReserved sampleService ⟨"p"⟩ sampleKey sampleWorkflow []) .view⟩
  alone : ∀ pid, pid ≠ 0 → s.procs pid = none
  calls : ∀ pid c, .called pid c ∈ s.history → c = sampleStart

theorem exec_reserved {w : ServiceWorld} {owner : Nat} {entry : Entry} {key : RunKey}
    {workflow : WorkflowId} (idle : Prop) (hserving : w.draining = false) (hactive : w.active = []) :
    w.exec owner idle (.reserve entry key workflow) .reserved
      { w with active := [entry.slot key workflow owner] } := by
  cases entry <;> simp [ServiceWorld.exec, reserveSlot, slotOf, maxActiveRuns, hserving, hactive]

theorem tookSlot_reachable (storage : Storage) :
    ∃ s, sampleService.runtime.Reachable Meets (ServiceWorld.new storage) s ∧ TookSlot s := by
  have hcalled := Runtime.Reachable.called (S := sampleService.runtime)
    (.start : Runtime.Reachable _ Meets (ServiceWorld.new storage) _) sampleStart trivial
  have hserving := hcalled.did 0 false rfl rfl ⟨rfl, rfl⟩ trivial
  have hloaded := hserving.did 0 (Except.ok (some ⟨⟨2⟩, ⟨"p"⟩, none, false⟩) :
    Except IdentityStoreError (Option SessionOwnershipRecord)) rfl rfl rfl trivial
  have hallowed := hloaded.did 0 true rfl rfl rfl trivial
  have hgranted := hallowed.did 0 true rfl rfl rfl fun _ _ => rfl
  have hrequested := hgranted.did 0 true rfl rfl rfl fun _ _ => rfl
  have hreserved := hrequested.did 0 Reservation.reserved rfl rfl (exec_reserved True rfl rfl) trivial
  refine ⟨_, hreserved, rfl, rfl, fun pid hpid => ?_, fun pid c hc => ?_⟩
  · have hnext : pid ≠ (sampleService.runtime.start (.new storage)).next := hpid
    simp only [Function.update_of_ne hpid, Function.update_of_ne hnext]
    rfl
  · simp [Runtime.start] at hc
    exact hc.2

/-- **No slot is left behind** in a run whose steps all keep away from the ways out that forget it: the
call that inserted a slot, or the task it has spawned, is still there. -/
theorem no_slot_leaked (storage : Storage) (s : svc.runtime.State)
    (hs : svc.runtime.Reachable Meets (ServiceWorld.new storage) s) :
    ∀ run ∈ s.world.active, ∃ pid proc, s.procs pid = some proc ∧ proc.kind.owner pid = run.owner := by
  obtain ⟨views, -, hinv⟩ := hs.keeps (slots_sound svc) (Guarded.start storage)
    fun _ _ _ _ _ _ h hfollows hmove hmeets => h.moves hfollows hmove hmeets
  intro run hrun
  obtain ⟨pid, proc, hproc, -, howner⟩ := hinv.held (run.key, run.owner) (List.mem_map.mpr ⟨run, hrun, rfl⟩)
  exact ⟨pid, proc, hproc, howner⟩

/-- While the call sets the title, it is there to give the slot back. -/
theorem no_slot_leaked_sample : ∃ s : sampleService.runtime.State, s.world.active ≠ [] ∧
    ∀ run ∈ s.world.active, ∃ pid proc, s.procs pid = some proc ∧ proc.kind.owner pid = run.owner := by
  obtain ⟨s, hs, htook⟩ := tookSlot_reachable ⟨Store.empty, []⟩
  exact ⟨s, by simp [htook.active], no_slot_leaked _ s hs⟩

/-- A run of the sample that an earlier version has left in the store, without authorization. -/
def legacyStore : Store :=
  { Store.empty with
    runs := fun run => if run = sampleKey.runId then some { startedRow 0 with
      record := .new sampleKey sampleBudget .nonRestartable
      checkpoint := .new (.initial (.new sampleKey sampleBudget .nonRestartable))
      events := [.new sampleKey.runId 0 (.runStarted 1000)] } else none
    rowids := [sampleKey.runId] }

def legacySummary : DurableRunSummary := ⟨sampleKey, .nonRestartable, some 0, some 1000, false, none⟩

/-- **Two calls that leave a slot behind**: `start_run` returns `LegacyUnowned` for a run that the
store has without an authorization; and a client goes away while `start_run` waits for the title. No
process is left in either case. -/
theorem slot_left_behind :
    (legacyStore.findRun sampleKey = .ok (some legacySummary) ∧
      ∃ s : sampleService.runtime.State, sampleService.runtime.Reachable (fun _ _ => True)
          (ServiceWorld.new ⟨legacyStore, []⟩) s ∧
        .did 0 (.findRun sampleKey) (.ok (some legacySummary)) ∈ s.history ∧
        .returned 0 (.view (.error .legacyUnowned)) ∈ s.history ∧
        (∀ pid, s.procs pid = none) ∧ s.world.active ≠ []) ∧
    ∃ s : sampleService.runtime.State, sampleService.runtime.Reachable (fun _ _ => True)
        (ServiceWorld.new ⟨Store.empty, []⟩) s ∧
      .dropped 0 ∈ s.history ∧ (∀ pid, s.procs pid = none) ∧ s.world.active ≠ [] := by
  constructor
  · refine ⟨?_, ?_⟩
    · simp [Store.findRun, Store.runStartedAt, Store.summary, legacyStore, legacySummary, startedRow,
        sampleKey, RunRecord.new, AgentEvent.new]
    · obtain ⟨s, hs, htook⟩ := tookSlot_reachable ⟨legacyStore, []⟩
      have htitled := (hs.mono fun _ _ _ => trivial).did 0 (Except.ok () : Except IdentityStoreError Unit)
        htook.call rfl rfl trivial
      have hfound := htitled.did 0 (Except.ok (some legacySummary) :
        Except PersistencePortError (Option DurableRunSummary)) rfl rfl rfl trivial
      have hdone := hfound.returned 0 rfl trivial
      refine ⟨_, hdone, by simp, by simp, fun pid => ?_, by simp [htook.active]⟩
      by_cases hpid : pid = 0
      · simp [hpid]
      · simp [hpid, htook.alone pid hpid]
  · obtain ⟨s, hs, htook⟩ := tookSlot_reachable ⟨Store.empty, []⟩
    have hdropped := (hs.mono fun _ _ _ => trivial).step (.drop htook.call fun _ => rfl) trivial
    refine ⟨_, hdropped, by simp, fun pid => ?_, by simp [htook.active]⟩
    by_cases hpid : pid = 0
    · simp [hpid]
    · simp [hpid, htook.alone pid hpid]

end LocalAgent
