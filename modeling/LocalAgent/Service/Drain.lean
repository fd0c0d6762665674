import LocalAgent.Service.Active

/-!
# Draining (`agent-service/src/lib.rs:662-688`)

`drain` sets the flag, closes the tracker, waits for the tasks and counts the slots. A section that
inserts a slot reads the flag under the lock, so that no slot is inserted after the flag is set, and a
call spawns a task only for the slot it holds. Once `drain` has counted no slot, there is none until
the process ends (`drain_final`).
-/
namespace LocalAgent

open Program

variable {svc : AgentService}

/-- The event inserts a slot or spawns a task. -/
def Admits (e : svc.runtime.Event) : Prop :=
  (∃ pid entry key workflow, e = .did pid (.reserve entry key workflow) .reserved) ∨
    ∃ pid task, e = .did pid (.spawn task) ()

/-- The service drains, and no run is active. -/
structure Vacated (w : ServiceWorld) : Prop where
  draining : w.draining = true
  active : w.active = []

section Exec

variable {w w' : ServiceWorld} {owner : Nat} {idle : Prop} {r : ServiceRequest} {a : ServiceAnswer r}

/-- The flag is never reset. -/
theorem exec_draining (hexec : w.exec owner idle r a w') (h : w.draining = true) : w'.draining = true := by
  cases r with
  | harness r =>
    obtain ⟨st, -, rfl⟩ := hexec
    exact h
  | reserve entry key workflow =>
    simp only [ServiceWorld.exec, Prod.mk.injEq] at hexec
    rw [hexec.2]
    exact h
  | beginDrain =>
    rw [hexec]
  | release session | closeTasks =>
    rw [hexec]
    exact h
  | attach session | lifecycle | lookup session | handles | awaitTasks | remaining =>
    rw [hexec.2]
    exact h
  | _ =>
    rw [hexec]
    exact h

/-- While the service drains, no slot is inserted. -/
theorem exec_refused {entry : Entry} {key : RunKey} {workflow : WorkflowId} {a : Reservation}
    (hexec : w.exec owner idle (.reserve entry key workflow) a w') (h : w.draining = true) :
    a = .refused .draining ∧ w'.active = w.active := by
  simp only [ServiceWorld.exec, reserveSlot, h, if_true, Prod.mk.injEq] at hexec
  exact ⟨hexec.1, by rw [hexec.2]⟩

theorem Vacated.exec (h : Vacated w) (hexec : w.exec owner idle r a w') : Vacated w' := by
  refine ⟨exec_draining hexec h.draining, ?_⟩
  cases r with
  | harness r =>
    obtain ⟨st, -, rfl⟩ := hexec
    exact h.active
  | reserve entry key workflow => rw [(exec_refused hexec h.draining).2, h.active]
  | release session =>
    rw [hexec]
    simp [removeSlot, h.active]
  | attach session =>
    rw [hexec.2]
    simp [attachSlot, h.active]
  | beginDrain | closeTasks =>
    rw [hexec]
    exact h.active
  | lifecycle | lookup session | handles | awaitTasks | remaining =>
    rw [hexec.2]
    exact h.active
  | _ =>
    rw [hexec]
    exact h.active

/-! ## What a process knows -/

/-- The view of a process is right about the flag and the slots. -/
structure Told (w : ServiceWorld) (v : SlotView) : Prop where
  draining : v.draining = true → w.draining = true
  drained : v.drained = true → Vacated w

theorem Told.exec {v : SlotView} (h : Told w v) (hexec : w.exec owner idle r a w') : Told w' v :=
  ⟨fun hv => exec_draining hexec (h.draining hv), fun hv => (h.drained hv).exec hexec⟩

theorem Told.observe {v : SlotView} (h : Told w v) (hpermits : v.permits svc r)
    (hexec : w.exec owner idle r a w') : Told w' (v.observe r a) := by
  obtain ⟨-, -, hdraining, hdrained⟩ := v.observe_fixed r a
  by_cases hbegin : r = .beginDrain
  · subst hbegin
    refine ⟨fun _ => by rw [hexec], fun hv => ?_⟩
    exact (h.drained hv).exec hexec
  · by_cases hremaining : r = .remaining
    · subst hremaining
      obtain ⟨hcount, rfl⟩ := hexec
      refine ⟨fun hv => h.draining hv, fun hv => ⟨h.draining hpermits.2, ?_⟩⟩
      have hzero : a = 0 := of_decide_eq_true hv
      exact List.length_eq_zero_iff.mp (hcount ▸ hzero)
    · refine ⟨fun hv => ?_, fun hv => ?_⟩
      · rw [hdraining hbegin] at hv
        exact exec_draining hexec (h.draining hv)
      · rw [hdrained hremaining] at hv
        exact (h.drained hv).exec hexec

end Exec

/-! ## Runs -/

/-- What holds in every state: the views are right, and after a `drain` that succeeded the service
stays as it was. -/
structure Draining (s : svc.runtime.State) (views : Nat → SlotView) : Prop extends Slotted s views where
  owned : Owned s views
  told : ∀ pid proc, s.procs pid = some proc → Told s.world (views pid)
  final : ∀ before pid report after,
    s.history = before ++ .returned pid (.drained (.ok report)) :: after → .restarted ∉ after →
      Vacated s.world ∧ ∀ e ∈ after, ¬ Admits e

section Moves

variable {s t : svc.runtime.State} {views views' : Nat → (slots svc).View} {e : svc.runtime.Event}

/-- An empty service stays empty: whoever would spawn a task holds a slot. -/
theorem Vacated.moves (h : Vacated s.world) (hslotted : Slotted s views)
    (hmove : (slots svc).Moves s views e t views') (he : e ≠ .restarted) :
    Vacated t.world ∧ ¬ Admits e := by
  cases hmove with
  | call c => exact ⟨h, by rintro (⟨pid, entry, key, workflow, heq⟩ | ⟨pid, task, heq⟩) <;> cases heq⟩
  | @act pid kind r k a w hproc hjob hexec hpermits =>
    refine ⟨h.exec hexec, ?_⟩
    rintro (⟨pid', entry, key, workflow, heq⟩ | ⟨pid', task, heq⟩)
    · cases heq
      have hexec : s.world.exec _ s.Idle (.reserve entry key workflow) .reserved w := hexec
      cases (exec_refused hexec h.draining).1
    · cases heq
      cases hjob
  | @spawn pid kind r k a w task hproc hjob hexec hpermits =>
    exfalso
    cases r with
    | spawn task' =>
      have hmem := hslotted.holds pid task'.key _ ⟨_, hproc, hpermits.2.1, rfl⟩
      rw [h.active] at hmem
      cases hmem
    | _ => cases hjob
  | «return» hproc hreturns =>
    exact ⟨h, by rintro (⟨pid, entry, key, workflow, heq⟩ | ⟨pid, task, heq⟩) <;> cases heq⟩
  | drop hproc hpermits =>
    exact ⟨h, by rintro (⟨pid, entry, key, workflow, heq⟩ | ⟨pid, task, heq⟩) <;> cases heq⟩
  | interfere hworld =>
    obtain ⟨c, st, -, rfl⟩ := hworld
    exact ⟨⟨h.draining, h.active⟩,
      by rintro (⟨pid, entry, key, workflow, heq⟩ | ⟨pid, task, heq⟩) <;> cases heq⟩
  | restart => exact absurd rfl he

theorem Draining.moves (h : Draining s views) (hfollows : (slots svc).Follows s views)
    (hmove : (slots svc).Moves s views e t views') : Draining t views' := by
  refine ⟨h.toSlotted.moves hfollows hmove, h.owned.moves hmove, ?_, fun before pid report after hhistory hafter => ?_⟩
  · refine hmove.each (P := fun w _ v => Told w v) h.told (fun c => ⟨nofun, nofun⟩)
      (fun _ hproc hpermits hexec => (h.told _ _ hproc).observe hpermits hexec)
      (fun hv hexec => hv.exec hexec) (fun _ _ _ => ⟨nofun, nofun⟩) fun hv hworld => ?_
    obtain ⟨c, st, -, rfl⟩ := hworld
    exact ⟨hv.draining, fun hdrained => ⟨(hv.drained hdrained).draining, (hv.drained hdrained).active⟩⟩
  · rw [hmove.history] at hhistory
    rcases List.eq_nil_or_concat after with rfl | ⟨earlier, last, rfl⟩
    · -- this is the step in which `drain` returns
      obtain ⟨-, heq⟩ := List.append_inj' hhistory rfl
      cases heq
      refine ⟨?_, by simp⟩
      cases hmove with
      | «return» hproc hreturns =>
        have hdrained : (views pid).drained = true := hreturns.2 report rfl
        exact (h.told pid _ hproc).drained hdrained
    · have hsplit : s.history ++ [e] =
          (before ++ .returned pid (.drained (.ok report)) :: earlier) ++ [last] := by simpa using hhistory
      obtain ⟨hbefore, heq⟩ := List.append_inj' hsplit rfl
      cases heq
      rw [List.concat_eq_append, List.mem_append, List.mem_singleton, not_or] at hafter
      obtain ⟨hvacated, hnone⟩ := h.final before pid report earlier hbefore hafter.1
      obtain ⟨hvacated', he⟩ := hvacated.moves h.toSlotted hmove (Ne.symm hafter.2)
      refine ⟨hvacated', fun e' he' => ?_⟩
      rw [List.concat_eq_append] at he'
      rcases List.mem_append.mp he' with hold | hnew
      · exact hnone e' hold
      · exact List.mem_singleton.mp hnew ▸ he

end Moves

theorem Draining.start (storage : Storage) (views : Nat → SlotView) :
    Draining (svc.runtime.start (ServiceWorld.new storage)) views := by
  refine ⟨Slotted.start storage views, fun pid proc hproc => ?_, fun pid proc hproc => ?_,
    fun before pid report after hhistory => ?_⟩
  · cases hproc
  · cases hproc
  · exact absurd hhistory.symm (List.append_ne_nil_of_right_ne_nil _ (List.cons_ne_nil _ _))

/-- **Draining is final.** Once `drain` has returned a report, then until the service is restarted no
run is active, every task that is not gone yet has done its last request, and no call has inserted a
slot or spawned a task since. -/
theorem drain_final (storage : Storage) (s : svc.runtime.State)
    (hs : svc.runtime.Reachable (fun _ _ => True) (ServiceWorld.new storage) s) (before : List svc.runtime.Event)
    (pid : Nat) (report : ShutdownReport) (after : List svc.runtime.Event)
    (hhistory : s.history = before ++ .returned pid (.drained (.ok report)) :: after)
    (hafter : .restarted ∉ after) :
    s.world.active = [] ∧
      (∀ job parent task prog, s.procs job = some ⟨.job parent task, prog⟩ → ∃ o, prog = .pure o) ∧
      ∀ e ∈ after, ¬ Admits e := by
  obtain ⟨views, hfollows, hinv⟩ := hs.keeps (slots_sound svc) (Draining.start storage)
    fun _ _ _ _ _ _ h hfollows hmove _ => h.moves hfollows hmove
  obtain ⟨hvacated, hnone⟩ := hinv.final before pid report after hhistory hafter
  refine ⟨hvacated.active, fun job parent task prog hproc => ?_, hnone⟩
  cases prog with
  | pure o => exact ⟨o, rfl⟩
  | call r k =>
    -- that the tracker was empty when `awaitTasks` returned is not enough: a call that held a slot then
    -- could spawn its task afterwards; but a task that has something left to do holds a slot
    have hlive := (hfollows.prog job _ hproc).1.1 (hinv.owned job _ hproc).1
    obtain ⟨key, hslot⟩ := Option.isSome_iff_exists.mp hlive
    have hmem := hinv.holds job key _ ⟨_, hproc, hslot, rfl⟩
    rw [hvacated.active] at hmem
    cases hmem

/-- What the scenario of a drain is about: a start has passed `ensure_serving`, taken a slot or been
refused one, spawned its task; and a task has ended. -/
inductive Milestone where
  | serving (pid : Nat) | reserved (pid : Nat) | refused (pid : Nat) | spawned (pid : Nat) | ended (pid : Nat)
deriving DecidableEq

def milestone : svc.runtime.Event → Option Milestone
  | .did pid .lifecycle false => some (.serving pid)
  | .did pid (.reserve ..) .reserved => some (.reserved pid)
  | .did pid (.reserve ..) (.refused _) => some (.refused pid)
  | .did pid (.spawn _) _ => some (.spawned pid)
  | .returned pid .ended => some (.ended pid)
  | _ => none

def isRestart : svc.runtime.Event → Bool
  | .restarted => true
  | _ => false

def isDrained : svc.runtime.Event → Bool
  | .returned _ (.drained (.ok _)) => true
  | _ => false

theorem isDrained_eq {e : svc.runtime.Event} (h : isDrained e = true) :
    ∃ pid report, e = .returned pid (.drained (.ok report)) := by
  unfold isDrained at h
  split at h
  · exact ⟨_, _, rfl⟩
  · cases h

/-- The second start has passed its first check when the first one comes through; the run of the first one
ends, the service is drained, and then the second start goes on. -/
def drainMoves : List (Runtime.Move distinctService.runtime) :=
  [.call firstStart, .call secondStart] ++ acting 1 1 ++ acting 0 18 ++ [.return 0] ++
  acting 2 5 ++ [.return 2, .call .drain] ++ acting 3 5 ++ [.return 3] ++ acting 1 5 ++ [.return 1]

/-- A drain between the first check of a start and its slot, after a run that has ended. -/
theorem drain_final_between : ∃ (s : distinctService.runtime.State)
    (before after : List distinctService.runtime.Event) (pid : Nat) (report : ShutdownReport),
    s.history = before ++ .returned pid (.drained (.ok report)) :: after ∧
    before.filterMap milestone =
      [.serving 1, .serving 0, .reserved 0, .serving 0, .spawned 0, .ended 2] ∧
    after.filterMap milestone = [.refused 1] ∧ s.world.active = [] ∧
    (∀ job parent task prog, s.procs job = some ⟨.job parent task, prog⟩ → ∃ o, prog = .pure o) ∧
    ∀ e ∈ after, ¬ Admits e := by
  have hreach := scenario_reachable drainMoves (by decide +kernel)
  have hdrained : ((scenario drainMoves).history[34]?).any isDrained = true := by decide +kernel
  have hbefore : ((scenario drainMoves).history.take 34).filterMap milestone =
      [.serving 1, .serving 0, .reserved 0, .serving 0, .spawned 0, .ended 2] := by decide +kernel
  have hafter : ((scenario drainMoves).history.drop 35).filterMap milestone = [.refused 1] := by
    decide +kernel
  have hstays : ((scenario drainMoves).history.all fun e => !isRestart e) = true := by decide +kernel
  obtain ⟨e, he, hkind⟩ := (Option.any_eq_true ..).mp hdrained
  obtain ⟨pid, report, rfl⟩ := isDrained_eq hkind
  obtain ⟨hlt, hat⟩ := List.getElem?_eq_some_iff.mp he
  have hsplit : (scenario drainMoves).history = (scenario drainMoves).history.take 34 ++
      .returned pid (.drained (.ok report)) :: (scenario drainMoves).history.drop 35 := by
    rw [← hat, List.getElem_cons_drop, List.take_append_drop]
  refine ⟨_, _, _, pid, report, hsplit, hbefore, hafter, ?_⟩
  refine drain_final _ _ hreach _ pid report _ hsplit fun hrestarted => ?_
  have hnone := List.all_eq_true.mp hstays _ (List.mem_of_mem_drop hrestarted)
  cases hnone

end LocalAgent
