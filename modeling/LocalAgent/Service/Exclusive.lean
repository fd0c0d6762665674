import LocalAgent.Service.Leaks

/-!
# Starts are exclusive (`agent-service/src/lib.rs:724-907, 1428-1532`)

Two mechanisms keep a run from being started twice. The map has one slot a session, and whoever
removes a slot holds it, so that a removal, which names only the session, never hits the slot of
another call. Across restarts it is the store: `create_run` fails for a run that is there, rows are
never deleted, and a task for a new run is only spawned after the `create_run` of the same call.
`starts_exclusive` puts them together.
-/
namespace LocalAgent

open Program

variable {svc : AgentService}

/-! ## The store -/

section Store

variable {run : RunId}

theorem commit_keeps_run {s s' : Store} {c : StoreCall} (h : s.commit c = .ok s')
    (hrow : (s.runs run).isSome = true) : (s'.runs run).isSome = true := by
  have hput : ∀ {other : RunId} {row : StoredRun}, ((s.putRun other row).runs run).isSome = true := by
    intro other row
    by_cases hother : run = other
    · subst hother
      simp
    · rw [Store.putRun_of_ne hother]
      exact hrow
  cases Store.commit_ok h with
  | created record checkpoint new call absent empty unset runs =>
    rw [runs]
    exact hput
  | appended t row call accepted runs =>
    rw [runs]
    exact hput
  | none call runs => rw [runs, hrow]

theorem served_keeps_run {w w' : Storage} {r : Request} {a : Answer r} (h : Served False w r a w')
    (hrow : (w.now.runs run).isSome = true) : (w'.now.runs run).isSome = true := by
  cases h with
  | wrote reads call ok committed => exact commit_keeps_run committed hrow
  | failed | loadedRun | loadedWait | other => exact hrow

/-- A run is created only where there was none. -/
theorem served_creates {w w' : Storage} {record : RunRecord} {checkpoint : DurableCheckpoint} {u : Unit}
    (h : Served False w (.createRun record checkpoint) (.ok u) w') :
    w.now.runs record.key.runId = none ∧ (w'.now.runs record.key.runId).isSome = true := by
  cases h with
  | wrote reads call ok committed =>
    cases call
    cases Store.commit_ok committed with
    | created record' checkpoint' new call absent empty unset runs =>
      cases call
      exact ⟨absent, by rw [runs]; simp⟩
    | appended t row call => cases call
    | none call runs =>
      obtain ⟨-, absent, rfl⟩ := Store.createRun_ok committed
      exact ⟨absent, by simp⟩
  | failed unreliable persistence error => cases error
  | other free => cases free

end Store

/-! ## Events -/

/-- The event creates the run in the store. -/
def createsRun (run : RunId) : svc.runtime.Event → Bool
  | .did _ (.harness (.createRun record _)) (.ok _) => record.key.runId = run
  | _ => false

/-- The event spawns the workflow of a run that `start_run` has created. -/
def spawnsRun (run : RunId) : svc.runtime.Event → Bool
  | .did _ (.spawn (.run key ..)) _ => key.runId = run
  | _ => false

/-- How often a run was created, and how often its workflow was spawned. -/
def timesCreated (s : svc.runtime.State) (run : RunId) : Nat := s.history.countP (createsRun run)

def timesSpawned (s : svc.runtime.State) (run : RunId) : Nat := s.history.countP (spawnsRun run)

inductive EventCases : svc.runtime.Event → Prop
  | create (pid : Nat) (record : RunRecord) (checkpoint : DurableCheckpoint) (u : Unit) :
      EventCases (.did pid (.harness (.createRun record checkpoint)) (.ok u))
  | spawn (pid : Nat) (key : RunKey) (workflow : WorkflowId) (context : RunContext) (input : List UInt8) :
      EventCases (.did pid (.spawn (.run key workflow context input)) ())
  | other {e : svc.runtime.Event} (creates : ∀ run, createsRun run e = false)
      (spawns : ∀ run, spawnsRun run e = false) : EventCases e

theorem eventCases (e : svc.runtime.Event) : EventCases e := by
  cases e with
  | did pid r a =>
    cases r with
    | harness r =>
      cases r with
      | createRun record checkpoint =>
        cases a with
        | ok u => exact .create pid record checkpoint u
        | error e => exact .other (fun _ => rfl) fun _ => rfl
      | _ => exact .other (fun _ => rfl) fun _ => rfl
    | spawn task =>
      cases task with
      | run key workflow context input => exact .spawn pid key workflow context input
      | resume => exact .other (fun _ => rfl) fun _ => rfl
    | _ => exact .other (fun _ => rfl) fun _ => rfl
  | _ => exact .other (fun _ => rfl) fun _ => rfl

/-! ## Who has created a run -/

/-- A process has created the run and not yet spawned its workflow. -/
def Creator (s : svc.runtime.State) (views : Nat → SlotView) (pid : Nat) (run : RunId) : Prop :=
  ∃ proc, s.procs pid = some proc ∧ (views pid).created = some run

theorem SlotView.observe_created {v : SlotView} {r : ServiceRequest} {a : ServiceAnswer r} {run : RunId}
    (pid : Nat) (h : (v.observe r a).created = some run) :
    (v.created = some run ∧ ∀ task, r ≠ .spawn task) ∨
      createsRun run (.did pid r a : svc.runtime.Event) = true := by
  cases r with
  | harness r =>
    cases r with
    | createRun record checkpoint =>
      cases a with
      | ok u => exact .inr (decide_eq_true (Option.some.inj h))
      | error e => exact .inl ⟨h, fun _ htask => by cases htask⟩
    | _ => exact .inl ⟨h, fun _ htask => by cases htask⟩
  | reserve entry key workflow => cases a <;> exact .inl ⟨h, fun _ htask => by cases htask⟩
  | findRun key =>
    match a with
    | .error e => exact .inl ⟨h, fun _ htask => by cases htask⟩
    | .ok none => exact .inl ⟨h, fun _ htask => by cases htask⟩
    | .ok (some summary) => exact .inl ⟨h, fun _ htask => by cases htask⟩
  | spawn task => cases h
  | _ => exact .inl ⟨h, fun _ htask => by cases htask⟩

section Moves

variable {s t : svc.runtime.State} {views views' : Nat → (slots svc).View} {e : svc.runtime.Event}

/-- Whoever has created a run has just done so, or had, and has not spawned the workflow. -/
theorem creator_moves {pid : Nat} {run : RunId} (hmove : (slots svc).Moves s views e t views')
    (h : Creator t views' pid run) :
    (Creator s views pid run ∧ ∀ task, e ≠ .did pid (.spawn task) ()) ∨
      (createsRun run e = true ∧ ∃ r a, e = .did pid r a) := by
  obtain ⟨proc, hproc, hcreated⟩ := h
  cases hmove with
  | call c =>
    by_cases hpid : pid = s.next
    · subst hpid
      simp only [Function.update_self] at hcreated
      cases hcreated
    · simp only [Function.update_of_ne hpid] at hproc hcreated
      exact .inl ⟨⟨proc, hproc, hcreated⟩, fun _ heq => by cases heq⟩
  | @act actor kind r k a w hactor hjob hexec hpermits =>
    by_cases hpid : pid = actor
    · subst hpid
      simp only [Function.update_self] at hcreated
      rcases SlotView.observe_created pid hcreated with ⟨hold, hspawn⟩ | hnew
      · refine .inl ⟨⟨_, hactor, hold⟩, fun task heq => ?_⟩
        cases heq
        exact hspawn task rfl
      · exact .inr ⟨hnew, r, a, rfl⟩
    · simp only [Function.update_of_ne hpid] at hproc hcreated
      refine .inl ⟨⟨proc, hproc, hcreated⟩, fun task heq => ?_⟩
      cases heq
      exact hpid rfl
  | @spawn actor kind r k a w task hactor hjob hexec hpermits =>
    by_cases hnext : pid = s.next
    · subst hnext
      simp only [Function.update_self] at hcreated
      cases hcreated
    · simp only [Function.update_of_ne hnext] at hproc hcreated
      by_cases hpid : pid = actor
      · subst hpid
        simp only [Function.update_self] at hcreated
        cases r with
        | spawn task' => cases hcreated
        | _ => cases hjob
      · simp only [Function.update_of_ne hpid] at hproc hcreated
        refine .inl ⟨⟨proc, hproc, hcreated⟩, fun task' heq => ?_⟩
        cases heq
        exact hpid rfl
  | @«return» actor kind o hactor hreturns =>
    by_cases hpid : pid = actor
    · subst hpid
      simp at hproc
    · simp only [Function.update_of_ne hpid] at hproc
      exact .inl ⟨⟨proc, hproc, hcreated⟩, fun _ heq => by cases heq⟩
  | @drop actor kind r k hactor hpermits =>
    by_cases hpid : pid = actor
    · subst hpid
      simp at hproc
    · simp only [Function.update_of_ne hpid] at hproc
      exact .inl ⟨⟨proc, hproc, hcreated⟩, fun _ heq => by cases heq⟩
  | interfere hworld => exact .inl ⟨⟨proc, hproc, hcreated⟩, fun _ heq => by cases heq⟩
  | restart => cases hproc

/-- Rows stay. -/
theorem moves_keeps_run {run : RunId} (hmove : (slots svc).Moves s views e t views')
    (hrow : (s.world.storage.now.runs run).isSome = true) :
    (t.world.storage.now.runs run).isSome = true := by
  have hexec : ∀ {owner idle r a w'}, s.world.exec owner idle r a w' →
      (w'.storage.now.runs run).isSome = true := by
    intro owner idle r a w' hexec
    cases r with
    | harness r =>
      obtain ⟨st, hserved, rfl⟩ := hexec
      exact served_keeps_run hserved hrow
    | reserve entry key workflow =>
      simp only [ServiceWorld.exec, Prod.mk.injEq] at hexec
      rw [hexec.2]
      exact hrow
    | attach session | lifecycle | lookup session | handles | awaitTasks | remaining =>
      rw [hexec.2]
      exact hrow
    | _ =>
      rw [hexec]
      exact hrow
  cases hmove with
  | act _ _ h => exact hexec h
  | spawn _ _ h => exact hexec h
  | interfere hworld =>
    obtain ⟨c, st, hcommit, rfl⟩ := hworld
    exact commit_keeps_run hcommit hrow
  | call | «return» | drop | restart => exact hrow

/-- A run is created only where there was none, by the call that is to start it. -/
theorem moves_creates {pid : Nat} {record : RunRecord} {checkpoint : DurableCheckpoint} {u : Unit}
    (hmove : (slots svc).Moves s views (.did pid (.harness (.createRun record checkpoint)) (.ok u)) t
      views') :
    s.world.storage.now.runs record.key.runId = none ∧
      (t.world.storage.now.runs record.key.runId).isSome = true ∧
      (views pid).target = some record.key ∧ ∃ proc, s.procs pid = some proc := by
  cases hmove with
  | act hproc hjob hexec hpermits =>
    obtain ⟨st, hserved, rfl⟩ := hexec
    obtain ⟨habsent, hstored⟩ := served_creates hserved
    exact ⟨habsent, hstored, hpermits.2 _ rfl, _, hproc⟩
  | spawn hproc hjob hexec hpermits => cases hjob

/-- The workflow of a new run is spawned by the call that has created it. -/
theorem moves_spawns {pid : Nat} {key : RunKey} {workflow : WorkflowId} {context : RunContext}
    {input : List UInt8} (hpersistence : svc.harness.persistence = true)
    (hmove : (slots svc).Moves s views (.did pid (.spawn (.run key workflow context input)) ()) t views') :
    Creator s views pid key.runId ∧ (views pid).target = some key := by
  cases hmove with
  | act hproc hjob hexec hpermits => cases hjob
  | spawn hproc hjob hexec hpermits =>
    obtain ⟨-, -, -, htarget, hcreated⟩ := hpermits
    exact ⟨⟨_, hproc, hcreated hpersistence⟩, htarget⟩

end Moves

/-! ## Runs -/

/-- A process has created the run or spawned its workflow. -/
def StartsBy (e : svc.runtime.Event) (pid : Nat) (run : RunId) : Prop :=
  (∃ r a, e = .did pid r a) ∧ (createsRun run e = true ∨ spawnsRun run e = true)

/-- The process is a call with this target. -/
def DoneFor (s : svc.runtime.State) (pid : Nat) (key : RunKey) : Prop :=
  ∃ c, .called pid c ∈ s.history ∧ c.target svc = some key

structure Exclusive (s : svc.runtime.State) (views : Nat → SlotView) : Prop extends Slotted s views where
  owned : Owned s views
  stored : ∀ run, 0 < timesCreated s run → (s.world.storage.now.runs run).isSome = true
  once : ∀ run, timesCreated s run ≤ 1
  backed : ∀ run, timesSpawned s run ≤ timesCreated s run
  creator : ∀ pid run, Creator s views pid run → timesCreated s run = 1 ∧ timesSpawned s run = 0
  unique : ∀ pid pid' run, Creator s views pid run → Creator s views pid' run → pid = pid'
  asked : ∀ e ∈ s.history, ∀ pid run, StartsBy e pid run → ∃ key, key.runId = run ∧ DoneFor s pid key

section Moves

variable {s t : svc.runtime.State} {views views' : Nat → (slots svc).View} {e : svc.runtime.Event}

theorem created_moves (hmove : (slots svc).Moves s views e t views') (run : RunId) :
    timesCreated t run = timesCreated s run + if createsRun run e then 1 else 0 := by
  simp [timesCreated, hmove.history, List.countP_append, List.countP_singleton]

theorem spawned_moves (hmove : (slots svc).Moves s views e t views') (run : RunId) :
    timesSpawned t run = timesSpawned s run + if spawnsRun run e then 1 else 0 := by
  simp [timesSpawned, hmove.history, List.countP_append, List.countP_singleton]

/-- A run that is created now was not created before. -/
theorem Exclusive.uncreated (h : Exclusive s views) {run : RunId}
    (habsent : s.world.storage.now.runs run = none) : timesCreated s run = 0 := by
  by_contra hne
  have hrow := h.stored run (by omega)
  rw [habsent] at hrow
  cases hrow

/-- The call whose target this is. -/
theorem Exclusive.doneFor (h : Exclusive s views) (hnumbered : Runtime.Numbered s) {pid : Nat}
    {proc : svc.runtime.Proc} (hproc : s.procs pid = some proc) {key : RunKey}
    (htarget : (views pid).target = some key) : DoneFor s pid key := by
  obtain ⟨kind, prog⟩ := proc
  cases kind with
  | call c => exact ⟨c, hnumbered.mem pid c prog hproc, (h.owned pid _ hproc).2 ▸ htarget⟩
  | job parent task =>
    rw [(h.owned pid _ hproc).2.1] at htarget
    cases htarget

theorem DoneFor.moves {pid : Nat} {key : RunKey} (h : DoneFor s pid key)
    (hmove : (slots svc).Moves s views e t views') : DoneFor t pid key := by
  obtain ⟨c, hc, htarget⟩ := h
  exact ⟨c, by rw [hmove.history]; exact List.mem_append_left _ hc, htarget⟩

/-- The events before this one were done by their calls. -/
theorem Exclusive.asked_moves (h : Exclusive s views) (hmove : (slots svc).Moves s views e t views')
    (hnew : ∀ pid run, StartsBy e pid run → ∃ key, key.runId = run ∧ DoneFor s pid key) :
    ∀ e' ∈ t.history, ∀ pid run, StartsBy e' pid run → ∃ key, key.runId = run ∧ DoneFor t pid key := by
  intro e' hmem pid run hrun
  have hbefore : ∃ key, key.runId = run ∧ DoneFor s pid key := by
    rw [hmove.history] at hmem
    rcases List.mem_append.mp hmem with hold | hlast
    · exact h.asked e' hold pid run hrun
    · rw [List.mem_singleton.mp hlast] at hrun
      exact hnew pid run hrun
  obtain ⟨key, hkey, hdone⟩ := hbefore
  exact ⟨key, hkey, hdone.moves hmove⟩

/-- A run is created. -/
theorem Exclusive.creates (h : Exclusive s views) (hnumbered : Runtime.Numbered s)
    (hfollows : (slots svc).Follows s views) {pid : Nat} {record : RunRecord}
    {checkpoint : DurableCheckpoint} {u : Unit}
    (hmove : (slots svc).Moves s views (.did pid (.harness (.createRun record checkpoint)) (.ok u)) t
      views') : Exclusive t views' := by
  obtain ⟨habsent, hstored, htarget, proc, hproc⟩ := moves_creates hmove
  have hzero := h.uncreated habsent
  have hspawned : ∀ run, timesSpawned t run = timesSpawned s run := fun run => by
    simp [spawned_moves hmove run, spawnsRun]
  have hself : timesCreated t record.key.runId = 1 := by
    simp [created_moves hmove, createsRun, hzero]
  have hother : ∀ run, run ≠ record.key.runId → timesCreated t run = timesCreated s run := fun run hrun => by
    simp [created_moves hmove run, createsRun, hrun.symm]
  have hcreator : ∀ {other run}, Creator t views' other run →
      (run ≠ record.key.runId ∧ Creator s views other run) ∨ (run = record.key.runId ∧ other = pid) := by
    intro other run hother'
    rcases creator_moves hmove hother' with ⟨hold, -⟩ | ⟨hnew, r, a, heq⟩
    · refine .inl ⟨?_, hold⟩
      rintro rfl
      have hone := (h.creator other _ hold).1
      omega
    · cases heq
      exact .inr ⟨(of_decide_eq_true hnew).symm, rfl⟩
  refine ⟨h.toSlotted.moves hfollows hmove, h.owned.moves hmove, fun run hrun => ?_, fun run => ?_,
    fun run => ?_, fun other run hother' => ?_, fun o o' run ho ho' => ?_, h.asked_moves hmove ?_⟩
  · by_cases heq : run = record.key.runId
    · rw [heq]
      exact hstored
    · rw [hother run heq] at hrun
      exact moves_keeps_run hmove (h.stored run hrun)
  · by_cases heq : run = record.key.runId
    · rw [heq, hself]
    · rw [hother run heq]
      exact h.once run
  · have hle := h.backed run
    by_cases heq : run = record.key.runId
    · subst heq
      rw [hspawned]
      omega
    · rw [hspawned, hother run heq]
      exact hle
  · rcases hcreator hother' with ⟨heq, hold⟩ | ⟨rfl, -⟩
    · rw [hother run heq, hspawned]
      exact h.creator other run hold
    · have hle := h.backed record.key.runId
      exact ⟨hself, by rw [hspawned]; omega⟩
  · rcases hcreator ho with ⟨heq, hold⟩ | ⟨rfl, rfl⟩
    · rcases hcreator ho' with ⟨-, hold'⟩ | ⟨heq', -⟩
      · exact h.unique o o' run hold hold'
      · exact absurd heq' heq
    · rcases hcreator ho' with ⟨heq', -⟩ | ⟨-, rfl⟩
      · exact absurd rfl heq'
      · rfl
  · rintro other run ⟨⟨r, a, heq⟩, hrun⟩
    cases heq
    refine ⟨record.key, ?_, h.doneFor hnumbered hproc htarget⟩
    rcases hrun with hrun | hrun
    · exact of_decide_eq_true hrun
    · cases hrun

/-- The workflow of a new run is spawned. -/
theorem Exclusive.spawns (hpersistence : svc.harness.persistence = true) (h : Exclusive s views)
    (hnumbered : Runtime.Numbered s) (hfollows : (slots svc).Follows s views) {pid : Nat} {key : RunKey}
    {workflow : WorkflowId} {context : RunContext} {input : List UInt8}
    (hmove : (slots svc).Moves s views (.did pid (.spawn (.run key workflow context input)) ()) t views') :
    Exclusive t views' := by
  obtain ⟨hself, htarget⟩ := moves_spawns hpersistence hmove
  obtain ⟨hone, hzero⟩ := h.creator pid key.runId hself
  have hcreated : ∀ run, timesCreated t run = timesCreated s run := fun run => by
    simp [created_moves hmove run, createsRun]
  have hspawned : timesSpawned t key.runId = 1 := by
    simp [spawned_moves hmove, spawnsRun, hzero]
  have hother : ∀ run, run ≠ key.runId → timesSpawned t run = timesSpawned s run := fun run hrun => by
    simp [spawned_moves hmove run, spawnsRun, hrun.symm]
  have hcreator : ∀ {other run}, Creator t views' other run →
      Creator s views other run ∧ run ≠ key.runId := by
    intro other run hpid
    rcases creator_moves hmove hpid with ⟨hold, hnot⟩ | ⟨hnew, -⟩
    · refine ⟨hold, ?_⟩
      rintro rfl
      -- the one that has created the run is the one that spawns
      have heq := h.unique other pid key.runId hold hself
      subst heq
      exact hnot _ rfl
    · cases hnew
  refine ⟨h.toSlotted.moves hfollows hmove, h.owned.moves hmove, fun run hrun => ?_, fun run => ?_,
    fun run => ?_, fun other run hpid => ?_, fun o o' run ho ho' => ?_, h.asked_moves hmove ?_⟩
  · rw [hcreated] at hrun
    exact moves_keeps_run hmove (h.stored run hrun)
  · rw [hcreated]
    exact h.once run
  · rw [hcreated]
    by_cases heq : run = key.runId
    · subst heq
      omega
    · rw [hother run heq]
      exact h.backed run
  · obtain ⟨hold, hne⟩ := hcreator hpid
    rw [hcreated, hother run hne]
    exact h.creator other run hold
  · exact h.unique o o' run (hcreator ho).1 (hcreator ho').1
  · rintro other run ⟨⟨r, a, heq⟩, hrun⟩
    cases heq
    obtain ⟨proc, hproc, -⟩ := hself
    refine ⟨key, ?_, h.doneFor hnumbered hproc htarget⟩
    rcases hrun with hrun | hrun
    · cases hrun
    · exact of_decide_eq_true hrun

theorem Exclusive.moves (hpersistence : svc.harness.persistence = true) (h : Exclusive s views)
    (hnumbered : Runtime.Numbered s) (hfollows : (slots svc).Follows s views)
    (hmove : (slots svc).Moves s views e t views') : Exclusive t views' := by
  cases eventCases e with
  | create pid record checkpoint u => exact h.creates hnumbered hfollows hmove
  | spawn pid key workflow context input => exact h.spawns hpersistence hnumbered hfollows hmove
  | other hcreates hspawns =>
    have hcreated : ∀ run, timesCreated t run = timesCreated s run := fun run => by
      simp [created_moves hmove run, hcreates run]
    have hspawned : ∀ run, timesSpawned t run = timesSpawned s run := fun run => by
      simp [spawned_moves hmove run, hspawns run]
    have hcreator : ∀ {pid run}, Creator t views' pid run → Creator s views pid run := by
      intro pid run hpid
      rcases creator_moves hmove hpid with ⟨hold, -⟩ | ⟨hnew, -⟩
      · exact hold
      · rw [hcreates run] at hnew
        cases hnew
    refine ⟨h.toSlotted.moves hfollows hmove, h.owned.moves hmove, fun run hrun => ?_, fun run => ?_,
      fun run => ?_, fun pid run hpid => ?_, fun o o' run ho ho' => ?_, h.asked_moves hmove ?_⟩
    · rw [hcreated] at hrun
      exact moves_keeps_run hmove (h.stored run hrun)
    · rw [hcreated]
      exact h.once run
    · rw [hcreated, hspawned]
      exact h.backed run
    · rw [hcreated, hspawned]
      exact h.creator pid run (hcreator hpid)
    · exact h.unique o o' run (hcreator ho) (hcreator ho')
    · rintro pid run ⟨-, hrun⟩
      rw [hcreates run, hspawns run] at hrun
      rcases hrun with hrun | hrun <;> cases hrun

/-- Whoever removes a slot holds it. -/
theorem Slotted.removes (h : Slotted s views) (hmove : (slots svc).Moves s views e t views')
    {run : ActiveRun} (hrun : run ∈ s.world.active)
    (hgone : (run.key, run.owner) ∉ ids t.world.active) :
    e = .restarted ∨ ∃ pid proc, e = .did pid (.release run.session) () ∧ s.procs pid = some proc ∧
      proc.kind.owner pid = run.owner := by
  have hmem : (run.key, run.owner) ∈ ids s.world.active := List.mem_map.mpr ⟨run, hrun, rfl⟩
  cases hmove with
  | @act pid kind r k a w hproc hjob hexec hpermits =>
    have hspawn : ∀ task, r ≠ .spawn task := by
      rintro task rfl
      cases hjob
    cases slotMove hexec hpermits hspawn with
    | kept hactive hslot =>
      rw [hactive] at hgone
      exact absurd hmem hgone
    | took key new hserving hvacant hroom hactive hid hfree hslot =>
      rw [hactive] at hgone
      exact absurd (List.mem_cons_of_mem _ hmem) hgone
    | gave key hrequest hheld hactive hslot =>
      subst hrequest
      have hsession : run.key.sessionId = key.sessionId := by
        by_contra hne
        rw [hactive, ids_removeSlot, List.mem_filter] at hgone
        exact hgone ⟨hmem, decide_eq_true hne⟩
      have hheld' := h.holds pid key _ ⟨_, hproc, hheld, rfl⟩
      have heq := List.inj_on_of_nodup_map h.sessions hmem hheld' hsession
      obtain ⟨hkey, howner⟩ := Prod.mk.inj heq
      refine .inr ⟨pid, _, ?_, hproc, howner.symm⟩
      rw [ActiveRun.session, hkey]
  | @spawn pid kind r k a w task hproc hjob hexec hpermits =>
    cases r with
    | spawn task' =>
      rw [show w.active = s.world.active by rw [hexec]] at hgone
      exact absurd hmem hgone
    | _ => cases hjob
  | interfere hworld =>
    obtain ⟨c, st, -, rfl⟩ := hworld
    exact absurd hmem hgone
  | restart => exact .inl rfl
  | call | «return» | drop => exact absurd hmem hgone

end Moves

theorem Exclusive.start (storage : Storage) (views : Nat → SlotView) :
    Exclusive (svc.runtime.start (ServiceWorld.new storage)) views := by
  refine ⟨Slotted.start storage views, fun pid proc hproc => ?_, fun run hrun => ?_, fun run => ?_,
    fun run => ?_, fun pid run hpid => ?_, fun pid pid' run hpid => ?_, fun e he => ?_⟩
  · cases hproc
  · cases hrun
  · exact Nat.zero_le _
  · exact Nat.le_refl _
  · obtain ⟨proc, hproc, -⟩ := hpid
    cases hproc
  · obtain ⟨proc, hproc, -⟩ := hpid
    cases hproc
  · cases he

/-- A call of `start_run` for this pair came in, as this process. -/
def Asks (s : svc.runtime.State) (pid : Nat) (session : SessionId) (request : Nat) : Prop :=
  ∃ principal workflow input, .called pid (.startRun principal session request workflow input) ∈ s.history

/-- A call for this pair has created the run or spawned its workflow. -/
def StartedFor (s : svc.runtime.State) (session : SessionId) (request : Nat) (run : RunId) : Prop :=
  ∃ pid, Asks s pid session request ∧ ∃ e ∈ s.history, StartsBy e pid run

/-- **Starts are exclusive.** In every state of every run, restarts included: one slot a session, at
most `maxActiveRuns` slots, a slot goes only by a restart or by the call that inserted it or its task;
a call creates or spawns no run but the one of its pair; a run is created at most once and its workflow
spawned at most once; and no two pairs share a run. -/
theorem starts_exclusive (hpersistence : svc.harness.persistence = true) (storage : Storage)
    (s : svc.runtime.State)
    (hs : svc.runtime.Reachable (fun _ _ => True) (ServiceWorld.new storage) s)
    (hcollision : ∀ pid pid' session session' request request', Asks s pid session request →
      Asks s pid' session' request' →
        svc.deriveRunId session request = svc.deriveRunId session' request' →
          session = session' ∧ request = request') :
    (s.world.active.map ActiveRun.session).Nodup ∧ s.world.active.length ≤ maxActiveRuns ∧
    (∀ e t, svc.runtime.Step s e t → ∀ run ∈ s.world.active, (run.key, run.owner) ∉ ids t.world.active →
      e = .restarted ∨ ∃ pid proc, e = .did pid (.release run.session) () ∧ s.procs pid = some proc ∧
        proc.kind.owner pid = run.owner) ∧
    (∀ session request run, StartedFor s session request run → run = svc.deriveRunId session request) ∧
    (∀ run, timesCreated s run ≤ 1 ∧ timesSpawned s run ≤ 1) ∧
    ∀ session session' request request' run, StartedFor s session request run →
      StartedFor s session' request' run → session = session' ∧ request = request' := by
  obtain ⟨views, hfollows, hinv⟩ := hs.keeps (slots_sound svc) (Exclusive.start storage)
    fun _ _ _ _ _ hs h hfollows hmove _ => h.moves hpersistence hs.numbered hfollows hmove
  have hderived : ∀ session request run, StartedFor s session request run →
      run = svc.deriveRunId session request := by
    rintro session request run ⟨pid, ⟨principal, workflow, input, hcalled⟩, e, he, hstarts⟩
    obtain ⟨key, rfl, c, hc, htarget⟩ := hinv.asked e he pid run hstarts
    cases hs.numbered.once pid _ _ hc hcalled
    rw [← Option.some.inj htarget]
  refine ⟨?_, hinv.capacity, fun e t hstep run hrun hgone => ?_, hderived, fun run => ?_, ?_⟩
  · have hsessions := hinv.sessions
    rw [ids, List.map_map] at hsessions
    exact hsessions
  · obtain ⟨views', hmove, -⟩ := hfollows.step (slots_sound svc) hstep
    exact hinv.toSlotted.removes hmove hrun hgone
  · exact ⟨hinv.once run, (hinv.backed run).trans (hinv.once run)⟩
  · intro session session' request request' run h h'
    have hrun := hderived session request run h
    have hrun' := hderived session' request' run h'
    obtain ⟨pid, hasks, -⟩ := h
    obtain ⟨pid', hasks', -⟩ := h'
    exact hcollision pid pid' session session' request request' hasks hasks' (hrun.symm.trans hrun')

/-- Every start that has come in is for one of these pairs. -/
def asksFor (pairs : List (SessionId × Nat)) (s : svc.runtime.State) : Bool :=
  s.history.all fun
    | .called _ (.startRun _ session request _ _) => (session, request) ∈ pairs
    | _ => true

theorem asksFor_mem {pairs : List (SessionId × Nat)} {s : svc.runtime.State} (h : asksFor pairs s = true)
    {pid : Nat} {session : SessionId} {request : Nat} (hasks : Asks s pid session request) :
    (session, request) ∈ pairs := by
  obtain ⟨_, _, _, hc⟩ := hasks
  exact of_decide_eq_true (List.all_eq_true.mp h _ hc)

/-- Two starts take turns, and the first pair is started once more while its run is active. -/
def exclusiveMoves : List (Runtime.Move distinctService.runtime) :=
  [.call firstStart, .call secondStart] ++ acting 1 1 ++ acting 0 18 ++ acting 1 10 ++
  [.return 0, .call firstStart] ++ acting 3 6 ++ [.return 3]

/-- The runs of two pairs: one was created and spawned, the other created; the call that came twice has
found its run. -/
theorem starts_exclusive_sample :
    let s := scenario exclusiveMoves
    let first := distinctService.deriveRunId ⟨1⟩ 7
    let second := distinctService.deriveRunId ⟨2⟩ 8
    s.world.active.length = 2 ∧ timesCreated s first = 1 ∧ timesSpawned s first = 1 ∧
      timesCreated s second = 1 ∧ (s.world.active.map ActiveRun.session).Nodup ∧
      (∀ run, timesCreated s run ≤ 1 ∧ timesSpawned s run ≤ 1) ∧
      ∀ run, StartedFor s ⟨1⟩ 7 run → ¬ StartedFor s ⟨2⟩ 8 run := by
  intro s first second
  have hreach := scenario_reachable exclusiveMoves (by decide +kernel)
  have hpairs : asksFor [(⟨1⟩, 7), (⟨2⟩, 8)] (scenario exclusiveMoves) = true := by decide +kernel
  have h := starts_exclusive rfl _ _ hreach ?_
  · obtain ⟨hsessions, -, -, -, honce, hshared⟩ := h
    refine ⟨by decide +kernel, by decide +kernel, by decide +kernel, by decide +kernel, hsessions, honce,
      fun run h h' => ?_⟩
    cases (hshared _ _ _ _ _ h h').1
  · intro pid pid' session session' request request' hasks hasks' heq
    have hdistinct : first ≠ second := by decide +kernel
    have hmem := asksFor_mem hpairs hasks
    have hmem' := asksFor_mem hpairs hasks'
    simp only [List.mem_cons, List.not_mem_nil, or_false, Prod.mk.injEq] at hmem hmem'
    rcases hmem with ⟨rfl, rfl⟩ | ⟨rfl, rfl⟩ <;> rcases hmem' with ⟨rfl, rfl⟩ | ⟨rfl, rfl⟩
    · exact ⟨rfl, rfl⟩
    · exact absurd heq hdistinct
    · exact absurd heq.symm hdistinct
    · exact ⟨rfl, rfl⟩

end LocalAgent
