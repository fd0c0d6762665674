import LocalAgent.Harness.Routine
import LocalAgent.Service.Runs

/-!
# Who holds a slot

Every process of the service keeps to a discipline (`slots`): it takes a slot at most once at a time,
it gives back or hands on only the slot it holds, a task does nothing after it has given its slot
back, and a new run is handed to a task only after its own `create_run` succeeded. `slots_sound` is
that the methods keep to it, whatever the ports answer.
-/
namespace LocalAgent

open Program

/-! ## The discipline -/

/-- What is known of a process. -/
structure SlotView where
  /-- The slot it holds. -/
  slot : Option RunKey := none
  /-- It is a task. -/
  job : Bool := false
  /-- The run that the call is to start. -/
  target : Option RunKey := none
  /-- The run it has created. -/
  created : Option RunId := none
  /-- It may end without giving its slot back. -/
  tainted : Bool := false
  draining : Bool := false
  drained : Bool := false
deriving Inhabited

/-- The process may still ask for something. -/
def SlotView.Live (v : SlotView) : Prop := v.job = true → v.slot.isSome = true

/-- The process may end. -/
def SlotView.Settled (v : SlotView) : Prop := v.slot = none ∨ v.tainted = true

/-- The run that a call is to start. -/
def ServiceCall.target (svc : AgentService) : ServiceCall → Option RunKey
  | .startRun _ session request _ _ => some ⟨svc.deriveRunId session request, session⟩
  | _ => none

/-- What a process may ask for. -/
def SlotView.permits (svc : AgentService) (v : SlotView) (r : ServiceRequest) : Prop :=
  v.Live ∧ match r with
    | .harness r => ∀ key, r.creates = some key → v.target = some key
    | .reserve .. => v.slot = none
    | .release session | .attach session => ∃ key, v.slot = some key ∧ key.sessionId = session
    | .spawn task => v.slot = some task.key ∧ v.job = false ∧
      match task with
      | .run key .. =>
        v.target = some key ∧ (svc.harness.persistence = true → v.created = some key.runId)
      | .resume .. => True
    | .remaining => v.draining = true
    | _ => True

/-- An answer that lets the process end with its slot, if it holds one. -/
def SlotView.taint (v : SlotView) (bad : Bool) : SlotView :=
  { v with tainted := v.tainted || (v.slot.isSome && bad) }

/-- What an answer tells. -/
def SlotView.observe (v : SlotView) : (r : ServiceRequest) → ServiceAnswer r → SlotView
  | .harness (.createRun record _), .ok _ => { v with created := some record.key.runId }
  | .reserve _ key _, .reserved => { v with slot := some key }
  | .release _, _ => { v with slot := none }
  | .spawn _, _ => { v with slot := none, created := none }
  | .findRun _, .ok (some summary) => v.taint summary.authorization.isNone
  | .audit event, recorded => v.taint (!recorded && event.phase = .mutationCommitted)
  | .policy, answer => v.taint (answer.1 = 0)
  | .attach _, found => v.taint (!found)
  | .beginDrain, _ => { v with draining := true }
  | .remaining, n => { v with drained := n = 0 }
  | _, _ => v

/-- The discipline of the service. -/
@[reducible] def slots (svc : AgentService) : Runtime.Discipline svc.runtime where
  View := SlotView
  permits := SlotView.permits svc
  observe := SlotView.observe
  fresh c := { target := c.target svc }
  heir _ task := { slot := some task.key, job := true }
  Returns o v := v.Settled ∧ ∀ report, o = .drained (.ok report) → v.drained = true

theorem SlotView.taint_of_none {v : SlotView} {bad : Bool} (h : v.slot = none) : v.taint bad = v := by
  cases v with
  | mk slot job target created tainted draining drained =>
    cases h
    simp [taint]

theorem SlotView.taint_false {v : SlotView} : v.taint false = v := by
  unfold taint
  rw [Bool.and_false, Bool.or_false]

/-- A bad answer to a process with a slot. -/
theorem SlotView.tainted_of_slot {v : SlotView} {key : RunKey} (h : v.slot = some key) :
    (v.taint true).tainted = true := by simp [taint, h]

/-! ## The methods keep to it -/

variable {svc : AgentService}

/-- From this view on, the method keeps to the discipline and ends like this. -/
def Keeps {α : Type} (svc : AgentService) (m : ServiceM α) (v : SlotView)
    (Q : Except ServiceError α → SlotView → Prop) : Prop :=
  m.wp (slots svc).toMonitor (fun x _ v => Q x v) () v

section Rules

variable {α β : Type} {m : ServiceM α} {f : α → ServiceM β} {v : SlotView}
  {Q Q' : Except ServiceError α → SlotView → Prop} {R : Except ServiceError β → SlotView → Prop}

theorem Keeps.mono (h : Keeps svc m v Q) (hQ : ∀ x v, Q x v → Q' x v) : Keeps svc m v Q' :=
  Task.wp_mono h fun x _ v => hQ x v

theorem Keeps.bind (h : Keeps svc m v fun
    | .ok a => fun v => Keeps svc (f a) v R
    | .error e => fun v => R (.error e) v) : Keeps svc (m >>= f) v R := by
  refine Task.wp_bind.mpr (Task.wp_mono h fun x _ v hx => ?_)
  cases x with
  | ok a => exact hx
  | error e => exact hx

theorem Keeps.pure {a : α} (h : Q (.ok a) v) : Keeps svc (pure a) v Q := h

theorem Keeps.fail {e : ServiceError} (h : Q (.error e) v) : Keeps svc (Task.fail e) v Q := h

theorem Keeps.ofExcept {x : Except ServiceError α} (h : Q x v) : Keeps svc (Task.ofExcept x) v Q := h

theorem Keeps.await {r : ServiceRequest} {f : ServiceAnswer r → ServiceM β}
    (hr : v.permits svc r) (hf : ∀ a, Keeps svc (f a) (v.observe r a) R) :
    Keeps svc (await r >>= f) v R := ⟨hr, hf⟩

theorem Keeps.attempt {Q : Except ServiceError (Except ServiceError α) → SlotView → Prop}
    (h : Keeps svc m v fun x v => Q (.ok x) v) : Keeps svc m.attempt v Q := Task.wp_attempt.mpr h

theorem Keeps.ite {p : Prop} [Decidable p] {m' : ServiceM α} (h : p → Keeps svc m v Q)
    (h' : ¬ p → Keeps svc m' v Q) : Keeps svc (if p then m else m') v Q := by
  by_cases hp : p
  · rw [if_pos hp]
    exact h hp
  · rw [if_neg hp]
    exact h' hp

/-- The method does not change the view. -/
def Still {α : Type} (svc : AgentService) (m : ServiceM α) (v : SlotView) : Prop :=
  Keeps svc m v fun _ v' => v' = v

theorem Still.bind (h : Still svc m v) (hf : ∀ a, Keeps svc (f a) v R) (he : ∀ e, R (.error e) v) :
    Keeps svc (m >>= f) v R := by
  refine Keeps.bind (h.mono fun x v' hv => ?_)
  subst hv
  cases x with
  | ok a => exact hf a
  | error e => exact he e

/-- Going on with the result, error or not. -/
theorem Still.attempt_bind {f : Except ServiceError α → ServiceM β} (h : Still svc m v)
    (hf : ∀ x, Keeps svc (f x) v R) : Keeps svc (m.attempt >>= f) v R := by
  refine Keeps.bind (Keeps.attempt (h.mono fun x v' hv => ?_))
  subst hv
  exact hf x

end Rules

/-! ### Programs of the harness -/

/-- The discipline as the harness sees it. -/
@[reducible] def harnessSlots (svc : AgentService) : Monitor Answer where
  View := SlotView
  permits v r := v.permits svc (.harness r)
  observe v r a := v.observe (.harness r) a

theorem onHarness_wp {α : Type} {p : Prog Answer α} {Q : α → SlotView → Prop} {v : SlotView} :
    (onHarness p).wp (slots svc).toMonitor Q v ↔ p.wp (harnessSlots svc) Q v := by
  induction p generalizing v with
  | pure a => exact Iff.rfl
  | call r k ih => exact and_congr_right fun _ => forall_congr' fun a => ih a

theorem SlotView.observe_harness {v : SlotView} {r : Request} {a : Answer r} (h : r.creates = none) :
    v.observe (.harness r) a = v := by
  cases r with
  | createRun record checkpoint => cases h
  | _ => rfl

/-- A program that creates no run changes nothing. -/
theorem routine_still {α : Type} {p : Prog Answer α} {v : SlotView} {Q : α → SlotView → Prop} (hv : v.Live)
    (h : p.wp routineOnly (fun _ _ => True) ()) (hQ : ∀ a, Q a v) : p.wp (harnessSlots svc) Q v := by
  induction p with
  | pure a => exact hQ a
  | call r k ih =>
    obtain ⟨hr, hk⟩ := h
    have hr : r.creates = none := Request.creates_of_routine hr
    refine ⟨⟨hv, fun key hkey => ?_⟩, fun a => ?_⟩
    · rw [hr] at hkey
      cases hkey
    · have hobserve : v.observe (.harness r) a = v := SlotView.observe_harness hr
      show (k a).wp (harnessSlots svc) Q (v.observe (.harness r) a)
      rw [hobserve]
      exact ih a (hk a)

/-- Going on with what `recover_run` returns. -/
theorem recoverRunOf_bind {β : Type} {f : Except HarnessError RecoveryDisposition → ServiceM β} (key : RunKey)
    {v : SlotView} {R : Except ServiceError β → SlotView → Prop} (hv : v.Live)
    (hf : ∀ x, Keeps svc (f x) v R) : Keeps svc (recoverRunOf svc key >>= f) v R := by
  refine Keeps.bind (Prog.wp_bind.mpr (onHarness_wp.mpr ?_))
  exact routine_still hv (recoverRun_routine ()) fun p => hf p.1

theorem runRecordFor_key (c : RunContext) (authorization : Option DurableRunAuthorization) :
    (runRecordFor c authorization).key = c.key := by
  cases authorization <;> rfl

/-- `start_run_record` creates the run of its context, or fails. -/
theorem startRun_slots {authorization : Option DurableRunAuthorization} {context : RunContext}
    {v : SlotView} (hv : v.Live) (htarget : v.target = some context.key) :
    Task.wp (harnessSlots svc) (startRun svc.lib svc.harness authorization)
      (fun x _ v' => ∃ created, v' = { v with created := created } ∧
        (x = .ok () → svc.harness.persistence = true → created = some context.runId)) context v := by
  have hrest : ∀ created, (svc.harness.persistence = true → created = some context.runId) →
      Task.wp (harnessSlots svc) _ (fun x _ v' => ∃ created, v' = { v with created := created } ∧
        (x = .ok () → svc.harness.persistence = true → created = some context.runId)) context
          { v with created := created } := fun created hcreated =>
    routine_still hv (started_routine svc.lib svc.harness context) fun p =>
      ⟨created, rfl, fun _ => hcreated⟩
  refine Task.wp_bind.mpr (Task.wp_look_bind.mpr ?_)
  split
  · exact ⟨v.created, rfl, nofun⟩
  split
  · refine Task.wp_pure.mpr (Task.wp_bind.mpr ?_)
    unfold createRun
    by_cases hpersistence : svc.harness.persistence = true
    · rw [if_pos hpersistence]
      refine Task.wp_look_bind.mpr (Task.wp_ask_bind.mpr ⟨⟨hv, fun key hkey => ?_⟩, fun a => ?_⟩)
      · rw [htarget, ← runRecordFor_key context authorization]
        exact hkey
      · cases a with
        | error e => exact ⟨v.created, rfl, nofun⟩
        | ok u =>
          refine hrest _ fun _ => ?_
          rw [runRecordFor_key]
          rfl
    · rw [if_neg hpersistence]
      exact hrest v.created fun h => absurd h hpersistence
  · exact ⟨v.created, rfl, nofun⟩

theorem startRunOf_keeps {authorization : DurableRunAuthorization} {context : RunContext} {v : SlotView}
    (hv : v.Live) (htarget : v.target = some context.key) :
    Keeps svc (startRunOf svc authorization context) v fun x v' =>
      ∃ result c created, x = .ok (result, c) ∧ v' = { v with created := created } ∧
        (result = .ok () → svc.harness.persistence = true → created = some context.runId) := by
  refine Prog.wp_bind.mpr (onHarness_wp.mpr ?_)
  refine Prog.wp_mono (startRun_slots hv htarget) fun p v' hp => ?_
  obtain ⟨created, hv', hcreated⟩ := hp
  exact ⟨p.1, p.2, created, rfl, hv', hcreated⟩

/-! ### Methods that hold no slot, or keep it -/

theorem ensureServing_still {v : SlotView} (hv : v.Live) : Still svc ensureServing v := by
  refine .await ⟨hv, trivial⟩ fun draining => ?_
  cases draining with
  | true => exact .fail rfl
  | false => exact .pure rfl

/-- An audit that fails taints a slot only where the change was committed. -/
theorem auditSecurity_still {principal : PrincipalId} {action : AuthorizationAction}
    {phase : SecurityAuditPhase} {key : Option RunKey} {waitId : Option DurableApprovalWaitId}
    {v : SlotView} (hv : v.Live) (hslot : v.slot = none ∨ phase ≠ .mutationCommitted) :
    Still svc (auditSecurity principal action phase key waitId) v := by
  refine .await ⟨hv, trivial⟩ fun recorded => ?_
  have hsame : v.observe (.audit ⟨phase, principal, action, key.map RunKey.sessionId,
      key.map RunKey.runId, waitId⟩) recorded = v := by
    rcases hslot with hslot | hphase
    · exact SlotView.taint_of_none hslot
    · simp only [SlotView.observe, hphase, decide_false, Bool.and_false]
      exact SlotView.taint_false
  rw [hsame]
  cases recorded with
  | true => exact .pure rfl
  | false => exact .fail rfl

theorem authorizeMutation_still {principal : PrincipalId} {action : AuthorizationAction}
    {resource : AuthorizationResource} {key : Option RunKey} {waitId : Option DurableApprovalWaitId}
    {v : SlotView} (hv : v.Live) : Still svc (authorizeMutation principal action resource key waitId) v := by
  refine .await ⟨hv, trivial⟩ fun granted => ?_
  cases granted with
  | false => exact .fail rfl
  | true =>
    refine Still.bind (auditSecurity_still hv (.inr (by decide))) (fun _ => ?_) fun _ => rfl
    exact auditSecurity_still hv (.inr (by decide))

theorem auditMutationResult_still {α : Type} {principal : PrincipalId} {action : AuthorizationAction}
    {key : Option RunKey} {waitId : Option DurableApprovalWaitId} {result : Except ServiceError α}
    {v : SlotView} (hv : v.Live) (hslot : v.slot = none) :
    Still svc (auditMutationResult principal action key waitId result) v :=
  (auditSecurity_still hv (.inl hslot)).bind (fun _ => .ofExcept rfl) fun _ => rfl

theorem loadSession_still {session : SessionId} {v : SlotView} (hv : v.Live) :
    Still svc (loadSession session) v := by
  refine .await ⟨hv, trivial⟩ fun loaded => ?_
  match loaded with
  | .error e => exact .fail rfl
  | .ok none => exact .fail rfl
  | .ok (some record) => exact .pure rfl

theorem viewForDisposition_still {disposition : RecoveryDisposition} {v : SlotView} (hv : v.Live) :
    Still svc (viewForDisposition svc disposition) v := by
  refine .await ⟨hv, trivial⟩ fun stored => ?_
  cases stored with
  | none => exact .pure rfl
  | some stored => exact .pure rfl

/-- A `find_run` by a call without a slot. -/
theorem observe_findRun {v : SlotView} {key : RunKey}
    {found : Except PersistencePortError (Option DurableRunSummary)} (hslot : v.slot = none) :
    v.observe (.findRun key) found = v := by
  match found with
  | .error e => rfl
  | .ok none => rfl
  | .ok (some summary) => exact SlotView.taint_of_none hslot

theorem runAuthorizationOf_still {key : RunKey} {v : SlotView} (hv : v.Live) (hslot : v.slot = none) :
    Still svc (runAuthorizationOf key) v := by
  refine .await ⟨hv, trivial⟩ fun found => ?_
  rw [observe_findRun hslot]
  exact .ofExcept rfl

/-! ### Starting -/

/-- Giving the slot back. -/
theorem release_keeps {α : Type} {key : RunKey} {m : ServiceM α} {v : SlotView}
    {Q : Except ServiceError α → SlotView → Prop} (hv : v.Live) (hslot : v.slot = some key)
    (h : Keeps svc m { v with slot := none } Q) :
    Keeps svc (do await (.release key.sessionId); m) v Q :=
  .await ⟨hv, key, hslot, rfl⟩ fun _ => h

/-- A call, which may go on without a slot. -/
theorem SlotView.live_of_call {v : SlotView} (h : v.job = false) : v.Live := by
  intro hjob
  rw [h] at hjob
  cases hjob

variable {principal : PrincipalId} {key : RunKey} {workflow : Workflow} {input : List UInt8} {v : SlotView}

theorem startExisting_keeps {workflowId : WorkflowId} {summary : DurableRunSummary}
    (hjob : v.job = false) (hslot : v.slot = some key)
    (htainted : summary.authorization = none → v.tainted = true) :
    Keeps svc (startExisting svc principal key workflowId summary) v fun _ v' => v'.Settled := by
  have hv := SlotView.live_of_call hjob
  unfold startExisting
  cases hauthorization : summary.authorization with
  | none => exact .fail (.inr (htainted hauthorization))
  | some authorization =>
    refine .ite (fun _ => release_keeps hv hslot (.fail (.inl rfl))) fun _ => ?_
    refine Still.attempt_bind ?_ fun result => ?_
    · refine recoverRunOf_bind key hv fun recovered => ?_
      cases recovered with
      | error e => exact .fail rfl
      | ok disposition => exact viewForDisposition_still hv
    · refine release_keeps hv hslot ?_
      refine Keeps.mono (auditMutationResult_still (SlotView.live_of_call hjob) rfl) fun _ v' h => ?_
      exact .inl (h ▸ rfl)

/-- The task is spawned, or the audit of the start has failed. -/
theorem launch_keeps {workflowId : WorkflowId} {context : RunContext} (hjob : v.job = false)
    (hslot : v.slot = some key) (htarget : v.target = some key)
    (hcreated : svc.harness.persistence = true → v.created = some key.runId) :
    Keeps svc (launch principal key workflowId context input) v fun _ v' => v'.Settled := by
  have hv := SlotView.live_of_call hjob
  have hspawn : ∀ view : RunView, Keeps svc (do
      await (.spawn (.run key workflowId context input))
      pure view) v fun _ v' => v'.Settled := fun view =>
    .await ⟨hv, hslot, hjob, htarget, hcreated⟩ fun _ => .pure (.inl rfl)
  refine Keeps.bind (Keeps.bind (.await ⟨hv, trivial⟩ fun recorded => ?_))
  cases recorded with
  | false => exact .fail (.inr (SlotView.tainted_of_slot hslot))
  | true =>
    refine .pure (.ofExcept ?_)
    show Keeps svc _ (v.taint false) _
    rw [SlotView.taint_false]
    refine .await ⟨hv, key, hslot, rfl⟩ fun found => ?_
    cases found with
    | false => exact .fail (.inr (SlotView.tainted_of_slot hslot))
    | true =>
      show Keeps svc _ (v.taint false) _
      rw [SlotView.taint_false]
      refine .await ⟨hv, trivial⟩ fun draining => ?_
      cases draining with
      | true =>
        refine .await ⟨hv, trivial⟩ fun slot => ?_
        show Keeps svc _ v _
        cases slot.filter (·.cancellation) with
        | none => exact hspawn _
        | some slot => exact .await ⟨hv, trivial⟩ fun _ => hspawn _
      | false => exact hspawn _

theorem startNew_keeps (hjob : v.job = false) (hslot : v.slot = some key) (htarget : v.target = some key)
    (hworkflow : validWorkflowId workflow.id.value = true) :
    Keeps svc (startNew svc principal key workflow input) v fun _ v' => v'.Settled := by
  have hv := SlotView.live_of_call hjob
  refine .await ⟨hv, trivial⟩ fun answer => ?_
  obtain ⟨version, fingerprint⟩ := answer
  show Keeps svc _ (v.taint (version = 0)) _
  unfold DurableRunAuthorization.new
  by_cases hversion : version = 0
  · simp only [hversion, decide_true, Bool.true_or, if_true]
    exact .fail (.inr (SlotView.tainted_of_slot hslot))
  · simp only [hversion, decide_false, Bool.false_or, hworkflow, Bool.not_true, Bool.false_eq_true,
      if_false, SlotView.taint_false]
    have hkey : (workflow.newContext key).key = key := workflow.newContext_key key
    refine Keeps.bind (Keeps.mono (startRunOf_keeps hv (by rw [hkey, htarget])) fun x v' hx => ?_)
    obtain ⟨result, context, created, rfl, rfl, hcreated⟩ := hx
    cases result with
    | error e =>
      refine release_keeps (SlotView.live_of_call hjob) hslot ?_
      refine Still.attempt_bind (auditSecurity_still (SlotView.live_of_call hjob) (.inl rfl)) fun _ => ?_
      exact .fail (.inl rfl)
    | ok u =>
      refine launch_keeps hjob hslot htarget fun hpersistence => ?_
      rw [hcreated rfl hpersistence]
      exact congrArg (fun k => some k.runId) hkey

theorem startReserved_keeps (hjob : v.job = false) (hslot : v.slot = some key)
    (htarget : v.target = some key) (hworkflow : validWorkflowId workflow.id.value = true) :
    Keeps svc (startReserved svc principal key workflow input) v fun _ v' => v'.Settled := by
  have hv := SlotView.live_of_call hjob
  refine .await ⟨hv, trivial⟩ fun titled => ?_
  cases titled with
  | error e => exact release_keeps hv hslot (.fail (.inl rfl))
  | ok u =>
    refine .await ⟨hv, trivial⟩ fun found => ?_
    match found with
    | .error e => exact release_keeps hv hslot (.fail (.inl rfl))
    | .ok none => exact startNew_keeps hjob hslot htarget hworkflow
    | .ok (some summary) =>
      refine startExisting_keeps hjob hslot fun hnone => ?_
      simp [SlotView.observe, SlotView.taint, hslot, hnone]

theorem startRun_keeps {session : SessionId} {request : Nat} {workflowId : WorkflowId}
    (hjob : v.job = false) (hslot : v.slot = none)
    (htarget : v.target = some ⟨svc.deriveRunId session request, session⟩) :
    Keeps svc (svc.startRun principal session request workflowId input) v fun _ v' => v'.Settled := by
  have hv := SlotView.live_of_call hjob
  have hfail : v.Settled := .inl hslot
  refine Still.bind (ensureServing_still hv) (fun _ => ?_) fun _ => hfail
  refine .ite (fun _ => .fail hfail) fun hvalid => ?_
  refine Still.bind (loadSession_still hv) (fun record => ?_) fun _ => hfail
  refine .ite (fun _ => .fail hfail) fun _ => ?_
  refine Still.bind (authorizeMutation_still hv) (fun _ => ?_) fun _ => hfail
  cases hworkflow : svc.workflow? workflowId with
  | none => exact .fail hfail
  | some workflow =>
    refine .ite (fun _ => .fail hfail) fun _ => ?_
    refine .await ⟨hv, hslot⟩ fun reservation => ?_
    cases reservation with
    | existing run => exact .pure hfail
    | refused e => exact .fail hfail
    | reserved =>
      refine startReserved_keeps hjob rfl htarget (validWorkflowId_of_isValid ?_)
      have hid : workflow.id = workflowId := by simpa using List.find?_some hworkflow
      rw [hid]
      simpa using hvalid

/-! ### The other methods -/

theorem resumeRun_keeps {waitId : Option DurableApprovalWaitId} (hjob : v.job = false)
    (hslot : v.slot = none) :
    Keeps svc (svc.resumeRun principal key waitId) v fun _ v' => v'.Settled := by
  have hv := SlotView.live_of_call hjob
  have hfail : v.Settled := .inl hslot
  refine Still.bind (ensureServing_still hv) (fun _ => ?_) fun _ => hfail
  refine Still.bind (runAuthorizationOf_still hv hslot) (fun authorization => ?_) fun _ => hfail
  refine Still.bind (authorizeMutation_still hv) (fun _ => ?_) fun _ => hfail
  refine recoverRunOf_bind key hv fun recovered => ?_
  cases recovered with
  | error e => exact .fail hfail
  | ok disposition =>
    refine Keeps.bind (.ofExcept ?_)
    cases resumable svc disposition waitId with
    | error e => exact hfail
    | ok workflowId =>
      refine .await ⟨hv, hslot⟩ fun reservation => ?_
      cases reservation with
      | existing run => exact .fail hfail
      | refused e => exact .fail hfail
      | reserved =>
        refine .await ⟨SlotView.live_of_call hjob, rfl, hjob, trivial⟩ fun _ => ?_
        refine Keeps.mono (auditMutationResult_still (SlotView.live_of_call hjob) rfl) fun _ v' h => ?_
        exact .inl (h ▸ rfl)

theorem cancelActiveRun_keeps (hjob : v.job = false) (hslot : v.slot = none) :
    Keeps svc (cancelActiveRun principal key) v fun _ v' => v'.Settled := by
  have hv := SlotView.live_of_call hjob
  have hfail : v.Settled := .inl hslot
  refine Still.bind (runAuthorizationOf_still hv hslot) (fun authorization => ?_) fun _ => hfail
  refine Still.bind (authorizeMutation_still hv) (fun _ => ?_) fun _ => hfail
  refine .await ⟨hv, trivial⟩ fun slot => ?_
  cases slot with
  | none => exact .fail hfail
  | some slot =>
    refine .ite (fun _ => .fail hfail) fun _ => .await ⟨hv, trivial⟩ fun _ => ?_
    exact Keeps.mono (auditMutationResult_still hv hslot) fun _ v' h => h ▸ hfail

theorem historyDisposition_still (hv : v.Live) : Still svc (historyDisposition svc key) v := by
  refine .await ⟨hv, trivial⟩ fun slot => ?_
  show Keeps svc _ v _
  cases slot.filter (·.key = key) with
  | some active => exact .pure rfl
  | none =>
    refine recoverRunOf_bind key hv fun recovered => ?_
    cases recovered with
    | error e => exact .fail rfl
    | ok disposition => exact Still.bind (viewForDisposition_still hv) (fun _ => .pure rfl) fun _ => rfl

theorem latestDisposition_still {latest : Option DurableRunSummary} (hv : v.Live) :
    Still svc (latestDisposition svc latest) v := by
  cases latest with
  | none => exact .pure rfl
  | some run => exact Still.bind (historyDisposition_still hv) (fun _ => .pure rfl) fun _ => rfl

theorem archiveConversation_keeps {session : SessionId} (hjob : v.job = false) (hslot : v.slot = none) :
    Keeps svc (archiveConversation svc principal session) v fun _ v' => v'.Settled := by
  have hv := SlotView.live_of_call hjob
  have hfail : v.Settled := .inl hslot
  have haudit : ∀ result : Except ServiceError Unit,
      Keeps svc (auditMutationResult principal .archiveSession none none result) v fun _ v' => v'.Settled :=
    fun result => Keeps.mono (auditMutationResult_still hv hslot) fun _ v' h => h ▸ hfail
  refine Still.bind (ensureServing_still hv) (fun _ => ?_) fun _ => hfail
  refine Still.bind (loadSession_still hv) (fun record => ?_) fun _ => hfail
  refine .ite (fun _ => .fail hfail) fun _ => ?_
  refine Still.bind (authorizeMutation_still hv) (fun _ => ?_) fun _ => hfail
  refine .await ⟨hv, trivial⟩ fun slot => .ite (fun _ => haudit _) fun _ => ?_
  refine .await ⟨hv, trivial⟩ fun runs => ?_
  cases runs with
  | error e => exact .fail hfail
  | ok runs =>
    refine Still.bind (latestDisposition_still hv) (fun latest => ?_) fun _ => hfail
    refine .ite (fun _ => haudit _) fun _ => ?_
    refine .await ⟨hv, trivial⟩ fun _ => ?_
    refine Still.bind (auditMutationResult_still hv hslot) (fun _ => ?_) fun _ => hfail
    exact ⟨⟨hv, trivial⟩, fun _ => hfail⟩

theorem createSession_keeps (hjob : v.job = false) (hslot : v.slot = none) :
    Keeps svc (createSession principal) v fun _ v' => v'.Settled := by
  have hv := SlotView.live_of_call hjob
  have hfail : v.Settled := .inl hslot
  refine Still.bind (ensureServing_still hv) (fun _ => ?_) fun _ => hfail
  refine Still.bind (authorizeMutation_still hv) (fun _ => ?_) fun _ => hfail
  refine .await ⟨hv, trivial⟩ fun count => .ite (fun _ => .fail hfail) fun _ => ?_
  refine .await ⟨hv, trivial⟩ fun session => .await ⟨hv, trivial⟩ fun created => ?_
  refine Still.bind (auditMutationResult_still hv hslot) (fun _ => ?_) fun _ => hfail
  exact .await ⟨hv, trivial⟩ fun _ => .pure hfail

/-- Going on with the result of a harness method that creates no run. -/
theorem onHarnessM_bind {α β : Type} {p : Prog Answer α} {f : α → ServiceM β}
    {R : Except ServiceError β → SlotView → Prop} (hv : v.Live)
    (hp : p.wp routineOnly (fun _ _ => True) ()) (hf : ∀ x, Keeps svc (f x) v R) :
    Keeps svc (onHarnessM p >>= f) v R :=
  Keeps.bind (Prog.wp_bind.mpr (onHarness_wp.mpr (routine_still hv hp hf)))

theorem submitDecision_keeps {waitId : DurableApprovalWaitId} {version : Nat}
    {outcome : DurableApprovalOutcome} (hjob : v.job = false) (hslot : v.slot = none) :
    Keeps svc (submitDecision svc principal key waitId version outcome) v fun _ v' => v'.Settled := by
  have hv := SlotView.live_of_call hjob
  have hfail : v.Settled := .inl hslot
  refine Still.bind (ensureServing_still hv) (fun _ => ?_) fun _ => hfail
  refine Still.bind (runAuthorizationOf_still hv hslot) (fun authorization => ?_) fun _ => hfail
  refine Still.bind (authorizeMutation_still hv) (fun _ => ?_) fun _ => hfail
  refine .await ⟨hv, trivial⟩ fun decidedAt => ?_
  cases decidedAt with
  | none => exact .fail hfail
  | some decidedAt =>
    refine onHarnessM_bind hv recordDurableApprovalOutcome_routine fun result => ?_
    exact Keeps.mono (auditMutationResult_still hv hslot) fun _ v' h => h ▸ hfail

theorem abortWaiting_keeps {waitId : DurableApprovalWaitId} {version : Nat} (hjob : v.job = false)
    (hslot : v.slot = none) :
    Keeps svc (abortWaiting svc principal key waitId version) v fun _ v' => v'.Settled := by
  have hv := SlotView.live_of_call hjob
  have hfail : v.Settled := .inl hslot
  refine Still.bind (ensureServing_still hv) (fun _ => ?_) fun _ => hfail
  refine Still.bind (runAuthorizationOf_still hv hslot) (fun authorization => ?_) fun _ => hfail
  refine Still.bind (authorizeMutation_still hv) (fun _ => ?_) fun _ => hfail
  refine onHarnessM_bind hv abortDurableWaiting_routine fun result => ?_
  exact Keeps.mono (auditMutationResult_still hv hslot) fun _ v' h => h ▸ hfail

theorem discoverItems_still {items : List DurableRunSummary} (hv : v.Live) :
    Still svc (discoverItems svc items) v := by
  induction items with
  | nil => exact .pure rfl
  | cons item rest ih =>
    refine recoverRunOf_bind item.key hv fun recovered => ?_
    cases recovered with
    | error e => exact .fail rfl
    | ok disposition =>
      refine Still.bind (viewForDisposition_still hv) (fun view => ?_) fun _ => rfl
      refine .await ⟨hv, trivial⟩ fun _ => ?_
      exact Still.bind ih (fun _ => .pure rfl) fun _ => rfl

theorem discoverPages_still {fuel : Nat} {result : List RunView} {cursor : Option RunId} (hv : v.Live) :
    Still svc (discoverPages svc result cursor fuel) v := by
  induction fuel generalizing result cursor with
  | zero => exact .fail rfl
  | succ fuel ih =>
    refine .await ⟨hv, trivial⟩ fun listed => ?_
    cases listed with
    | error e => exact .fail rfl
    | ok page =>
      refine Still.bind (discoverItems_still hv) (fun views => ?_) fun _ => rfl
      cases page.next with
      | none => exact .pure rfl
      | some cursor => exact .ite (fun _ => .fail rfl) fun _ => ih

theorem waitingItem_still {item : DurableWaitingSummary} (hv : v.Live) (hslot : v.slot = none) :
    Still svc (waitingItem principal item) v := by
  refine Still.attempt_bind (runAuthorizationOf_still hv hslot) fun found => ?_
  cases found with
  | error e => exact .pure rfl
  | ok authorization =>
    exact .await ⟨hv, trivial⟩ fun granted => .ite (fun _ => .pure rfl) fun _ => .pure rfl

theorem waitingItems_still {items : List DurableWaitingSummary} (hv : v.Live) (hslot : v.slot = none) :
    Still svc (waitingItems principal items) v := by
  induction items with
  | nil => exact .pure rfl
  | cons item rest ih =>
    refine Still.bind (waitingItem_still hv hslot) (fun view => ?_) fun _ => rfl
    exact Still.bind ih (fun _ => .pure rfl) fun _ => rfl

theorem waitingPage_still {after : Option WaitingPageCursor} {limit : Nat} (hv : v.Live)
    (hslot : v.slot = none) : Still svc (waitingPage principal after limit) v := by
  refine .ite (fun _ => .fail rfl) fun _ => ?_
  refine .await ⟨hv, trivial⟩ fun granted => .ite (fun _ => ?_) fun _ => .fail rfl
  refine .await ⟨hv, trivial⟩ fun listed => ?_
  cases listed with
  | error e => exact .fail rfl
  | ok page => exact Still.bind (waitingItems_still hv hslot) (fun _ => .pure rfl) fun _ => rfl

/-- A capped count is zero only if the count is. -/
theorem zero_of_capped {n : Nat} (h : min n 65535 = 0) : n = 0 := by omega

/-- `drain` returns only after it has found no active run. -/
theorem drain_keeps (hjob : v.job = false) (hslot : v.slot = none) :
    Keeps svc drain v fun x v' => v'.Settled ∧ ∀ report, x = .ok report → v'.drained = true := by
  have hv := SlotView.live_of_call hjob
  refine .await ⟨hv, trivial⟩ fun _ => .await ⟨hv, trivial⟩ fun _ => .await ⟨hv, trivial⟩ fun _ =>
    .await ⟨hv, trivial⟩ fun finished => ?_
  cases finished with
  | false => exact .fail ⟨.inl hslot, nofun⟩
  | true =>
    refine .await ⟨hv, rfl⟩ fun n => .ite (fun _ => .fail ⟨.inl hslot, nofun⟩) fun hzero => ?_
    refine .pure ⟨.inl hslot, fun report _ => ?_⟩
    refine decide_eq_true (zero_of_capped ?_)
    exact not_not.mp hzero

/-- A task gives its slot back last. -/
theorem body_keeps {task : WorkflowTask} (hslot : v.slot = some task.key) :
    Keeps svc (task.body svc) v fun _ v' => v'.slot = none := by
  have hv : v.Live := fun _ => by rw [hslot]; rfl
  have hrest : ∀ completion, Keeps svc (do
      storeCompletion task.key completion
      let _ ← recoverRunOf svc task.key
      await (.release task.key.sessionId)) v fun _ v' => v'.slot = none := by
    intro completion
    have hrelease : Keeps svc (do
        let _ ← recoverRunOf svc task.key
        await (.release task.key.sessionId)) v fun _ v' => v'.slot = none :=
      recoverRunOf_bind task.key hv fun _ => ⟨⟨hv, task.key, hslot, rfl⟩, fun _ => rfl⟩
    match completion with
    | .ok (.applicationResult result) => exact .await ⟨hv, trivial⟩ fun _ => hrelease
    | .ok .noApplicationResult => exact hrelease
    | .error e => exact hrelease
  unfold WorkflowTask.body WorkflowTask.complete
  split
  · exact hrest _
  · exact .await ⟨hv, trivial⟩ fun _ => hrest _
  · exact .await ⟨hv, trivial⟩ fun _ => hrest _
  · exact .await ⟨hv, trivial⟩ fun _ => hrest _
  · exact hrest _

/-- The outcome of a method that has been run to its end. -/
theorem finishing_wp {α : Type} {m : ServiceM α} {f : Except ServiceError α → ServiceOutcome}
    {Q : ServiceOutcome → SlotView → Prop} (h : Keeps svc m v fun x v => Q (f x) v) :
    (finishing m f).wp (slots svc).toMonitor Q v := Prog.wp_bind.mpr h

/-- **Every method keeps to the discipline**, whatever the ports answer. -/
theorem slots_sound (svc : AgentService) : (slots svc).Sound where
  code c := by
    cases c with
    | startRun principal session request workflowId input =>
      exact finishing_wp ((startRun_keeps rfl rfl rfl).mono fun _ _ h => ⟨h, nofun⟩)
    | resumeRun principal key waitId =>
      exact finishing_wp ((resumeRun_keeps rfl rfl).mono fun _ _ h => ⟨h, nofun⟩)
    | cancelActiveRun principal key =>
      exact finishing_wp ((cancelActiveRun_keeps rfl rfl).mono fun _ _ h => ⟨h, nofun⟩)
    | archiveConversation principal session =>
      exact finishing_wp ((archiveConversation_keeps rfl rfl).mono fun _ _ h => ⟨h, nofun⟩)
    | createSession principal =>
      exact finishing_wp ((createSession_keeps rfl rfl).mono fun _ _ h => ⟨h, nofun⟩)
    | submitDecision principal key waitId version outcome =>
      exact finishing_wp ((submitDecision_keeps rfl rfl).mono fun _ _ h => ⟨h, nofun⟩)
    | abortWaiting principal key waitId version =>
      exact finishing_wp ((abortWaiting_keeps rfl rfl).mono fun _ _ h => ⟨h, nofun⟩)
    | discoverRuns =>
      have hstill : Still svc (discoverRuns svc) ((slots svc).fresh .discoverRuns) :=
        discoverPages_still (SlotView.live_of_call rfl)
      exact finishing_wp (hstill.mono fun _ _ h => ⟨h ▸ .inl rfl, nofun⟩)
    | waitingPage principal after limit =>
      have hstill : Still svc (waitingPage principal after limit)
          ((slots svc).fresh (.waitingPage principal after limit)) :=
        waitingPage_still (SlotView.live_of_call rfl) rfl
      exact finishing_wp (hstill.mono fun _ _ h => ⟨h ▸ .inl rfl, nofun⟩)
    | drain =>
      refine finishing_wp ((drain_keeps rfl rfl).mono fun x v' h => ⟨h.1, fun report hreport => ?_⟩)
      exact h.2 report (ServiceOutcome.drained.inj hreport)
  body v r task _ _ := by
    have hbody : Keeps svc (task.body svc) ((slots svc).heir v task) fun _ v' => v'.slot = none :=
      body_keeps rfl
    show (finishing (task.body svc) fun _ => .ended).wp (slots svc).toMonitor (slots svc).Returns _
    exact finishing_wp (hbody.mono fun _ _ h => ⟨.inl h, nofun⟩)

end LocalAgent
