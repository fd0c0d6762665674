import LocalAgent.Lib.Dialogue
import LocalAgent.Service.Deployed

/-!
# Admitting a mutation (`agent-service/src/lib.rs:571-629`)

Every mutating command goes through `authorize_mutation`: the policy grants it, and the security
audit records the grant and the request. Before that a command only reads. So a command that is
refused there has not changed anything (`refused_mutation_changes_nothing`).
-/
namespace LocalAgent

open Program

/-- The commands that change something. -/
def ServiceCall.mutates : ServiceCall → Bool
  | .discoverRuns | .waitingPage .. | .drain => false
  | _ => true

def ServiceOutcome.isError : ServiceOutcome → Bool
  | .view (.error _) | .done (.error _) | .session (.error _) | .runs (.error _) | .waiting (.error _)
  | .drained (.error _) => true
  | _ => false

/-- The requests that admit a mutation. -/
def ServiceRequest.admits : ServiceRequest → Bool
  | .authorize .. => true
  | .audit event => event.phase = .authorizationGranted || event.phase = .mutationRequested
  | _ => false

/-- The policy denies the mutation, or the audit does not record that it was granted or requested. -/
def ServiceRequest.refuses : (r : ServiceRequest) → ServiceAnswer r → Bool
  | .authorize .., granted => !granted
  | .audit event, recorded =>
    (event.phase = .authorizationGranted || event.phase = .mutationRequested) && !recorded
  | _, _ => false

/-- The request reads and changes nothing that the commands share. -/
def ServiceRequest.reads : ServiceRequest → Bool
  | .lifecycle | .loadSession _ | .findRun _ | .authorize .. | .audit _ => true
  | _ => false

/-- A request that reads leaves the deployment as it is. -/
theorem Deployment.exec_reads {w w' : Deployment} {owner : Nat} {idle : Prop} {r : ServiceRequest}
    {a : ServiceAnswer r} (h : w.exec owner idle r a w') (hr : r.reads = true) : w' = w := by
  obtain ⟨hworld, -, hports⟩ := h
  have hsame : w'.world = w.world → w' = { w with world := w'.world } → w' = w := by
    intro heq hw
    rw [hw, heq]
  cases r with
  | lifecycle => exact hsame hworld.2 hports
  | loadSession session => exact hsame hworld hports
  | findRun key => exact hsame hworld hports
  | authorize principal action resource => exact hsame hworld hports
  | audit event => exact hsame hworld hports
  | _ => cases hr

theorem ServiceRequest.admits_of_refuses {r : ServiceRequest} {a : ServiceAnswer r}
    (h : r.refuses a = true) : r.admits = true := by
  cases r with
  | authorize principal action resource => rfl
  | audit event => exact (Bool.and_eq_true_iff.mp h).1
  | _ => cases h

/-! ## Methods behind the gate -/

/-- If the method is refused, it ends with an error, and has only read. -/
def Gated {α : Type} (m : ServiceM α) : Prop :=
  ∀ d y, (m ()).Returns d (y, ()) → (∃ e ∈ d, e.1.refuses e.2 = true) →
    (∃ error, y = .error error) ∧ ∀ e ∈ d, e.1.reads = true

/-- The method admits nothing. -/
abbrev Ungated {α : Type} (m : ServiceM α) : Prop := m.Only fun r => r.admits = false

/-- The method reads, and admits nothing. -/
abbrev Reading {α : Type} (m : ServiceM α) : Prop := m.Only fun r => r.reads = true ∧ r.admits = false

section Rules

variable {α β : Type} {m : ServiceM α} {f : α → ServiceM β}

theorem Ungated.not_refused {d : Dialogue ServiceAnswer} {y : Except ServiceError α × Unit}
    (h : Ungated m) (hret : (m ()).Returns d y) : ¬ ∃ e ∈ d, e.1.refuses e.2 = true := by
  rintro ⟨e, he, hrefuses⟩
  have hadmits := (h ()).returns hret e he
  rw [ServiceRequest.admits_of_refuses hrefuses] at hadmits
  cases hadmits

theorem Ungated.gated (h : Ungated m) : Gated m := fun _ _ hret hrefused =>
  absurd hrefused (h.not_refused hret)

theorem Reading.ungated (h : Reading m) : Ungated m := by
  have hmono : ∀ p : Prog ServiceAnswer (Except ServiceError α × Unit),
      p.Only (fun r => r.reads = true ∧ r.admits = false) → p.Only fun r => r.admits = false := by
    intro p
    induction p with
    | pure a => exact fun _ => trivial
    | call r k ih => exact fun hp => ⟨hp.1.2, fun a => ih a (hp.2 a)⟩
  exact fun s => hmono _ (h s)

/-- A method that reads first is gated if what follows is. -/
theorem Gated.bind (hm : Reading m) (hf : ∀ a, Gated (f a)) : Gated (m >>= f) := by
  intro d y hret hrefused
  obtain ⟨d₁, d₂, x, s₁, rfl, h₁, h₂⟩ := Task.returns_bind_iff.mp hret
  have hreads : ∀ e ∈ d₁, e.1.reads = true := fun e he => ((hm ()).returns h₁ e he).1
  have hnot := hm.ungated.not_refused h₁
  cases x with
  | error error =>
    obtain ⟨rfl, hy, -⟩ := h₂
    rw [List.append_nil] at hrefused
    exact absurd hrefused hnot
  | ok a =>
    have hrefused₂ : ∃ e ∈ d₂, e.1.refuses e.2 = true := by
      obtain ⟨e, he, hr⟩ := hrefused
      rcases List.mem_append.mp he with he | he
      · exact absurd ⟨e, he, hr⟩ hnot
      · exact ⟨e, he, hr⟩
    obtain ⟨herror, hreads₂⟩ := hf a d₂ y h₂ hrefused₂
    refine ⟨herror, fun e he => ?_⟩
    rcases List.mem_append.mp he with he | he
    · exact hreads e he
    · exact hreads₂ e he

theorem auditSecurity_returns {principal : PrincipalId} {action : AuthorizationAction}
    {phase : SecurityAuditPhase} {key : Option RunKey} {waitId : Option DurableApprovalWaitId}
    {d : Dialogue ServiceAnswer} {y : Except ServiceError Unit}
    (h : (auditSecurity principal action phase key waitId ()).Returns d (y, ())) :
    ∃ event recorded, event.phase = phase ∧ d = [⟨.audit event, recorded⟩] ∧
      y = if recorded then .ok () else .error .securityAudit := by
  obtain ⟨recorded, d', rfl, hrest⟩ := Task.returns_ask_bind_iff.mp h
  refine ⟨_, recorded, rfl, ?_⟩
  cases recorded with
  | true =>
    obtain ⟨rfl, hy⟩ := Task.returns_pure_iff.mp hrest
    exact ⟨rfl, (Prod.mk.inj hy).1⟩
  | false =>
    obtain ⟨rfl, hy⟩ := Task.returns_fail_iff.mp hrest
    exact ⟨rfl, (Prod.mk.inj hy).1⟩

/-- What `authorize_mutation` asks: it goes on exactly when nothing is refused. -/
theorem authorizeMutation_returns {principal : PrincipalId} {action : AuthorizationAction}
    {resource : AuthorizationResource} {key : Option RunKey} {waitId : Option DurableApprovalWaitId}
    {d : Dialogue ServiceAnswer} {y : Except ServiceError Unit}
    (h : (authorizeMutation principal action resource key waitId ()).Returns d (y, ())) :
    (∀ e ∈ d, e.1.reads = true) ∧
      ((y = .ok () ∧ ∃ granted requested, granted.phase = .authorizationGranted ∧
          requested.phase = .mutationRequested ∧
          d = [⟨.authorize principal action resource, true⟩, ⟨.audit granted, true⟩,
            ⟨.audit requested, true⟩]) ∨
        ((∃ error, y = .error error) ∧
          ∀ event, event.phase = .mutationRequested → ⟨.audit event, true⟩ ∉ d)) := by
  obtain ⟨allowed, d', rfl, hrest⟩ := Task.returns_ask_bind_iff.mp h
  cases allowed with
  | false =>
    obtain ⟨rfl, hy⟩ := Task.returns_fail_iff.mp hrest
    refine ⟨by simp [ServiceRequest.reads], Or.inr ⟨⟨_, (Prod.mk.inj hy).1⟩, by simp⟩⟩
  | true =>
    obtain ⟨d₁, d₂, x, s₁, rfl, h₁, h₂⟩ := Task.returns_bind_iff.mp hrest
    obtain ⟨granted, recorded, hgranted, rfl, rfl⟩ := auditSecurity_returns h₁
    cases recorded with
    | false =>
      obtain ⟨rfl, rfl, -⟩ := h₂
      refine ⟨by simp [ServiceRequest.reads], Or.inr ⟨⟨_, rfl⟩, ?_⟩⟩
      intro event hevent
      simp
    | true =>
      obtain ⟨requested, recorded, hrequested, rfl, rfl⟩ := auditSecurity_returns h₂
      cases recorded with
      | false =>
        refine ⟨by simp [ServiceRequest.reads], Or.inr ⟨⟨_, rfl⟩, ?_⟩⟩
        intro event hevent
        have hne : event ≠ granted := by
          rintro rfl
          rw [hgranted] at hevent
          cases hevent
        simp [hne]
      | true =>
        refine ⟨by simp [ServiceRequest.reads], Or.inl ⟨rfl, granted, requested, hgranted, hrequested, ?_⟩⟩
        rfl

/-- A mutation that is admitted goes on with a method that admits nothing. -/
theorem Gated.authorize {principal : PrincipalId} {action : AuthorizationAction}
    {resource : AuthorizationResource} {key : Option RunKey} {waitId : Option DurableApprovalWaitId}
    {f : Unit → ServiceM β} (hf : Ungated (f ())) :
    Gated (authorizeMutation principal action resource key waitId >>= f) := by
  intro d y hret hrefused
  obtain ⟨d₁, d₂, x, s₁, rfl, h₁, h₂⟩ := Task.returns_bind_iff.mp hret
  obtain ⟨hreads, hcases⟩ := authorizeMutation_returns h₁
  rcases hcases with ⟨rfl, granted, requested, -, -, rfl⟩ | ⟨⟨error, rfl⟩, -⟩
  · exfalso
    obtain ⟨e, he, hr⟩ := hrefused
    rcases List.mem_append.mp he with he | he
    · simp only [List.mem_cons, List.not_mem_nil, or_false] at he
      rcases he with rfl | rfl | rfl <;> simp [ServiceRequest.refuses] at hr
    · exact hf.not_refused h₂ ⟨e, he, hr⟩
  · obtain ⟨rfl, rfl, -⟩ := h₂
    rw [List.append_nil]
    exact ⟨⟨error, rfl⟩, hreads⟩

end Rules

/-! ## The commands behind the gate -/

/-- The requests of a command that is admitted. -/
def ServiceRequest.inner : ServiceRequest → Bool
  | .authorize .. | .sessionCount | .insertSession _ => false
  | .audit event => event.phase = .mutationCommitted || event.phase = .mutationFailed
  | _ => true

theorem ServiceRequest.admits_of_inner {r : ServiceRequest} (h : r.inner = true) : r.admits = false := by
  cases r with
  | audit event =>
    simp only [ServiceRequest.inner, Bool.or_eq_true, decide_eq_true_eq] at h
    rcases h with h | h <;> simp [ServiceRequest.admits, h]
  | authorize principal action resource => cases h
  | _ => rfl

/-- The requests of `start_run` after the run is looked up. -/
def ServiceRequest.settles : ServiceRequest → Bool
  | .release _ | .harness _ | .storedResult _ | .attach _ | .lifecycle | .lookup _ | .requestCancel _
  | .spawn _ | .policy => true
  | .audit event => event.phase = .mutationCommitted || event.phase = .mutationFailed
  | _ => false

theorem ServiceRequest.inner_of_settles {r : ServiceRequest} (h : r.settles = true) : r.inner = true := by
  cases r with
  | audit event => exact h
  | _ => first | rfl | cases h

theorem onHarness_only {α : Type} {P : ServiceRequest → Prop} (hP : ∀ r, P (.harness r))
    (p : Prog Answer α) : (onHarness p).Only P := by
  induction p with
  | pure a => trivial
  | call r k ih => exact ⟨hP r, ih⟩

section Commands

variable {svc : AgentService} {principal : PrincipalId} {key : RunKey} {session : SessionId}
  {action : AuthorizationAction} {waitId : Option DurableApprovalWaitId} {input : List UInt8}
  {P : ServiceRequest → Prop}

theorem onHarnessM_only {α : Type} (hP : ∀ r, P (.harness r)) {p : Prog Answer α} :
    (onHarnessM p).Only P := fun _ => (onHarness_only hP p).bind fun _ => trivial

theorem recoverRunOf_only (hP : ∀ r, P (.harness r)) : (recoverRunOf svc key).Only P :=
  fun _ => (onHarness_only hP _).bind fun _ => trivial

theorem startRunOf_only {authorization : DurableRunAuthorization} {context : RunContext}
    (hP : ∀ r, P (.harness r)) : (startRunOf svc authorization context).Only P :=
  fun _ => (onHarness_only hP _).bind fun _ => trivial

theorem ensureServing_only (h : P .lifecycle) : ensureServing.Only P :=
  .bind (.ask h) fun _ => .ite .fail .pure

theorem loadSession_only (h : P (.loadSession session)) : (loadSession session).Only P := by
  refine .bind (.ask h) fun loaded => ?_
  match loaded with
  | .error e => exact .fail
  | .ok none => exact .fail
  | .ok (some record) => exact .pure

theorem runAuthorizationOf_only (h : P (.findRun key)) : (runAuthorizationOf key).Only P :=
  .bind (.ask h) fun _ => .ofExcept

theorem ensureServing_reading : Reading ensureServing := ensureServing_only ⟨rfl, rfl⟩

theorem loadSession_reading : Reading (loadSession session) := loadSession_only ⟨rfl, rfl⟩

theorem runAuthorizationOf_reading : Reading (runAuthorizationOf key) := runAuthorizationOf_only ⟨rfl, rfl⟩

theorem viewForDisposition_only {disposition : RecoveryDisposition} (hP : ∀ key, P (.storedResult key)) :
    (viewForDisposition svc disposition).Only P := by
  refine .bind (.ask (hP _)) fun stored => ?_
  cases stored with
  | none => exact .pure
  | some stored => exact .pure

section Settles

variable (hP : ∀ r : ServiceRequest, r.settles = true → P r)

include hP

/-- The closing records. -/
theorem auditSecurity_only {phase : SecurityAuditPhase} {key : Option RunKey}
    (h : phase = .mutationCommitted ∨ phase = .mutationFailed) :
    (auditSecurity principal action phase key waitId).Only P := by
  refine .bind (.ask (hP _ ?_)) fun _ => .ite .pure .fail
  rcases h with rfl | rfl <;> rfl

theorem auditMutationResult_only {α : Type} {key : Option RunKey} {result : Except ServiceError α} :
    (auditMutationResult principal action key waitId result).Only P := by
  refine .bind (auditSecurity_only hP ?_) fun _ => .ofExcept
  cases result with
  | ok a => exact Or.inl rfl
  | error e => exact Or.inr rfl

theorem startExisting_only {workflowId : WorkflowId} {summary : DurableRunSummary} :
    (startExisting svc principal key workflowId summary).Only P := by
  unfold startExisting
  cases summary.authorization with
  | none => exact .fail
  | some authorization =>
    refine .ite (.bind (.ask (hP _ rfl)) fun _ => .fail) ?_
    refine .bind (.attempt ?_) fun result => .bind (.ask (hP _ rfl)) fun _ => auditMutationResult_only hP
    refine .bind (recoverRunOf_only fun _ => hP _ rfl) fun recovered => ?_
    cases recovered with
    | error e => exact .fail
    | ok disposition => exact viewForDisposition_only fun _ => hP _ rfl

theorem launch_only {workflowId : WorkflowId} {context : RunContext} :
    (launch principal key workflowId context input).Only P := by
  have hspawn : ∀ view : RunView, (do
      await (.spawn (.run key workflowId context input))
      pure view : ServiceM RunView).Only P := fun view => .bind (.ask (hP _ rfl)) fun _ => .pure
  refine .bind (auditMutationResult_only hP) fun _ => ?_
  refine .bind (.ask (hP _ rfl)) fun found => .ite ?_ .fail
  refine .bind (.ask (hP _ rfl)) fun draining => .ite ?_ (hspawn _)
  refine .bind (.ask (hP _ rfl)) fun slot => ?_
  cases slot.filter (·.cancellation) with
  | none => exact hspawn _
  | some slot => exact .bind (.ask (hP _ rfl)) fun _ => hspawn _

theorem startNew_only {workflow : Workflow} : (startNew svc principal key workflow input).Only P := by
  refine .bind (.ask (hP _ rfl)) fun answer => ?_
  obtain ⟨version, fingerprint⟩ := answer
  dsimp only
  cases DurableRunAuthorization.new principal principal workflow.id.value version fingerprint with
  | none => exact .fail
  | some authorization =>
    refine .bind (startRunOf_only fun _ => hP _ rfl) fun started => ?_
    obtain ⟨result, context⟩ := started
    cases result with
    | error e =>
      refine .bind (.ask (hP _ rfl)) fun _ => ?_
      exact .bind (.attempt (auditSecurity_only hP (Or.inr rfl))) fun _ => .fail
    | ok u => exact launch_only hP

end Settles

section Inner

variable (hP : ∀ r : ServiceRequest, r.inner = true → P r)

include hP

theorem startReserved_only {workflow : Workflow} :
    (startReserved svc principal key workflow input).Only P := by
  refine .bind (.ask (hP _ rfl)) fun titled => ?_
  cases titled with
  | error e => exact .bind (.ask (hP _ rfl)) fun _ => .fail
  | ok u =>
    refine .bind (.ask (hP _ rfl)) fun found => ?_
    match found with
    | .error e => exact .bind (.ask (hP _ rfl)) fun _ => .fail
    | .ok none => exact startNew_only fun r hr => hP r (ServiceRequest.inner_of_settles hr)
    | .ok (some summary) => exact startExisting_only fun r hr => hP r (ServiceRequest.inner_of_settles hr)

theorem latestDisposition_only {latest : Option DurableRunSummary} :
    (latestDisposition svc latest).Only P := by
  cases latest with
  | none => exact .pure
  | some run =>
    refine .bind (.bind (.ask (hP _ rfl)) fun slot => ?_) fun _ => .pure
    cases slot.filter (·.key = run.key) with
    | some active => exact .pure
    | none =>
      refine .bind (recoverRunOf_only fun _ => hP _ rfl) fun recovered => ?_
      cases recovered with
      | error e => exact .fail
      | ok disposition => exact .bind (viewForDisposition_only fun _ => hP _ rfl) fun _ => .pure

end Inner

theorem ungated_await {r : ServiceRequest} (h : r.admits = false) : Ungated (await r) := .ask h

theorem auditMutationResult_ungated {α : Type} {key : Option RunKey} {result : Except ServiceError α} :
    Ungated (auditMutationResult principal action key waitId result) :=
  auditMutationResult_only fun _ hr => ServiceRequest.admits_of_inner (ServiceRequest.inner_of_settles hr)

theorem startRun_gated {request : Nat} {workflowId : WorkflowId} :
    Gated (svc.startRun principal session request workflowId input) := by
  refine .bind ensureServing_reading fun _ => ?_
  by_cases hvalid : (!workflowId.isValid) = true
  · rw [if_pos hvalid]
    exact Ungated.gated .fail
  rw [if_neg hvalid]
  refine .bind loadSession_reading fun record => ?_
  by_cases howner : (record.owner ≠ principal || record.archived) = true
  · rw [if_pos howner]
    exact Ungated.gated .fail
  rw [if_neg howner]
  refine .authorize ?_
  cases svc.workflow? workflowId with
  | none => exact .fail
  | some workflow =>
    refine .ite .fail (.bind (ungated_await rfl) fun reservation => ?_)
    cases reservation with
    | existing run => exact .pure
    | refused e => exact .fail
    | reserved => exact startReserved_only fun _ => ServiceRequest.admits_of_inner

theorem resumeRun_gated : Gated (svc.resumeRun principal key waitId) := by
  refine .bind ensureServing_reading fun _ => .bind runAuthorizationOf_reading fun _ => .authorize ?_
  refine .bind (recoverRunOf_only fun _ => rfl) fun recovered => ?_
  cases recovered with
  | error e => exact .fail
  | ok disposition =>
    refine .bind .ofExcept fun workflowId => .bind (ungated_await rfl) fun reservation => ?_
    cases reservation with
    | existing run => exact .fail
    | refused e => exact .fail
    | reserved => exact .bind (ungated_await rfl) fun _ => auditMutationResult_ungated

theorem cancelActiveRun_gated : Gated (cancelActiveRun principal key) := by
  refine .bind runAuthorizationOf_reading fun _ => .authorize ?_
  refine .bind (ungated_await rfl) fun slot => ?_
  cases slot with
  | none => exact .fail
  | some slot => exact .ite .fail (.bind (ungated_await rfl) fun _ => auditMutationResult_ungated)

theorem archiveConversation_gated : Gated (archiveConversation svc principal session) := by
  refine .bind ensureServing_reading fun _ => .bind loadSession_reading fun record => ?_
  by_cases harchived : record.archived = true
  · rw [if_pos harchived]
    exact Ungated.gated .fail
  rw [if_neg harchived]
  refine .authorize (.bind (ungated_await rfl) fun slot => .ite auditMutationResult_ungated ?_)
  refine .bind (ungated_await rfl) fun listed => ?_
  cases listed with
  | error e => exact .fail
  | ok runs =>
    refine .bind (latestDisposition_only fun _ => ServiceRequest.admits_of_inner) fun latest => .ite auditMutationResult_ungated ?_
    refine .bind (ungated_await rfl) fun archived => ?_
    exact .bind auditMutationResult_ungated fun _ => ungated_await rfl

theorem createSession_gated : Gated (createSession principal) := by
  refine .bind ensureServing_reading fun _ => .authorize ?_
  refine .bind (ungated_await rfl) fun count => .ite .fail (.bind (ungated_await rfl) fun session => ?_)
  refine .bind (ungated_await rfl) fun created => .bind auditMutationResult_ungated fun _ => ?_
  exact .bind (ungated_await rfl) fun _ => .pure

theorem submitDecision_gated {wait : DurableApprovalWaitId} {version : Nat}
    {outcome : DurableApprovalOutcome} :
    Gated (submitDecision svc principal key wait version outcome) := by
  refine .bind ensureServing_reading fun _ => .bind runAuthorizationOf_reading fun _ => .authorize ?_
  refine .bind (ungated_await rfl) fun decidedAt => ?_
  cases decidedAt with
  | none => exact .fail
  | some decidedAt => exact .bind (onHarnessM_only fun _ => rfl) fun _ => auditMutationResult_ungated

theorem abortWaiting_gated {wait : DurableApprovalWaitId} {version : Nat} :
    Gated (abortWaiting svc principal key wait version) := by
  refine .bind ensureServing_reading fun _ => .bind runAuthorizationOf_reading fun _ => .authorize ?_
  exact .bind (onHarnessM_only fun _ => rfl) fun _ => auditMutationResult_ungated

end Commands

/-- A gated method that is run to its end. -/
theorem Gated.finishing {α : Type} {m : ServiceM α} {f : Except ServiceError α → ServiceOutcome}
    (h : Gated m) (herror : ∀ e, (f (.error e)).isError = true) {d : Dialogue ServiceAnswer}
    {o : ServiceOutcome} (hret : (finishing m f).Returns d o)
    (hrefused : ∃ e ∈ d, e.1.refuses e.2 = true) :
    o.isError = true ∧ ∀ e ∈ d, e.1.reads = true := by
  obtain ⟨d₁, d₂, ⟨y, u⟩, rfl, h₁, h₂⟩ := Prog.returns_bind_iff.mp hret
  obtain ⟨rfl, rfl⟩ := Prog.returns_pure_iff.mp h₂
  rw [List.append_nil] at hrefused ⊢
  obtain ⟨⟨error, rfl⟩, hreads⟩ := h d₁ y h₁ hrefused
  exact ⟨herror error, hreads⟩

/-- **A mutation that is refused fails and changes nothing**: no request that it made can have changed
the store, the active runs, the sessions or the tokens, whatever went on beside it. -/
theorem refused_mutation_changes_nothing (svc : AgentService) {call : ServiceCall}
    {d : Dialogue ServiceAnswer} {o : ServiceOutcome} (hcall : call.mutates = true)
    (hret : (call.code svc).Returns d o) (hrefused : ∃ e ∈ d, e.1.refuses e.2 = true) :
    o.isError = true ∧ ∀ e ∈ d, ∀ (w w' : Deployment) (owner : Nat) (idle : Prop),
      w.exec owner idle e.1 e.2 w' → w' = w := by
  have hgated : o.isError = true ∧ ∀ e ∈ d, e.1.reads = true := by
    cases call with
    | startRun principal session request workflow input =>
      exact startRun_gated.finishing (fun _ => rfl) hret hrefused
    | resumeRun principal key waitId => exact resumeRun_gated.finishing (fun _ => rfl) hret hrefused
    | cancelActiveRun principal key => exact cancelActiveRun_gated.finishing (fun _ => rfl) hret hrefused
    | archiveConversation principal session =>
      exact archiveConversation_gated.finishing (fun _ => rfl) hret hrefused
    | createSession principal => exact createSession_gated.finishing (fun _ => rfl) hret hrefused
    | submitDecision principal key waitId version outcome =>
      exact submitDecision_gated.finishing (fun _ => rfl) hret hrefused
    | abortWaiting principal key waitId version =>
      exact abortWaiting_gated.finishing (fun _ => rfl) hret hrefused
    | discoverRuns => cases hcall
    | waitingPage principal after limit => cases hcall
    | drain => cases hcall
  exact ⟨hgated.1, fun e he w w' owner idle hexec => Deployment.exec_reads hexec (hgated.2 e he)⟩

/-- The audit does not record the request for a new session. -/
def unauditedSession : Dialogue ServiceAnswer :=
  [⟨.lifecycle, false⟩, ⟨.authorize ⟨"a"⟩ .createSession .global, true⟩,
    ⟨.audit ⟨.authorizationGranted, ⟨"a"⟩, .createSession, none, none, none⟩, true⟩,
    ⟨.audit ⟨.mutationRequested, ⟨"a"⟩, .createSession, none, none, none⟩, false⟩]

theorem unaudited_session_is_not_created :
    ServiceOutcome.isError (.session (.error .securityAudit)) = true ∧
      ∀ e ∈ unauditedSession, ∀ (w w' : Deployment) (owner : Nat) (idle : Prop),
        w.exec owner idle e.1 e.2 w' → w' = w := by
  have hret : ((ServiceCall.createSession ⟨"a"⟩).code sampleService).Returns unauditedSession
      (.session (.error .securityAudit)) := by
    refine Prog.returns_call_iff.mpr ⟨false, _, rfl, ?_⟩
    refine Prog.returns_call_iff.mpr ⟨true, _, rfl, ?_⟩
    refine Prog.returns_call_iff.mpr ⟨true, _, rfl, ?_⟩
    refine Prog.returns_call_iff.mpr ⟨false, _, rfl, ?_⟩
    exact .pure _
  refine refused_mutation_changes_nothing sampleService rfl hret
    ⟨⟨.audit ⟨.mutationRequested, ⟨"a"⟩, .createSession, none, none, none⟩, false⟩, ?_, rfl⟩
  simp only [unauditedSession, List.mem_cons, true_or, or_true]

end LocalAgent
