import LocalAgent.Service.Mutations

/-!
# Closing the account of a mutation (`agent-service/src/lib.rs:631-647`)

A mutation that the audit has recorded as requested should be recorded once more, as committed or as
failed. Some exits of the commands skip that record. `Accountable` says, from the answers that the
command gets, that it takes none of them, and `closed_once_iff_accountable` that these are all.
-/
namespace LocalAgent

open Program

/-- The closing records of a dialogue. -/
def ServiceRequest.closing : ServiceRequest → Option SecurityAuditPhase
  | .audit event =>
    if event.phase = .mutationCommitted || event.phase = .mutationFailed then some event.phase else none
  | _ => none

def closings (d : Dialogue ServiceAnswer) : List SecurityAuditPhase := d.filterMap (·.1.closing)

/-- The record that a result calls for. -/
def closingPhase {α : Type} : Except ServiceError α → SecurityAuditPhase
  | .ok _ => .mutationCommitted
  | .error _ => .mutationFailed

/-- There is one closing record, and it says how the command ends. -/
def ClosedOnce (d : Dialogue ServiceAnswer) (o : ServiceOutcome) : Prop :=
  closings d = [if o.isError then .mutationFailed else .mutationCommitted]

/-- The audit records everything it is asked to. -/
def AllRecorded (d : Dialogue ServiceAnswer) : Prop := ∀ event, ⟨.audit event, false⟩ ∉ d

/-- The audit has recorded that a mutation is requested. -/
def MutationRequested (d : Dialogue ServiceAnswer) : Prop :=
  ∃ event, event.phase = .mutationRequested ∧ ⟨.audit event, true⟩ ∈ d

/-- What the harness was asked during a command. -/
def harnessPart (d : Dialogue ServiceAnswer) : Dialogue Answer :=
  d.filterMap fun
    | ⟨.harness r, a⟩ => some ⟨r, a⟩
    | _ => none

/-! ## The exits that are covered -/

/-- `start_run` goes on after the answer. -/
def startGoesOn (principal : PrincipalId) (workflowId : WorkflowId) :
    (r : ServiceRequest) → ServiceAnswer r → Bool
  | .reserve .., .reserved => true
  | .reserve .., _ => false
  | .setTitleIfAbsent .., titled => titled.isOk
  | .findRun _, .error _ => false
  | .findRun _, .ok none => true
  | .findRun _, .ok (some summary) => summary.authorization.any fun authorization =>
      authorization.owner = principal && authorization.workflowId = workflowId.value
  | .policy, answer => answer.1 ≠ 0
  | .attach _, found => found
  | _, _ => true

/-- The answer does not lead the command to an exit without its record. -/
def ServiceCall.goesOn : ServiceCall → (r : ServiceRequest) → ServiceAnswer r → Bool
  | .createSession _, .sessionCount, count => count < maxSessions
  | .startRun principal _ _ workflowId _, r, a => startGoesOn principal workflowId r a
  | .archiveConversation .., .listSessionRuns .., listed => listed.isOk
  | .cancelActiveRun _ key, .lookup _, slot => slot.any fun slot => slot.key = key && slot.cancellation
  | .submitDecision .., .wallClock, now => now.isSome
  | .resumeRun .., .reserve .., .reserved => true
  | .resumeRun .., .reserve .., _ => false
  | _, _, _ => true

/-- The slot of the run was found. -/
def ServiceRequest.finds (key : RunKey) : (r : ServiceRequest) → ServiceAnswer r → Bool
  | .lookup _, slot => slot.any (·.key = key)
  | _, _ => false

/-- The latest run that was listed. -/
def ServiceRequest.latest : (r : ServiceRequest) → ServiceAnswer r → Option DurableRunSummary
  | .listSessionRuns .., .ok runs => runs.head?
  | _, _ => none

/-- The recovery of a run succeeds in the dialogue, in a disposition that satisfies `p`. -/
def Recovers (svc : AgentService) (d : Dialogue ServiceAnswer) (key : RunKey)
    (p : RecoveryDisposition → Bool) : Prop :=
  ∃ disposition, p disposition = true ∧
    (recoverRun svc.lib svc.harness key ()).Returns (harnessPart d) (.ok disposition, ())

/-- The disposition of the latest run is found. -/
def LatestFound (svc : AgentService) (d : Dialogue ServiceAnswer) : Prop :=
  ∀ run, d.findSome? (fun e => e.1.latest e.2) = some run →
    (∃ e ∈ d, e.1.finds run.key e.2 = true) ∨ Recovers svc d run.key fun _ => true

/-- The command takes an exit that records how it ends. -/
def Accountable (svc : AgentService) (d : Dialogue ServiceAnswer) (call : ServiceCall) : Prop :=
  (∀ e ∈ d, call.goesOn e.1 e.2 = true) ∧ match call with
    | .startRun _ _ _ workflowId input =>
      (svc.workflow? workflowId).any (·.validateInput input) = true
    | .archiveConversation _ _ => LatestFound svc d
    | .resumeRun _ key waitId => Recovers svc d key fun disposition => (resumable svc disposition waitId).isOk
    | _ => True

/-! ## Up to the request -/

/-- The requests that come before the account is opened. -/
def ServiceRequest.opening : ServiceRequest → Bool
  | .lifecycle | .loadSession _ | .findRun _ | .authorize .. => true
  | .audit event => event.phase = .authorizationGranted || event.phase = .mutationRequested
  | _ => false

def ServiceRequest.isAudit : ServiceRequest → Bool
  | .audit _ => true
  | _ => false

theorem ServiceRequest.opening_of_admits {r : ServiceRequest} (h : r.admits = true) : r.opening = true := by
  cases r with
  | audit event => exact h
  | authorize principal action resource => rfl
  | _ => cases h

/-- Once the request is recorded, what is left of the dialogue satisfies `Q`. -/
def Opens {α : Type} (P : ServiceRequest → Prop) (m : ServiceM α)
    (Q : Dialogue ServiceAnswer → Except ServiceError α → Prop) : Prop :=
  ∀ d y, (m ()).Returns d (y, ()) → MutationRequested d →
    ∃ d₁ d₂, d = d₁ ++ d₂ ∧ (∀ e ∈ d₁, P e.1) ∧ Q d₂ y

section Rules

variable {α β : Type} {m : ServiceM α} {f : α → ServiceM β} {P : ServiceRequest → Prop}
  {Q : Dialogue ServiceAnswer → Except ServiceError β → Prop}

theorem not_requested {d : Dialogue ServiceAnswer} (h : ∀ e ∈ d, e.1.isAudit = false) :
    ¬ MutationRequested d := by
  rintro ⟨event, -, hmem⟩
  have haudit : (ServiceRequest.audit event).isAudit = false := h _ hmem
  cases haudit

theorem Opens.bind (hm : m.Only fun r => P r ∧ r.isAudit = false) (hf : ∀ a, Opens P (f a) Q) :
    Opens P (m >>= f) Q := by
  intro d y hret hrequested
  obtain ⟨d₁, d₂, x, s₁, rfl, h₁, h₂⟩ := Task.returns_bind_iff.mp hret
  have honly := (hm ()).returns h₁
  have hquiet : ¬ MutationRequested d₁ := not_requested fun e he => (honly e he).2
  obtain ⟨event, hphase, hmem⟩ := hrequested
  have hmem₂ : ⟨.audit event, true⟩ ∈ d₂ := by
    rcases List.mem_append.mp hmem with hmem | hmem
    · exact absurd ⟨event, hphase, hmem⟩ hquiet
    · exact hmem
  cases x with
  | error e =>
    obtain ⟨rfl, -, -⟩ := h₂
    exact absurd hmem₂ List.not_mem_nil
  | ok a =>
    obtain ⟨d₃, d₄, rfl, hP, hQ⟩ := hf a d₂ y h₂ ⟨event, hphase, hmem₂⟩
    refine ⟨d₁ ++ d₃, d₄, (List.append_assoc ..).symm, fun e he => ?_, hQ⟩
    rcases List.mem_append.mp he with he | he
    · exact (honly e he).1
    · exact hP e he

theorem Opens.mono {Q' : Dialogue ServiceAnswer → Except ServiceError β → Prop} {m : ServiceM β}
    (h : Opens P m Q) (hQ : ∀ d y, Q d y → Q' d y) : Opens P m Q' := by
  intro d y hret hrequested
  obtain ⟨d₁, d₂, hd, hP, hrest⟩ := h d y hret hrequested
  exact ⟨d₁, d₂, hd, hP, hQ d₂ y hrest⟩

theorem Opens.fail {e : ServiceError} : Opens P (Task.fail e) Q := by
  intro d y hret hrequested
  obtain ⟨rfl, -⟩ := Task.returns_fail_iff.mp hret
  exact absurd hrequested (not_requested fun _ he => absurd he List.not_mem_nil)

theorem Opens.ite {p : Prop} [Decidable p] {m' m'' : ServiceM β} (h : p → Opens P m' Q)
    (h' : ¬ p → Opens P m'' Q) : Opens P (if p then m' else m'') Q := by
  by_cases hp : p
  · rw [if_pos hp]
    exact h hp
  · rw [if_neg hp]
    exact h' hp

theorem Opens.authorize {principal : PrincipalId} {action : AuthorizationAction}
    {resource : AuthorizationResource} {key : Option RunKey} {waitId : Option DurableApprovalWaitId}
    {f : Unit → ServiceM β} (hP : ∀ r, r.admits = true → P r)
    (hf : ∀ d y, (f () ()).Returns d (y, ()) → Q d y) :
    Opens P (authorizeMutation principal action resource key waitId >>= f) Q := by
  intro d y hret hrequested
  obtain ⟨d₁, d₂, x, s₁, rfl, h₁, h₂⟩ := Task.returns_bind_iff.mp hret
  obtain ⟨-, hcases⟩ := authorizeMutation_returns h₁
  rcases hcases with ⟨rfl, granted, requested, hgranted, hphase, rfl⟩ | ⟨⟨error, rfl⟩, hnot⟩
  · refine ⟨_, d₂, rfl, ?_, hf d₂ y h₂⟩
    simp only [List.forall_mem_cons, List.not_mem_nil, false_imp_iff, implies_true, and_true]
    refine ⟨hP _ rfl, hP _ ?_, hP _ ?_⟩
    · simp [ServiceRequest.admits, hgranted]
    · simp [ServiceRequest.admits, hphase]
  · obtain ⟨rfl, -, -⟩ := h₂
    obtain ⟨event, hphase, hmem⟩ := hrequested
    rw [List.append_nil] at hmem
    exact absurd hmem (hnot event hphase)

end Rules

/-! ## Closing records of the parts -/

theorem closings_append {d d' : Dialogue ServiceAnswer} : closings (d ++ d') = closings d ++ closings d' :=
  List.filterMap_append

theorem closings_nil_of {d : Dialogue ServiceAnswer} (h : ∀ e ∈ d, e.1.closing = none) : closings d = [] :=
  List.filterMap_eq_nil_iff.mpr h

theorem ServiceRequest.closing_of_opening {r : ServiceRequest} (h : r.opening = true) : r.closing = none := by
  cases r with
  | audit event =>
    simp only [ServiceRequest.opening, Bool.or_eq_true, decide_eq_true_eq] at h
    rcases h with h | h <;> simp [ServiceRequest.closing, h]
  | _ => rfl

/-- A dialogue of the harness, as the service sees it. -/
def onService (d : Dialogue Answer) : Dialogue ServiceAnswer := d.map fun e => ⟨.harness e.1, e.2⟩

theorem onHarness_returns {α : Type} {p : Prog Answer α} {d : Dialogue ServiceAnswer} {a : α}
    (h : (onHarness p).Returns d a) : ∃ mid, p.Returns mid a ∧ d = onService mid := by
  induction p generalizing d with
  | pure b =>
    obtain ⟨rfl, rfl⟩ := Prog.returns_pure_iff.mp h
    exact ⟨[], .pure a, rfl⟩
  | call r k ih =>
    obtain ⟨b, d', rfl, hrest⟩ := Prog.returns_call_iff.mp h
    obtain ⟨mid, hmid, rfl⟩ := ih b hrest
    exact ⟨⟨r, b⟩ :: mid, .call hmid, rfl⟩

theorem onHarnessM_returns {α : Type} {p : Prog Answer α} {d : Dialogue ServiceAnswer}
    {y : Except ServiceError α} (h : (onHarnessM p ()).Returns d (y, ())) :
    ∃ mid a, p.Returns mid a ∧ d = onService mid ∧ y = .ok a := by
  obtain ⟨d₁, d₂, a, rfl, h₁, h₂⟩ := Prog.returns_bind_iff.mp h
  obtain ⟨rfl, hy⟩ := Prog.returns_pure_iff.mp h₂
  obtain ⟨mid, hmid, rfl⟩ := onHarness_returns h₁
  exact ⟨mid, a, hmid, List.append_nil _, (Prod.mk.inj hy).1⟩

theorem recoverRunOf_returns {svc : AgentService} {key : RunKey} {d : Dialogue ServiceAnswer}
    {y : Except ServiceError (Except HarnessError RecoveryDisposition)}
    (h : (recoverRunOf svc key ()).Returns d (y, ())) :
    ∃ mid x, (recoverRun svc.lib svc.harness key ()).Returns mid (x, ()) ∧ d = onService mid ∧ y = .ok x := by
  obtain ⟨d₁, d₂, ⟨x, u⟩, rfl, h₁, h₂⟩ := Prog.returns_bind_iff.mp h
  obtain ⟨rfl, hy⟩ := Prog.returns_pure_iff.mp h₂
  obtain ⟨mid, hmid, rfl⟩ := onHarness_returns h₁
  exact ⟨mid, x, hmid, List.append_nil _, (Prod.mk.inj hy).1⟩

theorem startRunOf_returns {svc : AgentService} {authorization : DurableRunAuthorization} {context : RunContext}
    {d : Dialogue ServiceAnswer} {y : Except ServiceError (Except HarnessError Unit × RunContext)}
    (h : (startRunOf svc authorization context ()).Returns d (y, ())) :
    ∃ x mid, d = onService mid ∧ y = .ok x := by
  obtain ⟨d₁, d₂, x, rfl, h₁, h₂⟩ := Prog.returns_bind_iff.mp h
  obtain ⟨rfl, hy⟩ := Prog.returns_pure_iff.mp h₂
  obtain ⟨mid, -, rfl⟩ := onHarness_returns h₁
  exact ⟨x, mid, List.append_nil _, (Prod.mk.inj hy).1⟩

@[simp] theorem closings_onService {d : Dialogue Answer} : closings (onService d) = [] := by
  refine closings_nil_of fun e he => ?_
  obtain ⟨x, -, rfl⟩ := List.mem_map.mp he
  rfl

@[simp] theorem harnessPart_onService {d : Dialogue Answer} : harnessPart (onService d) = d := by
  unfold harnessPart onService
  rw [List.filterMap_map]
  exact List.filterMap_some

theorem auditMutationResult_returns {α : Type} {principal : PrincipalId} {action : AuthorizationAction}
    {key : Option RunKey} {waitId : Option DurableApprovalWaitId} {result y : Except ServiceError α}
    {d : Dialogue ServiceAnswer}
    (h : (auditMutationResult principal action key waitId result ()).Returns d (y, ())) :
    ∃ event recorded, event.phase = closingPhase result ∧ d = [⟨.audit event, recorded⟩] ∧
      y = if recorded then result else .error .securityAudit := by
  obtain ⟨d₁, d₂, x, s₁, rfl, h₁, h₂⟩ := Task.returns_bind_iff.mp h
  obtain ⟨event, recorded, hphase, rfl, rfl⟩ := auditSecurity_returns h₁
  refine ⟨event, recorded, ?_, ?_⟩
  · rw [hphase]
    cases result <;> rfl
  · cases recorded with
    | true =>
      obtain ⟨rfl, hy⟩ := Task.returns_ofExcept_iff.mp h₂
      exact ⟨rfl, (Prod.mk.inj hy).1⟩
    | false =>
      obtain ⟨rfl, rfl, -⟩ := h₂
      exact ⟨rfl, rfl⟩

/-! ## Accounts -/

/-- The dialogue is closed with its result exactly when every answer satisfies `G`. -/
def Accounts {α : Type} (G : (r : ServiceRequest) → ServiceAnswer r → Bool) (d : Dialogue ServiceAnswer)
    (y : Except ServiceError α) : Prop :=
  AllRecorded d → (closings d = [closingPhase y] ↔ ∀ e ∈ d, G e.1 e.2 = true)

section Accounts

variable {α β : Type} {G : (r : ServiceRequest) → ServiceAnswer r → Bool} {d d' : Dialogue ServiceAnswer}
  {y : Except ServiceError α} {r : ServiceRequest} {a : ServiceAnswer r}

/-- The request closes nothing, and all goes on. -/
def Passes (G : (r : ServiceRequest) → ServiceAnswer r → Bool) (r : ServiceRequest) : Prop :=
  r.closing = none ∧ ∀ a, G r a = true

theorem AllRecorded.of_append (h : AllRecorded (d ++ d')) : AllRecorded d ∧ AllRecorded d' :=
  ⟨fun event hmem => h event (List.mem_append_left _ hmem),
    fun event hmem => h event (List.mem_append_right _ hmem)⟩

theorem AllRecorded.tail {e : (r : ServiceRequest) × ServiceAnswer r} (h : AllRecorded (e :: d)) :
    AllRecorded d := fun event hmem => h event (List.mem_cons_of_mem _ hmem)

theorem closings_cons (h : r.closing = none) : closings (⟨r, a⟩ :: d) = closings d :=
  List.filterMap_cons_none h

theorem Accounts.cons (hclosing : r.closing = none) (hG : G r a = true) (h : Accounts G d y) :
    Accounts G (⟨r, a⟩ :: d) y := by
  intro hall
  rw [closings_cons hclosing, h hall.tail]
  simp [hG]

theorem Accounts.append (hd : ∀ e ∈ d, Passes G e.1) (h : Accounts G d' y) : Accounts G (d ++ d') y := by
  intro hall
  rw [closings_append, closings_nil_of fun e he => (hd e he).1, List.nil_append, h hall.of_append.2]
  have hpass : ∀ e ∈ d, G e.1 e.2 = true := fun e he => (hd e he).2 e.2
  simp only [List.mem_append]
  exact ⟨fun hG e he => he.elim (hpass e) (hG e), fun hG e he => hG e (Or.inr he)⟩

theorem Accounts.append_right {z : Except ServiceError β} (h : Accounts G d y)
    (hd : ∀ e ∈ d', Passes G e.1) (hz : closingPhase z = closingPhase y) : Accounts G (d ++ d') z := by
  intro hall
  have hpass : ∀ e ∈ d', G e.1 e.2 = true := fun e he => (hd e he).2 e.2
  rw [closings_append, closings_nil_of fun e he => (hd e he).1, List.append_nil, hz, h hall.of_append.1]
  simp only [List.mem_append]
  exact ⟨fun hG e he => he.elim (hG e) (hpass e), fun hG e he => hG e (Or.inl he)⟩

/-- An exit without a record. -/
theorem Accounts.exit (hG : G r a = false) (hclosing : r.closing = none) (hd : ∀ e ∈ d, e.1.closing = none) :
    Accounts G (⟨r, a⟩ :: d) y := by
  intro _
  rw [closings_cons hclosing, closings_nil_of hd]
  constructor
  · intro hnil
    cases hnil
  · intro hall
    have hr : G r a = true := hall ⟨r, a⟩ List.mem_cons_self
    rw [hG] at hr
    cases hr

/-- The record of a result. -/
theorem Accounts.audit {principal : PrincipalId} {action : AuthorizationAction} {key : Option RunKey}
    {waitId : Option DurableApprovalWaitId} {result : Except ServiceError α}
    (hG : ∀ event recorded, G (.audit event) recorded = true)
    (h : (auditMutationResult principal action key waitId result ()).Returns d (y, ())) :
    Accounts G d y ∧ (AllRecorded d → y = result) := by
  obtain ⟨event, recorded, hphase, rfl, rfl⟩ := auditMutationResult_returns h
  cases recorded with
  | false =>
    have hnot : ¬ AllRecorded [⟨.audit event, false⟩] := fun hall => hall event List.mem_cons_self
    exact ⟨fun hall => absurd hall hnot, fun hall => absurd hall hnot⟩
  | true =>
    refine ⟨fun _ => ?_, fun _ => rfl⟩
    have hclosing : (ServiceRequest.audit event).closing = some (closingPhase result) := by
      cases result <;> simp [ServiceRequest.closing, hphase, closingPhase]
    have hclosed : closings [⟨.audit event, true⟩] = [closingPhase result] :=
      List.filterMap_cons_some hclosing
    refine ⟨fun _ => ?_, fun _ => hclosed⟩
    simp [hG]

end Accounts

/-! ## The commands -/

section Commands

variable {svc : AgentService} {principal : PrincipalId} {key : RunKey} {session : SessionId}
  {waitId : Option DurableApprovalWaitId} {input : List UInt8} {d : Dialogue ServiceAnswer}

theorem createSession_accounts :
    Opens (fun r => r.opening = true) (createSession principal)
      (Accounts (ServiceCall.goesOn (.createSession principal))) := by
  refine .bind (ensureServing_only ⟨rfl, rfl⟩) fun _ => .authorize (fun _ => ServiceRequest.opening_of_admits) fun d y h => ?_
  obtain ⟨count, d₁, rfl, hrest⟩ := Task.returns_ask_bind_iff.mp h
  by_cases hcount : count ≥ maxSessions
  · rw [if_pos hcount] at hrest
    obtain ⟨rfl, -⟩ := Task.returns_fail_iff.mp hrest
    refine .exit ?_ rfl (by simp)
    exact decide_eq_false (Nat.not_lt.mpr hcount)
  · rw [if_neg hcount] at hrest
    obtain ⟨session, d₂, rfl, hcreate⟩ := Task.returns_ask_bind_iff.mp hrest
    obtain ⟨created, d₃, rfl, haudited⟩ := Task.returns_ask_bind_iff.mp hcreate
    refine .cons rfl (decide_eq_true (Nat.lt_of_not_le hcount)) (.cons rfl rfl (.cons rfl rfl ?_))
    obtain ⟨d₄, d₅, x, s₁, rfl, h₁, h₂⟩ := Task.returns_bind_iff.mp haudited
    have haudit := (Accounts.audit (G := ServiceCall.goesOn (.createSession principal)) (fun _ _ => rfl) h₁).1
    cases x with
    | error e =>
      obtain ⟨rfl, rfl, -⟩ := h₂
      exact haudit.append_right (by simp) rfl
    | ok u =>
      obtain ⟨inserted, d₆, rfl, hdone⟩ := Task.returns_ask_bind_iff.mp h₂
      obtain ⟨rfl, hy⟩ := Task.returns_pure_iff.mp hdone
      obtain ⟨rfl, -⟩ := Prod.mk.inj hy
      refine haudit.append_right ?_ rfl
      simp [Passes, ServiceRequest.closing, ServiceCall.goesOn]

/-! ## Commands that the harness carries out -/

theorem onService_passes {G : (r : ServiceRequest) → ServiceAnswer r → Bool}
    (hG : ∀ r a, G (.harness r) a = true) {mid : Dialogue Answer} : ∀ e ∈ onService mid, Passes G e.1 := by
  intro e he
  obtain ⟨x, -, rfl⟩ := List.mem_map.mp he
  exact ⟨rfl, hG x.1⟩

theorem onHarnessM_accounts {α : Type} {G : (r : ServiceRequest) → ServiceAnswer r → Bool}
    (hharness : ∀ r a, G (.harness r) a = true) (haudit : ∀ event recorded, G (.audit event) recorded = true)
    {p : Prog Answer α} {f : α → Except ServiceError Unit} {action : AuthorizationAction}
    {y : Except ServiceError Unit}
    (h : ((do
      let result ← onHarnessM p
      auditMutationResult principal action (some key) waitId (f result) : ServiceM Unit) ()).Returns d (y, ())) :
    Accounts G d y := by
  obtain ⟨d₁, d₂, x, s₁, rfl, h₁, h₂⟩ := Task.returns_bind_iff.mp h
  obtain ⟨mid, result, -, rfl, rfl⟩ := onHarnessM_returns h₁
  exact .append (onService_passes hharness) (Accounts.audit haudit h₂).1

theorem submitDecision_accounts {wait : DurableApprovalWaitId} {version : Nat}
    {outcome : DurableApprovalOutcome} :
    Opens (fun r => r.opening = true) (submitDecision svc principal key wait version outcome)
      (Accounts (ServiceCall.goesOn (.submitDecision principal key wait version outcome))) := by
  refine .bind (ensureServing_only ⟨rfl, rfl⟩) fun _ => .bind (runAuthorizationOf_only ⟨rfl, rfl⟩) fun authorization => ?_
  refine .authorize (fun _ => ServiceRequest.opening_of_admits) fun d y h => ?_
  obtain ⟨now, d₁, rfl, hrest⟩ := Task.returns_ask_bind_iff.mp h
  cases now with
  | none =>
    obtain ⟨rfl, -⟩ := Task.returns_fail_iff.mp hrest
    exact .exit rfl rfl (by simp)
  | some decidedAt => exact .cons rfl rfl (onHarnessM_accounts (fun _ _ => rfl) (fun _ _ => rfl) hrest)

theorem abortWaiting_accounts {wait : DurableApprovalWaitId} {version : Nat} :
    Opens (fun r => r.opening = true) (abortWaiting svc principal key wait version)
      (Accounts (ServiceCall.goesOn (.abortWaiting principal key wait version))) := by
  refine .bind (ensureServing_only ⟨rfl, rfl⟩) fun _ => .bind (runAuthorizationOf_only ⟨rfl, rfl⟩) fun authorization => ?_
  refine .authorize (fun _ => ServiceRequest.opening_of_admits) fun d y h => ?_
  exact onHarnessM_accounts (fun _ _ => rfl) (fun _ _ => rfl) h

theorem cancelActiveRun_accounts :
    Opens (fun r => r.opening = true) (cancelActiveRun principal key)
      (Accounts (ServiceCall.goesOn (.cancelActiveRun principal key))) := by
  refine .bind (runAuthorizationOf_only ⟨rfl, rfl⟩) fun authorization => ?_
  refine .authorize (fun _ => ServiceRequest.opening_of_admits) fun d y h => ?_
  obtain ⟨slot, d₁, rfl, hrest⟩ := Task.returns_ask_bind_iff.mp h
  cases slot with
  | none =>
    obtain ⟨rfl, -⟩ := Task.returns_fail_iff.mp hrest
    exact .exit rfl rfl (by simp)
  | some slot =>
    dsimp only at hrest
    by_cases hslot : (slot.key ≠ key || !slot.cancellation) = true
    · rw [if_pos hslot] at hrest
      obtain ⟨rfl, -⟩ := Task.returns_fail_iff.mp hrest
      refine .exit ?_ rfl (by simp)
      simp only [Bool.or_eq_true, decide_eq_true_eq, Bool.not_eq_true'] at hslot
      simp only [ServiceCall.goesOn, Option.any_some, Bool.and_eq_false_iff, decide_eq_false_iff_not]
      exact hslot
    · rw [if_neg hslot] at hrest
      obtain ⟨u, d₂, rfl, haudited⟩ := Task.returns_ask_bind_iff.mp hrest
      refine .cons rfl ?_ (.cons rfl rfl (Accounts.audit (fun _ _ => rfl) haudited).1)
      simp only [Bool.or_eq_true, decide_eq_true_eq, Bool.not_eq_true', not_or, not_not,
        Bool.not_eq_false] at hslot
      simp [ServiceCall.goesOn, hslot]

/-! ## Commands that recover a run -/

theorem harnessPart_append {d d' : Dialogue ServiceAnswer} :
    harnessPart (d ++ d') = harnessPart d ++ harnessPart d' := List.filterMap_append

/-- The recovery that a dialogue holds is the one that was run. -/
theorem recovers_iff {p : RecoveryDisposition → Bool} {mid : Dialogue Answer}
    {x : Except HarnessError RecoveryDisposition} (hpart : harnessPart d = mid)
    (hmid : (recoverRun svc.lib svc.harness key ()).Returns mid (x, ())) :
    Recovers svc d key p ↔ ∃ disposition, x = .ok disposition ∧ p disposition = true := by
  constructor
  · rintro ⟨disposition, hp, hret⟩
    rw [hpart] at hret
    exact ⟨disposition, (Prod.mk.inj (hmid.unique hret)).1, hp⟩
  · rintro ⟨disposition, rfl, hp⟩
    exact ⟨disposition, hp, hpart ▸ hmid⟩

/-- `Accounts`, for a command with a condition of its own. -/
def AccountsIf {α : Type} (G : (r : ServiceRequest) → ServiceAnswer r → Bool) (p : Prop)
    (d : Dialogue ServiceAnswer) (y : Except ServiceError α) : Prop :=
  AllRecorded d → (closings d = [closingPhase y] ↔ (∀ e ∈ d, G e.1 e.2 = true) ∧ p)

theorem Accounts.when {α : Type} {G : (r : ServiceRequest) → ServiceAnswer r → Bool} {p : Prop}
    {y : Except ServiceError α} (h : Accounts G d y) (hp : p) : AccountsIf G p d y :=
  fun hall => (h hall).trans (and_iff_left hp).symm

theorem AccountsIf.exit {α : Type} {G : (r : ServiceRequest) → ServiceAnswer r → Bool} {p : Prop}
    {y : Except ServiceError α} (hd : ∀ e ∈ d, e.1.closing = none) (hp : ¬ p) : AccountsIf G p d y := by
  intro _
  rw [closings_nil_of hd]
  exact ⟨nofun, fun h => absurd h.2 hp⟩

theorem resumeRun_accounts :
    Opens (fun r => r.opening = true) (svc.resumeRun principal key waitId) fun d y =>
      AccountsIf (ServiceCall.goesOn (.resumeRun principal key waitId))
        (Recovers svc d key fun disposition => (resumable svc disposition waitId).isOk) d y := by
  refine .bind (ensureServing_only ⟨rfl, rfl⟩) fun _ => .bind (runAuthorizationOf_only ⟨rfl, rfl⟩) fun authorization => ?_
  refine .authorize (fun _ => ServiceRequest.opening_of_admits) fun d y h => ?_
  obtain ⟨d₁, d₂, x, s₁, rfl, h₁, h₂⟩ := Task.returns_bind_iff.mp h
  obtain ⟨mid, recovered, hmid, rfl, rfl⟩ := recoverRunOf_returns h₁
  have hpasses : ∀ e ∈ onService mid, Passes (ServiceCall.goesOn (.resumeRun principal key waitId)) e.1 :=
    onService_passes fun _ _ => rfl
  have hclosing : ∀ e ∈ onService mid, e.1.closing = none := fun e he => (hpasses e he).1
  cases recovered with
  | error e =>
    obtain ⟨rfl, -⟩ := Task.returns_fail_iff.mp h₂
    rw [List.append_nil]
    refine .exit hclosing ?_
    rw [recovers_iff harnessPart_onService hmid]
    simp
  | ok disposition =>
    obtain ⟨d₃, d₄, x, s₂, rfl, h₃, h₄⟩ := Task.returns_bind_iff.mp h₂
    obtain ⟨rfl, hx⟩ := Task.returns_ofExcept_iff.mp h₃
    obtain ⟨rfl, -⟩ := Prod.mk.inj hx
    rw [List.nil_append]
    cases hresumable : resumable svc disposition waitId with
    | error e =>
      rw [hresumable] at h₄
      obtain ⟨rfl, -, -⟩ := h₄
      rw [List.append_nil]
      refine .exit hclosing ?_
      rw [recovers_iff harnessPart_onService hmid]
      simp [hresumable, Except.isOk, Except.toBool]
    | ok workflowId =>
      rw [hresumable] at h₄
      obtain ⟨reservation, d₅, rfl, hrest⟩ := Task.returns_ask_bind_iff.mp h₄
      have haccounts : Accounts (ServiceCall.goesOn (.resumeRun principal key waitId))
          (⟨.reserve .resume key workflowId, reservation⟩ :: d₅) y ∧ harnessPart d₅ = [] := by
        cases reservation with
        | existing run =>
          obtain ⟨rfl, -⟩ := Task.returns_fail_iff.mp hrest
          exact ⟨.exit rfl rfl (by simp), rfl⟩
        | refused e =>
          obtain ⟨rfl, -⟩ := Task.returns_fail_iff.mp hrest
          exact ⟨.exit rfl rfl (by simp), rfl⟩
        | reserved =>
          obtain ⟨u, d₆, rfl, haudited⟩ := Task.returns_ask_bind_iff.mp hrest
          refine ⟨.cons rfl rfl (.cons rfl rfl (Accounts.audit (fun _ _ => rfl) haudited).1), ?_⟩
          obtain ⟨event, recorded, -, rfl, -⟩ := auditMutationResult_returns haudited
          rfl
      refine (Accounts.append hpasses haccounts.1).when ?_
      have hpart : harnessPart (onService mid ++ ⟨.reserve .resume key workflowId, reservation⟩ :: d₅) = mid := by
        rw [harnessPart_append, harnessPart_onService]
        change mid ++ harnessPart d₅ = mid
        rw [haccounts.2, List.append_nil]
      rw [recovers_iff hpart hmid]
      exact ⟨disposition, rfl, by rw [hresumable]; rfl⟩

theorem recovers_congr {d d' : Dialogue ServiceAnswer} {p : RecoveryDisposition → Bool}
    (h : harnessPart d = harnessPart d') : Recovers svc d key p ↔ Recovers svc d' key p := by
  unfold Recovers
  rw [h]

/-! ### The latest run of a conversation -/

/-- The requests of the look at a run. -/
def ServiceRequest.looks : ServiceRequest → Bool
  | .harness _ | .lookup _ | .storedResult _ => true
  | _ => false

/-- The requests of the end of `archive_conversation`. -/
def ServiceRequest.archives : ServiceRequest → Bool
  | .archiveSession .. | .removeSession _ | .audit _ => true
  | _ => false

theorem passes_of_looks {r : ServiceRequest} (h : r.looks = true) :
    Passes (ServiceCall.goesOn (.archiveConversation principal session)) r := by
  cases r <;> first | exact ⟨rfl, fun _ => rfl⟩ | cases h

theorem closing_of_looks {r : ServiceRequest} (h : r.looks = true) : r.closing = none := by
  cases r <;> first | rfl | cases h

theorem latest_of_looks {r : ServiceRequest} (h : r.looks = true) (a : ServiceAnswer r) : r.latest a = none := by
  cases r <;> first | rfl | cases h

theorem quiet_of_archives {r : ServiceRequest} (h : r.archives = true) (a : ServiceAnswer r) :
    r.latest a = none ∧ ∀ key, r.finds key a = false := by
  cases r <;> first | exact ⟨rfl, fun _ => rfl⟩ | cases h

theorem harnessPart_archives {d : Dialogue ServiceAnswer} (h : ∀ e ∈ d, e.1.archives = true) :
    harnessPart d = [] := by
  refine List.filterMap_eq_nil_iff.mpr fun e he => ?_
  have hr := h e he
  obtain ⟨r, a⟩ := e
  cases r <;> first | rfl | cases hr

theorem viewForDisposition_returns {disposition : RecoveryDisposition} {y : Except ServiceError RunView}
    (h : (viewForDisposition svc disposition ()).Returns d (y, ())) :
    ∃ key stored view, d = [⟨.storedResult key, stored⟩] ∧ y = .ok view := by
  obtain ⟨stored, d₁, rfl, hview⟩ := Task.returns_ask_bind_iff.mp h
  cases stored with
  | none =>
    obtain ⟨rfl, hv⟩ := Task.returns_pure_iff.mp hview
    exact ⟨_, _, _, rfl, (Prod.mk.inj hv).1⟩
  | some stored =>
    obtain ⟨rfl, hv⟩ := Task.returns_pure_iff.mp hview
    exact ⟨_, _, _, rfl, (Prod.mk.inj hv).1⟩

/-- A run that is not active is looked at by recovering it. -/
theorem historyRecovered_returns {x : Except ServiceError RunDisposition}
    (h : ((do
      match ← recoverRunOf svc key with
      | .error e => Task.fail (.harness e)
      | .ok disposition => do
        return (← viewForDisposition svc disposition).disposition : ServiceM RunDisposition) ()).Returns d
          (x, ())) :
    (∀ e ∈ d, e.1.looks = true ∧ e.1.finds key e.2 = false) ∧
      ((∃ disposition, x = .ok disposition) ↔ Recovers svc d key fun _ => true) := by
  obtain ⟨d₁, d₂, x₁, s₁, rfl, h₁, h₂⟩ := Task.returns_bind_iff.mp h
  obtain ⟨mid, recovered, hmid, rfl, rfl⟩ := recoverRunOf_returns h₁
  have hmem : ∀ e ∈ onService mid, e.1.looks = true ∧ e.1.finds key e.2 = false := by
    intro e he
    obtain ⟨y, -, rfl⟩ := List.mem_map.mp he
    exact ⟨rfl, rfl⟩
  cases recovered with
  | error e =>
    obtain ⟨rfl, hx⟩ := Task.returns_fail_iff.mp h₂
    obtain ⟨rfl, -⟩ := Prod.mk.inj hx
    rw [List.append_nil]
    refine ⟨hmem, ?_⟩
    rw [recovers_iff harnessPart_onService hmid]
    simp
  | ok disposition =>
    obtain ⟨d₃, d₄, view, s₂, rfl, h₃, h₄⟩ := Task.returns_bind_iff.mp h₂
    obtain ⟨stored, answer, view, rfl, rfl⟩ := viewForDisposition_returns h₃
    obtain ⟨rfl, hx⟩ := Task.returns_pure_iff.mp h₄
    obtain ⟨rfl, -⟩ := Prod.mk.inj hx
    refine ⟨List.forall_mem_append.mpr ⟨hmem, by simp [ServiceRequest.looks, ServiceRequest.finds]⟩, ?_⟩
    have hpart : harnessPart (onService mid ++ ([⟨.storedResult stored, answer⟩] ++ [])) = mid := by
      rw [harnessPart_append, harnessPart_onService]
      exact List.append_nil mid
    rw [recovers_iff hpart hmid]
    simp

theorem historyDisposition_returns {x : Except ServiceError RunDisposition}
    (h : (historyDisposition svc key ()).Returns d (x, ())) :
    (∀ e ∈ d, e.1.looks = true) ∧ ((∃ disposition, x = .ok disposition) ↔
        (∃ e ∈ d, e.1.finds key e.2 = true) ∨ Recovers svc d key fun _ => true) := by
  obtain ⟨slot, d₁, rfl, hrest⟩ := Task.returns_ask_bind_iff.mp h
  have hfinds : ServiceRequest.finds key (.lookup key.sessionId) slot =
      (slot.filter (·.key = key)).isSome := by
    cases slot with
    | none => rfl
    | some slot => by_cases hkey : slot.key = key <;> simp [ServiceRequest.finds, hkey]
  cases hslot : slot.filter (·.key = key) with
  | some active =>
    rw [hslot] at hrest hfinds
    obtain ⟨rfl, hx⟩ := Task.returns_pure_iff.mp hrest
    obtain ⟨rfl, -⟩ := Prod.mk.inj hx
    refine ⟨by simp [ServiceRequest.looks], ?_⟩
    simp [hfinds]
  | none =>
    rw [hslot] at hrest hfinds
    obtain ⟨hlooks, hresult⟩ := historyRecovered_returns hrest
    refine ⟨List.forall_mem_cons.mpr ⟨rfl, fun e he => (hlooks e he).1⟩, ?_⟩
    have hnot : ¬ ∃ e ∈ (⟨.lookup key.sessionId, slot⟩ :: d₁ : Dialogue ServiceAnswer),
        e.1.finds key e.2 = true := by
      rintro ⟨e, he, hfound⟩
      rcases List.mem_cons.mp he with rfl | he
      · rw [hfinds] at hfound
        cases hfound
      · rw [(hlooks e he).2] at hfound
        cases hfound
    rw [hresult, or_iff_right hnot]
    exact Iff.rfl

/-- How the look at the latest run ends. -/
theorem latestDisposition_returns {latest : Option DurableRunSummary}
    {x : Except ServiceError (Option RunDisposition)}
    (h : (latestDisposition svc latest ()).Returns d (x, ())) :
    (∀ e ∈ d, e.1.looks = true) ∧ ((∃ disposition, x = .ok disposition) ↔ ∀ run, latest = some run →
      (∃ e ∈ d, e.1.finds run.key e.2 = true) ∨ Recovers svc d run.key fun _ => true) := by
  cases latest with
  | none =>
    obtain ⟨rfl, hx⟩ := Task.returns_pure_iff.mp h
    obtain ⟨rfl, -⟩ := Prod.mk.inj hx
    exact ⟨by simp, by simp⟩
  | some run =>
    obtain ⟨d₁, d₂, x₁, s₁, rfl, h₁, h₂⟩ := Task.returns_bind_iff.mp h
    obtain ⟨hlooks, hresult⟩ := historyDisposition_returns h₁
    simp only [Option.some.injEq, forall_eq']
    cases x₁ with
    | error e =>
      obtain ⟨rfl, rfl, -⟩ := h₂
      rw [List.append_nil]
      refine ⟨hlooks, ?_⟩
      rw [← hresult]
      simp
    | ok disposition =>
      obtain ⟨rfl, hx⟩ := Task.returns_pure_iff.mp h₂
      obtain ⟨rfl, -⟩ := Prod.mk.inj hx
      rw [List.append_nil]
      refine ⟨hlooks, ?_⟩
      rw [← hresult]
      simp

/-- The end of `archive_conversation`, once the latest run is looked at. -/
theorem archiveEnd_accounts {latest : Option RunDisposition} {y : Except ServiceError Unit}
    (h : ((if latest.any RunDisposition.isOpen then
        auditMutationResult principal .archiveSession none none (.error .conflict)
      else do
        let result := (← await (.archiveSession session principal)).mapError .identityStore
        auditMutationResult principal .archiveSession none none result
        await (.removeSession session) : ServiceM Unit) ()).Returns d (y, ())) :
    Accounts (ServiceCall.goesOn (.archiveConversation principal session)) d y ∧
      ∀ e ∈ d, e.1.archives = true := by
  by_cases hopen : latest.any RunDisposition.isOpen = true
  · rw [if_pos hopen] at h
    obtain ⟨event, recorded, -, rfl, -⟩ := auditMutationResult_returns h
    exact ⟨(Accounts.audit (fun _ _ => rfl) h).1, by simp [ServiceRequest.archives]⟩
  · rw [if_neg hopen] at h
    obtain ⟨archived, d₁, rfl, hrest⟩ := Task.returns_ask_bind_iff.mp h
    obtain ⟨d₂, d₃, x, s₁, rfl, h₂, h₃⟩ := Task.returns_bind_iff.mp hrest
    have haudit : Accounts (ServiceCall.goesOn (.archiveConversation principal session)) d₂ x :=
      (Accounts.audit (fun _ _ => rfl) h₂).1
    obtain ⟨event, recorded, -, rfl, -⟩ := auditMutationResult_returns h₂
    cases x with
    | error e =>
      obtain ⟨rfl, rfl, -⟩ := h₃
      exact ⟨.cons rfl rfl (haudit.append_right (by simp) rfl), by simp [ServiceRequest.archives]⟩
    | ok u =>
      obtain ⟨removed, d₄, rfl, hdone⟩ := Prog.returns_call_iff.mp h₃
      obtain ⟨rfl, hy⟩ := Prog.returns_pure_iff.mp hdone
      obtain ⟨rfl, -⟩ := Prod.mk.inj hy
      refine ⟨.cons rfl rfl (haudit.append_right ?_ rfl), by simp [ServiceRequest.archives]⟩
      simp [Passes, ServiceRequest.closing, ServiceCall.goesOn]

/-- The latest run of the whole dialogue is the one of the listing. -/
theorem latestFound_iff {runs : List DurableRunSummary} {limit : Nat} {d d' : Dialogue ServiceAnswer}
    (hd : ∀ e ∈ d, e.1.looks = true) (hd' : ∀ e ∈ d', e.1.archives = true) :
    LatestFound svc (⟨.lookup session, none⟩ :: ⟨.listSessionRuns session limit, .ok runs⟩ :: (d ++ d')) ↔
      ∀ run, runs.head? = some run →
        (∃ e ∈ d, e.1.finds run.key e.2 = true) ∨ Recovers svc d run.key fun _ => true := by
  have hnone : (d ++ d').findSome? (fun e => e.1.latest e.2) = none := by
    rw [List.findSome?_eq_none_iff]
    intro e he
    rcases List.mem_append.mp he with he | he
    · exact latest_of_looks (hd e he) e.2
    · exact (quiet_of_archives (hd' e he) e.2).1
  have hlatest : (⟨.lookup session, none⟩ :: ⟨.listSessionRuns session limit, .ok runs⟩ :: (d ++ d') :
      Dialogue ServiceAnswer).findSome? (fun e => e.1.latest e.2) = runs.head? := by
    rw [List.findSome?_cons_of_isNone rfl]
    cases hhead : runs.head? with
    | none => rw [List.findSome?_cons_of_isNone (by simp [ServiceRequest.latest, hhead]), hnone]
    | some run =>
      rw [List.findSome?_cons_of_isSome (by simp [ServiceRequest.latest, hhead])]
      exact hhead
  unfold LatestFound
  rw [hlatest]
  refine forall_congr' fun run => imp_congr_right fun _ => or_congr ?_ ?_
  · have hlookup : (ServiceRequest.lookup session).finds run.key none = false := rfl
    have hlist : (ServiceRequest.listSessionRuns session limit).finds run.key (.ok runs) = false := rfl
    have harchive : ∀ e ∈ d', e.1.finds run.key e.2 = false := fun e he =>
      (quiet_of_archives (hd' e he) e.2).2 run.key
    constructor
    · rintro ⟨e, he, hfound⟩
      simp only [List.mem_cons, List.mem_append] at he
      rcases he with rfl | rfl | he | he
      · cases hlookup.symm.trans hfound
      · cases hlist.symm.trans hfound
      · exact ⟨e, he, hfound⟩
      · cases (harchive e he).symm.trans hfound
    · rintro ⟨e, he, hfound⟩
      exact ⟨e, by simp [he], hfound⟩
  · refine recovers_congr ?_
    change harnessPart (d ++ d') = _
    rw [harnessPart_append, harnessPart_archives hd', List.append_nil]

theorem archiveConversation_accounts :
    Opens (fun r => r.opening = true) (archiveConversation svc principal session) fun d y =>
      AccountsIf (ServiceCall.goesOn (.archiveConversation principal session)) (LatestFound svc d) d y := by
  refine .bind (ensureServing_only ⟨rfl, rfl⟩) fun _ => .bind (loadSession_only ⟨rfl, rfl⟩) fun record => ?_
  refine .ite (fun _ => .fail) fun _ => ?_
  refine .authorize (fun _ => ServiceRequest.opening_of_admits) fun d y h => ?_
  obtain ⟨slot, d₁, rfl, hrest⟩ := Task.returns_ask_bind_iff.mp h
  cases slot with
  | some slot =>
    rw [if_pos Option.isSome_some] at hrest
    refine Accounts.when (.cons rfl rfl (Accounts.audit (fun _ _ => rfl) hrest).1) ?_
    obtain ⟨event, recorded, -, rfl, -⟩ := auditMutationResult_returns hrest
    exact nofun
  | none =>
    obtain ⟨listed, d₂, rfl, hlisted⟩ := Task.returns_ask_bind_iff.mp hrest
    cases listed with
    | error e =>
      obtain ⟨rfl, -⟩ := Task.returns_fail_iff.mp hlisted
      refine Accounts.when (.cons rfl rfl (.exit rfl rfl (by simp))) ?_
      exact nofun
    | ok runs =>
      obtain ⟨d₃, d₄, x, s₁, rfl, h₃, h₄⟩ := Task.returns_bind_iff.mp hlisted
      obtain ⟨hlooks, hlatest⟩ := latestDisposition_returns h₃
      cases x with
      | error e =>
        obtain ⟨rfl, rfl, -⟩ := h₄
        refine .exit ?_ ?_
        · rw [List.append_nil]
          exact List.forall_mem_cons.mpr ⟨rfl, List.forall_mem_cons.mpr
            ⟨rfl, fun e he => closing_of_looks (hlooks e he)⟩⟩
        · rw [latestFound_iff hlooks (by simp), ← hlatest]
          simp
      | ok latest =>
        obtain ⟨haccounts, harchives⟩ := archiveEnd_accounts h₄
        refine Accounts.when (.cons rfl rfl (.cons rfl rfl (.append ?_ haccounts))) ?_
        · exact fun e he => passes_of_looks (hlooks e he)
        · rw [latestFound_iff hlooks harchives]
          exact hlatest.mp ⟨latest, rfl⟩

/-! ### Starting a run -/

theorem spawned_returns {task : WorkflowTask} {view : RunView} {y : Except ServiceError RunView}
    (h : ((do
      await (.spawn task)
      pure view : ServiceM RunView) ()).Returns d (y, ())) : d = [⟨.spawn task, ()⟩] ∧ y = .ok view := by
  obtain ⟨u, d₁, rfl, hdone⟩ := Task.returns_ask_bind_iff.mp h
  obtain ⟨rfl, hy⟩ := Task.returns_pure_iff.mp hdone
  exact ⟨rfl, (Prod.mk.inj hy).1⟩

/-- A start that is committed goes on if its slot is still there. -/
theorem launch_accounts {owner : PrincipalId} {workflowId id : WorkflowId} {context : RunContext}
    {y : Except ServiceError RunView}
    (h : (launch principal key workflowId context input ()).Returns d (y, ())) :
    Accounts (startGoesOn owner id) d y := by
  obtain ⟨d₁, d₂, x, s₁, rfl, h₁, h₂⟩ := Task.returns_bind_iff.mp h
  obtain ⟨event, recorded, hphase, rfl, rfl⟩ := auditMutationResult_returns h₁
  cases recorded with
  | false => exact fun hall => absurd List.mem_cons_self (hall event)
  | true =>
    have hclosed : closings [⟨.audit event, true⟩] = [.mutationCommitted] := by
      refine List.filterMap_cons_some ?_
      simp [ServiceRequest.closing, hphase, closingPhase]
    obtain ⟨found, d₃, rfl, h₃⟩ := Task.returns_ask_bind_iff.mp h₂
    intro _
    rw [closings_append, hclosed, closings_cons rfl]
    cases found with
    | false =>
      obtain ⟨rfl, hy⟩ := Task.returns_fail_iff.mp h₃
      obtain ⟨rfl, -⟩ := Prod.mk.inj hy
      simp [closings, closingPhase, startGoesOn]
    | true =>
      obtain ⟨draining, d₄, rfl, h₄⟩ := Task.returns_ask_bind_iff.mp h₃
      have hend : (∀ e ∈ d₄, Passes (startGoesOn owner id) e.1) ∧ ∃ view, y = .ok view := by
        cases draining with
        | false =>
          obtain ⟨rfl, rfl⟩ := spawned_returns h₄
          exact ⟨by simp [Passes, ServiceRequest.closing, startGoesOn], _, rfl⟩
        | true =>
          obtain ⟨slot, d₅, rfl, h₅⟩ := Task.returns_ask_bind_iff.mp h₄
          cases hslot : slot.filter (·.cancellation) with
          | none =>
            rw [hslot] at h₅
            obtain ⟨rfl, rfl⟩ := spawned_returns h₅
            exact ⟨by simp [Passes, ServiceRequest.closing, startGoesOn], _, rfl⟩
          | some slot =>
            rw [hslot] at h₅
            obtain ⟨u, d₆, rfl, h₆⟩ := Task.returns_ask_bind_iff.mp h₅
            obtain ⟨rfl, rfl⟩ := spawned_returns h₆
            exact ⟨by simp [Passes, ServiceRequest.closing, startGoesOn], _, rfl⟩
      obtain ⟨hpasses, view, rfl⟩ := hend
      have hrest : ∀ e ∈ d₄, startGoesOn owner id e.1 e.2 = true := fun e he => (hpasses e he).2 e.2
      rw [closings_cons rfl, closings_nil_of fun e he => (hpasses e he).1]
      simp only [closingPhase, List.cons_append, List.nil_append, List.forall_mem_cons, true_iff]
      exact ⟨rfl, rfl, rfl, hrest⟩

theorem DurableRunAuthorization.new_eq_none_iff {owner requester : PrincipalId} {id : WorkflowId}
    {version : Nat} {fingerprint : Bytes32} (hid : id.isValid = true) :
    DurableRunAuthorization.new owner requester id.value version fingerprint = none ↔ version = 0 := by
  unfold DurableRunAuthorization.new
  simp [validWorkflowId_of_isValid hid]

theorem startNew_accounts {workflow : Workflow} {y : Except ServiceError RunView}
    (hid : workflow.id.isValid = true)
    (h : (startNew svc principal key workflow input ()).Returns d (y, ())) :
    Accounts (startGoesOn principal workflow.id) d y := by
  obtain ⟨⟨version, fingerprint⟩, d₁, rfl, h₁⟩ := Task.returns_ask_bind_iff.mp h
  dsimp only at h₁
  cases hnew : DurableRunAuthorization.new principal principal workflow.id.value version fingerprint with
  | none =>
    rw [hnew] at h₁
    obtain ⟨rfl, -⟩ := Task.returns_fail_iff.mp h₁
    refine .exit ?_ rfl (by simp)
    simp [startGoesOn, (DurableRunAuthorization.new_eq_none_iff hid).mp hnew]
  | some authorization =>
    have hversion : version ≠ 0 := by
      intro hzero
      rw [(DurableRunAuthorization.new_eq_none_iff hid).mpr hzero] at hnew
      cases hnew
    rw [hnew] at h₁
    refine .cons rfl (by simp [startGoesOn, hversion]) ?_
    obtain ⟨d₂, d₃, x, s₁, rfl, h₂, h₃⟩ := Task.returns_bind_iff.mp h₁
    obtain ⟨⟨result, context⟩, mid, rfl, rfl⟩ := startRunOf_returns h₂
    refine .append (onService_passes fun _ _ => rfl) ?_
    cases result with
    | ok u => exact launch_accounts h₃
    | error e =>
      obtain ⟨released, d₄, rfl, h₄⟩ := Task.returns_ask_bind_iff.mp h₃
      obtain ⟨d₅, d₆, x, s₂, rfl, h₅, h₆⟩ := Task.returns_bind_iff.mp h₄
      obtain ⟨x, rfl, haudited⟩ := Task.returns_attempt_iff.mp h₅
      obtain ⟨event, recorded, hphase, rfl, -⟩ := auditSecurity_returns haudited
      obtain ⟨rfl, hy⟩ := Task.returns_fail_iff.mp h₆
      obtain ⟨rfl, -⟩ := Prod.mk.inj hy
      refine .cons rfl rfl fun _ => ?_
      have hclosed : closings [⟨.audit event, recorded⟩] = [.mutationFailed] := by
        refine List.filterMap_cons_some ?_
        simp [ServiceRequest.closing, hphase]
      rw [List.append_nil, hclosed]
      simp [closingPhase, startGoesOn]

theorem startExisting_accounts {workflowId : WorkflowId} {summary : DurableRunSummary}
    {y : Except ServiceError RunView}
    (h : (startExisting svc principal key workflowId summary ()).Returns d (y, ())) :
    Accounts (startGoesOn principal workflowId) (⟨.findRun key, .ok (some summary)⟩ :: d) y := by
  unfold startExisting at h
  cases hauthorization : summary.authorization with
  | none =>
    rw [hauthorization] at h
    obtain ⟨rfl, -⟩ := Task.returns_fail_iff.mp h
    exact .exit (by simp [startGoesOn, hauthorization]) rfl (by simp)
  | some authorization =>
    rw [hauthorization] at h
    dsimp only at h
    by_cases hother : (authorization.owner ≠ principal || authorization.workflowId ≠ workflowId.value) = true
    · rw [if_pos hother] at h
      obtain ⟨released, d₁, rfl, h₁⟩ := Task.returns_ask_bind_iff.mp h
      obtain ⟨rfl, -⟩ := Task.returns_fail_iff.mp h₁
      refine .exit ?_ rfl (by simp [ServiceRequest.closing])
      simpa [startGoesOn, hauthorization, or_iff_not_imp_left] using hother
    · rw [if_neg hother] at h
      refine .cons rfl ?_ ?_
      · simpa [startGoesOn, hauthorization] using hother
      obtain ⟨d₁, d₂, x, s₁, rfl, h₁, h₂⟩ := Task.returns_bind_iff.mp h
      obtain ⟨result, rfl, hviewed⟩ := Task.returns_attempt_iff.mp h₁
      obtain ⟨released, d₃, rfl, h₃⟩ := Task.returns_ask_bind_iff.mp h₂
      refine .append ?_ (.cons rfl rfl (Accounts.audit (fun _ _ => rfl) h₃).1)
      obtain ⟨d₄, d₅, x, s₂, rfl, h₄, h₅⟩ := Task.returns_bind_iff.mp hviewed
      obtain ⟨mid, recovered, -, rfl, rfl⟩ := recoverRunOf_returns h₄
      refine List.forall_mem_append.mpr ⟨onService_passes fun _ _ => rfl, ?_⟩
      cases recovered with
      | error e =>
        obtain ⟨rfl, -⟩ := Task.returns_fail_iff.mp h₅
        exact fun _ he => absurd he List.not_mem_nil
      | ok disposition =>
        obtain ⟨stored, answer, view, rfl, -⟩ := viewForDisposition_returns h₅
        simp [Passes, ServiceRequest.closing, startGoesOn]

theorem startReserved_accounts {workflow : Workflow} {y : Except ServiceError RunView}
    (hid : workflow.id.isValid = true)
    (h : (startReserved svc principal key workflow input ()).Returns d (y, ())) :
    Accounts (startGoesOn principal workflow.id) d y := by
  obtain ⟨titled, d₁, rfl, h₁⟩ := Task.returns_ask_bind_iff.mp h
  cases titled with
  | error e =>
    obtain ⟨released, d₂, rfl, h₂⟩ := Task.returns_ask_bind_iff.mp h₁
    obtain ⟨rfl, -⟩ := Task.returns_fail_iff.mp h₂
    exact .exit rfl rfl (by simp [ServiceRequest.closing])
  | ok u =>
    obtain ⟨found, d₂, rfl, h₂⟩ := Task.returns_ask_bind_iff.mp h₁
    refine .cons rfl rfl ?_
    match found with
    | .error e =>
      obtain ⟨released, d₃, rfl, h₃⟩ := Task.returns_ask_bind_iff.mp h₂
      obtain ⟨rfl, -⟩ := Task.returns_fail_iff.mp h₃
      exact .exit rfl rfl (by simp [ServiceRequest.closing])
    | .ok (some summary) => exact startExisting_accounts h₂
    | .ok none => exact .cons rfl rfl (startNew_accounts hid h₂)

/-- The requests that come before a start is requested. -/
def ServiceRequest.startOpening (r : ServiceRequest) : Prop :=
  r.opening = true ∧ ∀ key, r ≠ .findRun key

theorem startRun_accounts {request : Nat} {workflowId : WorkflowId} :
    Opens ServiceRequest.startOpening (svc.startRun principal session request workflowId input) fun d y =>
      AccountsIf (startGoesOn principal workflowId)
        ((svc.workflow? workflowId).any (·.validateInput input) = true) d y := by
  refine .bind (ensureServing_only ⟨⟨rfl, by simp⟩, rfl⟩) fun _ => .ite (fun _ => .fail) fun hid => ?_
  refine .bind (loadSession_only ⟨⟨rfl, by simp⟩, rfl⟩) fun record => .ite (fun _ => .fail) fun _ => ?_
  have hopening : ∀ r : ServiceRequest, r.admits = true → r.startOpening := by
    refine fun r hr => ⟨ServiceRequest.opening_of_admits hr, ?_⟩
    rintro key rfl
    cases hr
  refine .authorize hopening fun d y h => ?_
  cases hworkflow : svc.workflow? workflowId with
  | none =>
    rw [hworkflow] at h
    obtain ⟨rfl, -⟩ := Task.returns_fail_iff.mp h
    exact .exit (by simp) (by simp)
  | some workflow =>
    rw [hworkflow] at h
    dsimp only at h
    by_cases hinput : (!workflow.validateInput input) = true
    · rw [if_pos hinput] at h
      obtain ⟨rfl, -⟩ := Task.returns_fail_iff.mp h
      exact .exit (by simp) (by simpa using hinput)
    · rw [if_neg hinput] at h
      refine Accounts.when ?_ (by simpa using hinput)
      have hsame : workflow.id = workflowId := by
        unfold AgentService.workflow? at hworkflow
        simpa using List.find?_some hworkflow
      obtain ⟨reservation, d₁, rfl, h₁⟩ := Task.returns_ask_bind_iff.mp h
      cases reservation with
      | existing run =>
        obtain ⟨rfl, -⟩ := Task.returns_pure_iff.mp h₁
        exact .exit rfl rfl (by simp)
      | refused e =>
        obtain ⟨rfl, -⟩ := Task.returns_fail_iff.mp h₁
        exact .exit rfl rfl (by simp)
      | reserved =>
        rw [← hsame] at hid ⊢
        exact .cons rfl rfl (startReserved_accounts (by simpa using hid) h₁)

/-! ## Every command -/

/-- The requests that come before the account change nothing of what it depends on. -/
theorem accountable_append {call : ServiceCall} {d d' : Dialogue ServiceAnswer}
    (hd : ∀ e ∈ d, e.1.opening = true ∧ call.goesOn e.1 e.2 = true) :
    Accountable svc (d ++ d') call ↔ Accountable svc d' call := by
  have hpart : harnessPart (d ++ d') = harnessPart d' := by
    rw [harnessPart_append]
    suffices hnil : harnessPart d = [] by rw [hnil, List.nil_append]
    refine List.filterMap_eq_nil_iff.mpr fun e he => ?_
    obtain ⟨r, a⟩ := e
    have hr : r.opening = true := (hd _ he).1
    cases r <;> first | rfl | cases hr
  have hquiet : ∀ e ∈ d, e.1.latest e.2 = none ∧ ∀ key, e.1.finds key e.2 = false := by
    intro e he
    obtain ⟨r, a⟩ := e
    have hr : r.opening = true := (hd _ he).1
    cases r <;> first | exact ⟨rfl, fun _ => rfl⟩ | cases hr
  unfold Accountable
  refine and_congr ?_ ?_
  · rw [List.forall_mem_append]
    exact and_iff_right fun e he => (hd e he).2
  · cases call with
    | resumeRun principal key waitId => exact recovers_congr hpart
    | archiveConversation principal session =>
      refine forall_congr' fun run => ?_
      have hnone : d.findSome? (fun e => e.1.latest e.2) = none :=
        List.findSome?_eq_none_iff.mpr fun e he => (hquiet e he).1
      rw [List.findSome?_append, hnone, Option.none_or]
      refine imp_congr_right fun _ => or_congr ?_ (recovers_congr hpart)
      constructor
      · rintro ⟨e, he, hfound⟩
        rcases List.mem_append.mp he with he | he
        · cases ((hquiet e he).2 run.key).symm.trans hfound
        · exact ⟨e, he, hfound⟩
      · rintro ⟨e, he, hfound⟩
        exact ⟨e, List.mem_append_right _ he, hfound⟩
    | _ => exact Iff.rfl

theorem goesOn_of_opening {call : ServiceCall} {r : ServiceRequest} (h : r.opening = true)
    (hcall : ∀ principal session request workflow input,
      call ≠ .startRun principal session request workflow input) (a : ServiceAnswer r) :
    call.goesOn r a = true := by
  cases call with
  | startRun principal session request workflow input => exact absurd rfl (hcall _ _ _ _ _)
  | _ => cases r <;> first | rfl | cases h

theorem goesOn_of_startOpening {r : ServiceRequest} (h : r.startOpening) {session : SessionId} {request : Nat}
    {workflowId : WorkflowId} (a : ServiceAnswer r) :
    ServiceCall.goesOn (.startRun principal session request workflowId input) r a = true := by
  cases r with
  | findRun key => exact absurd rfl (h.2 key)
  | _ => first | rfl | cases h.1

/-- A command that opens its account closes it exactly when it is accountable. -/
theorem Opens.closedOnce {α : Type} {m : ServiceM α} {f : Except ServiceError α → ServiceOutcome}
    {P : ServiceRequest → Prop} {call : ServiceCall} {o : ServiceOutcome}
    (h : Opens P m fun d y => AllRecorded d → (closings d = [closingPhase y] ↔ Accountable svc d call))
    (hP : ∀ r, P r → r.opening = true ∧ ∀ a, call.goesOn r a = true)
    (herror : ∀ y, (f y).isError = true ↔ ∃ e, y = .error e) (hret : (finishing m f).Returns d o)
    (hrequested : MutationRequested d) (hall : AllRecorded d) : ClosedOnce d o ↔ Accountable svc d call := by
  obtain ⟨d₁, d₂, ⟨y, u⟩, rfl, h₁, h₂⟩ := Prog.returns_bind_iff.mp hret
  obtain ⟨rfl, rfl⟩ := Prog.returns_pure_iff.mp h₂
  rw [List.append_nil] at hrequested hall ⊢
  obtain ⟨d₃, d₄, rfl, hopening, hiff⟩ := h d₁ y h₁ hrequested
  have hnone : closings d₃ = [] :=
    closings_nil_of fun e he => ServiceRequest.closing_of_opening (hP _ (hopening e he)).1
  have hphase : (if (f y).isError then SecurityAuditPhase.mutationFailed else .mutationCommitted) =
      closingPhase y := by
    cases y with
    | error e => exact if_pos ((herror _).mpr ⟨e, rfl⟩)
    | ok a => exact if_neg fun herr => by simpa using (herror _).mp herr
  unfold ClosedOnce
  rw [closings_append, hnone, List.nil_append, hphase, hiff hall.of_append.2]
  exact (accountable_append fun e he => ⟨(hP _ (hopening e he)).1, (hP _ (hopening e he)).2 e.2⟩).symm

end Commands

/-- **A mutation that is requested is closed once, with its result, unless the command takes one of the
exits that skip the record**: too many sessions; an unknown workflow, an invalid input, a slot that is
taken, a title or a run that cannot be read or is not the caller's, a policy without a version, a slot
that is gone; a listing or a recovery that fails; a run that cannot be resumed, or has no slot to
cancel; a clock that cannot be read. -/
theorem closed_once_iff_accountable (svc : AgentService) {call : ServiceCall}
    {d : Dialogue ServiceAnswer} {o : ServiceOutcome} (hcall : call.mutates = true)
    (hret : (call.code svc).Returns d o) (hrequested : MutationRequested d) (hall : AllRecorded d) :
    ClosedOnce d o ↔ Accountable svc d call := by
  have hview : ∀ y, (ServiceOutcome.view y).isError = true ↔ ∃ e, y = .error e := by
    rintro (e | a) <;> simp [ServiceOutcome.isError]
  have hdone : ∀ y, (ServiceOutcome.done y).isError = true ↔ ∃ e, y = .error e := by
    rintro (e | a) <;> simp [ServiceOutcome.isError]
  have hsession : ∀ y, (ServiceOutcome.session y).isError = true ↔ ∃ e, y = .error e := by
    rintro (e | a) <;> simp [ServiceOutcome.isError]
  cases call with
  | startRun principal session request workflow input =>
    refine (startRun_accounts.mono fun _ _ h => h).closedOnce ?_ hview hret hrequested hall
    exact fun r hr => ⟨hr.1, goesOn_of_startOpening hr⟩
  | resumeRun principal key waitId =>
    refine (resumeRun_accounts.mono fun _ _ h => h).closedOnce ?_ hdone hret hrequested hall
    exact fun r hr => ⟨hr, goesOn_of_opening hr (by simp)⟩
  | cancelActiveRun principal key =>
    refine (cancelActiveRun_accounts.mono fun _ _ h => h.when trivial).closedOnce ?_ hdone hret hrequested hall
    exact fun r hr => ⟨hr, goesOn_of_opening hr (by simp)⟩
  | archiveConversation principal session =>
    refine (archiveConversation_accounts.mono fun _ _ h => h).closedOnce ?_ hdone hret hrequested hall
    exact fun r hr => ⟨hr, goesOn_of_opening hr (by simp)⟩
  | createSession principal =>
    refine (createSession_accounts.mono fun _ _ h => h.when trivial).closedOnce ?_ hsession hret hrequested hall
    exact fun r hr => ⟨hr, goesOn_of_opening hr (by simp)⟩
  | submitDecision principal key waitId version outcome =>
    refine (submitDecision_accounts.mono fun _ _ h => h.when trivial).closedOnce ?_ hdone hret hrequested hall
    exact fun r hr => ⟨hr, goesOn_of_opening hr (by simp)⟩
  | abortWaiting principal key waitId version =>
    refine (abortWaiting_accounts.mono fun _ _ h => h.when trivial).closedOnce ?_ hdone hret hrequested hall
    exact fun r hr => ⟨hr, goesOn_of_opening hr (by simp)⟩
  | discoverRuns => cases hcall
  | waitingPage principal after limit => cases hcall
  | drain => cases hcall

/-! ## Two sessions -/

/-- A session is asked for, with so many there already. -/
def sessionRequested (count : Nat) : Dialogue ServiceAnswer :=
  [⟨.lifecycle, false⟩, ⟨.authorize ⟨"a"⟩ .createSession .global, true⟩,
    ⟨.audit ⟨.authorizationGranted, ⟨"a"⟩, .createSession, none, none, none⟩, true⟩,
    ⟨.audit ⟨.mutationRequested, ⟨"a"⟩, .createSession, none, none, none⟩, true⟩, ⟨.sessionCount, count⟩]

/-- It is created. -/
def sessionCreated : Dialogue ServiceAnswer :=
  sessionRequested 0 ++ [⟨.freshSession, ⟨1⟩⟩, ⟨.createSession ⟨1⟩ ⟨"a"⟩, .ok ()⟩,
    ⟨.audit ⟨.mutationCommitted, ⟨"a"⟩, .createSession, none, none, none⟩, true⟩, ⟨.insertSession ⟨1⟩, ()⟩]

theorem created_session_closed_once : ClosedOnce sessionCreated (.session (.ok ⟨1⟩)) := by
  have hret : ((ServiceCall.createSession ⟨"a"⟩).code sampleService).Returns sessionCreated
      (.session (.ok ⟨1⟩)) := by
    refine Prog.returns_call_iff.mpr ⟨false, _, rfl, ?_⟩
    refine Prog.returns_call_iff.mpr ⟨true, _, rfl, ?_⟩
    refine Prog.returns_call_iff.mpr ⟨true, _, rfl, ?_⟩
    refine Prog.returns_call_iff.mpr ⟨true, _, rfl, ?_⟩
    refine Prog.returns_call_iff.mpr ⟨(0 : Nat), _, rfl, ?_⟩
    refine Prog.returns_call_iff.mpr ⟨⟨1⟩, _, rfl, ?_⟩
    refine Prog.returns_call_iff.mpr ⟨.ok (), _, rfl, ?_⟩
    refine Prog.returns_call_iff.mpr ⟨true, _, rfl, ?_⟩
    refine Prog.returns_call_iff.mpr ⟨(), _, rfl, ?_⟩
    exact .pure _
  have hrequested : MutationRequested sessionCreated :=
    ⟨⟨.mutationRequested, ⟨"a"⟩, .createSession, none, none, none⟩, rfl, by simp [sessionCreated, sessionRequested]⟩
  have hall : AllRecorded sessionCreated := by
    intro event
    simp [sessionCreated, sessionRequested]
  refine (closed_once_iff_accountable sampleService rfl hret hrequested hall).mpr ⟨?_, trivial⟩
  simp [sessionCreated, sessionRequested, ServiceCall.goesOn, maxSessions]

/-- With 256 sessions, the request stays open. -/
theorem refused_session_stays_open :
    ((ServiceCall.createSession ⟨"a"⟩).code sampleService).Returns (sessionRequested 256)
        (.session (.error .capacity)) ∧
      MutationRequested (sessionRequested 256) ∧ AllRecorded (sessionRequested 256) ∧
      ¬ ClosedOnce (sessionRequested 256) (.session (.error .capacity)) := by
  refine ⟨?_, ?_, ?_, ?_⟩
  · refine Prog.returns_call_iff.mpr ⟨false, _, rfl, ?_⟩
    refine Prog.returns_call_iff.mpr ⟨true, _, rfl, ?_⟩
    refine Prog.returns_call_iff.mpr ⟨true, _, rfl, ?_⟩
    refine Prog.returns_call_iff.mpr ⟨true, _, rfl, ?_⟩
    refine Prog.returns_call_iff.mpr ⟨(256 : Nat), _, rfl, ?_⟩
    exact .pure _
  · exact ⟨⟨.mutationRequested, ⟨"a"⟩, .createSession, none, none, none⟩, rfl, by simp [sessionRequested]⟩
  · intro event
    simp [sessionRequested]
  · intro hclosed
    cases hclosed

end LocalAgent
