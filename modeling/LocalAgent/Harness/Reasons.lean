import LocalAgent.Harness.Endings

/-!
# Every end of a run has its reason

One rule for each operation, in the order of `Execution.lean`, `Operations.lean` and `Durable.lean`,
and from them that every command keeps to the monitor of `Endings.lean`.
-/
namespace LocalAgent

open Program

variable {lib : Library} {h : ExecutionHarness} {F : Terms} {α : Type}

/-! ## The guarded helpers -/

section Helpers

variable {e : AgentEvent}

theorem SameFunds.commitFinished {c c' : RunContext} {outcome : RunOutcome}
    (h : c.commitFinished outcome = .ok c') : SameFunds c c' := by
  unfold RunContext.commitFinished at h
  cases hfinish : c.status.finish outcome with
  | error err =>
    rw [hfinish] at h
    cases h
  | ok status =>
    rw [hfinish] at h
    cases h
    exact ⟨rfl, rfl, rfl⟩

theorem markAuditDegraded_steady : Steady lib F markAuditDegraded := .put fun _ => ⟨rfl, rfl, rfl⟩

theorem markPersistenceFailed_steady : Steady lib F markPersistenceFailed :=
  .put fun _ => ⟨rfl, rfl, rfl⟩

theorem commitFinished_steady {outcome : RunOutcome} : Steady lib F (commitFinished outcome) := by
  intro c v hc
  refine Task.wp_look_bind.mpr ?_
  cases hfinish : c.commitFinished outcome with
  | error err => exact hc
  | ok c' => exact hc.same (.commitFinished hfinish)

theorem runtime_steady : Steady lib F runtime := by
  refine .bind .look fun c => ?_
  cases c.runtime with
  | none => exact .fail
  | some r => exact .pure

theorem runtime_bind {c : RunContext} {v : Ending lib} {f : RunRuntime → HarnessM α}
    {Q : Except HarnessError α → RunContext → Ending lib → Prop} (hnone : ∀ err, Q (.error err) c v)
    (hsome : ∀ r, c.runtime = some r → Task.wp (endingMonitor lib) (f r) Q c v) :
    Task.wp (endingMonitor lib) (runtime >>= f) Q c v := by
  refine Task.wp_bind.mpr (Task.wp_look_bind.mpr ?_)
  cases hr : c.runtime with
  | none => exact hnone _
  | some r => exact hsome r hr

theorem trustedUnixMillis_steady : Steady lib F trustedUnixMillis := by
  refine .bind (.askQuiet rfl rfl) fun t => ?_
  cases t with
  | none => exact .fail
  | some t => exact .pure

theorem requireStatus_steady {operation : HarnessOperation} {required : RunStatus} :
    Steady lib F (requireStatus operation required) :=
  .bind .look fun _ => .ite .fail (.ite .pure .fail)

theorem persistTransition_steady (hsend : F.Allows e.kind) : Steady lib F (persistTransition h e) := by
  refine .ite (.bind .look fun c => .bind (.ask rfl fun t ht => ?_) fun x => ?_) .pure
  · obtain rfl := Option.some.inj ht
    exact hsend
  · cases x with
    | ok u => exact .pure
    | error err => exact .bind markPersistenceFailed_steady fun _ => .fail

theorem auditWithTimeout_steady {site : AuditSite} : Steady lib F (auditWithTimeout site e) := by
  refine .bind (.askQuiet rfl rfl) fun a => ?_
  cases a with
  | ready result => cases result <;> exact .pure
  | cancelled => exact .pure
  | deadlineExceeded => exact .pure

theorem auditTerminalBestEffort_steady (hsend : F.Allows e.kind) :
    Steady lib F (auditTerminalBestEffort h e) := by
  refine .bind (persistTransition_steady hsend).attempt fun x => ?_
  cases x with
  | error err => exact markPersistenceFailed_steady
  | ok u =>
    refine .bind auditWithTimeout_steady fun result => ?_
    cases result with
    | none => exact .pure
    | some err => exact markAuditDegraded_steady

/-- With a reason, the run is ended. -/
theorem terminalize_steady {outcome : RunOutcome} : Steady lib .due (terminalize lib h outcome) := by
  intro c v hc
  refine Task.wp_look_bind.mpr ?_
  by_cases hrunning : c.status = .running
  · rw [if_pos hrunning]
    cases hfinish : c.commitFinished outcome with
    | error err => exact markAuditDegraded_steady c v hc
    | ok c' =>
      dsimp only
      refine Task.wp_bind.mpr (Task.wp_put.mpr ?_)
      refine Steady.bind nextEvent_steady.attempt (fun x => ?_) c' v hc.of_due
      cases x with
      | ok e => exact auditTerminalBestEffort_steady Terms.due_allows
      | error err => exact markAuditDegraded_steady
  · rw [if_neg hrunning]
    exact hc

/-- And the method fails. -/
theorem terminalizeSafety_fail {terminal : SafetyTerminalization} {err : HarnessError} :
    Steady lib .due (do terminalizeSafety lib h terminal; (Task.fail err : HarnessM α)) :=
  .bind terminalize_steady fun _ => .fail

theorem recordAuditDegraded_steady : Steady lib F (recordAuditDegraded lib h) :=
  .nextEvent fun _ he => .bind markAuditDegraded_steady fun _ =>
    persistTransition_steady (.other (by rw [he]; rfl))

theorem applyAuditFailure_steady {operation : HarnessOperation} {phase : AuditPhase}
    {effect : OperationEffect} {kind : AuditPortError} :
    Steady lib F (applyAuditFailure lib h operation phase effect kind) := by
  unfold applyAuditFailure
  cases h.auditFailurePolicy with
  | failClosed => exact .fail
  | failOpen => exact recordAuditDegraded_steady

/-- An audit that was cut off is a reason. -/
theorem auditAlreadyPersisted_steady {operation : HarnessOperation} {phase : AuditPhase}
    {effect : OperationEffect} {required : Bool} :
    Steady lib F (auditAlreadyPersisted lib h e operation phase effect required) := by
  have hfailed : ∀ kind, Steady lib F (if required then
      refuseAuditFailure lib h operation phase effect kind
      else applyAuditFailure lib h operation phase effect kind) := fun _ =>
    .ite (.bind recordAuditDegraded_steady fun _ => .fail) applyAuditFailure_steady
  intro c v hc
  refine Task.wp_bind.mpr (Task.wp_look_bind.mpr ?_)
  cases c.runtime with
  | none => exact hfailed _ c v hc
  | some r =>
    have hpermits : v.permits (.audit .bounded e) := Ending.permits_silent rfl
    have hseen : ∀ a, Ready F c (v.observe (.audit .bounded e) a) := fun _ => hc.observe rfl
    have hcut : ∀ a, View.cutOff a = true → Ready .due c (v.observe (.audit .bounded e) a) :=
      fun _ ha => hc.stopped rfl ha
    refine Task.wp_ask_bind.mpr ⟨hpermits, fun a => ?_⟩
    cases a with
    | ready result =>
      cases result with
      | ok u => exact hseen _
      | error err => exact hfailed err c _ (hseen _)
    | cancelled => exact terminalizeSafety_fail.of_due (hcut .cancelled rfl)
    | deadlineExceeded => exact terminalizeSafety_fail.of_due (hcut .deadlineExceeded rfl)

theorem auditLifecycle_steady {operation : HarnessOperation} (hsend : F.Allows e.kind) :
    Steady lib F (auditLifecycle lib h e operation) := by
  refine .bind (persistTransition_steady hsend) fun _ => .bind auditWithTimeout_steady fun x => ?_
  cases x with
  | none => exact .pure
  | some kind => exact applyAuditFailure_steady

section Records

variable {kind : AgentEventKind} {operation : HarnessOperation} {phase : AuditPhase}
  {effect : OperationEffect} {mode : ToolAudit} (hkind : kind.isFinish = false)

include hkind

theorem record_steady : Steady lib F (record lib h kind operation phase effect) :=
  .nextEvent fun _ he => .bind (persistTransition_steady (.other (he ▸ hkind)))
    fun _ => auditAlreadyPersisted_steady

theorem recordRequired_steady : Steady lib F (recordRequired lib h kind operation phase effect) :=
  .nextEvent fun _ he => .bind (persistTransition_steady (.other (he ▸ hkind)))
    fun _ => auditAlreadyPersisted_steady

theorem recordTool_steady : Steady lib F (recordTool lib h mode kind operation phase effect) := by
  cases mode with
  | configured => exact record_steady hkind
  | required => exact recordRequired_steady hkind

end Records

/-- A cancelled run and a deadline that has passed are reasons. -/
theorem preflight_steady (hclock : F.Clocked) {operation : HarnessOperation} :
    Steady lib F (preflight lib h operation) := by
  refine .bind requireStatus_steady fun _ c v hc => ?_
  refine runtime_bind (fun _ => hc) fun r hr => Task.wp_look_bind.mpr ?_
  have hpermits : v.permits (.isCancelled c.runId) := Ending.permits_silent rfl
  refine Task.wp_ask_bind.mpr ⟨hpermits, fun cancelled => ?_⟩
  cases cancelled with
  | true =>
    have hstopped : Ready .due c (v.observe (.isCancelled c.runId) true) := hc.stopped rfl rfl
    exact terminalizeSafety_fail.of_due hstopped
  | false =>
    have hgoes : Ready F c (v.observe (.isCancelled c.runId) false) := hc.observe rfl
    have hpermits' : (v.observe (.isCancelled c.runId) false).permits .instantNow := Ending.permits_silent rfl
    refine Task.wp_ask_bind.mpr ⟨hpermits', fun now => ?_⟩
    have hseen : Ready F c ((v.observe (.isCancelled c.runId) false).observe .instantNow now) :=
      hgoes.observe rfl
    by_cases hdeadline : r.deadlineAt ≤ now
    · rw [if_pos hdeadline]
      refine terminalizeSafety_fail.of_due ⟨hseen.keeps, .inl ?_⟩
      rw [Ending.observe_due rfl, Bool.or_eq_true]
      refine hgoes.terms.imp_right fun hholds => ?_
      simp only [stopsRun, hclock _ _ _ hholds hr, Option.any_some, hdeadline, decide_true]
    · rw [if_neg hdeadline]
      exact hseen

/-- A budget that is spent is a reason. -/
theorem reserve_leads {F' : Terms} {f : RunContext → Except BudgetDimension (α × RunContext)}
    (hok : ∀ held c a c', F.holds held c → f c = .ok (a, c') → F'.holds held c')
    (herr : ∀ held c d, f c = .error d → ¬ F.holds held c) : Leads lib F F' (reserve lib h f) := by
  intro c v hc
  refine Task.wp_look_bind.mpr ?_
  cases hreserve : f c with
  | ok p =>
    rintro _ ⟨⟩
    exact ⟨hc.keeps, hc.terms.imp_right fun hholds => hok _ c p.1 p.2 hholds hreserve⟩
  | error dimension =>
    have hready : Ready .due c v := ⟨hc.keeps, hc.terms.imp_right fun hholds =>
      herr _ c dimension hreserve hholds⟩
    refine Task.wp_mono (Steady.bind (f := fun _ => (Task.fail (.budgetExceeded dimension) : HarnessM α))
      terminalize_steady (fun _ => .fail) c v hready) fun x c v hdue a _ => hdue.of_due

end Helpers

/-! ## Reservations -/

section Reservations

variable {ds : List BudgetDimension}

/-- A reservation takes from its own budget alone. -/
theorem reserve_funded {d : BudgetDimension} {f : RunContext → Except BudgetDimension (α × RunContext)}
    (hspent : ∀ c e, f c = .error e → c.spent d = true)
    (hkept : ∀ c a c', f c = .ok (a, c') → c'.runtime = c.runtime ∧ ∀ x ∈ ds, c'.spent x = c.spent x) :
    Leads lib (.funded (d :: ds)) (.funded ds) (reserve lib h f) := by
  refine reserve_leads (fun held c a c' hc hok => ?_) fun held c e herr hc => ?_
  · obtain ⟨hruntime, hother⟩ := hkept c a c' hok
    exact ⟨fun r hr => hc.1 r (hruntime ▸ hr),
      fun x hx => (hother x hx).trans (hc.2 x (List.mem_cons_of_mem d hx))⟩
  · have hroom : c.spent d = false := hc.2 d List.mem_cons_self
    rw [hspent c e herr] at hroom
    cases hroom

theorem isOk_of_map_error {ε γ δ : Type} {x : Except ε γ} {g : γ → δ} {e : ε} (hx : x.map g = .error e) :
    (!x.isOk) = true := by
  cases x with
  | ok a => cases hx
  | error e' => rfl

theorem eq_rebuildUsage {p : Prop} [Decidable p] {x : BudgetDimension} {c c' : RunContext} {a : Unit}
    {m t i r g : Nat} (hc : ((if p then .error x else .ok (c.rebuildUsage m t i r g) :
      Except BudgetDimension RunContext).map fun c => ((), c)) = .ok (a, c')) :
    c' = c.rebuildUsage m t i r g := by
  by_cases hp : p
  · rw [if_pos hp] at hc
    cases hc
  · rw [if_neg hp] at hc
    cases hc
    rfl

theorem reserveModelCall_leads : Leads lib (.funded [.modelCalls]) (.funded [])
    (reserve lib h fun c => c.reserveModelCall.map fun c => ((), c)) :=
  reserve_funded (fun _ _ => isOk_of_map_error) fun c a c' hc =>
    ⟨by rw [eq_rebuildUsage hc]; rfl, fun x hx => by cases hx⟩

theorem reserveToolCall_leads : Leads lib (.funded [.toolCalls]) (.funded [])
    (reserve lib h fun c => c.reserveToolCall.map fun c => ((), c)) :=
  reserve_funded (fun _ _ => isOk_of_map_error) fun c a c' hc =>
    ⟨by rw [eq_rebuildUsage hc]; rfl, fun x hx => by cases hx⟩

theorem RunContext.spent_toolCalls (c : RunContext) :
    c.spent .toolCalls = decide (c.usage.toolCalls ≥ c.budget.maxToolCalls) := by
  unfold RunContext.spent RunContext.reserveToolCall
  by_cases hspent : c.usage.toolCalls ≥ c.budget.maxToolCalls
  · simp only [hspent, if_true, decide_true]
    rfl
  · simp only [hspent, if_false, decide_false]
    rfl

/-- The tool call that an approval is asked for has a budget of its own. -/
theorem reserveApprovalRequest_leads (hds : ds ⊆ [.toolCalls]) :
    Leads lib (.funded (.approvalRequests :: ds)) (.funded ds)
      (reserve lib h fun c => c.reserveApprovalRequest.map fun c => ((), c)) := by
  refine reserve_funded (fun _ _ => isOk_of_map_error) fun c a c' hc => ?_
  obtain rfl := eq_rebuildUsage hc
  refine ⟨rfl, fun x hx => ?_⟩
  obtain rfl := List.mem_singleton.mp (hds hx)
  rw [RunContext.spent_toolCalls, RunContext.spent_toolCalls]
  rfl

theorem reserveIteration_leads :
    Leads lib (.funded [.iterations]) (.funded []) (reserve lib h RunContext.reserveIteration) := by
  refine reserve_funded (fun c e he => ?_) fun c a c' hc => ⟨?_, fun x hx => by cases hx⟩
  · simp only [RunContext.spent, he]
    rfl
  · unfold RunContext.reserveIteration at hc
    dsimp only at hc
    split at hc <;> cases hc
    rfl

theorem reserveGraphStep_leads :
    Leads lib (.funded [.graphSteps]) (.funded []) (reserve lib h RunContext.reserveGraphStep) := by
  refine reserve_funded (fun c e he => ?_) fun c a c' hc => ⟨?_, fun x hx => by cases hx⟩
  · simp only [RunContext.spent, he]
    rfl
  · unfold RunContext.reserveGraphStep at hc
    dsimp only at hc
    split at hc <;> cases hc
    rfl

end Reservations

/-! ## Ports and tools -/

section Ports

/-- What follows a port: if the call was cut off, there is a reason. -/
theorem settle_cutOff {ε : Type} {reap : HarnessM Unit} {wrap : ε → HarnessError}
    (hreap : Steady lib .due reap) (x : Awaited (Except ε α)) :
    Steady lib F (settle lib h reap wrap x) ∨
      View.cutOff x = true ∧ Steady lib .due (settle lib h reap wrap x) := by
  cases x with
  | ready y =>
    left
    cases y with
    | ok a => exact .pure
    | error e => exact .fail
  | cancelled => exact .inr ⟨rfl, .bind hreap fun _ => terminalizeSafety_fail⟩
  | deadlineExceeded => exact .inr ⟨rfl, .bind hreap fun _ => terminalizeSafety_fail⟩

theorem mapErr_steady {ε : Type} {wrap : ε → HarnessError} {x : Except ε α} :
    Steady lib F (mapErr wrap x) := .ofExcept

theorem invokeModelPort_steady {id : ModelCallId} {request : ModelRequest} :
    Steady lib F (invokeModelPort lib h id request) :=
  .bind runtime_steady fun _ => .bind .look fun _ => .ask_bind rfl rfl fun x =>
    (settle_cutOff .pure x).imp_right fun hcut => ⟨fun _ => hcut.1, hcut.2⟩

theorem awaitApproval_steady {request : ApprovalRequest} : Steady lib F (awaitApproval lib h request) :=
  .bind runtime_steady fun _ => .bind .look fun _ => .ask_bind rfl rfl fun x =>
    (settle_cutOff .pure x).imp_right fun hcut => ⟨fun _ => hcut.1, hcut.2⟩

theorem invokeToolPort_steady {call : ToolCall} : Steady lib F (invokeToolPort lib h call) :=
  .bind runtime_steady fun _ => .bind .look fun _ => .ask_bind rfl rfl fun x =>
    (settle_cutOff .pure x).imp_right fun hcut => ⟨fun _ => hcut.1, hcut.2⟩

theorem invokeContainedToolPort_steady {call : ToolCall} :
    Steady lib F (invokeContainedToolPort lib h call) :=
  .bind runtime_steady fun _ => .bind .look fun _ => .bind (.askQuiet rfl rfl) fun _ =>
    .bind mapErr_steady fun _ => .ask_bind rfl rfl fun x =>
      (settle_cutOff (.bind (.askQuiet rfl rfl) fun _ => mapErr_steady) x).imp_right
        fun hcut => ⟨fun _ => hcut.1, hcut.2⟩

theorem invokeManagedToolPort_steady {call : ToolCall} : Steady lib F (invokeManagedToolPort lib h call) :=
  .bind runtime_steady fun _ => .bind .look fun _ => .bind (.askQuiet rfl rfl) fun _ =>
    .bind mapErr_steady fun _ => .ask_bind rfl rfl fun x =>
      (settle_cutOff (.bind (.askQuiet rfl rfl) fun _ => mapErr_steady) x).imp_right
        fun hcut => ⟨fun _ => hcut.1, hcut.2⟩

theorem invokeBoundPort_steady {binding : ExecutionBinding} {call : ToolCall} :
    Steady lib F (invokeBoundPort lib h binding call) := by
  cases binding with
  | direct => exact invokeToolPort_steady
  | managedDirect => exact invokeManagedToolPort_steady
  | contained => exact invokeContainedToolPort_steady

theorem reserveAndRecordToolStarted_leads {id : ToolCallId} {name : ToolName} {capability : CapabilityKind}
    {operation : HarnessOperation} {mode : ToolAudit} : Leads lib (.funded [.toolCalls]) (.funded [])
      (reserveAndRecordToolStarted lib h id name capability operation mode) :=
  .bind reserveToolCall_leads fun _ => .after .look fun _ => (recordTool_steady rfl).leads

theorem recordToolTerminalAfterRuntimeError_steady {id : ToolCallId} {operation : HarnessOperation}
    {mode : ToolAudit} : Steady lib F (recordToolTerminalAfterRuntimeError lib h id operation mode) := by
  refine .bind .look fun _ => .ite (recordTool_steady rfl) ?_
  refine Steady.nextEvent_attempt (fun e he => ?_) fun _ => markAuditDegraded_steady
  exact auditTerminalBestEffort_steady (.other (by rw [he]; rfl))

theorem finishToolInvocation_steady {id : ToolCallId} {operation : HarnessOperation}
    {result : Except HarnessError ToolResult} {mode : ToolAudit} :
    Steady lib F (finishToolInvocation lib h id operation result mode) := by
  have hfailed : ∀ err, Steady lib F (do
      recordToolTerminalEvent lib h (.toolInvocationAdapterFailed id) operation mode
      (Task.fail err : HarnessM ToolResult)) := fun _ => .bind (recordTool_steady rfl) fun _ => .fail
  cases result with
  | ok result =>
    refine .ite (hfailed _) (.bind (recordTool_steady ?_) fun _ => .pure)
    cases result <;> rfl
  | error err =>
    cases err with
    | toolPort e => exact hfailed _
    | containmentPort e => exact hfailed _
    | _ => exact .bind recordToolTerminalAfterRuntimeError_steady fun _ => .fail

theorem invokeBoundTool_leads {binding : ExecutionBinding} {call : ToolCall} {name : ToolName}
    {capability : CapabilityKind} : Leads lib (.funded [.toolCalls]) (.funded [])
      (invokeBoundTool lib h binding call name capability) :=
  .bind reserveAndRecordToolStarted_leads fun _ => .after invokeBoundPort_steady.attempt fun _ =>
    finishToolInvocation_steady.leads

end Ports

/-! ## Effects -/

section Effects

variable {ds : List BudgetDimension}

/-- The part of the terms that a method uses. -/
theorem Leads.of_funded {ds' : List BudgetDimension} {m : HarnessM α} (hds : ds ⊆ ds')
    (hm : Leads lib (.funded ds) F m) : Leads lib (.funded ds') F m :=
  fun c v hc => hm c v ⟨hc.keeps, hc.terms.imp_right fun hholds =>
    ⟨hholds.1, fun d hd => hholds.2 d (hds hd)⟩⟩

theorem preflight_funded {operation : HarnessOperation} :
    Steady lib (.funded ds) (preflight lib h operation) := preflight_steady Terms.funded_clocked

theorem invokeModelInternal_leads {request : ModelRequest} {grounding : Option GroundingBinding} :
    Leads lib (.funded [.modelCalls]) .free (invokeModelInternal lib h request grounding) := by
  refine .after preflight_funded fun _ => .bind reserveModelCall_leads fun _ => Leads.free (Steady.leads ?_)
  refine .bind (.askQuiet rfl rfl) fun id => .bind .look fun c => .bind (record_steady rfl) fun _ =>
    .bind ?_ fun _ => .bind invokeModelPort_steady.attempt fun x => ?_
  · cases grounding with
    | none => exact .pure
    | some g => exact record_steady rfl
  · cases x with
    | ok response => exact .bind (record_steady rfl) fun _ => .pure
    | error err =>
      cases err with
      | modelPort e => exact .bind (record_steady rfl) fun _ => .fail
      | _ => exact .fail

theorem invokeGroundedModel_leads {retrieval : CompletedKnowledgeRetrieval}
    {request : GroundedModelRequest} :
    Leads lib (.funded [.modelCalls]) .free (invokeGroundedModel lib h retrieval request) :=
  .ite .fail invokeModelInternal_leads

theorem interruptRetrieval_steady {id : KnowledgeRetrievalId} {kind : KnowledgeFailureKind}
    {terminal : SafetyTerminalization} {err : HarnessError} :
    Steady lib .due (interruptRetrieval lib h id kind terminal err : HarnessM α) := by
  refine .bind (.nextEvent fun e _ => .bind (persistTransition_steady Terms.due_allows) fun _ =>
    .bind auditWithTimeout_steady fun x => ?_) fun _ => terminalizeSafety_fail
  cases x with
  | none => exact .pure
  | some e => exact markAuditDegraded_steady

theorem retrieveKnowledge_leads {request : KnowledgeRequest} :
    Leads lib (.funded []) .free (retrieveKnowledge lib h request) := by
  refine Leads.free (Steady.leads (.bind preflight_funded fun _ => .ite (.bind (.askQuiet rfl rfl) fun id =>
    .ite .fail (.bind .look fun c => .ofExcept_bind fun kind hkind => ?_)) .fail))
  have hstart : kind.isFinish = false := by
    unfold retrievalEvent at hkind
    cases hpending : c.durableState.pendingKnowledgeRetrieval with
    | none =>
      rw [hpending] at hkind
      cases hkind
      rfl
    | some previous =>
      rw [hpending] at hkind
      dsimp only at hkind
      split at hkind <;> cases hkind
      rfl
  refine .bind (record_steady hstart) fun _ => .bind runtime_steady fun _ => .ask_bind rfl rfl fun x => ?_
  cases x with
  | ready y =>
    left
    cases y with
    | ok evidence =>
      refine .ofExcept_bind fun kind hkind => .bind (record_steady ?_) fun _ => .pure
      unfold retrievalCompleted at hkind
      cases hrefs : evidence.durableReferences.mapM (fun r => r) with
      | none =>
        rw [hrefs] at hkind
        cases hkind
      | some references =>
        rw [hrefs] at hkind
        dsimp only at hkind
        split at hkind <;> cases hkind
        rfl
    | error error => exact .bind (record_steady rfl) fun _ => .fail
  | cancelled => exact .inr ⟨fun _ => rfl, interruptRetrieval_steady⟩
  | deadlineExceeded => exact .inr ⟨fun _ => rfl, interruptRetrieval_steady⟩

theorem prepareAction_leads {invocation : CompletedModelInvocation} :
    Leads lib (.funded []) .free (prepareAction lib h invocation) := by
  refine Leads.free (Steady.leads (.bind preflight_funded fun _ => .bind (.askQuiet rfl rfl) fun id => ?_))
  cases lib.decode invocation.response with
  | error reason => exact .bind (record_steady rfl) fun _ => .pure
  | ok decoded =>
    refine .bind (record_steady rfl) fun _ => ?_
    cases validateAction lib h.tools ⟨id⟩ decoded.1 decoded.2 with
    | error reason => exact .bind (record_steady rfl) fun _ => .pure
    | ok validated => exact .bind (record_steady rfl) fun _ => .pure

theorem denyTool_steady {id : ToolCallId} {name : ToolName} {capability : CapabilityKind}
    {operation : HarnessOperation} {error : HarnessError} :
    Steady lib F (denyTool lib h id name capability operation error : HarnessM α) :=
  .bind (record_steady rfl) fun _ => .fail

theorem failApproval_steady {id : ApprovalRequestId} {kind : ApprovalFailureKind} {error : HarnessError} :
    Steady lib F (failApproval lib h id kind error : HarnessM α) :=
  .bind (recordRequired_steady rfl) fun _ => .fail

theorem applyDecision_leads {call : ToolCall} {info : ApprovedLocalWriteMeta} {id : ApprovalRequestId}
    {decision : ApprovalDecision} :
    Leads lib (.funded [.toolCalls]) .free (applyDecision lib h call info id decision) := by
  refine .after preflight_funded fun _ => .ite failApproval_steady.leads.free ?_
  cases decision.outcome with
  | denied => exact .after (recordRequired_steady rfl) fun _ => .fail
  | granted =>
    exact .after (recordRequired_steady rfl) fun _ => .after preflight_funded fun _ =>
      .bind reserveAndRecordToolStarted_leads fun _ => .after invokeContainedToolPort_steady.attempt
        fun _ => finishToolInvocation_steady.leads.free

theorem invokeApprovedLocalWrite_leads {call : ToolCall} {info : ApprovedLocalWriteMeta} :
    Leads lib (.funded [.approvalRequests, .toolCalls]) .free
      (invokeApprovedLocalWrite lib h call info) := by
  refine .after (.askQuiet rfl rfl) fun preview => ?_
  cases preview with
  | error error => exact .after (recordRequired_steady rfl) fun _ => .fail
  | ok preview =>
    refine .after preflight_funded fun _ => .ite (.after (.askQuiet rfl rfl) fun id =>
      .bind (reserveApprovalRequest_leads (List.Subset.refl _)) fun _ => .after .look fun c =>
        .after (recordRequired_steady rfl) fun _ => .after awaitApproval_steady.attempt fun x => ?_) .fail
    cases x with
    | ok decision => exact applyDecision_leads
    | error err =>
      cases err with
      | approvalPort e => exact failApproval_steady.leads.free
      | _ => exact .fail

theorem dispatchAction_leads {action : ValidatedAction lib} {id : ToolCallId} {binding : ExecutionBinding}
    {decision : AuthorizationDecision} : Leads lib (.funded [.approvalRequests, .toolCalls]) .free
      (dispatchAction lib h action id binding decision) := by
  have hcontained : ∀ failure err, Leads lib (.funded [.approvalRequests, .toolCalls]) .free (do
      recordContainmentFailed lib h id action.toolName action.capability failure
      (Task.fail err : HarnessM ToolResult)) := fun _ _ => .after (recordRequired_steady rfl) fun _ => .fail
  unfold dispatchAction
  dsimp only
  split
  · exact invokeBoundTool_leads.free.of_funded (List.subset_cons_self _ _)
  · exact denyTool_steady.leads.free
  · exact denyTool_steady.leads.free
  · exact denyTool_steady.leads.free
  · exact denyTool_steady.leads.free
  · cases binding with
    | direct => exact hcontained _ _
    | managedDirect => exact hcontained _ _
    | contained => exact .after .look fun _ => .ite .fail invokeApprovedLocalWrite_leads
  · exact denyTool_steady.leads.free
  · exact denyTool_steady.leads.free

theorem invokeValidatedAction_leads {action : ValidatedAction lib} :
    Leads lib (.funded [.approvalRequests, .toolCalls]) .free (invokeValidatedAction lib h action) := by
  refine .after preflight_funded fun _ => .after (.askQuiet rfl rfl) fun id => ?_
  cases h.tools.get action.toolName with
  | none => exact .fail
  | some binding =>
    exact .ite .fail (.after (recordTool_steady rfl) fun _ => .after (.askQuiet rfl rfl) fun _ =>
      dispatchAction_leads)

theorem invokeTool_leads {call : ToolCall} :
    Leads lib (.funded [.toolCalls]) .free (invokeTool lib h call) := by
  refine .after preflight_funded fun _ => ?_
  cases h.tools.get call.name with
  | none => exact .fail
  | some binding =>
    refine .after (.askQuiet rfl rfl) fun decision => ?_
    unfold dispatchTool
    dsimp only
    split
    · exact denyTool_steady.leads.free
    · exact denyTool_steady.leads.free
    · exact invokeBoundTool_leads.free
    · exact denyTool_steady.leads.free
    · exact denyTool_steady.leads.free
    · exact denyTool_steady.leads.free

end Effects

/-! ## Progress and ends -/

section Progress

variable {kind : AgentEventKind} {operation : HarnessOperation} {phase : AuditPhase}
  {effect : OperationEffect}

/-- A method that only records an event. -/
theorem recorded_leads (hkind : kind.isFinish = false) : Leads lib (.funded []) .free (do
    preflight lib h operation
    record lib h kind operation phase effect) :=
  Leads.free (Steady.leads (.bind preflight_funded fun _ => record_steady hkind))

theorem checkpoint_leads : Leads lib (.funded []) .free (checkpoint lib h) := preflight_funded.leads.free

theorem beginIteration_leads : Leads lib (.funded [.iterations]) .free (beginIteration lib h) :=
  .after preflight_funded fun _ => .bind reserveIteration_leads fun _ => Leads.free (Steady.leads
    (.bind .look fun _ => .bind (record_steady rfl) fun _ => .pure))

theorem recordLoopProgress_leads {progress : LoopProgressEvent} :
    Leads lib (.funded []) .free (recordLoopProgress lib h progress) := recorded_leads rfl

theorem enterGraphNode_leads {node : GraphNodeId} {nodeKind : GraphNodeKind}
    {recovery : GraphRecoveryMode} :
    Leads lib (.funded [.graphSteps]) .free (enterGraphNode lib h node nodeKind recovery) :=
  .after preflight_funded fun _ => .bind reserveGraphStep_leads fun _ => Leads.free (Steady.leads
    (.bind (.askQuiet rfl rfl) fun _ => .bind .look fun _ => .bind (record_steady rfl) fun _ => .pure))

theorem restartGraphNode_leads {previous : Option GraphNodeAttemptId} {node : GraphNodeId}
    {nodeKind : GraphNodeKind} {recovery : GraphRecoveryMode} : Leads lib (.funded [.graphSteps]) .free
      (restartGraphNode lib h previous node nodeKind recovery) :=
  .after preflight_funded fun _ => .bind reserveGraphStep_leads fun _ => Leads.free (Steady.leads
    (.bind (.askQuiet rfl rfl) fun _ => .bind .look fun _ => .bind (record_steady rfl) fun _ => .pure))

/-- A method that is there to end the run. -/
theorem finishWith_leads {outcome : RunOutcome} {kind : RunContext → AgentEventKind} :
    Leads lib .due .free (finishWith lib h outcome kind operation) :=
  Leads.free (Steady.leads (.bind (preflight_steady Terms.due_clocked) fun _ =>
    .bind commitFinished_steady fun _ => .bind .look fun _ => .nextEvent fun _ _ =>
      auditLifecycle_steady Terms.due_allows))

theorem cancelRun_leads : Leads lib .due .free (cancelRun lib h) :=
  Leads.free (Steady.leads (.bind requireStatus_steady fun _ => .bind runtime_steady fun _ =>
    .bind commitFinished_steady fun _ => .nextEvent fun _ _ =>
      auditTerminalBestEffort_steady Terms.due_allows))

end Progress

/-! ## Durable waits -/

section Durable

theorem loadWait_steady {key : RunKey} {waitId : DurableApprovalWaitId} :
    Steady lib F (loadWait h key waitId) := by
  refine .ite (.bind (.askQuiet rfl rfl) fun x => ?_) .fail
  cases x with
  | error e => exact .fail
  | ok record => exact .pure

theorem restoreArguments_steady {record : DurableApprovalRecord} {registered : ToolBinding} :
    Steady lib F (restoreArguments lib record registered) := by
  refine .bind (.askQuiet rfl rfl) fun _ => .bind mapErr_steady fun capsule => ?_
  dsimp only
  cases lib.validateArgumentLimits (localWriteArguments capsule) with
  | error e => exact .fail
  | ok u =>
    exact .ite .fail (.ite .fail (.bind (.askQuiet rfl rfl) fun _ => .bind mapErr_steady fun _ => .pure))

theorem restoreLocalWrite_steady {record : DurableApprovalRecord} {state : DurableRunState} :
    Steady lib F (restoreLocalWrite lib h record state) := by
  refine .ite .fail ?_
  cases h.workspaceBindingId with
  | none => exact .fail
  | some workspace =>
    refine .ite .fail ?_
    cases h.tools.get durableLocalWriteToolName with
    | none => exact .fail
    | some registered =>
      exact .ite .fail (.bind (.askQuiet rfl rfl) fun _ => .ite .fail (.ite .fail restoreArguments_steady))

/-- The event that a status change carries does not end the run. -/
theorem advanceStatus_steady {event : Option AgentEvent} {record : DurableApprovalRecord}
    {waitId : DurableApprovalWaitId} {expected next : DurableApprovalStatus}
    (hkind : ∀ e, event = some e → e.kind.isFinish = false) :
    Steady lib F (advanceStatus record waitId event expected next) := by
  refine .bind .look fun c => .bind (.ask rfl fun t ht => .other ?_) fun x => ?_
  · obtain ⟨e, he, rfl⟩ := Option.map_eq_some_iff.mp ht
    exact hkind e he
  · cases x with
    | ok u => exact .pure
    | error err => exact .bind markPersistenceFailed_steady fun _ => .fail

/-- A wait that is created outlives the reasons of before. -/
theorem createDurableApprovalWait_leads {t : AppendTransition} {record : DurableApprovalRecord}
    {degraded : Bool} (hkind : t.event.kind.isFinish = false) :
    Leads lib F .free (ask (.createDurableApprovalWait t record degraded)) := by
  refine fun c v hc => ⟨hc.permits fun t' ht => ?_, fun a _ _ => ⟨hc.keeps, .inr trivial⟩⟩
  obtain rfl := Option.some.inj ht
  exact .other hkind

theorem sealAndSuspend_leads {action : ValidatedAction lib} {durable : DurableActionContext}
    {workspace : WorkspaceBindingId} {capsule : LocalWriteActionCapsule} {digest : ToolContractDigest}
    {ids : SuspensionIds} : Leads lib (.funded [.approvalRequests]) .free
      (sealAndSuspend lib h action durable workspace capsule digest ids) := by
  refine .after (recordRequired_steady rfl) fun _ =>
    .bind (reserveApprovalRequest_leads (List.nil_subset _)) fun _ => .after .look fun c =>
      .after (.askQuiet rfl rfl) fun x => ?_
  cases x with
  | error err => exact .fail
  | ok loaded =>
    refine .after (recordRequired_steady rfl) fun _ => .after (.askQuiet rfl rfl) fun _ =>
      .after mapErr_steady fun sealedAction => .after trustedUnixMillis_steady fun suspendedAt =>
        .after .look fun c => .after .ofExcept fun startedAt => ?_
    cases checkedSub suspendedAt startedAt with
    | none => exact .fail
    | some active =>
      refine Leads.nextEvent fun e he => .after .look fun c =>
        .bind (createDurableApprovalWait_leads (by rw [transitionForEvent, he]; rfl)) fun x => ?_
      cases x with
      | error err => exact .after markPersistenceFailed_steady fun _ => .fail
      | ok u => exact auditAlreadyPersisted_steady.leads

theorem suspendDurableLocalWrite_leads {action : ValidatedAction lib} {durable : DurableActionContext} :
    Leads lib (.funded [.approvalRequests]) .free (suspendDurableLocalWrite lib h action durable) := by
  refine .after preflight_funded fun _ => .ite .fail (.ite .fail ?_)
  cases h.workspaceBindingId with
  | none => exact .fail
  | some workspace =>
    refine .after .look fun c => .ite .fail (.ite .fail (.after (.askQuiet rfl rfl) fun decision =>
      .ite .fail ?_))
    cases h.tools.get action.toolName with
    | none => exact .fail
    | some binding =>
      exact .ite .fail (.ite .fail (.after (.askQuiet rfl rfl) fun _ => .after mapErr_steady fun _ =>
        .after .ofExcept fun capsule => .after (.askQuiet rfl rfl) fun _ =>
          .after (.askQuiet rfl rfl) fun _ => .after (.askQuiet rfl rfl) fun _ => sealAndSuspend_leads))

theorem recordResumed_steady {waiting : WaitingBinding} {record : DurableApprovalRecord}
    {waitId : DurableApprovalWaitId} {expected next : DurableApprovalStatus} :
    Steady lib F (recordResumed lib h waiting record waitId expected next) :=
  .bind trustedUnixMillis_steady fun _ => .nextEvent fun e he => .bind (advanceStatus_steady fun e' he' => by
    cases he'
    rw [he]
    rfl) fun _ => auditAlreadyPersisted_steady

theorem executeApproved_leads {waiting : WaitingBinding} {action : ValidatedAction lib}
    {record : DurableApprovalRecord} {waitId : DurableApprovalWaitId} :
    Leads lib (.funded [.toolCalls]) .free (executeApproved lib h waiting action record waitId) := by
  refine .bind reserveToolCall_leads fun _ => Leads.free (Steady.leads (.bind .look fun c =>
    .nextEvent fun e he => .bind (advanceStatus_steady fun e' he' => ?_) fun _ =>
      .bind auditAlreadyPersisted_steady fun _ => .bind invokeContainedToolPort_steady.attempt fun _ =>
        .bind finishToolInvocation_steady fun _ => .bind loadWait_steady fun _ =>
          .bind (advanceStatus_steady nofun) fun _ => .pure))
  cases he'
  rw [he]
  rfl

theorem resumeApproved_leads {waiting : WaitingBinding} {state : DurableRunState}
    {record : DurableApprovalRecord} {waitId : DurableApprovalWaitId} :
    Leads lib (.funded [.toolCalls]) .free (resumeApproved lib h waiting state record waitId) :=
  .after restoreLocalWrite_steady fun _ => .after (.ite (.bind (recordRequired_steady rfl) fun _ =>
    .bind (advanceStatus_steady nofun) fun _ => loadWait_steady) .pure) fun _ =>
      .after recordResumed_steady fun _ => .after loadWait_steady fun _ => .after preflight_funded fun _ =>
        executeApproved_leads

theorem resumeDurableLocalWrite_leads {state : DurableRunState} {waitId : DurableApprovalWaitId} :
    Leads lib (.funded [.toolCalls]) .free (resumeDurableLocalWrite lib h state waitId) := by
  refine .after .ofExcept fun waiting => .after .look fun c => .after loadWait_steady fun record => ?_
  cases record.status with
  | decisionRecordedDeny =>
    exact Leads.free (Steady.leads (.bind (recordRequired_steady rfl) fun _ => .bind loadWait_steady
      fun _ => .bind recordResumed_steady fun _ => .pure))
  | decisionRecordedApprove => exact resumeApproved_leads
  | approvedReady => exact resumeApproved_leads
  | waiting => exact .fail
  | executing => exact .fail
  | consumed => exact .fail

end Durable

/-! ## Starting -/

/-- A run that was just created may be ended. -/
theorem createRun_leads (hpersists : h.persistence = true) {authorization : Option DurableRunAuthorization} :
    Leads lib (.funded []) .due (createRun h authorization) := by
  intro c v hc
  unfold createRun
  rw [if_pos hpersists]
  refine Task.wp_look_bind.mpr ⟨Ending.permits_silent rfl, fun a => ?_⟩
  cases a with
  | error err => exact fun x hx => by cases hx
  | ok u => exact fun x _ => ⟨hc.keeps, .inl rfl⟩

theorem commitRunning_steady : Steady lib .due commitRunning := by
  refine .bind (.askQuiet rfl rfl) fun now => .bind (.askQuiet rfl rfl) fun wall => ?_
  intro c v hc
  refine Task.wp_look_bind.mpr ?_
  cases c.commitRunning now wall with
  | error err => exact hc
  | ok c' => exact hc.of_due

theorem startRun_leads (hpersists : h.persistence = true) {authorization : Option DurableRunAuthorization} :
    Leads lib (.funded []) .free (startRun lib h authorization) := by
  refine .after requireStatus_steady fun _ => .bind (createRun_leads hpersists) fun _ =>
    Leads.free (Steady.leads (.bind commitRunning_steady fun _ => .bind .look fun c => .bind .ofExcept
      fun startedAt => .nextEvent fun e _ =>
        .bind (auditLifecycle_steady Terms.due_allows).attempt fun x => ?_))
  cases x with
  | ok u => exact .pure
  | error err => exact .ite (.bind terminalize_steady fun _ => .fail) .fail

/-! ## Deciding and aborting -/

section Recovered

variable {v : Ending lib}

theorem recoverRun_told {σ : Type} {key : RunKey} {s : σ} : Task.wp (endingMonitor lib)
    (recoverRun lib h key) (fun x _ v' => v'.command = v.command ∧
      ∀ d, x = .ok d → v.givesUp.isSome = true → v'.due = true) s v := by
  have hplain : ∀ (u : Ending lib) (r : Request) (a : Answer r), r.isPlain = true → u.due = true →
      (u.observe r a).due = true := fun u r a hr hu => by
    rw [Ending.observe_due hr, hu, Bool.true_or]
  unfold recoverRun
  by_cases hp : h.persistence = true
  · rw [if_pos hp]
    have hload : v.permits (.loadRun .recovery key) := Ending.permits_silent rfl
    refine Task.wp_ask_bind.mpr ⟨hload, fun a => ?_⟩
    cases a with
    | error err => exact ⟨rfl, fun d hd => by cases hd⟩
    | ok loaded =>
      have hdue : v.givesUp.isSome = true → (v.observe (.loadRun .recovery key) (.ok loaded)).due = true := id
      have hwall : (v.observe (.loadRun .recovery key) (.ok loaded)).permits .wallClock :=
        Ending.permits_silent rfl
      refine Task.wp_bind.mpr (Task.wp_ask_bind.mpr ⟨hwall, fun wall => ?_⟩)
      cases wall with
      | none => exact ⟨rfl, fun d hd => by cases hd⟩
      | some wall =>
        have hnow : ((v.observe (.loadRun .recovery key) (.ok loaded)).observe .wallClock
            (some wall)).permits .instantNow := Ending.permits_silent rfl
        refine ⟨hnow, fun now => ⟨rfl, fun d _ hgives => ?_⟩⟩
        exact hplain _ _ _ rfl (hplain _ _ _ rfl (hdue hgives))
  · rw [if_neg hp]
    exact ⟨rfl, fun d hd => by cases hd⟩

/-- A method on a run that is read first. -/
theorem withWaitingRun_told {key : RunKey} {body : RecoveredRun → HarnessM α} {Q : Ending lib → Prop}
    (herr : ∀ v', v'.command = v.command → Q v')
    (hbody : ∀ recovered v', v'.command = v.command → (v.givesUp.isSome = true → v'.due = true) →
      Task.wp (endingMonitor lib) (body recovered) (fun _ _ => Q) recovered.context v') :
    (withWaitingRun lib h key body).wp (endingMonitor lib) (fun _ => Q) v := by
  refine Prog.wp_bind.mpr (Prog.wp_mono (recoverRun_told (v := v)) ?_)
  rintro ⟨x, u⟩ v' ⟨hcommand, hdue⟩
  cases x with
  | error err => exact herr v' hcommand
  | ok d =>
    cases d with
    | waiting recovered =>
      exact Prog.wp_bind.mpr (Prog.wp_mono (hbody recovered v' hcommand (hdue _ rfl)) fun _ _ hq => hq)
    | _ => exact herr v' hcommand

theorem givesUp_congr {v' : Ending lib} (h : v'.command = v.command) : v'.givesUp = v.givesUp := by
  unfold Ending.givesUp
  rw [h]

/-- If nothing is given up. -/
theorem withWaitingRun_steady {key : RunKey} {body : RecoveredRun → HarnessM α}
    (hbody : ∀ recovered, Steady lib .free (body recovered)) (hkeeps : v.givesUp = none) :
    (withWaitingRun lib h key body).wp (endingMonitor lib) (fun _ v' => v'.givesUp = none) v := by
  refine withWaitingRun_told (fun v' hv' => (givesUp_congr hv').trans hkeeps) fun recovered v' hv' _ => ?_
  exact Task.wp_mono (hbody recovered recovered.context v' ⟨(givesUp_congr hv').trans hkeeps, .inr trivial⟩)
    fun _ _ _ hready => hready.keeps

theorem durableApprovalView_told {key : RunKey} {waitId : DurableApprovalWaitId}
    (hkeeps : v.givesUp = none) : (durableApprovalView lib h key waitId).wp (endingMonitor lib)
      (fun _ v' => v'.givesUp = none) v :=
  withWaitingRun_steady (fun _ => .bind loadWait_steady fun _ => .bind restoreLocalWrite_steady
    fun _ => .pure) hkeeps

theorem recordDurableApprovalDecision_told {command : DurableApprovalDecisionCommand}
    (hkeeps : v.givesUp = none) : (recordDurableApprovalDecision lib h command).wp (endingMonitor lib)
      (fun _ v' => v'.givesUp = none) v := by
  refine withWaitingRun_steady (fun recovered => .bind .ofExcept fun waiting => .ite .fail ?_) hkeeps
  cases checkedNext command.expectedRowVersion with
  | none => exact .fail
  | some version =>
    refine .nextEvent fun e he => .bind .look fun c => .bind (.ask rfl fun t ht => .other ?_) fun x => ?_
    · obtain rfl := Option.some.inj ht
      rw [transitionForEvent, he]
      rfl
    · cases x with
      | error err => exact .bind markPersistenceFailed_steady fun _ => .fail
      | ok u => exact auditAlreadyPersisted_steady

theorem recordDurableApprovalOutcome_told {key : RunKey} {waitId : DurableApprovalWaitId} {version : Nat}
    {outcome : DurableApprovalOutcome} {actor : Option (PrincipalId × Nat)} (hkeeps : v.givesUp = none) :
    (recordDurableApprovalOutcome lib h key waitId version outcome actor).wp (endingMonitor lib)
      (fun _ v' => v'.givesUp = none) v := by
  refine Prog.wp_bind.mpr (Prog.wp_mono (withWaitingRun_steady (fun _ => .ofExcept) hkeeps) ?_)
  intro x v' hv'
  cases x with
  | error err => exact hv'
  | ok waiting => exact recordDurableApprovalDecision_told hv'

/-- The run of a finished context is not ended again. -/
theorem auditAlreadyPersisted_finished {c : RunContext} {e : AgentEvent} {operation : HarnessOperation}
    {phase : AuditPhase} {effect : OperationEffect} (hstatus : c.status ≠ .running) :
    Task.wp (endingMonitor lib) (auditAlreadyPersisted lib h e operation phase effect false)
      (fun _ _ _ => True) c v := by
  have hfailed : ∀ kind v, Task.wp (endingMonitor lib)
      (applyAuditFailure lib h operation phase effect kind) (fun _ _ _ => True) c v := by
    intro kind v
    unfold applyAuditFailure
    cases h.auditFailurePolicy with
    | failClosed => trivial
    | failOpen =>
      refine Task.wp_bind.mpr (Ending.nextEvent_step (fun e c' _ _ hkind => ?_) fun _ _ _ => trivial)
      unfold persistTransition
      refine Task.wp_bind.mpr (Task.wp_look_bind.mpr (Task.wp_put.mpr ?_))
      by_cases hp : h.persistence = true
      · rw [if_pos hp]
        refine Task.wp_look_bind.mpr (Task.wp_ask_bind.mpr ⟨Ending.permits_other fun t ht => ?_, fun a => ?_⟩)
        · obtain rfl := Option.some.inj ht
          rw [transitionForEvent, hkind]
          rfl
        · cases a <;> trivial
      · rw [if_neg hp]
        trivial
  have hended : ∀ terminal (err : HarnessError) v, Task.wp (endingMonitor lib) (do
      terminalizeSafety lib h terminal
      (Task.fail err : HarnessM Unit)) (fun _ _ _ => True) c v := by
    intro terminal err v
    refine Task.wp_bind.mpr (Task.wp_look_bind.mpr ?_)
    rw [if_neg hstatus]
    trivial
  refine Task.wp_bind.mpr (Task.wp_look_bind.mpr ?_)
  cases c.runtime with
  | none => exact hfailed _ v
  | some r =>
    refine Task.wp_ask_bind.mpr ⟨Ending.permits_silent (r := .audit .bounded e) rfl, fun a => ?_⟩
    cases a with
    | ready result =>
      cases result with
      | ok u => trivial
      | error err => exact hfailed err _
    | cancelled => exact hended _ _ _
    | deadlineExceeded => exact hended _ _ _

theorem commitFinished_told {c : RunContext} {outcome : RunOutcome}
    {Q : Except HarnessError Unit → RunContext → Ending lib → Prop} (herr : ∀ err, Q (.error err) c v)
    (hok : ∀ c', c'.status ≠ .running → Q (.ok ()) c' v) :
    Task.wp (endingMonitor lib) (commitFinished outcome) Q c v := by
  refine Task.wp_look_bind.mpr ?_
  cases hfinish : c.commitFinished outcome with
  | error err => exact herr _
  | ok c' =>
    refine hok c' ?_
    unfold RunContext.commitFinished RunStatus.finish at hfinish
    rintro hrunning
    split at hfinish
    · cases hfinish
    · rename_i status hstatus
      cases hfinish
      split at hstatus <;> cases hstatus
      cases hrunning

theorem loadWait_due {key : RunKey} {waitId : DurableApprovalWaitId} {c : RunContext}
    {Q : Except HarnessError DurableApprovalRecord → RunContext → Ending lib → Prop}
    (hQ : ∀ x v', v'.command = v.command → (v.due = true → v'.due = true) → Q x c v') :
    Task.wp (endingMonitor lib) (loadWait h key waitId) Q c v := by
  unfold loadWait
  by_cases hp : h.persistence = true
  · rw [if_pos hp]
    have hload : v.permits (.loadDurableApprovalWait key waitId) := Ending.permits_silent rfl
    refine Task.wp_ask_bind.mpr ⟨hload, fun a => ?_⟩
    have hdue : v.due = true → (v.observe (.loadDurableApprovalWait key waitId) a).due = true := fun h => by
      rw [Ending.observe_due rfl, h, Bool.true_or]
    cases a with
    | error err => exact hQ _ _ rfl hdue
    | ok record => exact hQ _ _ rfl hdue
  · rw [if_neg hp]
    exact hQ _ _ rfl id

/-- **`abort_durable_waiting`** ends the run that it has read, and consumes the wait with it. -/
theorem abortDurableWaiting_told {key : RunKey} {waitId : DurableApprovalWaitId} {version : Nat}
    (hgives : v.givesUp = some waitId) :
    (abortDurableWaiting lib h key waitId version).wp (endingMonitor lib) (fun _ _ => True) v := by
  refine withWaitingRun_told (Q := fun _ => True) (fun _ _ => trivial) fun recovered v₁ hv₁ hdue => ?_
  refine Task.wp_bind.mpr (Task.wp_ofExcept.mpr ?_)
  cases waitingPosition recovered.state waitId with
  | error err => trivial
  | ok waiting =>
    refine Task.wp_bind.mpr (loadWait_due fun x v₂ hv₂ hdue₂ => ?_)
    cases x with
    | error err => trivial
    | ok record =>
      dsimp only
      split
      · trivial
      · refine Task.wp_bind.mpr (commitFinished_told (fun _ => trivial) fun c hended => ?_)
        refine Task.wp_bind.mpr (Ending.nextEvent_step (fun e c' _ hstatus hkind => ?_) fun _ _ _ => trivial)
        have hpermits : v₂.permits (.transitionDurableApprovalStatus
            ⟨some (transitionForEvent c' e true), key, waitId, version, .waiting, .consumed⟩) := by
          refine ⟨fun _ _ _ => hdue₂ (hdue (by rw [hgives]; rfl)), fun t w _ _ hw => ⟨_, rfl, ?_, rfl⟩⟩
          rw [givesUp_congr (hv₂.trans hv₁), hgives] at hw
          exact Option.some.inj hw
        refine Task.wp_look_bind.mpr (Task.wp_ask_bind.mpr ⟨hpermits, fun a => ?_⟩)
        cases a with
        | error err => trivial
        | ok u => exact auditAlreadyPersisted_finished (hstatus ▸ hended)

end Recovered

/-! ## Commands -/

section Commands

/-- What a method starts from: one that is there to end the run has its reason. -/
def Operation.terms (operation : Operation lib) : Terms :=
  if operation.finishes then .due else .funded operation.reserves

theorem discarded_leads {F' : Terms} {m : HarnessM α} (hm : Leads lib F F' m) :
    Leads lib F F' (do let _ ← m) := hm.bind fun _ => Steady.pure.leads

theorem method_leads (hpersists : h.persistence = true) {operation : Operation lib} {m : HarnessM Unit}
    (hm : operation.method h = some m) : Leads lib operation.terms .free m := by
  cases operation with
  | startRun =>
    obtain rfl := Option.some.inj hm
    exact startRun_leads hpersists
  | invokeModel =>
    obtain rfl := Option.some.inj hm
    exact discarded_leads invokeModelInternal_leads
  | invokeGroundedModel =>
    obtain rfl := Option.some.inj hm
    exact discarded_leads invokeGroundedModel_leads
  | retrieveKnowledge =>
    obtain rfl := Option.some.inj hm
    exact discarded_leads retrieveKnowledge_leads
  | prepareAction =>
    obtain rfl := Option.some.inj hm
    exact discarded_leads prepareAction_leads
  | invokeValidatedAction =>
    obtain rfl := Option.some.inj hm
    exact discarded_leads invokeValidatedAction_leads
  | invokeTool =>
    obtain rfl := Option.some.inj hm
    exact discarded_leads invokeTool_leads
  | suspendDurableLocalWrite =>
    obtain rfl := Option.some.inj hm
    exact suspendDurableLocalWrite_leads
  | checkpoint =>
    obtain rfl := Option.some.inj hm
    exact checkpoint_leads
  | beginIteration =>
    obtain rfl := Option.some.inj hm
    exact discarded_leads beginIteration_leads
  | recordLoopProgress =>
    obtain rfl := Option.some.inj hm
    exact recordLoopProgress_leads
  | enterGraphNode =>
    obtain rfl := Option.some.inj hm
    exact discarded_leads enterGraphNode_leads
  | restartGraphNode =>
    obtain rfl := Option.some.inj hm
    exact discarded_leads restartGraphNode_leads
  | startGraph | completeGraphNode =>
    obtain rfl := Option.some.inj hm
    exact recorded_leads rfl
  | completeGraph | failGraph | completeRun | failRun =>
    obtain rfl := Option.some.inj hm
    exact finishWith_leads
  | cancelRun =>
    obtain rfl := Option.some.inj hm
    exact cancelRun_leads
  | newContext | recoverRun | durableApprovalView | recordDurableApprovalDecision
  | recordDurableApprovalOutcome | abortDurableWaiting | resumeDurableLocalWrite => cases hm

variable {cmd : Command lib}

/-- What an observer knows when a command begins. -/
def Command.ending (cmd : Command lib) (held : Holding) : Ending lib :=
  ⟨some cmd, held.offers, held.offers.any cmd.endsRun⟩

theorem ready_ending {c : RunContext} {held : Holding} (hheld : held.offers = some c)
    (hgives : cmd.operation.givesUp = none) : Ready cmd.operation.terms c (cmd.ending held) := by
  refine ⟨hgives, ?_⟩
  unfold Command.ending Operation.terms
  rw [hheld, Option.any_some]
  by_cases hends : cmd.endsRun c = true
  · exact .inl hends
  · right
    obtain ⟨hfinishes, hspent⟩ := Bool.or_eq_false_iff.mp (Bool.not_eq_true _ ▸ hends)
    rw [hfinishes]
    exact ⟨fun r hr => hr, fun d hd => Bool.not_eq_true _ ▸ List.any_eq_false.mp hspent d hd⟩

theorem method_told (hpersists : cmd.harness.persistence = true) {held : Holding} (held' : Holding)
    {c : RunContext} (hheld : held.offers = some c) : Prog.wp (endingMonitor lib)
      (match cmd.operation.method cmd.harness with
        | some m => onContext m c
        | none => .pure held') (fun _ _ => True) (cmd.ending held) := by
  cases hm : cmd.operation.method cmd.harness with
  | none => trivial
  | some m =>
    have hgives : cmd.operation.givesUp = none := by
      cases hop : cmd.operation with
      | abortDurableWaiting =>
        rw [hop] at hm
        cases hm
      | _ => rfl
    exact Prog.wp_bind.mpr (Prog.wp_mono (method_leads hpersists hm c _ (ready_ending hheld hgives))
      fun _ _ _ => trivial)

theorem onNothing_told {p : Prog Answer (Except HarnessError α)} {v : Ending lib}
    {Q : Except HarnessError α → Ending lib → Prop} (hp : p.wp (endingMonitor lib) Q v) :
    (onNothing p).wp (endingMonitor lib) (fun _ _ => True) v :=
  Prog.wp_bind.mpr (Prog.wp_mono hp fun _ _ _ => trivial)

/-- **No command sends the end of its run without a reason.** -/
theorem Command.code_told (hpersists : cmd.harness.persistence = true) (held : Holding) :
    (cmd.code held).wp (endingMonitor lib) (fun _ _ => True) (cmd.ending held) := by
  cases held with
  | context c =>
    have hmethod := method_told hpersists (.context c) (show Holding.offers (.context c) = some c from rfl)
    unfold Command.code
    cases hop : cmd.operation with
    | newContext => trivial
    | _ =>
      rw [hop] at hmethod
      exact hmethod
  | waiting recovered =>
    have hmethod := method_told hpersists (.waiting recovered)
      (show Holding.offers (.waiting recovered) = some recovered.context from rfl)
    unfold Command.code
    cases hop : cmd.operation with
    | newContext => trivial
    | resumeDurableLocalWrite waitId =>
      have hready : Ready cmd.operation.terms recovered.context (cmd.ending (.waiting recovered)) :=
        ready_ending rfl (by rw [hop]; rfl)
      rw [hop] at hready
      refine Prog.wp_bind.mpr (Prog.wp_mono (resumeDurableLocalWrite_leads recovered.context _ hready) ?_)
      rintro ⟨x, c⟩ v _
      cases x <;> trivial
    | _ =>
      rw [hop] at hmethod
      exact hmethod
  | nothing =>
    unfold Command.code
    cases hop : cmd.operation with
    | recoverRun key =>
      refine Prog.wp_bind.mpr (Prog.wp_mono (recoverRun_told (s := ())) ?_)
      rintro ⟨x, u⟩ v _
      cases x with
      | error err => trivial
      | ok d => cases d <;> trivial
    | durableApprovalView =>
      refine onNothing_told (durableApprovalView_told ?_)
      simp [Ending.givesUp, Command.ending, hop, Operation.givesUp]
    | recordDurableApprovalDecision =>
      refine onNothing_told (recordDurableApprovalDecision_told ?_)
      simp [Ending.givesUp, Command.ending, hop, Operation.givesUp]
    | recordDurableApprovalOutcome =>
      refine onNothing_told (recordDurableApprovalOutcome_told ?_)
      simp [Ending.givesUp, Command.ending, hop, Operation.givesUp]
    | abortDurableWaiting =>
      refine onNothing_told (abortDurableWaiting_told ?_)
      simp [Ending.givesUp, Command.ending, hop, Operation.givesUp]
    | _ => trivial

/-- Every command of a setting that persists keeps to the monitor. -/
theorem Setting.endings_sound (S : Setting lib) (hpersists : S.Persists) : S.endings.Sound where
  blank := trivial
  code cmd held _ hadmits _ := Command.code_told (hpersists cmd hadmits) held

end Commands

/-! ## Where the reason is -/

section

variable {S : Setting lib} {h : S.clients.History} {i : Nat}

/-- The monitor knows the command that a client runs and what this began on. -/
theorem Setting.endings_view : (S.endings.view i h).command = S.clients.running i h ∧
    (S.endings.view i h).context = (S.clients.held i h).bind Holding.offers := by
  induction h using List.reverseRecOn with
  | nil => exact ⟨rfl, rfl⟩
  | append_singleton h act ih =>
    obtain ⟨j, e⟩ := act
    by_cases hij : i = j
    · subst hij
      rw [Watch.view_self]
      cases e with
      | began cmd held =>
        rw [Machine.running_began, Machine.held_began]
        exact ⟨rfl, rfl⟩
      | did r a =>
        rw [Machine.running_did, Machine.held_did]
        exact ih
      | crashed =>
        rw [Machine.running_crashed, Machine.held_crashed]
        exact ⟨rfl, rfl⟩
    · rw [Watch.view_other _ hij, Machine.running_other hij, Machine.held_other hij]
      exact ih

/-- The act is a reason to end the run that its client works on. -/
inductive Ending.Reason (v : Ending lib) : S.clients.Act → Prop
  | called {cmd : Command lib} {held : Holding} {c : RunContext} (offers : held.offers = some c)
      (ends : cmd.endsRun c = true) : Reason v (.began cmd held)
  | created {record : RunRecord} {r : Request} {a : Answer r} (opened : r.openedRun a = some ⟨record, []⟩) :
      Reason v (.did r a)
  | read {key : RunKey} {loaded : LoadedRun} {waitId : DurableApprovalWaitId}
      (aborts : v.givesUp = some waitId) : Reason v (.did (.loadRun .recovery key) (.ok loaded))
  | stopped {r : Request} {a : Answer r} (stops : stopsRun v.context r a = true) : Reason v (.did r a)

/-- The client turns to another run, or suspends the one it works on. -/
def turns : S.clients.Act → Bool
  | .began .. | .crashed => true
  | .did r a => (r.openedRun a).isSome || r matches .createDurableApprovalWait ..

theorem Ending.due_step {v : Ending lib} {e : S.clients.Act} (hdue : (S.endings.update v e).due = true) :
    v.Reason e ∨ v.due = true ∧ (S.endings.update v e).givesUp = v.givesUp ∧ turns e = false := by
  cases e with
  | began cmd held =>
    obtain ⟨c, hc, hends⟩ := (Option.any_eq_true ..).mp hdue
    exact .inl (.called hc hends)
  | crashed => cases hdue
  | did r a =>
    have hplain : r.isPlain = true → turns (S := S) (.did r a) = false →
        v.Reason (S := S) (.did r a) ∨ v.due = true ∧
          (S.endings.update v (.did r a)).givesUp = v.givesUp ∧ turns (S := S) (.did r a) = false := by
      intro hr hturns
      have hobserved : (v.observe r a).due = true := hdue
      rw [Ending.observe_due hr] at hobserved
      rcases Bool.or_eq_true_iff.mp hobserved with hold | hstops
      · exact .inr ⟨hold, rfl, hturns⟩
      · exact .inl (.stopped hstops)
    cases r with
    | createRun record checkpoint =>
      cases a with
      | ok u => exact .inl (.created rfl)
      | error err =>
        rcases Bool.or_eq_true_iff.mp hdue with hold | hstops
        · exact .inr ⟨hold, rfl, rfl⟩
        · cases hstops
    | loadRun purpose key =>
      cases purpose with
      | authorization => exact hplain rfl rfl
      | recovery =>
        cases a with
        | ok loaded =>
          obtain ⟨waitId, haborts⟩ := Option.isSome_iff_exists.mp hdue
          exact .inl (.read haborts)
        | error err =>
          rcases Bool.or_eq_true_iff.mp hdue with hold | hstops
          · exact .inr ⟨hold, rfl, rfl⟩
          · cases hstops
    | createDurableApprovalWait => cases hdue
    | _ => exact hplain rfl rfl

/-- **Where there is a reason to end a run, an act gave it**, and its client has not turned to another
run since. -/
theorem Setting.reason_given (hdue : (S.endings.view i h).due = true) :
    ∃ q e, h[q]? = some (i, e) ∧ (S.endings.view i (h.take q)).Reason e ∧
      (S.endings.update (S.endings.view i (h.take q)) e).givesUp = (S.endings.view i h).givesUp ∧
      ∀ m e', q < m → h[m]? = some (i, e') → turns e' = false := by
  obtain ⟨q, e, hq, ⟨hreason, hgives⟩, hafter⟩ := Machine.Watch.raised (W := S.endings) (h := h) (i := i)
    (fun v => v.due = true ∧ v.givesUp = (S.endings.view i h).givesUp)
    (A := fun v e => v.Reason e ∧ (S.endings.update v e).givesUp = (S.endings.view i h).givesUp)
    (B := fun e => turns e = true) (fun hflag => by cases hflag.1) (fun v e hflag => by
      rcases Ending.due_step hflag.1 with hreason | ⟨hold, hsame, hturns⟩
      · exact .inl ⟨hreason, hflag.2⟩
      · exact .inr ⟨⟨hold, hsame.symm.trans hflag.2⟩, Bool.eq_false_iff.mp hturns⟩) ⟨hdue, rfl⟩
  exact ⟨q, e, hq, hreason, hgives, fun m e' hm hat => Bool.eq_false_iff.mpr (hafter m e' hm hat)⟩

end

end LocalAgent
