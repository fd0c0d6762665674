import LocalAgent.Harness.Durable

/-!
# Housekeeping

The helpers behind the methods of the harness read clocks, look at the cancellation token, append
events and ask for audit records. They ask nothing of a tool, a model, the knowledge port, the seal
or the approval tables.
-/
namespace LocalAgent

open Program

/-- The request reads a clock, draws an id, looks for a cancellation, appends an event or audits it. -/
def Request.housekeeping : Request → Bool
  | .freshUuid | .instantNow | .wallClock | .isCancelled _ | .audit .. | .appendTransition _ => true
  | _ => false

/-- The task makes such requests only. -/
abbrev Housekeeping {σ α : Type} (m : Task Answer HarnessError σ α) : Prop :=
  m.Only fun r => r.housekeeping = true

section Helpers

variable {lib : Library} {h : ExecutionHarness}

/-! ## Contexts and the clock -/

theorem nextEvent_housekeeping {kind : AgentEventKind} : Housekeeping (nextEvent lib kind) :=
  .bind .look fun _ => .bind .put fun _ => .ofExcept

theorem markAuditDegraded_housekeeping : Housekeeping markAuditDegraded := .bind .look fun _ => .put

theorem markPersistenceFailed_housekeeping : Housekeeping markPersistenceFailed := .bind .look fun _ => .put

theorem commitFinished_housekeeping {outcome : RunOutcome} : Housekeeping (commitFinished outcome) := by
  refine .bind .look fun c => ?_
  cases c.commitFinished outcome with
  | error e => exact .fail
  | ok c' => exact .put

theorem runtime_housekeeping : Housekeeping runtime := by
  refine .bind .look fun c => ?_
  cases c.runtime with
  | none => exact .fail
  | some r => exact .pure

theorem trustedUnixMillis_housekeeping {σ : Type} : Housekeeping (trustedUnixMillis (σ := σ)) := by
  refine .bind (.ask rfl) fun t => ?_
  cases t with
  | none => exact .fail
  | some t => exact .pure

theorem requireStatus_housekeeping {operation : HarnessOperation} {required : RunStatus} :
    Housekeeping (requireStatus operation required) :=
  .bind .look fun _ => .ite .fail (.ite .pure .fail)

theorem persistTransition_housekeeping {event : AgentEvent} : Housekeeping (persistTransition h event) := by
  refine .ite (.bind .look fun c => .bind (.ask rfl) fun x => ?_) .pure
  cases x with
  | ok u => exact .pure
  | error e => exact .bind markPersistenceFailed_housekeeping fun _ => .fail

theorem auditWithRunBounds_housekeeping {event : AgentEvent} : Housekeeping (auditWithRunBounds event) := by
  refine .bind .look fun c => ?_
  cases c.runtime with
  | none => exact .pure
  | some r =>
    refine .bind (.ask rfl) fun x => ?_
    cases x with
    | ready y => cases y <;> exact .pure
    | cancelled => exact .pure
    | deadlineExceeded => exact .pure

theorem auditWithTimeout_housekeeping {site : AuditSite} {event : AgentEvent} :
    Housekeeping (auditWithTimeout site event) := by
  refine .bind (.ask rfl) fun x => ?_
  cases x with
  | ready y => cases y <;> exact .pure
  | cancelled => exact .pure
  | deadlineExceeded => exact .pure

theorem auditTerminalBestEffort_housekeeping {event : AgentEvent} :
    Housekeeping (auditTerminalBestEffort h event) := by
  refine .bind persistTransition_housekeeping.attempt fun y => ?_
  cases y with
  | error e => exact markPersistenceFailed_housekeeping
  | ok u =>
    refine .bind auditWithTimeout_housekeeping fun z => ?_
    cases z with
    | none => exact .pure
    | some e => exact markAuditDegraded_housekeeping

theorem terminalize_housekeeping {outcome : RunOutcome} : Housekeeping (terminalize lib h outcome) := by
  refine .bind .look fun c => .ite ?_ .pure
  cases c.commitFinished outcome with
  | error e => exact markAuditDegraded_housekeeping
  | ok c' =>
    refine .bind .put fun _ => .bind nextEvent_housekeeping.attempt fun x => ?_
    cases x with
    | error e => exact markAuditDegraded_housekeeping
    | ok event => exact auditTerminalBestEffort_housekeeping

theorem recordAuditDegraded_housekeeping : Housekeeping (recordAuditDegraded lib h) :=
  .bind nextEvent_housekeeping fun _ => .bind markAuditDegraded_housekeeping fun _ => persistTransition_housekeeping

theorem applyAuditFailure_housekeeping {operation : HarnessOperation} {phase : AuditPhase}
    {effect : OperationEffect} {kind : AuditPortError} :
    Housekeeping (applyAuditFailure lib h operation phase effect kind) := by
  unfold applyAuditFailure
  cases h.auditFailurePolicy with
  | failClosed => exact .fail
  | failOpen => exact recordAuditDegraded_housekeeping

theorem auditAlreadyPersisted_housekeeping {event : AgentEvent} {operation : HarnessOperation}
    {phase : AuditPhase} {effect : OperationEffect} {required : Bool} :
    Housekeeping (auditAlreadyPersisted lib h event operation phase effect required) := by
  refine .bind auditWithRunBounds_housekeeping fun x => ?_
  cases x with
  | recorded => exact .pure
  | failed kind =>
    exact .ite (.bind recordAuditDegraded_housekeeping fun _ => .fail) applyAuditFailure_housekeeping
  | cancelled => exact .bind terminalize_housekeeping fun _ => .fail
  | deadlineExceeded => exact .bind terminalize_housekeeping fun _ => .fail

theorem auditLifecycle_housekeeping {event : AgentEvent} {operation : HarnessOperation} :
    Housekeeping (auditLifecycle lib h event operation) := by
  refine .bind persistTransition_housekeeping fun _ => .bind auditWithTimeout_housekeeping fun x => ?_
  cases x with
  | none => exact .pure
  | some kind => exact applyAuditFailure_housekeeping

section Records

variable {kind : AgentEventKind} {operation : HarnessOperation} {phase : AuditPhase}
  {effect : OperationEffect} {mode : ToolAudit}

theorem recordRequired_housekeeping : Housekeeping (recordRequired lib h kind operation phase effect) :=
  .bind nextEvent_housekeeping fun _ => .bind persistTransition_housekeeping fun _ => auditAlreadyPersisted_housekeeping

end Records

theorem preflight_housekeeping {operation : HarnessOperation} : Housekeeping (preflight lib h operation) := by
  refine .bind requireStatus_housekeeping fun _ => .bind runtime_housekeeping fun r => .bind .look fun c =>
    .bind (.ask rfl) fun cancelled => .ite (.bind terminalize_housekeeping fun _ => .fail) ?_
  exact .bind (.ask rfl) fun now => .ite (.bind terminalize_housekeeping fun _ => .fail) .pure

theorem reserve_housekeeping {α : Type} {f : RunContext → Except BudgetDimension (α × RunContext)} :
    Housekeeping (reserve lib h f) := by
  refine .bind .look fun c => ?_
  cases f c with
  | ok p => exact .bind .put fun _ => .pure
  | error dimension => exact .bind terminalize_housekeeping fun _ => .fail

end Helpers

end LocalAgent
