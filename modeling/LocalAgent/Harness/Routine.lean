import LocalAgent.Harness.Housekeeping

/-!
# Routine methods

Two requests open something in the store: `create_run` and `create_durable_approval_wait`. They are
made in one place each, by `start_run` and by `suspend_durable_local_write`. Every other method is
`Routine`: it makes neither, whatever it is answered.
-/
namespace LocalAgent

open Program

/-- The run that a request creates. -/
def Request.creates : Request → Option RunKey
  | .createRun record _ => some record.key
  | _ => none

/-- The request opens nothing in the store. -/
def Request.routine : Request → Bool
  | .createRun .. | .createDurableApprovalWait .. => false
  | _ => true

theorem Request.creates_of_routine {r : Request} (h : r.routine = true) : r.creates = none := by
  cases r with
  | createRun record checkpoint => cases h
  | _ => rfl

/-- Watches for requests that open something. -/
@[reducible] def routineOnly : Monitor Answer where
  View := Unit
  permits _ r := r.routine = true
  observe _ _ _ := ()

/-- The method makes routine requests only. -/
def Routine {σ α : Type} (m : Task Answer HarnessError σ α) : Prop :=
  ∀ c, m.wp routineOnly (fun _ _ _ => True) c ()

section Rules

variable {σ α β : Type} {m : Task Answer HarnessError σ α} {f : α → Task Answer HarnessError σ β}

theorem Routine.bind (hm : Routine m) (hf : ∀ a, Routine (f a)) : Routine (m >>= f) := by
  intro c
  refine Task.wp_bind.mpr (Task.wp_mono (hm c) fun x c' v _ => ?_)
  cases x with
  | ok a => exact hf a c'
  | error e => trivial

theorem Routine.pure {a : α} : Routine (pure a : Task Answer HarnessError σ α) := fun _ => trivial

theorem Routine.fail {e : HarnessError} : Routine (Task.fail e : Task Answer HarnessError σ α) :=
  fun _ => trivial

theorem Routine.ofExcept {x : Except HarnessError α} :
    Routine (Task.ofExcept x : Task Answer HarnessError σ α) := fun _ => trivial

theorem Routine.look : Routine (Task.look : Task Answer HarnessError σ σ) := fun _ => trivial

theorem Routine.put {c : σ} : Routine (Task.put c : Task Answer HarnessError σ Unit) := fun _ => trivial

theorem Routine.ask {r : Request} (h : r.routine = true) :
    Routine (ask r : Task Answer HarnessError σ (Answer r)) := fun _ => ⟨h, fun _ => trivial⟩

theorem Routine.attempt (hm : Routine m) : Routine m.attempt := fun c => Task.wp_attempt.mpr (hm c)

theorem Routine.ite {p : Prop} [Decidable p] {m' : Task Answer HarnessError σ α} (h : Routine m)
    (h' : Routine m') : Routine (if p then m else m') := by
  by_cases hp : p
  · rw [if_pos hp]
    exact h
  · rw [if_neg hp]
    exact h'

theorem routine_of_housekeeping {r : Request} (h : r.housekeeping = true) : r.routine = true := by
  cases r <;> first | rfl | cases h

theorem Housekeeping.routine (h : Housekeeping m) : Routine m :=
  fun c => (h c).wp (I := fun _ => True) (fun _ _ _ hr => ⟨routine_of_housekeeping hr, fun _ => trivial⟩)
    trivial

end Rules

section Helpers

variable {lib : Library} {h : ExecutionHarness}

/-! ## Ports and tools -/

end Helpers

/-! ## Operations -/

section Operations

variable {lib : Library} {h : ExecutionHarness}

theorem recoverRun_routine {σ : Type} {key : RunKey} : Routine (recoverRun lib h (σ := σ) key) := by
  refine .ite (.bind (.ask rfl) fun x => ?_) .fail
  cases x with
  | error e => exact .fail
  | ok loaded => exact .bind trustedUnixMillis_housekeeping.routine fun _ => .bind (.ask rfl) fun _ => .ofExcept

/-- What comes after `create_run` in `start_run_record`. -/
theorem started_routine (lib : Library) (h : ExecutionHarness) : Routine (do
    commitRunning
    let startedAt ← Task.ofExcept ((← Task.look).startedAtUnixMillis.mapError .context)
    let event ← nextEvent lib (.runStarted startedAt)
    match ← (auditLifecycle lib h event .startRun).attempt with
    | .ok _ => pure ()
    | .error e =>
      if h.auditFailurePolicy = .failClosed then do
        terminalizeAfterStartAuditFailure lib h
        Task.fail e
      else Task.fail e : HarnessM Unit) := by
  refine .bind ?_ fun _ => .bind .look fun c => .bind .ofExcept fun startedAt =>
    .bind nextEvent_housekeeping.routine fun event => .bind auditLifecycle_housekeeping.routine.attempt fun x => ?_
  · refine .bind (.ask rfl) fun now => .bind (.ask rfl) fun wall => .bind .look fun c => ?_
    cases c.commitRunning now wall with
    | error e => exact .fail
    | ok c' => exact .put
  · cases x with
    | ok u => exact .pure
    | error e => exact .ite (.bind terminalize_housekeeping.routine fun _ => .fail) .fail

theorem loadWait_routine {σ : Type} {key : RunKey} {waitId : DurableApprovalWaitId} :
    Routine (loadWait h (σ := σ) key waitId) := by
  refine .ite (.bind (.ask rfl) fun x => ?_) .fail
  cases x with
  | error e => exact .fail
  | ok record => exact .pure

/-- What is done on a waiting run. -/
theorem withWaitingRun_routine {α : Type} {key : RunKey} {body : RecoveredRun → HarnessM α}
    (hbody : ∀ recovered, Routine (body recovered)) :
    (withWaitingRun lib h key body).wp routineOnly (fun _ _ => True) () := by
  have hrecover : Routine (recoverRun lib h (σ := Unit) key) := recoverRun_routine
  refine Prog.wp_bind.mpr (Prog.wp_mono (hrecover ()) ?_)
  rintro ⟨x, u⟩ v -
  cases x with
  | error e => trivial
  | ok d =>
    cases d with
    | waiting recovered => exact Prog.wp_bind.mpr (hbody recovered recovered.context)
    | _ => trivial

theorem recordDurableApprovalDecision_routine {command : DurableApprovalDecisionCommand} :
    (recordDurableApprovalDecision lib h command).wp routineOnly (fun _ _ => True) () := by
  refine withWaitingRun_routine fun recovered => .bind .ofExcept fun waiting => .ite .fail ?_
  cases checkedNext command.expectedRowVersion with
  | none => exact .fail
  | some next =>
    refine .bind nextEvent_housekeeping.routine fun event => .bind .look fun c => .bind (.ask rfl) fun x => ?_
    cases x with
    | error e => exact .bind markPersistenceFailed_housekeeping.routine fun _ => .fail
    | ok u => exact auditAlreadyPersisted_housekeeping.routine

theorem recordDurableApprovalOutcome_routine {key : RunKey} {waitId : DurableApprovalWaitId}
    {version : Nat} {outcome : DurableApprovalOutcome} {actor : Option (PrincipalId × Nat)} :
    (recordDurableApprovalOutcome lib h key waitId version outcome actor).wp routineOnly
      (fun _ _ => True) () := by
  refine Prog.wp_bind.mpr (Prog.wp_mono (withWaitingRun_routine fun _ => .ofExcept) ?_)
  rintro (e | waiting) v -
  · trivial
  · exact recordDurableApprovalDecision_routine

theorem abortDurableWaiting_routine {key : RunKey} {waitId : DurableApprovalWaitId} {version : Nat} :
    (abortDurableWaiting lib h key waitId version).wp routineOnly (fun _ _ => True) () := by
  refine withWaitingRun_routine fun recovered => .bind .ofExcept fun waiting => .bind loadWait_routine
    fun record => .ite .fail (.bind commitFinished_housekeeping.routine fun _ => .bind nextEvent_housekeeping.routine fun event =>
      .bind .look fun c => .bind (.ask rfl) fun x => ?_)
  cases x with
  | error e => exact .fail
  | ok u => exact auditAlreadyPersisted_housekeeping.routine

end Operations

end LocalAgent
