import Mathlib.Algebra.Group.Nat.Defs

/-!
# Identities, machine counters, budgets and run status (`agent-core`)

Unsigned machine integers are natural numbers; the places where the source saturates or
checks (`saturating_add`, `checked_next`, `checked_sub`) are spelled out below, so nothing
wraps silently. `Duration` and `Instant` are counted in nanoseconds. A `Uuid` is a number:
the source only ever compares identities.
-/
namespace LocalAgent

/-! ## Machine integers -/

def u32Max : Nat := 2 ^ 32 - 1
def u64Max : Nat := 2 ^ 64 - 1

/-- `u32::saturating_add(1)`. -/
def saturatingSucc (n : Nat) : Nat := min (n + 1) u32Max

/-- `EventSequence::checked_next` / `u64::checked_add(1)`. -/
def checkedNext (n : Nat) : Option Nat := if n < u64Max then some (n + 1) else none

/-- `u64::checked_sub`. -/
def checkedSub (a b : Nat) : Option Nat := if b ≤ a then some (a - b) else none

/-- `Duration`, in nanoseconds. -/
abbrev Duration := Nat

/-- `Duration::from_millis`. -/
def fromMillis (ms : Nat) : Duration := ms * 1000000

/-- `tokio::time::Instant`, in nanoseconds of the process-local monotonic clock. -/
abbrev Instant := Nat

/-- The last representable instant: signed 64-bit seconds with their nanoseconds. -/
def instantMax : Instant := (2 ^ 63 - 1) * 1000000000 + 999999999

/-- `Instant::checked_add`. -/
def checkedAddInstant (t : Instant) (d : Duration) : Option Instant :=
  if t + d ≤ instantMax then some (t + d) else none

/-- `[u8; 32]`: the value of a digest. -/
abbrev Bytes32 := BitVec 256

theorem checkedNext_eq_some {n m : Nat} : checkedNext n = some m ↔ n < u64Max ∧ m = n + 1 := by
  unfold checkedNext
  by_cases h : n < u64Max
  · rw [if_pos h, Option.some.injEq, eq_comm]
    exact ⟨fun hm => ⟨h, hm⟩, fun hm => hm.2⟩
  · rw [if_neg h]
    exact ⟨nofun, fun hm => absurd hm.1 h⟩

theorem saturatingSucc_of_lt {n : Nat} (h : n < u32Max) : saturatingSucc n = n + 1 := by
  unfold saturatingSucc
  exact Nat.min_eq_left h

/-! ## Results -/

/-- `Result::is_ok_and`. -/
def isOkAnd {ε α : Type} (result : Except ε α) (f : α → Bool) : Bool :=
  match result with
  | .ok value => f value
  | .error _ => false

/-- `Result::is_err_and`. -/
def isErrAnd {ε α : Type} (result : Except ε α) (f : ε → Bool) : Bool :=
  match result with
  | .ok _ => false
  | .error e => f e

theorem isOkAnd_iff {ε α : Type} {result : Except ε α} {f : α → Bool} :
    isOkAnd result f = true ↔ ∃ value, result = .ok value ∧ f value = true := by
  cases result <;> simp [isOkAnd]

theorem isErrAnd_iff {ε α : Type} {result : Except ε α} {f : ε → Bool} :
    isErrAnd result f = true ↔ ∃ e, result = .error e ∧ f e = true := by
  cases result <;> simp [isErrAnd]

/-! ## Identities (`ids.rs`, `define_id!`) -/

structure RunId where uuid : Nat deriving DecidableEq, Repr
structure SessionId where uuid : Nat deriving DecidableEq, Repr
structure ModelCallId where uuid : Nat deriving DecidableEq, Repr
structure ToolCallId where uuid : Nat deriving DecidableEq, Repr
structure ActionProposalId where uuid : Nat deriving DecidableEq, Repr
structure ApprovalRequestId where uuid : Nat deriving DecidableEq, Repr
structure DurableApprovalWaitId where uuid : Nat deriving DecidableEq, Repr
structure GraphNodeAttemptId where uuid : Nat deriving DecidableEq, Repr
structure KnowledgeRetrievalId where uuid : Nat deriving DecidableEq, Repr
structure WorkspaceBindingId where uuid : Nat deriving DecidableEq, Repr
structure PrincipalId where value : String deriving DecidableEq, Repr
structure ToolName where value : String deriving DecidableEq, Repr
structure GraphNodeId where value : String deriving DecidableEq, Repr
structure GraphBranchId where value : String deriving DecidableEq, Repr
structure ActionDigest where bytes : Bytes32 deriving DecidableEq, Repr
structure ToolContractDigest where bytes : Bytes32 deriving DecidableEq, Repr

/-- The `Display` of a `Uuid`: 32 digits in groups of 8, 4, 4, 4 and 12. -/
def uuidText (uuid : Nat) : String :=
  let digits := (List.range 32).map fun i => Nat.digitChar (uuid / 16 ^ (31 - i) % 16)
  let group (start size : Nat) := (digits.drop start).take size
  String.ofList (group 0 8 ++ '-' :: group 8 4 ++ '-' :: group 12 4 ++ '-' :: group 16 4 ++
    '-' :: group 20 12)

/-- `CapabilityKind` (capability.rs). -/
inductive CapabilityKind where
  | readOnly | localWrite | externalWrite | privileged
deriving DecidableEq, Repr

/-! ## Budgets (`budget.rs`) -/

/-- `MAX_GRAPH_STEPS` (graph_control.rs:12). -/
def maxGraphStepsCeiling : Nat := 64

/-- `RunBudget`. The constructors and the deserializer both refuse a zero `max_elapsed`
and a graph limit above the ceiling, so the two bounds travel with the value. -/
structure RunBudget where
  maxModelCalls : Nat
  maxToolCalls : Nat
  maxIterations : Nat
  maxApprovalRequests : Nat
  maxGraphSteps : Nat
  maxElapsed : Duration
  maxModelCalls_le : maxModelCalls ≤ u32Max
  maxToolCalls_le : maxToolCalls ≤ u32Max
  maxIterations_le : maxIterations ≤ u32Max
  maxApprovalRequests_le : maxApprovalRequests ≤ u32Max
  maxGraphSteps_le : maxGraphSteps ≤ maxGraphStepsCeiling
  maxElapsed_pos : 0 < maxElapsed
deriving DecidableEq

/-- `BudgetUsage`. -/
structure BudgetUsage where
  modelCalls : Nat := 0
  toolCalls : Nat := 0
  iterations : Nat := 0
  approvalRequests : Nat := 0
  graphSteps : Nat := 0
deriving DecidableEq, Repr

/-- `BudgetUsage::with_approval_requests`: the graph counter starts again from zero. -/
def BudgetUsage.withApprovalRequests (modelCalls toolCalls iterations approvalRequests : Nat) :
    BudgetUsage :=
  ⟨modelCalls, toolCalls, iterations, approvalRequests, 0⟩

/-- `BudgetUsage::with_graph_steps`. -/
def BudgetUsage.withGraphSteps (u : BudgetUsage) (n : Nat) : BudgetUsage := { u with graphSteps := n }

inductive BudgetDimension where
  | modelCalls | toolCalls | iterations | approvalRequests | graphSteps | elapsed
deriving DecidableEq, Repr

/-! ## Loop and graph vocabulary (`loop_control.rs`, `graph_control.rs`) -/

inductive LoopPhase where
  | observe | retrieve | plan | act | verify | reflect
deriving DecidableEq, Repr

inductive LoopFailureKind where
  | program (phase : LoopPhase) | verificationFailed | invariantViolation
deriving DecidableEq, Repr

inductive LoopDecisionKind where
  | complete | continue | fail
deriving DecidableEq, Repr

inductive GraphNodeKind where
  | retrieve | model | action | verify | decision | complete | fail
deriving DecidableEq, Repr

inductive GraphRecoveryMode where
  | never | freshRetrieval | deterministicBoundary
deriving DecidableEq, Repr

inductive GraphTransitionKey where
  | succeeded | approvalDenied | verificationPassed | verificationFailed
  | branch (id : GraphBranchId)
deriving DecidableEq, Repr

inductive GraphFailureKind where
  | callback | invalidTransition | invariantViolation | explicitTerminal
deriving DecidableEq, Repr

/-! ## Run status (`run.rs`) -/

inductive RunFailureKind where
  | model | tool | approval | containment | auditUnavailable
  | loop (kind : LoopFailureKind)
  | graph (kind : GraphFailureKind)
  | internal
deriving DecidableEq, Repr

inductive RunOutcome where
  | completed | cancelled
  | budgetExceeded (dimension : BudgetDimension)
  | failed (kind : RunFailureKind)
deriving DecidableEq, Repr

inductive RunStatus where
  | pending | running | finished (outcome : RunOutcome)
deriving DecidableEq, Repr

inductive RunStateError where
  | startRequiresPending | finishRequiresRunning
deriving DecidableEq, Repr

/-- `RunStatus::start`. -/
def RunStatus.start : RunStatus → Except RunStateError RunStatus
  | .pending => .ok .running
  | .running | .finished _ => .error .startRequiresPending

/-- `RunStatus::finish`. -/
def RunStatus.finish (outcome : RunOutcome) : RunStatus → Except RunStateError RunStatus
  | .running => .ok (.finished outcome)
  | .pending | .finished _ => .error .finishRequiresRunning

/-- The `Finished(_)` pattern. -/
def RunStatus.isFinished : RunStatus → Bool
  | .finished _ => true
  | _ => false

end LocalAgent
