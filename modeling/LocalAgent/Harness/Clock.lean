import LocalAgent.Harness.Clients
import LocalAgent.Harness.Routine
import LocalAgent.Lib.Dialogue
import LocalAgent.Recovery.Elapsed

/-!
# The clock of a suspension

Only `suspend_durable_local_write` writes a wait, and the active time it reports is the clock it
read last less the `started_at` of its context. `clock` is the monitor that says so; it is kept for
each client, beside the one of `View`, and every command keeps to it.
-/
namespace LocalAgent

open Program

/-- The event reports the time from the `started_at` of its checkpoint to the reading. -/
def AppendTransition.Timed (t : AppendTransition) (now : Nat) : Prop :=
  ∃ checkpoint active, t.checkpoint = some checkpoint ∧ t.event.kind.activeElapsed = some active ∧
    checkpoint.state.ReadAt now active

/-- The clock as a client read it last, and whether it has written a wait. -/
structure ClockView where
  reading : Option Nat := none
  suspended : Bool := false

namespace ClockView

def observe (v : ClockView) : (r : Request) → Answer r → ClockView
  | .wallClock, reading => { v with reading := reading }
  | .createDurableApprovalWait .., .ok _ => { v with suspended := true }
  | _, _ => v

/-- A wait reports the time that was read. -/
def permits (v : ClockView) : Request → Prop
  | .createDurableApprovalWait t _ _ => ∃ now, v.reading = some now ∧ t.Timed now
  | _ => True

variable {v : ClockView} {r : Request}

theorem permits_of_routine (h : r.routine = true) : v.permits r := by
  cases r with
  | createDurableApprovalWait t record degraded => cases h
  | _ => trivial

theorem observe_of_routine {a : Answer r} (h : r.routine = true) :
    (v.observe r a).suspended = v.suspended := by
  cases r with
  | createDurableApprovalWait t record degraded => cases h
  | _ => rfl

end ClockView

@[reducible] def clock : Monitor Answer where
  View := ClockView
  permits := ClockView.permits
  observe := ClockView.observe

/-- A program of routine requests keeps to the clock. -/
theorem routine_clock {α : Type} {p : Prog Answer α} {v : ClockView}
    (h : p.wp routineOnly (fun _ _ => True) ()) :
    p.wp clock (fun _ v' => v'.suspended = v.suspended) v := by
  have hall : ∀ v' : ClockView, v'.suspended = v.suspended →
      p.wp clock (fun _ v'' => v''.suspended = v.suspended) v' := by
    induction p with
    | pure a => exact fun v' hv => hv
    | call r k ih =>
      intro v' hv
      obtain ⟨hr, hk⟩ := h
      refine ⟨ClockView.permits_of_routine hr, fun a => ih a (hk a) _ ?_⟩
      exact (ClockView.observe_of_routine hr).trans hv
  exact hall v rfl

section Methods

variable {lib : Library} {h : ExecutionHarness} {α β : Type} {c : RunContext} {v : ClockView}

/-- An `Ok` is returned only after the wait was written. -/
def Suspends (m : HarnessM Unit) : Prop :=
  ∀ c v, m.wp clock (fun x _ v' => x = .ok () → v'.suspended = true) c v

theorem Suspends.fail {e : HarnessError} : Suspends (Task.fail e) := by
  intro c v h
  cases h

theorem Suspends.ite {p : Prop} [Decidable p] {m m' : HarnessM Unit} (hm : Suspends m) (hm' : Suspends m') :
    Suspends (if p then m else m') := by
  by_cases hp : p
  · rw [if_pos hp]
    exact hm
  · rw [if_neg hp]
    exact hm'

/-- Routine steps come before it. -/
theorem Suspends.bind {m : HarnessM α} {f : α → HarnessM Unit} (hm : Routine m)
    (hf : ∀ a, Suspends (f a)) : Suspends (m >>= f) := by
  intro c v
  refine Task.wp_bind.mpr (Prog.wp_mono (routine_clock (hm c)) ?_)
  rintro ⟨x, c'⟩ v' -
  cases x with
  | ok a => exact hf a c' v'
  | error e =>
    intro h
    cases h

theorem Suspends.look {f : RunContext → HarnessM Unit} (hf : ∀ c, Suspends (f c)) :
    Suspends (Task.look >>= f) := .bind .look hf

end Methods

/-- The clock of one client, kept for each client. -/
@[reducible] def Setting.clocks {lib : Library} (S : Setting lib) : Watch S.clients where
  toMonitor := clock
  init := ({} : ClockView)
  begin v _ _ := v
  Rest _ _ := True

end LocalAgent
