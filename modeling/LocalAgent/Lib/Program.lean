import Mathlib.Logic.Basic

/-!
# Programs that talk to an environment

A program is a tree of requests: it either returns, or asks the environment something and goes
on with the answer. What the environment may answer is not part of the program. A `Monitor`
watches the dialogue; `Prog.wp` says that every request of a program is permitted by the monitor,
whatever the answers are, and that the program ends in a given condition.

`Task` adds the two things most code has besides: a mutable state and an early exit with an error
that leaves the state as it is at that point.
-/
namespace Program

variable {Req : Type} {Ans : Req → Type} {α β ε σ : Type}

/-- A program over the signature `Ans` with results in `α`. -/
inductive Prog (Ans : Req → Type) (α : Type) : Type where
  | pure (a : α)
  | call (r : Req) (k : Ans r → Prog Ans α)

namespace Prog

def bind : Prog Ans α → (α → Prog Ans β) → Prog Ans β
  | .pure a, f => f a
  | .call r k, f => .call r fun a => (k a).bind f

/-- Run a program to its end against an environment that answers every request: what was asked
and answered, the state of the environment afterwards, and the result. -/
def drive {World : Type} (answer : World → (r : Req) → Ans r × World) :
    World → Prog Ans α → List ((r : Req) × Ans r) × World × α
  | w, .pure a => ([], w, a)
  | w, .call r k =>
    let reply := answer w r
    let rest := drive answer reply.2 (k reply.1)
    (⟨r, reply.1⟩ :: rest.1, rest.2)

/-- Every request on the way passes a check. -/
def passes {World : Type} (answer : World → (r : Req) → Ans r × World) (check : World → Req → Bool) :
    World → Prog Ans α → Bool
  | _, .pure _ => true
  | w, .call r k => check w r && passes answer check (answer w r).2 (k (answer w r).1)

end Prog

/-- Every request the program can make satisfies `P`. -/
def Prog.Only (P : Req → Prop) : Prog Ans α → Prop
  | .pure _ => True
  | .call r k => P r ∧ ∀ a, (k a).Only P

theorem Prog.Only.bind {P : Req → Prop} {p : Prog Ans α} {f : α → Prog Ans β} (hp : p.Only P)
    (hf : ∀ a, (f a).Only P) : (p.bind f).Only P := by
  induction p with
  | pure a => exact hf a
  | call r k ih => exact ⟨hp.1, fun a => ih a (hp.2 a)⟩

theorem Prog.Only.mono {P P' : Req → Prop} {p : Prog Ans α} (hp : p.Only P) (hP : ∀ r, P r → P' r) :
    p.Only P' := by
  induction p with
  | pure a => trivial
  | call r k ih => exact ⟨hP r hp.1, fun a => ih a (hp.2 a)⟩

/-! ## Monitors -/

/-- What an observer of the dialogue remembers, and which requests it permits. -/
structure Monitor (Ans : Req → Type) where
  View : Type
  permits : View → Req → Prop
  observe : View → (r : Req) → Ans r → View

variable {M : Monitor Ans}

/-- Every request is permitted, and the program ends in `Q`. -/
def Prog.wp (M : Monitor Ans) : Prog Ans α → (α → M.View → Prop) → M.View → Prop
  | .pure a, Q, v => Q a v
  | .call r k, Q, v => M.permits v r ∧ ∀ a, (k a).wp M Q (M.observe v r a)

namespace Prog

theorem wp_mono {p : Prog Ans α} {Q R : α → M.View → Prop} {v : M.View} (h : p.wp M Q v)
    (hQR : ∀ a v, Q a v → R a v) : p.wp M R v := by
  induction p generalizing v with
  | pure a => exact hQR a v h
  | call r k ih =>
    obtain ⟨hr, hk⟩ := h
    exact ⟨hr, fun a => ih a (hk a)⟩

theorem wp_bind {p : Prog Ans α} {f : α → Prog Ans β} {Q : β → M.View → Prop} {v : M.View} :
    (p.bind f).wp M Q v ↔ p.wp M (fun a v => (f a).wp M Q v) v := by
  induction p generalizing v with
  | pure a => exact Iff.rfl
  | call r k ih =>
    refine and_congr_right fun _ => forall_congr' fun a => ?_
    exact ih a

end Prog

theorem Prog.only_true (p : Prog Ans α) : p.Only fun _ => True := by
  induction p with
  | pure a => trivial
  | call r k ih => exact ⟨trivial, ih⟩

/-- A program with requests that are permitted and keep a condition on the view. -/
theorem Prog.Only.wp {P : Req → Prop} {I : M.View → Prop} {p : Prog Ans α} {v : M.View} (h : p.Only P)
    (hP : ∀ v r, I v → P r → M.permits v r ∧ ∀ a, I (M.observe v r a)) (hv : I v) :
    p.wp M (fun _ => I) v := by
  induction p generalizing v with
  | pure a => exact hv
  | call r k ih =>
    obtain ⟨hpermits, hobserve⟩ := hP v r hv h.1
    exact ⟨hpermits, fun a => ih a (h.2 a) (hobserve a)⟩

/-! ## Programs with a state and errors -/

/-- A program that reads and writes a state `σ` and may stop with an error. -/
def Task (Ans : Req → Type) (ε σ α : Type) : Type := σ → Prog Ans (Except ε α × σ)

namespace Task

def bind (m : Task Ans ε σ α) (f : α → Task Ans ε σ β) : Task Ans ε σ β := fun s =>
  (m s).bind fun
    | (.ok a, s') => f a s'
    | (.error e, s') => .pure (.error e, s')

instance : Monad (Task Ans ε σ) where
  pure a := fun s => .pure (.ok a, s)
  bind := Task.bind

/-- Ask the environment. -/
def ask (r : Req) : Task Ans ε σ (Ans r) := fun s => .call r fun a => .pure (.ok a, s)

/-- Stop with an error. -/
def fail (e : ε) : Task Ans ε σ α := fun s => .pure (.error e, s)

/-- Read the state. -/
def look : Task Ans ε σ σ := fun s => .pure (.ok s, s)

/-- Replace the state. -/
def put (s : σ) : Task Ans ε σ Unit := fun _ => .pure (.ok (), s)

/-- Continue with a computed result. -/
def ofExcept (x : Except ε α) : Task Ans ε σ α := fun s => .pure (x, s)

/-- Run a task and hand its result over, error or not. -/
def attempt (m : Task Ans ε σ α) : Task Ans ε σ (Except ε α) := fun s =>
  (m s).bind fun p => .pure (.ok p.1, p.2)

/-- The weakest precondition of a task: its postcondition sees the result and the state. -/
def wp (M : Monitor Ans) (m : Task Ans ε σ α) (Q : Except ε α → σ → M.View → Prop) (s : σ)
    (v : M.View) : Prop :=
  (m s).wp M (fun p v => Q p.1 p.2 v) v

section Rules

variable {m : Task Ans ε σ α} {f : α → Task Ans ε σ β} {s : σ} {v : M.View}

theorem wp_mono {Q R : Except ε α → σ → M.View → Prop} (h : m.wp M Q s v)
    (hQR : ∀ x s v, Q x s v → R x s v) : m.wp M R s v :=
  Prog.wp_mono h fun p v => hQR p.1 p.2 v

theorem wp_bind {Q : Except ε β → σ → M.View → Prop} :
    Task.wp M (m >>= f) Q s v ↔ m.wp M (fun
      | .ok a => fun s v => (f a).wp M Q s v
      | .error e => fun s v => Q (.error e) s v) s v := by
  have hstep : ∀ p : Except ε α × σ, ∀ v : M.View,
      Prog.wp M (match p with
        | (.ok a, s') => f a s'
        | (.error e, s') => .pure (.error e, s')) (fun p v => Q p.1 p.2 v) v ↔
      (match p.1 with
        | .ok a => fun s v => (f a).wp M Q s v
        | .error e => fun s v => Q (.error e) s v) p.2 v := by
    rintro ⟨x | x, s'⟩ v <;> exact Iff.rfl
  refine Prog.wp_bind.trans ?_
  exact ⟨fun h => Prog.wp_mono h fun p v => (hstep p v).mp,
    fun h => Prog.wp_mono h fun p v => (hstep p v).mpr⟩

theorem wp_attempt {Q : Except ε (Except ε α) → σ → M.View → Prop} :
    m.attempt.wp M Q s v ↔ m.wp M (fun x s v => Q (.ok x) s v) s v := Prog.wp_bind

@[simp] theorem wp_pure {a : α} {Q : Except ε α → σ → M.View → Prop} :
    Task.wp M (pure a : Task Ans ε σ α) Q s v ↔ Q (.ok a) s v := Iff.rfl

@[simp] theorem wp_fail {e : ε} {Q : Except ε α → σ → M.View → Prop} :
    Task.wp M (fail e : Task Ans ε σ α) Q s v ↔ Q (.error e) s v := Iff.rfl

@[simp] theorem wp_ofExcept {x : Except ε α} {Q : Except ε α → σ → M.View → Prop} :
    Task.wp M (ofExcept x : Task Ans ε σ α) Q s v ↔ Q x s v := Iff.rfl

@[simp] theorem wp_look {Q : Except ε σ → σ → M.View → Prop} :
    Task.wp M (look : Task Ans ε σ σ) Q s v ↔ Q (.ok s) s v := Iff.rfl

@[simp] theorem wp_put {t : σ} {Q : Except ε Unit → σ → M.View → Prop} :
    Task.wp M (put t : Task Ans ε σ Unit) Q s v ↔ Q (.ok ()) t v := Iff.rfl

/-- Reading the state and going on. -/
theorem wp_look_bind {f : σ → Task Ans ε σ β} {Q : Except ε β → σ → M.View → Prop} :
    Task.wp M (look >>= f) Q s v ↔ (f s).wp M Q s v := Iff.rfl

/-- Asking and going on with the answer. -/
theorem wp_ask_bind {r : Req} {f : Ans r → Task Ans ε σ β} {Q : Except ε β → σ → M.View → Prop} :
    Task.wp M (ask r >>= f) Q s v ↔
      M.permits v r ∧ ∀ a, (f a).wp M Q s (M.observe v r a) := Iff.rfl

end Rules
/-! ### What a task asks for -/

/-- Every request the task can make satisfies `P`. -/
def Only (P : Req → Prop) (m : Task Ans ε σ α) : Prop := ∀ s, (m s).Only P

section Only

variable {P : Req → Prop} {m : Task Ans ε σ α} {f : α → Task Ans ε σ β}

theorem Only.bind (hm : m.Only P) (hf : ∀ a, (f a).Only P) : Only P (m >>= f) := by
  refine fun s => (hm s).bind fun x => ?_
  obtain ⟨x | x, s'⟩ := x
  · trivial
  · exact hf x s'

/-- A computed result is known to what comes after it. -/
theorem Only.ofExcept_bind {x : Except ε α} (hf : ∀ a, x = .ok a → (f a).Only P) :
    Only P (ofExcept x >>= f) := by
  intro s
  cases x with
  | ok a => exact hf a rfl s
  | error e => trivial

theorem Only.pure {a : α} : Only P (pure a : Task Ans ε σ α) := fun _ => trivial

theorem Only.fail {e : ε} : Only P (fail e : Task Ans ε σ α) := fun _ => trivial

theorem Only.ofExcept {x : Except ε α} : Only P (ofExcept x : Task Ans ε σ α) := fun _ => trivial

theorem Only.look : Only P (look : Task Ans ε σ σ) := fun _ => trivial

theorem Only.put {s : σ} : Only P (put s : Task Ans ε σ Unit) := fun _ => trivial

theorem Only.ask {r : Req} (h : P r) : Only P (ask r : Task Ans ε σ (Ans r)) :=
  fun _ => ⟨h, fun _ => trivial⟩

theorem Only.attempt (hm : m.Only P) : Only P m.attempt := fun s => (hm s).bind fun _ => trivial

theorem Only.mono {P' : Req → Prop} (hm : m.Only P) (hP : ∀ r, P r → P' r) : m.Only P' :=
  fun s => (hm s).mono hP

theorem Only.ite {p : Prop} [Decidable p] {m' : Task Ans ε σ α} (h : m.Only P) (h' : m'.Only P) :
    Only P (if p then m else m') := by
  by_cases hp : p
  · rw [if_pos hp]
    exact h
  · rw [if_neg hp]
    exact h'

end Only
end Task
end Program
