import LocalAgent.Lib.Dialogue

/-!
# Programs over operations

A program need not talk to the environment itself: it may call operations, and each of them is a
program of its own that works on a state which the caller does not see. `Prog.handle` puts the
operations in the place of the calls. The whole program asks for nothing that no operation asks for
(`Only.handle`), and returns what it returns over the calls (`returns_handle`).

`Task.focus` runs a task on the first half of a larger state, `Task.callback` a program over
operations that has the second half for its own. Neither raises an error that it was not given
(`Avoids`).
-/
namespace Program

variable {Req Op : Type} {Ans : Req → Type} {Res : Op → Type} {α ε ε' σ τ : Type}

namespace Prog

/-- Put the operations in the place of the calls. -/
def handle (op : (o : Op) → σ → Prog Ans (Res o × σ)) : Prog Res α → σ → Prog Ans (α × σ)
  | .pure a, s => .pure (a, s)
  | .call o k, s => (op o s).bind fun p => (k p.1).handle op p.2

variable {op : (o : Op) → σ → Prog Ans (Res o × σ)} {p : Prog Res α} {s : σ}

theorem Only.handle {P : Req → Prop} (hop : ∀ o s, (op o s).Only P) : (p.handle op s).Only P := by
  induction p generalizing s with
  | pure a => trivial
  | call o k ih => exact (hop o s).bind fun q => ih q.1

/-- The program asks for this at some point, whatever becomes of it afterwards. -/
def Asks (p : Prog Ans α) (r : Req) : Prop := ∃ d k, p.After d (.call r k)

theorem Only.asks {P : Req → Prop} {p : Prog Ans α} {r : Req} (h : p.Only P) (hr : p.Asks r) : P r := by
  obtain ⟨d, k, hafter⟩ := hr
  induction d generalizing p with
  | nil =>
    cases hafter
    exact h.1
  | cons e d ih =>
    cases hafter with
    | cons a rest => exact ih (h.2 a) rest

/-- What a program asked on its way to the end. -/
theorem asks_of_mem_drive {World : Type} {answer : World → (r : Req) → Ans r × World} {p : Prog Ans α}
    {w : World} {e : (r : Req) × Ans r} (he : e ∈ (p.drive answer w).1) : p.Asks e.1 := by
  induction p generalizing w with
  | pure a => cases he
  | call r k ih =>
    rcases List.mem_cons.mp he with rfl | he
    · exact ⟨[], k, .nil _⟩
    · obtain ⟨d, k', hafter⟩ := ih _ he
      exact ⟨_, k', .cons _ hafter⟩

/-- Whatever a program over operations returns, it returns after some answers to its calls. -/
theorem returns_handle {d : Dialogue Ans} {q : α × σ} (h : (p.handle op s).Returns d q) :
    ∃ calls, p.Returns calls q.1 := by
  induction p generalizing s d with
  | pure a =>
    cases (returns_pure_iff.mp h).2
    exact ⟨[], .pure a⟩
  | call o k ih =>
    obtain ⟨d₁, d₂, x, -, -, hrest⟩ := returns_bind_iff.mp h
    obtain ⟨calls, hcalls⟩ := ih x.1 hrest
    exact ⟨_, .call hcalls⟩

end Prog

namespace Task

/-- A task on the first half of the state. -/
def focus (wrap : ε → ε') (m : Task Ans ε σ α) : Task Ans ε' (σ × τ) α := fun s =>
  (m s.1).bind fun p => .pure (p.1.mapError wrap, (p.2, s.2))

/-- A program over operations, with the second half of the state for its own. Its result is handed
over, error or not. -/
def callback (op : (o : Op) → σ → Prog Ans (Res o × σ)) (m : Task Res ε τ α) :
    Task Ans ε' (σ × τ) (Except ε α) := fun s =>
  ((m s.2).handle op s.1).bind fun p => .pure (.ok p.1.1, (p.2, p.1.2))

section Rules

variable {wrap : ε → ε'} {m : Task Ans ε σ α} {P : Req → Prop}

theorem Only.focus (h : m.Only P) : Only P (m.focus wrap : Task Ans ε' (σ × τ) α) :=
  fun s => (h s.1).bind fun _ => trivial

variable {op : (o : Op) → σ → Prog Ans (Res o × σ)} {b : Task Res ε τ α}

theorem Only.callback (hop : ∀ o s, (op o s).Only P) :
    Only P (b.callback op : Task Ans ε' (σ × τ) (Except ε α)) :=
  fun _ => (Prog.Only.handle hop).bind fun _ => trivial

end Rules

/-! ## Errors that are not raised -/

/-- Whatever the task is answered, it does not end in this error. -/
def Avoids (bad : ε) (m : Task Ans ε σ α) : Prop :=
  ∀ s d x s', (m s).Returns d (x, s') → x ≠ .error bad

/-- The task can end with this result. -/
def Yields (m : Task Ans ε σ α) (a : α) : Prop := ∃ s d s', (m s).Returns d (.ok a, s')

section Avoids

variable {bad : ε} {β : Type} {m : Task Ans ε σ α} {f : α → Task Ans ε σ β}

theorem Yields.of_bind {b : β} (h : Yields (m >>= f) b) : ∃ a, m.Yields a ∧ (f a).Yields b := by
  obtain ⟨s, d, s', hret⟩ := h
  obtain ⟨d₁, d₂, y, s₁, -, h₁, h₂⟩ := returns_bind_iff.mp hret
  cases y with
  | ok a => exact ⟨a, ⟨s, d₁, s₁, h₁⟩, s₁, d₂, s', h₂⟩
  | error e =>
    obtain ⟨-, heq, -⟩ := h₂
    cases heq

theorem Yields.of_pure {a b : α} (h : Yields (pure a : Task Ans ε σ α) b) : b = a := by
  obtain ⟨s, d, s', hret⟩ := h
  cases (returns_pure_iff.mp hret).2
  rfl

theorem not_yields_fail {e : ε} {a : α} : ¬ Yields (fail e : Task Ans ε σ α) a := by
  rintro ⟨s, d, s', hret⟩
  cases (returns_fail_iff.mp hret).2

theorem Yields.of_callback {op : (o : Op) → σ → Prog Ans (Res o × σ)} {b : Task Res ε τ α} {a : α}
    (h : Yields (b.callback op : Task Ans ε' (σ × τ) (Except ε α)) (.ok a)) : b.Yields a := by
  obtain ⟨s, d, s', hret⟩ := h
  obtain ⟨d₁, d₂, ⟨⟨y, t⟩, s₁⟩, -, h₁, h₂⟩ := Prog.returns_bind_iff.mp hret
  cases (Prog.returns_pure_iff.mp h₂).2
  obtain ⟨calls, hcalls⟩ := Prog.returns_handle h₁
  exact ⟨s.2, calls, t, hcalls⟩

/-- What comes second may rely on what the first can end with. -/
theorem Avoids.bind_yields (hm : m.Avoids bad) (hf : ∀ a, m.Yields a → (f a).Avoids bad) :
    Avoids bad (m >>= f) := by
  intro s d x s' hret
  obtain ⟨d₁, d₂, y, s₁, -, h₁, h₂⟩ := returns_bind_iff.mp hret
  cases y with
  | ok a => exact hf a ⟨s, d₁, s₁, h₁⟩ s₁ d₂ x s' h₂
  | error e =>
    obtain ⟨-, rfl, -⟩ := h₂
    intro heq
    cases heq
    exact hm s d₁ _ s₁ h₁ rfl

theorem Avoids.bind (hm : m.Avoids bad) (hf : ∀ a, (f a).Avoids bad) : Avoids bad (m >>= f) :=
  hm.bind_yields fun a _ => hf a

theorem Avoids.pure {a : α} : Avoids bad (pure a : Task Ans ε σ α) := by
  intro s d x s' hret heq
  cases (returns_pure_iff.mp hret).2
  cases heq

theorem Avoids.fail {e : ε} (he : e ≠ bad) : Avoids bad (fail e : Task Ans ε σ α) := by
  intro s d x s' hret heq
  cases (returns_fail_iff.mp hret).2
  exact he (Except.error.inj heq)

theorem Avoids.look : Avoids bad (look : Task Ans ε σ σ) := by
  intro s d x s' hret heq
  cases (Prog.returns_pure_iff.mp hret).2
  cases heq

theorem Avoids.attempt : m.attempt.Avoids bad := by
  intro s d x s' hret heq
  obtain ⟨y, rfl, -⟩ := returns_attempt_iff.mp hret
  cases heq

theorem Avoids.ite {p : Prop} [Decidable p] {m' : Task Ans ε σ α} (h : m.Avoids bad)
    (h' : m'.Avoids bad) : Avoids bad (if p then m else m') := by
  by_cases hp : p
  · rw [if_pos hp]
    exact h
  · rw [if_neg hp]
    exact h'

theorem Avoids.focus {wrap : ε → ε'} {bad : ε'} (hwrap : ∀ e, wrap e ≠ bad) :
    Avoids bad (m.focus wrap : Task Ans ε' (σ × τ) α) := by
  intro s d x s' hret heq
  obtain ⟨d₁, d₂, ⟨y, s₁⟩, -, -, h₂⟩ := Prog.returns_bind_iff.mp hret
  cases (Prog.returns_pure_iff.mp h₂).2
  cases y with
  | ok a => cases heq
  | error e => exact hwrap e (Except.error.inj heq)

theorem Avoids.callback {bad : ε'} {op : (o : Op) → σ → Prog Ans (Res o × σ)} {b : Task Res ε τ α} :
    Avoids bad (b.callback op : Task Ans ε' (σ × τ) (Except ε α)) := by
  intro s d x s' hret heq
  obtain ⟨d₁, d₂, ⟨⟨y, t⟩, s₁⟩, -, -, h₂⟩ := Prog.returns_bind_iff.mp hret
  cases (Prog.returns_pure_iff.mp h₂).2
  cases heq

end Avoids
end Task
end Program
