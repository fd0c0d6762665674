import LocalAgent.Lib.Program

/-!
# Dialogues

A dialogue is what a program asked and was answered on its way to a result (`Prog.Returns`). An
`Environment` says which answers are possible in which state of it, and `Follows` which dialogues.
`Prog.wlp` is about every dialogue that an environment allows: whatever the program returns in
one, it returns in a given condition (`wlp_returns`). Nothing is said about programs that are
never answered.
-/
namespace Program

variable {Req : Type} {Ans : Req → Type} {α β ε σ W : Type}

/-- What was asked, and the answers, in their order. -/
abbrev Dialogue (Ans : Req → Type) := List ((r : Req) × Ans r)

/-- How an environment may answer, and the state it is in afterwards. -/
abbrev Environment (Ans : Req → Type) (W : Type) := W → (r : Req) → Ans r → W → Prop

/-- The program returns `a` after the dialogue. -/
inductive Prog.Returns : Prog Ans α → Dialogue Ans → α → Prop
  | pure (a : α) : Returns (.pure a) [] a
  | call {r : Req} {k : Ans r → Prog Ans α} {a : Ans r} {d : Dialogue Ans} {b : α}
      (rest : Returns (k a) d b) : Returns (.call r k) (⟨r, a⟩ :: d) b

/-- What is left of the program after the dialogue. -/
inductive Prog.After : Prog Ans α → Dialogue Ans → Prog Ans α → Prop
  | nil (p : Prog Ans α) : After p [] p
  | cons {r : Req} {k : Ans r → Prog Ans α} (a : Ans r) {d : Dialogue Ans} {q : Prog Ans α}
      (rest : After (k a) d q) : After (.call r k) (⟨r, a⟩ :: d) q

theorem Prog.After.call {r : Req} {k : Ans r → Prog Ans α} {d : Dialogue Ans} {q : Prog Ans α}
    (h : ∃ a d', d = ⟨r, a⟩ :: d' ∧ (k a).After d' q) : (Prog.call r k).After d q := by
  obtain ⟨a, d', rfl, hrest⟩ := h
  exact .cons a hrest

/-- The monitor permits every request of the dialogue. -/
def Monitor.Permits (M : Monitor Ans) : M.View → Dialogue Ans → Prop
  | _, [] => True
  | v, e :: d => M.permits v e.1 ∧ M.Permits (M.observe v e.1 e.2) d

/-- The environment allows the dialogue. -/
inductive Follows (env : Environment Ans W) : W → Dialogue Ans → W → Prop
  | nil (w : W) : Follows env w [] w
  | cons {w w' w'' : W} {r : Req} {a : Ans r} {d : Dialogue Ans} (step : env w r a w')
      (rest : Follows env w' d w'') : Follows env w (⟨r, a⟩ :: d) w''

theorem Follows.mono {env env' : Environment Ans W} (h : ∀ w r a w', env w r a w' → env' w r a w')
    {w w' : W} {d : Dialogue Ans} (hd : Follows env w d w') : Follows env' w d w' := by
  induction hd with
  | nil w => exact .nil w
  | cons step _ ih => exact .cons (h _ _ _ _ step) ih

theorem Follows.append {env : Environment Ans W} {w w' w'' : W} {d d' : Dialogue Ans}
    (h : Follows env w d w') (h' : Follows env w' d' w'') : Follows env w (d ++ d') w'' := by
  induction h with
  | nil w => exact h'
  | cons step _ ih => exact .cons step (ih h')

/-- A condition that every answer keeps holds at the end. -/
theorem Follows.keeps {env : Environment Ans W} {P : W → Prop}
    (h : ∀ w r a w', env w r a w' → P w → P w') {w w' : W} {d : Dialogue Ans}
    (hd : Follows env w d w') (hw : P w) : P w' := by
  induction hd with
  | nil w => exact hw
  | cons step _ ih => exact ih (h _ _ _ _ step hw)

/-- An environment that keeps the dialogue. -/
def Environment.recorded (env : Environment Ans W) : Environment Ans (W × Dialogue Ans) :=
  fun w r a w' => env w.1 r a w'.1 ∧ w'.2 = w.2 ++ [⟨r, a⟩]

theorem Follows.recorded {env : Environment Ans W} {w w' : W} {d : Dialogue Ans}
    (hd : Follows env w d w') (told : Dialogue Ans) :
    Follows env.recorded (w, told) d (w', told ++ d) := by
  induction hd generalizing told with
  | nil w =>
    rw [List.append_nil]
    exact .nil _
  | cons step rest ih =>
    rw [List.append_cons]
    exact .cons ⟨step, rfl⟩ (ih _)

namespace Prog

variable {env : Environment Ans W}

/-- Whatever the program returns, it returns in `Q`. -/
def wlp (env : Environment Ans W) : Prog Ans α → (α → W → Prop) → W → Prop
  | .pure a, Q, w => Q a w
  | .call r k, Q, w => ∀ a w', env w r a w' → (k a).wlp env Q w'

theorem wlp_mono {p : Prog Ans α} {Q R : α → W → Prop} {w : W} (h : p.wlp env Q w)
    (hQR : ∀ a w, Q a w → R a w) : p.wlp env R w := by
  induction p generalizing w with
  | pure a => exact hQR a w h
  | call r k ih => exact fun a w' hstep => ih a (h a w' hstep)

theorem wlp_bind {p : Prog Ans α} {f : α → Prog Ans β} {Q : β → W → Prop} {w : W} :
    (p.bind f).wlp env Q w ↔ p.wlp env (fun a w => (f a).wlp env Q w) w := by
  induction p generalizing w with
  | pure a => exact Iff.rfl
  | call r k ih =>
    refine forall_congr' fun a => forall_congr' fun w' => imp_congr_right fun _ => ?_
    exact ih a

theorem wlp_forall {ι : Type} {p : Prog Ans α} {Q : ι → α → W → Prop} {w : W}
    (h : ∀ i, p.wlp env (Q i) w) : p.wlp env (fun a w => ∀ i, Q i a w) w := by
  induction p generalizing w with
  | pure a => exact h
  | call r k ih => exact fun a w' hstep => ih a fun i => h i a w' hstep

theorem wlp_and {p : Prog Ans α} {Q R : α → W → Prop} {w : W} (hQ : p.wlp env Q w)
    (hR : p.wlp env R w) : p.wlp env (fun a w => Q a w ∧ R a w) w := by
  induction p generalizing w with
  | pure a => exact ⟨hQ, hR⟩
  | call r k ih => exact fun a w' hstep => ih a (hQ a w' hstep) (hR a w' hstep)

/-- A program keeps what each of its calls keeps. -/
theorem Only.wlp {P : Req → Prop} {I : W → Prop} {p : Prog Ans α} {w : W} (h : p.Only P)
    (hP : ∀ w r a w', P r → env w r a w' → I w → I w') (hw : I w) : p.wlp env (fun _ => I) w := by
  induction p generalizing w with
  | pure a => exact hw
  | call r k ih => exact fun a w' hstep => ih a (h.2 a) (hP w r a w' h.1 hstep hw)

/-- **A result of an allowed dialogue** satisfies the postcondition. -/
theorem wlp_returns {p : Prog Ans α} {Q : α → W → Prop} {w w' : W} {d : Dialogue Ans} {a : α}
    (h : p.wlp env Q w) (hret : p.Returns d a) (hd : Follows env w d w') : Q a w' := by
  induction hret generalizing w with
  | pure a =>
    cases hd
    exact h
  | call _ ih =>
    cases hd with
    | cons step rest => exact ih (h _ _ step) rest

/-- In an environment that answers every request a program returns. -/
theorem exists_returns (h : ∀ w r, ∃ a w', env w r a w') (p : Prog Ans α) (w : W) :
    ∃ d a w', p.Returns d a ∧ Follows env w d w' := by
  induction p generalizing w with
  | pure a => exact ⟨[], a, w, .pure a, .nil w⟩
  | call r k ih =>
    obtain ⟨a, w', hstep⟩ := h w r
    obtain ⟨d, b, w'', hret, hd⟩ := ih a w'
    exact ⟨_, b, w'', .call hret, .cons hstep hd⟩

/-- A composed program returns after two dialogues. -/
theorem returns_bind_iff {p : Prog Ans α} {f : α → Prog Ans β} {d : Dialogue Ans} {b : β} :
    (p.bind f).Returns d b ↔ ∃ d₁ d₂ a, d = d₁ ++ d₂ ∧ p.Returns d₁ a ∧ (f a).Returns d₂ b := by
  induction p generalizing d with
  | pure a =>
    constructor
    · exact fun h => ⟨[], d, a, rfl, .pure a, h⟩
    · rintro ⟨d₁, d₂, a', rfl, h₁, h₂⟩
      cases h₁
      exact h₂
  | call r k ih =>
    constructor
    · intro h
      cases h with
      | call rest =>
        obtain ⟨d₁, d₂, a, rfl, h₁, h₂⟩ := (ih _).mp rest
        exact ⟨_ :: d₁, d₂, a, rfl, .call h₁, h₂⟩
    · rintro ⟨d₁, d₂, a, rfl, h₁, h₂⟩
      cases h₁ with
      | call rest => exact .call ((ih _).mpr ⟨_, d₂, a, rfl, rest, h₂⟩)

theorem returns_pure_iff {a b : α} {d : Dialogue Ans} :
    (.pure a : Prog Ans α).Returns d b ↔ d = [] ∧ b = a := by
  constructor
  · intro h
    cases h
    exact ⟨rfl, rfl⟩
  · rintro ⟨rfl, rfl⟩
    exact .pure b

theorem returns_call_iff {r : Req} {k : Ans r → Prog Ans α} {b : α} {d : Dialogue Ans} :
    (Prog.call r k).Returns d b ↔ ∃ a d', d = ⟨r, a⟩ :: d' ∧ (k a).Returns d' b := by
  constructor
  · intro h
    cases h with
    | call rest => exact ⟨_, _, rfl, rest⟩
  · rintro ⟨a, d', rfl, h⟩
    exact .call h

/-- The answers determine the result. -/
theorem Returns.unique {p : Prog Ans α} {d : Dialogue Ans} {a b : α} (h : p.Returns d a)
    (h' : p.Returns d b) : a = b := by
  induction h with
  | pure a => exact (returns_pure_iff.mp h').2.symm
  | call _ ih =>
    cases h' with
    | call rest => exact ih rest

theorem Only.returns {P : Req → Prop} {p : Prog Ans α} {d : Dialogue Ans} {a : α} (h : p.Only P)
    (hret : p.Returns d a) : ∀ e ∈ d, P e.1 := by
  induction hret with
  | pure a => exact nofun
  | call _ ih =>
    intro e he
    rcases List.mem_cons.mp he with rfl | he
    · exact h.1
    · exact ih (h.2 _) e he

/-- The result of a program that is driven to its end. -/
theorem drive_returns (answer : W → (r : Req) → Ans r × W) (p : Prog Ans α) (w : W) :
    p.Returns (p.drive answer w).1 (p.drive answer w).2.2 := by
  induction p generalizing w with
  | pure a => exact .pure a
  | call r k ih => exact .call (ih _ _)

theorem drive_follows {answer : W → (r : Req) → Ans r × W} {check : W → Req → Bool}
    (hanswer : ∀ w r, check w r = true → env w r (answer w r).1 (answer w r).2) (p : Prog Ans α)
    {w : W} (hpasses : p.passes answer check w = true) :
    Follows env w (p.drive answer w).1 (p.drive answer w).2.1 := by
  induction p generalizing w with
  | pure a => exact .nil w
  | call r k ih =>
    simp only [passes, Bool.and_eq_true] at hpasses
    exact .cons (hanswer w r hpasses.1) (ih _ hpasses.2)

end Prog

/-! ## Programs over a larger signature -/

section Lift

variable {Req' : Type} {Ans' : Req' → Type}

/-- A program whose requests are some of a larger signature's. -/
def Prog.lift (inj : Req → Req') (reply : ∀ r, Ans' (inj r) → Ans r) : Prog Ans α → Prog Ans' α
  | .pure a => .pure a
  | .call r k => .call (inj r) fun a => (k (reply r a)).lift inj reply

theorem Prog.Only.lift {P : Req' → Prop} {inj : Req → Req'} {reply : ∀ r, Ans' (inj r) → Ans r}
    {p : Prog Ans α} (h : p.Only fun r => P (inj r)) : (p.lift inj reply).Only P := by
  induction p with
  | pure a => trivial
  | call r k ih => exact ⟨h.1, fun a => ih (reply r a) (h.2 (reply r a))⟩

end Lift

/-! ## Tasks -/

namespace Task

section Returns

variable {m : Task Ans ε σ α} {f : α → Task Ans ε σ β} {s s' : σ} {d : Dialogue Ans}

theorem returns_bind_iff {y : Except ε β} :
    ((m >>= f) s).Returns d (y, s') ↔ ∃ d₁ d₂ x s₁, d = d₁ ++ d₂ ∧ (m s).Returns d₁ (x, s₁) ∧
      match x with
      | .ok a => (f a s₁).Returns d₂ (y, s')
      | .error e => d₂ = [] ∧ y = .error e ∧ s' = s₁ := by
  refine Prog.returns_bind_iff.trans ?_
  constructor
  · rintro ⟨d₁, d₂, ⟨x, s₁⟩, rfl, h₁, h₂⟩
    refine ⟨d₁, d₂, x, s₁, rfl, h₁, ?_⟩
    cases x with
    | ok a => exact h₂
    | error e =>
      obtain ⟨hd, hy⟩ := Prog.returns_pure_iff.mp h₂
      exact ⟨hd, (Prod.mk.inj hy).1, (Prod.mk.inj hy).2⟩
  · rintro ⟨d₁, d₂, x, s₁, rfl, h₁, h₂⟩
    refine ⟨d₁, d₂, (x, s₁), rfl, h₁, ?_⟩
    cases x with
    | ok a => exact h₂
    | error e =>
      obtain ⟨rfl, rfl, rfl⟩ := h₂
      exact .pure _

theorem returns_ask_bind_iff {r : Req} {f : Ans r → Task Ans ε σ β} {y : Except ε β × σ} :
    ((ask r >>= f) s).Returns d y ↔ ∃ a d', d = ⟨r, a⟩ :: d' ∧ (f a s).Returns d' y :=
  Prog.returns_call_iff

theorem returns_pure_iff {a : α} {y : Except ε α × σ} :
    ((pure a : Task Ans ε σ α) s).Returns d y ↔ d = [] ∧ y = (.ok a, s) := Prog.returns_pure_iff

theorem returns_fail_iff {e : ε} {y : Except ε α × σ} :
    ((fail e : Task Ans ε σ α) s).Returns d y ↔ d = [] ∧ y = (.error e, s) := Prog.returns_pure_iff

theorem returns_ofExcept_iff {x : Except ε α} {y : Except ε α × σ} :
    ((ofExcept x : Task Ans ε σ α) s).Returns d y ↔ d = [] ∧ y = (x, s) := Prog.returns_pure_iff

theorem returns_attempt_iff {y : Except ε (Except ε α)} :
    (m.attempt s).Returns d (y, s') ↔ ∃ x, y = .ok x ∧ (m s).Returns d (x, s') := by
  refine Prog.returns_bind_iff.trans ?_
  constructor
  · rintro ⟨d₁, d₂, ⟨x, s₁⟩, rfl, h₁, h₂⟩
    obtain ⟨rfl, hy⟩ := Prog.returns_pure_iff.mp h₂
    obtain ⟨rfl, rfl⟩ := Prod.mk.inj hy
    rw [List.append_nil]
    exact ⟨x, rfl, h₁⟩
  · rintro ⟨x, rfl, h⟩
    exact ⟨d, [], (x, s'), (List.append_nil d).symm, h, .pure _⟩

end Returns

variable {env : Environment Ans W}

/-- The same for a task: the postcondition sees the result and the state. -/
def wlp (env : Environment Ans W) (m : Task Ans ε σ α) (Q : Except ε α → σ → W → Prop) (s : σ)
    (w : W) : Prop :=
  (m s).wlp env (fun p w => Q p.1 p.2 w) w

variable {m : Task Ans ε σ α} {f : α → Task Ans ε σ β} {s : σ} {w : W}

theorem wlp_returns {Q : Except ε α → σ → W → Prop} {d : Dialogue Ans} {x : Except ε α} {s' : σ}
    {w' : W} (h : m.wlp env Q s w) (hret : (m s).Returns d (x, s')) (hd : Follows env w d w') :
    Q x s' w' := Prog.wlp_returns (Q := fun (p : Except ε α × σ) w => Q p.1 p.2 w) h hret hd

theorem wlp_mono {Q R : Except ε α → σ → W → Prop} (h : m.wlp env Q s w)
    (hQR : ∀ x s w, Q x s w → R x s w) : m.wlp env R s w :=
  Prog.wlp_mono h fun p w => hQR p.1 p.2 w

theorem wlp_bind {Q : Except ε β → σ → W → Prop} :
    Task.wlp env (m >>= f) Q s w ↔ m.wlp env (fun
      | .ok a => fun s w => (f a).wlp env Q s w
      | .error e => fun s w => Q (.error e) s w) s w := by
  refine Prog.wlp_bind.trans ⟨fun h => Prog.wlp_mono h ?_, fun h => Prog.wlp_mono h ?_⟩
  · rintro ⟨x | x, s'⟩ w hx <;> exact hx
  · rintro ⟨x | x, s'⟩ w hx <;> exact hx

@[simp] theorem wlp_pure {a : α} {Q : Except ε α → σ → W → Prop} :
    Task.wlp env (pure a : Task Ans ε σ α) Q s w ↔ Q (.ok a) s w := Iff.rfl

@[simp] theorem wlp_fail {e : ε} {Q : Except ε α → σ → W → Prop} :
    Task.wlp env (fail e : Task Ans ε σ α) Q s w ↔ Q (.error e) s w := Iff.rfl

@[simp] theorem wlp_ofExcept {x : Except ε α} {Q : Except ε α → σ → W → Prop} :
    Task.wlp env (ofExcept x : Task Ans ε σ α) Q s w ↔ Q x s w := Iff.rfl

/-- Asking and going on with the answer. -/
theorem wlp_ask_bind {r : Req} {f : Ans r → Task Ans ε σ β} {Q : Except ε β → σ → W → Prop} :
    Task.wlp env (ask r >>= f) Q s w ↔ ∀ a w', env w r a w' → (f a).wlp env Q s w' := Iff.rfl

theorem wlp_look_bind {f : σ → Task Ans ε σ β} {Q : Except ε β → σ → W → Prop} :
    Task.wlp env (look >>= f) Q s w ↔ (f s).wlp env Q s w := Iff.rfl

theorem wlp_put_bind {t : σ} {f : Unit → Task Ans ε σ β} {Q : Except ε β → σ → W → Prop} :
    Task.wlp env (put t >>= f) Q s w ↔ (f ()).wlp env Q t w := Iff.rfl

theorem wlp_and {Q R : Except ε α → σ → W → Prop} (hQ : m.wlp env Q s w) (hR : m.wlp env R s w) :
    m.wlp env (fun x s w => Q x s w ∧ R x s w) s w := Prog.wlp_and hQ hR

/-- A family of postconditions is shown one by one. -/
theorem wlp_forall {ι : Type} {Q : ι → Except ε α → σ → W → Prop} (h : ∀ i, m.wlp env (Q i) s w) :
    m.wlp env (fun x s w => ∀ i, Q i x s w) s w := Prog.wlp_forall h

theorem wlp_attempt {Q : Except ε (Except ε α) → σ → W → Prop} :
    m.attempt.wlp env Q s w ↔ m.wlp env (fun x s w => Q (.ok x) s w) s w := Prog.wlp_bind

end Task
end Program
