import Mathlib.Logic.Basic

/-!
# Triples for programs with a state and errors

A program of `EStateM` keeps the state it had when it stopped with an error. `Spec m P Q E` is the
triple of such a program: from a state in `P` it returns in `Q`, or stops in `E`.

A method that updates its object in place and may fail is such a program. `CleanAt m s` says that it
has written nothing when it fails, `outcome m s` is what it amounts to for a caller who throws a
half-updated object away, and `stopsIn m s` the object such a caller would see.
-/
namespace Stateful

variable {ε σ α β : Type}

def Spec (m : EStateM ε σ α) (P : σ → Prop) (Q : α → σ → Prop) (E : σ → Prop) : Prop :=
  ∀ s, P s → match m s with
    | .ok a s' => Q a s'
    | .error _ s' => E s'

variable {m : EStateM ε σ α} {f : α → EStateM ε σ β} {P P' : σ → Prop} {Q Q' : α → σ → Prop}
  {R : β → σ → Prop} {E E' : σ → Prop}

theorem Spec.mono (h : Spec m P Q E) (hP : ∀ s, P' s → P s) (hQ : ∀ a s, Q a s → Q' a s)
    (hE : ∀ s, E s → E' s) : Spec m P' Q' E' := by
  intro s hs
  have hm := h s (hP s hs)
  cases hr : m s with
  | ok a s' =>
    rw [hr] at hm
    exact hQ a s' hm
  | error e s' =>
    rw [hr] at hm
    exact hE s' hm

theorem Spec.bind (h : Spec m P Q E) (hf : ∀ a, Spec (f a) (Q a) R E) : Spec (m >>= f) P R E := by
  intro s hs
  have hm := h s hs
  show match EStateM.bind m f s with
    | .ok b s' => R b s'
    | .error _ s' => E s'
  unfold EStateM.bind
  cases hr : m s with
  | ok a s' =>
    rw [hr] at hm
    exact hf a s' hm
  | error e s' =>
    rw [hr] at hm
    exact hm

theorem get_apply (s : σ) : (get : EStateM ε σ σ) s = .ok s s := rfl

theorem modify_apply (g : σ → σ) (s : σ) : (modify g : EStateM ε σ PUnit) s = .ok ⟨⟩ (g s) := rfl

theorem Spec.pure {a : α} (h : ∀ s, P s → Q a s) : Spec (pure a : EStateM ε σ α) P Q E := h

theorem Spec.throw {e : ε} (h : ∀ s, P s → E s) : Spec (throw e : EStateM ε σ α) P Q E := h

/-- Reading the state and going on. -/
theorem Spec.get_bind {f : σ → EStateM ε σ β}
    (h : ∀ s, P s → Spec (f s) (fun t => t = s) R E) : Spec (get >>= f) P R E :=
  fun s hs => h s hs s rfl

theorem Spec.modify {g : σ → σ} {Q : PUnit → σ → Prop} (h : ∀ s, P s → Q ⟨⟩ (g s)) :
    Spec (modify g : EStateM ε σ PUnit) P Q E := h

theorem Spec.ite {p : Prop} [Decidable p] {m₁ m₂ : EStateM ε σ α} (h₁ : p → Spec m₁ P Q E)
    (h₂ : ¬ p → Spec m₂ P Q E) : Spec (if p then m₁ else m₂) P Q E := by
  by_cases hp : p
  · rw [if_pos hp]
    exact h₁ hp
  · rw [if_neg hp]
    exact h₂ hp

/-! ## Checks, and the state a failure leaves -/

/-- Refuse with `e` in the states that satisfy `p`. -/
def refuseIf (p : σ → Bool) (e : ε) : EStateM ε σ PUnit := fun s =>
  if p s then .error e s else .ok ⟨⟩ s

/-- What `f` finds in the state, or the error `e`. -/
def demand (f : σ → Option α) (e : ε) : EStateM ε σ α := fun s =>
  match f s with
  | none => .error e s
  | some a => .ok a s

/-- The result of a run whose state is thrown away when it fails. -/
def outcome (m : EStateM ε σ PUnit) (s : σ) : Except ε σ :=
  match m s with
  | .ok _ t => .ok t
  | .error e _ => .error e

/-- The state a run stops in, whether it returned or failed. -/
def stopsIn (m : EStateM ε σ α) (s : σ) : σ :=
  match m s with
  | .ok _ t | .error _ t => t

/-- If the program fails, it has written nothing. -/
def CleanAt (m : EStateM ε σ α) (s : σ) : Prop := ∀ e t, m s = .error e t → t = s

/-- The program never fails. -/
def Total (m : EStateM ε σ α) : Prop := ∀ s, ∃ a t, m s = .ok a t

theorem bind_apply (m : EStateM ε σ α) (f : α → EStateM ε σ β) (s : σ) :
    (m >>= f) s = match m s with
      | .ok a t => f a t
      | .error e t => .error e t := rfl

theorem refuseIf_bind_apply (p : σ → Bool) (e : ε) (n : EStateM ε σ β) (s : σ) :
    (refuseIf p e >>= fun _ => n) s = if p s = true then .error e s else n s := by
  by_cases hp : p s = true <;> simp [bind_apply, refuseIf, hp]

theorem demand_bind_apply (look : σ → Option α) (e : ε) (f : α → EStateM ε σ β) (s : σ) :
    (demand look e >>= f) s = match look s with
      | none => .error e s
      | some a => f a s := by
  cases hs : look s <;> simp [bind_apply, demand, hs]

section Runs

variable {n : EStateM ε σ PUnit} {g : α → EStateM ε σ PUnit} {p : σ → Bool} {look : σ → Option α}
  {e : ε} {w : σ → σ} {s : σ}

/-! ### Runs, statement by statement -/

@[simp] theorem outcome_refuseIf_bind : outcome (refuseIf p e >>= fun _ => n) s =
    if p s = true then .error e else outcome n s := by
  by_cases hp : p s = true <;> simp [outcome, refuseIf_bind_apply, hp]

@[simp] theorem outcome_demand_bind : outcome (demand look e >>= g) s =
    match look s with
    | none => .error e
    | some a => outcome (g a) s := by
  cases hs : look s <;> simp [outcome, demand_bind_apply, hs]

@[simp] theorem outcome_modify_bind : outcome (modify w >>= fun _ => n) s = outcome n (w s) := rfl

@[simp] theorem outcome_modify : outcome (modify w : EStateM ε σ PUnit) s = .ok (w s) := rfl

@[simp] theorem outcome_get_bind {f : σ → EStateM ε σ PUnit} : outcome (get >>= f) s = outcome (f s) s :=
  rfl

@[simp] theorem outcome_pure : outcome (pure ⟨⟩ : EStateM ε σ PUnit) s = .ok s := rfl

@[simp] theorem outcome_throw : outcome (throw e : EStateM ε σ PUnit) s = .error e := rfl

theorem outcome_bind (m : EStateM ε σ PUnit) : outcome (m >>= fun _ => n) s = outcome m s >>= outcome n := by
  unfold outcome
  rw [bind_apply]
  cases m s <;> rfl

end Runs

/-! ### Rules for failing before the first write -/

theorem Total.write (w : σ → σ) : Total (modify w : EStateM ε σ PUnit) := fun s => ⟨⟨⟩, w s, rfl⟩

theorem Total.pure (a : α) : Total (pure a : EStateM ε σ α) := fun s => ⟨a, s, rfl⟩

theorem Total.bind (h : Total m) (hf : ∀ a, Total (f a)) : Total (m >>= f) := by
  intro s
  obtain ⟨a, t, hm⟩ := h s
  obtain ⟨b, u, hu⟩ := hf a t
  exact ⟨b, u, by rw [bind_apply, hm]; exact hu⟩

theorem Total.write_bind {n : EStateM ε σ β} (w : σ → σ) (h : Total n) :
    Total (Bind.bind (modify w) fun _ => n) := (Total.write w).bind fun _ => h

theorem Total.get_bind {g : σ → EStateM ε σ β} (h : ∀ s, Total (g s)) : Total (get >>= g) :=
  fun s => h s s

theorem Total.demand {look : σ → Option α} (h : ∀ s, (look s).isSome = true) (e : ε) :
    Total (demand look e) := by
  intro s
  obtain ⟨a, ha⟩ := Option.isSome_iff_exists.mp (h s)
  exact ⟨a, s, by simp only [Stateful.demand, ha]⟩

theorem Total.ite {p : Prop} [Decidable p] {m₁ m₂ : EStateM ε σ α} (h₁ : Total m₁) (h₂ : Total m₂) :
    Total (if p then m₁ else m₂) := by
  split
  · exact h₁
  · exact h₂

theorem Total.cleanAt (h : Total m) (s : σ) : CleanAt m s := by
  intro e t herr
  obtain ⟨a, u, hm⟩ := h s
  rw [hm] at herr
  cases herr

theorem CleanAt.throw (e : ε) (s : σ) : CleanAt (throw e : EStateM ε σ α) s := by
  intro e' t h
  cases h
  rfl

/-- A check writes nothing; the rest is looked at where the check has passed. -/
theorem CleanAt.refuseIf_bind {p : σ → Bool} {e : ε} {s : σ} {n : EStateM ε σ β}
    (h : p s = false → CleanAt n s) : CleanAt (refuseIf p e >>= fun _ => n) s := by
  intro e' t herr
  rw [refuseIf_bind_apply] at herr
  cases hp : p s with
  | true =>
    rw [if_pos hp] at herr
    cases herr
    rfl
  | false =>
    rw [if_neg (by simp [hp])] at herr
    exact h hp _ _ herr

theorem CleanAt.demand_bind {look : σ → Option α} {e : ε} {s : σ} {g : α → EStateM ε σ β}
    (h : ∀ a, look s = some a → CleanAt (g a) s) : CleanAt (demand look e >>= g) s := by
  intro e' t herr
  rw [demand_bind_apply] at herr
  cases hs : look s with
  | none =>
    rw [hs] at herr
    cases herr
    rfl
  | some a =>
    rw [hs] at herr
    exact h a hs _ _ herr

theorem CleanAt.get_bind {s : σ} {g : σ → EStateM ε σ β} (h : CleanAt (g s) s) : CleanAt (get >>= g) s := h

/-- A part that fails only before it writes, and a rest that never fails. -/
theorem CleanAt.bind_total {s : σ} (h : CleanAt m s) (hf : ∀ a, Total (f a)) : CleanAt (m >>= f) s := by
  intro e t herr
  rw [bind_apply] at herr
  split at herr
  · next a u hm =>
    obtain ⟨b, v, hv⟩ := hf a u
    rw [hv] at herr
    cases herr
  · next e' u hm =>
    cases herr
    exact h _ _ hm

end Stateful
