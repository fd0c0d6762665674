import Mathlib.Data.List.Induction

/-!
# Folds that can fail

A log is replayed by folding a step function that may refuse an element. This file has what
such folds obey: how a successful fold splits at a cut point, and the two induction rules: one
for an invariant of the state, one for a relation between the state and the elements consumed so
far.
-/
namespace FailingFold

universe u

variable {ε σ α : Type*} {step : σ → α → Except ε σ} {s t : σ}

/-- A successful `bind` had a successful first half. -/
theorem bind_eq_ok {β γ : Type u} {x : Except ε β} {f : β → Except ε γ} {c : γ} :
    (x >>= f) = .ok c ↔ ∃ b, x = .ok b ∧ f b = .ok c := by
  cases x with
  | error e =>
    refine ⟨nofun, ?_⟩
    rintro ⟨b, hb, -⟩
    cases hb
  | ok b =>
    refine ⟨fun h => ⟨b, rfl, h⟩, ?_⟩
    rintro ⟨b', hb, h⟩
    cases hb
    exact h

@[simp] theorem foldlM_nil_ok : [].foldlM step s = .ok t ↔ t = s := by
  rw [List.foldlM_nil]
  exact ⟨fun h => by cases h; rfl, fun h => by rw [h]; rfl⟩

theorem foldlM_cons_ok {a : α} {l : List α} :
    (a :: l).foldlM step s = .ok t ↔ ∃ m, step s a = .ok m ∧ l.foldlM step m = .ok t := by
  rw [List.foldlM_cons, bind_eq_ok]

theorem foldlM_append_ok {l₁ l₂ : List α} :
    (l₁ ++ l₂).foldlM step s = .ok t ↔
      ∃ m, l₁.foldlM step s = .ok m ∧ l₂.foldlM step m = .ok t := by
  rw [List.foldlM_append, bind_eq_ok]

theorem foldlM_concat_ok {l : List α} {a : α} :
    (l ++ [a]).foldlM step s = .ok t ↔ ∃ m, l.foldlM step s = .ok m ∧ step m a = .ok t := by
  rw [foldlM_append_ok]
  refine exists_congr fun m => and_congr_right fun _ => ?_
  rw [foldlM_cons_ok]
  refine ⟨?_, fun h => ⟨t, h, by rw [foldlM_nil_ok]⟩⟩
  rintro ⟨m', hm', ht⟩
  rw [foldlM_nil_ok] at ht
  rw [ht, hm']

/-- **History rule.** A relation between the consumed elements and the state that holds at the
start and is kept by every successful step holds after every successful fold. -/
theorem history {R : List α → σ → Prop} (hinit : R [] s)
    (hstep : ∀ l a m m', l.foldlM step s = .ok m → R l m → step m a = .ok m' → R (l ++ [a]) m')
    {l : List α} (h : l.foldlM step s = .ok t) : R l t := by
  induction l using List.reverseRecOn generalizing t with
  | nil =>
    rw [foldlM_nil_ok] at h
    rw [h]
    exact hinit
  | append_singleton l a ih =>
    obtain ⟨m, hl, ha⟩ := foldlM_concat_ok.mp h
    exact hstep l a m t hl (ih hl) ha

/-- **Invariant rule.** What every successful step keeps, every successful fold keeps. -/
theorem invariant {I : σ → Prop} (hinit : I s)
    (hstep : ∀ a m m', I m → step m a = .ok m' → I m')
    {l : List α} (h : l.foldlM step s = .ok t) : I t :=
  history (R := fun _ => I) hinit (fun _ a m m' _ hm ha => hstep a m m' hm ha) h

end FailingFold
