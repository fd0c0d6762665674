import Mathlib.Data.Finset.Card
import Mathlib.Data.List.Induction

/-!
# Positions in a log

Statements about a log are statements about positions: "no `q` after the last `p`" (`Since`),
"every `q` is followed by an `r`" (`Followed`), "there are at most as many `p` as `q`"
(`countP_le_of_injOn`). The lemmas say how each of them grows with the log.
-/
namespace Position

variable {α : Type*} {p q : α → Bool} {l : List α}

/-- Element `i` of the list exists and satisfies `p`. -/
def At (l : List α) (p : α → Bool) (i : Nat) : Prop := (l[i]?).any p = true

instance (l : List α) (p : α → Bool) : DecidablePred (At l p) :=
  fun _ => inferInstanceAs (Decidable (_ = true))

theorem at_iff {i : Nat} : At l p i ↔ ∃ a, l[i]? = some a ∧ p a = true := by
  rw [At, Option.any_eq_true]

theorem getElem?_concat {a b : α} {i : Nat} :
    (l ++ [a])[i]? = some b ↔ l[i]? = some b ∨ i = l.length ∧ a = b := by
  rcases Nat.lt_or_ge i l.length with hlt | hge
  · simp [List.getElem?_append_left hlt, Nat.ne_of_lt hlt]
  · rw [List.getElem?_append_right hge, List.getElem?_eq_none hge, List.getElem?_singleton]
    split_ifs with hzero
    · simp [Nat.le_antisymm (Nat.sub_eq_zero_iff_le.mp hzero) hge]
    · have hne : i ≠ l.length := by omega
      simp [hne]

theorem at_concat {a : α} {i : Nat} :
    At (l ++ [a]) p i ↔ At l p i ∨ i = l.length ∧ p a = true := by
  simp only [at_iff, getElem?_concat]
  constructor
  · rintro ⟨b, hold | ⟨rfl, rfl⟩, hb⟩
    · exact .inl ⟨b, hold, hb⟩
    · exact .inr ⟨rfl, hb⟩
  · rintro (⟨b, hold, hb⟩ | ⟨rfl, ha⟩)
    · exact ⟨b, .inl hold, hb⟩
    · exact ⟨a, .inr ⟨rfl, rfl⟩, ha⟩

theorem At.lt {i : Nat} (h : At l p i) : i < l.length := by
  obtain ⟨a, ha, -⟩ := at_iff.mp h
  exact (List.getElem?_eq_some_iff.mp ha).1

theorem At.concat {i : Nat} (h : At l p i) (a : α) : At (l ++ [a]) p i := at_concat.mpr (.inl h)

theorem not_at_concat {a : α} {i : Nat} (h : ¬ At l p i) (ha : p a = false) :
    ¬ At (l ++ [a]) p i := by
  rw [at_concat, not_or]
  refine ⟨h, fun hlast => ?_⟩
  rw [ha] at hlast
  exact Bool.false_ne_true hlast.2

/-! ## Order -/

/-- Some `p` has no `q` after it. -/
def Since (l : List α) (p q : α → Bool) : Prop := ∃ i, At l p i ∧ ∀ j, i < j → ¬ At l q j

/-- Every `q` has an `r` after it. -/
def Followed (l : List α) (q r : α → Bool) : Prop := ∀ j, At l q j → ∃ i, j < i ∧ At l r i

theorem since_concat {a : α} (ha : p a = true) : Since (l ++ [a]) p q := by
  refine ⟨l.length, at_concat.mpr (.inr ⟨rfl, ha⟩), fun j hj hq => ?_⟩
  have := hq.lt
  rw [List.length_append, List.length_singleton] at this
  omega

theorem Since.concat {a : α} (h : Since l p q) (ha : q a = false) : Since (l ++ [a]) p q := by
  obtain ⟨i, hi, hnone⟩ := h
  refine ⟨i, hi.concat a, fun j hj hq => ?_⟩
  rcases at_concat.mp hq with hold | ⟨-, hlast⟩
  · exact hnone j hj hold
  · rw [ha] at hlast
    cases hlast

/-- If no `q` comes after some `p`, then every `q` comes before it. -/
theorem Since.followed {r : α → Bool} (h : Since l p q) (hpr : ∀ a, p a = true → r a = true)
    (hpq : ∀ a, p a = true → q a = false) : Followed l q r := by
  obtain ⟨i, hi, hnone⟩ := h
  intro j hj
  obtain ⟨a, ha, hpa⟩ := at_iff.mp hi
  refine ⟨i, ?_, at_iff.mpr ⟨a, ha, hpr a hpa⟩⟩
  rcases Nat.lt_trichotomy i j with hlt | heq | hgt
  · exact absurd hj (hnone j hlt)
  · obtain ⟨b, hb, hqb⟩ := at_iff.mp hj
    obtain rfl : a = b := Option.some.inj (ha.symm.trans (heq ▸ hb))
    rw [hpq a hpa] at hqb
    cases hqb
  · exact hgt

/-- If no `r` comes after some `p`, and from every `q` on there is an `r`, then no `q` does. -/
theorem Since.of_reached {r : α → Bool} (h : Since l p r)
    (hq : ∀ j, At l q j → ∃ i, j ≤ i ∧ At l r i) : Since l p q := by
  obtain ⟨i, hi, hnone⟩ := h
  refine ⟨i, hi, fun j hj hat => ?_⟩
  obtain ⟨m, hm, hr⟩ := hq j hat
  exact hnone m (Nat.lt_of_lt_of_le hj hm) hr

/-! ## Splits -/

/-- A statement about every element and what stands before it, by position. -/
theorem forall_split_iff {P : List α → α → Prop} :
    (∀ before a after, l = before ++ a :: after → P before a) ↔
      ∀ i : Fin l.length, P (l.take i) (l.get i) := by
  constructor
  · intro h i
    exact h (l.take i) (l.get i) (l.drop (i + 1)) (by simp)
  · rintro h before a after rfl
    have hi : before.length < (before ++ a :: after).length := by simp
    simpa using h ⟨before.length, hi⟩

/-! ## Number -/

theorem countP_eq_card : l.countP p = ((Finset.range l.length).filter (At l p)).card := by
  induction l using List.reverseRecOn with
  | nil => rfl
  | append_singleton l a ih =>
    have hold : (Finset.range l.length).filter (At (l ++ [a]) p) =
        (Finset.range l.length).filter (At l p) := by
      refine Finset.filter_congr fun i hi => ?_
      rw [at_concat]
      exact ⟨fun h => h.resolve_right fun h => Nat.ne_of_lt (Finset.mem_range.mp hi) h.1, .inl⟩
    have hlast : At (l ++ [a]) p l.length ↔ p a = true := by simp [At]
    rw [List.countP_append, List.length_append, List.length_singleton, Finset.range_add_one,
      Finset.filter_insert, hold, ih, List.countP_singleton]
    by_cases hp : p a = true
    · rw [if_pos hp, if_pos (hlast.mpr hp), Finset.card_insert_of_notMem (by simp)]
    · rw [if_neg hp, if_neg (hp ∘ hlast.mp), Nat.add_zero]

/-- An injection from the positions of `p` to positions of `q` bounds the count of `p`. -/
theorem countP_le_of_injOn (f : Nat → Nat) (hmaps : ∀ i, At l p i → At l q (f i))
    (hinj : ∀ i j, At l p i → At l p j → f i = f j → i = j) : l.countP p ≤ l.countP q := by
  rw [countP_eq_card, countP_eq_card]
  refine Finset.card_le_card_of_injOn f (fun i hi => ?_) (fun i hi j hj => ?_)
  · have hq := hmaps i (Finset.mem_filter.mp hi).2
    obtain ⟨a, ha, -⟩ := at_iff.mp hq
    obtain ⟨hlt, -⟩ := List.getElem?_eq_some_iff.mp ha
    exact Finset.mem_filter.mpr ⟨Finset.mem_range.mpr hlt, hq⟩
  · exact hinj i j (Finset.mem_filter.mp hi).2 (Finset.mem_filter.mp hj).2

end Position
