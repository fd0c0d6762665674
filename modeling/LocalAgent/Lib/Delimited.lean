import Mathlib.Algebra.Group.Nat.Defs
import Mathlib.Data.List.Infix

/-!
# Parts between delimiters

A part that is put before a delimiter without being escaped ends where the delimiter is first found,
if the part does not contain it and no delimiter can begin inside another one (`Clear`).
-/
namespace Delimited

variable {α : Type} {x y d d' r r' : List α}

/-- No word begins inside of the first delimiter and goes on as the second. -/
def Clear (d d' : List α) : Prop := ∀ w ∈ d.tails, w ≠ [] → w ≠ d → ¬ w <+: d' ∧ ¬ d' <+: w

instance [DecidableEq α] : Decidable (Clear d d') :=
  inferInstanceAs (Decidable (∀ w ∈ d.tails, w ≠ [] → w ≠ d → ¬ w <+: d' ∧ ¬ d' <+: w))

/-- The longer of two parts has the other one's delimiter in it, if they differ. -/
theorem eq_of_length_le (hclear : Clear d d') (hlen : x.length ≤ y.length) (hy : ¬ d <:+: y)
    (h : x ++ (d ++ r) = y ++ (d' ++ r')) : x = y := by
  obtain ⟨z, rfl⟩ : ∃ z, y = x ++ z := by
    obtain ⟨z, hz⟩ := List.prefix_of_prefix_length_le (List.prefix_append x (d ++ r)) ⟨d' ++ r', h.symm⟩ hlen
    exact ⟨z, hz.symm⟩
  rw [List.append_assoc] at h
  have hrest := List.append_cancel_left h
  by_cases hd : d.length ≤ z.length
  · obtain ⟨w, rfl⟩ := List.prefix_of_prefix_length_le ⟨r, rfl⟩ ⟨d' ++ r', hrest.symm⟩ hd
    exact absurd ⟨x, w, by simp⟩ hy
  · obtain ⟨w, rfl⟩ := List.prefix_of_prefix_length_le ⟨d' ++ r', rfl⟩ ⟨r, hrest⟩ (by omega)
    rw [List.append_assoc] at hrest
    have hw := List.append_cancel_left hrest
    by_cases hz : z = []
    · rw [hz, List.append_nil]
    · -- the second delimiter begins inside of the first one
      have hne : w ≠ [] := by
        rintro rfl
        simp at hd
      have hproper : w ≠ z ++ w := by
        intro heq
        have hlength := congrArg List.length heq
        rw [List.length_append] at hlength
        exact hz (List.length_eq_zero_iff.mp (by omega))
      obtain ⟨hle, hge⟩ := hclear w ((List.mem_tails _ _).mpr (List.suffix_append z w)) hne hproper
      rcases List.prefix_or_prefix_of_prefix (List.prefix_append w r) ⟨r', hw.symm⟩ with hprefix | hprefix
      · exact absurd hprefix hle
      · exact absurd hprefix hge

/-- **Where a part ends** is where its delimiter is first found. -/
theorem append_inj (hclear : Clear d d') (hclear' : Clear d' d) (hx : ¬ d' <:+: x) (hy : ¬ d <:+: y)
    (h : x ++ (d ++ r) = y ++ (d' ++ r')) : x = y ∧ d ++ r = d' ++ r' := by
  have heq : x = y := by
    rcases Nat.le_total x.length y.length with hlen | hlen
    · exact eq_of_length_le hclear hlen hy h
    · exact (eq_of_length_le hclear' hlen hx h.symm).symm
  subst heq
  exact ⟨rfl, List.append_cancel_left h⟩

/-- A delimiter of one letter. -/
theorem clear_singleton (a b : α) : Clear [a] [b] := by
  intro w hw hne hproper
  simp only [List.tails, List.mem_cons, List.not_mem_nil, or_false] at hw
  rcases hw with rfl | rfl
  · exact absurd rfl hproper
  · exact absurd rfl hne

end Delimited
