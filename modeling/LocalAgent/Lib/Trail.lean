import Mathlib.Data.List.Basic

/-!
# Trails

A history of moves from place to place. A trail is determined by where it starts and by its moves,
it enters a set through one of its moves and stays in a set that no move leaves, and if no move goes
down then a move that goes up is made at most once.
-/
namespace Trail

variable {α : Type*}

/-- The moves lead from the first place to the last, each starting where the one before it ended. -/
def Leads (a : α) : List (α × α) → α → Prop
  | [], b => a = b
  | m :: moves, b => a = m.1 ∧ Leads m.2 moves b

variable {a b c : α} {moves later : List (α × α)} {m : α × α}

theorem leads_append :
    Leads a (moves ++ later) c ↔ ∃ b, Leads a moves b ∧ Leads b later c := by
  induction moves generalizing a with
  | nil =>
    refine ⟨fun h => ⟨a, rfl, h⟩, ?_⟩
    rintro ⟨b, rfl, h⟩
    exact h
  | cons m moves ih =>
    simp only [List.cons_append, Leads, ih]
    constructor
    · rintro ⟨ha, b, hb, hc⟩
      exact ⟨b, ⟨ha, hb⟩, hc⟩
    · rintro ⟨b, ⟨ha, hb⟩, hc⟩
      exact ⟨ha, b, hb, hc⟩

/-- One more move from where the trail ends. -/
theorem Leads.concat (h : Leads a moves m.1) : Leads a (moves ++ [m]) m.2 :=
  leads_append.mpr ⟨m.1, h, rfl, rfl⟩

theorem Leads.unique (hb : Leads a moves b) (hc : Leads a moves c) : b = c := by
  induction moves generalizing a with
  | nil => exact hb.symm.trans hc
  | cons m moves ih => exact ih hb.2 hc.2

/-- The rest of a trail leads on from where its first part ends. -/
theorem Leads.rest (hb : Leads a moves b) (hc : Leads a (moves ++ later) c) : Leads b later c := by
  obtain ⟨b', hb', hlater⟩ := leads_append.mp hc
  obtain rfl := hb.unique hb'
  exact hlater

/-- A trail into a set from outside has a move into it. -/
theorem Leads.enters {P : α → Prop} (h : Leads a moves b) (ha : ¬ P a) (hb : P b) :
    ∃ m ∈ moves, ¬ P m.1 ∧ P m.2 := by
  induction moves generalizing a with
  | nil =>
    obtain rfl := h
    exact absurd hb ha
  | cons m moves ih =>
    obtain ⟨rfl, h⟩ := h
    by_cases hm : P m.2
    · exact ⟨m, List.mem_cons_self, ha, hm⟩
    · obtain ⟨m', hmem, hm'⟩ := ih h hm
      exact ⟨m', List.mem_cons_of_mem m hmem, hm'⟩

/-- A trail stays in a set that no move leaves. -/
theorem Leads.stays {P : α → Prop} (h : Leads a moves b) (hclosed : ∀ m ∈ moves, P m.1 → P m.2)
    (ha : P a ∨ ∃ m ∈ moves, P m.2) : P b := by
  induction moves generalizing a with
  | nil =>
    obtain rfl := h
    exact ha.resolve_right (by simp)
  | cons m moves ih =>
    obtain ⟨rfl, h⟩ := h
    refine ih h (fun m' hm' => hclosed m' (List.mem_cons_of_mem m hm')) ?_
    rcases ha with ha | ⟨m', hm', hP⟩
    · exact .inl (hclosed m List.mem_cons_self ha)
    · rcases List.mem_cons.mp hm' with rfl | hm'
      · exact .inl hP
      · exact .inr ⟨m', hm', hP⟩

section

variable {rank : α → Nat}

/-- No move goes down. -/
theorem Leads.rank_le (h : Leads a moves b) (hup : ∀ m ∈ moves, rank m.1 ≤ rank m.2) :
    rank a ≤ rank b ∧ ∀ m ∈ moves, rank a ≤ rank m.1 := by
  induction moves generalizing a with
  | nil =>
    obtain rfl := h
    exact ⟨Nat.le_refl _, by simp⟩
  | cons m moves ih =>
    obtain ⟨rfl, h⟩ := h
    have hm := hup m List.mem_cons_self
    obtain ⟨hb, hmoves⟩ := ih h fun m' hm' => hup m' (List.mem_cons_of_mem m hm')
    refine ⟨Nat.le_trans hm hb, fun m' hm' => ?_⟩
    rcases List.mem_cons.mp hm' with rfl | hm'
    · exact Nat.le_refl _
    · exact Nat.le_trans hm (hmoves m' hm')

/-- Of the moves that go up from one height only one is made. -/
theorem Leads.up_unique {m' : α × α} (h : Leads a moves b) (hup : ∀ m ∈ moves, rank m.1 ≤ rank m.2)
    (hm : m ∈ moves) (hm' : m' ∈ moves) (hheight : rank m.1 = rank m'.1) (hrise : rank m.1 < rank m.2)
    (hrise' : rank m'.1 < rank m'.2) : m = m' := by
  induction moves generalizing a with
  | nil => cases hm
  | cons n moves ih =>
    obtain ⟨rfl, h⟩ := h
    have hrest : ∀ k ∈ moves, rank k.1 ≤ rank k.2 := fun k hk => hup k (List.mem_cons_of_mem n hk)
    have hlater := (h.rank_le hrest).2
    rcases List.mem_cons.mp hm with rfl | hn <;> rcases List.mem_cons.mp hm' with rfl | hn'
    · rfl
    · have := hlater m' hn'
      omega
    · have := hlater m hn
      omega
    · exact ih h hrest hn hn'

/-- A move that goes up is made at most once. -/
theorem Leads.count_le_one [DecidableEq α] (h : Leads a moves b)
    (hup : ∀ m ∈ moves, rank m.1 ≤ rank m.2) (hm : rank m.1 < rank m.2) : moves.count m ≤ 1 := by
  induction moves generalizing a with
  | nil => exact Nat.zero_le 1
  | cons m' moves ih =>
    obtain ⟨rfl, h⟩ := h
    have hrest : ∀ n ∈ moves, rank n.1 ≤ rank n.2 := fun n hn => hup n (List.mem_cons_of_mem m' hn)
    rw [List.count_cons]
    by_cases heq : m' = m
    · subst heq
      have hnone : moves.count m' = 0 := by
        rw [List.count_eq_zero]
        intro hmem
        exact Nat.not_le_of_lt hm ((h.rank_le hrest).2 m' hmem)
      simp [hnone]
    · simpa [heq] using ih h hrest

end
end Trail
