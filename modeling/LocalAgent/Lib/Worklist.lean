import Mathlib.Algebra.GroupWithZero.Nat
import Mathlib.Algebra.BigOperators.Group.List.Basic

/-!
# Walks over a tree with a list of what is left to do

A walk takes something from its list, counts it, and puts its parts on the list. It stops at the first
thing that is too deep or takes a counter over its limit. Whatever it takes next, it accepts exactly
if the sums over the whole tree are within the limits and the tree is not too high (`Walk.iff`).
-/
namespace Worklist

variable {α ι : Type}

/-- The totals and the height of a tree from those of its parts. -/
structure Measured (parts : α → List α) (own total : ι → α → Nat) (height : α → Nat) : Prop where
  total : ∀ i a, total i a = own i a + ((parts a).map (total i)).sum
  height_pos : ∀ a, 1 ≤ height a
  height_le : ∀ a n, height a ≤ n + 1 ↔ ∀ b ∈ parts a, height b ≤ n

/-- A walk from counters and a list of things with their depths, in any order. -/
inductive Walk (parts : α → List α) (own : ι → α → Nat) (limit : ι → Nat) (maxDepth : Nat) :
    (ι → Nat) → List (α × Nat) → Bool → Prop
  | done {s : ι → Nat} : Walk parts own limit maxDepth s [] true
  | refuse {s : ι → Nat} {todo rest : List (α × Nat)} {a : α} {depth : Nat}
      (next : todo.Perm ((a, depth) :: rest))
      (beyond : ¬ (depth ≤ maxDepth ∧ ∀ i, s i + own i a ≤ limit i)) :
      Walk parts own limit maxDepth s todo false
  | visit {s : ι → Nat} {todo rest : List (α × Nat)} {a : α} {depth : Nat} {accepted : Bool}
      (next : todo.Perm ((a, depth) :: rest))
      (within : depth ≤ maxDepth ∧ ∀ i, s i + own i a ≤ limit i)
      (walk : Walk parts own limit maxDepth (fun i => s i + own i a)
        ((parts a).map (fun b => (b, depth + 1)) ++ rest) accepted) :
      Walk parts own limit maxDepth s todo accepted

/-- What is counted so far together with what is left is within the limits. -/
def Within (total : ι → α → Nat) (height : α → Nat) (limit : ι → Nat) (maxDepth : Nat) (s : ι → Nat)
    (todo : List (α × Nat)) : Prop :=
  (∀ i, s i + (todo.map fun x => total i x.1).sum ≤ limit i) ∧
    ∀ x ∈ todo, x.2 + height x.1 ≤ maxDepth + 1

variable {parts : α → List α} {own total : ι → α → Nat} {height : α → Nat} {limit : ι → Nat}
  {maxDepth : Nat} {s : ι → Nat} {todo rest : List (α × Nat)} {a : α} {depth : Nat}

theorem Within.perm (h : todo.Perm rest) :
    Within total height limit maxDepth s todo ↔ Within total height limit maxDepth s rest := by
  unfold Within
  constructor
  · rintro ⟨hsum, hheight⟩
    refine ⟨fun i => ?_, fun x hx => hheight x (h.mem_iff.mpr hx)⟩
    rw [← (h.map fun x : α × Nat => total i x.1).sum_eq]
    exact hsum i
  · rintro ⟨hsum, hheight⟩
    refine ⟨fun i => ?_, fun x hx => hheight x (h.mem_iff.mp hx)⟩
    rw [(h.map fun x : α × Nat => total i x.1).sum_eq]
    exact hsum i

/-- The order of the list does not matter to a walk. -/
theorem Walk.perm {accepted : Bool} (h : Walk parts own limit maxDepth s todo accepted)
    (hperm : todo.Perm rest) : Walk parts own limit maxDepth s rest accepted := by
  cases h with
  | done =>
    obtain rfl := hperm.nil_eq
    exact .done
  | refuse next beyond => exact .refuse (hperm.symm.trans next) beyond
  | visit next within walk => exact .visit (hperm.symm.trans next) within walk

/-- Something on the list that is not refused can be replaced by its parts. -/
theorem Within.visit (hm : Measured parts own total height) (hdepth : depth ≤ maxDepth) :
    Within total height limit maxDepth (fun i => s i + own i a)
        ((parts a).map (fun b => (b, depth + 1)) ++ rest) ↔
      Within total height limit maxDepth s ((a, depth) :: rest) := by
  have hparts : (∀ x ∈ (parts a).map fun b => (b, depth + 1), x.2 + height x.1 ≤ maxDepth + 1) ↔
      depth + height a ≤ maxDepth + 1 := by
    have hle := hm.height_le a (maxDepth - depth)
    constructor
    · intro h
      have hheight := hle.mpr fun b hb => by
        have hb' := h (b, depth + 1) (List.mem_map.mpr ⟨b, hb, rfl⟩)
        simp only at hb'
        omega
      omega
    · intro h x hx
      obtain ⟨b, hb, rfl⟩ := List.mem_map.mp hx
      have hb' := hle.mp (by omega) b hb
      simp only
      omega
  unfold Within
  simp only [List.forall_mem_append, hparts, List.map_append, List.sum_append, List.map_map,
    Function.comp_def, List.map_cons, List.sum_cons, List.forall_mem_cons]
  refine and_congr_left fun _ => forall_congr' fun i => ?_
  have htotal : total i a = own i a + ((parts a).map fun b => total i b).sum := hm.total i a
  rw [htotal]
  omega

/-- What is within the limits is not refused. -/
theorem Within.next (hm : Measured parts own total height)
    (h : Within total height limit maxDepth s ((a, depth) :: rest)) :
    depth ≤ maxDepth ∧ ∀ i, s i + own i a ≤ limit i := by
  obtain ⟨hsum, hheight⟩ := h
  refine ⟨?_, fun i => ?_⟩
  · have hpos := hm.height_pos a
    have hle := hheight (a, depth) List.mem_cons_self
    simp only at hle
    omega
  · have htotal := hm.total i a
    have hle := hsum i
    simp only [List.map_cons, List.sum_cons] at hle
    omega

/-- **Every walk accepts the same trees.** -/
theorem Walk.iff (hm : Measured parts own total height) {accepted : Bool}
    (h : Walk parts own limit maxDepth s todo accepted) (hs : ∀ i, s i ≤ limit i) :
    accepted = true ↔ Within total height limit maxDepth s todo := by
  induction h with
  | done => simpa [Within] using hs
  | refuse next beyond =>
    simp only [Bool.false_eq_true, false_iff, Within.perm next]
    intro hwithin
    exact beyond (hwithin.next hm)
  | visit next within walk ih => rw [ih within.2, Within.visit hm within.1, Within.perm next]

end Worklist
