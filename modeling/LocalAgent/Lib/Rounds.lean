import Mathlib.Data.List.Chain
import Mathlib.Data.List.Perm.Subperm
import Mathlib.Logic.Relation

/-!
# Walks that begin anew

A walk along a relation without cycles visits nothing twice (`nodup_of_chain`). A walk that may begin
anew somewhere is a list of visits with a mark on those where it did: between two marks it goes along
the relation. It is at most as long as its rounds together (`length_le_rounds`).
-/
namespace Rounds

open Relation

variable {α : Type} {R : α → α → Prop}

theorem nodup_of_chain (hacyclic : ∀ x, ¬ TransGen R x x) {l : List α} (h : l.IsChain R) : l.Nodup := by
  have hchain : l.IsChain (TransGen R) := h.imp fun _ _ => TransGen.single
  refine hchain.pairwise.imp ?_
  rintro x y hxy rfl
  exact hacyclic x hxy

theorem length_le_of_chain (hacyclic : ∀ x, ¬ TransGen R x x) {l nodes : List α} (h : l.IsChain R)
    (hmem : ∀ x ∈ l, x ∈ nodes) : l.length ≤ nodes.length :=
  ((nodup_of_chain hacyclic h).subperm hmem).length_le

/-- From one visit to the next, unless the walk begins anew there. -/
def Onward (R : α → α → Prop) (x y : α × Bool) : Prop := y.2 = false → R x.1 y.1

/-- The visits before the next mark. -/
def round (l : List (α × Bool)) : List α := (l.takeWhile fun x => !x.2).map Prod.fst

@[simp] theorem round_nil : round ([] : List (α × Bool)) = [] := rfl

@[simp] theorem round_marked {x : α} {l : List (α × Bool)} : round ((x, true) :: l) = [] := rfl

@[simp] theorem round_unmarked {x : α} {l : List (α × Bool)} :
    round ((x, false) :: l) = x :: round l := rfl

theorem mem_of_mem_round {x : α} {l : List (α × Bool)} (h : x ∈ round l) : ∃ b, (x, b) ∈ l := by
  obtain ⟨⟨y, b⟩, hy, rfl⟩ := List.mem_map.mp h
  exact ⟨b, (List.takeWhile_sublist _).subset hy⟩

theorem round_of_unmarked {l : List (α × Bool)} (h : ∀ x ∈ l, x.2 = false) :
    round l = l.map Prod.fst := by
  induction l with
  | nil => rfl
  | cons x l ih =>
    obtain ⟨x, b⟩ := x
    obtain rfl : b = false := h _ List.mem_cons_self
    rw [round_unmarked, List.map_cons, ih fun y hy => h y (List.mem_cons_of_mem _ hy)]

theorem chain_round {x : α × Bool} {l : List (α × Bool)} (h : (x :: l).IsChain (Onward R)) :
    (x.1 :: round l).IsChain R := by
  induction l generalizing x with
  | nil => simp
  | cons y l ih =>
    obtain ⟨hxy, hl⟩ := List.isChain_cons_cons.mp h
    obtain ⟨y, b⟩ := y
    cases b with
    | true => simp
    | false =>
      rw [round_unmarked, List.isChain_cons_cons]
      exact ⟨hxy rfl, ih hl⟩

/-- Without a mark there is one round. -/
theorem nodup_of_unmarked (hacyclic : ∀ x, ¬ TransGen R x x) {l : List (α × Bool)}
    (h : l.IsChain (Onward R)) (hunmarked : l.countP (·.2) = 0) : (l.map Prod.fst).Nodup := by
  cases l with
  | nil => exact List.nodup_nil
  | cons x l =>
    rw [List.countP_eq_zero] at hunmarked
    have hchain := chain_round h
    rw [round_of_unmarked fun y hy => by simpa using hunmarked y (List.mem_cons_of_mem _ hy)] at hchain
    exact nodup_of_chain hacyclic hchain

section Length

variable (hacyclic : ∀ x, ¬ TransGen R x x) {nodes : List α}
include hacyclic

theorem length_round_le {l : List (α × Bool)} (h : l.IsChain (Onward R))
    (hmem : ∀ x ∈ l, x.1 ∈ nodes) : (round l).length ≤ nodes.length := by
  refine length_le_of_chain hacyclic ?_ fun y hy => ?_
  · cases l with
    | nil => simp
    | cons x l =>
      obtain ⟨x, b⟩ := x
      cases b with
      | true => simp
      | false => exact chain_round h
  · obtain ⟨b, hb⟩ := mem_of_mem_round hy
    exact hmem _ hb

/-- Counted from the end: the first round is open, each later one begins with its mark. -/
theorem length_le_round {l : List (α × Bool)} (h : l.IsChain (Onward R))
    (hmem : ∀ x ∈ l, x.1 ∈ nodes) :
    l.length ≤ (round l).length + l.countP (·.2) * nodes.length := by
  induction l with
  | nil => simp
  | cons x l ih =>
    have hrest := ih h.tail fun y hy => hmem y (List.mem_cons_of_mem _ hy)
    obtain ⟨x, b⟩ := x
    cases b with
    | false =>
      simp only [List.length_cons, round_unmarked]
      rw [List.countP_cons_of_neg (by simp)]
      omega
    | true =>
      have hfirst : (x :: round l).length ≤ nodes.length := by
        refine length_le_of_chain hacyclic (chain_round h) fun y hy => ?_
        rcases List.mem_cons.mp hy with rfl | hy
        · exact hmem _ List.mem_cons_self
        · obtain ⟨b, hb⟩ := mem_of_mem_round hy
          exact hmem _ (List.mem_cons_of_mem _ hb)
      simp only [List.length_cons, round_marked, List.length_nil] at hfirst ⊢
      rw [List.countP_cons_of_pos (by simp), Nat.add_mul, Nat.one_mul]
      omega

/-- **The length of a walk with restarts.** -/
theorem length_le_rounds {l : List (α × Bool)} (h : l.IsChain (Onward R))
    (hmem : ∀ x ∈ l, x.1 ∈ nodes) : l.length ≤ (l.countP (·.2) + 1) * nodes.length := by
  have hopen := length_le_round hacyclic h hmem
  have hround := length_round_le hacyclic h hmem
  rw [Nat.add_mul, Nat.one_mul]
  omega

end Length
end Rounds
