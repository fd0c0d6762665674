import LocalAgent.Lib.Fold
import Mathlib.Data.List.Perm.Subperm

/-!
# Depth-first search with cycle detection

A walk visits a node, then everything the node leads to, and keeps two sets: the nodes it is in the
middle of, and the nodes it is done with. Coming back to a node of the first set is a cycle.

The nodes that are done with are listed in the order in which they were finished, newest first. This
list is kept in post-order (`PostOrder`): a node leads only to nodes that were finished before it. So
what has been visited is closed and has no cycle. `search_ok` and `search_cycle` say what a walk from
one node has found, and `search_terminates` how much fuel is enough.
-/
namespace Search

open FailingFold Relation

variable {α : Type}

structure Walk (α : Type) where
  visiting : List α
  visited : List α

inductive Stop where
  | cycle | outOfFuel
deriving DecidableEq, Repr

/-- Visit a node and all it leads to. -/
def visit [DecidableEq α] (next : α → List α) : Nat → Walk α → α → Except Stop (Walk α)
  | 0, _, _ => .error .outOfFuel
  | n + 1, w, node =>
    if node ∈ w.visiting then .error .cycle
    else if node ∈ w.visited then .ok w
    else do
      let w' ← (next node).foldlM (visit next n) ⟨node :: w.visiting, w.visited⟩
      .ok ⟨w'.visiting.erase node, node :: w'.visited⟩

variable {next : α → List α} {n : Nat} {w w' : Walk α} {node : α} {x y : α}

/-- One step along the graph. -/
def Leads (next : α → List α) (x y : α) : Prop := y ∈ next x

/-- Every node of the list leads to later ones only. -/
def PostOrder (next : α → List α) : List α → Prop
  | [] => True
  | x :: l => x ∉ l ∧ (∀ y ∈ next x, y ∈ l) ∧ PostOrder next l

theorem PostOrder.nodup {l : List α} (h : PostOrder next l) : l.Nodup := by
  induction l with
  | nil => exact List.nodup_nil
  | cons x l ih => exact List.nodup_cons.mpr ⟨h.1, ih h.2.2⟩

theorem PostOrder.closed {l : List α} (h : PostOrder next l) (hx : x ∈ l) (hxy : Leads next x y) :
    y ∈ l := by
  induction l with
  | nil => cases hx
  | cons z l ih =>
    rcases List.mem_cons.mp hx with rfl | hx
    · exact List.mem_cons_of_mem _ (h.2.1 y hxy)
    · exact List.mem_cons_of_mem _ (ih h.2.2 hx)

theorem PostOrder.reachable {l : List α} (h : PostOrder next l) (hx : x ∈ l)
    (hxy : ReflTransGen (Leads next) x y) : y ∈ l := by
  induction hxy with
  | refl => exact hx
  | tail _ hstep ih => exact h.closed ih hstep

/-- There is no cycle in a post-order. -/
theorem PostOrder.acyclic {l : List α} (h : PostOrder next l) (hx : x ∈ l) :
    ¬ TransGen (Leads next) x x := by
  induction l with
  | nil => cases hx
  | cons z l ih =>
    rcases List.mem_cons.mp hx with rfl | hx
    · intro hcycle
      obtain ⟨y, hy, hback⟩ := TransGen.head'_iff.mp hcycle
      exact h.1 (h.2.2.reachable (h.2.1 y hy) hback)
    · exact ih h.2.2 hx

/-! ## A walk that comes back -/

/-- What a visit has done. -/
structure Visited (next : α → List α) (w : Walk α) (nodes : List α) (w' : Walk α) : Prop where
  visiting : w'.visiting = w.visiting
  order : PostOrder next w'.visited
  grows : ∀ x ∈ w.visited, x ∈ w'.visited
  done : ∀ x ∈ nodes, x ∈ w'.visited
  reached : ∀ x ∈ w'.visited, x ∈ w.visited ∨ ∃ node ∈ nodes, ReflTransGen (Leads next) node x
  /-- A node it is in the middle of is not done. -/
  apart : ∀ x ∈ w.visiting, x ∈ w'.visited → x ∈ w.visited

theorem foldlM_visited {f : Walk α → α → Except Stop (Walk α)} {l : List α}
    (hf : ∀ {w node w'}, PostOrder next w.visited → f w node = .ok w' → Visited next w [node] w')
    (hw : PostOrder next w.visited) (h : l.foldlM f w = .ok w') : Visited next w l w' := by
  induction l generalizing w with
  | nil =>
    rw [foldlM_nil_ok] at h
    subst h
    exact ⟨rfl, hw, fun _ => id, nofun, fun x hx => .inl hx, fun x _ hx => hx⟩
  | cons a l ih =>
    obtain ⟨m, hm, hl⟩ := foldlM_cons_ok.mp h
    have hfirst := hf hw hm
    have hrest := ih hfirst.order hl
    refine ⟨hrest.visiting.trans hfirst.visiting, hrest.order, fun x hx => hrest.grows x (hfirst.grows x hx),
      fun x hx => ?_, fun x hx => ?_, fun x hx hx' => ?_⟩
    · rcases List.mem_cons.mp hx with rfl | hx
      · exact hrest.grows x (hfirst.done x List.mem_cons_self)
      · exact hrest.done x hx
    · rcases hrest.reached x hx with hx | ⟨node, hnode, hreach⟩
      · rcases hfirst.reached x hx with hx | ⟨node, hnode, hreach⟩
        · exact .inl hx
        · exact .inr ⟨node, List.mem_cons.mpr (.inl (List.mem_singleton.mp hnode)), hreach⟩
      · exact .inr ⟨node, List.mem_cons_of_mem _ hnode, hreach⟩
    · exact hfirst.apart x hx (hrest.apart x (hfirst.visiting ▸ hx) hx')

variable [DecidableEq α]

/-- **A visit that succeeds** has finished what the node leads to, and nothing else. -/
theorem visit_ok (hw : PostOrder next w.visited) (h : visit next n w node = .ok w') :
    Visited next w [node] w' := by
  induction n generalizing w node w' with
  | zero => cases h
  | succ n ih =>
    rw [visit] at h
    split at h
    · cases h
    · next hvisiting =>
      split at h
      · next hvisited =>
        cases h
        exact ⟨rfl, hw, fun _ => id, by simpa using hvisited, fun x hx => .inl hx, fun x _ hx => hx⟩
      · next hfresh =>
        obtain ⟨m, hm, hdone⟩ := bind_eq_ok.mp h
        obtain rfl := Except.ok.inj hdone
        have hinner := foldlM_visited (f := visit next n) (w := ⟨node :: w.visiting, w.visited⟩)
          (fun hw h => ih hw h) hw hm
        have hnode : node ∉ m.visited := fun hmem => hfresh (hinner.apart node List.mem_cons_self hmem)
        refine ⟨?_, ⟨hnode, hinner.done, hinner.order⟩, fun x hx => List.mem_cons_of_mem _ (hinner.grows x hx),
          by simp, fun x hx => ?_, fun x hx hx' => ?_⟩
        · change m.visiting.erase node = w.visiting
          rw [hinner.visiting, List.erase_cons_head]
        · rcases List.mem_cons.mp hx with rfl | hx
          · exact .inr ⟨x, List.mem_cons_self, .refl⟩
          · refine (hinner.reached x hx).imp id ?_
            rintro ⟨target, htarget, hreach⟩
            exact ⟨node, List.mem_cons_self, .head htarget hreach⟩
        · rcases List.mem_cons.mp hx' with rfl | hx'
          · exact absurd hx hvisiting
          · exact hinner.apart x (List.mem_cons_of_mem _ hx) hx'

/-! ## A walk that stops -/

/-- The first element at which a fold stops. -/
theorem foldlM_error {σ ε β : Type} {f : σ → β → Except ε σ} {l : List β} {s : σ} {e : ε}
    (h : l.foldlM f s = .error e) :
    ∃ l₁ b l₂ m, l = l₁ ++ b :: l₂ ∧ l₁.foldlM f s = .ok m ∧ f m b = .error e := by
  induction l generalizing s with
  | nil => cases h
  | cons a l ih =>
    rw [List.foldlM_cons] at h
    cases ha : f s a with
    | error e' =>
      rw [ha] at h
      cases h
      exact ⟨[], a, l, s, rfl, foldlM_nil_ok.mpr rfl, ha⟩
    | ok m =>
      rw [ha] at h
      obtain ⟨l₁, b, l₂, m', rfl, hl₁, hb⟩ := ih h
      exact ⟨a :: l₁, b, l₂, m', rfl, foldlM_cons_ok.mpr ⟨m, ha, hl₁⟩, hb⟩

/-- Where a visit stops: at a node it is in the middle of, without fuel, or inside. -/
theorem visit_error {e : Stop} (h : visit next (n + 1) w node = .error e) :
    (node ∈ w.visiting ∧ e = .cycle) ∨ node ∉ w.visiting ∧ ∃ l₁ target l₂ m,
      next node = l₁ ++ target :: l₂ ∧ l₁.foldlM (visit next n) ⟨node :: w.visiting, w.visited⟩ = .ok m ∧
        visit next n m target = .error e := by
  rw [visit] at h
  split at h
  · next hvisiting =>
    cases h
    exact .inl ⟨hvisiting, rfl⟩
  · next hvisiting =>
    split at h
    · cases h
    · refine .inr ⟨hvisiting, foldlM_error ?_⟩
      cases hm : (next node).foldlM (visit next n) ⟨node :: w.visiting, w.visited⟩ with
      | error e' =>
        rw [hm] at h
        cases h
        rfl
      | ok m =>
        rw [hm] at h
        cases h

/-- **A visit that finds a cycle** is right, if it is on a path of the nodes it is in the middle of. -/
theorem visit_cycle (hw : PostOrder next w.visited) (hpath : ∀ x ∈ w.visiting, TransGen (Leads next) x node)
    (h : visit next n w node = .error .cycle) :
    ∃ x, ReflTransGen (Leads next) node x ∧ TransGen (Leads next) x x := by
  induction n generalizing w node with
  | zero => cases h
  | succ n ih =>
    rcases visit_error h with ⟨hvisiting, -⟩ | ⟨-, l₁, target, l₂, m, hnext, hm, htarget⟩
    · exact ⟨node, .refl, hpath node hvisiting⟩
    · have hstep : Leads next node target := by simp [Leads, hnext]
      have hinner := foldlM_visited (f := visit next n) (w := ⟨node :: w.visiting, w.visited⟩)
        (fun hw h => visit_ok hw h) hw hm
      have hlonger : ∀ x ∈ m.visiting, TransGen (Leads next) x target := by
        intro x hx
        rw [hinner.visiting] at hx
        rcases List.mem_cons.mp hx with rfl | hx
        · exact .single hstep
        · exact .tail (hpath x hx) hstep
      obtain ⟨x, hreach, hcycle⟩ := ih hinner.order hlonger htarget
      exact ⟨x, .head hstep hreach, hcycle⟩

/-- **Fuel for all nodes is enough**: a path has no node twice. -/
theorem visit_terminates {nodes : List α} (hclosed : ∀ x ∈ nodes, ∀ y ∈ next x, y ∈ nodes)
    (hw : PostOrder next w.visited) (hnode : node ∈ nodes) (hpath : w.visiting.Nodup)
    (hvisiting : ∀ x ∈ w.visiting, x ∈ nodes) (hfuel : nodes.length < n + w.visiting.length) :
    visit next n w node ≠ .error .outOfFuel := by
  induction n generalizing w node with
  | zero =>
    have hle : w.visiting.length ≤ nodes.length := (hpath.subperm hvisiting).length_le
    omega
  | succ n ih =>
    intro h
    rcases visit_error h with ⟨-, hstop⟩ | ⟨hfresh, l₁, target, l₂, m, hnext, hm, htarget⟩
    · cases hstop
    · have hinner := foldlM_visited (f := visit next n) (w := ⟨node :: w.visiting, w.visited⟩)
        (fun hw h => visit_ok hw h) hw hm
      refine ih hinner.order (hclosed node hnode target ?_) ?_ ?_ ?_ htarget
      · simp [hnext]
      · rw [hinner.visiting]
        exact List.nodup_cons.mpr ⟨hfresh, hpath⟩
      · rw [hinner.visiting]
        intro x hx
        rcases List.mem_cons.mp hx with rfl | hx
        · exact hnode
        · exact hvisiting x hx
      · rw [hinner.visiting, List.length_cons]
        omega

/-! ## A walk from one node -/

/-- Nothing has been visited yet. -/
def Walk.empty : Walk α := ⟨[], []⟩

theorem search_terminates {nodes : List α} (hclosed : ∀ x ∈ nodes, ∀ y ∈ next x, y ∈ nodes)
    (hnode : node ∈ nodes) : visit next (nodes.length + 1) .empty node ≠ .error .outOfFuel :=
  visit_terminates (w := .empty) hclosed trivial hnode List.nodup_nil (fun x hx => by cases hx)
    (Nat.lt_succ_self _)

/-- **A search that succeeds** has visited what the node leads to, each node once, and there is no cycle
in it. -/
theorem search_ok (h : visit next n .empty node = .ok w') :
    w'.visited.Nodup ∧ (∀ x, x ∈ w'.visited ↔ ReflTransGen (Leads next) node x) ∧
      ∀ x, ReflTransGen (Leads next) node x → ¬ TransGen (Leads next) x x := by
  have hvisited := visit_ok (w := .empty) trivial h
  have hmem : ∀ x, x ∈ w'.visited ↔ ReflTransGen (Leads next) node x := by
    intro x
    constructor
    · intro hx
      rcases hvisited.reached x hx with hx | ⟨node', hnode', hreach⟩
      · cases hx
      · rwa [List.mem_singleton.mp hnode'] at hreach
    · exact hvisited.order.reachable (hvisited.done node List.mem_cons_self)
  exact ⟨hvisited.order.nodup, hmem, fun x hx => hvisited.order.acyclic ((hmem x).mpr hx)⟩

/-- **A search that finds a cycle** is right. -/
theorem search_cycle (h : visit next n .empty node = .error .cycle) :
    ∃ x, ReflTransGen (Leads next) node x ∧ TransGen (Leads next) x x :=
  visit_cycle (w := .empty) trivial (fun x hx => by cases hx) h

end Search
