import Mathlib.Algebra.Group.Nat.Defs
import Mathlib.Data.List.Sort
import Mathlib.Data.List.Perm.Basic

/-!
# Lists sorted by a key

A map that is kept in the order of its keys is determined by its entries (`eq_of_mem_iff`), and
sorting by keys that all differ forgets the order it began with (`insertionSort_of_perm`). A stable sort
sees the entries with each key only (`insertionSort_of_filter`).
-/
namespace Sorted

variable {α κ : Type} [LinearOrder κ] {key : α → κ} {l l' : List α}

/-- The order of the keys, between the entries. -/
def Before (key : α → κ) (a b : α) : Prop := key a ≤ key b

instance : Std.Total (Before key) := ⟨fun a b => le_total (key a) (key b)⟩

instance : IsTrans α (Before key) := ⟨fun _ _ _ => le_trans⟩

instance : DecidableRel (Before key) := fun a b => inferInstanceAs (Decidable (key a ≤ key b))

/-- **A sorted map is determined by its entries.** -/
theorem eq_of_mem_iff (h : l.Pairwise (Before key)) (h' : l'.Pairwise (Before key))
    (hkeys : (l.map key).Nodup) (hkeys' : (l'.map key).Nodup) (hmem : ∀ a, a ∈ l ↔ a ∈ l') :
    l = l' := by
  have hperm : l.Perm l' :=
    (List.perm_ext_iff_of_nodup (List.Nodup.of_map key hkeys) (List.Nodup.of_map key hkeys')).mpr hmem
  refine hperm.eq_of_pairwise (fun a b ha hb hab hba => ?_) h h'
  exact List.inj_on_of_nodup_map hkeys ha (hperm.mem_iff.mpr hb) (le_antisymm hab hba)

/-- Lists with equal images correspond to each other. -/
theorem forall₂_of_map_eq {β : Type} {f : α → β} {r : α → α → Prop}
    (h : ∀ a ∈ l, ∀ b ∈ l', f a = f b → r a b) (heq : l.map f = l'.map f) : List.Forall₂ r l l' := by
  induction l generalizing l' with
  | nil =>
    obtain rfl : l' = [] := List.map_eq_nil_iff.mp heq.symm
    exact .nil
  | cons a l ih =>
    cases l' with
    | nil => cases heq
    | cons b l' =>
      obtain ⟨hhead, htail⟩ := List.cons.inj heq
      exact .cons (h a List.mem_cons_self b List.mem_cons_self hhead)
        (ih (fun c hc d hd => h c (List.mem_cons_of_mem a hc) d (List.mem_cons_of_mem b hd)) htail)

/-- Equal images under one function, where another function sees no more. -/
theorem map_eq_of_map_eq {β γ : Type} {f : α → β} {g : α → γ}
    (h : ∀ a ∈ l, ∀ b ∈ l', f a = f b → g a = g b) (heq : l.map f = l'.map f) :
    l.map g = l'.map g := by
  rw [← List.forall₂_eq_eq_eq, List.forall₂_map_left_iff, List.forall₂_map_right_iff]
  exact forall₂_of_map_eq h heq

theorem map_eq_of_forall₂ {β : Type} {f : α → β} {r : α → α → Prop} (h : List.Forall₂ r l l')
    (hf : ∀ a ∈ l, ∀ b ∈ l', r a b → f a = f b) : l.map f = l'.map f := by
  induction h with
  | nil => rfl
  | @cons a b l l' hab _ ih =>
    rw [List.map_cons, List.map_cons, hf a List.mem_cons_self b List.mem_cons_self hab,
      ih fun c hc d hd => hf c (List.mem_cons_of_mem a hc) d (List.mem_cons_of_mem b hd)]

/-- A list whose image is another's in another order is that image, its elements in another order. -/
theorem exists_perm_of_map_perm {β : Type} {f : α → β} {m : List β} (h : m.Perm (l.map f)) :
    ∃ l', l.Perm l' ∧ m = l'.map f := by
  have himage : List.Forall₂ (fun b a => b = f a) (l.map f) l := by
    rw [List.forall₂_map_left_iff]
    exact List.forall₂_same.mpr fun _ _ => rfl
  obtain ⟨l', hl', hperm⟩ := List.perm_comp_forall₂ h himage
  refine ⟨l', hperm.symm, ?_⟩
  rw [← List.forall₂_eq_eq_eq, List.forall₂_map_right_iff]
  exact hl'

/-- Sorting by different keys forgets the order. -/
theorem insertionSort_of_perm (h : l.Perm l')
    (hkeys : (l.map key).Nodup) :
    l.insertionSort (Before key) = l'.insertionSort (Before key) := by
  have hsort := List.perm_insertionSort (Before key) l
  have hsort' := List.perm_insertionSort (Before key) l'
  exact eq_of_mem_iff (List.pairwise_insertionSort _ l) (List.pairwise_insertionSort _ l')
    ((hsort.map key).nodup_iff.mpr hkeys) (((hsort'.trans h.symm).map key).nodup_iff.mpr hkeys)
    fun a => (hsort.trans (h.trans hsort'.symm)).mem_iff

/-- Inserting the elements of a list one after the other. -/
theorem foldl_orderedInsert (hkeys : (l.map key).Nodup) :
    l.foldl (fun sorted a => sorted.orderedInsert (Before key) a) [] = l.insertionSort (Before key) := by
  rw [← insertionSort_of_perm (List.reverse_perm l) (by rwa [List.map_reverse, List.nodup_reverse]),
    List.insertionSort, List.foldr_reverse]

/-! ## Stability -/

/-- Inserting keeps the order of entries with one key. -/
theorem filter_orderedInsert (a : α) (l : List α) (k : κ) :
    (l.orderedInsert (Before key) a).filter (key · = k) = (a :: l).filter (key · = k) := by
  induction l with
  | nil => rfl
  | cons b l ih =>
    by_cases hle : Before key a b
    · rw [List.orderedInsert_cons_of_le _ _ hle]
    · -- `b` stays in front, and has another key than `a`
      have hne : key b ≠ key a := fun heq => hle heq.symm.le
      rw [List.orderedInsert_of_not_le _ _ hle, List.filter_cons, ih]
      by_cases hb : key b = k
      · have ha : ¬ key a = k := fun ha => hne (hb.trans ha.symm)
        simp [hb, ha]
      · simp [List.filter_cons, hb]

theorem filter_insertionSort (l : List α) (k : κ) :
    (l.insertionSort (Before key)).filter (key · = k) = l.filter (key · = k) := by
  induction l with
  | nil => rfl
  | cons a l ih =>
    rw [List.insertionSort_cons, filter_orderedInsert, List.filter_cons, List.filter_cons, ih]

/-- A sorted list is determined by its entries with each key. -/
theorem eq_of_filter (h : l.Pairwise (Before key)) (h' : l'.Pairwise (Before key))
    (hfilter : ∀ k, l.filter (key · = k) = l'.filter (key · = k)) : l = l' := by
  have hmem : ∀ {a : α}, a ∈ l ↔ a ∈ l' := by
    intro a
    have hkey := congrArg (a ∈ ·) (hfilter (key a))
    simpa using hkey
  induction l generalizing l' with
  | nil =>
    cases l' with
    | nil => rfl
    | cons b l' => exact absurd (hmem.mpr List.mem_cons_self) List.not_mem_nil
  | cons a l ih =>
    cases l' with
    | nil => exact absurd (hmem.mp List.mem_cons_self) List.not_mem_nil
    | cons b l' =>
      have hle : ∀ {c : α} {cs : List α} {d : α}, (c :: cs).Pairwise (Before key) → d ∈ c :: cs →
          key c ≤ key d := by
        intro c cs d hpair hd
        rcases List.mem_cons.mp hd with rfl | hd
        · exact le_refl _
        · exact List.rel_of_pairwise_cons hpair hd
      have hkeys : key a = key b :=
        le_antisymm (hle h (hmem.mpr List.mem_cons_self)) (hle h' (hmem.mp List.mem_cons_self))
      have hheads := hfilter (key a)
      simp only [List.filter_cons, hkeys, decide_true, if_true, List.cons.injEq] at hheads
      obtain ⟨rfl, hrest⟩ := hheads
      congr 1
      have htail : ∀ k, l.filter (key · = k) = l'.filter (key · = k) := by
        intro k
        by_cases hk : key a = k
        · rw [← hk]
          exact hrest
        · have hother := hfilter k
          simpa [List.filter_cons, hk] using hother
      refine ih h.of_cons h'.of_cons htail fun {c} => ?_
      have hkey := congrArg (c ∈ ·) (htail (key c))
      simpa using hkey

/-- **A stable sort** sees of a list its entries with each key only. -/
theorem insertionSort_of_filter (h : ∀ k, l.filter (key · = k) = l'.filter (key · = k)) :
    l.insertionSort (Before key) = l'.insertionSort (Before key) := by
  refine eq_of_filter (List.pairwise_insertionSort _ l) (List.pairwise_insertionSort _ l') fun k => ?_
  rw [filter_insertionSort, filter_insertionSort, h]

/-- Parts of which one at most is not empty are joined in any order. -/
theorem flatMap_of_perm {β γ : Type} {f : β → List γ} {m m' : List β} (h : m.Perm m')
    (hone : m.Pairwise fun a b => f a = [] ∨ f b = []) : m.flatMap f = m'.flatMap f := by
  induction h with
  | nil => rfl
  | cons a _ ih => rw [List.flatMap_cons, List.flatMap_cons, ih hone.of_cons]
  | swap a b m =>
    have hab := List.rel_of_pairwise_cons hone List.mem_cons_self
    simp only [List.flatMap_cons]
    rcases hab with hb | ha
    · simp [hb]
    · simp [ha]
  | trans hperm _ ih ih' =>
    have hsymm : ∀ {a b : β}, (f a = [] ∨ f b = []) → (f b = [] ∨ f a = []) := fun h => h.symm
    exact (ih hone).trans (ih' (hperm.pairwise hone hsymm))

end Sorted
