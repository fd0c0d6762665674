import LocalAgent.Lib.Page

/-!
# Following a log that grows

A reader of an append-only log, ordered by a key, asks again and again for what comes after the last
key it has seen, while others append. `Delivered` says that what it has got so far is an initial
part of what comes after its first cursor; a read keeps it (`Delivered.read`), and so does an append
(`Delivered.grow`). Then the reader has exactly the entries between its first cursor and its last
entry (`Delivered.exact`).
-/
namespace Feed

open Paging

variable {α κ : Type}

/-- Where a reader stands that started at a cursor and has got these entries. -/
def position (key : α → κ) (start : Option κ) (got : List α) : Option κ := (cursor key got).or start

theorem position_append {key : α → κ} {start : Option κ} {got more : List α} :
    position key start (got ++ more) = position key (position key start got) more := by
  unfold position cursor
  rw [List.getLast?_append]
  cases more.getLast? <;> simp

variable [LinearOrder κ]

/-- The entries after a cursor. -/
def after (key : α → κ) (cursor : Option κ) (log : List α) : List α :=
  log.filter fun a => cursor.all fun k => k < key a

/-- The log is ordered by its keys. -/
def Ordered (key : α → κ) (log : List α) : Prop := log.Pairwise fun a b => key a < key b

def Delivered (key : α → κ) (start : Option κ) (log got : List α) : Prop := got <+: after key start log

variable {key : α → κ} {start : Option κ} {log got : List α}

/-- What comes after the last entry is the rest of what comes after the first cursor. -/
theorem after_position {rest : List α} (hlog : Ordered key log) (h : after key start log = got ++ rest) :
    after key (position key start got) log = rest := by
  have hsorted : (got ++ rest).Pairwise fun a b => key a < key b := by
    rw [← h]
    exact hlog.sublist List.filter_sublist
  have hrest := filter_after key (· < ·) hsorted fun a b hab hba => lt_asymm hab hba
  rcases List.eq_nil_or_concat got with rfl | ⟨before, b, rfl⟩
  · simpa [position, cursor] using h
  · have hcursor : cursor key (before ++ [b]) = some (key b) := by simp [cursor]
    rw [List.concat_eq_append] at h hrest ⊢
    have hb : start.all fun k => k < key b := by
      have hmem : b ∈ after key start log := by
        rw [h]
        simp
      exact (List.mem_filter.mp hmem).2
    rw [hcursor, ← h, after, List.filter_filter] at hrest
    rw [position, hcursor, Option.some_or, after, ← hrest]
    refine List.filter_congr fun a _ => ?_
    -- an entry after `b` is after the first cursor as well
    cases start with
    | none => simp
    | some k =>
      simp only [Option.all_some, decide_eq_true_eq] at hb ⊢
      by_cases hlt : key b < key a
      · simp [hlt, hb.trans hlt]
      · simp [hlt]

theorem Delivered.nil : Delivered key start log [] := List.nil_prefix

/-- A read of some entries from the reader's position on. -/
theorem Delivered.read {items : List α} (h : Delivered key start log got) (hlog : Ordered key log)
    (hitems : items <+: after key (position key start got) log) :
    Delivered key start log (got ++ items) := by
  obtain ⟨rest, hrest⟩ := h
  rw [after_position hlog hrest.symm] at hitems
  rw [Delivered, ← hrest]
  exact (List.prefix_append_right_inj got).mpr hitems

/-- An append. -/
theorem Delivered.grow {log' : List α} (h : Delivered key start log got) (hlog : log <+: log') :
    Delivered key start log' got := by
  obtain ⟨more, rfl⟩ := hlog
  rw [Delivered, after, List.filter_append]
  exact h.trans (List.prefix_append ..)

/-- **What was delivered are exactly the entries after the first cursor up to the last one.** -/
theorem Delivered.exact (h : Delivered key start log got) (hlog : Ordered key log) :
    got = (after key start log).filter fun a => (cursor key got).any fun k => key a ≤ k := by
  obtain ⟨rest, hrest⟩ := h
  have hsorted : (got ++ rest).Pairwise fun a b => key a < key b := by
    rw [hrest]
    exact hlog.sublist List.filter_sublist
  obtain ⟨hgot, -, hacross⟩ := List.pairwise_append.mp hsorted
  rw [← hrest, List.filter_append]
  rcases List.eq_nil_or_concat got with rfl | ⟨before, b, rfl⟩
  · simp [cursor]
  · rw [List.concat_eq_append] at hgot hacross ⊢
    have hcursor : cursor key (before ++ [b]) = some (key b) := by simp [cursor]
    have hall : (before ++ [b]).filter (fun a => decide (key a ≤ key b)) = before ++ [b] := by
      refine List.filter_eq_self.mpr fun a ha => ?_
      rcases List.mem_append.mp ha with hbefore | hlast
      · simpa using ((List.pairwise_append.mp hgot).2.2 a hbefore b (by simp)).le
      · simp [List.mem_singleton.mp hlast]
    have hnone : rest.filter (fun a => decide (key a ≤ key b)) = [] := by
      refine List.filter_eq_nil_iff.mpr fun a ha => ?_
      simpa using hacross b (by simp) a ha
    simp only [hcursor, Option.any_some]
    rw [hall, hnone, List.append_nil]

end Feed
