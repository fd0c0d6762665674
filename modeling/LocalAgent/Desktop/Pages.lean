import LocalAgent.Desktop.Merge

/-!
# Merging any pages (`runActivity.ts:45-68`)

A page may hold the events of another run, skip a number, or repeat what is kept, in any order. Whether it
is good is found out while it is merged, and a bad event after good ones takes the good ones back. So what
is kept is always a beginning of the run (`pages_merged`).
-/
namespace LocalAgent.Desktop

/-- What the desktop keeps of a run. -/
structure Kept where
  events : List ServiceEvent
  cursor : Option Nat

/-- The pages of a run, merged one after the other from nothing. -/
def mergeEventPages (runId : RunId) (pages : List (List ServiceEvent)) : Kept :=
  pages.foldl (fun kept page =>
    let result := mergeEventPage kept.events kept.cursor page runId
    ⟨result.events, result.cursor⟩) ⟨[], none⟩

/-- Each number of the page is one below `k`, or at most one more than a number before it. -/
def Unbroken (k : Nat) (page : List ServiceEvent) : Prop :=
  ∀ before event after, page = before ++ event :: after →
    event.sequence ≤ k ∨ ∃ earlier ∈ before, event.sequence ≤ earlier.sequence + 1

/-- The numbers of the run from zero to the cursor, each with its event. -/
structure Beginning (runId : RunId) (events : List ServiceEvent) (cursor : Option Nat) : Prop where
  numbers : events.map ServiceEvent.sequence = List.range (count cursor)
  run : ∀ event ∈ events, event.runId = runId

variable {runId : RunId} {existing merged page : List ServiceEvent} {known : List Nat} {k : Nat}
  {cursor : Option Nat} {event : ServiceEvent}

/-! ## Gaps -/

theorem unbroken_nil : Unbroken k [] := by
  intro before event after h
  simp at h

theorem unbroken_cons :
    Unbroken k (event :: page) ↔ event.sequence ≤ k ∧ Unbroken (max k (event.sequence + 1)) page := by
  constructor
  · intro h
    refine ⟨?_, ?_⟩
    · rcases h [] event page rfl with hle | ⟨earlier, hmem, -⟩
      · exact hle
      · exact absurd hmem List.not_mem_nil
    · intro before other after hpage
      rcases h (event :: before) other after (by rw [hpage]; rfl) with hle | ⟨earlier, hmem, hle⟩
      · exact .inl (by omega)
      · rcases List.mem_cons.mp hmem with rfl | hmem
        · exact .inl (by omega)
        · exact .inr ⟨earlier, hmem, hle⟩
  · rintro ⟨hfirst, hrest⟩ before other after hpage
    cases before with
    | nil =>
      obtain ⟨rfl, -⟩ := List.cons.inj hpage
      exact .inl hfirst
    | cons first before =>
      obtain ⟨rfl, htail⟩ := List.cons.inj hpage
      rcases hrest before other after htail with hle | ⟨earlier, hmem, hle⟩
      · by_cases hk : other.sequence ≤ k
        · exact .inl hk
        · exact .inr ⟨event, List.mem_cons_self, by omega⟩
      · exact .inr ⟨earlier, List.mem_cons_of_mem event hmem, hle⟩

/-! ## One page -/

/-- What `mergeLoop` makes of a page, when what is kept holds the numbers below `k`. -/
theorem mergeLoop_spec (hknown : ∀ x, x ∈ known ↔ x < k)
    (hmerged : merged.map ServiceEvent.sequence = List.range k)
    (hrun : ∀ event ∈ merged, event.runId = runId) :
    match mergeLoop runId merged known (Store.lastOf k) page with
    | none => ¬ ((∀ event ∈ page, event.runId = runId) ∧ Unbroken k page)
    | some (merged', cursor') =>
      ((∀ event ∈ page, event.runId = runId) ∧ Unbroken k page) ∧ Beginning runId merged' cursor' ∧
        ∀ event ∈ merged', event ∈ merged ∨ event ∈ page := by
  induction page generalizing merged known k with
  | nil =>
    refine ⟨⟨fun event h => absurd h List.not_mem_nil, unbroken_nil⟩, ⟨?_, hrun⟩, fun event h => .inl h⟩
    rw [count_lastOf, hmerged]
  | cons event page ih =>
    rw [mergeLoop, List.forall_mem_cons, unbroken_cons]
    by_cases hforeign : event.runId ≠ runId
    · rw [if_pos hforeign]
      exact fun h => hforeign h.1.1
    · rw [if_neg hforeign]
      have hrunId := not_not.mp hforeign
      have hskip : (known.contains event.sequence || (Store.lastOf k).any (event.sequence ≤ ·)) = true ↔
          event.sequence < k := by
        rw [Bool.or_eq_true, List.contains_iff_mem, hknown]
        cases k with
        | zero => simp [Store.lastOf]
        | succ k =>
          have hany : (Store.lastOf (k + 1)).any (event.sequence ≤ ·) = decide (event.sequence ≤ k) := rfl
          rw [hany, decide_eq_true_eq]
          omega
      have hnext : event.sequence ≠ (Store.lastOf k).elim 0 (· + 1) ↔ event.sequence ≠ k := by
        cases k <;> simp [Store.lastOf]
      by_cases hlt : event.sequence < k
      · -- an event that is kept already
        rw [if_pos (hskip.mpr hlt), Nat.max_eq_left hlt]
        have hrec := ih hknown hmerged hrun
        split at hrec
        · exact fun h => hrec ⟨h.1.2, h.2.2⟩
        · exact ⟨⟨⟨hrunId, hrec.1.1⟩, Nat.le_of_lt hlt, hrec.1.2⟩, hrec.2.1,
            fun e he => (hrec.2.2 e he).imp_right (List.mem_cons_of_mem event)⟩
      · rw [if_neg (fun h => hlt (hskip.mp h))]
        by_cases hgap : event.sequence ≠ k
        · rw [if_pos (hnext.mpr hgap)]
          exact fun h => absurd h.2.1 (by omega)
        · -- the next event
          rw [if_neg (fun h => hgap (hnext.mp h))]
          have hnumber : event.sequence = k := not_not.mp hgap
          have hmax : max k (event.sequence + 1) = k + 1 := by omega
          have hcursor : some event.sequence = Store.lastOf (k + 1) := by rw [hnumber]; rfl
          have hknown' : ∀ x, x ∈ known ++ [event.sequence] ↔ x < k + 1 := by
            intro x
            rw [List.mem_append, List.mem_singleton, hknown]
            omega
          have hmerged' : (merged ++ [event]).map ServiceEvent.sequence = List.range (k + 1) := by
            rw [List.map_append, hmerged, List.range_succ, ← hnumber]
            rfl
          have hrun' : ∀ e ∈ merged ++ [event], e.runId = runId := by
            intro e he
            rcases List.mem_append.mp he with he | he
            · exact hrun e he
            · rw [List.mem_singleton.mp he, hrunId]
          rw [hmax, hcursor]
          have hrec := ih hknown' hmerged' hrun'
          split at hrec
          · exact fun h => hrec ⟨h.1.2, h.2.2⟩
          · refine ⟨⟨⟨hrunId, hrec.1.1⟩, Nat.le_of_eq hnumber, hrec.1.2⟩, hrec.2.1, fun e he => ?_⟩
            rcases hrec.2.2 e he with he | he
            · rcases List.mem_append.mp he with he | he
              · exact .inl he
              · exact .inr (List.mem_singleton.mp he ▸ List.mem_cons_self)
            · exact .inr (List.mem_cons_of_mem event he)

theorem lastOf_count : Store.lastOf (count cursor) = cursor := by
  cases cursor <;> rfl

theorem Beginning.mem_known (h : Beginning runId existing cursor) (x : Nat) :
    x ∈ existing.map ServiceEvent.sequence ↔ x < count cursor := by
  rw [h.numbers, List.mem_range]

theorem mergeEventPage_spec (page : List ServiceEvent) (h : Beginning runId existing cursor) :
    let result := mergeEventPage existing cursor page runId
    (result.valid = true ↔ (∀ event ∈ page, event.runId = runId) ∧ Unbroken (count cursor) page) ∧
      (result.valid = false → result.events = existing ∧ result.cursor = cursor) ∧
      Beginning runId result.events result.cursor ∧
      ∀ event ∈ result.events, event ∈ existing ∨ event ∈ page := by
  have hloop := @mergeLoop_spec runId existing page _ _ h.mem_known h.numbers h.run
  rw [lastOf_count] at hloop
  unfold mergeEventPage
  cases hmerge : mergeLoop runId existing (existing.map ServiceEvent.sequence) cursor page with
  | none =>
    rw [hmerge] at hloop
    exact ⟨⟨fun hv => absurd hv Bool.false_ne_true, fun hv => absurd hv hloop⟩, fun _ => ⟨rfl, rfl⟩, h,
      fun event he => .inl he⟩
  | some result =>
    rw [hmerge] at hloop
    exact ⟨⟨fun _ => hloop.1, fun _ => rfl⟩, fun hv => absurd hv.symm Bool.false_ne_true, hloop.2.1,
      hloop.2.2⟩

/-- A page of events that are kept. -/
theorem mergeLoop_of_kept (hrun : ∀ event ∈ page, event.runId = runId)
    (hknown : ∀ event ∈ page, event.sequence ∈ known) :
    mergeLoop runId merged known cursor page = some (merged, cursor) := by
  induction page with
  | nil => rfl
  | cons event page ih =>
    rw [List.forall_mem_cons] at hrun hknown
    have hcontains : known.contains event.sequence = true := List.contains_iff_mem.mpr hknown.1
    rw [mergeLoop, if_neg (not_not.mpr hrun.1), hcontains, Bool.true_or, if_pos rfl, ih hrun.2 hknown.2]

/-! ## All pages -/

theorem beginning_of_pages (runId : RunId) (pages : List (List ServiceEvent)) :
    Beginning runId (mergeEventPages runId pages).events (mergeEventPages runId pages).cursor ∧
      ∀ event ∈ (mergeEventPages runId pages).events, ∃ page ∈ pages, event ∈ page := by
  induction pages using List.reverseRec with
  | nil => exact ⟨⟨rfl, fun _ h => absurd h List.not_mem_nil⟩, fun _ h => absurd h List.not_mem_nil⟩
  | append_singleton pages page ih =>
    obtain ⟨hbegin, hfrom⟩ := ih
    obtain ⟨-, -, hnext, hevents⟩ := mergeEventPage_spec page hbegin
    rw [mergeEventPages, List.foldl_append]
    refine ⟨hnext, fun event he => ?_⟩
    rcases hevents event he with he | he
    · obtain ⟨other, hother, hmem⟩ := hfrom event he
      exact ⟨other, List.mem_append_left _ hother, hmem⟩
    · exact ⟨page, List.mem_append_right _ (List.mem_singleton_self page), he⟩

/-- **What is kept is a beginning of the run**, whatever pages come: the events with the numbers from zero
to the cursor, each from one of the pages. A page that holds an event of another run or leaves a number out
changes nothing, and neither does a page of events that are kept. A page of the run whose numbers follow each
other is appended, if it begins where the kept events end or before. -/
theorem pages_merged (runId : RunId) (pages : List (List ServiceEvent)) :
    let kept := mergeEventPages runId pages
    kept.events.map ServiceEvent.sequence = List.range (count kept.cursor) ∧
      (∀ event ∈ kept.events, event.runId = runId ∧ ∃ page ∈ pages, event ∈ page) ∧
      ∀ page,
        let result := mergeEventPage kept.events kept.cursor page runId
        (result.valid = true ↔
          (∀ event ∈ page, event.runId = runId) ∧ Unbroken (count kept.cursor) page) ∧
        (result.valid = false → result.events = kept.events ∧ result.cursor = kept.cursor) ∧
        ((∀ event ∈ page, event ∈ kept.events) → result = ⟨kept.events, kept.cursor, true⟩) ∧
        ∀ n ≤ count kept.cursor, page.map ServiceEvent.sequence = List.range' n page.length →
          (∀ event ∈ page, event.runId = runId) →
            result = ⟨kept.events ++ page.drop (count kept.cursor - n),
              Store.lastOf (max (count kept.cursor) (n + page.length)), true⟩ := by
  obtain ⟨hbegin, hfrom⟩ := beginning_of_pages runId pages
  refine ⟨hbegin.numbers, fun event he => ⟨hbegin.run event he, hfrom event he⟩, fun page => ?_⟩
  obtain ⟨hvalid, hinvalid, -, -⟩ := mergeEventPage_spec page hbegin
  refine ⟨hvalid, hinvalid, fun hkept => ?_, fun n hn hnumbers hrun => ?_⟩
  · simp only [mergeEventPage]
    rw [mergeLoop_of_kept (fun event he => hbegin.run event (hkept event he))
      fun event he => List.mem_map_of_mem (hkept event he)]
  · have hextends := mergeEventPage_extends ⟨hbegin.mem_known, hnumbers, hrun⟩ hn
    rwa [lastOf_count] at hextends

end LocalAgent.Desktop
