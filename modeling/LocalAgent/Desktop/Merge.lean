import LocalAgent.Desktop.Client

/-!
# Merging a page of events (`runActivity.ts`)

`mergeEventPage` skips the events it has and takes those that come next. A page that begins at or
before the end of what is kept extends it (`mergeEventPage_extends`). A page that begins later is
refused as a whole (`mergeEventPage_gap`).
-/
namespace LocalAgent.Desktop

/-- `ActivityLabel`. -/
inductive ActivityLabel where
  | starting | searchingKnowledge | thinking | approvalRequired | waitingForDecision | resuming
  | verifying | finishing | reconnecting | stopping
deriving DecidableEq, Repr

/-- `EventMergeResult`. -/
structure EventMergeResult where
  events : List ServiceEvent
  cursor : Option Nat
  valid : Bool

/-- The loop of `mergeEventPage`; `none` is its early return. -/
def mergeLoop (runId : RunId) :
    List ServiceEvent → List Nat → Option Nat → List ServiceEvent → Option (List ServiceEvent × Option Nat)
  | merged, _, nextCursor, [] => some (merged, nextCursor)
  | merged, known, nextCursor, event :: page =>
    if event.runId ≠ runId then none
    else if known.contains event.sequence || nextCursor.any (event.sequence ≤ ·) then
      mergeLoop runId merged known nextCursor page
    else if event.sequence ≠ nextCursor.elim 0 (· + 1) then none
    else mergeLoop runId (merged ++ [event]) (known ++ [event.sequence]) (some event.sequence) page

/-- `mergeEventPage` (runActivity.ts:47). -/
def mergeEventPage (existing : List ServiceEvent) (cursor : Option Nat) (page : List ServiceEvent)
    (runId : RunId) : EventMergeResult :=
  match mergeLoop runId existing (existing.map ServiceEvent.sequence) cursor page with
  | none => ⟨existing, cursor, false⟩
  | some (merged, nextCursor) => ⟨merged, nextCursor, true⟩

/-- `includes`. -/
def includes (value search : String) : Bool := decide (search.toList <:+: value.toList)

/-- `activityFor` (runActivity.ts:73). -/
def activityFor (events : List ServiceEvent) (fallback : ActivityLabel) : ActivityLabel :=
  match events.getLast? with
  | none => fallback
  | some latest =>
    match latest.category with
    | .knowledge => .searchingKnowledge
    | .model => .thinking
    | .approval =>
      match latest.phase with
      | .suspended | .prepared => .waitingForDecision
      | .resumed | .granted => .resuming
      | _ => .approvalRequired
    | category =>
      if latest.graphNodeId.any fun id => includes id.value.toLower "verify" then .verifying
      else if category = .graph || category = .run then .finishing
      else fallback

/-! ## Numbers -/

variable {runId : RunId} {merged page : List ServiceEvent} {known : List Nat} {k n : Nat}

theorem follows_runId {expected : Nat} (h : follows runId expected page = true) :
    ∀ event ∈ page, event.runId = runId := by
  induction page generalizing expected with
  | nil => exact fun event hmem => absurd hmem List.not_mem_nil
  | cons event page ih =>
    simp only [follows, Bool.and_eq_true, decide_eq_true_eq] at h
    intro other hmem
    rcases List.mem_cons.mp hmem with rfl | hmem
    · exact h.1.1
    · exact ih h.2 other hmem

/-- A list whose numbers follow each other from `k` on, and what comes after a number. -/
theorem filter_range' {α : Type} {f : α → Nat} {log : List α} {c : Nat}
    (h : log.map f = List.range' k log.length) :
    log.filter (fun a => c < f a) = log.drop (c + 1 - k) := by
  induction log generalizing k with
  | nil => simp
  | cons a rest ih =>
    simp only [List.map_cons, List.length_cons, List.range'_succ, List.cons.injEq] at h
    obtain ⟨ha, hrest⟩ := h
    have hih := ih hrest
    by_cases hc : c < k
    · have hzero : c + 1 - k = 0 := by omega
      have hnext : c + 1 - (k + 1) = 0 := by omega
      rw [hnext, List.drop_zero] at hih
      simp [ha, hc, hzero, hih]
    · have hsucc : c + 1 - k = (c + 1 - (k + 1)) + 1 := by omega
      rw [List.filter_cons_of_neg (by simpa [ha] using hc), hih, hsucc, List.drop_succ_cons]

/-- What comes after a cursor. -/
theorem after_cursor {s : Store} (hs : s.AllNumbered) (run : RunId) (cursor : Option Nat) :
    Feed.after AgentEvent.sequence cursor (s.log run) = (s.log run).drop (count cursor) := by
  cases cursor with
  | none => simp [Feed.after]
  | some c =>
    have hnumbers := log_sequences hs run
    rw [List.range_eq_range'] at hnumbers
    simpa [Feed.after] using filter_range' hnumbers

/-! ## One page -/

/-- What is kept holds the numbers below `k`, and the page begins at `n`. -/
structure Merges (runId : RunId) (known : List Nat) (k n : Nat) (page : List ServiceEvent) : Prop where
  known : ∀ x, x ∈ known ↔ x < k
  numbers : page.map ServiceEvent.sequence = List.range' n page.length
  run : ∀ event ∈ page, event.runId = runId

theorem mergeLoop_extends (h : Merges runId known k n page) (hn : n ≤ k) :
    mergeLoop runId merged known (Store.lastOf k) page =
      some (merged ++ page.drop (k - n), Store.lastOf (max k (n + page.length))) := by
  induction page generalizing n k known merged with
  | nil => simp [mergeLoop, Nat.max_eq_left hn]
  | cons event page ih =>
    have hnumbers := h.numbers
    simp only [List.map_cons, List.length_cons, List.range'_succ, List.cons.injEq] at hnumbers
    obtain ⟨hnumber, hrest⟩ := hnumbers
    have hrun := h.run event List.mem_cons_self
    have hpage : ∀ other ∈ page, other.runId = runId :=
      fun other hmem => h.run other (List.mem_cons_of_mem event hmem)
    unfold mergeLoop
    by_cases hlt : n < k
    · have hknown : known.contains event.sequence = true := by
        simpa [hnumber] using (h.known n).mpr hlt
      have hsucc : k - n = (k - (n + 1)) + 1 := by omega
      rw [if_neg (not_not.mpr hrun), hknown, Bool.true_or, if_pos rfl, ih ⟨h.known, hrest, hpage⟩ hlt,
        hsucc, List.drop_succ_cons, List.length_cons, Nat.add_right_comm n 1, ← Nat.add_assoc]
    · obtain rfl : n = k := by omega
      have hunknown : known.contains event.sequence = false := by
        have hnot : n ∉ known := fun hmem => absurd ((h.known n).mp hmem) hlt
        simpa [hnumber] using hnot
      have hlast : (Store.lastOf n).any (event.sequence ≤ ·) = false := by
        cases n <;> simp [Store.lastOf, hnumber]
      have hnext : event.sequence = (Store.lastOf n).elim 0 (· + 1) := by
        cases n <;> simp [Store.lastOf, hnumber]
      have hgrown : ∀ x, x ∈ known ++ [event.sequence] ↔ x < n + 1 := by
        intro x
        rw [List.mem_append, List.mem_singleton, h.known, hnumber]
        omega
      have hcursor : some event.sequence = Store.lastOf (n + 1) := by rw [hnumber]; rfl
      have hmax : max (n + 1) (n + 1 + page.length) = max n (n + (page.length + 1)) := by omega
      rw [if_neg (not_not.mpr hrun), hunknown, hlast, Bool.false_or, if_neg (by decide),
        if_neg (not_not.mpr hnext), hcursor, ih ⟨hgrown, hrest, hpage⟩ le_rfl, hmax]
      simp

/-- **A page that begins where the kept events end, or before, extends them.** -/
theorem mergeEventPage_extends {existing : List ServiceEvent}
    (h : Merges runId (existing.map ServiceEvent.sequence) k n page) (hn : n ≤ k) :
    mergeEventPage existing (Store.lastOf k) page runId =
      ⟨existing ++ page.drop (k - n), Store.lastOf (max k (n + page.length)), true⟩ := by
  rw [mergeEventPage, mergeLoop_extends h hn]

/-- **A page that begins later is refused.** -/
theorem mergeEventPage_gap {existing : List ServiceEvent}
    (h : Merges runId (existing.map ServiceEvent.sequence) k n page) (hn : k < n) (hpage : page ≠ []) :
    mergeEventPage existing (Store.lastOf k) page runId = ⟨existing, Store.lastOf k, false⟩ := by
  cases page with
  | nil => exact absurd rfl hpage
  | cons event page =>
    have hnumber : event.sequence = n := by
      have hnumbers := h.numbers
      simp only [List.map_cons, List.length_cons, List.range'_succ, List.cons.injEq] at hnumbers
      exact hnumbers.1
    have hunknown : event.sequence ∉ existing.map ServiceEvent.sequence := by
      rw [h.known, hnumber]
      omega
    have hlast : (Store.lastOf k).any (event.sequence ≤ ·) = false := by
      cases k <;> simp [Store.lastOf, hnumber]
      omega
    have hnext : event.sequence ≠ (Store.lastOf k).elim 0 (· + 1) := by
      rw [hnumber]
      cases k <;> simp [Store.lastOf] <;> omega
    have hcontains : (existing.map ServiceEvent.sequence).contains event.sequence = false := by
      simpa using hunknown
    rw [mergeEventPage, mergeLoop, if_neg (not_not.mpr (h.run event List.mem_cons_self)), hcontains,
      hlast, Bool.false_or, if_neg (by decide), if_pos hnext]

end LocalAgent.Desktop
