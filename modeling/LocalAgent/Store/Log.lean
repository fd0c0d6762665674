import LocalAgent.Store.Sqlite
import LocalAgent.Lib.Position

/-!
# The event log as writers see it

Any number of writers call the store. Immediate transactions are serializable, so what they do to
it is a list of calls in some order (`Store.serve`); a call whose transaction never got to run is not
in the list. A combined call reads before its transaction begins, in a store that any other calls
may have changed since: the call carries the store it has read.

Main theorem: `append_only_log`.
-/
namespace LocalAgent

/-- A call of a writer. -/
inductive StoreCall where
  | createRun (record : RunRecord) (checkpoint : DurableCheckpoint)
  | append (t : AppendTransition)
  | createWait (read : Store) (t : AppendTransition) (record : DurableApprovalRecord)
  | recordDecision (read : Store) (t : AppendTransition) (command : DurableApprovalDecisionCommand)
  | transitionStatus (request : DurableApprovalStatusTransition)

/-- What the call appends. -/
def StoreCall.transition : StoreCall → Option AppendTransition
  | .createRun _ _ => none
  | .append t | .createWait _ t _ | .recordDecision _ t _ => some t
  | .transitionStatus request => request.transition

/-- The call appends to this run and expects this number to be the last. -/
def StoreCall.races (run : RunId) (expected : Option Nat) (c : StoreCall) : Bool :=
  c.transition.any fun t => t.key.runId = run && t.expectedSequence = expected

/-- The events the call adds to a run. -/
def StoreCall.adds (c : StoreCall) (run : RunId) : List AgentEvent :=
  match c.transition with
  | none => []
  | some t => if t.key.runId = run then [t.event] else []

namespace Store

variable {s s' : Store} {c : StoreCall} {t : AppendTransition} {run : RunId} {row : StoredRun}

def commit (s : Store) : StoreCall → Except PersistencePortError Store
  | .createRun record checkpoint => s.createRun record checkpoint
  | .append t => s.appendTransition t
  | .createWait read t record => createDurableApprovalWait read s t record
  | .recordDecision read t command => recordDurableApprovalDecision read s t command
  | .transitionStatus request => s.transitionDurableApprovalStatus request

/-- The answer of a call and the store it leaves: a transaction that fails is rolled back. -/
def execute (s : Store) (c : StoreCall) : Except PersistencePortError Unit × Store :=
  match s.commit c with
  | .ok s' => (.ok (), s')
  | .error e => (.error e, s)

/-- The calls of all writers, one after the other. -/
def serve (s : Store) (calls : List StoreCall) : Store :=
  calls.foldl (fun s c => (s.execute c).2) s

/-- The committed events of a run. -/
def log (s : Store) (run : RunId) : List AgentEvent :=
  match s.runs run with
  | none => []
  | some row => row.events

/-- Call `i` of the list is answered with success. -/
def Succeeds (s : Store) (calls : List StoreCall) (i : Nat) : Prop :=
  ∃ c, calls[i]? = some c ∧ ((s.serve (calls.take i)).execute c).1 = .ok ()

/-! ## The run row -/

/-- The number of the last of `n` events. -/
def lastOf : Nat → Option Nat
  | 0 => none
  | n + 1 => some n

theorem lastOf_inj {m n : Nat} (h : lastOf m = lastOf n) : m = n := by
  cases m <;> cases n <;> simp_all [lastOf]

/-- A run row agrees with its events. -/
structure Numbered (row : StoredRun) : Prop where
  sequences : row.events.map AgentEvent.sequence = List.range row.events.length
  last : row.lastSequence = lastOf row.events.length

/-- Every row of the store is numbered. -/
def AllNumbered (s : Store) : Prop := ∀ run row, s.runs run = some row → Numbered row

/-- The numbered events are in the order in which they are read. -/
theorem Numbered.sorted (h : Numbered row) :
    (row.events.insertionSort fun a b => a.sequence ≤ b.sequence) = row.events := by
  refine List.Pairwise.insertionSort_eq ?_
  have hlt : (row.events.map AgentEvent.sequence).Pairwise (· < ·) := by
    rw [h.sequences]
    exact List.pairwise_lt_range
  exact (List.pairwise_map.mp hlt).imp Nat.le_of_lt

theorem append_events : (StoredRun.append row t).events = row.events ++ [t.event] := by
  unfold StoredRun.append
  split <;> rfl

theorem append_lastSequence : (StoredRun.append row t).lastSequence = some t.event.sequence := by
  unfold StoredRun.append
  split <;> rfl

@[simp] theorem append_record : (StoredRun.append row t).record = row.record := by
  unfold StoredRun.append
  split <;> rfl

@[simp] theorem append_sessionId : (StoredRun.append row t).sessionId = row.sessionId := by
  unfold StoredRun.append
  split <;> rfl

@[simp] theorem append_terminal :
    (StoredRun.append row t).terminal = (row.terminal || t.event.kind.isRunFinished) := by
  unfold StoredRun.append
  split <;> rfl

/-- The expected number and the unique key leave only one number for the event: the next one. At
the end of the range `checked_next` repeats the last number, which the key refuses. -/
theorem Appended.sequence (h : Appended s t row) (hrow : Numbered row) :
    t.event.sequence = row.events.length := by
  have hnext := h.next
  rw [← h.last, hrow.last] at hnext
  have htaken : ∀ n < row.events.length, t.event.sequence ≠ n := by
    intro n hn heq
    have hmem : n ∈ row.events.map AgentEvent.sequence := by
      rw [hrow.sequences]
      exact List.mem_range.mpr hn
    obtain ⟨e, he, hseq⟩ := List.mem_map.mp hmem
    exact h.fresh e he (hseq.trans heq.symm)
  cases hn : row.events.length with
  | zero =>
    rw [hn] at hnext
    exact hnext
  | succ n =>
    rw [hn] at hnext htaken
    simp only [expectedNext, lastOf, checkedNext] at hnext
    by_cases hlt : n < u64Max
    · simpa [hlt] using hnext
    · simp only [hlt, if_false, Option.getD_none] at hnext
      exact absurd hnext (htaken u64Max (by omega))

theorem Numbered.append (hrow : Numbered row) (h : Appended s t row) :
    Numbered (StoredRun.append row t) := by
  have hseq := h.sequence hrow
  constructor
  · rw [append_events, List.map_append, hrow.sequences, List.length_append, List.map_singleton, hseq,
      List.length_singleton, List.range_succ]
  · rw [append_lastSequence, append_events, List.length_append, List.length_singleton, hseq]
    rfl

/-! ## One call -/

/-- What a committed call did to the rows of the runs. -/
inductive Wrote (s : Store) (c : StoreCall) (s' : Store) : Prop
  | created (record : RunRecord) (checkpoint : DurableCheckpoint) (new : StoredRun)
      (call : c = .createRun record checkpoint) (absent : s.runs record.key.runId = none)
      (empty : new.events = []) (unset : new.lastSequence = none)
      (runs : s'.runs = (s.putRun record.key.runId new).runs)
  | appended (t : AppendTransition) (row : StoredRun) (call : c.transition = some t)
      (accepted : Appended s t row)
      (runs : s'.runs = (s.putRun t.key.runId (StoredRun.append row t)).runs)
  | none (call : c.transition = none) (runs : s'.runs = s.runs)

theorem commit_ok (h : s.commit c = .ok s') : Wrote s c s' := by
  have happend : ∀ {t mid}, c.transition = some t → s.appendTransition t = .ok mid →
      s'.runs = mid.runs → Wrote s c s' := by
    intro t mid hc ht hruns
    obtain ⟨row, hrow, rfl⟩ := appendTransition_ok ht
    exact .appended t row hc hrow hruns
  cases c with
  | createRun record checkpoint =>
    obtain ⟨-, habsent, rfl⟩ := createRun_ok h
    exact .created record checkpoint _ rfl habsent rfl rfl rfl
  | append t => exact happend rfl h rfl
  | createWait read t record =>
    obtain ⟨mid, ht, hruns, -⟩ := createDurableApprovalWait_ok h
    exact happend rfl ht hruns
  | recordDecision read t command =>
    obtain ⟨mid, -, -, -, -, ht, hruns, -⟩ := recordDurableApprovalDecision_ok h
    exact happend rfl ht hruns
  | transitionStatus request =>
    obtain ⟨hsome, hnone, -⟩ := transitionDurableApprovalStatus_ok h
    cases hreq : request.transition with
    | none => exact .none hreq (hnone hreq)
    | some t =>
      obtain ⟨-, mid, ht, hruns⟩ := hsome t hreq
      exact happend hreq ht hruns

theorem execute_cases (s : Store) (c : StoreCall) :
    (∃ s', s.commit c = .ok s' ∧ s.execute c = (.ok (), s')) ∨
      ∃ e, s.commit c = .error e ∧ s.execute c = (.error e, s) := by
  unfold execute
  cases h : s.commit c with
  | ok s' => exact .inl ⟨s', rfl, rfl⟩
  | error e => exact .inr ⟨e, rfl, rfl⟩

theorem Wrote.allNumbered (h : Wrote s c s') (hs : s.AllNumbered) : s'.AllNumbered := by
  intro other row hrow
  cases h with
  | created record checkpoint new _ _ hempty hunset hruns =>
    rw [hruns] at hrow
    by_cases hother : other = record.key.runId
    · subst hother
      rw [putRun_self] at hrow
      obtain rfl := Option.some.inj hrow
      exact ⟨by rw [hempty]; rfl, by rw [hempty, hunset]; rfl⟩
    · rw [putRun_of_ne hother] at hrow
      exact hs other row hrow
  | appended t old _ haccepted hruns =>
    rw [hruns] at hrow
    by_cases hother : other = t.key.runId
    · subst hother
      rw [putRun_self] at hrow
      obtain rfl := Option.some.inj hrow
      exact (hs _ old haccepted.stored).append haccepted
    · rw [putRun_of_ne hother] at hrow
      exact hs other row hrow
  | none _ hruns =>
    rw [hruns] at hrow
    exact hs other row hrow

/-- **A committed call adds exactly its event.** -/
theorem Wrote.log (h : Wrote s c s') (run : RunId) : s'.log run = s.log run ++ c.adds run := by
  cases h with
  | created record checkpoint new hcall habsent hempty _ hruns =>
    subst hcall
    rw [StoreCall.adds, StoreCall.transition, List.append_nil, Store.log, Store.log, hruns]
    by_cases hother : run = record.key.runId
    · subst hother
      rw [putRun_self, habsent]
      exact hempty
    · rw [putRun_of_ne hother]
  | appended t old hcall haccepted hruns =>
    rw [StoreCall.adds, hcall, Store.log, Store.log, hruns]
    by_cases hother : run = t.key.runId
    · subst hother
      rw [putRun_self, haccepted.stored]
      simp [append_events]
    · rw [putRun_of_ne hother]
      simp [Ne.symm hother]
  | none hcall hruns =>
    rw [StoreCall.adds, hcall, Store.log, Store.log, hruns]
    simp

/-! ## All calls -/

@[simp] theorem serve_nil : s.serve [] = s := rfl

theorem serve_append {before after : List StoreCall} :
    s.serve (before ++ after) = (s.serve before).serve after := List.foldl_append ..

theorem serve_take_succ {calls : List StoreCall} {i : Nat} (h : calls[i]? = some c) :
    s.serve (calls.take (i + 1)) = ((s.serve (calls.take i)).execute c).2 := by
  rw [List.take_add_one, h, serve_append]
  rfl

theorem execute_log (s : Store) (c : StoreCall) (run : RunId) :
    s.log run <+: (s.execute c).2.log run := by
  rcases execute_cases s c with ⟨s', hcommit, hexecute⟩ | ⟨e, -, hexecute⟩
  · rw [hexecute, (commit_ok hcommit).log run]
    exact List.prefix_append ..
  · rw [hexecute]

/-- **Committed events stay.** -/
theorem serve_log (s : Store) (calls : List StoreCall) (run : RunId) :
    s.log run <+: (s.serve calls).log run := by
  induction calls generalizing s with
  | nil => exact List.prefix_refl _
  | cons c calls ih => exact (execute_log s c run).trans (ih (s.execute c).2)

theorem serve_allNumbered (hs : s.AllNumbered) (calls : List StoreCall) :
    (s.serve calls).AllNumbered := by
  induction calls generalizing s with
  | nil => exact hs
  | cons c calls ih =>
    have hnext : (s.execute c).2.AllNumbered := by
      rcases execute_cases s c with ⟨s', hcommit, hexecute⟩ | ⟨e, -, hexecute⟩
      · rw [hexecute]
        exact (commit_ok hcommit).allNumbered hs
      · rw [hexecute]
        exact hs
    exact ih hnext

theorem empty_allNumbered : empty.AllNumbered := fun _ _ h => absurd h nofun

/-! ## Races -/

/-- A call that has won the race for a number found a log of just that length. -/
theorem commit_races {expected : Option Nat} (hs : s.AllNumbered) (h : s.commit c = .ok s')
    (hc : c.races run expected = true) :
    expected = lastOf (s.log run).length ∧ (s'.log run).length = (s.log run).length + 1 := by
  obtain ⟨t, ht, hrace⟩ := Option.any_eq_true .. |>.mp hc
  simp only [Bool.and_eq_true, decide_eq_true_eq] at hrace
  obtain ⟨rfl, rfl⟩ := hrace
  have hwrote := commit_ok h
  constructor
  · cases hwrote with
    | created _ _ _ hcall => rw [hcall] at ht; cases ht
    | appended t' row hcall haccepted =>
      obtain rfl : t' = t := Option.some.inj (hcall.symm.trans ht)
      rw [← haccepted.last, (hs _ row haccepted.stored).last, Store.log, haccepted.stored]
    | none hcall => exact absurd (hcall.symm.trans ht) nofun
  · rw [hwrote.log, StoreCall.adds, ht]
    simp

theorem Succeeds.commit {calls : List StoreCall} {i : Nat} (h : s.Succeeds calls i)
    (hi : calls[i]? = some c) :
    ∃ s', (s.serve (calls.take i)).commit c = .ok s' ∧ s.serve (calls.take (i + 1)) = s' := by
  obtain ⟨c', hc', hok⟩ := h
  obtain rfl : c = c' := Option.some.inj (hi.symm.trans hc')
  rw [serve_take_succ hi]
  rcases execute_cases (s.serve (calls.take i)) c with ⟨s', hcommit, hexecute⟩ | ⟨e, -, hexecute⟩
  · exact ⟨s', hcommit, by rw [hexecute]⟩
  · rw [hexecute] at hok
    cases hok

/-- At most one of the writers that expect the same number wins. -/
theorem Succeeds.unique {calls : List StoreCall} {expected : Option Nat} {i j : Nat} {c d : StoreCall}
    (hs : s.AllNumbered) (hi : s.Succeeds calls i) (hj : s.Succeeds calls j)
    (hc : calls[i]? = some c) (hd : calls[j]? = some d) (hcrace : c.races run expected = true)
    (hdrace : d.races run expected = true) : i = j := by
  -- the later of the two would find the log the earlier one has left behind
  have hlater : ∀ {i j : Nat} {c d : StoreCall}, s.Succeeds calls i → s.Succeeds calls j →
      calls[i]? = some c → calls[j]? = some d → c.races run expected = true →
      d.races run expected = true → ¬ i < j := by
    intro i j c d hi hj hc hd hcrace hdrace hlt
    obtain ⟨mid, hi, hmid⟩ := hi.commit hc
    obtain ⟨last, hj, -⟩ := hj.commit hd
    obtain ⟨hfirst, hgrown⟩ := commit_races (serve_allNumbered hs _) hi hcrace
    obtain ⟨hsecond, -⟩ := commit_races (serve_allNumbered hs _) hj hdrace
    have hlength := lastOf_inj (hfirst.symm.trans hsecond)
    have hsplit : calls.take j = calls.take (i + 1) ++ (calls.take j).drop (i + 1) := by
      conv_lhs => rw [← List.take_append_drop (i + 1) (calls.take j), List.take_take,
        Nat.min_eq_left hlt]
    have hprefix := serve_log (s.serve (calls.take (i + 1))) ((calls.take j).drop (i + 1)) run
    rw [← serve_append, ← hsplit, hmid] at hprefix
    have := hprefix.length_le
    omega
  have := hlater hi hj hc hd hcrace hdrace
  have := hlater hj hi hd hc hdrace hcrace
  omega

theorem Appended.transport (h : Appended s t row) (hrun : s'.runs t.key.runId = s.runs t.key.runId) :
    Appended s' t row :=
  { h with stored := hrun.trans h.stored }

/-- Only a call that wins the race for the next number changes the row of a run. -/
theorem Wrote.races {run : RunId} (h : Wrote s c s') (hrun : s.runs run = some row)
    (hmoved : s'.runs run ≠ s.runs run) : c.races run row.lastSequence = true := by
  cases h with
  | created record _ _ _ habsent _ _ hruns =>
    rw [hruns] at hmoved
    by_cases hother : run = record.key.runId
    · subst hother
      exact absurd (habsent.symm.trans hrun) nofun
    · exact absurd (putRun_of_ne hother) hmoved
  | appended t old hcall haccepted hruns =>
    rw [hruns] at hmoved
    by_cases hother : run = t.key.runId
    · subst hother
      obtain rfl : old = row := Option.some.inj (haccepted.stored.symm.trans hrun)
      rw [StoreCall.races, hcall, haccepted.last]
      simp
    · exact absurd (putRun_of_ne hother) hmoved
  | none _ hruns => exact absurd (by rw [hruns]) hmoved

end Store

end LocalAgent
