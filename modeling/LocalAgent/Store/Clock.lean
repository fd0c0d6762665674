import LocalAgent.Harness.Clock
import LocalAgent.Store.Approvals

/-!
# Active time in the store

A run can be suspended and resumed any number of times, each time by another client and in another
process. `account` follows the boundaries that the store accepted for a run and reads the clocks of
the clients that wrote them. As long as no suspension reads a clock behind the last resumption, every
suspension reports exactly the account, and a run recovered from a wait has the rest of its budget
left.
-/
namespace LocalAgent

open Program Store

section

variable {lib : Library} {reliable serial : Prop}

/-- The wall clock as the client read it last. -/
def lastReading (i : Nat) (h : (sqlite lib reliable serial).clients.History) : Option Nat :=
  ((sqlite lib reliable serial).clocks.view i h).reading

/-- What one act does to the account of a run. -/
def Account.act (run : RunId) (past : (sqlite lib reliable serial).clients.History) (acc : Account)
    (e : Nat × (sqlite lib reliable serial).clients.Act) : Account :=
  match e.2 with
  | .did r a =>
    match r.commits a run with
    | some event => acc.enter (lastReading e.1 past) event.kind
    | none => acc
  | _ => acc

/-- The account after the rest of a history. -/
def accountFrom (run : RunId) : (sqlite lib reliable serial).clients.History → Account →
    (sqlite lib reliable serial).clients.History → Account
  | _, acc, [] => acc
  | past, acc, e :: rest => accountFrom run (past ++ [e]) (acc.act run past e) rest

/-- The account of a run after a history. -/
def account (run : RunId) (h : (sqlite lib reliable serial).clients.History) : Account :=
  accountFrom run [] {} h

theorem accountFrom_concat {run : RunId} {past h : (sqlite lib reliable serial).clients.History}
    {acc : Account} {e : Nat × (sqlite lib reliable serial).clients.Act} :
    accountFrom run past acc (h ++ [e]) = (accountFrom run past acc h).act run (past ++ h) e := by
  induction h generalizing past acc with
  | nil =>
    rw [List.append_nil]
    rfl
  | cons x h ih =>
    show accountFrom run (past ++ [x]) (acc.act run past x) (h ++ [e]) = _
    rw [ih, List.append_assoc]
    rfl

theorem account_concat {run : RunId} {h : (sqlite lib reliable serial).clients.History}
    {e : Nat × (sqlite lib reliable serial).clients.Act} :
    account run (h ++ [e]) = (account run h).act run h e := accountFrom_concat

/-- Every accepted suspension reads a clock that is not behind the last boundary by at most the
active time so far. -/
def ReadsForward (h : (sqlite lib reliable serial).clients.History) : Prop :=
  ∀ p i r a run event now, h[p]? = some (i, .did r a) → r.commits a run = some event →
    event.kind.activeElapsed.isSome = true → lastReading i (h.take p) = some now →
    (account run (h.take p)).Unambiguous now

/-- Every suspension and every recovery accounts for the active time alone. -/
structure Conserved (w : Storage) (h : (sqlite lib reliable serial).clients.History) : Prop where
  /-- A suspension reports the segments before the current one and the current one, which is measured
  forward. -/
  suspended : ∀ p i r a run event active, h[p]? = some (i, .did r a) → r.commits a run = some event →
    event.kind.activeElapsed = some active → ∃ since now,
      (account run (h.take p)).since = some since ∧ lastReading i (h.take p) = some now ∧ since ≤ now ∧
      active = (account run (h.take p)).total + (now - since)
  /-- A run recovered from a wait has exactly the rest of its budget left. -/
  waiting : ∀ run row nowUnixMillis now recovered, w.now.runs run = some row →
    recoverLoadedRun lib.codec row.loaded nowUnixMillis now = .ok (.waiting recovered) →
    ∃ since, (account run h).since = some since ∧ since ≤ nowUnixMillis ∧
      recovered.Leaves now (fromMillis (account run h).total)

/-- The store and the accounts, as far as a history went. -/
structure Audited (w : Storage) (h : (sqlite lib reliable serial).clients.History) : Prop where
  row : ∀ run row, w.now.runs run = some row → ∃ state,
    (DurableRunState.initial row.record).replay lib.codec row.events = .ok state ∧
      state.Accounted (account run h)
  absent : ∀ run, w.now.runs run = none → account run h = {}

end

section

variable {lib : Library} {reliable serial : Prop} {w w' : Storage}
  {h : (sqlite lib reliable serial).clients.History} {i : Nat} {r : Request} {a : Answer r}

theorem account_silent {e : (sqlite lib reliable serial).clients.Act} (he : ∀ r a, e ≠ .did r a)
    (run : RunId) : account run (h ++ [(i, e)]) = account run h := by
  rw [account_concat]
  unfold Account.act
  split
  · exact absurd ‹_› (he _ _)
  · rfl

theorem account_did (run : RunId) : account run (h ++ [(i, .did r a)]) =
    match r.commits a run with
    | some event => (account run h).enter (lastReading i h) event.kind
    | none => account run h := account_concat

theorem Audited.silent (ha : Audited w h) {e : (sqlite lib reliable serial).clients.Act}
    (he : ∀ r a, e ≠ .did r a) : Audited w (h ++ [(i, e)]) where
  row run row hrow := by
    rw [account_silent he]
    exact ha.row run row hrow
  absent run hrun := by
    rw [account_silent he]
    exact ha.absent run hrun

/-- A reported suspension was read by the client that wrote it. -/
theorem suspension_read
    (hacts : Machine.Acts (sqlite lib reliable serial).watch w h i r a w')
    (hclock : ((sqlite lib reliable serial).clocks.view i h).permits r) {run : RunId} {e : AgentEvent}
    (he : r.commits a run = some e) {active : Nat} (hactive : e.kind.activeElapsed = some active)
    {s s' : DurableRunState} (happly : s.apply lib.codec e = .ok s')
    (hcheckpoint : ∀ t cp, r.transition = some t → t.checkpoint = some cp →
      cp.state.context.startedAtUnixMillis = s'.context.startedAtUnixMillis) :
    ∃ now, lastReading i h = some now ∧ s.ReadAt now active := by
  have hsuspends : ∃ waitId, e.kind.suspends = some waitId := by
    unfold AgentEventKind.activeElapsed at hactive
    split at hactive
    · rename_i heq
      rw [heq]
      exact ⟨_, rfl⟩
    · cases hactive
  obtain ⟨waitId, hsuspends⟩ := hsuspends
  obtain ⟨t, record, degraded, rfl, rfl, -, -, -⟩ := commits_suspension hacts he hsuspends
  obtain ⟨now, hnow, cp, active', hcp, hactive', started, hstarted, rfl⟩ := hclock
  obtain rfl := Option.some.inj (hactive.symm.trans hactive')
  refine ⟨_, hnow, started, ?_, rfl⟩
  rw [hcheckpoint t cp rfl hcp] at hstarted
  obtain ⟨m, bytes, -, hrule, -, rfl⟩ := (DurableRunState.apply_ok happly).rule
  rw [← hstarted]
  refine (hrule.keeps_started (fun x hx => ?_) (AgentEventKind.suspends_only hsuspends).2.1).symm
  rw [hx] at hactive
  cases hactive

/-- The state in which a suspension was reported, and the clock. -/
theorem Audited.suspension (htrust : reliable ∨ serial) (hc : Consistent w h) (ha : Audited w h)
    (hacts : Machine.Acts (sqlite lib reliable serial).watch w h i r a w')
    (hclock : ((sqlite lib reliable serial).clocks.view i h).permits r) {run : RunId} {e : AgentEvent}
    (he : r.commits a run = some e) {active : Nat} (hactive : e.kind.activeElapsed = some active) :
    ∃ (now : Nat) (state : DurableRunState), lastReading i h = some now ∧ state.Accounted (account run h) ∧
      state.ReadAt now active := by
  obtain ⟨haccepted, t, ht, rfl, rfl⟩ := accepted_of_commits he
  have hmoved := Served.runsMoved hacts.answered
  cases hmoved with
  | created record checkpoint request =>
    subst request
    cases ht
  | still silent =>
    rw [silent t ht] at haccepted
    cases haccepted
  | appended t' row transition _ continues runs =>
    obtain rfl : t' = t := Option.some.inj (transition.symm.trans ht)
    obtain ⟨k, hk, hrecord, hevents, k', m, m', hk', -, -, hreplay, happly, hcp, -⟩ :=
      hc.extends htrust hacts transition continues
    obtain rfl : k = k' := Option.some.inj (hk.symm.trans hk')
    obtain ⟨state, hstate, hacc⟩ := ha.row _ row continues.stored
    rw [← hrecord, ← hevents] at hreplay
    obtain rfl : state = m := Except.ok.inj (hstate.symm.trans hreplay)
    obtain ⟨now, hnow, hread⟩ := suspension_read hacts hclock he hactive happly
      fun t cp ht' hcheckpoint => by
        obtain rfl : t = t' := Option.some.inj (ht'.symm.trans transition)
        rcases hcp cp hcheckpoint with rfl | ⟨-, rfl⟩
        · rfl
        · rfl
    exact ⟨now, state, hnow, hacc, hread⟩

theorem Audited.did (htrust : reliable ∨ serial) (hc : Consistent w h) (ha : Audited w h)
    (hacts : Machine.Acts (sqlite lib reliable serial).watch w h i r a w')
    (hclock : ((sqlite lib reliable serial).clocks.view i h).permits r)
    (hforward : ∀ run event now, r.commits a run = some event →
      event.kind.activeElapsed.isSome = true → lastReading i h = some now →
      (account run h).Unambiguous now) : Audited w' (h ++ [(i, .did r a)]) := by
  have hmoved := Served.runsMoved hacts.answered
  have hkept : ∀ run, r.commits a run = none → account run (h ++ [(i, .did r a)]) = account run h := by
    intro run hnone
    rw [account_did, hnone]
  cases hmoved with
  | created record checkpoint request opened absent valid runs =>
    have hnone : ∀ run, r.commits a run = none := by
      intro run
      subst request
      unfold Request.commits
      split <;> rfl
    constructor
    · intro run row hrow
      rw [hkept run (hnone run)]
      rw [runs] at hrow
      by_cases hrun : run = record.key.runId
      · subst hrun
        rw [putRun_self] at hrow
        cases hrow
        rw [ha.absent _ absent]
        exact ⟨_, rfl, DurableRunState.accounted_initial⟩
      · rw [putRun_of_ne hrun] at hrow
        exact ha.row run row hrow
    · intro run hrun
      rw [hkept run (hnone run)]
      rw [runs] at hrun
      by_cases hsame : run = record.key.runId
      · subst hsame
        rw [putRun_self] at hrun
        cases hrun
      · rw [putRun_of_ne hsame] at hrun
        exact ha.absent run hrun
  | appended t row transition accepted continues runs =>
    obtain ⟨k, hk, hrecord, hevents, k', m, m', hk', -, -, hreplay, happly, hcp, -⟩ :=
      hc.extends htrust hacts transition continues
    obtain rfl : k = k' := Option.some.inj (hk.symm.trans hk')
    have hcommits : r.commits a t.key.runId = some t.event := commits_of_accepted transition accepted
    have hother : ∀ run, run ≠ t.key.runId → r.commits a run = none := by
      intro run hne
      simp [Request.commits, accepted, transition, Option.filter, Ne.symm hne]
    constructor
    · intro run row' hrow'
      rw [runs] at hrow'
      by_cases hrun : run = t.key.runId
      · subst hrun
        rw [putRun_self] at hrow'
        obtain rfl := Option.some.inj hrow'
        obtain ⟨state, hstate, hacc⟩ := ha.row _ row continues.stored
        rw [← hrecord, ← hevents] at hreplay
        obtain rfl : state = m := Except.ok.inj (hstate.symm.trans hreplay)
        rw [append_events, append_record, account_did, hcommits]
        refine ⟨m', DurableRunState.replay_concat.mpr ⟨state, hreplay, happly⟩, ?_⟩
        refine DurableRunState.apply_accounted happly hacc fun active hactive => ?_
        obtain ⟨now, hnow, hread⟩ := suspension_read hacts hclock hcommits hactive happly
          fun t' cp ht' hcheckpoint => by
            obtain rfl : t' = t := Option.some.inj (ht'.symm.trans transition)
            rcases hcp cp hcheckpoint with rfl | ⟨-, rfl⟩
            · rfl
            · rfl
        exact ⟨now, hnow, hread, hforward _ _ _ hcommits (by rw [hactive]; rfl) hnow⟩
      · rw [putRun_of_ne hrun] at hrow'
        rw [hkept run (hother run hrun)]
        exact ha.row run row' hrow'
    · intro run hrun
      rw [runs] at hrun
      by_cases hsame : run = t.key.runId
      · subst hsame
        rw [putRun_self] at hrun
        cases hrun
      · rw [putRun_of_ne hsame] at hrun
        rw [hkept run (hother run hsame)]
        exact ha.absent run hrun
  | still silent opened runs =>
    have hnone : ∀ run, r.commits a run = none := by
      intro run
      refine Option.eq_none_iff_forall_ne_some.mpr fun e he => ?_
      obtain ⟨haccepted, t, ht, -⟩ := accepted_of_commits he
      rw [silent t ht] at haccepted
      cases haccepted
    constructor
    · intro run row hrow
      rw [hkept run (hnone run)]
      rw [runs] at hrow
      exact ha.row run row hrow
    · intro run hrun
      rw [hkept run (hnone run)]
      rw [runs] at hrun
      exact ha.absent run hrun

/-- Every request kept to the clock of its client. -/
def Timely (h : (sqlite lib reliable serial).clients.History) : Prop :=
  ∀ p i r a, h[p]? = some (i, .did r a) →
    ((sqlite lib reliable serial).clocks.view i (h.take p)).permits r

/-- What is said of every act of a history is said of every act of its beginning. -/
theorem ReadsForward.take (hf : ReadsForward h) (n : Nat) : ReadsForward (h.take n) := by
  intro p i r a run event now hp hcommits hactive hnow
  rw [List.getElem?_take] at hp
  split at hp
  · rename_i hlt
    rw [List.take_take, Nat.min_eq_left (Nat.le_of_lt hlt)] at hnow ⊢
    exact hf p i r a run event now hp hcommits hactive hnow
  · cases hp

theorem ReadsForward.init {e : Nat × (sqlite lib reliable serial).clients.Act}
    (hf : ReadsForward (h ++ [e])) : ReadsForward h := by
  have htake := hf.take h.length
  rwa [List.take_left] at htake

theorem Timely.init {e : Nat × (sqlite lib reliable serial).clients.Act} (ht : Timely (h ++ [e])) :
    Timely h := by
  intro p i r a hp
  have hlt := (List.getElem?_eq_some_iff.mp hp).1
  have hall := ht p i r a (Position.getElem?_concat.mpr (.inl hp))
  rwa [List.take_append_of_le_length (Nat.le_of_lt hlt)] at hall

end

section

variable {lib : Library} {reliable serial : Prop} {s : (sqlite lib reliable serial).clients.State}

end

/-- A test of every accepted suspension: the active time it reports, the clock it read, and the account
before it. -/
def suspensionsPass (check : Nat → Option Nat → Account → Bool)
    (h : (sqlite plainLibrary True False).clients.History) : Bool :=
  (List.range h.length).all fun p => match h[p]? with
    | some (i, .did r a) => match r.transition with
      | some t => match r.accepted a, t.event.kind.activeElapsed with
        | true, some active => check active (lastReading i (h.take p)) (account t.key.runId (h.take p))
        | _, _ => true
      | none => true
    | _ => true

/-- The report is the account, with the current segment measured forward. -/
def reportsAccount (active : Nat) (reading : Option Nat) (acc : Account) : Bool :=
  match acc.since, reading with
  | some since, some now => since ≤ now && active = acc.total + (now - since)
  | _, _ => false

theorem Conserved.passes {w : Storage} {h : (sqlite plainLibrary True False).clients.History}
    (hc : Conserved w h) : suspensionsPass reportsAccount h = true := by
  refine List.all_eq_true.mpr fun p _ => ?_
  split
  · rename_i i r a hp
    split
    · rename_i t ht
      split
      · rename_i active haccepted hactive
        obtain ⟨since, now, hsince, hnow, hle, hsum⟩ :=
          hc.suspended p i r a _ _ active hp (commits_of_accepted ht haccepted) hactive
        simp only [reportsAccount, hsince, hnow, Bool.and_eq_true, decide_eq_true_eq]
        exact ⟨hle, hsum⟩
      · rfl
    · rfl
  · rfl

end LocalAgent
