import LocalAgent.Harness.WriteAhead
import LocalAgent.Store.Runs

/-!
# Budgets over the whole life of a run

A budget counts port calls, iterations and graph nodes, the store holds events. Each call uses up
one committed start event (`calls_announced`), each iteration and node is such an event itself, and
`RowKept.afforded` bounds the start events of a row, however often the run was recovered in
between.
-/
namespace LocalAgent

open Program Store

/-- The counter a call is charged to. -/
def CallKey.counter : CallKey → Option Counter
  | .model _ => some .modelCalls
  | .tool _ => some .toolCalls
  | .approval _ => some .approvalRequests
  | .knowledge _ => none

theorem AgentEventKind.counts_of_opens {k : AgentEventKind} {key : CallKey} {x : Counter}
    (hopens : k.opens = some key) (hx : key.counter = some x) : k.counts.any (·.1 = x) = true := by
  cases k with
  | modelInvocationStarted | toolInvocationStarted | approvalRequested =>
    cases hopens
    cases hx
    simp [counts]
  | knowledgeRetrievalStarted | knowledgeRetrievalRestarted =>
    cases hopens
    cases hx
  | _ => cases hopens

section

variable {lib : Library} {S : Setting lib} {x : Counter} {run : RunId} {h : S.clients.History}

/-- A use of the budget: a call of a model, tool or approval port for the run, or a committed
event that is charged without a call: a durable approval, an iteration, a node. -/
def uses (x : Counter) (run : RunId) : S.clients.Act → Bool
  | .did r a => (r.portCall.any fun call => call.1 = run && call.2.counter = some x) ||
      (r.commits a run).any fun e => e.kind.counts.any (·.1 = x) && e.kind.opens.isNone
  | _ => false

/-- How much of a counter a run has used. -/
def used (x : Counter) (run : RunId) (h : S.clients.History) : Nat := h.countP fun e => uses x run e.2

/-- A committed start event of the run. -/
def charges (x : Counter) (run : RunId) : S.clients.Act → Bool
  | .did r a => (r.commits a run).any fun e => e.kind.counts.any (·.1 = x)
  | _ => false

theorem startCount_committed : startCount x (committed run h) = h.countP fun e => charges x run e.2 := by
  induction h using List.reverseRecOn with
  | nil => rfl
  | append_singleton h act ih =>
    obtain ⟨i, e⟩ := act
    rw [committed_append, List.countP_append, ← ih, startCount, List.countP_append]
    refine congrArg _ ?_
    cases e with
    | did r a =>
      rw [committed_did, List.countP_singleton]
      rcases Option.eq_none_or_eq_some (r.commits a run) with hnone | ⟨event, hsome⟩
      · simp [charges, hnone]
      · simp [charges, hsome]
    | _ => rfl

theorem Request.commits_of_announces {r : Request} {a : Answer r} {run : RunId} {key : CallKey}
    (hkey : ∀ t, r.transition = some t → r.accepted a = true → t.event.runId = t.key.runId)
    (h : r.announces a = some (run, key)) :
    ∃ e, r.commits a run = some e ∧ e.kind.opens = some key := by
  unfold announces at h
  split at h
  · rename_i haccepted
    obtain ⟨t, ht, hopened⟩ := Option.bind_eq_some_iff.mp h
    obtain ⟨key', hopens, heq⟩ := Option.map_eq_some_iff.mp hopened
    cases heq
    refine ⟨t.event, ?_, hopens⟩
    simp [commits, haccepted, ht, Option.filter, hkey t ht haccepted]
  · cases h

/-- Every use is matched by a committed start event of its own. -/
theorem used_le_startCount (x : Counter) (run : RunId) (hpersist : S.Persists) {w₀ : S.World} {s : S.clients.State}
    (hs : S.clients.Reachable w₀ s) (hkeys : ∀ (p i : Nat) (r : Request) (a : Answer r) t,
      s.history[p]? = some (i, .did r a) → r.transition = some t → r.accepted a = true →
      t.event.runId = t.key.runId) :
    used x run s.history ≤ startCount x (committed run s.history) := by
  classical
  obtain ⟨start, hstart, hinj⟩ := calls_announced hpersist hs
  rw [startCount_committed]
  let calls (p : Nat) : Prop := ∃ i r a, s.history[p]? = some (i, .did r a) ∧ r.portCall.isSome = true
  -- a call is matched with its announcement, a charged event with itself
  have hcase : ∀ p, Position.At s.history (fun e => uses x run e.2) p →
      (calls p ∧ ∃ i r a e, s.history[start p]? = some (i, .did r a) ∧ r.commits a run = some e ∧
        e.kind.counts.any (·.1 = x) = true ∧ e.kind.opens.isSome = true) ∨
      (¬ calls p ∧ ∃ i r a e, s.history[p]? = some (i, .did r a) ∧ r.commits a run = some e ∧
        e.kind.counts.any (·.1 = x) = true ∧ e.kind.opens = none) := by
    intro p hp
    obtain ⟨⟨i, act⟩, hget, huse⟩ := Position.at_iff.mp hp
    cases act with
    | did r a =>
      simp only [uses, Bool.or_eq_true] at huse
      cases hport : r.portCall with
      | some call =>
        have hsilent : r.commits a run = none := by
          cases r <;> first | (cases hport; done) | simp [Request.commits, Request.transition]
        rw [hport, hsilent] at huse
        simp only [Option.any_some, Option.any_none, Bool.false_eq_true, or_false,
          Bool.and_eq_true, decide_eq_true_eq] at huse
        obtain ⟨run', key⟩ := call
        obtain ⟨rfl, hcounter⟩ := huse
        obtain ⟨-, -, r', a', hget', hann⟩ := hstart p i r a _ hget hport
        obtain ⟨e, hcommits, hopens⟩ := Request.commits_of_announces
          (fun t => hkeys (start p) i r' a' t hget') hann
        refine .inl ⟨⟨i, r, a, hget, by rw [hport]; rfl⟩, i, r', a', e, hget', hcommits, ?_, ?_⟩
        · exact AgentEventKind.counts_of_opens hopens hcounter
        · rw [hopens]
          rfl
      | none =>
        rw [hport] at huse
        simp only [Option.any_none, Bool.false_eq_true, false_or] at huse
        obtain ⟨e, he, hcharged⟩ := (Option.any_eq_true ..).mp huse
        obtain ⟨hcounts, hopens⟩ := Bool.and_eq_true_iff.mp hcharged
        refine .inr ⟨?_, i, r, a, e, hget, he, hcounts, by simpa using hopens⟩
        rintro ⟨i', r', a', hget', hsome⟩
        rw [hget] at hget'
        cases hget'
        rw [hport] at hsome
        cases hsome
    | _ => cases huse
  refine Position.countP_le_of_injOn (fun p => if calls p then start p else p) ?_ ?_
  · intro p hp
    rcases hcase p hp with ⟨hcalls, i, r, a, e, hget, he, hcounts, -⟩ |
      ⟨hcalls, i, r, a, e, hget, he, hcounts, -⟩
    · rw [if_pos hcalls]
      exact Position.at_iff.mpr ⟨_, hget, by simpa [charges, he] using hcounts⟩
    · rw [if_neg hcalls]
      exact Position.at_iff.mpr ⟨_, hget, by simpa [charges, he] using hcounts⟩
  · intro p q hp hq heq
    rcases hcase p hp with ⟨hcp, ip, rp, ap, ep, hgetp, hep, -, hopensp⟩ |
      ⟨hcp, ip, rp, ap, ep, hgetp, hep, -, hopensp⟩ <;>
    rcases hcase q hq with ⟨hcq, iq, rq, aq, eq, hgetq, heq', -, hopensq⟩ |
      ⟨hcq, iq, rq, aq, eq, hgetq, heq', -, hopensq⟩
    · rw [if_pos hcp, if_pos hcq] at heq
      obtain ⟨i, r, a, hat, hsome⟩ := hcp
      obtain ⟨j, r', a', hat', hsome'⟩ := hcq
      exact hinj p q i j r r' a a' hat hsome hat' hsome' heq
    · rw [if_pos hcp, if_neg hcq] at heq
      rw [heq, hgetq] at hgetp
      cases hgetp
      rw [heq'] at hep
      cases hep
      rw [hopensq] at hopensp
      cases hopensp
    · rw [if_neg hcp, if_pos hcq] at heq
      rw [← heq, hgetp] at hgetq
      cases hgetq
      rw [hep] at heq'
      cases heq'
      rw [hopensp] at hopensq
      cases hopensq
    · rwa [if_neg hcp, if_neg hcq] at heq

end

section

variable {lib : Library} {reliable serial : Prop}

/-- An event is appended to the run it is about. -/
theorem reachable_event_keys {s : (sqlite lib reliable serial).clients.State}
    (hs : (sqlite lib reliable serial).clients.Reachable ⟨empty, []⟩ s) {p i : Nat} {r : Request}
    {a : Answer r} {t : AppendTransition} (hp : s.history[p]? = some (i, .did r a))
    (ht : r.transition = some t) (haccepted : r.accepted a = true) :
    t.event.runId = t.key.runId := by
  obtain ⟨u, w', -, -, hacts⟩ := hs.acts (sqlite lib reliable serial).watch_sound hp
  cases Served.runsMoved hacts.answered with
  | created record checkpoint request =>
    subst request
    cases ht
  | appended t' row transition _ continues =>
    obtain rfl : t' = t := Option.some.inj (transition.symm.trans ht)
    exact continues.run
  | still silent => exact absurd (haccepted.symm.trans (silent t ht)) (by simp)

/-- The context of a recovered run has the usage of the replayed state. -/
theorem fromRecovery_usage {state : DurableRunState} {elapsed : Duration} {now : Instant}
    {contract : RecoveryContract} {c : RunContext}
    (h : RunContext.fromRecovery state elapsed now contract = .ok c) :
    c.usage = state.context.usage := by
  unfold RunContext.fromRecovery at h
  split at h
  · cases h
  · split at h
    · cases h
    · split at h
      · cases h
      · cases h
        rfl

theorem classifyRunning_usage {contract : RecoveryContract} {elapsed : Duration} {now : Instant}
    {state : DurableRunState} {d : RecoveryDisposition} {r : RecoveredRun}
    (h : classifyRunning contract elapsed now state = .ok d) (hr : d = .resumable r ∨ d = .waiting r) :
    r.context.usage = state.context.usage := by
  have hcontext : ∀ {c : RunContext}, RunContext.fromRecovery state elapsed now contract = .ok c →
      (d = .waiting ⟨c, state, contract⟩ ∨ d = .resumable ⟨c, state, contract⟩) →
      r.context.usage = state.context.usage := by
    intro c hc hd
    have hrc : r = ⟨c, state, contract⟩ := by
      rcases hr with rfl | rfl <;> rcases hd with hd | hd <;> cases hd <;> rfl
    rw [hrc]
    exact fromRecovery_usage hc
  unfold classifyRunning at h
  split_ifs at h
  · cases h
    rcases hr with hr | hr <;> cases hr
  · split at h
    · cases h
    · rename_i c hc
      exact hcontext hc (.inl (Except.ok.inj h).symm)
  · cases h
    rcases hr with hr | hr <;> cases hr
  · cases h
    rcases hr with hr | hr <;> cases hr
  · split at h
    · cases h
    · rename_i c hc
      exact hcontext hc (.inr (Except.ok.inj h).symm)

theorem classify_usage {contract : RecoveryContract} {nowUnixMillis : Nat} {now : Instant}
    {state : DurableRunState} {d : RecoveryDisposition} {r : RecoveredRun}
    (h : classify contract nowUnixMillis now state = .ok d) (hr : d = .resumable r ∨ d = .waiting r) :
    r.context.usage = state.context.usage := by
  have hother : ∀ {x : RecoveryDisposition}, Except.ok (ε := RecoveryError) x = .ok d →
      x ≠ .resumable r → x ≠ .waiting r → r.context.usage = state.context.usage := by
    rintro x hx hres hwait
    cases hx
    exact absurd hr (not_or.mpr ⟨hres, hwait⟩)
  unfold classify at h
  split at h
  · exact hother h nofun nofun
  · split at h
    · exact hother h nofun nofun
    · exact hother h nofun nofun
    · exact hother h nofun nofun
    · split at h
      · cases h
      · split at h
        · cases h
        · split at h
          · cases h
          · exact classifyRunning_usage h hr

/-- **Budgets hold over a run's whole life**, and recovery restores what the log says. -/
theorem budgets_hold_for_life (htrust : reliable ∨ serial)
    {s : (sqlite lib reliable serial).clients.State}
    (hs : (sqlite lib reliable serial).clients.Reachable ⟨empty, []⟩ s) {record : RunRecord}
    (hcreated : Created s.history record) :
    (∀ x, used x record.key.runId s.history ≤ record.budget.limit x) ∧
      ∀ row nowUnixMillis now d r, s.world.now.runs record.key.runId = some row →
        recoverLoadedRun lib.codec row.loaded nowUnixMillis now = .ok d →
        d = .resumable r ∨ d = .waiting r →
        ∀ x, r.context.usage.count x = startCount x (committed record.key.runId s.history) := by
  have hchronicle := reachable_chronicled hs
  obtain ⟨row, hrow, hrecord⟩ := (hchronicle.created record).mp hcreated
  have hkept := (reachable_consistent htrust hs).rows _ row hrow
  have hevents : row.events = committed record.key.runId s.history := by
    rw [← hchronicle.log]
    simp only [Store.log, hrow]
  have hafford : ∀ x, startCount x row.events ≤ record.budget.limit x := by
    intro x
    rw [← hrecord]
    exact hkept.afforded x
  refine ⟨fun x => ?_, ?_⟩
  · have hused := used_le_startCount x record.key.runId (fun _ h => h) hs
      fun p i r a t => reachable_event_keys hs
    rw [← hevents] at hused
    exact Nat.le_trans hused (hafford x)
  · intro row' nowUnixMillis now d r hrow' hrecover hr x
    obtain rfl : row = row' := Option.some.inj (hrow.symm.trans hrow')
    obtain ⟨state, hlog, hclass⟩ := recover_verified hrecover
    have hcount := DurableRunState.replay_count hlog.replayed x
    have hle := hafford x
    have hmax := record.budget.limit_le x
    rw [classify_usage hclass hr, hcount, ← hevents]
    exact Nat.min_eq_left (Nat.le_trans hle hmax)

end

/-- A run that one client starts and another recovers and ends. -/
def recoveredRunCommands : List (Nat × Command plainLibrary) :=
  [(0, sampleCommand (.newContext ⟨1⟩ ⟨2⟩ sampleBudget (.restartable 1))),
   (0, sampleCommand (.startRun none)), (1, sampleCommand (.recoverRun ⟨⟨1⟩, ⟨2⟩⟩)),
   (1, sampleCommand (.invokeModel ⟨[]⟩)), (1, sampleCommand (.invokeTool readCall)),
   (1, sampleCommand .completeRun)]

theorem budgets_hold_for_recovered_run :
    used .modelCalls ⟨1⟩ (sqliteRun favourable recoveredRunCommands).history = 1 ∧
      used .toolCalls ⟨1⟩ (sqliteRun favourable recoveredRunCommands).history = 1 ∧
      ∀ x, used x ⟨1⟩ (sqliteRun favourable recoveredRunCommands).history ≤ sampleBudget.limit x := by
  have hreach := sqliteRun_reachable favourable recoveredRunCommands (by decide +kernel)
  refine ⟨by decide +kernel, by decide +kernel, ?_⟩
  exact (budgets_hold_for_life (.inl trivial) hreach (created_plainRecord (by decide +kernel))).1

end LocalAgent
