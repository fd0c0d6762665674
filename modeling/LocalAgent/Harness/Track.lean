import LocalAgent.Harness.View

/-!
# A context and the log it was built from

The live context applies every event to its own copy of the durable state before the event is
persisted. `Tracks` says how the two stay together: the copy is the replay of the known log, or
the context can take no event any more (`Wedged`), or the store has refused an event and the
context is ahead of the log (`Behind`). `Emitted` is the moment between `next_event` and the
answer of the store.
-/
namespace LocalAgent

open Program

variable {lib : Library}

/-! ## `next_event` -/

namespace DurableRunState

variable {codec : EventCodec} {s t : DurableRunState}

/-- The number of the next event is at most the number of events replayed. -/
theorem replay_expectedSequence_le {record : RunRecord} {events : List AgentEvent}
    (h : (initial record).replay codec events = .ok t) : t.expectedSequence ≤ events.length := by
  refine FailingFold.history (R := fun l m => m.expectedSequence ≤ l.length) (Nat.le_refl 0) ?_ h
  intro l e m m' _ ih hm
  have hseq := (apply_ok hm).sequence
  simp only [expectedSequence, apply_lastSequence hm, checkedNext, List.length_append,
    List.length_singleton]
  split_ifs with hlt
  · rw [Option.getD_some]
    omega
  · rw [Option.getD_none]
    omega

theorem residue_expectedSequence {e : AgentEvent} :
    (s.residue e).expectedSequence = s.expectedSequence := by
  have hlast : (s.residue e).lastSequence = s.lastSequence :=
    residue_cases (P := fun m => m.lastSequence = s.lastSequence) rfl rfl
      fun _ hm => (applyKind_rule hm).sameRun.lastSequence
  simp only [expectedSequence, hlast]

end DurableRunState

namespace RunContext

variable {codec : EventCodec} {c c' : RunContext} {kind : AgentEventKind} {e : AgentEvent}

/-- An event that was taken. -/
theorem nextEvent_ok (h : c.nextEvent codec kind = (.ok e, c')) :
    e = .new c.runId c.nextEventSequence kind ∧ c.nextEventSequence < u64Max ∧
      ∃ d, c.durableState.apply codec e = .ok d ∧
        c' = { c with nextEventSequence := c.nextEventSequence + 1, durableState := d } := by
  unfold nextEvent at h
  split at h
  · cases h
  · rename_i next hnext
    obtain ⟨hlt, rfl⟩ := checkedNext_eq_some.mp hnext
    dsimp only at h
    split at h
    · cases h
    · rename_i d hd
      cases h
      exact ⟨rfl, hlt, d, hd, rfl⟩

/-- An event that was refused. -/
theorem nextEvent_error {err : RunContextError} (h : c.nextEvent codec kind = (.error err, c')) :
    c' = c ∧ u64Max ≤ c.nextEventSequence ∨ ∃ e : AgentEvent, e.kind = kind ∧ c' = { c with
      nextEventSequence := c.nextEventSequence + 1, durableState := c.durableState.residue e } := by
  unfold nextEvent at h
  split at h
  · rename_i hnone
    cases h
    refine .inl ⟨rfl, ?_⟩
    by_contra hlt
    rw [checkedNext, if_pos (Nat.lt_of_not_le hlt)] at hnone
    cases hnone
  · rename_i next hnext
    obtain ⟨-, rfl⟩ := checkedNext_eq_some.mp hnext
    dsimp only at h
    split at h
    · cases h
      exact .inr ⟨_, rfl, rfl⟩
    · cases h

end RunContext

/-! ## Tracking -/

/-- The context can take no event any more: its own number is ahead of the number its state
expects, and stays so, or the numbers are used up. -/
def Wedged (c : RunContext) : Prop :=
  c.durableState.expectedSequence < c.nextEventSequence ∨ u64Max ≤ c.nextEventSequence

/-- The durable state of the context is this one, up to an audit flag set without an event. -/
def Mirrors (c : RunContext) (v : View lib) (s : DurableRunState) : Prop :=
  c.durableState = s ∨ v.tainted = true ∧ c.durableState = s.setAuditDegraded

/-- The context stands at the end of the known log. -/
structure Aligned (c : RunContext) (v : View lib) (k : KnownRun) (s : DurableRunState) : Prop where
  run : v.run = some k
  key : c.key = k.record.key
  next : c.nextEventSequence = k.log.length
  replayed : (DurableRunState.initial k.record).replay lib.codec k.log = .ok s
  mirrors : Mirrors c v s

/-- The store refused an event of this operation, so the log ends before the context does. -/
structure Behind (c : RunContext) (v : View lib) : Prop where
  refused : v.refused = true
  current : v.current = true
  gap : ∃ k, v.run = some k ∧ c.key = k.record.key ∧ k.log.length < c.nextEventSequence

structure Tracks (c : RunContext) (v : View lib) : Prop where
  announced : v.volatile = false → v.startRefused = false
  log : v.volatile = false →
    Wedged c ∨ (v.refused = false ∧ ∃ k s, Aligned c v k s) ∨ Behind c v

/-- The context has taken `e`, the store has not answered yet. -/
structure Taken (e : AgentEvent) (c : RunContext) (v : View lib) (k : KnownRun)
    (s s' : DurableRunState) : Prop where
  run : v.run = some k
  key : c.key = k.record.key
  next : c.nextEventSequence = k.log.length + 1
  sequence : e.sequence = k.log.length
  replayed : (DurableRunState.initial k.record).replay lib.codec k.log = .ok s
  applied : s.apply lib.codec e = .ok s'
  counted : View.Counted s.context.usage e.kind
  bound : e.sequence < u64Max
  mirrors : Mirrors c v s'

structure Emitted (e : AgentEvent) (c : RunContext) (v : View lib) : Prop where
  announced : v.volatile = false → v.startRefused = false
  log : v.volatile = false → (v.refused = false ∧ ∃ k s s', Taken e c v k s s') ∨
    Behind c v ∧ ∃ k, v.run = some k ∧ k.log.length < e.sequence

/-- Nothing follows `RunFinished` without one of the two excuses. -/
def MayFollow (v : View lib) : Prop :=
  v.volatile = false → v.refused = false → ∀ k, v.run = some k →
    k.log.any (fun e => e.kind.isRunFinished) = true → v.interrupted = true ∨ v.lateAudit = true

section

variable {c c' : RunContext} {v v' : View lib} {e : AgentEvent} {kind : AgentEventKind}

theorem View.Counted.uncounted {usage : BudgetUsage} (h : kind.counts = none) :
    View.Counted usage kind := by
  intro x next limit hk
  rw [h] at hk
  cases hk

theorem Wedged.not_taken (hw : Wedged c) : c.nextEvent lib.codec kind ≠ (.ok e, c') := by
  intro h
  obtain ⟨rfl, hlt, d, hd, -⟩ := RunContext.nextEvent_ok h
  have hseq := (DurableRunState.apply_ok hd).sequence
  have heq : c.nextEventSequence = c.durableState.expectedSequence := hseq
  rcases hw with hahead | hlast <;> omega

theorem Mirrors.expectedSequence {s : DurableRunState} (h : Mirrors c v s) :
    c.durableState.expectedSequence = s.expectedSequence := by
  obtain h | ⟨-, h⟩ := h <;> rw [h]
  rfl

theorem Mirrors.status {s : DurableRunState} (h : Mirrors c v s) :
    c.durableState.context.status = s.context.status := by
  obtain h | ⟨-, h⟩ := h <;> rw [h]
  rfl

theorem Mirrors.usage {s : DurableRunState} (h : Mirrors c v s) :
    c.durableState.context.usage = s.context.usage := by
  obtain h | ⟨-, h⟩ := h <;> rw [h]
  rfl

/-- The next state of the copy is a copy of the next state. -/
theorem Mirrors.apply {s d : DurableRunState} (h : Mirrors c v s)
    (hd : c.durableState.apply lib.codec e = .ok d) :
    ∃ s', s.apply lib.codec e = .ok s' ∧ (d = s' ∨ v.tainted = true ∧ d = s'.setAuditDegraded) := by
  obtain h | ⟨ht, h⟩ := h
  · rw [h] at hd
    exact ⟨d, hd, .inl rfl⟩
  · rw [h, DurableRunState.apply_setAuditDegraded] at hd
    cases hs : s.apply lib.codec e with
    | error err =>
      rw [hs] at hd
      cases hd
    | ok s' =>
      rw [hs] at hd
      cases hd
      exact ⟨s', rfl, .inr ⟨ht, rfl⟩⟩

/-- **`next_event` on a tracking context.** -/
theorem Tracks.taken (h : Tracks c v) (hcounted : View.Counted c.durableState.context.usage kind)
    (he : c.nextEvent lib.codec kind = (.ok e, c')) : Emitted e c' v := by
  obtain ⟨rfl, hlt, d, hd, rfl⟩ := RunContext.nextEvent_ok he
  refine ⟨h.announced, fun hv => ?_⟩
  rcases h.log hv with hw | ⟨hr, k, s, ha⟩ | hb
  · exact absurd he hw.not_taken
  · obtain ⟨s', hs', hm⟩ := ha.mirrors.apply hd
    rw [ha.mirrors.usage] at hcounted
    refine .inl ⟨hr, k, s, s', ha.run, ha.key, ?_, ha.next, ha.replayed, hs', hcounted, hlt, hm⟩
    rw [← ha.next]
  · obtain ⟨k, hk, hkey, hlt⟩ := hb.gap
    exact .inr ⟨⟨hb.refused, hb.current, k, hk, hkey, Nat.lt_succ_of_lt hlt⟩, k, hk, hlt⟩

/-- A refused event leaves a context that can take no event any more, or is behind. -/
theorem Tracks.refusedEvent {err : RunContextError} (h : Tracks c v)
    (he : c.nextEvent lib.codec kind = (.error err, c')) (hv : v.volatile = false) :
    Wedged c' ∨ Behind c' v := by
  rcases RunContext.nextEvent_error he with ⟨rfl, hlast⟩ | ⟨e, -, rfl⟩
  · exact .inl (.inr hlast)
  rcases h.log hv with hw | ⟨-, k, s, ha⟩ | hb
  · refine .inl ?_
    simp only [Wedged, DurableRunState.residue_expectedSequence] at hw ⊢
    omega
  · refine .inl (.inl ?_)
    simp only [DurableRunState.residue_expectedSequence, ha.mirrors.expectedSequence, ha.next]
    exact Nat.lt_succ_of_le (DurableRunState.replay_expectedSequence_le ha.replayed)
  · obtain ⟨k, hk, hkey, hlt⟩ := hb.gap
    exact .inr ⟨hb.refused, hb.current, k, hk, hkey, Nat.lt_succ_of_lt hlt⟩

theorem Tracks.untaken {err : RunContextError} (h : Tracks c v)
    (he : c.nextEvent lib.codec kind = (.error err, c')) : Tracks c' v :=
  ⟨h.announced, fun hv => (h.refusedEvent he hv).imp id .inr⟩

/-- After a refused event the audit flag may be set without an event: no event will tell. -/
theorem Tracks.untaken_markAuditDegraded {err : RunContextError} (h : Tracks c v)
    (he : c.nextEvent lib.codec kind = (.error err, c')) : Tracks c'.markAuditDegraded v := by
  refine ⟨h.announced, fun hv => ?_⟩
  rcases h.refusedEvent he hv with hw | hb
  · exact .inl hw
  · exact .inr (.inr ⟨hb.refused, hb.current, hb.gap⟩)

/-! ## The answer of the store -/

/-- A taken event may be sent to the store. -/
theorem Emitted.appendable (h : Emitted e c v) (hfollow : MayFollow v)
    (hv : v.volatile = false) (checkpoint : Bool) :
    v.Appendable (transitionForEvent c e checkpoint) := by
  refine ⟨h.announced hv, rfl, fun hr => ?_, fun hr => ?_⟩
  · rcases h.log hv with ⟨-, k, s, s', ht⟩ | ⟨hb, -⟩
    · refine ⟨k, s, s', ht.run, ht.key, ht.sequence, ht.replayed, ht.applied, ?_, ht.counted,
        ht.bound, hfollow hv hr k ht.run⟩
      intro cp hcp
      simp only [transitionForEvent] at hcp
      split at hcp
      · cases hcp
        rcases ht.mirrors with hm | ⟨htaint, hm⟩
        · exact .inl (congrArg DurableCheckpoint.new hm)
        · exact .inr ⟨htaint, congrArg DurableCheckpoint.new hm⟩
      · cases hcp
    · rw [hb.refused] at hr
      cases hr
  · rcases h.log hv with ⟨hn, -⟩ | ⟨hb, k, hk, hlt⟩
    · rw [hn] at hr
      cases hr
    · obtain ⟨k', hk', hkey, -⟩ := hb.gap
      obtain rfl : k = k' := Option.some.inj (hk.symm.trans hk')
      exact ⟨hb.current, k, hk, hkey, hlt⟩

/-- Accepted: the log has grown by the event. -/
theorem Emitted.accepted (h : Emitted e c v) (hclean : v.volatile = false → v.refused = false) :
    Tracks c (v.stored e true) := by
  refine ⟨h.announced, fun hv => ?_⟩
  rcases h.log hv with ⟨hr, k, s, s', ht⟩ | ⟨hb, -⟩
  · refine .inr (.inl ⟨hr, { k with log := k.log ++ [e] }, s', ?_, ht.key, ?_, ?_, ht.mirrors⟩)
    · simp [View.stored, ht.run]
    · simp [ht.next]
    · exact DurableRunState.replay_concat.mpr ⟨s, ht.replayed, ht.applied⟩
  · exact absurd (hb.refused.symm.trans (hclean hv)) Bool.noConfusion

/-- Refused: the context is ahead of the log that the store has confirmed. -/
theorem Emitted.refused (h : Emitted e c v) (hcurrent : v.volatile = false → v.current = true)
    (hopens : e.kind.opens = none) : Tracks c (v.stored e false) := by
  refine ⟨fun hv => ?_, fun hv => .inr (.inr ⟨rfl, hcurrent hv, ?_⟩)⟩
  · simp only [View.stored, hopens, Option.isSome_none, Bool.or_false]
    exact h.announced hv
  · rcases h.log hv with ⟨-, k, s, s', ht⟩ | ⟨hb, -⟩
    · exact ⟨k, ht.run, ht.key, by rw [ht.next]; exact Nat.lt_succ_self _⟩
    · exact hb.gap

/-! ## What tracking depends on -/

/-- The views agree on the log, and `v'` knows at least as much. -/
structure SameLog (v v' : View lib) : Prop where
  volatile : v'.volatile = false → v.volatile = false
  startRefused : v'.startRefused = v.startRefused
  refused : v'.refused = v.refused
  run : v'.run = v.run
  tainted : v.tainted = true → v'.tainted = true
  current : v.volatile = false → v.refused = true → v.current = true → v'.current = true

theorem Tracks.congr (h : Tracks c v) (hkey : c'.key = c.key)
    (hnext : c'.nextEventSequence = c.nextEventSequence) (hstate : c'.durableState = c.durableState)
    (hv : SameLog v v') : Tracks c' v' := by
  refine ⟨fun hvol => hv.startRefused.trans (h.announced (hv.volatile hvol)), fun hvol => ?_⟩
  rcases h.log (hv.volatile hvol) with hw | ⟨hr, k, s, ha⟩ | hb
  · refine .inl ?_
    unfold Wedged
    rw [hstate, hnext]
    exact hw
  · refine .inr (.inl ⟨hv.refused.trans hr, k, s, hv.run.trans ha.run, hkey.trans ha.key,
      hnext.trans ha.next, ha.replayed, ?_⟩)
    unfold Mirrors
    rw [hstate]
    exact ha.mirrors.imp id fun hm => ⟨hv.tainted hm.1, hm.2⟩
  · refine .inr (.inr ⟨hv.refused.trans hb.refused,
      hv.current (hv.volatile hvol) hb.refused hb.current, ?_⟩)
    rw [hv.run, hkey, hnext]
    exact hb.gap

theorem Emitted.context (h : Emitted e c v) (hkey : c'.key = c.key)
    (hnext : c'.nextEventSequence = c.nextEventSequence) (hstate : c'.durableState = c.durableState) :
    Emitted e c' v := by
  refine ⟨h.announced, fun hv => ?_⟩
  rcases h.log hv with ⟨hr, k, s, s', ht⟩ | ⟨hb, hlt⟩
  · refine .inl ⟨hr, k, s, s', ht.run, hkey.trans ht.key, hnext.trans ht.next, ht.sequence,
      ht.replayed, ht.applied, ht.counted, ht.bound, ?_⟩
    unfold Mirrors
    rw [hstate]
    exact ht.mirrors
  · refine .inr ⟨⟨hb.refused, hb.current, ?_⟩, hlt⟩
    rw [hkey, hnext]
    exact hb.gap

/-- A tainted view covers a context whose audit flag was set without an event, and so does a log
that says the same. -/
theorem Tracks.markAuditDegraded (h : Tracks c v)
    (htaint : v.volatile = false → v.degraded = true ∨ v.tainted = true) :
    Tracks c.markAuditDegraded v := by
  refine ⟨h.announced, fun hv => ?_⟩
  rcases h.log hv with hw | ⟨hr, k, s, ha⟩ | hb
  · exact .inl hw
  · have hmarked : c.markAuditDegraded.durableState = s.setAuditDegraded := by
      rcases ha.mirrors with hm | ⟨-, hm⟩ <;> simp only [RunContext.markAuditDegraded, hm]
      rfl
    refine .inr (.inl ⟨hr, k, s, ha.run, ha.key, ha.next, ha.replayed, ?_⟩)
    rcases htaint hv with hsaid | htainted
    · have hflag : s.context.auditDegraded = true := by
        rw [DurableRunState.replay_auditDegraded ha.replayed]
        simpa only [View.degraded, ha.run, Option.any_some] using hsaid
      exact .inl (hmarked.trans (DurableRunState.setAuditDegraded_of_degraded hflag))
    · exact .inr ⟨htainted, hmarked⟩
  · exact .inr (.inr ⟨hb.refused, hb.current, hb.gap⟩)

end
end LocalAgent
