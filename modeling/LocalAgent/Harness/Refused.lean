import LocalAgent.Harness.Track
import LocalAgent.Recovery.Refused

/-!
# Events that a context is refused (`context.rs:303-316`)

`next_event` takes the number of the event before it asks the reducer. A refused event has used its
number up, the durable state still waits for it, and no later event is accepted
(`Wedged.nextEvent_refused`). So `next_event` is atomic only where it cannot be refused by the reducer
(`nextEvent_atomic_iff`).
-/
namespace LocalAgent
namespace RunContext

variable {codec : EventCodec} {c c' : RunContext} {kind : AgentEventKind}

/-- If the call fails, the number and the durable state are as before, and every event that would have
been taken before it is taken after it. -/
structure Atomic (codec : EventCodec) (c : RunContext) (kind : AgentEventKind) : Prop where
  number : ∀ err c', c.nextEvent codec kind = (.error err, c') → c'.nextEventSequence = c.nextEventSequence
  state : ∀ err c', c.nextEvent codec kind = (.error err, c') → c'.durableState = c.durableState
  admits : ∀ err c', c.nextEvent codec kind = (.error err, c') → ∀ other e d,
    c.nextEvent codec other = (.ok e, d) → ∃ e' d', c'.nextEvent codec other = (.ok e', d')

/-- The reducer accepts the event that `next_event` would build. -/
def Admits (codec : EventCodec) (c : RunContext) (kind : AgentEventKind) : Prop :=
  ∃ d, c.durableState.apply codec (.new c.runId c.nextEventSequence kind) = .ok d

theorem nextEvent_of_admits (h : c.Admits codec kind) (hnumber : c.nextEventSequence < u64Max) :
    ∃ e d, c.nextEvent codec kind = (.ok e, d) := by
  obtain ⟨d, hd⟩ := h
  have hnext : checkedNext c.nextEventSequence = some (c.nextEventSequence + 1) :=
    checkedNext_eq_some.mpr ⟨hnumber, rfl⟩
  have htaken : c.nextEvent codec kind = (.ok (.new c.runId c.nextEventSequence kind), { c with
      nextEventSequence := c.nextEventSequence + 1
      durableState := d }) := by simp only [nextEvent, hnext, hd]
  exact ⟨_, _, htaken⟩

theorem nextEvent_of_exhausted (h : u64Max ≤ c.nextEventSequence) :
    c.nextEvent codec kind = (.error .eventSequenceExhausted, c) := by
  have hnext : checkedNext c.nextEventSequence = none := by
    rw [checkedNext, if_neg (by omega)]
  simp only [nextEvent, hnext]

theorem nextEvent_of_refused (h : ¬ c.Admits codec kind) (hnumber : c.nextEventSequence < u64Max) :
    c.nextEvent codec kind = (.error .durableTransitionInvalid, { c with
      nextEventSequence := c.nextEventSequence + 1
      durableState := c.durableState.residue (.new c.runId c.nextEventSequence kind) }) := by
  have hnext : checkedNext c.nextEventSequence = some (c.nextEventSequence + 1) :=
    checkedNext_eq_some.mpr ⟨hnumber, rfl⟩
  cases happly : c.durableState.apply codec (.new c.runId c.nextEventSequence kind) with
  | ok d => exact absurd ⟨d, happly⟩ h
  | error err => simp only [nextEvent, hnext, happly]

/-- **`next_event` is atomic exactly where the reducer does not refuse the event**, or the numbers are
used up. -/
theorem nextEvent_atomic_iff (codec : EventCodec) (c : RunContext) (kind : AgentEventKind) :
    Atomic codec c kind ↔ c.Admits codec kind ∨ u64Max ≤ c.nextEventSequence := by
  constructor
  · intro h
    by_contra hnot
    obtain ⟨hrefused, hnumber⟩ := not_or.mp hnot
    have hsame := h.number _ _ (nextEvent_of_refused hrefused (Nat.lt_of_not_le hnumber))
    dsimp only at hsame
    omega
  · intro h
    by_cases hnumber : u64Max ≤ c.nextEventSequence
    · have hsame : ∀ {err c'}, c.nextEvent codec kind = (.error err, c') → c' = c := by
        intro err c' he
        rw [nextEvent_of_exhausted hnumber] at he
        exact (Prod.mk.inj he).2.symm
      refine ⟨fun _ _ he => by rw [hsame he], fun _ _ he => by rw [hsame he], fun _ _ he other e d hd => ?_⟩
      rw [hsame he]
      exact ⟨e, d, hd⟩
    · have hadmits := h.resolve_right hnumber
      obtain ⟨e, d, hok⟩ := nextEvent_of_admits hadmits (Nat.lt_of_not_le hnumber)
      have hnever : ∀ {err c'}, c.nextEvent codec kind ≠ (.error err, c') := by
        intro err c' he
        rw [hok] at he
        cases he
      exact ⟨fun _ _ he => absurd he hnever, fun _ _ he => absurd he hnever,
        fun _ _ he => absurd he hnever⟩

/-! ## After a refused event -/

/-- A context whose number is ahead of its state takes no event, and stays so. -/
theorem Wedged.nextEvent_refused (codec : EventCodec) (kind : AgentEventKind) (h : Wedged c) :
    ∃ err c', c.nextEvent codec kind = (.error err, c') ∧ Wedged c' := by
  by_cases hnumber : u64Max ≤ c.nextEventSequence
  · exact ⟨_, c, nextEvent_of_exhausted hnumber, .inr hnumber⟩
  have hahead : c.durableState.expectedSequence < c.nextEventSequence := h.resolve_right hnumber
  have hrefused : ¬ c.Admits codec kind := by
    rintro ⟨d, hd⟩
    have hsequence : c.nextEventSequence = c.durableState.expectedSequence :=
      (DurableRunState.apply_ok hd).sequence
    omega
  refine ⟨_, _, nextEvent_of_refused hrefused (Nat.lt_of_not_le hnumber), .inl ?_⟩
  simp only [DurableRunState.residue_expectedSequence]
  omega

/-- The events of these kinds, one after the other, refused or not. -/
def takeAll (codec : EventCodec) (c : RunContext) (kinds : List AgentEventKind) : RunContext :=
  kinds.foldl (fun c kind => (c.nextEvent codec kind).2) c

/-- **One refused event ends the run**: no event is taken after it, of whatever kind. -/
theorem refused_for_good (hnext : c.nextEventSequence = c.durableState.expectedSequence)
    (hrefused : ¬ c.Admits codec kind) (hnumber : c.nextEventSequence < u64Max)
    (kinds : List AgentEventKind) (other : AgentEventKind) :
    ∃ err c', (takeAll codec c (kind :: kinds)).nextEvent codec other = (.error err, c') := by
  have hwedged : ∀ {c : RunContext} (kinds : List AgentEventKind), Wedged c → Wedged (takeAll codec c kinds) := by
    intro c kinds hc
    induction kinds generalizing c with
    | nil => exact hc
    | cons k ks ih =>
      obtain ⟨err, c', he, hc'⟩ := Wedged.nextEvent_refused codec k hc
      have hstep : takeAll codec c (k :: ks) = takeAll codec c' ks := by
        rw [takeAll, List.foldl_cons, he]
        rfl
      rw [hstep]
      exact ih hc'
  have hfirst : Wedged (c.nextEvent codec kind).2 := by
    rw [nextEvent_of_refused hrefused hnumber]
    refine .inl ?_
    simp only [DurableRunState.residue_expectedSequence]
    omega
  obtain ⟨err, c', he, -⟩ := Wedged.nextEvent_refused codec other (hwedged kinds hfirst)
  exact ⟨err, c', he⟩

/-- A run that has been started, at the instant 0 of the process. -/
def runningContext : RunContext :=
  { newWithRecoveryContract ⟨1⟩ ⟨2⟩ sampleBudget (.restartable 1) with
    status := .running
    runtime := some ⟨sampleBudget.maxElapsed⟩
    durableState := (newWithRecoveryContract ⟨1⟩ ⟨2⟩ sampleBudget (.restartable 1)).durableState.setStartedAt 1000 }

example : (newWithRecoveryContract ⟨1⟩ ⟨2⟩ sampleBudget (.restartable 1)).commitRunning 0 (some 1000) =
    .ok runningContext := rfl

/-- A run in the retrieve phase of its loop, with a retrieval that is pending. -/
def retrievingContext : RunContext :=
  takeAll plainCodec runningContext
    [ .runStarted 1000,
      .loop (.iterationStarted 1 1 4),
      .loop (.phaseEntered 1 .observe),
      .loop (.phaseCompleted 1 .observe),
      .loop (.phaseEntered 1 .retrieve),
      .knowledgeRetrievalStarted ⟨20⟩ (.single .standardsMcp) 5 12 ]

/-- **A snapshot of a foreign backend ends the run**: the completion is refused, and so is the end of
the run, which was accepted before. -/
theorem refused_completion_blocks_finish : ¬ Atomic plainCodec retrievingContext
    (.knowledgeRetrievalCompleted ⟨20⟩ [⟨.ocppRagKag, "v1"⟩] [] 0 false false 6) := by
  intro h
  obtain ⟨e, d, hfinish⟩ := h.admits _ _ rfl (.runFinished .cancelled) _ _ rfl
  cases hfinish

end RunContext
end LocalAgent
