import LocalAgent.Recovery.InPlace
import LocalAgent.Recovery.Recover

/-!
# Events that are refused (`recovery.rs:259-285`)

`apply` writes into the state it is called on, so a refused event must not have written yet. Every
branch checks before it writes (`InPlace.cleanAt_applyKind`), except the restart of a retrieval: it
drops the pending retrieval first, and `start_knowledge_retrieval` checks afterwards whether the run is
in a place where one may start.

Main theorem: `refused_keeps_state_iff`.
-/
namespace LocalAgent
namespace DurableRunState

open FailingFold Stateful

variable {codec : EventCodec} {s s' : DurableRunState} {k : AgentEventKind} {e : AgentEvent}

/-- A retrieval may start here: the loop is in its retrieve phase, or the graph in a retrieve node. -/
def RetrievesHere (s : DurableRunState) : Prop :=
  s.loopPosition = .phaseRunning .retrieve ∨ s.inRetrieveNode = true

/-- The event restarts the pending retrieval with the same request, and would be the next one, but no
retrieval may start here. -/
structure RestartsElsewhere (s : DurableRunState) (e : AgentEvent) : Prop where
  version : e.schemaVersion = currentEventSchemaVersion
  run : e.runId = s.context.key.runId
  sequence : e.sequence = s.expectedSequence
  restart : ∃ id p, s.pendingKnowledgeRetrieval = some p ∧
    e.kind = .knowledgeRetrievalRestarted p.retrievalId id p.route p.queryDigest p.queryBytes
  elsewhere : ¬ s.RetrievesHere

/-! ## Pending retrievals are well formed -/

/-- What `start_knowledge_retrieval` checks about the request. -/
def WellFormed (p : PendingKnowledgeRetrieval) : Prop :=
  p.route.isValid = true ∧ p.queryBytes ≠ 0 ∧ p.queryBytes ≤ maxQueryBytes

theorem startKnowledgeRetrieval_eq {p : PendingKnowledgeRetrieval} (hidle : s.pendingKnowledgeRetrieval = none)
    (hp : WellFormed p) (hplace : s.RetrievesHere) :
    s.startKnowledgeRetrieval p = .ok (s.retrievalOpened p) := by
  obtain ⟨hroute, hzero, hmax⟩ := hp
  have hbig : ¬ p.queryBytes > maxQueryBytes := by omega
  unfold startKnowledgeRetrieval
  rw [if_neg]
  · rfl
  · rcases hplace with hplace | hplace <;> simp [hidle, hroute, hzero, hbig, hplace]

theorem startKnowledgeRetrieval_wellFormed {p : PendingKnowledgeRetrieval}
    (h : s.startKnowledgeRetrieval p = .ok s') :
    WellFormed p ∧ s'.pendingKnowledgeRetrieval = some p := by
  obtain ⟨-, -, hs'⟩ := startKnowledgeRetrieval_ok h
  refine ⟨?_, by rw [hs']; rfl⟩
  by_contra hp
  unfold startKnowledgeRetrieval at h
  rw [if_pos] at h
  · cases h
  · unfold WellFormed at hp
    by_cases hroute : p.route.isValid = true
    · by_cases hzero : p.queryBytes = 0
      · simp [hzero]
      · have hbig : p.queryBytes > maxQueryBytes := by
          by_contra hle
          exact hp ⟨hroute, hzero, by omega⟩
        simp [hbig]
    · simp [hroute]

/-- An accepted event leaves the pending retrieval, drops it, or opens a well-formed one. -/
theorem applyKind_pending (h : s.applyKind k = .ok s') :
    s'.pendingKnowledgeRetrieval = s.pendingKnowledgeRetrieval ∨ s'.pendingKnowledgeRetrieval = none ∨
      ∃ p, WellFormed p ∧ s'.pendingKnowledgeRetrieval = some p := by
  cases applyKind_rule h with
  | loop rule => cases rule <;> exact .inl rfl
  | graph rule => cases rule <;> exact .inl rfl
  | retrievalStarted => exact .inr (.inr ⟨_, startKnowledgeRetrieval_wellFormed h⟩)
  | retrievalRestarted =>
    simp only [applyKind] at h
    split at h
    · cases h
    · split at h
      · cases h
      · obtain ⟨hp, hsome⟩ := startKnowledgeRetrieval_wellFormed h
        exact .inr (.inr ⟨_, hp, hsome⟩)
  | retrievalCompleted => exact .inr (.inl rfl)
  | retrievalFailed => exact .inr (.inl rfl)
  | _ => exact .inl rfl

theorem replay_pending_wellFormed {record : RunRecord} {events : List AgentEvent}
    (h : (initial record).replay codec events = .ok s) :
    ∀ p, s.pendingKnowledgeRetrieval = some p → WellFormed p := by
  refine invariant (I := fun t => ∀ p, t.pendingKnowledgeRetrieval = some p → WellFormed p) ?_ ?_ h
  · intro p hp
    cases hp
  intro e m m' ih hm p hp
  obtain ⟨t, bytes, happly, -, -, rfl⟩ := (apply_ok hm).rule
  have hp : t.pendingKnowledgeRetrieval = some p := hp
  rcases applyKind_pending happly with hsame | hnone | ⟨q, hq, hsome⟩
  · exact ih p (hsame.symm.trans hp)
  · rw [hnone] at hp
    cases hp
  · rw [hsome] at hp
    exact Option.some.inj hp ▸ hq

/-! ## What a refused event leaves -/

theorem PendingKnowledgeRetrieval.matchesRequest_iff {p : PendingKnowledgeRetrieval}
    {route : KnowledgeRouteMetadata} {digest : Bytes32} {bytes : Nat} :
    p.matchesRequest route digest bytes = true ↔
      p.route = route ∧ p.queryDigest = digest ∧ p.queryBytes = bytes := by
  simp [PendingKnowledgeRetrieval.matchesRequest, and_assoc]

/-- A restart in the right place is accepted. -/
theorem applyKind_restart (id : KnowledgeRetrievalId) {p : PendingKnowledgeRetrieval}
    (hpending : s.pendingKnowledgeRetrieval = some p) (hp : WellFormed p) (hplace : s.RetrievesHere) :
    ∃ s', s.applyKind (.knowledgeRetrievalRestarted p.retrievalId id p.route p.queryDigest p.queryBytes) =
      .ok s' := by
  have hmatches : p.matchesRequest p.route p.queryDigest p.queryBytes = true :=
    PendingKnowledgeRetrieval.matchesRequest_iff.mpr ⟨rfl, rfl, rfl⟩
  have hstart := startKnowledgeRetrieval_eq (s := { s with pendingKnowledgeRetrieval := none })
    (p := ⟨id, p.route, p.queryDigest, p.queryBytes⟩) rfl hp hplace
  refine ⟨_, Eq.trans ?_ hstart⟩
  simp [applyKind, hpending, hmatches]

/-- Elsewhere it is refused, and the retrieval is gone. -/
theorem RestartsElsewhere.drops (codec : EventCodec) (h : RestartsElsewhere s e) :
    InPlace.apply codec e s = .error .effect { s with pendingKnowledgeRetrieval := none } := by
  obtain ⟨id, p, hpending, hkind⟩ := h.restart
  have hmatches : p.matchesRequest p.route p.queryDigest p.queryBytes = true :=
    PendingKnowledgeRetrieval.matchesRequest_iff.mpr ⟨rfl, rfl, rfl⟩
  have hplace : ¬ s.loopPosition = .phaseRunning .retrieve ∧ s.inRetrieveNode = false := by
    obtain ⟨hloop, hnode⟩ := not_or.mp h.elsewhere
    exact ⟨hloop, Bool.eq_false_iff.mpr hnode⟩
  have hstart : InPlace.startKnowledgeRetrieval ⟨id, p.route, p.queryDigest, p.queryBytes⟩
      { s with pendingKnowledgeRetrieval := none } =
        .error .effect { s with pendingKnowledgeRetrieval := none } := by
    rw [InPlace.startKnowledgeRetrieval, refuseIf_bind_apply, if_pos]
    have hnode : ({ s with pendingKnowledgeRetrieval := none } : DurableRunState).inRetrieveNode = false :=
      hplace.2
    simp [hplace.1, hnode]
  have hbranch : InPlace.applyKind e.kind s =
      .error .effect { s with pendingKnowledgeRetrieval := none } := by
    rw [hkind, InPlace.applyKind, demand_bind_apply, hpending]
    dsimp only
    rw [refuseIf_bind_apply, if_neg (by simp [hmatches]), bind_apply, modify_apply]
    exact hstart
  rw [InPlace.apply, refuseIf_bind_apply, if_neg (by simp [h.version, h.run]), refuseIf_bind_apply,
    if_neg (by simp [h.sequence]), bind_apply, hbranch]

/-- Everything else is refused before anything is written, if events can be encoded. -/
theorem apply_cleanAt (hencode : ∀ e, (codec.toVec e).isSome = true)
    (hformed : ∀ p, s.pendingKnowledgeRetrieval = some p → WellFormed p)
    (hnot : ¬ RestartsElsewhere s e) : CleanAt (InPlace.apply codec e) s := by
  refine .refuseIf_bind fun hidentity => .refuseIf_bind fun hsequence => ?_
  refine CleanAt.bind_total ?_ fun _ =>
    (Total.demand (fun _ => hencode e) _).bind fun _ => .write_bind _ <| .write _
  by_cases hrestart : ∃ previous id route digest bytes,
      e.kind = .knowledgeRetrievalRestarted previous id route digest bytes
  · obtain ⟨previous, id, route, digest, bytes, hkind⟩ := hrestart
    intro err t herr
    rcases InPlace.applyKind_restart_error (hkind ▸ herr) with hsame | ⟨p, hpending, rfl, hmatches, -⟩
    · exact hsame
    obtain ⟨rfl, rfl, rfl⟩ := PendingKnowledgeRetrieval.matchesRequest_iff.mp hmatches
    simp only [ne_eq, Bool.or_eq_false_iff, decide_eq_false_iff_not, not_not] at hidentity hsequence
    -- in the right place it would have been accepted
    refine absurd ⟨hidentity.1, hidentity.2, hsequence, ⟨id, p, hpending, hkind⟩, fun hplace => ?_⟩ hnot
    obtain ⟨s', hs'⟩ := applyKind_restart id hpending (hformed p hpending) hplace
    rw [← hkind, ← InPlace.outcome_applyKind, outcome, herr] at hs'
    cases hs'
  · exact InPlace.cleanAt_applyKind
      fun previous id route digest bytes hkind => hrestart ⟨previous, id, route, digest, bytes, hkind⟩

/-- **A refused event changes nothing**, exactly if it is no restart of the pending retrieval in a
place where no retrieval may start. -/
theorem refused_keeps_state_iff (hencode : ∀ e, (codec.toVec e).isSome = true) {record : RunRecord}
    {events : List AgentEvent} (hs : (initial record).replay codec events = .ok s) :
    (∀ err t, InPlace.apply codec e s = .error err t → t = s) ↔ ¬ RestartsElsewhere s e := by
  constructor
  · intro h hrestart
    obtain ⟨id, p, hpending, -⟩ := hrestart.restart
    have hkept := congrArg pendingKnowledgeRetrieval (h _ _ (hrestart.drops codec))
    rw [hpending] at hkept
    cases hkept
  · exact fun hnot => apply_cleanAt hencode (replay_pending_wellFormed hs) hnot

/-- A retrieval in the loop's retrieve phase, which fails while the retrieval is pending. -/
def abandonedLog : List AgentEvent :=
  sampleLog
    [ .runStarted 1000,
      .loop (.iterationStarted 1 1 4),
      .loop (.phaseEntered 1 .observe),
      .loop (.phaseCompleted 1 .observe),
      .loop (.phaseEntered 1 .retrieve),
      .knowledgeRetrievalStarted ⟨20⟩ (.single .standardsMcp) 5 12,
      .loop (.loopFailed 1 .internal) ]

/-- Another start in the same phase. -/
def secondStart : AgentEvent := .new ⟨1⟩ 6 (.knowledgeRetrievalStarted ⟨21⟩ (.single .standardsMcp) 5 12)

/-- A second start beside a pending retrieval is refused without a trace. -/
theorem second_start_leaves_no_trace :
    ∃ s err t, (initial (sampleRecord (.restartable 1))).replay plainCodec (abandonedLog.take 6) = .ok s ∧
      s.pendingKnowledgeRetrieval = some ⟨⟨20⟩, .single .standardsMcp, 5, 12⟩ ∧
      InPlace.apply plainCodec secondStart s = .error err t ∧ t = s := by
  obtain ⟨s, hs⟩ : ∃ s, (initial (sampleRecord (.restartable 1))).replay plainCodec
      (abandonedLog.take 6) = .ok s := ⟨_, rfl⟩
  have hpending : s.pendingKnowledgeRetrieval = some ⟨⟨20⟩, .single .standardsMcp, 5, 12⟩ := by
    cases hs
    rfl
  obtain ⟨t, hrefused⟩ : ∃ t, InPlace.apply plainCodec secondStart s = .error .effect t := by
    cases hs
    exact ⟨_, rfl⟩
  refine ⟨s, _, t, hs, hpending, hrefused, (refused_keeps_state_iff (fun _ => rfl) hs).mpr ?_ _ _ hrefused⟩
  intro hrestart
  obtain ⟨id, p, -, hkind⟩ := hrestart.restart
  cases hkind

/-- The retrieval of the abandoned phase is restarted. -/
def lateRestart : AgentEvent :=
  .new ⟨1⟩ 7 (.knowledgeRetrievalRestarted ⟨20⟩ ⟨21⟩ (.single .standardsMcp) 5 12)

/-- **The restart is refused, and the pending retrieval is gone.** -/
theorem late_restart_drops_retrieval :
    ∃ s err t, (initial (sampleRecord (.restartable 1))).replay plainCodec abandonedLog = .ok s ∧
      InPlace.apply plainCodec lateRestart s = .error err t ∧
      s.pendingKnowledgeRetrieval = some ⟨⟨20⟩, .single .standardsMcp, 5, 12⟩ ∧
      t.pendingKnowledgeRetrieval = none := by
  obtain ⟨s, hs⟩ : ∃ s, (initial (sampleRecord (.restartable 1))).replay plainCodec abandonedLog = .ok s :=
    ⟨_, rfl⟩
  refine ⟨s, .effect, { s with pendingKnowledgeRetrieval := none }, hs, ?_⟩
  cases hs
  exact ⟨rfl, rfl, rfl⟩

end DurableRunState
end LocalAgent
