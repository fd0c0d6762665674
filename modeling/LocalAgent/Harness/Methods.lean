import LocalAgent.Harness.Calls

/-!
# The operations keep to the monitor

One rule for each operation of `Operations.lean`, in its order. Every rule starts from a context at
rest and ends in one at rest; in between the guarded helpers carry the proof.
-/
namespace LocalAgent

open Program

variable {lib : Library} {c c' : RunContext} {v v' : View lib} {cmd : Command lib}

/-! ## Facts -/

theorem View.Settled.kept {e : AgentEvent} (h : v.Settled e) (hkept : Kept c v c' v') :
    v'.Settled e := by
  refine ⟨hkept.facts _ h.1, fun hp => hkept.facts _ (h.2 ?_)⟩
  rw [← hkept.persistent]
  exact hp

/-- Asking the policy only adds its answer to the facts. -/
theorem authorize_observed (c : RunContext) (v : View lib) (capability : CapabilityKind)
    (decision : AuthorizationDecision) :
    Kept c v c (v.observe (.authorize capability) decision) ∧
      SameLog v (v.observe (.authorize capability) decision) ∧
      .authorized capability decision ∈ (v.observe (.authorize capability) decision).facts := by
  refine ⟨⟨rfl, rfl, rfl, rfl, rfl, id, fun f hf => List.mem_append_left _ hf⟩,
    ⟨id, rfl, rfl, rfl, id, fun _ _ => id⟩, ?_⟩
  exact List.mem_append_right _ (List.mem_singleton.mpr rfl)

/-! ## Models -/

theorem bindGrounding_does {id : ModelCallId} {grounding : Option GroundingBinding}
    (hd : During cmd v) (hl : Live c v) :
    Does (bindGrounding lib cmd.harness id grounding) c v (fun _ c' v' => Live c' v' ∧
      Kept c v c' v' ∧ (cmd.harness.persistence = true → v'.armed = v.armed)) := by
  cases grounding with
  | none => exact Does.pure ⟨hl, Kept.refl, fun _ => rfl⟩
  | some g =>
    refine (record_does hd hl rfl (.uncounted rfl) (by nofun) (by nofun)).mono ?_
    intro _ c' v' h
    exact ⟨h.live, h.kept, h.armed⟩

theorem invokeModelInternal_does {request : ModelRequest} {grounding : Option GroundingBinding}
    (hd : During cmd v) (h : Rest c v) :
    Does (invokeModelInternal lib cmd.harness request grounding) c v (fun _ => Rest) := by
  refine Does.bind (preflight_does hd h) ?_
  rintro _ c v ⟨rfl, rfl, hl⟩
  refine Does.bind (reserveUnit_does hd hl fun c' hc => RunContext.reserveModelCall_ok hc) ?_
  rintro _ c₁ v ⟨rfl, hreserved, hl₁⟩
  have hres := RunContext.reserveModelCall_ok hreserved
  refine Does.askQuiet rfl fun id => Does.look ?_
  refine Does.bind (record_does hd hl₁ rfl (hres.affords hl rfl) nofun nofun) ?_
  intro _ c₂ v₂ hrec
  have hd₂ := hrec.kept.during hd
  refine Does.bind (bindGrounding_does hd₂ hrec.live) ?_
  rintro _ c₃ v₃ ⟨hl₃, hkept₃, harmed₃⟩
  have hd₃ := hkept₃.during hd₂
  have harmed : v₃.persistent = true → v₃.armed = some (c₃.runId, .model ⟨id⟩) := by
    intro hp
    rw [hd₃.persistent] at hp
    rw [harmed₃ hp, hrec.armed hp, hkept₃.runId, hrec.kept.runId]
    rfl
  refine Does.attempt (invokeModelPort_wp hd₃ hl₃ harmed) ?_
  rintro x c₄ v₄ ⟨a, w, hcalled, hdone⟩
  have hlw := hl₃.view hcalled.sameLog
  have hdw := hcalled.during hd₃
  cases x with
  | ok response =>
    obtain ⟨-, rfl, rfl⟩ := hdone
    refine Does.bind (record_does hdw hlw rfl (.uncounted rfl) ?_ nofun) ?_
    · rintro key ⟨⟩
      exact hcalled.called
    · intro _ c₅ v₅ hrec'
      exact Does.pure hrec'.live.rest
  | error err =>
    rcases hdone with ⟨⟨error, rfl⟩, rfl, rfl⟩ | ⟨hcut, -, ht⟩
    · refine Does.bind (record_does hdw hlw rfl (.uncounted rfl) ?_ nofun) ?_
      · rintro key ⟨⟩
        exact hcalled.called
      · intro _ c₅ v₅ hrec'
        exact Does.fail hrec'.live.rest
    · rcases hcut with rfl | rfl <;> exact Does.fail (Ended.rest (.inr ht.finished))

theorem invokeGroundedModel_does {retrieval : CompletedKnowledgeRetrieval}
    {request : GroundedModelRequest} (hd : During cmd v) (h : Rest c v) :
    Does (invokeGroundedModel lib cmd.harness retrieval request) c v (fun _ => Rest) := by
  unfold invokeGroundedModel
  split_ifs with hmismatch
  · exact Does.fail h
  · exact invokeModelInternal_does hd h

/-! ## Knowledge -/

theorem retrievalEvent_ok {pending : Option PendingKnowledgeRetrieval} {id : KnowledgeRetrievalId}
    {request : KnowledgeRequest} {kind : AgentEventKind}
    (h : retrievalEvent pending id request = .ok kind) :
    kind.opens = some (.knowledge id) ∧ kind.closes = none ∧ kind.isRunFinished = false ∧
      kind.counts = none ∧ kind.restricted = none := by
  unfold retrievalEvent at h
  cases pending with
  | none =>
    cases h
    exact ⟨rfl, rfl, rfl, rfl, rfl⟩
  | some previous =>
    dsimp only at h
    split at h
    · cases h
    · cases h
      exact ⟨rfl, rfl, rfl, rfl, rfl⟩

theorem retrievalCompleted_ok {id : KnowledgeRetrievalId} {evidence : EvidenceSet}
    {kind : AgentEventKind} (h : retrievalCompleted id evidence = .ok kind) :
    kind.closes = some (.knowledge id) ∧ kind.restricted = none ∧ kind.isRunFinished = false ∧
      kind.counts = none := by
  unfold retrievalCompleted at h
  split at h
  · cases h
  · split at h
    · cases h
    · cases h
      exact ⟨rfl, rfl, rfl, rfl⟩

/-- The end of an interrupted retrieval is recorded while the run is still open; its audit may
leave the context degraded without an event. -/
theorem interruptRetrieval_does {α : Type} {id : KnowledgeRetrievalId} {kind : KnowledgeFailureKind}
    {terminal : SafetyTerminalization} {error : HarnessError}
    {Q : α → RunContext → View lib → Prop} (hd : During cmd v) (hl : Live c v)
    (hcalled : v.called = some (.knowledge id)) :
    Does (interruptRetrieval lib cmd.harness id kind terminal error) c v Q := by
  have hrecord : Does (recordKnowledgeInterruption lib cmd.harness id kind) c v
      (fun _ c' v' => Live c' v' ∧ During cmd v') := by
    refine Task.wp_bind.mpr (nextEvent_wp ?_ ?_)
    · intro e c₁ he
      obtain ⟨hkind, -, hkept, -, -⟩ := RunContext.nextEvent_kept (v := v) he
      have ha := hl.taken (.uncounted rfl) he
      have hs : Sendable e c₁ v := by
        refine ha.sendable fun key hkey => ?_
        rw [hkind] at hkey
        rw [hcalled, ← hkey]
        rfl
      have hpersist := persistTransition_wp hd hs (fun id hid => by rw [hkind] at hid; cases hid)
      refine Task.wp_bind.mpr (Task.wp_mono hpersist ?_)
      intro x c₂ v₂ hx
      cases x with
      | error err =>
        obtain ⟨rfl, -⟩ := hx
        exact Ended.rest (.inl rfl)
      | ok u =>
        obtain ⟨rfl, hw⟩ := hx
        have hl₂ := ha.wrote hd hw (by rw [hkind]; rfl)
        have hd₂ := (hkept.trans hw.kept).during hd
        refine Does.bind (auditWithTimeout_does (by decide)) ?_
        rintro failure c₃ v₃ ⟨rfl, a, rfl, hfailed⟩
        have hl₃ : Live c₃ (v₂.observe (.audit .knowledgeInterruption e) a) :=
          hl₂.view sameLog_audit
        have hkept₃ : Kept c₃ v₂ c₃ (v₂.observe (.audit .knowledgeInterruption e) a) := kept_audit
        have hd₃ := hkept₃.during hd₂
        cases failure with
        | none => exact Does.pure ⟨hl₃, hd₃⟩
        | some err =>
          -- the flag is set without an event: from here on the view is tainted, or the log said it
          refine ⟨⟨hl₃.healthy, hl₃.running, hl₃.clock, hl₃.clean, ?_, hl₃.unfinished,
            hl₃.covered⟩, hd₃⟩
          refine hl₃.tracks.markAuditDegraded fun _ => ?_
          by_cases hsaid : v₂.degraded = true
          · refine .inl ?_
            simp only [View.observe, View.step, hfailed rfl, View.auditRefused]
            exact hsaid
          · exact .inr (by simp [View.observe, View.step, hfailed rfl, View.auditRefused, hsaid])
    · intro err c₁ he
      exact (hl.untaken (.uncounted rfl) he).rest
  refine Does.bind hrecord ?_
  rintro _ c' v' ⟨hl', hd'⟩
  exact terminalize_does hd' hl'

theorem retrieveKnowledge_does {request : KnowledgeRequest} (hd : During cmd v) (h : Rest c v) :
    Does (retrieveKnowledge lib cmd.harness request) c v (fun _ => Rest) := by
  refine Does.bind (preflight_does hd h) ?_
  rintro _ c v ⟨rfl, rfl, hl⟩
  by_cases hport : cmd.harness.knowledge = true
  swap
  · rw [if_neg hport]
    exact Does.fail hl.rest
  rw [if_pos hport]
  refine Does.askQuiet rfl fun id => ?_
  split_ifs with hbytes
  · exact Does.fail hl.rest
  refine Does.look (Does.ofExcept (fun kind hkind => ?_) hl.rest)
  obtain ⟨hopens, hcloses, hfinish, hcounts, hplain⟩ := retrievalEvent_ok hkind
  refine Does.bind (record_does hd hl hfinish (.uncounted hcounts) ?_ ?_) ?_
  · intro key hkey
    rw [hcloses] at hkey
    cases hkey
  · intro x hx
    rw [hplain] at hx
    cases hx
  intro _ c₂ v₂ hrec
  have hd₂ := hrec.kept.during hd
  refine Task.wp_bind.mpr (runtime_wp hrec.live fun r => ?_)
  have harmed : v₂.persistent = true → v₂.armed = some (c.runId, .knowledge ⟨id⟩) := by
    intro hp
    rw [hd₂.persistent] at hp
    rw [hrec.armed hp, hopens]
  refine Does.ask (View.permits_port rfl harmed trivial) fun a => ?_
  have hcalled : Called (.knowledge ⟨id⟩) [] v₂
      (v₂.observe (.knowledgeRetrieve c.runId ⟨id⟩ request) a) := View.observe_port rfl a
  have hl₃ := hrec.live.view hcalled.sameLog
  have hd₃ := hcalled.during hd₂
  cases a with
  | cancelled => exact interruptRetrieval_does hd₃ hl₃ hcalled.called
  | deadlineExceeded => exact interruptRetrieval_does hd₃ hl₃ hcalled.called
  | ready result =>
    cases result with
    | error err =>
      refine Does.bind (record_does hd₃ hl₃ rfl (.uncounted rfl) ?_ nofun) ?_
      · rintro key ⟨⟩
        exact hcalled.called
      · intro _ c₄ v₄ hrec'
        exact Does.fail hrec'.live.rest
    | ok evidence =>
      refine Does.ofExcept (fun kind hkind => ?_) hl₃.rest
      obtain ⟨hcloses, hplain, hfinish, hcounts⟩ := retrievalCompleted_ok hkind
      refine Does.bind (record_does hd₃ hl₃ hfinish (.uncounted hcounts) ?_ ?_) ?_
      · intro key hkey
        rw [hcloses] at hkey
        cases hkey
        exact hcalled.called
      · intro x hx
        rw [hplain] at hx
        cases hx
      · intro _ c₄ v₄ hrec'
        exact Does.pure hrec'.live.rest

/-! ## Actions -/

theorem prepareAction_does {invocation : CompletedModelInvocation} (hd : During cmd v)
    (h : Rest c v) : Does (prepareAction lib cmd.harness invocation) c v (fun _ => Rest) := by
  have hrejected : ∀ {c v}, During cmd v → Live c v → ∀ id reason,
      Does (do
        recordActionRejected lib cmd.harness invocation.modelCallId id reason
        pure (.error reason)) c v
        (fun (_ : Except ActionRejectionReason (ValidatedAction lib)) => Rest) := by
    intro c v hd hl id reason
    refine Does.bind (record_does hd hl rfl (.uncounted rfl) nofun nofun) ?_
    intro _ c' v' hrec
    exact Does.pure hrec.live.rest
  refine Does.bind (preflight_does hd h) ?_
  rintro _ c v ⟨rfl, rfl, hl⟩
  refine Does.askQuiet rfl fun id => ?_
  cases lib.decode invocation.response with
  | error reason => exact hrejected hd hl _ _
  | ok proposal =>
    refine Does.bind (record_does hd hl rfl (.uncounted rfl) nofun nofun) ?_
    intro _ c₁ v₁ hrec
    have hd₁ := hrec.kept.during hd
    split
    · exact hrejected hd₁ hrec.live _ _
    · refine Does.bind (record_does hd₁ hrec.live rfl (.uncounted rfl) nofun nofun) ?_
      intro _ c₂ v₂ hrec'
      exact Does.pure hrec'.live.rest

/-! ## Tools -/

/-- The start of a tool is announced. -/
theorem reserveAndRecordToolStarted_does {id : ToolCallId} {name : ToolName}
    {capability : CapabilityKind} {operation : HarnessOperation} {mode : ToolAudit}
    (hd : During cmd v) (hl : Live c v) (hstarts : View.startsTools cmd.operation = true) :
    Does (reserveAndRecordToolStarted lib cmd.harness id name capability operation mode) c v
      (fun _ c' v' => Live c' v' ∧ Kept c v c' v' ∧ (v'.volatile = false → v'.current = true) ∧
        (v'.persistent = true → v'.armed = some (c'.runId, .tool id)) ∧
        (mode = .required → ∃ e : AgentEvent, e.kind.opens = some (.tool id) ∧ v'.Settled e)) := by
  refine Does.bind (reserveUnit_does hd hl fun c' hc => RunContext.reserveToolCall_ok hc) ?_
  rintro _ c₁ v ⟨rfl, hreserved, hl₁⟩
  have hres := RunContext.reserveToolCall_ok hreserved
  refine Does.look ?_
  refine (recordTool_does hd hl₁ rfl (hres.affords hl rfl) (by nofun)
    (by rintro x ⟨⟩; exact hstarts)).mono ?_
  intro _ c₂ v₂ hrec
  have hd₂ := hrec.kept.during hd
  refine ⟨hrec.live, hres.kept.trans hrec.kept, fun hv => hrec.current ?_, fun hp => ?_,
    fun hmode => ?_⟩
  · by_contra hp
    rw [hd₂.volatile (Bool.eq_false_iff.mpr hp)] at hv
    cases hv
  · rw [hd₂.persistent] at hp
    rw [hrec.armed hp, hrec.kept.runId]
    rfl
  · obtain ⟨-, e, hkind, hsettled⟩ := hrec.settled (by rw [hmode]; rfl)
    exact ⟨e, by rw [hkind]; rfl, hsettled⟩

/-- A tool that only reads. -/
theorem invokeBoundTool_does {binding : ExecutionBinding} {call : ToolCall} {name : ToolName}
    {capability : CapabilityKind} {registered : ToolBinding} (hd : During cmd v) (hl : Live c v)
    (hstarts : View.startsTools cmd.operation = true)
    (hget : cmd.harness.tools.get call.name = some registered)
    (hread : registered.definition.capability = .readOnly) :
    Does (invokeBoundTool lib cmd.harness binding call name capability) c v (fun _ => Rest) := by
  refine Does.bind (reserveAndRecordToolStarted_does hd hl hstarts) ?_
  rintro _ c₁ v₁ ⟨hl₁, hkept, hcurrent, harmed, -⟩
  have hd₁ := hkept.during hd
  have hdispatch : ∀ contained, v₁.Dispatches call contained :=
    fun _ => ⟨cmd, registered, hd₁.command, hget, .inl hread⟩
  refine Does.attempt (invokeBoundPort_wp hd₁ hl₁ hcurrent harmed hdispatch) ?_
  intro x c₂ v₂ hdone
  refine (finishToolInvocation_does hdone).mono ?_
  intro _ c₃ v₃ h
  exact h.1.rest

theorem denyTool_does {α : Type} {id : ToolCallId} {name : ToolName} {capability : CapabilityKind}
    {operation : HarnessOperation} {error : HarnessError} {Q : α → RunContext → View lib → Prop}
    (hd : During cmd v) (hl : Live c v) :
    Does (denyTool lib cmd.harness id name capability operation error) c v Q := by
  refine Does.bind (record_does hd hl rfl (.uncounted rfl) nofun nofun) ?_
  intro _ c' v' hrec
  exact Does.fail hrec.live.rest

theorem invokeTool_does {call : ToolCall} (hd : During cmd v) (h : Rest c v)
    (hstarts : View.startsTools cmd.operation = true) :
    Does (invokeTool lib cmd.harness call) c v (fun _ => Rest) := by
  refine Does.bind (preflight_does hd h) ?_
  rintro _ c v ⟨rfl, rfl, hl⟩
  cases hget : cmd.harness.tools.get call.name with
  | none => exact Does.fail hl.rest
  | some binding =>
    refine Does.ask (View.permits_of_unrecorded rfl rfl trivial) fun decision => ?_
    obtain ⟨hkept, hsame, -⟩ := authorize_observed c v binding.definition.capability decision
    have hl₁ := hl.view hsame
    have hd₁ := hkept.during hd
    unfold dispatchTool
    cases decision with
    | requiresApproval => exact denyTool_does hd₁ hl₁
    | denied denial => exact denyTool_does hd₁ hl₁
    | allowed =>
      cases hcapability : binding.definition.capability with
      | readOnly =>
        rw [hcapability] at hd₁ hl₁
        exact invokeBoundTool_does hd₁ hl₁ hstarts hget hcapability
      | localWrite | externalWrite | privileged =>
        rw [hcapability] at hd₁ hl₁
        exact denyTool_does hd₁ hl₁

/-! ## Approved writes -/

theorem failApproval_does {α : Type} {id : ApprovalRequestId} {kind : ApprovalFailureKind}
    {error : HarnessError} {Q : α → RunContext → View lib → Prop} (hd : During cmd v)
    (hl : Live c v) (hcalled : v.called = some (.approval id)) :
    Does (failApproval lib cmd.harness id kind error) c v Q := by
  refine Does.bind (recordRequired_does hd hl rfl (.uncounted rfl) ?_ nofun) ?_
  · rintro key ⟨⟩
    exact hcalled
  · intro _ c' v' hrec
    exact Does.fail hrec.live.rest

/-- The start of a contained tool that was approved in this operation. -/
theorem startApproved_does {call : ToolCall} {info : ApprovedLocalWriteMeta} {binding : ToolBinding}
    (hd : During cmd v) (hl : Live c v) (hstarts : View.startsTools cmd.operation = true)
    (hop : ∀ call, cmd.operation ≠ .invokeTool call)
    (hget : cmd.harness.tools.get call.name = some binding)
    (hwrite : binding.definition.capability = .localWrite) (hcontained : binding.execution = .contained)
    (hauthorized : .authorized .localWrite .requiresApproval ∈ v.facts)
    (hgranted : v.GrantedHere call) :
    Does (do
      reserveAndRecordToolStarted lib cmd.harness call.id info.toolName info.capability .invokeTool
        .required
      let result ← (invokeContainedToolPort lib cmd.harness call).attempt
      finishToolInvocation lib cmd.harness call.id .invokeTool result .required) c v
      (fun _ => Rest) := by
  refine Does.bind (reserveAndRecordToolStarted_does hd hl hstarts) ?_
  rintro _ c₁ v₁ ⟨hl₁, hkept, hcurrent, harmed, hstarted⟩
  have hd₁ := hkept.during hd
  have hgranted₁ : v₁.GrantedHere call := by
    obtain ⟨request, decision, grant, hdecided, hout, hid, hdigest, haction, htool, hkind, hset⟩ :=
      hgranted
    exact ⟨request, decision, grant, hkept.facts _ hdecided, hout, hid, hdigest, haction, htool,
      hkind, hset.kept hkept⟩
  have hgoverned : v₁.Governed call :=
    ⟨hkept.facts _ hauthorized, .inl hgranted₁, hstarted rfl⟩
  have hdispatch : v₁.Dispatches call true :=
    ⟨cmd, binding, hd₁.command, hget, .inr ⟨hwrite, rfl, hcontained, hop, hgoverned⟩⟩
  refine Does.attempt (invokeContainedToolPort_wp hd₁ hl₁ hcurrent harmed hdispatch) ?_
  intro x c₂ v₂ hdone
  refine (finishToolInvocation_does hdone).mono ?_
  intro _ c₃ v₃ h
  exact h.1.rest

/-- What has been decided for a call: the request carries the digest of its arguments, and it was
made while the audit was intact. -/
structure Decided (call : ToolCall) (info : ApprovedLocalWriteMeta) (request : ApprovalRequest)
    (decision : ApprovalDecision) (v : View lib) : Prop where
  fact : .decided request false decision ∈ v.facts
  digest : request.actionDigest = info.actionDigest
  action : info.actionDigest = lib.computeActionDigest call.name .localWrite call.input
  tool : request.toolCallId = call.id
  called : v.called = some (.approval request.id)

theorem applyDecision_does {call : ToolCall} {info : ApprovedLocalWriteMeta}
    {request : ApprovalRequest} {decision : ApprovalDecision} {binding : ToolBinding}
    (hd : During cmd v) (hl : Live c v) (hstarts : View.startsTools cmd.operation = true)
    (hop : ∀ call, cmd.operation ≠ .invokeTool call)
    (hget : cmd.harness.tools.get call.name = some binding)
    (hwrite : binding.definition.capability = .localWrite) (hcontained : binding.execution = .contained)
    (hauthorized : .authorized .localWrite .requiresApproval ∈ v.facts)
    (hdecided : Decided call info request decision v) :
    Does (applyDecision lib cmd.harness call info request.id decision) c v (fun _ => Rest) := by
  refine Does.bind (preflight_does hd hl.rest) ?_
  rintro _ c v ⟨rfl, rfl, -⟩
  split_ifs with hmismatch
  · exact failApproval_does hd hl hdecided.called
  simp only [ne_eq, Bool.or_eq_true, decide_eq_true_eq, not_or, not_not] at hmismatch
  obtain ⟨hid, hdigest⟩ := hmismatch
  cases houtcome : decision.outcome with
  | denied =>
    refine Does.bind (recordRequired_does hd hl rfl (.uncounted rfl) ?_ nofun) ?_
    · rintro key ⟨⟩
      exact hdecided.called
    · intro _ c' v' hrec
      exact Does.fail hrec.live.rest
  | granted =>
    refine Does.bind (recordRequired_does hd hl rfl (.uncounted rfl) ?_ nofun) ?_
    · rintro key ⟨⟩
      exact hdecided.called
    intro _ c₁ v₁ hrec
    have hd₁ := hrec.kept.during hd
    obtain ⟨-, grant, hgrant, hsettled⟩ := hrec.settled rfl
    refine Does.bind (preflight_does hd₁ hrec.live.rest) ?_
    rintro _ c₁ v₁ ⟨rfl, rfl, hl₁⟩
    refine startApproved_does hd₁ hl₁ hstarts hop hget hwrite hcontained
      (hrec.kept.facts _ hauthorized) ?_
    exact ⟨request, decision, grant, hrec.kept.facts _ hdecided.fact, houtcome, hid,
      hdigest.trans hdecided.digest.symm, hdecided.digest.trans hdecided.action, hdecided.tool,
      hgrant, hsettled⟩

theorem invokeApprovedLocalWrite_does {call : ToolCall} {info : ApprovedLocalWriteMeta}
    {binding : ToolBinding} (hd : During cmd v) (hl : Live c v)
    (hstarts : View.startsTools cmd.operation = true)
    (hop : ∀ call, cmd.operation ≠ .invokeTool call)
    (hget : cmd.harness.tools.get call.name = some binding)
    (hwrite : binding.definition.capability = .localWrite) (hcontained : binding.execution = .contained)
    (hauthorized : .authorized .localWrite .requiresApproval ∈ v.facts)
    (haction : info.actionDigest = lib.computeActionDigest call.name .localWrite call.input)
    (hintact : c.auditDegraded = false) :
    Does (invokeApprovedLocalWrite lib cmd.harness call info) c v (fun _ => Rest) := by
  refine Does.askQuiet rfl fun preview => ?_
  cases preview with
  | error err =>
    refine Does.bind (recordRequired_does hd hl rfl (.uncounted rfl) nofun nofun) ?_
    intro _ c' v' hrec
    exact Does.fail hrec.live.rest
  | ok preview =>
    refine Does.bind (preflight_does hd hl.rest) ?_
    rintro _ c v ⟨rfl, rfl, -⟩
    by_cases hport : cmd.harness.approval = true
    swap
    · rw [if_neg hport]
      exact Does.fail hl.rest
    rw [if_pos hport]
    refine Does.askQuiet rfl fun id => ?_
    refine Does.bind (reserveUnit_does hd hl
      fun c' hc => RunContext.reserveApprovalRequest_ok hc) ?_
    rintro _ c₁ v ⟨rfl, hreserved, hl₁⟩
    have hres := RunContext.reserveApprovalRequest_ok hreserved
    refine Does.look ?_
    refine Does.bind (recordRequired_does hd hl₁ rfl (hres.affords hl rfl) nofun nofun) ?_
    intro _ c₂ v₂ hrec
    have hd₂ := hrec.kept.during hd
    have hintact₂ : c₂.auditDegraded = false :=
      (hrec.settled rfl).1.trans (hres.auditDegraded.trans hintact)
    have harmed : v₂.persistent = true → v₂.armed = some (c₂.runId, .approval ⟨id⟩) := by
      intro hp
      rw [hd₂.persistent] at hp
      rw [hrec.armed hp, hrec.kept.runId]
      rfl
    refine Does.attempt (awaitApproval_wp hd₂ hrec.live harmed) ?_
    rintro x c₃ v₃ ⟨a, w, hcalled, hdone⟩
    have hlw := hrec.live.view hcalled.sameLog
    have hdw := hcalled.during hd₂
    cases x with
    | ok decision =>
      obtain ⟨rfl, rfl, rfl⟩ := hdone
      refine applyDecision_does hdw hlw hstarts hop hget hwrite hcontained ?_
        ⟨?_, rfl, haction, rfl, hcalled.called⟩
      · rw [hcalled.facts]
        exact List.mem_append_left _ (hrec.kept.facts _ hauthorized)
      · rw [hcalled.facts, hintact₂]
        exact List.mem_append_right _ (List.mem_singleton.mpr rfl)
    | error err =>
      rcases hdone with ⟨⟨error, rfl⟩, rfl, rfl⟩ | ⟨hcut, -, ht⟩
      · exact failApproval_does hdw hlw hcalled.called
      · rcases hcut with rfl | rfl <;> exact Does.fail (Ended.rest (.inr ht.finished))

theorem dispatchAction_does {action : ValidatedAction lib} {id : ToolCallId} {binding : ToolBinding}
    {decision : AuthorizationDecision} (hd : During cmd v) (hl : Live c v)
    (hstarts : View.startsTools cmd.operation = true)
    (hop : ∀ call, cmd.operation ≠ .invokeTool call)
    (hget : cmd.harness.tools.get action.toolName = some binding)
    (hcapability : binding.definition.capability = action.capability)
    (hauthorized : .authorized action.capability decision ∈ v.facts) :
    Does (dispatchAction lib cmd.harness action id binding.execution decision) c v
      (fun _ => Rest) := by
  unfold dispatchAction
  cases hkind : action.capability with
  | externalWrite | privileged => exact denyTool_does hd hl
  | readOnly =>
    rw [hkind] at hcapability
    cases decision with
    | allowed => exact invokeBoundTool_does hd hl hstarts hget hcapability
    | requiresApproval | denied => exact denyTool_does hd hl
  | localWrite =>
    rw [hkind] at hcapability hauthorized
    cases decision with
    | allowed | denied => exact denyTool_does hd hl
    | requiresApproval =>
      cases hexecution : binding.execution with
      | direct | managedDirect =>
        refine Does.bind (recordRequired_does hd hl rfl (.uncounted rfl) nofun nofun) ?_
        intro _ c' v' hrec
        exact Does.fail hrec.live.rest
      | contained =>
        refine Does.look ?_
        by_cases hdegraded : c.auditDegraded = true
        · rw [if_pos hdegraded]
          exact Does.fail hl.rest
        · rw [if_neg hdegraded]
          refine invokeApprovedLocalWrite_does hd hl hstarts hop hget hcapability hexecution
            hauthorized ?_ (Bool.eq_false_iff.mpr hdegraded)
          rw [← hkind]
          exact action.digest_eq

theorem invokeValidatedAction_does {action : ValidatedAction lib} (hd : During cmd v)
    (h : Rest c v) (hstarts : View.startsTools cmd.operation = true)
    (hop : ∀ call, cmd.operation ≠ .invokeTool call) :
    Does (invokeValidatedAction lib cmd.harness action) c v (fun _ => Rest) := by
  refine Does.bind (preflight_does hd h) ?_
  rintro _ c v ⟨rfl, rfl, hl⟩
  refine Does.askQuiet rfl fun id => ?_
  cases hget : cmd.harness.tools.get action.toolName with
  | none => exact Does.fail hl.rest
  | some binding =>
    by_cases hcapability : binding.definition.capability = action.capability
    swap
    · simp only [ne_eq, hcapability, not_false_iff, if_true]
      exact Does.fail hl.rest
    simp only [ne_eq, hcapability, not_true_eq_false, if_false]
    refine Does.bind (recordTool_does hd hl rfl (.uncounted rfl) nofun nofun) ?_
    intro _ c₁ v₁ hrec
    refine Does.ask (View.permits_of_unrecorded rfl rfl trivial) fun decision => ?_
    obtain ⟨hkept, hsame, hfact⟩ := authorize_observed c₁ v₁ action.capability decision
    exact dispatchAction_does (hkept.during (hrec.kept.during hd)) (hrec.live.view hsame) hstarts hop
      hget hcapability hfact

/-! ## Loop and graph -/

theorem beginIteration_does (hd : During cmd v) (h : Rest c v) :
    Does (beginIteration lib cmd.harness) c v (fun _ => Rest) := by
  refine Does.bind (preflight_does hd h) ?_
  rintro _ c v ⟨rfl, rfl, hl⟩
  refine Does.bind (reserve_does hd hl fun n c' hc => (RunContext.reserveIteration_ok hc).1) ?_
  rintro n c₁ v ⟨rfl, hreserved, hl₁⟩
  obtain ⟨hres, rfl⟩ := RunContext.reserveIteration_ok hreserved
  refine Does.look (Does.bind (record_does hd hl₁ rfl (hres.affords hl rfl) nofun nofun) ?_)
  intro _ c₂ v₂ hrec
  exact Does.pure hrec.live.rest

/-- Pass `preflight` and record one event that opens and closes nothing. -/
theorem preflightRecord_does {operation : HarnessOperation} {phase : AuditPhase}
    {effect : OperationEffect} {kind : AgentEventKind} (hd : During cmd v) (h : Rest c v)
    (hfinish : kind.isRunFinished = false) (hcounts : kind.counts = none)
    (hcloses : kind.closes = none) (hplain : kind.restricted = none) :
    Does (do
      preflight lib cmd.harness operation
      record lib cmd.harness kind operation phase effect) c v (fun _ => Rest) := by
  refine Does.bind (preflight_does hd h) ?_
  rintro _ c v ⟨rfl, rfl, hl⟩
  refine (record_does hd hl hfinish (.uncounted hcounts) ?_ ?_).mono ?_
  · intro key hkey
    rw [hcloses] at hkey
    cases hkey
  · intro x hx
    rw [hplain] at hx
    cases hx
  · intro _ c' v' hrec
    exact hrec.live.rest

theorem recordLoopProgress_does {progress : LoopProgressEvent} (hd : During cmd v) (h : Rest c v) :
    Does (recordLoopProgress lib cmd.harness progress) c v (fun _ => Rest) := by
  refine preflightRecord_does hd h rfl ?_ rfl rfl
  cases progress <;> rfl

/-- `enter_graph_node` and `restart_graph_node` differ in the event. -/
theorem enterNode_does {k : GraphNodeAttemptId → Nat → Nat → AgentEventKind}
    (hd : During cmd v) (h : Rest c v) (hfinish : ∀ id n m, (k id n m).isRunFinished = false)
    (hcounts : ∀ id n m, (k id n m).counts = some (.graphSteps, n, m))
    (hcloses : ∀ id n m, (k id n m).closes = none)
    (hplain : ∀ id n m, (k id n m).restricted = none) :
    Does (do
      preflight lib cmd.harness .enterGraphNode
      let step ← reserve lib cmd.harness RunContext.reserveGraphStep
      let id ← ask .freshUuid
      let c ← Task.look
      record lib cmd.harness (k ⟨id⟩ step c.budget.maxGraphSteps) .enterGraphNode .lifecycle
        .stateCommitted
      pure (⟨id⟩ : GraphNodeAttemptId)) c v (fun _ => Rest) := by
  refine Does.bind (preflight_does hd h) ?_
  rintro _ c v ⟨rfl, rfl, hl⟩
  refine Does.bind (reserve_does hd hl fun n c' hc => (RunContext.reserveGraphStep_ok hc).1) ?_
  rintro n c₁ v ⟨rfl, hreserved, hl₁⟩
  obtain ⟨hres, rfl⟩ := RunContext.reserveGraphStep_ok hreserved
  refine Does.askQuiet rfl fun id => Does.look ?_
  refine Does.bind (record_does hd hl₁ (hfinish _ _ _) (hres.affords hl (hcounts _ _ _)) ?_ ?_) ?_
  · intro key hkey
    rw [hcloses] at hkey
    cases hkey
  · intro x hx
    rw [hplain] at hx
    cases hx
  · intro _ c₂ v₂ hrec
    exact Does.pure hrec.live.rest

theorem enterGraphNode_does {node : GraphNodeId} {kind : GraphNodeKind}
    {recovery : GraphRecoveryMode} (hd : During cmd v) (h : Rest c v) :
    Does (enterGraphNode lib cmd.harness node kind recovery) c v (fun _ => Rest) :=
  enterNode_does hd h (k := fun id n m => .graph (.graphNodeEntered id node kind recovery n m))
    (fun _ _ _ => rfl) (fun _ _ _ => rfl) (fun _ _ _ => rfl) (fun _ _ _ => rfl)

theorem restartGraphNode_does {previous : Option GraphNodeAttemptId} {node : GraphNodeId}
    {kind : GraphNodeKind} {recovery : GraphRecoveryMode} (hd : During cmd v) (h : Rest c v) :
    Does (restartGraphNode lib cmd.harness previous node kind recovery) c v (fun _ => Rest) :=
  enterNode_does hd h
    (k := fun id n m => .graph (.graphNodeRestarted previous id node kind recovery n m))
    (fun _ _ _ => rfl) (fun _ _ _ => rfl) (fun _ _ _ => rfl) (fun _ _ _ => rfl)

/-! ## Ending a run -/

theorem commitFinished_does {outcome : RunOutcome} (hl : Live c v) :
    Does (commitFinished outcome) c v
      (fun _ c' v' => c' = { c with status := .finished outcome } ∧ v' = v) := by
  unfold commitFinished
  refine Does.look ?_
  simp only [RunContext.commitFinished, hl.running, RunStatus.finish]
  exact ⟨rfl, rfl⟩

/-- The end of a run is in the log and its audit failed: `AuditDegraded` may follow if the policy
is to go on. -/
theorem mayFollow_audit {e : AgentEvent} {site : AuditSite} {a : Answer (.audit site e)}
    (hd : During cmd v) (hu : Unfinished v) (hw : Wrote cmd e v v')
    (hpolicy : cmd.harness.auditFailurePolicy = .failOpen)
    (hsite : site = .lifecycle ∨ site = .bounded) (hfailed : auditFailed site a = true) :
    MayFollow (v'.observe (.audit site e) a) := by
  have hopen : v'.failOpen = true := by simp [View.failOpen, (hw.during hd).command, hpolicy]
  intro hv _ k hk hany
  by_cases hkind : e.kind.isRunFinished = true
  · refine .inr ?_
    rcases hsite with rfl | rfl <;>
      simp [View.observe, View.step, hfailed, View.auditRefused, hopen, hkind]
  · have hu' := hw.unfinished hu (Bool.eq_false_iff.mpr hkind)
    have hsame : SameLog v' (v'.observe (.audit site e) a) := sameLog_audit
    rw [hu' (hsame.volatile hv) k (hsame.run.symm.trans hk)] at hany
    cases hany

/-- After the end of a run an audit failure can only degrade the audit. -/
theorem applyAuditFailure_ended {operation : HarnessOperation} {phase : AuditPhase}
    {effect : OperationEffect} {kind : AuditPortError} (hd : During cmd v)
    (hended : c.status.isFinished = true) (ht : Tracks c v)
    (hclean : v.volatile = false → v.refused = false)
    (hfollow : cmd.harness.auditFailurePolicy = .failOpen → MayFollow v) :
    Does (applyAuditFailure lib cmd.harness operation phase effect kind) c v (fun _ => Rest) := by
  unfold applyAuditFailure
  cases hpolicy : cmd.harness.auditFailurePolicy with
  | failClosed => exact Does.fail (Ended.rest (.inr hended))
  | failOpen =>
    refine Task.wp_mono (recordAuditDegraded_wp hd ht (hfollow hpolicy) hclean) ?_
    intro x c' v' h
    have hended' : Ended c' := .inr (by rw [h.status]; exact hended)
    cases x <;> exact hended'.rest

theorem finishWith_does {outcome : RunOutcome} {k : RunContext → AgentEventKind}
    {operation : HarnessOperation} (hd : During cmd v) (h : Rest c v)
    (hcounts : ∀ c, (k c).counts = none) (hcloses : ∀ c, (k c).closes = none)
    (hplain : ∀ c, (k c).restricted = none) :
    Does (finishWith lib cmd.harness outcome k operation) c v (fun _ => Rest) := by
  refine Does.bind (preflight_does hd h) ?_
  rintro _ c v ⟨rfl, rfl, hl⟩
  refine Does.bind (commitFinished_does hl) ?_
  rintro _ c₀ v ⟨rfl, rfl⟩
  have ht : Tracks { c with status := .finished outcome } v :=
    hl.tracks.congr rfl rfl rfl ⟨id, rfl, rfl, rfl, id, fun _ _ => id⟩
  refine Does.look (Task.wp_bind.mpr (nextEvent_wp ?_ ?_))
  · intro e c₁ he
    obtain ⟨hkind, -, -, hstatus, -⟩ := RunContext.nextEvent_kept (v := v) he
    have hended : c₁.status.isFinished = true := by rw [hstatus]; rfl
    have hs : Sendable e c₁ v := by
      refine ⟨ht.taken (.uncounted (hcounts _)) he, hl.mayFollow, fun key hkey => ?_⟩
      rw [hkind, hcloses] at hkey
      cases hkey
    have hpersist := persistTransition_wp hd hs fun x hx => by rw [hkind, hplain] at hx; cases hx
    refine Task.wp_bind.mpr (Task.wp_mono hpersist ?_)
    intro x c₂ v₂ hx
    cases x with
    | error err =>
      obtain ⟨rfl, -⟩ := hx
      exact Ended.rest (.inl rfl)
    | ok u =>
      obtain ⟨rfl, hw⟩ := hx
      refine Does.bind (auditWithTimeout_does (by decide)) ?_
      rintro failure c₃ v₃ ⟨rfl, a, rfl, hfailed⟩
      cases failure with
      | none => exact Does.pure (Ended.rest (.inr hended))
      | some err =>
        have hkept : Kept c₃ v₂ c₃ (v₂.observe (.audit .lifecycle e) a) := kept_audit
        have hsame : SameLog v₂ (v₂.observe (.audit .lifecycle e) a) := sameLog_audit
        refine applyAuditFailure_ended (hkept.during (hw.during hd)) hended
          ((hw.tracks hd hs.emitted hl.clean).congr rfl rfl rfl hsame) ?_ ?_
        · intro hv
          rw [hsame.refused]
          exact hw.clean hl.clean (hsame.volatile hv)
        · intro hpolicy
          exact mayFollow_audit hd hl.unfinished hw hpolicy (.inl rfl) (hfailed rfl)
  · intro err c₁ he
    refine Ended.rest (.inr ?_)
    rcases RunContext.nextEvent_error he with ⟨rfl, -⟩ | ⟨e, -, rfl⟩ <;> rfl

theorem cancelRun_does (hd : During cmd v) (h : Rest c v) :
    Does (cancelRun lib cmd.harness) c v (fun _ => Rest) := by
  refine Does.bind (requireStatus_does h) ?_
  rintro _ c v ⟨rfl, rfl, hhealthy, hrunning⟩
  have hl := h.live hhealthy hrunning
  refine Task.wp_bind.mpr (runtime_wp hl fun r => ?_)
  refine Does.bind (commitFinished_does hl) ?_
  rintro _ c₀ v ⟨rfl, rfl⟩
  have ht : Tracks { c with status := .finished .cancelled } v :=
    hl.tracks.congr rfl rfl rfl ⟨id, rfl, rfl, rfl, id, fun _ _ => id⟩
  refine Task.wp_bind.mpr (nextEvent_wp ?_ ?_)
  · intro e c₁ he
    obtain ⟨hkind, -, -, hstatus, -⟩ := RunContext.nextEvent_kept (v := v) he
    have hs : Sendable e c₁ v := by
      refine ⟨ht.taken (.uncounted rfl) he, hl.mayFollow, ?_⟩
      rw [hkind]
      exact nofun
    refine Task.wp_mono (auditTerminalBestEffort_wp hd hs (by rw [hkind]; rfl) (by rw [hkind]; rfl)) ?_
    intro x c₂ v₂ hn
    have hended : Ended c₂ := .inr (by rw [hn.status, hstatus]; rfl)
    rw [hn.ok]
    exact hended.rest
  · intro err c₁ he
    refine Ended.rest (.inr ?_)
    rcases RunContext.nextEvent_error he with ⟨rfl, -⟩ | ⟨e, -, rfl⟩ <;> rfl

/-! ## Starting a run -/

/-- The store holds the run of this context and no event of it. -/
def Opened (c : RunContext) (v : View lib) : Prop :=
  v.volatile = false → v.refused = false ∧ v.startRefused = false ∧ v.current = true ∧
    ∃ record, v.run = some ⟨record, []⟩ ∧ c.key = record.key ∧
      DurableRunState.initial record = DurableRunState.initial c.runRecord

/-- A started context whose first event is not taken yet: the start time is in its state. -/
structure Started (millis : Nat) (c : RunContext) (v : View lib) : Prop where
  healthy : c.persistenceFailed = false
  running : c.status = .running
  clock : c.runtime.isSome = true
  next : c.nextEventSequence = 0
  state : c.durableState = (DurableRunState.initial c.runRecord).setStartedAt millis
  opened : Opened c v

theorem Started.unfinished {millis : Nat} (h : Started millis c v) : Unfinished v := by
  intro hv k hk
  obtain ⟨-, -, -, record, hrun, -⟩ := h.opened hv
  rw [hrun] at hk
  cases hk
  rfl

/-- Nothing was counted yet. -/
theorem Started.covered {millis : Nat} (h : Started millis c v) : Covered c := by
  intro x
  rw [h.state]
  cases x <;> exact Nat.zero_le _

theorem Started.taken {millis : Nat} {e : AgentEvent} (h : Started millis c v)
    (he : c.nextEvent lib.codec (.runStarted millis) = (.ok e, c')) : Announcing e c' v := by
  have hcovered := h.covered.taken (.uncounted rfl) he
  obtain ⟨rfl, hlt, d, hd, rfl⟩ := RunContext.nextEvent_ok he
  refine ⟨h.healthy, h.running, h.clock, fun hv => (h.opened hv).1,
    ⟨fun hv => (h.opened hv).2.1, fun hv => .inl ?_⟩, h.unfinished, hcovered⟩
  obtain ⟨hrefused, -, -, record, hrun, hkey, hinitial⟩ := h.opened hv
  refine ⟨hrefused, ⟨record, []⟩, DurableRunState.initial record, d, hrun, hkey, ?_, h.next, rfl,
    ?_, .uncounted rfl, hlt, .inl rfl⟩
  · simp [h.next]
  · rw [h.state, DurableRunState.apply_setStartedAt rfl rfl, ← hinitial] at hd
    exact hd

theorem Started.untaken {millis : Nat} {err : RunContextError} (h : Started millis c v)
    (he : c.nextEvent lib.codec (.runStarted millis) = (.error err, c')) : Live c' v := by
  have hcovered := h.covered.untaken (.uncounted rfl) he
  rcases RunContext.nextEvent_error he with ⟨-, hlast⟩ | ⟨e, -, rfl⟩
  · rw [h.next] at hlast
    cases hlast
  · refine ⟨h.healthy, h.running, h.clock, fun hv => (h.opened hv).1,
      ⟨fun hv => (h.opened hv).2.1, fun _ => .inl (.inl ?_)⟩, h.unfinished, hcovered⟩
    simp only [DurableRunState.residue_expectedSequence, h.next, h.state]
    exact Nat.zero_lt_one

theorem createRun_does {authorization : Option DurableRunAuthorization} (hd : During cmd v)
    (hf : Fresh c v) :
    Does (createRun cmd.harness authorization) c v
      (fun _ c' v' => c' = c ∧ During cmd v' ∧ Opened c v' ∧ Fresh c v') := by
  unfold createRun
  by_cases hp : cmd.harness.persistence = true
  · rw [if_pos hp]
    have hordered : v.Ordered (.createRun (runRecordFor c authorization) c.durableCheckpoint) := by
      unfold RunContext.durableCheckpoint
      rw [hf.state]
      cases authorization <;> exact ⟨hf.announced, rfl, rfl, rfl⟩
    refine Does.look (Does.ask (View.permits_of_unrecorded rfl rfl hordered) fun a => ?_)
    cases a with
    | error err =>
      refine Does.fail (.inr (.inr ?_))
      exact ⟨hf.healthy, hf.pending, hf.next, hf.state, hf.announced⟩
    | ok u =>
      refine Does.pure ⟨rfl, ⟨hd.command, fun hn => ?_⟩, fun _ => ⟨rfl, rfl, rfl, _, rfl, ?_⟩,
        hf.healthy, hf.pending, hf.next, hf.state, rfl⟩
      · rw [hp] at hn
        cases hn
      · cases authorization <;> exact ⟨rfl, rfl⟩
  · rw [if_neg hp]
    refine Does.pure ⟨rfl, hd, fun hv => ?_, hf⟩
    rw [hd.volatile (Bool.eq_false_iff.mpr hp)] at hv
    cases hv

theorem commitRunning_does (hf : Fresh c v) (hopened : Opened c v) :
    Does commitRunning c v (fun _ c' v' => v' = v ∧ ∃ millis, Started millis c' v) := by
  refine Does.askQuiet rfl fun now => Does.askQuiet rfl fun wall => Does.look ?_
  cases hcommit : c.commitRunning now wall with
  | error err => exact Does.fail (.inr (.inr hf))
  | ok c' =>
    refine ⟨rfl, ?_⟩
    unfold RunContext.commitRunning at hcommit
    rw [hf.pending] at hcommit
    simp only [RunStatus.start] at hcommit
    split at hcommit
    · cases hcommit
    · split at hcommit
      · cases hcommit
      · rename_i millis
        cases hcommit
        refine ⟨millis, hf.healthy, rfl, rfl, hf.next, ?_, hopened⟩
        rw [hf.state]
        rfl

/-- How `audit_lifecycle` of `RunStarted` can end. -/
theorem auditStart_wp {millis : Nat} {e : AgentEvent} (hd : During cmd v) (hs : Started millis c v)
    (he : c.nextEvent lib.codec (.runStarted millis) = (.ok e, c')) :
    Task.wp (monitor lib) (auditLifecycle lib cmd.harness e .startRun) (fun x c₂ v₂ =>
      Rest c₂ v₂ ∧ (x ≠ .ok () → cmd.harness.auditFailurePolicy = .failClosed →
        During cmd v₂ ∧ c₂.status = .running ∧ Tracks c₂ v₂ ∧ MayFollow v₂)) c' v := by
  have ha := hs.taken he
  obtain ⟨hkind, -, -, -, -⟩ := RunContext.nextEvent_kept (v := v) he
  have hsend : Sendable e c' v :=
    ha.sendable fun key hkey => by rw [hkind] at hkey; cases hkey
  have hpersist := persistTransition_wp hd hsend fun id hid => by rw [hkind] at hid; cases hid
  refine Task.wp_bind.mpr (Task.wp_mono hpersist ?_)
  intro x c₁ v₁ hx
  cases x with
  | error err =>
    obtain ⟨rfl, rfl⟩ := hx
    refine ⟨Ended.rest (.inl rfl), fun _ _ => ⟨⟨hd.command, hd.volatile⟩, ha.running, ?_, nofun⟩⟩
    exact (ha.emitted.refused (fun hv => (hs.opened hv).2.2.1) (by rw [hkind]; rfl)).congr rfl rfl
      rfl ⟨id, rfl, rfl, rfl, id, fun _ _ => id⟩
  | ok u =>
    obtain ⟨rfl, hw⟩ := hx
    have hl := ha.wrote hd hw (by rw [hkind]; rfl)
    refine Task.wp_bind.mpr (Task.wp_mono (auditWithTimeout_wp (by decide)) ?_)
    rintro y c₂ v₂ ⟨rfl, a, rfl, rfl | ⟨err, rfl, -⟩⟩
    · exact ⟨(hl.view sameLog_audit).rest, fun hne => absurd rfl hne⟩
    · have hl₂ : Live c₂ (v₁.observe (.audit .lifecycle e) a) := hl.view sameLog_audit
      have hkept : Kept c₂ v₁ c₂ (v₁.observe (.audit .lifecycle e) a) := kept_audit
      have hd₂ := hkept.during (hw.during hd)
      unfold applyAuditFailure
      cases hpolicy : cmd.harness.auditFailurePolicy with
      | failClosed => exact ⟨hl₂.rest, fun _ _ => ⟨hd₂, hl₂.running, hl₂.tracks, hl₂.mayFollow⟩⟩
      | failOpen =>
        refine Task.wp_mono (recordAuditDegraded_wp hd₂ hl₂.tracks hl₂.mayFollow hl₂.clean) ?_
        intro z c₃ v₃ h
        exact ⟨(h.live hl₂).elim Live.rest fun he => he.2.rest, fun _ => nofun⟩

theorem startRun_does {authorization : Option DurableRunAuthorization} (hd : During cmd v)
    (h : Rest c v) : Does (startRun lib cmd.harness authorization) c v (fun _ => Rest) := by
  refine Does.bind (requireStatus_does h) ?_
  rintro _ c v ⟨rfl, rfl, hhealthy, hpending⟩
  have hf : Fresh c v := by
    rcases h with (hfailed | hfinished) | hl | hf
    · rw [hhealthy] at hfailed
      cases hfailed
    · rw [hpending] at hfinished
      cases hfinished
    · rw [hl.running] at hpending
      cases hpending
    · exact hf
  refine Does.bind (createRun_does hd hf) ?_
  rintro _ c v₁ ⟨rfl, hd₁, hopened, hf₁⟩
  refine Does.bind (commitRunning_does hf₁ hopened) ?_
  rintro _ c₁ v₁ ⟨rfl, millis, hs⟩
  have hmillis : c₁.startedAtUnixMillis = .ok millis := by
    simp [RunContext.startedAtUnixMillis, hs.state, DurableRunState.setStartedAt]
  refine Does.look ?_
  rw [hmillis]
  refine Task.wp_bind.mpr (Task.wp_ofExcept.mpr ?_)
  refine Task.wp_bind.mpr (nextEvent_wp ?_ ?_)
  · intro e c₂ he
    refine Does.attempt (auditStart_wp hd₁ hs he) ?_
    rintro x c₃ v₃ ⟨hrest, hfailed⟩
    cases x with
    | ok u => exact Does.pure hrest
    | error err =>
      by_cases hpolicy : cmd.harness.auditFailurePolicy = .failClosed
      · obtain ⟨hd₃, hrunning, ht, hfollow⟩ := hfailed (by simp) hpolicy
        simp only [hpolicy, if_true]
        refine Task.wp_bind.mpr (Task.wp_mono (terminalizeTracked_wp hd₃ hrunning ht hfollow) ?_)
        intro y c₄ v₄ hterm
        rw [hterm.ok]
        exact Ended.rest (.inr hterm.finished)
      · simp only [hpolicy, if_false]
        exact Does.fail hrest
  · intro err c₂ he
    exact (hs.untaken he).rest

end LocalAgent
