import LocalAgent.Harness.Methods

/-!
# Durable waits keep to the monitor

The rules for `Durable.lean`: suspending, deciding, aborting and resuming. Each of them writes its
event through a request that also creates or moves the row of the wait.
-/
namespace LocalAgent

open Program

variable {lib : Library} {c c' : RunContext} {v v' : View lib} {cmd : Command lib} {e : AgentEvent}

/-! ## Requests on waits -/

theorem trustedUnixMillis_does {β : Type} {f : Nat → HarnessM β}
    {S : β → RunContext → View lib → Prop} (h : ∀ t, Does (f t) c v S) (hrest : Rest c v) :
    Does (trustedUnixMillis >>= f) c v S := by
  refine Does.bind (Q := fun _ c' v' => c' = c ∧ v' = v) (Does.askQuiet rfl fun wall => ?_) ?_
  · cases wall with
    | none => exact Does.fail hrest
    | some t => exact Does.pure ⟨rfl, rfl⟩
  · rintro t c v ⟨rfl, rfl⟩
    exact h t

theorem mapErr_does {ε α β : Type} {wrap : ε → HarnessError} {x : Except ε α} {f : α → HarnessM β}
    {S : β → RunContext → View lib → Prop} (h : ∀ a, Does (f a) c v S) (hrest : Rest c v) :
    Does (mapErr wrap x >>= f) c v S := by
  cases x with
  | ok a => exact h a
  | error err => exact hrest

/-- The requests that write an event together with a row. -/
def Request.writes (e : AgentEvent) : Request → Prop
  | .createDurableApprovalWait t _ _ | .recordDurableApprovalDecision t _ => t.event = e
  | .transitionDurableApprovalStatus request => ∃ t, request.transition = some t ∧ t.event = e
  | _ => False

theorem wrote_of_writes {r : Request} {a : Answer r} (hp : cmd.harness.persistence = true)
    (hr : r.writes e) (ha : r.accepted a = true) : Wrote cmd e v (v.observe r a) := by
  cases r with
  | createDurableApprovalWait t record degraded =>
    cases a with
    | error err => cases ha
    | ok u =>
      obtain rfl := hr
      exact .inr ⟨hp, _, rfl, List.mem_singleton.mpr rfl⟩
  | recordDurableApprovalDecision t command =>
    cases a with
    | error err => cases ha
    | ok u =>
      obtain rfl := hr
      exact .inr ⟨hp, _, rfl, List.mem_singleton.mpr rfl⟩
  | transitionDurableApprovalStatus request =>
    cases a with
    | error err => cases ha
    | ok u =>
      obtain ⟨t, ht, rfl⟩ := hr
      refine .inr ⟨hp, [.advanced request, .committed t.event], ?_, by simp⟩
      simp [View.observe, View.step, factsOf, ht, View.stored]
  | _ => exact absurd hr id

/-- What reading a wait leaves. -/
structure WaitLoaded (key : RunKey) (waitId : DurableApprovalWaitId) (record : DurableApprovalRecord)
    (c : RunContext) (v v' : View lib) : Prop where
  sameLog : SameLog v v'
  kept : Kept c v c v'
  fact : .loaded key waitId record ∈ v'.facts

theorem loadWait_does {key : RunKey} {waitId : DurableApprovalWaitId} (hrest : Rest c v) :
    Does (loadWait cmd.harness key waitId) c v (fun record c' v' =>
      cmd.harness.persistence = true ∧ c' = c ∧ WaitLoaded key waitId record c v v') := by
  unfold loadWait
  by_cases hp : cmd.harness.persistence = true
  · rw [if_pos hp]
    refine Does.ask (View.permits_of_unrecorded rfl rfl trivial) fun a => ?_
    cases a with
    | error err =>
      have hsame : v.observe (.loadDurableApprovalWait key waitId) (.error err) = v := by
        simp [View.observe, View.step, factsOf]
      rw [hsame]
      exact Does.fail hrest
    | ok record =>
      refine Does.pure ⟨hp, rfl, ⟨id, rfl, rfl, rfl, id, fun _ _ => id⟩,
        ⟨rfl, rfl, rfl, rfl, rfl, id, fun f hf => List.mem_append_left _ hf⟩, ?_⟩
      exact List.mem_append_right _ (List.mem_singleton.mpr rfl)
  · rw [if_neg hp]
    exact Does.fail hrest

/-! ## Suspending -/

theorem sealAndSuspend_does {action : ValidatedAction lib} {durable : DurableActionContext}
    {workspace : WorkspaceBindingId} {capsule : LocalWriteActionCapsule}
    {digest : ToolContractDigest} {ids : SuspensionIds} (hd : During cmd v) (hl : Live c v)
    (hp : cmd.harness.persistence = true) (hintact : c.auditDegraded = false) :
    Does (sealAndSuspend lib cmd.harness action durable workspace capsule digest ids) c v
      (fun _ => Rest) := by
  refine Does.bind (recordRequired_does hd hl rfl (.uncounted rfl) nofun nofun) ?_
  intro _ c₁ v₁ hrec
  have hd₁ := hrec.kept.during hd
  refine Does.bind (reserveUnit_does hd₁ hrec.live
    fun c' hc => RunContext.reserveApprovalRequest_ok hc) ?_
  rintro _ c₂ v₁ ⟨rfl, hreserved, hl₂⟩
  have hres := RunContext.reserveApprovalRequest_ok hreserved
  refine Does.look (Does.askQuiet rfl fun loaded => ?_)
  cases loaded with
  | error err => exact Does.fail hl₂.rest
  | ok loaded =>
    refine Does.bind (recordRequired_does hd₁ hl₂ rfl (hres.affords hrec.live rfl) nofun nofun) ?_
    intro _ c₃ v₃ hrec₃
    have hd₃ := hrec₃.kept.during hd₁
    have hintact₃ : c₃.auditDegraded = false := by
      rw [(hrec₃.settled rfl).1, hres.auditDegraded, (hrec.settled rfl).1]
      exact hintact
    refine Does.askQuiet rfl fun answer => mapErr_does (fun sealedAction => ?_) hrec₃.live.rest
    refine trustedUnixMillis_does (fun suspendedAt => ?_) hrec₃.live.rest
    refine Does.look (Does.ofExcept (fun startedAt _ => ?_) hrec₃.live.rest)
    cases checkedSub suspendedAt startedAt with
    | none => exact Does.fail hrec₃.live.rest
    | some elapsed =>
      refine Task.wp_bind.mpr (nextEvent_wp ?_ ?_)
      · intro e c₄ he
        obtain ⟨hkind, hrun, hkept, -, hflag⟩ := RunContext.nextEvent_kept (v := v₃) he
        have ha := hrec₃.live.taken (.uncounted rfl) he
        have hs : Sendable e c₄ v₃ :=
          ha.sendable fun key hkey => by rw [hkind] at hkey; cases hkey
        refine Does.look (Does.ask (hs.permits rfl rfl
          ⟨rfl, rfl, hflag.trans hintact₃, ⟨elapsed, hkind⟩, ha.unfinished⟩) fun a => ?_)
        cases a with
        | error err => exact Ended.rest (.inl rfl)
        | ok u =>
          refine (ha.audited_does hd₃ (wrote_of_writes hp (by exact rfl) rfl) (by rw [hkind]; rfl) hkept hrun
            hflag).mono ?_
          intro _ c₅ v₅ hrec₅
          exact hrec₅.live.rest
      · intro err c₄ he
        exact (hrec₃.live.untaken (.uncounted rfl) he).rest

theorem suspendDurableLocalWrite_does {action : ValidatedAction lib}
    {durable : DurableActionContext} (hd : During cmd v) (h : Rest c v) :
    Does (suspendDurableLocalWrite lib cmd.harness action durable) c v (fun _ => Rest) := by
  refine Does.bind (preflight_does hd h) ?_
  rintro _ c v ⟨rfl, rfl, hl⟩
  refine Does.ite (fun _ => Does.fail hl.rest) fun hp => ?_
  have hp : cmd.harness.persistence = true := by simpa using hp
  refine Does.ite (fun _ => Does.fail hl.rest) fun _ => ?_
  cases cmd.harness.workspaceBindingId with
  | none => exact Does.fail hl.rest
  | some workspace =>
    refine Does.look (Does.ite (fun _ => Does.fail hl.rest) fun _ => ?_)
    refine Does.ite (fun _ => Does.fail hl.rest) fun _ => ?_
    refine Does.ask (View.permits_of_unrecorded rfl rfl trivial) fun decision => ?_
    obtain ⟨hkept, hsame, -⟩ := authorize_observed c v action.capability decision
    have hl₁ := hl.view hsame
    have hd₁ := hkept.during hd
    refine Does.ite (fun _ => Does.fail hl₁.rest) fun _ => ?_
    cases cmd.harness.tools.get action.toolName with
    | none => exact Does.fail hl₁.rest
    | some binding =>
      refine Does.ite (fun _ => Does.fail hl₁.rest) fun _ => ?_
      refine Does.ite (fun _ => Does.fail hl₁.rest) fun hdegraded => ?_
      refine Does.askQuiet rfl fun preview => mapErr_does (fun _ => ?_) hl₁.rest
      refine Does.ofExcept (fun capsule _ => ?_) hl₁.rest
      refine Does.askQuiet rfl fun toolCallId => Does.askQuiet rfl fun requestId => ?_
      refine Does.askQuiet rfl fun waitId => ?_
      exact sealAndSuspend_does hd₁ hl₁ hp (Bool.eq_false_iff.mpr hdegraded)

/-! ## Restoring the sealed action -/

/-- What `restore_local_write` has checked about the action it returns. -/
structure Restored (cmd : Command lib) (record : DurableApprovalRecord) (state : DurableRunState)
    (action : ValidatedAction lib) (v : View lib) : Prop where
  authorized : .authorized .localWrite .requiresApproval ∈ v.facts
  registered : ∃ binding, cmd.harness.tools.get action.toolName = some binding ∧
    binding.definition.capability = .localWrite ∧ binding.execution = .contained
  digest : record.binding.actionDigest =
    lib.computeActionDigest action.toolName .localWrite action.arguments
  binding : ∃ workspace, bindingMatches record.binding workspace state = true

theorem restoreArguments_does {record : DurableApprovalRecord} {binding : ToolBinding}
    (hrest : Rest c v) :
    Does (restoreArguments lib record binding) c v (fun action c' v' => c' = c ∧ v' = v ∧
      action.toolName = durableLocalWriteToolName ∧
      record.binding.actionDigest =
        lib.computeActionDigest action.toolName .localWrite action.arguments) := by
  refine Does.askQuiet rfl fun answer => mapErr_does (fun capsule => ?_) hrest
  dsimp only
  cases lib.validateArgumentLimits (localWriteArguments capsule) with
  | error reason => exact Does.fail hrest
  | ok u =>
    refine Does.ite (fun _ => Does.fail hrest) fun _ => ?_
    refine Does.ite (fun _ => Does.fail hrest) fun hdigest => ?_
    refine Does.askQuiet rfl fun preview => mapErr_does (fun _ => ?_) hrest
    exact Does.pure ⟨rfl, rfl, rfl, (not_not.mp hdigest).symm⟩

theorem restoreLocalWrite_does {record : DurableApprovalRecord} {state : DurableRunState}
    (hl : Live c v) :
    Does (restoreLocalWrite lib cmd.harness record state) c v (fun action c' v' => c' = c ∧
      SameLog v v' ∧ Kept c v c v' ∧ Restored cmd record state action v') := by
  refine Does.ite (fun _ => Does.fail hl.rest) fun _ => ?_
  cases cmd.harness.workspaceBindingId with
  | none => exact Does.fail hl.rest
  | some workspace =>
    refine Does.ite (fun _ => Does.fail hl.rest) fun hmatches => ?_
    cases hget : cmd.harness.tools.get durableLocalWriteToolName with
    | none => exact Does.fail hl.rest
    | some binding =>
      refine Does.ite (fun _ => Does.fail hl.rest) fun hcontract => ?_
      simp only [ne_eq, Bool.or_eq_true, decide_eq_true_eq, not_or, not_not] at hcontract
      refine Does.ask (View.permits_of_unrecorded rfl rfl trivial) fun decision => ?_
      obtain ⟨hkept, hsame, hfact⟩ := authorize_observed c v .localWrite decision
      have hl₁ := hl.view hsame
      refine Does.ite (fun _ => Does.fail hl₁.rest) fun hdecision => ?_
      simp only [ne_eq, Bool.or_eq_true, decide_eq_true_eq, not_or, not_not] at hdecision
      refine Does.ite (fun _ => Does.fail hl₁.rest) fun hcontained => ?_
      refine (restoreArguments_does hl₁.rest).mono ?_
      rintro action c' v' ⟨rfl, rfl, hname, hdigest⟩
      rw [hdecision.1] at hfact hsame hkept ⊢
      refine ⟨rfl, hsame, hkept, hfact, ⟨binding, ?_, hcontract.1, not_not.mp hcontained⟩, hdigest,
        workspace, by simpa using hmatches⟩
      rw [hname]
      exact hget

/-! ## Moving a row -/

/-- Moving the row of a wait without an event. -/
theorem advanceRow_does {record : DurableApprovalRecord} {waitId : DurableApprovalWaitId}
    {expected next : DurableApprovalStatus}
    (hmoves : v.Moves ⟨none, record.binding.key, waitId, record.rowVersion, expected, next⟩) :
    Does (advanceStatus record waitId none expected next) c v (fun _ c' v' => c' = c ∧
      SameLog v v' ∧ Kept c v c v') := by
  refine Does.look (Does.ask (View.permits_of_unrecorded rfl rfl hmoves) fun a => ?_)
  cases a with
  | error err => exact Ended.rest (.inl rfl)
  | ok u =>
    exact Does.pure ⟨rfl, ⟨id, rfl, rfl, rfl, id, fun _ _ => id⟩,
      ⟨rfl, rfl, rfl, rfl, rfl, id, fun f hf => List.mem_append_left _ hf⟩⟩

/-- Moving the row of a wait together with an event. -/
theorem advanceWith_does {record : DurableApprovalRecord} {waitId : DurableApprovalWaitId}
    {expected next : DurableApprovalStatus} (hs : Sendable e c v)
    (hp : cmd.harness.persistence = true)
    (hmoves : v.Moves ⟨some (transitionForEvent c e false), record.binding.key, waitId,
      record.rowVersion, expected, next⟩) :
    Does (advanceStatus record waitId (some e) expected next) c v (fun _ c' v' => c' = c ∧
      Wrote cmd e v v' ∧ .advanced ⟨some (transitionForEvent c e false), record.binding.key, waitId,
        record.rowVersion, expected, next⟩ ∈ v'.facts) := by
  refine Does.look (Does.ask (hs.permits rfl rfl hmoves) fun a => ?_)
  cases a with
  | error err => exact Ended.rest (.inl rfl)
  | ok u =>
    refine Does.pure ⟨rfl, wrote_of_writes hp ⟨_, rfl, rfl⟩ rfl, ?_⟩
    exact List.mem_append_right _ (List.mem_cons_self ..)

theorem recordResumed_does {waiting : WaitingBinding} {record : DurableApprovalRecord}
    {waitId : DurableApprovalWaitId} {expected next : DurableApprovalStatus} (hd : During cmd v)
    (hl : Live c v) (hp : cmd.harness.persistence = true)
    (hrung : expected = .approvedReady ∧ next = .approvedReady ∨
      expected = .decisionRecordedDeny ∧ next = .consumed) :
    Does (recordResumed lib cmd.harness waiting record waitId expected next) c v
      (fun _ c' v' => Live c' v' ∧ Kept c v c' v' ∧ ∃ resumed, .committed resumed ∈ v'.facts ∧
        resumed.kind.resumes = some waitId ∧ resumed.runId = c.runId) := by
  refine trustedUnixMillis_does (fun resumedAt => ?_) hl.rest
  refine Task.wp_bind.mpr (nextEvent_wp ?_ ?_)
  · intro e c₁ he
    obtain ⟨hkind, hrun, hkept, -, -⟩ := RunContext.nextEvent_kept (v := v) he
    have ha := hl.taken (.uncounted rfl) he
    have hs : Sendable e c₁ v :=
      ha.sendable fun key hkey => by rw [hkind] at hkey; cases hkey
    have hresumes : e.kind.resumes = some waitId := by rw [hkind]; rfl
    refine Does.bind (advanceWith_does hs hp ?_) ?_
    · rcases hrung with ⟨rfl, rfl⟩ | ⟨rfl, rfl⟩ <;> exact ⟨_, rfl, hresumes⟩
    · rintro _ c₂ v₂ ⟨rfl, hw, -⟩
      have hl₂ := ha.wrote hd hw (by rw [hkind]; rfl)
      refine (auditAlreadyPersisted_does (hw.during hd) hl₂).mono ?_
      rintro _ c₃ v₃ ⟨hl₃, hkept₃, -⟩
      exact ⟨hl₃, (hkept.trans hw.kept).trans hkept₃, e, hkept₃.facts _ (hw.committed hp), hresumes,
        hrun⟩
  · intro err c₁ he
    exact (hl.untaken (.uncounted rfl) he).rest

/-! ## Resuming -/

theorem resumeDenied_does {waiting : WaitingBinding} {record : DurableApprovalRecord}
    {waitId : DurableApprovalWaitId} (hd : During cmd v) (hl : Live c v) :
    Does (resumeDenied lib cmd.harness waiting record waitId) c v (fun _ => Rest) := by
  refine Does.bind (recordRequired_does hd hl rfl (.uncounted rfl) nofun nofun) ?_
  intro _ c₁ v₁ hrec
  have hd₁ := hrec.kept.during hd
  refine Does.bind (loadWait_does hrec.live.rest) ?_
  rintro record' c₁ v₂ ⟨hp, rfl, hloaded⟩
  have hd₂ := hloaded.kept.during hd₁
  have hl₂ := hrec.live.view hloaded.sameLog
  refine Does.bind (recordResumed_does hd₂ hl₂ hp (.inr ⟨rfl, rfl⟩)) ?_
  rintro _ c₃ v₃ ⟨hl₃, -, -⟩
  exact Does.pure hl₃.rest

/-- What the grant leaves: the record to go on with is the one read first, or was read under its
key. -/
theorem grantApproval_does {waiting : WaitingBinding} {record : DurableApprovalRecord}
    {waitId : DurableApprovalWaitId} {key : RunKey} (hd : During cmd v) (hl : Live c v)
    (hloaded : .loaded key waitId record ∈ v.facts)
    (hrequest : waiting.approvalRequestId = record.binding.approvalRequestId) :
    Does (grantApproval lib cmd.harness waiting record waitId) c v (fun record' c' v' =>
      Live c' v' ∧ Kept c v c' v' ∧
        (record' = record ∨ .loaded record.binding.key waitId record' ∈ v'.facts)) := by
  refine Does.ite (fun _ => ?_) fun _ => Does.pure ⟨hl, Kept.refl, .inl rfl⟩
  refine Does.bind (recordRequired_does hd hl rfl (.uncounted rfl) nofun nofun) ?_
  intro _ c₁ v₁ hrec
  obtain ⟨-, grant, hgrant, hsettled⟩ := hrec.settled rfl
  rw [hrequest] at hgrant
  have hmoves : v₁.Moves ⟨none, record.binding.key, waitId, record.rowVersion,
      .decisionRecordedApprove, .approvedReady⟩ :=
    ⟨rfl, key, record, grant, hrec.kept.facts _ hloaded, rfl, hgrant, hsettled⟩
  refine Does.bind (advanceRow_does hmoves) ?_
  rintro _ c₁ v₂ ⟨rfl, hsame, hkept⟩
  have hl₂ := hrec.live.view hsame
  refine (loadWait_does hl₂.rest).mono ?_
  rintro record' c₁ v₃ ⟨-, rfl, hloaded'⟩
  exact ⟨hl₂.view hloaded'.sameLog, (hrec.kept.trans hkept).trans hloaded'.kept, .inr hloaded'.fact⟩

/-- What is known when the approved call is about to start. -/
structure Approved (cmd : Command lib) (key : RunKey) (waitId : DurableApprovalWaitId)
    (first last : DurableApprovalRecord) (action : ValidatedAction lib) (v : View lib) : Prop where
  operation : ∀ call, cmd.operation ≠ .invokeTool call
  authorized : .authorized .localWrite .requiresApproval ∈ v.facts
  registered : ∃ binding, cmd.harness.tools.get action.toolName = some binding ∧
    binding.definition.capability = .localWrite ∧ binding.execution = .contained
  digest : first.binding.actionDigest =
    lib.computeActionDigest action.toolName .localWrite action.arguments
  loaded : .loaded key waitId first ∈ v.facts
  /-- The record read last, and the key it was read under. -/
  latest : ∃ key', .loaded key' waitId last ∈ v.facts ∧ (v.Faithful → key' = key)

theorem executeApproved_does {waiting : WaitingBinding} {action : ValidatedAction lib}
    {first record : DurableApprovalRecord} {waitId : DurableApprovalWaitId} {key : RunKey}
    (hd : During cmd v) (hl : Live c v) (hp : cmd.harness.persistence = true)
    (happroved : Approved cmd key waitId first record action v)
    (hresumed : ∃ resumed, .committed resumed ∈ v.facts ∧ resumed.kind.resumes = some waitId ∧
      resumed.runId = c.runId) :
    Does (executeApproved lib cmd.harness waiting action record waitId) c v (fun _ => Rest) := by
  refine Does.bind (reserveUnit_does hd hl fun c' hc => RunContext.reserveToolCall_ok hc) ?_
  rintro _ c₁ v ⟨rfl, hreserved, hl₁⟩
  have hres := RunContext.reserveToolCall_ok hreserved
  have haff : ∀ name capability, Affords c₁ (.toolInvocationStarted record.binding.toolCallId name
      capability c₁.usage.toolCalls c₁.budget.maxToolCalls) := fun _ _ => hres.affords hl rfl
  obtain ⟨key', hlatest, hkeys⟩ := happroved.latest
  refine Does.look (Task.wp_bind.mpr (nextEvent_wp ?_ ?_))
  swap
  · intro err c₂ he
    exact (hl₁.untaken (haff _ _) he).rest
  intro e c₂ he
  obtain ⟨hkind, hrun, hkept, -, hflag⟩ := RunContext.nextEvent_kept (v := v) he
  have hopens : e.kind.opens = some (.tool record.binding.toolCallId) := by rw [hkind]; rfl
  have ha := hl₁.taken (haff _ _) he
  have hs : Sendable e c₂ v := ha.sendable fun key hkey => by rw [hkind] at hkey; cases hkey
  obtain ⟨resumed, hcommitted, hresumes, hresumedRun⟩ := hresumed
  have hsameRun : resumed.runId = e.runId := by
    rw [hresumedRun, hrun]
    exact (hres.kept (v := v)).runId.symm
  refine Does.bind (advanceWith_does hs hp ⟨_, key', record, rfl, hlatest, rfl, hopens, resumed,
    hcommitted, hresumes, hsameRun⟩) ?_
  rintro _ c₂ v₂ ⟨rfl, hw, hadvanced⟩
  have hl₂ := ha.wrote hd hw (by rw [hkind]; rfl)
  refine Does.bind (auditAlreadyPersisted_does (hw.during hd) hl₂) ?_
  rintro _ c₃ v₃ ⟨hl₃, hkept₃, harmed₃, hrequired⟩
  obtain ⟨haudited, -⟩ := hrequired rfl
  have hd₃ := hkept₃.during (hw.during hd)
  have hfacts : ∀ f ∈ v.facts, f ∈ v₃.facts := fun f hf =>
    hkept₃.facts f ((hw.kept (c := c₂)).facts f hf)
  have hgoverned : v₃.Governed (action.intoToolCall record.binding.toolCallId) := by
    refine ⟨hfacts _ happroved.authorized, .inr ?_, e, hopens, haudited,
      fun _ => hkept₃.facts _ (hw.committed hp)⟩
    refine ⟨key, waitId, first, record, _, _, hfacts _ happroved.loaded, happroved.digest, rfl,
      hkept₃.facts _ hadvanced, rfl, rfl, rfl, rfl, hopens, fun hfaithful => ?_⟩
    have hkey : key' = key := hkeys fun k w r hr => hfaithful k w r (hfacts _ hr)
    rw [← hkey]
    exact ⟨hfacts _ hlatest, hfaithful _ _ _ (hfacts _ hlatest)⟩
  have hdispatch : v₃.Dispatches (action.intoToolCall record.binding.toolCallId) true := by
    obtain ⟨binding, hget, hwrite, hcontained⟩ := happroved.registered
    exact ⟨cmd, binding, hd₃.command, hget,
      .inr ⟨hwrite, rfl, hcontained, happroved.operation, hgoverned⟩⟩
  have harmed : v₃.persistent = true →
      v₃.armed = some (c₃.runId, .tool record.binding.toolCallId) := by
    intro _
    rw [harmed₃, hw.armed hp, hopens, hrun, hkept₃.runId, hkept.runId]
  refine Does.attempt (invokeContainedToolPort_wp hd₃ hl₃
    (fun _ => hkept₃.current (hw.current hp)) harmed hdispatch) ?_
  intro x c₄ v₄ hdone
  refine Does.bind (finishToolInvocation_does hdone) ?_
  rintro result c₅ v₅ ⟨hl₅, hd₅⟩
  refine Does.bind (loadWait_does hl₅.rest) ?_
  rintro record' c₅ v₆ ⟨-, rfl, hloaded⟩
  have hl₆ := hl₅.view hloaded.sameLog
  refine Does.bind (advanceRow_does rfl) ?_
  rintro _ c₅ v₇ ⟨rfl, hsame, -⟩
  exact Does.pure (hl₆.view hsame).rest

theorem waitingPosition_request {state : DurableRunState} {waitId : DurableApprovalWaitId}
    {waiting : WaitingBinding} {binding : ActionSealBinding} {workspace : WorkspaceBindingId}
    (hwaiting : waitingPosition state waitId = .ok waiting)
    (hmatches : bindingMatches binding workspace state = true) :
    waiting.approvalRequestId = binding.approvalRequestId := by
  unfold waitingPosition at hwaiting
  unfold bindingMatches at hmatches
  split at hwaiting
  · rename_i hposition
    rw [hposition] at hmatches
    split at hwaiting
    · cases hwaiting
      simp only [Bool.and_eq_true, decide_eq_true_eq] at hmatches
      exact hmatches.1.2.1.1.1.2
    · cases hwaiting
  · cases hwaiting

theorem resumeApproved_does {waiting : WaitingBinding} {state : DurableRunState}
    {record : DurableApprovalRecord} {waitId : DurableApprovalWaitId} {key : RunKey}
    (hd : During cmd v) (hl : Live c v) (hp : cmd.harness.persistence = true)
    (hop : ∀ call, cmd.operation ≠ .invokeTool call)
    (hwaiting : waitingPosition state waitId = .ok waiting)
    (hloaded : .loaded key waitId record ∈ v.facts) :
    Does (resumeApproved lib cmd.harness waiting state record waitId) c v (fun _ => Rest) := by
  refine Does.bind (restoreLocalWrite_does hl) ?_
  rintro action c v₁ ⟨rfl, hsame, hkept, hrestored⟩
  obtain ⟨workspace, hmatches⟩ := hrestored.binding
  have hl₁ := hl.view hsame
  have hd₁ := hkept.during hd
  refine Does.bind (grantApproval_does hd₁ hl₁ (hkept.facts _ hloaded)
    (waitingPosition_request hwaiting hmatches)) ?_
  rintro record₂ c₂ v₂ ⟨hl₂, hkept₂, hrecord₂⟩
  have hd₂ := hkept₂.during hd₁
  refine Does.bind (recordResumed_does hd₂ hl₂ hp (.inl ⟨rfl, rfl⟩)) ?_
  rintro _ c₃ v₃ ⟨hl₃, hkept₃, resumed, hcommitted, hresumes, hrun⟩
  have hd₃ := hkept₃.during hd₂
  refine Does.bind (loadWait_does hl₃.rest) ?_
  rintro record₃ c₃ v₄ ⟨-, rfl, hlast⟩
  have hl₄ := hl₃.view hlast.sameLog
  have hd₄ := hlast.kept.during hd₃
  refine Does.bind (preflight_does hd₄ hl₄.rest) ?_
  rintro _ c₃ v₄ ⟨rfl, rfl, -⟩
  -- all three reads were made under one key if the store is faithful
  have hfacts₂ : ∀ f ∈ v₂.facts, f ∈ v₄.facts := fun f hf =>
    hlast.kept.facts f (hkept₃.facts f hf)
  have hfacts₁ : ∀ f ∈ v₁.facts, f ∈ v₄.facts := fun f hf => hfacts₂ f (hkept₂.facts f hf)
  have hfirst : .loaded key waitId record ∈ v₄.facts := hfacts₁ _ (hkept.facts _ hloaded)
  have happroved : Approved cmd key waitId record record₃ action v₄ := by
    refine ⟨hop, hfacts₁ _ hrestored.authorized, hrestored.registered, hrestored.digest, hfirst,
      record₂.binding.key, hlast.fact, fun hf => ?_⟩
    have hkey : record.binding.key = key := hf _ _ _ hfirst
    rcases hrecord₂ with rfl | hsecond
    · exact hkey
    · exact (hf _ _ _ (hfacts₂ _ hsecond)).trans hkey
  exact executeApproved_does hd₄ hl₄ hp happroved
    ⟨resumed, hlast.kept.facts _ hcommitted, hresumes, hrun.trans hkept₃.runId.symm⟩

theorem resumeDurableLocalWrite_does {state : DurableRunState} {waitId : DurableApprovalWaitId}
    (hd : During cmd v) (hl : Live c v) (hop : ∀ call, cmd.operation ≠ .invokeTool call) :
    Does (resumeDurableLocalWrite lib cmd.harness state waitId) c v (fun _ => Rest) := by
  refine Does.ofExcept (fun waiting hwaiting => ?_) hl.rest
  refine Does.look (Does.bind (loadWait_does hl.rest) ?_)
  rintro record c v₁ ⟨hp, rfl, hloaded⟩
  have hl₁ := hl.view hloaded.sameLog
  have hd₁ := hloaded.kept.during hd
  cases record.status with
  | decisionRecordedDeny => exact resumeDenied_does hd₁ hl₁
  | decisionRecordedApprove | approvedReady =>
    exact resumeApproved_does hd₁ hl₁ hp hop hwaiting hloaded.fact
  | waiting | executing | consumed => exact Does.fail hl₁.rest

end LocalAgent
