import LocalAgent.Harness.Waits

/-!
# Every command keeps to the monitor

A recovered context is live, so the operations that recover first (deciding, aborting, resuming)
keep to the monitor as well. `Command.code_permitted` collects all operations: whatever a client
holds and whatever it is answered, each of its requests is permitted in its view.
-/
namespace LocalAgent

open Program

variable {lib : Library} {c : RunContext} {v : View lib} {cmd : Command lib}

/-! ## Recovering -/

/-- The context of a recovered run. -/
theorem classify_context {contract : RecoveryContract} {nowUnixMillis : Nat} {now : Instant}
    {state : DurableRunState} {d : RecoveryDisposition} {r : RecoveredRun}
    (h : classify contract nowUnixMillis now state = .ok d)
    (hr : d = .resumable r ∨ d = .waiting r) :
    state.context.status = .running ∧
      ∃ elapsed, RunContext.fromRecovery state elapsed now contract = .ok r.context := by
  unfold classify at h
  split at h
  · cases h
    rcases hr with hr | hr <;> cases hr
  split at h
  · cases h
    rcases hr with hr | hr <;> cases hr
  · cases h
    rcases hr with hr | hr <;> cases hr
  · cases h
    rcases hr with hr | hr <;> cases hr
  rename_i hrunning
  refine ⟨hrunning, ?_⟩
  split at h
  · cases h
  split at h
  · cases h
  split at h
  · cases h
  unfold classifyRunning at h
  split at h
  · cases h
    rcases hr with hr | hr <;> cases hr
  split at h
  · split at h
    · cases h
    · rename_i context hcontext
      cases h
      rcases hr with hr | hr <;> cases hr
      exact ⟨_, hcontext⟩
  split at h
  · cases h
    rcases hr with hr | hr <;> cases hr
  split at h
  · cases h
    rcases hr with hr | hr <;> cases hr
  split at h
  · cases h
  · rename_i context hcontext
    cases h
    rcases hr with hr | hr <;> cases hr
    exact ⟨_, hcontext⟩

theorem fromRecovery_ok {state : DurableRunState} {elapsed : Duration} {now : Instant}
    {contract : RecoveryContract} (h : RunContext.fromRecovery state elapsed now contract = .ok c) :
    c.key = state.context.key ∧ c.durableState = state ∧ c.status = state.context.status ∧
      c.persistenceFailed = false ∧ c.usage = state.context.usage ∧
      (state.context.status = .running → c.runtime.isSome = true) ∧
      state.lastSequence.elim (some 0) checkedNext = some c.nextEventSequence := by
  unfold RunContext.fromRecovery at h
  split at h
  · cases h
  split at h
  · cases h
  split at h
  · cases h
  rename_i next hnext
  cases h
  refine ⟨rfl, rfl, rfl, rfl, rfl, fun hrunning => ?_, hnext⟩
  simp [hrunning]

/-- **A recovered context is live**: it stands at the end of the log it was recovered from. -/
theorem live_of_recovered {loaded : LoadedRun} {nowUnixMillis : Nat} {now : Instant}
    {d : RecoveryDisposition} {r : RecoveredRun}
    (h : recoverLoadedRun lib.codec loaded nowUnixMillis now = .ok d)
    (hr : d = .resumable r ∨ d = .waiting r)
    (hrun : v.run = some ⟨loaded.record, loaded.events⟩) (hrefused : v.refused = false)
    (hstart : v.startRefused = false) : Live r.context v := by
  obtain ⟨state, hlog, hclass⟩ := recover_verified h
  obtain ⟨hrunning, elapsed, hcontext⟩ := classify_context hclass hr
  obtain ⟨hkey, hstate, hstatus, hhealthy, husage, hclock, hnext⟩ := fromRecovery_ok hcontext
  have hidentity := DurableRunState.replay_identity hlog.replayed
  refine ⟨hhealthy, hstatus.trans hrunning, hclock hrunning, fun _ => hrefused,
    ⟨fun _ => hstart, fun _ => .inr (.inl ⟨hrefused, ⟨loaded.record, loaded.events⟩, state, hrun,
      ?_, ?_, hlog.replayed, .inl hstate⟩)⟩, ?_, ?_⟩
  · rw [hkey, hidentity.1]
    rfl
  · by_cases hempty : loaded.events = []
    · have hreplay := hlog.replayed
      rw [hempty, DurableRunState.replay_nil] at hreplay
      rw [← Except.ok.inj hreplay] at hnext
      have hzero : 0 = r.context.nextEventSequence := Option.some.inj hnext
      simp [hempty, ← hzero]
    · have hpos := List.length_pos_iff.mpr hempty
      rw [replay_lastSequence hlog.replayed hlog.sequenced hempty, Option.elim_some,
        checkedNext_eq_some] at hnext
      show r.context.nextEventSequence = loaded.events.length
      omega
  · intro _ k hk
    rw [hrun] at hk
    cases hk
    by_contra hany
    have hfinished := DurableRunState.replay_isFinished hlog.replayed (Bool.not_eq_false _ ▸ hany)
    rw [hrunning] at hfinished
    cases hfinished
  · intro x
    rw [hstate, husage]

/-- What `recover_run` leaves. -/
def Recovered (cmd : Command lib) (x : Except HarnessError RecoveryDisposition) (v : View lib) :
    Prop :=
  ∀ r, x = .ok (.resumable r) ∨ x = .ok (.waiting r) →
    Live r.context v ∧ During cmd v ∧ cmd.harness.persistence = true

theorem recoverRun_wp {key : RunKey} (hcmd : v.command = some cmd) :
    Prog.wp (monitor lib) (recoverRun lib cmd.harness key ()) (fun p v' => Recovered cmd p.1 v') v := by
  show Task.wp (monitor lib) (recoverRun lib cmd.harness key) (fun x _ v' => Recovered cmd x v') () v
  unfold recoverRun
  by_cases hp : cmd.harness.persistence = true
  · rw [if_pos hp]
    refine Task.wp_ask_bind.mpr ⟨View.permits_of_unrecorded rfl rfl trivial, fun a => ?_⟩
    cases a with
    | error err => exact fun r hr => by rcases hr with hr | hr <;> cases hr
    | ok loaded =>
      refine Task.wp_bind.mpr ?_
      refine ⟨View.permits_of_quiet rfl, fun wall => ?_⟩
      cases wall with
      | none => exact fun r hr => by rcases hr with hr | hr <;> cases hr
      | some nowWall =>
        refine ⟨View.permits_of_quiet rfl, fun now => ?_⟩
        rintro r hr
        cases hrecover : recoverLoadedRun lib.codec loaded nowWall now with
        | error err =>
          simp only [hrecover, Except.mapError] at hr
          rcases hr with hr | hr <;> cases hr
        | ok d =>
          have hd : d = .resumable r ∨ d = .waiting r := by
            simpa [Task.ofExcept, hrecover, Except.mapError] using hr
          refine ⟨live_of_recovered hrecover hd rfl rfl rfl, ⟨hcmd, fun hn => ?_⟩, hp⟩
          rw [hp] at hn
          cases hn
  · rw [if_neg hp]
    exact fun r hr => by rcases hr with hr | hr <;> cases hr

/-- Recover the run and go on with its context if it waits; what is left of it is dropped. -/
theorem withWaitingRun_wp {α : Type} {key : RunKey} {body : RecoveredRun → HarnessM α}
    {Q : Except HarnessError α → View lib → Prop} (hcmd : v.command = some cmd)
    (hbody : ∀ r v, Live r.context v → During cmd v → cmd.harness.persistence = true →
      Task.wp (monitor lib) (body r) (fun x _ v' => Q x v') r.context v)
    (herr : ∀ e v, Q (.error e) v) :
    Prog.wp (monitor lib) (withWaitingRun lib cmd.harness key body) Q v := by
  refine Prog.wp_bind.mpr (Prog.wp_mono (recoverRun_wp hcmd) ?_)
  rintro ⟨x, u⟩ v₁ hrecovered
  cases x with
  | error e => exact herr e v₁
  | ok d =>
    cases d with
    | waiting r =>
      obtain ⟨hl, hd, hp⟩ := hrecovered r (.inr rfl)
      refine Prog.wp_bind.mpr (Prog.wp_mono (hbody r v₁ hl hd hp) ?_)
      rintro ⟨y, c⟩ v₂ hy
      exact hy
    | _ => exact herr _ v₁

/-! ## Deciding and aborting -/

/-- A body that keeps to the monitor, whatever is left of its context. -/
theorem Does.permitted {α : Type} {m : HarnessM α} {Q : α → RunContext → View lib → Prop}
    (h : Does m c v Q) : Task.wp (monitor lib) m (fun _ _ _ => True) c v :=
  Task.wp_mono h fun _ _ _ _ => trivial

theorem durableApprovalView_wp {key : RunKey} {waitId : DurableApprovalWaitId}
    (hcmd : v.command = some cmd) :
    Prog.wp (monitor lib) (durableApprovalView lib cmd.harness key waitId) (fun _ _ => True) v := by
  refine withWaitingRun_wp hcmd (fun r v hl hd hp => ?_) fun _ _ => trivial
  refine Does.permitted (Q := fun _ => Rest) (Does.bind (loadWait_does hl.rest) ?_)
  rintro record c v₁ ⟨-, rfl, hloaded⟩
  refine Does.bind (restoreLocalWrite_does (hl.view hloaded.sameLog)) ?_
  rintro action c v₂ ⟨rfl, hsame, -, -⟩
  exact Does.pure ((hl.view hloaded.sameLog).view hsame).rest

theorem recordDurableApprovalDecision_wp {command : DurableApprovalDecisionCommand}
    (hcmd : v.command = some cmd) :
    Prog.wp (monitor lib) (recordDurableApprovalDecision lib cmd.harness command)
      (fun _ _ => True) v := by
  refine withWaitingRun_wp hcmd (fun r v hl hd hp => ?_) fun _ _ => trivial
  refine Does.permitted (Q := fun _ => Rest) (Does.ofExcept (fun waiting _ => ?_) hl.rest)
  refine Does.ite (fun _ => Does.fail hl.rest) fun _ => ?_
  cases checkedNext command.expectedRowVersion with
  | none => exact Does.fail hl.rest
  | some nextVersion =>
    refine Task.wp_bind.mpr (nextEvent_wp ?_ ?_)
    · intro e c₁ he
      obtain ⟨hkind, hrun, hkept, -, hflag⟩ := RunContext.nextEvent_kept (v := v) he
      have ha := hl.taken (.uncounted rfl) he
      have hs : Sendable e c₁ v :=
        ha.sendable fun key hkey => by rw [hkind] at hkey; cases hkey
      have hopens : e.kind.opens = none := by rw [hkind]; rfl
      refine Does.look (Does.ask (hs.permits rfl rfl hopens) fun a => ?_)
      cases a with
      | error err => exact Ended.rest (.inl rfl)
      | ok u =>
        refine (ha.audited_does hd (wrote_of_writes hp (by exact rfl) rfl) (by rw [hkind]; rfl) hkept
          hrun hflag).mono ?_
        intro _ c₂ v₂ hrec
        exact hrec.live.rest
    · intro err c₁ he
      exact (hl.untaken (.uncounted rfl) he).rest

theorem recordDurableApprovalOutcome_wp {key : RunKey} {waitId : DurableApprovalWaitId}
    {version : Nat} {outcome : DurableApprovalOutcome} {actor : Option (PrincipalId × Nat)}
    (hcmd : v.command = some cmd) :
    Prog.wp (monitor lib) (recordDurableApprovalOutcome lib cmd.harness key waitId version outcome
      actor) (fun _ _ => True) v := by
  have hfirst : Prog.wp (monitor lib) (withWaitingRun lib cmd.harness key fun recovered =>
      Task.ofExcept (waitingPosition recovered.state waitId))
      (fun x v => (∃ w, x = .ok w) → v.command = some cmd) v := by
    refine withWaitingRun_wp hcmd (fun r v hl hd hp _ => hd.command) ?_
    rintro e v ⟨w, hw⟩
    cases hw
  refine Prog.wp_bind.mpr (Prog.wp_mono hfirst ?_)
  intro x v₁ hx
  cases x with
  | error e => trivial
  | ok waiting => exact recordDurableApprovalDecision_wp (hx ⟨waiting, rfl⟩)

/-- The end of an aborted run is in the log: only the audit of it is left. -/
theorem auditAborted_does {e : AgentEvent} {operation : HarnessOperation} {phase : AuditPhase}
    {effect : OperationEffect} {v' : View lib} (hd : During cmd v) (hu : Unfinished v)
    (hclean : v.volatile = false → v.refused = false) (hw : Wrote cmd e v v')
    (he : Emitted e c v) (hclock : c.runtime.isSome = true) (hended : c.status.isFinished = true) :
    Does (auditAlreadyPersisted lib cmd.harness e operation phase effect false) c v'
      (fun _ => Rest) := by
  obtain ⟨r, hruntime⟩ := Option.isSome_iff_exists.mp hclock
  have hne : c.status ≠ .running := by
    intro hrunning
    rw [hrunning] at hended
    cases hended
  have hcut : ∀ (v : View lib) outcome (err : HarnessError),
      Does (do terminalize lib cmd.harness outcome; (Task.fail err : HarnessM Unit)) c v
        (fun _ => Rest) := by
    intro v outcome err
    have hnothing : Does (terminalize lib cmd.harness outcome) c v
        (fun _ c' v' => c' = c ∧ v' = v) := by
      unfold terminalize
      refine Does.look ?_
      rw [if_neg hne]
      exact Does.pure ⟨rfl, rfl⟩
    refine Does.bind hnothing ?_
    rintro _ c v ⟨rfl, rfl⟩
    exact Does.fail (Ended.rest (.inr hended))
  have hbounds : Does (auditWithRunBounds e) c v' (fun x c' v'' => c' = c ∧
      ∃ a, v'' = v'.observe (.audit .bounded e) a ∧
        ((∃ kind, x = .failed kind) → auditFailed .bounded a = true)) := by
    unfold auditWithRunBounds
    refine Does.look ?_
    rw [hruntime]
    refine Does.ask View.permits_audit fun a => ?_
    cases a with
    | ready result =>
      cases result with
      | ok u => exact Does.pure ⟨rfl, _, rfl, nofun⟩
      | error err => exact Does.pure ⟨rfl, _, rfl, fun _ => rfl⟩
    | cancelled => exact Does.pure ⟨rfl, _, rfl, nofun⟩
    | deadlineExceeded => exact Does.pure ⟨rfl, _, rfl, nofun⟩
  refine Does.bind hbounds ?_
  rintro x c v₂ ⟨rfl, a, rfl, hfailed⟩
  have hsame : SameLog v' (v'.observe (.audit .bounded e) a) := sameLog_audit
  have hkept : Kept c v' c (v'.observe (.audit .bounded e) a) := kept_audit
  cases x with
  | recorded => exact Does.pure (Ended.rest (.inr hended))
  | cancelled => exact hcut _ _ _
  | deadlineExceeded => exact hcut _ _ _
  | failed kind =>
    refine applyAuditFailure_ended (hkept.during (hw.during hd)) hended
      ((hw.tracks hd he hclean).congr rfl rfl rfl hsame) ?_ ?_
    · intro hv
      rw [hsame.refused]
      exact hw.clean hclean (hsame.volatile hv)
    · intro hpolicy
      exact mayFollow_audit hd hu hw hpolicy (.inr rfl) (hfailed ⟨kind, rfl⟩)

theorem abortDurableWaiting_wp {key : RunKey} {waitId : DurableApprovalWaitId} {version : Nat}
    (hcmd : v.command = some cmd) :
    Prog.wp (monitor lib) (abortDurableWaiting lib cmd.harness key waitId version)
      (fun _ _ => True) v := by
  refine withWaitingRun_wp hcmd (fun r v hl hd hp => ?_) fun _ _ => trivial
  refine Does.permitted (Q := fun _ => Rest) (Does.ofExcept (fun waiting _ => ?_) hl.rest)
  refine Does.bind (loadWait_does hl.rest) ?_
  rintro record c v₁ ⟨-, rfl, hloaded⟩
  have hl₁ := hl.view hloaded.sameLog
  have hd₁ := hloaded.kept.during hd
  refine Does.ite (fun _ => Does.fail hl₁.rest) fun _ => ?_
  refine Does.bind (commitFinished_does hl₁) ?_
  rintro _ c₀ v₁ ⟨rfl, rfl⟩
  have ht : Tracks { r.context with status := .finished .cancelled } v₁ :=
    hl₁.tracks.congr rfl rfl rfl ⟨id, rfl, rfl, rfl, id, fun _ _ => id⟩
  refine Task.wp_bind.mpr (nextEvent_wp ?_ ?_)
  · intro e c₁ he
    obtain ⟨hkind, -, -, hstatus, -⟩ := RunContext.nextEvent_kept (v := v₁) he
    have hended : c₁.status.isFinished = true := by rw [hstatus]; rfl
    have hclock : c₁.runtime.isSome = true := by
      obtain ⟨-, -, d, -, rfl⟩ := RunContext.nextEvent_ok he
      exact hl₁.clock
    have hs : Sendable e c₁ v₁ := by
      refine ⟨ht.taken (.uncounted rfl) he, hl₁.mayFollow, ?_⟩
      rw [hkind]
      exact nofun
    refine Does.look (Does.ask (hs.permits rfl rfl ⟨_, _, rfl, hkind⟩) fun a => ?_)
    cases a with
    | error err => exact Ended.rest (.inr hended)
    | ok u =>
      exact auditAborted_does hd₁ hl₁.unfinished hl₁.clean
        (wrote_of_writes hp ⟨_, rfl, rfl⟩ rfl) hs.emitted hclock hended
  · intro err c₁ he
    refine Ended.rest (.inr ?_)
    rcases RunContext.nextEvent_error he with ⟨rfl, -⟩ | ⟨e, -, rfl⟩ <;> rfl

/-! ## Commands -/

/-- What a view says about what a client holds between two commands. -/
def Holding.AtRest (held : Holding) (v : View lib) : Prop :=
  match held with
  | .nothing => True
  | .context c => Rest c v
  | .waiting r => Live r.context v

/-- A new command changes nothing that a context at rest depends on. -/
theorem Live.began (hl : Live c v) (hnew : ∀ run session budget contract,
    cmd.operation ≠ .newContext run session budget contract) : Live c (v.began cmd) := by
  have hbegan : SameLog v (v.began cmd) := by
    unfold View.began
    split
    · rename_i run session budget contract hop
      exact absurd hop (hnew run session budget contract)
    · refine ⟨fun hv => ?_, rfl, rfl, rfl, id, fun hv hrefused => ?_⟩
      · simp only [Bool.or_eq_false_iff] at hv
        exact hv.1
      · rw [hl.clean hv] at hrefused
        cases hrefused
  exact hl.view hbegan

theorem Rest.began (h : Rest c v) (hnew : ∀ run session budget contract,
    cmd.operation ≠ .newContext run session budget contract) : Rest c (v.began cmd) := by
  rcases h with hended | hl | hf
  · exact hended.rest
  · exact (hl.began hnew).rest
  · refine .inr (.inr ⟨hf.healthy, hf.pending, hf.next, hf.state, ?_⟩)
    unfold View.began
    split
    · rfl
    · exact hf.announced

theorem during_began (v : View lib) (cmd : Command lib) : During cmd (v.began cmd) := by
  unfold View.began
  split
  · exact ⟨rfl, fun hp => by simp [hp]⟩
  · exact ⟨rfl, fun hp => by simp [hp]⟩

theorem Does.discard {α : Type} {m : HarnessM α} (h : Does m c v (fun _ => Rest)) :
    Does (do let _ ← m) c v (fun (_ : Unit) => Rest) :=
  Does.bind h fun _ _ _ hr => Does.pure hr

theorem method_does {m : HarnessM Unit} (hd : During cmd v) (h : Rest c v)
    (hm : cmd.operation.method cmd.harness = some m) : Does m c v (fun _ => Rest) := by
  cases hop : cmd.operation with
  | newContext | recoverRun | durableApprovalView | recordDurableApprovalDecision
  | recordDurableApprovalOutcome | abortDurableWaiting | resumeDurableLocalWrite =>
    rw [hop] at hm
    exact nomatch (hm : none = some m)
  | startRun authorization =>
    rw [hop] at hm
    obtain rfl := Option.some.inj hm
    exact startRun_does hd h
  | invokeModel request =>
    rw [hop] at hm
    obtain rfl := Option.some.inj hm
    exact Does.discard (invokeModelInternal_does hd h)
  | invokeGroundedModel retrieval request =>
    rw [hop] at hm
    obtain rfl := Option.some.inj hm
    exact Does.discard (invokeGroundedModel_does hd h)
  | retrieveKnowledge request =>
    rw [hop] at hm
    obtain rfl := Option.some.inj hm
    exact Does.discard (retrieveKnowledge_does hd h)
  | prepareAction invocation =>
    rw [hop] at hm
    obtain rfl := Option.some.inj hm
    exact Does.discard (prepareAction_does hd h)
  | invokeValidatedAction action =>
    rw [hop] at hm
    obtain rfl := Option.some.inj hm
    exact Does.discard (invokeValidatedAction_does hd h (by rw [hop]; rfl) (by rw [hop]; nofun))
  | invokeTool call =>
    rw [hop] at hm
    obtain rfl := Option.some.inj hm
    exact Does.discard (invokeTool_does hd h (by rw [hop]; rfl))
  | suspendDurableLocalWrite action durable =>
    rw [hop] at hm
    obtain rfl := Option.some.inj hm
    exact suspendDurableLocalWrite_does hd h
  | checkpoint =>
    rw [hop] at hm
    obtain rfl := Option.some.inj hm
    refine (preflight_does hd h).mono ?_
    rintro _ c v ⟨rfl, rfl, hl⟩
    exact hl.rest
  | beginIteration =>
    rw [hop] at hm
    obtain rfl := Option.some.inj hm
    exact Does.discard (beginIteration_does hd h)
  | recordLoopProgress progress =>
    rw [hop] at hm
    obtain rfl := Option.some.inj hm
    exact recordLoopProgress_does hd h
  | enterGraphNode node kind recovery =>
    rw [hop] at hm
    obtain rfl := Option.some.inj hm
    exact Does.discard (enterGraphNode_does hd h)
  | restartGraphNode previous node kind recovery =>
    rw [hop] at hm
    obtain rfl := Option.some.inj hm
    exact Does.discard (restartGraphNode_does hd h)
  | startGraph | completeGraphNode =>
    rw [hop] at hm
    obtain rfl := Option.some.inj hm
    exact preflightRecord_does hd h rfl rfl rfl rfl
  | completeGraph | failGraph | completeRun | failRun =>
    rw [hop] at hm
    obtain rfl := Option.some.inj hm
    exact finishWith_does hd h (fun _ => rfl) (fun _ => rfl) (fun _ => rfl)
  | cancelRun =>
    rw [hop] at hm
    obtain rfl := Option.some.inj hm
    exact cancelRun_does hd h

theorem fresh_began {run : RunId} {session : SessionId} {budget : RunBudget}
    {contract : RecoveryContract} (hop : cmd.operation = .newContext run session budget contract) :
    Fresh (.newWithRecoveryContract run session budget contract) (v.began cmd) := by
  refine ⟨rfl, rfl, rfl, rfl, ?_⟩
  unfold View.began
  rw [hop]

/-- A method that needs no context. -/
theorem onNothing_wp {α : Type} {p : Prog Answer (Except HarnessError α)}
    (h : p.wp (monitor lib) (fun _ _ => True) v) :
    (onNothing p).wp (monitor lib) Holding.AtRest v :=
  Prog.wp_bind.mpr (Prog.wp_mono h fun _ _ _ => trivial)

/-- The method of a command on a context at rest. -/
theorem method_permitted (cmd : Command lib) {held : Holding} (h : Rest c v) (hheld : held.AtRest v)
    (hnew : ∀ run session budget contract,
      cmd.operation ≠ .newContext run session budget contract) :
    Prog.wp (monitor lib) (match cmd.operation.method cmd.harness with
      | some m => onContext m c
      | none => .pure held) Holding.AtRest (v.began cmd) := by
  cases hm : cmd.operation.method cmd.harness with
  | none =>
    cases held with
    | nothing => trivial
    | context c => exact Rest.began hheld hnew
    | waiting r => exact Live.began hheld hnew
  | some m =>
    refine Prog.wp_bind.mpr (Prog.wp_mono (method_does (during_began v cmd) (h.began hnew) hm) ?_)
    rintro ⟨x, c'⟩ v' hx
    cases x <;> exact hx

theorem Command.code_context_permitted (h : Rest c v) (hnew : ∀ run session budget contract,
    cmd.operation ≠ .newContext run session budget contract) :
    (cmd.code (.context c)).wp (monitor lib) Holding.AtRest (v.began cmd) := by
  have hmethod := method_permitted cmd h (show Holding.AtRest (.context c) v from h) hnew
  unfold Command.code
  cases hop : cmd.operation with
  | newContext run session budget contract => exact absurd hop (hnew run session budget contract)
  | _ =>
    rw [hop] at hmethod
    exact hmethod

/-- Without a context, only the operations that recover first do anything. -/
theorem Command.code_nothing_permitted :
    (cmd.code .nothing).wp (monitor lib) Holding.AtRest (v.began cmd) := by
  have hcmd := (during_began v cmd).command
  unfold Command.code
  cases hop : cmd.operation with
  | newContext run session budget contract => exact .inr (.inr (fresh_began hop))
  | recoverRun key =>
    refine Prog.wp_bind.mpr (Prog.wp_mono (recoverRun_wp hcmd) ?_)
    rintro ⟨x, u⟩ v' hrecovered
    cases x with
    | error e => trivial
    | ok d =>
      cases d with
      | resumable r => exact (hrecovered r (.inl rfl)).1.rest
      | waiting r => exact (hrecovered r (.inr rfl)).1
      | _ => trivial
  | durableApprovalView key waitId => exact onNothing_wp (durableApprovalView_wp hcmd)
  | recordDurableApprovalDecision command =>
    exact onNothing_wp (recordDurableApprovalDecision_wp hcmd)
  | recordDurableApprovalOutcome key waitId version outcome actor =>
    exact onNothing_wp (recordDurableApprovalOutcome_wp hcmd)
  | abortDurableWaiting key waitId version => exact onNothing_wp (abortDurableWaiting_wp hcmd)
  | _ => trivial

theorem Command.code_waiting_permitted {r : RecoveredRun} (h : Live r.context v) :
    (cmd.code (.waiting r)).wp (monitor lib) Holding.AtRest (v.began cmd) := by
  unfold Command.code
  cases hop : cmd.operation with
  | newContext run session budget contract => exact .inr (.inr (fresh_began hop))
  | resumeDurableLocalWrite waitId =>
    have hl : Live r.context (v.began cmd) := h.began (by rw [hop]; nofun)
    have hdoes : Does (resumeDurableLocalWrite lib cmd.harness r.state waitId) r.context
        (v.began cmd) (fun _ => Rest) :=
      resumeDurableLocalWrite_does (during_began v cmd) hl (by rw [hop]; nofun)
    refine Prog.wp_bind.mpr (Prog.wp_mono hdoes ?_)
    rintro ⟨x, c'⟩ v' hx
    cases x with
    | ok result => exact hx
    | error e => trivial
  | _ =>
    have hmethod := method_permitted cmd h.rest (show Holding.AtRest (.waiting r) v from h)
      (by rw [hop]; nofun)
    rw [hop] at hmethod
    exact hmethod

/-- **Every command keeps to the monitor**, whatever it is answered, and leaves what the client
holds at rest. -/
theorem Command.code_permitted {held : Holding} (h : held.AtRest v) :
    (cmd.code held).wp (monitor lib) Holding.AtRest (v.began cmd) := by
  cases held with
  | nothing => exact Command.code_nothing_permitted
  | waiting r => exact Command.code_waiting_permitted h
  | context c =>
    by_cases hnew : ∀ run session budget contract,
        cmd.operation ≠ .newContext run session budget contract
    · exact Command.code_context_permitted h hnew
    · push Not at hnew
      obtain ⟨run, session, budget, contract, hop⟩ := hnew
      unfold Command.code
      rw [hop]
      exact .inr (.inr (fresh_began hop))

end LocalAgent
