import LocalAgent.Harness.Conduct

/-!
# Calling the ports

The rules for the model, approval and tool ports and for what is recorded after a tool call. A
tool call that was cut off is the one place where a run is ended first and the call recorded
afterwards; `ToolDone` keeps the context together with its log across that.
-/
namespace LocalAgent

open Program

variable {lib : Library} {c c' : RunContext} {v v' : View lib} {cmd : Command lib}

/-! ## Model and approval -/

theorem reapNothing_wp {ε : Type} {wrap : ε → HarnessError} :
    Task.wp (monitor lib) (pure () : HarnessM Unit) (fun x c' v' => c' = c ∧
      (x = .ok () ∧ v' = v ∨ (∃ err, x = .error (wrap err)) ∧ v' = v)) c v :=
  ⟨rfl, .inl ⟨rfl, rfl⟩⟩

theorem invokeModelPort_wp {id : ModelCallId} {request : ModelRequest} (hd : During cmd v)
    (hl : Live c v) (harmed : v.persistent = true → v.armed = some (c.runId, .model id)) :
    Task.wp (monitor lib) (invokeModelPort lib cmd.harness id request) (fun x c' v' =>
      ∃ a w, Called (.model id) [] v w ∧ PortDone .modelPort a c w w x c' v') c v := by
  refine Task.wp_bind.mpr (runtime_wp hl fun r => ?_)
  refine Task.wp_look_bind.mpr (Task.wp_ask_bind.mpr ⟨View.permits_port rfl harmed trivial,
    fun a => ?_⟩)
  have hcalled : Called (.model id) [] v (v.observe (.modelInvoke c.runId id request) a) :=
    View.observe_port rfl a
  refine Task.wp_mono (settle_wp (hl.view hcalled.sameLog) (hcalled.during hd) reapNothing_wp) ?_
  intro x c' v' h
  exact ⟨a, _, hcalled, h⟩

/-- The approval port was asked in the state of the audit that the context knows. -/
theorem awaitApproval_wp {request : ApprovalRequest} (hd : During cmd v) (hl : Live c v)
    (harmed : v.persistent = true → v.armed = some (c.runId, .approval request.id)) :
    Task.wp (monitor lib) (awaitApproval lib cmd.harness request) (fun x c' v' =>
      ∃ a w, Called (.approval request.id)
          (factsOf (.approvalDecide c.runId request c.auditDegraded) a) v w ∧
        PortDone .approvalPort a c w w x c' v') c v := by
  refine Task.wp_bind.mpr (runtime_wp hl fun r => ?_)
  refine Task.wp_look_bind.mpr (Task.wp_ask_bind.mpr ⟨View.permits_port rfl harmed trivial,
    fun a => ?_⟩)
  have hcalled : Called (.approval request.id) _ v
      (v.observe (.approvalDecide c.runId request c.auditDegraded) a) := View.observe_port rfl a
  refine Task.wp_mono (settle_wp (hl.view hcalled.sameLog) (hcalled.during hd) reapNothing_wp) ?_
  intro x c' v' h
  exact ⟨a, _, hcalled, h⟩

/-! ## Tools -/

/-- The errors that a tool or containment port itself reports. -/
def HarnessError.isToolPort : HarnessError → Bool
  | .toolPort _ | .containmentPort _ => true
  | _ => false

/-- What a tool call leaves: a live context, or an ended one that can still record the call. -/
structure ToolDone (cmd : Command lib) (id : ToolCallId) (x : Except HarnessError ToolResult)
    (c : RunContext) (v : View lib) : Prop where
  during : During cmd v
  called : v.called = some (.tool id)
  stopped : Live c v ∨ (∃ e, x = .error e ∧ e.isToolPort = false) ∧ c.status.isFinished = true ∧
    Tracks c v ∧ v.interrupted = true

theorem ToolDone.of_port {ε : Type} {wrap : ε → HarnessError} {id : ToolCallId}
    {answer : Awaited (Except ε ToolResult)} {w : View lib} {x : Except HarnessError ToolResult}
    (hl : Live c v) (hd : During cmd v) (hcalled : v.called = some (.tool id))
    (hw : View.cutOff answer = true → During cmd w ∧ w.called = some (.tool id) ∧
      w.interrupted = true ∧ (w.volatile = false → w.refused = false) ∧
      (w.volatile = false → w.current = true))
    (h : PortDone wrap answer c v w x c' v') : ToolDone cmd id x c' v' := by
  cases x with
  | ok a =>
    obtain ⟨-, rfl, rfl⟩ := h
    exact ⟨hd, hcalled, .inl hl⟩
  | error e =>
    rcases h with ⟨-, rfl, rfl⟩ | ⟨hcancel, hcut, ht⟩
    · exact ⟨hd, hcalled, .inl hl⟩
    · obtain ⟨hdw, hcw, hi, hclean, hcurrent⟩ := hw hcut
      refine ⟨ht.kept.during hdw, ht.kept.called.trans hcw, .inr ⟨⟨e, rfl, ?_⟩, ht.finished, ?_,
        ht.kept.interrupted.trans hi⟩⟩
      · rcases hcancel with rfl | rfl <;> rfl
      · exact ht.tracks hi hclean hcurrent

/-- A tool that can be dropped. -/
theorem invokeToolPort_wp {call : ToolCall} (hd : During cmd v) (hl : Live c v)
    (hcurrent : v.volatile = false → v.current = true)
    (harmed : v.persistent = true → v.armed = some (c.runId, .tool call.id))
    (hdispatch : v.Dispatches call false) :
    Task.wp (monitor lib) (invokeToolPort lib cmd.harness call) (ToolDone cmd call.id) c v := by
  refine Task.wp_bind.mpr (runtime_wp hl fun r => ?_)
  refine Task.wp_look_bind.mpr (Task.wp_ask_bind.mpr ⟨View.permits_port rfl harmed hdispatch,
    fun a => ?_⟩)
  have hcalled : Called (.tool call.id) _ v (v.observe (.toolInvoke c.runId call) a) :=
    View.observe_port rfl a
  have hl' := hl.view hcalled.sameLog
  have hd' := hcalled.during hd
  refine Task.wp_mono (settle_wp hl' hd' reapNothing_wp) ?_
  intro x c' v' h
  refine ToolDone.of_port hl' hd' hcalled.called (fun hcut => ?_) h
  refine ⟨hd', hcalled.called, ?_, hl'.clean, fun hv => ?_⟩
  · simp [View.observe, View.step, hcut, View.interrupt]
  · rw [hcalled.current]
    exact hcurrent (hcalled.volatile.symm.trans hv)

theorem reapContained_wp {run : RunId} {id : ToolCallId} :
    Task.wp (monitor lib) (do mapErr .containmentPort (← ask (.reapContained run id)) : HarnessM Unit)
      (fun x c' v' => c' = c ∧ (x = .ok () ∧ v' = v.interrupt ∨
        (∃ err, x = .error (.containmentPort err)) ∧ v' = v)) c v := by
  refine Task.wp_ask_bind.mpr ⟨View.permits_of_unrecorded rfl rfl trivial, fun a => ?_⟩
  cases a with
  | ok u => exact ⟨rfl, .inl ⟨rfl, by simp [monitor, View.observe, View.step, factsOf, View.interrupt]⟩⟩
  | error err => exact ⟨rfl, .inr ⟨⟨err, rfl⟩, by simp [monitor, View.observe, View.step, factsOf]⟩⟩

theorem reapManaged_wp {run : RunId} {id : ToolCallId} :
    Task.wp (monitor lib) (do mapErr .toolPort (← ask (.reapManaged run id)) : HarnessM Unit)
      (fun x c' v' => c' = c ∧ (x = .ok () ∧ v' = v.interrupt ∨
        (∃ err, x = .error (.toolPort err)) ∧ v' = v)) c v := by
  refine Task.wp_ask_bind.mpr ⟨View.permits_of_unrecorded rfl rfl trivial, fun a => ?_⟩
  cases a with
  | ok u => exact ⟨rfl, .inl ⟨rfl, by simp [monitor, View.observe, View.step, factsOf, View.interrupt]⟩⟩
  | error err => exact ⟨rfl, .inr ⟨⟨err, rfl⟩, by simp [monitor, View.observe, View.step, factsOf]⟩⟩

/-- The part that managed and contained tools share: the answer to the start, then the wait, and a
reap before the run is ended. -/
theorem started_wp {ε : Type} {wrap : ε → HarnessError} {toolId : ToolCallId} {facts : List Fact}
    {wait : Request} {read : Answer wait → Awaited (Except ε ToolResult)} {reap : HarnessM Unit}
    {start : Except ε Unit} (hl : Live c v) (hd : During cmd v)
    (hcurrent : v.volatile = false → v.current = true) (hcalled : Called (.tool toolId) facts v v')
    (hwait : wait.quiet = true)
    (hreap : Task.wp (monitor lib) reap (fun x c₁ v₁ => c₁ = c ∧
      (x = .ok () ∧ v₁ = v'.interrupt ∨ (∃ err, x = .error (wrap err)) ∧ v₁ = v')) c v') :
    Task.wp (monitor lib) (do
      mapErr wrap start
      settle lib cmd.harness reap wrap (read (← ask wait))) (ToolDone cmd toolId) c v' := by
  have hl' := hl.view hcalled.sameLog
  have hd' := hcalled.during hd
  have hsame : SameLog v' v'.interrupt := ⟨id, rfl, rfl, rfl, id, fun _ _ => id⟩
  have hdi : During cmd v'.interrupt := ⟨hd'.command, hd'.volatile⟩
  have hcurrent' : v'.volatile = false → v'.current = true := by
    intro hv
    rw [hcalled.current]
    exact hcurrent (hcalled.volatile.symm.trans hv)
  cases start with
  | error err => exact ⟨hd', hcalled.called, .inl hl'⟩
  | ok u =>
    refine Task.wp_bind.mpr (Task.wp_ofExcept.mpr (askQuiet_wp hwait fun answer => ?_))
    refine Task.wp_mono (settle_wp (hl'.view hsame) hdi hreap) ?_
    intro x c₂ v₂ h
    exact ToolDone.of_port hl' hd' hcalled.called (fun _ => ⟨hdi, hcalled.called, rfl, hl'.clean,
      hcurrent'⟩) h

theorem invokeContainedToolPort_wp {call : ToolCall} (hd : During cmd v) (hl : Live c v)
    (hcurrent : v.volatile = false → v.current = true)
    (harmed : v.persistent = true → v.armed = some (c.runId, .tool call.id))
    (hdispatch : v.Dispatches call true) :
    Task.wp (monitor lib) (invokeContainedToolPort lib cmd.harness call) (ToolDone cmd call.id) c v := by
  refine Task.wp_bind.mpr (runtime_wp hl fun r => ?_)
  refine Task.wp_look_bind.mpr (Task.wp_ask_bind.mpr ⟨View.permits_port rfl harmed hdispatch,
    fun a => ?_⟩)
  exact started_wp hl hd hcurrent (View.observe_port rfl a) rfl reapContained_wp

theorem invokeManagedToolPort_wp {call : ToolCall} (hd : During cmd v) (hl : Live c v)
    (hcurrent : v.volatile = false → v.current = true)
    (harmed : v.persistent = true → v.armed = some (c.runId, .tool call.id))
    (hdispatch : v.Dispatches call false) :
    Task.wp (monitor lib) (invokeManagedToolPort lib cmd.harness call) (ToolDone cmd call.id) c v := by
  refine Task.wp_bind.mpr (runtime_wp hl fun r => ?_)
  refine Task.wp_look_bind.mpr (Task.wp_ask_bind.mpr ⟨View.permits_port rfl harmed hdispatch,
    fun a => ?_⟩)
  exact started_wp hl hd hcurrent (View.observe_port rfl a) rfl reapManaged_wp

/-- Whatever the binding. Only a contained one may serve a tool that writes. -/
theorem invokeBoundPort_wp {binding : ExecutionBinding} {call : ToolCall} (hd : During cmd v)
    (hl : Live c v) (hcurrent : v.volatile = false → v.current = true)
    (harmed : v.persistent = true → v.armed = some (c.runId, .tool call.id))
    (hdispatch : ∀ contained, v.Dispatches call contained) :
    Task.wp (monitor lib) (invokeBoundPort lib cmd.harness binding call) (ToolDone cmd call.id) c v := by
  cases binding with
  | direct => exact invokeToolPort_wp hd hl hcurrent harmed (hdispatch false)
  | managedDirect => exact invokeManagedToolPort_wp hd hl hcurrent harmed (hdispatch false)
  | contained => exact invokeContainedToolPort_wp hd hl hcurrent harmed (hdispatch true)

/-! ## Recording the end of a tool call -/

theorem recordToolTerminal_does {id : ToolCallId} {kind : AgentEventKind}
    {operation : HarnessOperation} {mode : ToolAudit} (hd : During cmd v) (hl : Live c v)
    (hcalled : v.called = some (.tool id)) (hkind : kind.closes = some (.tool id)) :
    Does (recordToolTerminalEvent lib cmd.harness kind operation mode) c v
      (fun _ c' v' => Live c' v' ∧ During cmd v') := by
  have hplain : kind.isRunFinished = false ∧ kind.counts = none ∧ kind.restricted = none := by
    cases kind <;> first | exact ⟨rfl, rfl, rfl⟩ | cases hkind
  refine (recordTool_does hd hl hplain.1 (.uncounted hplain.2.1) ?_ ?_).mono ?_
  · intro key hkey
    rw [hcalled, ← hkey, hkind]
  · intro id hid
    rw [hplain.2.2] at hid
    cases hid
  · intro _ c' v' h
    exact ⟨h.live, h.kept.during hd⟩

theorem recordToolTerminalAfterRuntimeError_does {id : ToolCallId} {operation : HarnessOperation}
    {mode : ToolAudit} {x : Except HarnessError ToolResult} (h : ToolDone cmd id x c v) :
    Does (recordToolTerminalAfterRuntimeError lib cmd.harness id operation mode) c v
      (fun _ c' v' => Rest c' v') := by
  unfold recordToolTerminalAfterRuntimeError
  refine Does.look ?_
  rcases h.stopped with hl | ⟨-, hfinished, ht, hinterrupted⟩
  · rw [if_pos hl.running]
    refine (recordToolTerminal_does h.during hl h.called rfl).mono ?_
    intro _ c' v' hl'
    exact hl'.1.rest
  · have hne : c.status ≠ .running := by
      intro hrunning
      rw [hrunning] at hfinished
      cases hfinished
    rw [if_neg hne]
    refine Does.attempt (P := fun x c' v' => v' = v ∧ c'.status = c.status ∧
      ∀ e, x = .ok e → Sendable e c' v ∧ e.kind.opens = none ∧ e.kind.restricted = none) (nextEvent_wp ?_ ?_) ?_
    · intro e c₁ he
      obtain ⟨hkind, -, -, hstatus, -⟩ := RunContext.nextEvent_kept (v := v) he
      refine ⟨rfl, hstatus, ?_⟩
      rintro e' ⟨⟩
      refine ⟨⟨ht.taken (.uncounted rfl) he, fun _ _ _ _ _ => .inl hinterrupted, ?_⟩, ?_⟩
      · intro key hkey
        rw [hkind] at hkey
        rw [h.called, ← hkey]
        rfl
      · rw [hkind]
        exact ⟨rfl, rfl⟩
    · intro err c₁ he
      refine ⟨rfl, ?_, nofun⟩
      rcases RunContext.nextEvent_error he with ⟨rfl, -⟩ | ⟨e, -, rfl⟩ <;> rfl
    · rintro x c₁ v₁ ⟨rfl, hstatus, hsend⟩
      rw [← hstatus] at hfinished
      cases x with
      | ok e =>
        obtain ⟨hs, hopens, hplain⟩ := hsend e rfl
        refine Task.wp_mono (auditTerminalBestEffort_wp h.during hs hopens hplain) ?_
        intro y c₂ v₂ hn
        rw [hn.ok]
        refine Ended.rest (.inr ?_)
        rw [hn.status]
        exact hfinished
      | error err => exact Ended.rest (.inr hfinished)

theorem toolTerminalKind_closes {id : ToolCallId} {result : ToolResult} :
    (toolTerminalKind id result).closes = some (.tool id) := by
  cases result <;> rfl

/-- **After a tool call** its end is recorded, whatever it was. -/
theorem finishToolInvocation_does {id : ToolCallId} {operation : HarnessOperation}
    {x : Except HarnessError ToolResult} {mode : ToolAudit} (h : ToolDone cmd id x c v) :
    Does (finishToolInvocation lib cmd.harness id operation x mode) c v
      (fun _ c' v' => Live c' v' ∧ During cmd v') := by
  have hlive : (∀ e, x = .error e → e.isToolPort = true) → Live c v := by
    intro hx
    rcases h.stopped with hl | ⟨⟨e, he, hno⟩, -⟩
    · exact hl
    · rw [hx e he] at hno
      cases hno
  have hfailed : (∀ e, x = .error e → e.isToolPort = true) → ∀ err : HarnessError,
      Does (do
        recordToolTerminalEvent lib cmd.harness (.toolInvocationAdapterFailed id) operation mode
        (Task.fail err : HarnessM ToolResult)) c v (fun _ c' v' => Live c' v' ∧ During cmd v') := by
    intro hx err
    refine Does.bind (recordToolTerminal_does h.during (hlive hx) h.called rfl) ?_
    intro _ c' v' hl'
    exact Does.fail hl'.1.rest
  cases x with
  | ok result =>
    unfold finishToolInvocation
    dsimp only
    split_ifs with hid
    · exact hfailed nofun _
    · refine Does.bind (recordToolTerminal_does h.during (hlive nofun) h.called
        toolTerminalKind_closes) ?_
      intro _ c' v' hl'
      exact Does.pure hl'
  | error err =>
    cases err with
    | toolPort error => exact hfailed (by rintro e ⟨⟩; rfl) _
    | containmentPort error => exact hfailed (by rintro e ⟨⟩; rfl) _
    | _ =>
      refine Does.bind (recordToolTerminalAfterRuntimeError_does h) ?_
      intro _ c' v' hrest
      exact Does.fail hrest

end LocalAgent
