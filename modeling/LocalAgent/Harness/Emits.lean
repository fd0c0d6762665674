import LocalAgent.Harness.Sync

/-!
# What an operation emits

An operation on a context asks its environment, moves the status, the usage and the flags of the
context, and emits events: it takes one from `next_event` and sends it to the store at once. `Emits K`
says that a method does nothing else, and that the events are of the kinds in `K`. The predicate is
what every observer of such a method sees who keeps up with these steps (`Upkeep`), so each invariant
of contexts and logs follows for all operations from its own `Upkeep`.
-/
namespace LocalAgent

open Program

/-- The request neither appends to a log nor opens one. -/
def Request.Silent (r : Request) : Prop := r.transition = none ∧ ∀ a, r.openedRun a = none

/-- Nothing has happened that an event tells of. -/
structure SameEvents (c c' : RunContext) : Prop where
  run : c'.runId = c.runId
  next : c'.nextEventSequence = c.nextEventSequence
  state : c'.durableState = c.durableState ∨ c'.durableState = c.durableState.setAuditDegraded

theorem SameEvents.of_eq {c c' : RunContext} (hrun : c'.runId = c.runId)
    (hnext : c'.nextEventSequence = c.nextEventSequence) (hstate : c'.durableState = c.durableState) :
    SameEvents c c' := ⟨hrun, hnext, .inl hstate⟩

/-- `I` holds between the steps of a method, `J e` while `e` is taken and not sent. -/
structure Upkeep (lib : Library) (K : AgentEventKind → Prop) (M : Monitor Answer)
    (I : RunContext → M.View → Prop) (J : AgentEvent → RunContext → M.View → Prop) : Prop where
  silent : ∀ {c v r}, I c v → r.Silent → M.permits v r ∧ ∀ a, I c (M.observe v r a)
  same : ∀ {c c' v}, I c v → SameEvents c c' → I c' v
  taken : ∀ {c c' v e kind}, I c v → K kind → c.nextEvent lib.codec kind = (.ok e, c') → J e c' v
  refused : ∀ {c c' v err kind}, I c v → c.nextEvent lib.codec kind = (.error err, c') → I c' v
  flagged : ∀ {c v e}, J e c v → J e c.markAuditDegraded v
  sent : ∀ {c v e r t}, J e c v → r.transition = some t → t.event = e →
    M.permits v r ∧ ∀ a, I c (M.observe v r a)
  unsent : ∀ {c v e}, J e c v → I c v

/-- The method emits events of `K` only. -/
def Emits (lib : Library) (K : AgentEventKind → Prop) {α : Type} (m : HarnessM α) : Prop :=
  ∀ (M : Monitor Answer) I J, Upkeep lib K M I J → ∀ c v, I c v → Task.wp M m (fun _ => I) c v

/-- It starts while `e` is not sent. -/
def Sends (lib : Library) (K : AgentEventKind → Prop) (e : AgentEvent) {α : Type} (m : HarnessM α) :
    Prop :=
  ∀ (M : Monitor Answer) I J, Upkeep lib K M I J → ∀ c v, J e c v → Task.wp M m (fun _ => I) c v

section Rules

variable {lib : Library} {K : AgentEventKind → Prop} {α β : Type} {m : HarnessM α} {f : α → HarnessM β}
  {e : AgentEvent}

theorem Emits.bind (hm : Emits lib K m) (hf : ∀ a, Emits lib K (f a)) : Emits lib K (m >>= f) := by
  intro M I J hup c v hc
  refine Task.wp_bind.mpr (Task.wp_mono (hm M I J hup c v hc) ?_)
  intro x c v hx
  cases x with
  | ok a => exact hf a M I J hup c v hx
  | error err => exact hx

theorem Sends.bind (hm : Sends lib K e m) (hf : ∀ a, Emits lib K (f a)) : Sends lib K e (m >>= f) := by
  intro M I J hup c v hc
  refine Task.wp_bind.mpr (Task.wp_mono (hm M I J hup c v hc) ?_)
  intro x c v hx
  cases x with
  | ok a => exact hf a M I J hup c v hx
  | error err => exact hx

theorem Emits.pure {a : α} : Emits lib K (pure a : HarnessM α) := fun _ _ _ _ _ _ hc => hc

theorem Emits.fail {err : HarnessError} : Emits lib K (Task.fail err : HarnessM α) :=
  fun _ _ _ _ _ _ hc => hc

theorem Emits.ofExcept {x : Except HarnessError α} : Emits lib K (Task.ofExcept x : HarnessM α) :=
  fun _ _ _ _ _ _ hc => hc

theorem Emits.ofExcept_bind {x : Except HarnessError α} (hf : ∀ a, x = .ok a → Emits lib K (f a)) :
    Emits lib K (Task.ofExcept x >>= f) := by
  cases x with
  | ok a => exact hf a rfl
  | error err => exact fun _ _ _ _ _ _ hc => hc

theorem Emits.look : Emits lib K (Task.look : HarnessM RunContext) := fun _ _ _ _ _ _ hc => hc

theorem Emits.ask {r : Request} (ht : r.transition = none) (hopened : ∀ a, r.openedRun a = none) :
    Emits lib K (LocalAgent.ask r : HarnessM (Answer r)) :=
  fun _ _ _ hup _ _ hc => hup.silent hc ⟨ht, hopened⟩

theorem Emits.attempt (hm : Emits lib K m) : Emits lib K m.attempt :=
  fun M I J hup c v hc => Task.wp_attempt.mpr (hm M I J hup c v hc)

theorem Sends.attempt (hm : Sends lib K e m) : Sends lib K e m.attempt :=
  fun M I J hup c v hc => Task.wp_attempt.mpr (hm M I J hup c v hc)

theorem Emits.ite {p : Prop} [Decidable p] {m' : HarnessM α} (h : Emits lib K m) (h' : Emits lib K m') :
    Emits lib K (if p then m else m') := by
  by_cases hp : p
  · rw [if_pos hp]
    exact h
  · rw [if_neg hp]
    exact h'

/-- A change of the context that no event tells of. -/
theorem Emits.put {g : RunContext → RunContext} (hg : ∀ c, SameEvents c (g c)) :
    Emits lib K (do Task.put (g (← Task.look))) :=
  fun _ _ _ hup c _ hc => hup.same hc (hg c)

theorem nextEvent_step {M : Monitor Answer} {kind : AgentEventKind} {c : RunContext} {v : M.View}
    {Q : Except HarnessError AgentEvent → RunContext → M.View → Prop}
    (hQ : ∀ x c', c.nextEvent lib.codec kind = (x, c') → Q (x.mapError .context) c' v) :
    Task.wp M (LocalAgent.nextEvent lib kind) Q c v := hQ _ _ rfl

/-- **An event is taken**, and what follows sends it. -/
theorem Emits.nextEvent {kind : AgentEventKind} {f : AgentEvent → HarnessM β} (hkind : K kind)
    (hf : ∀ e, e.kind = kind → Sends lib K e (f e)) : Emits lib K (LocalAgent.nextEvent lib kind >>= f) := by
  intro M I J hup c v hc
  refine Task.wp_bind.mpr (nextEvent_step fun x c' hnext => ?_)
  cases x with
  | error err => exact hup.refused hc hnext
  | ok e =>
    obtain ⟨rfl, -⟩ := RunContext.nextEvent_ok hnext
    exact hf _ rfl M I J hup c' v (hup.taken hc hkind hnext)

/-- The same where a refusal is looked at. -/
theorem Emits.nextEvent_attempt {kind : AgentEventKind} {f : Except HarnessError AgentEvent → HarnessM β}
    (hkind : K kind) (hf : ∀ e, e.kind = kind → Sends lib K e (f (.ok e)))
    (herr : ∀ err, Emits lib K (f (.error err))) :
    Emits lib K ((LocalAgent.nextEvent lib kind).attempt >>= f) := by
  intro M I J hup c v hc
  refine Task.wp_bind.mpr (Task.wp_attempt.mpr (nextEvent_step fun x c' hnext => ?_))
  cases x with
  | error err => exact herr _ M I J hup c' v (hup.refused hc hnext)
  | ok e =>
    obtain ⟨rfl, -⟩ := RunContext.nextEvent_ok hnext
    exact hf _ rfl M I J hup c' v (hup.taken hc hkind hnext)

/-- A request that carries the event. -/
theorem Sends.ask {r : Request} {t : AppendTransition} {f : Answer r → HarnessM β}
    (hr : r.transition = some t) (ht : t.event = e) (hf : ∀ a, Emits lib K (f a)) :
    Sends lib K e (LocalAgent.ask r >>= f) := by
  intro M I J hup c v hc
  obtain ⟨hpermits, hobserve⟩ := hup.sent hc hr ht
  exact Task.wp_ask_bind.mpr ⟨hpermits, fun a => hf a M I J hup c _ (hobserve a)⟩

theorem Sends.look {f : RunContext → HarnessM β} (hf : ∀ c, Sends lib K e (f c)) :
    Sends lib K e (Task.look >>= f) := fun M I J hup c v hc => hf c M I J hup c v hc

/-- Nothing sends it. -/
theorem Emits.sends (hm : Emits lib K m) : Sends lib K e m :=
  fun M I J hup c v hc => hm M I J hup c v (hup.unsent hc)

/-- Watches for events that are not in `K`. -/
@[reducible] def kindsOnly (K : AgentEventKind → Prop) : Monitor Answer where
  View := Unit
  permits _ r := ∀ t, r.transition = some t → K t.event.kind
  observe _ _ _ := ()

/-- **Every event that the method ever asks the store to keep is in `K`.** -/
theorem Emits.only (hm : Emits lib K m) : m.Only fun r => ∀ t, r.transition = some t → K t.event.kind := by
  have hup : Upkeep lib K (kindsOnly K) (fun _ _ => True) (fun e _ _ => K e.kind) := by
    refine ⟨fun {c v r} _ hr => ⟨fun t ht => ?_, fun _ => trivial⟩, fun _ _ => trivial,
      fun {c c' v e kind} _ hkind hnext => ?_, fun _ _ => trivial, id, fun {c v e r t} he hr ht => ?_,
      fun _ => trivial⟩
    · rw [hr.1] at ht
      cases ht
    · obtain ⟨rfl, -⟩ := RunContext.nextEvent_ok hnext
      exact hkind
    · refine ⟨fun t' ht' => ?_, fun _ => trivial⟩
      obtain rfl : t = t' := Option.some.inj (hr.symm.trans ht')
      rw [ht]
      exact he
  intro c
  have hwp := hm (kindsOnly K) _ _ hup c () trivial
  unfold Task.wp at hwp
  generalize m c = p at hwp
  induction p with
  | pure a => trivial
  | call r k ih => exact ⟨hwp.1, fun a => ih a (hwp.2 a)⟩

end Rules

/-! ## The guarded helpers -/

section Helpers

variable {lib : Library} {h : ExecutionHarness} {K : AgentEventKind → Prop} {e : AgentEvent}

theorem SameEvents.markAuditDegraded (c : RunContext) : SameEvents c c.markAuditDegraded :=
  ⟨rfl, rfl, .inr rfl⟩

theorem SameEvents.markPersistenceFailed (c : RunContext) : SameEvents c c.markPersistenceFailed :=
  ⟨rfl, rfl, .inl rfl⟩

theorem SameEvents.commitFinished {c c' : RunContext} {outcome : RunOutcome}
    (h : c.commitFinished outcome = .ok c') : SameEvents c c' := by
  unfold RunContext.commitFinished at h
  cases hfinish : c.status.finish outcome with
  | error err =>
    rw [hfinish] at h
    cases h
  | ok status =>
    rw [hfinish] at h
    cases h
    exact ⟨rfl, rfl, .inl rfl⟩

theorem markAuditDegraded_emits : Emits lib K markAuditDegraded := .put SameEvents.markAuditDegraded

theorem markPersistenceFailed_emits : Emits lib K markPersistenceFailed :=
  .put SameEvents.markPersistenceFailed

theorem commitFinished_emits {outcome : RunOutcome} : Emits lib K (commitFinished outcome) := by
  intro M I J hup c v hc
  refine Task.wp_look_bind.mpr ?_
  cases hfinish : c.commitFinished outcome with
  | error err => exact hc
  | ok c' => exact hup.same hc (.commitFinished hfinish)

theorem runtime_emits : Emits lib K runtime := by
  refine .bind .look fun c => ?_
  cases c.runtime with
  | none => exact .fail
  | some r => exact .pure

theorem trustedUnixMillis_emits : Emits lib K trustedUnixMillis := by
  refine .bind (.ask rfl fun _ => rfl) fun t => ?_
  cases t with
  | none => exact .fail
  | some t => exact .pure

theorem requireStatus_emits {operation : HarnessOperation} {required : RunStatus} :
    Emits lib K (requireStatus operation required) :=
  .bind .look fun _ => .ite .fail (.ite .pure .fail)

theorem persistTransition_sends : Sends lib K e (persistTransition h e) := by
  unfold persistTransition
  by_cases hp : h.persistence = true
  · rw [if_pos hp]
    refine .look fun c => .ask rfl rfl fun a => ?_
    cases a with
    | ok u => exact .pure
    | error err => exact .bind markPersistenceFailed_emits fun _ => .fail
  · rw [if_neg hp]
    exact Emits.pure.sends

theorem auditWithRunBounds_emits : Emits lib K (auditWithRunBounds e) := by
  refine .bind .look fun c => ?_
  cases c.runtime with
  | none => exact .pure
  | some r =>
    refine .bind (.ask rfl fun _ => rfl) fun a => ?_
    cases a with
    | ready result => cases result <;> exact .pure
    | cancelled => exact .pure
    | deadlineExceeded => exact .pure

theorem auditWithTimeout_emits {site : AuditSite} : Emits lib K (auditWithTimeout site e) := by
  refine .bind (.ask rfl fun _ => rfl) fun a => ?_
  cases a with
  | ready result => cases result <;> exact .pure
  | cancelled => exact .pure
  | deadlineExceeded => exact .pure

theorem auditTerminalBestEffort_sends : Sends lib K e (auditTerminalBestEffort h e) := by
  refine .bind persistTransition_sends.attempt fun x => ?_
  cases x with
  | error err => exact markPersistenceFailed_emits
  | ok u =>
    refine .bind auditWithTimeout_emits fun result => ?_
    cases result with
    | none => exact .pure
    | some err => exact markAuditDegraded_emits

variable (hK : ∀ kind : AgentEventKind, kind.isProgress = false → K kind)

include hK

theorem terminalize_emits {outcome : RunOutcome} : Emits lib K (terminalize lib h outcome) := by
  intro M I J hup c v hc
  refine Task.wp_look_bind.mpr ?_
  by_cases hrunning : c.status = .running
  · rw [if_pos hrunning]
    cases hfinish : c.commitFinished outcome with
    | error err => exact markAuditDegraded_emits M I J hup c v hc
    | ok c' =>
      dsimp only
      refine Task.wp_bind.mpr (Task.wp_put.mpr ?_)
      refine (?_ : Emits lib K _) M I J hup c' v (hup.same hc (.commitFinished hfinish))
      exact .nextEvent_attempt (hK _ rfl) (fun _ _ => auditTerminalBestEffort_sends) fun _ =>
        markAuditDegraded_emits
  · rw [if_neg hrunning]
    exact hc

theorem recordAuditDegraded_emits : Emits lib K (recordAuditDegraded lib h) := by
  refine .nextEvent (hK _ rfl) fun e _ M I J hup c v hc => ?_
  exact persistTransition_sends M I J hup c.markAuditDegraded v (hup.flagged hc)

theorem applyAuditFailure_emits {operation : HarnessOperation} {phase : AuditPhase}
    {effect : OperationEffect} {kind : AuditPortError} :
    Emits lib K (applyAuditFailure lib h operation phase effect kind) := by
  unfold applyAuditFailure
  cases h.auditFailurePolicy with
  | failClosed => exact .fail
  | failOpen => exact recordAuditDegraded_emits hK

theorem auditAlreadyPersisted_emits {operation : HarnessOperation} {phase : AuditPhase}
    {effect : OperationEffect} {required : Bool} :
    Emits lib K (auditAlreadyPersisted lib h e operation phase effect required) := by
  refine .bind auditWithRunBounds_emits fun o => ?_
  cases o with
  | recorded => exact .pure
  | failed kind =>
    exact .ite (.bind (recordAuditDegraded_emits hK) fun _ => .fail) (applyAuditFailure_emits hK)
  | cancelled => exact .bind (terminalize_emits hK) fun _ => .fail
  | deadlineExceeded => exact .bind (terminalize_emits hK) fun _ => .fail

theorem auditLifecycle_sends {operation : HarnessOperation} :
    Sends lib K e (auditLifecycle lib h e operation) := by
  refine .bind persistTransition_sends fun _ => .bind auditWithTimeout_emits fun x => ?_
  cases x with
  | none => exact .pure
  | some kind => exact applyAuditFailure_emits hK

section Records

variable {kind : AgentEventKind} {operation : HarnessOperation} {phase : AuditPhase}
  {effect : OperationEffect} {mode : ToolAudit}

theorem record_emits (hkind : K kind) : Emits lib K (record lib h kind operation phase effect) :=
  .nextEvent hkind fun _ _ => .bind persistTransition_sends fun _ => auditAlreadyPersisted_emits hK

theorem recordRequired_emits (hkind : K kind) :
    Emits lib K (recordRequired lib h kind operation phase effect) :=
  .nextEvent hkind fun _ _ => .bind persistTransition_sends fun _ => auditAlreadyPersisted_emits hK

theorem recordTool_emits (hkind : K kind) :
    Emits lib K (recordTool lib h mode kind operation phase effect) := by
  cases mode with
  | configured => exact record_emits hK hkind
  | required => exact recordRequired_emits hK hkind

end Records

theorem preflight_emits {operation : HarnessOperation} : Emits lib K (preflight lib h operation) := by
  refine .bind requireStatus_emits fun _ => .bind runtime_emits fun r => .bind .look fun c =>
    .bind (.ask rfl fun _ => rfl) fun cancelled => .ite (.bind (terminalize_emits hK) fun _ => .fail) ?_
  exact .bind (.ask rfl fun _ => rfl) fun now => .ite (.bind (terminalize_emits hK) fun _ => .fail) .pure

theorem reserve_emits {α : Type} {f : RunContext → Except BudgetDimension (α × RunContext)}
    (hf : ∀ c a c', f c = .ok (a, c') → SameEvents c c') : Emits lib K (reserve lib h f) := by
  intro M I J hup c v hc
  refine Task.wp_look_bind.mpr ?_
  cases hreserve : f c with
  | ok p => exact hup.same hc (hf c p.1 p.2 hreserve)
  | error dimension =>
    exact Emits.bind (f := fun _ => (Task.fail (.budgetExceeded dimension) : HarnessM α))
      (terminalize_emits hK) (fun _ => .fail) M I J hup c v hc

end Helpers
end LocalAgent
