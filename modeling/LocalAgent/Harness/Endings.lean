import LocalAgent.Harness.Clients

/-!
# What ends a run

A method ends the run of its context for one of three reasons. It is there to end a run
(`complete_run`, `fail_run`, `cancel_run`, `complete_graph`, `fail_graph`). It reserves from a budget
that is spent. Or an answer tells it to: the run is cancelled or past its deadline, or a port call or a
bounded audit is cut off by either. Besides, `abort_durable_waiting` ends the run that it has read
together with the wait that it gives up, and `start_run` ends a run that it has just created.

`endings` is the monitor that knows of these reasons, and every command keeps to it: the event that ends
a run is never sent without one (`endings_sound`).
-/
namespace LocalAgent

open Program

variable {lib : Library} {α β : Type}

/-! ## The reasons -/

/-- The context that a client offers to a method. -/
def Holding.offers : Holding → Option RunContext
  | .nothing => none
  | .context c => some c
  | .waiting recovered => some recovered.context

/-- `reserve_…` refuses. -/
def RunContext.spent (c : RunContext) : BudgetDimension → Bool
  | .modelCalls => !c.reserveModelCall.isOk
  | .toolCalls => !c.reserveToolCall.isOk
  | .iterations => !c.reserveIteration.isOk
  | .approvalRequests => !c.reserveApprovalRequest.isOk
  | .graphSteps => !c.reserveGraphStep.isOk
  | .elapsed => false

/-- The budgets that a method reserves from. -/
def Operation.reserves : Operation lib → List BudgetDimension
  | .invokeModel .. | .invokeGroundedModel .. => [.modelCalls]
  | .invokeTool .. | .resumeDurableLocalWrite .. => [.toolCalls]
  | .invokeValidatedAction .. => [.approvalRequests, .toolCalls]
  | .suspendDurableLocalWrite .. => [.approvalRequests]
  | .beginIteration => [.iterations]
  | .enterGraphNode .. | .restartGraphNode .. => [.graphSteps]
  | _ => []

/-- The methods that are there to end a run. -/
def Operation.finishes : Operation lib → Bool
  | .completeGraph .. | .failGraph .. | .completeRun | .failRun .. | .cancelRun => true
  | _ => false

/-- The wait that a method gives up together with its run. -/
def Operation.givesUp : Operation lib → Option DurableApprovalWaitId
  | .abortDurableWaiting _ waitId _ => some waitId
  | _ => none

/-- Called on this context, the method ends its run unless it fails before. -/
def Command.endsRun (cmd : Command lib) (c : RunContext) : Bool :=
  cmd.operation.finishes || cmd.operation.reserves.any c.spent

/-- The answer tells a method that was called on this context to end the run. -/
def stopsRun (c : Option RunContext) : (r : Request) → Answer r → Bool
  | .isCancelled _, cancelled => cancelled
  | .instantNow, now => (c.bind (·.runtime)).any fun r => r.deadlineAt ≤ now
  | .audit .bounded _, x => View.cutOff x
  | .modelInvoke .., x | .knowledgeRetrieve .., x | .approvalDecide .., x | .toolInvoke .., x
  | .waitManaged .., x | .waitContained .., x => View.cutOff x
  | _, _ => false

/-- What an observer of one client knows: the command it runs, the context that this began on, and
whether there is a reason to end the run it works on. -/
structure Ending (lib : Library) where
  command : Option (Command lib) := none
  context : Option RunContext := none
  due : Bool := false

namespace Ending

variable (v : Ending lib)

def givesUp : Option DurableApprovalWaitId := v.command.bind fun cmd => cmd.operation.givesUp

/-- A run that is created may be ended by the start, one that is read by the abort, and a wait that is
created outlives the reasons of before. -/
def observe (r : Request) (a : Answer r) : Ending lib :=
  { v with due := match r, a with
      | .createRun .., .ok _ => true
      | .loadRun .recovery _, .ok _ => v.givesUp.isSome
      | .createDurableApprovalWait .., _ => false
      | r, a => v.due || stopsRun v.context r a }

structure permits (r : Request) : Prop where
  due : ∀ t, r.transition = some t → t.event.kind.isFinish = true → v.due = true
  /-- A wait that is given up is consumed with the end of the run. -/
  consumes : ∀ t waitId, r.transition = some t → t.event.kind.isFinish = true →
    v.givesUp = some waitId → ∃ request, r = .transitionDurableApprovalStatus request ∧
      request.waitId = waitId ∧ request.nextStatus = .consumed

end Ending

/-- The monitor of one client. -/
@[reducible] def endingMonitor (lib : Library) : Monitor Answer where
  View := Ending lib
  permits := Ending.permits
  observe := Ending.observe

/-- The monitor of one client, kept for each client. -/
@[reducible] def Setting.endings (S : Setting lib) : Watch S.clients where
  toMonitor := endingMonitor lib
  init := ({} : Ending lib)
  begin _ cmd held := ⟨some cmd, held.offers, held.offers.any cmd.endsRun⟩
  Rest _ _ := True

/-! ## Methods that keep to it -/

/-- Nothing has happened to the clock of a context or to its budgets. -/
structure SameFunds (c c' : RunContext) : Prop where
  runtime : c'.runtime = c.runtime
  usage : c'.usage = c.usage
  budget : c'.budget = c.budget

/-- What has to hold of a context, beside the one that the command began on, while there is no reason
to end its run. -/
structure Terms where
  holds : Option RunContext → RunContext → Prop
  stable : ∀ {held c c'}, SameFunds c c' → holds held c → holds held c'

namespace Terms

def free : Terms := ⟨fun _ _ => True, fun _ => id⟩

/-- Nothing does: there is a reason. -/
def due : Terms := ⟨fun _ _ => False, fun _ => id⟩

theorem spent_congr {c c' : RunContext} (h : SameFunds c c') (d : BudgetDimension) :
    c'.spent d = c.spent d := by
  cases d <;>
    simp only [RunContext.spent, RunContext.reserveModelCall, RunContext.reserveToolCall,
      RunContext.reserveIteration, RunContext.reserveApprovalRequest, RunContext.reserveGraphStep, h.usage,
      h.budget] <;> split <;> rfl

/-- The clock is that of the context the command began on, and the budgets have room. -/
def funded (ds : List BudgetDimension) : Terms where
  holds held c := (∀ r, c.runtime = some r → held.bind (·.runtime) = some r) ∧
    ∀ d ∈ ds, c.spent d = false
  stable h hc := ⟨fun r hr => hc.1 r (h.runtime ▸ hr), fun d hd => (spent_congr h d).trans (hc.2 d hd)⟩

/-- An event of this kind may be sent. -/
def Allows (F : Terms) (kind : AgentEventKind) : Prop :=
  kind.isFinish = true → ∀ held c, ¬ F.holds held c

/-- The clock of the context is known. -/
def Clocked (F : Terms) : Prop :=
  ∀ held c r, F.holds held c → c.runtime = some r → held.bind (·.runtime) = some r

theorem funded_clocked {ds : List BudgetDimension} : (funded ds).Clocked := fun _ _ r h => h.1 r

theorem due_clocked : due.Clocked := fun _ _ _ h => h.elim

theorem due_allows {kind : AgentEventKind} : due.Allows kind := fun _ _ _ => id

theorem Allows.other {F : Terms} {kind : AgentEventKind} (h : kind.isFinish = false) :
    F.Allows kind := fun hfinish => by rw [h] at hfinish; cases hfinish

end Terms

/-- There is a reason to end the run, or the terms hold; and the command gives no wait up. -/
structure Ready (F : Terms) (c : RunContext) (v : Ending lib) : Prop where
  keeps : v.givesUp = none
  terms : v.due = true ∨ F.holds v.context c

/-- The terms are kept, whatever the result. -/
def Steady (lib : Library) (F : Terms) (m : HarnessM α) : Prop :=
  ∀ c (v : Ending lib), Ready F c v → Task.wp (endingMonitor lib) m (fun _ => Ready F) c v

/-- The first terms lead to the others, if the result is no error. -/
def Leads (lib : Library) (F F' : Terms) (m : HarnessM α) : Prop :=
  ∀ c (v : Ending lib), Ready F c v →
    Task.wp (endingMonitor lib) m (fun x c v => ∀ a, x = .ok a → Ready F' c v) c v

section Rules

variable {F F' F'' : Terms} {c c' : RunContext} {v : Ending lib} {m : HarnessM α} {f : α → HarnessM β}

theorem Ready.same (h : Ready F c v) (hsame : SameFunds c c') : Ready F c' v :=
  ⟨h.keeps, h.terms.imp_right (F.stable hsame)⟩

theorem Ready.is_due (h : Ready .due c v) : v.due = true := h.terms.elim id False.elim

/-- Where there is a reason, all terms are met. -/
theorem Ready.of_due (h : Ready .due c v) : Ready F c' v := ⟨h.keeps, .inl h.is_due⟩

theorem Ready.free (h : Ready F c v) : Ready .free c' v := ⟨h.keeps, .inr trivial⟩

theorem Steady.of_due (hm : Steady lib .due m) (h : Ready .due c v) :
    Task.wp (endingMonitor lib) m (fun _ => Ready F) c v :=
  Task.wp_mono (hm c v h) fun _ _ _ h => h.of_due

theorem Steady.bind (hm : Steady lib F m) (hf : ∀ a, Steady lib F (f a)) : Steady lib F (m >>= f) := by
  intro c v hc
  refine Task.wp_bind.mpr (Task.wp_mono (hm c v hc) ?_)
  intro x c v hx
  cases x with
  | ok a => exact hf a c v hx
  | error err => exact hx

theorem Leads.bind (hm : Leads lib F F' m) (hf : ∀ a, Leads lib F' F'' (f a)) :
    Leads lib F F'' (m >>= f) := by
  intro c v hc
  refine Task.wp_bind.mpr (Task.wp_mono (hm c v hc) ?_)
  intro x c v hx
  cases x with
  | ok a => exact hf a c v (hx a rfl)
  | error err => exact fun a ha => by cases ha

theorem Steady.leads (hm : Steady lib F m) : Leads lib F F m :=
  fun c v hc => Task.wp_mono (hm c v hc) fun _ _ _ h _ _ => h

theorem Leads.free (hm : Leads lib F F' m) : Leads lib F .free m :=
  fun c v hc => Task.wp_mono (hm c v hc) fun _ _ _ h a ha => (h a ha).free

/-- What follows a method that keeps the terms. -/
theorem Leads.after (hm : Steady lib F m) (hf : ∀ a, Leads lib F F' (f a)) : Leads lib F F' (m >>= f) :=
  hm.leads.bind hf

theorem Steady.pure {a : α} : Steady lib F (pure a : HarnessM α) := fun _ _ hc => hc

theorem Steady.fail {err : HarnessError} : Steady lib F (Task.fail err : HarnessM α) := fun _ _ hc => hc

theorem Leads.fail {err : HarnessError} : Leads lib F F' (Task.fail err : HarnessM α) :=
  fun _ _ _ a ha => by cases ha

theorem Steady.ofExcept {x : Except HarnessError α} : Steady lib F (Task.ofExcept x : HarnessM α) :=
  fun _ _ hc => hc

theorem Steady.ofExcept_bind {x : Except HarnessError α} (hf : ∀ a, x = .ok a → Steady lib F (f a)) :
    Steady lib F (Task.ofExcept x >>= f) := by
  cases x with
  | ok a => exact hf a rfl
  | error err => exact fun _ _ hc => hc

theorem Steady.look : Steady lib F (Task.look : HarnessM RunContext) := fun _ _ hc => hc

theorem Steady.attempt (hm : Steady lib F m) : Steady lib F m.attempt :=
  fun c v hc => Task.wp_attempt.mpr (hm c v hc)

theorem Steady.ite {p : Prop} [Decidable p] {m' : HarnessM α} (h : Steady lib F m) (h' : Steady lib F m') :
    Steady lib F (if p then m else m') := by
  by_cases hp : p
  · rw [if_pos hp]
    exact h
  · rw [if_neg hp]
    exact h'

theorem Leads.ite {p : Prop} [Decidable p] {m' : HarnessM α} (h : Leads lib F F' m)
    (h' : Leads lib F F' m') : Leads lib F F' (if p then m else m') := by
  by_cases hp : p
  · rw [if_pos hp]
    exact h
  · rw [if_neg hp]
    exact h'

/-- A change of the context that leaves its clock and its budgets alone. -/
theorem Steady.put {g : RunContext → RunContext} (hg : ∀ c, SameFunds c (g c)) :
    Steady lib F (do Task.put (g (← Task.look))) := fun c _ hc => hc.same (hg c)

/-- No run is created, read or suspended by the request. -/
def Request.isPlain : Request → Bool
  | .createRun .. | .loadRun .recovery _ | .createDurableApprovalWait .. => false
  | _ => true

theorem Ending.observe_due {r : Request} {a : Answer r} (hr : r.isPlain = true) :
    (v.observe r a).due = (v.due || stopsRun v.context r a) := by
  cases r with
  | createRun | createDurableApprovalWait => cases hr
  | loadRun purpose key =>
    cases purpose with
    | recovery => cases hr
    | authorization => rfl
  | _ => rfl

theorem Ready.observe {r : Request} {a : Answer r} (hr : r.isPlain = true) (h : Ready F c v) :
    Ready F c (v.observe r a) := by
  refine ⟨h.keeps, h.terms.imp_left fun hdue => ?_⟩
  rw [Ending.observe_due hr, hdue, Bool.true_or]

/-- The answer is a reason. -/
theorem Ready.stopped {r : Request} {a : Answer r} (hr : r.isPlain = true) (h : Ready F c v)
    (ha : stopsRun v.context r a = true) : Ready .due c (v.observe r a) := by
  refine ⟨h.keeps, .inl ?_⟩
  rw [Ending.observe_due hr, ha, Bool.or_true]

/-- The terms allow what the request sends. -/
theorem Ready.permits {r : Request} (h : Ready F c v)
    (hsend : ∀ t, r.transition = some t → F.Allows t.event.kind) : v.permits r where
  due t ht hfinish := h.terms.elim id fun hholds => absurd hholds (hsend t ht hfinish _ _)
  consumes t waitId _ _ hgives := by
    rw [h.keeps] at hgives
    cases hgives

/-- A request that ends no run is always permitted. -/
theorem Ending.permits_other {r : Request}
    (hkind : ∀ t, r.transition = some t → t.event.kind.isFinish = false) : v.permits r where
  due t ht hfinish := by rw [hkind t ht] at hfinish; cases hfinish
  consumes t waitId ht hfinish _ := by rw [hkind t ht] at hfinish; cases hfinish

theorem Ending.permits_silent {r : Request} (hsilent : r.transition = none) : v.permits r :=
  Ending.permits_other fun t ht => by rw [hsilent] at ht; cases ht

/-- **A request** that ends no run. -/
theorem Steady.ask {r : Request} (hr : r.isPlain = true)
    (hsend : ∀ t, r.transition = some t → F.Allows t.event.kind) :
    Steady lib F (LocalAgent.ask r : HarnessM (Answer r)) :=
  fun _ _ hc => ⟨hc.permits hsend, fun _ => hc.observe hr⟩

theorem Steady.askQuiet {r : Request} (hr : r.isPlain = true) (hsilent : r.transition = none) :
    Steady lib F (LocalAgent.ask r : HarnessM (Answer r)) :=
  fun _ _ hc => ⟨Ending.permits_silent hsilent, fun _ => hc.observe hr⟩

/-- What follows a request: an answer that is a reason may be followed by the end of the run. -/
theorem Steady.ask_bind {r : Request} {f : Answer r → HarnessM β} (hr : r.isPlain = true)
    (hsilent : r.transition = none)
    (hf : ∀ a, Steady lib F (f a) ∨ (∀ held, stopsRun held r a = true) ∧ Steady lib .due (f a)) :
    Steady lib F (LocalAgent.ask r >>= f) := by
  intro c v hc
  refine Task.wp_ask_bind.mpr ⟨Ending.permits_silent hsilent, fun a => ?_⟩
  rcases hf a with hgoes | ⟨hstops, hends⟩
  · exact hgoes c _ (hc.observe hr)
  · exact hends.of_due (hc.stopped hr (hstops _))

theorem RunContext.nextEvent_funds {codec : EventCodec} {kind : AgentEventKind}
    {x : Except RunContextError AgentEvent} (h : c.nextEvent codec kind = (x, c')) :
    SameFunds c c' ∧ c'.status = c.status ∧ ∀ e, x = .ok e → e.kind = kind := by
  cases x with
  | error err =>
    obtain ⟨rfl, -⟩ | ⟨e, -, rfl⟩ := RunContext.nextEvent_error h
    · exact ⟨⟨rfl, rfl, rfl⟩, rfl, nofun⟩
    · exact ⟨⟨rfl, rfl, rfl⟩, rfl, nofun⟩
  | ok e =>
    obtain ⟨rfl, -, d, -, rfl⟩ := RunContext.nextEvent_ok h
    exact ⟨⟨rfl, rfl, rfl⟩, rfl, by rintro _ ⟨⟩; rfl⟩

theorem nextEvent_steady {kind : AgentEventKind} : Steady lib F (nextEvent lib kind) :=
  fun _ _ hc => hc.same (RunContext.nextEvent_funds rfl).1

theorem Ending.nextEvent_step {kind : AgentEventKind}
    {Q : Except HarnessError AgentEvent → RunContext → Ending lib → Prop}
    (hok : ∀ e c', SameFunds c c' → c'.status = c.status → e.kind = kind → Q (.ok e) c' v)
    (herr : ∀ err c', SameFunds c c' → Q (.error err) c' v) :
    Task.wp (endingMonitor lib) (LocalAgent.nextEvent lib kind) Q c v := by
  have hstep : ∀ x c', c.nextEvent lib.codec kind = (x, c') → Q (x.mapError .context) c' v := by
    intro x c' hnext
    obtain ⟨hsame, hstatus, hkind⟩ := RunContext.nextEvent_funds hnext
    cases x with
    | error err => exact herr _ c' hsame
    | ok e => exact hok e c' hsame hstatus (hkind e rfl)
  exact hstep _ _ rfl

/-- An event is taken, and what follows sends it. -/
theorem Steady.nextEvent {kind : AgentEventKind} {f : AgentEvent → HarnessM β}
    (hf : ∀ e, e.kind = kind → Steady lib F (f e)) : Steady lib F (LocalAgent.nextEvent lib kind >>= f) :=
  fun _ v hc => Task.wp_bind.mpr (Ending.nextEvent_step
    (fun e c' hsame _ hkind => hf e hkind c' v (hc.same hsame)) fun _ _ hsame => hc.same hsame)

theorem Leads.nextEvent {kind : AgentEventKind} {f : AgentEvent → HarnessM β}
    (hf : ∀ e, e.kind = kind → Leads lib F F' (f e)) :
    Leads lib F F' (LocalAgent.nextEvent lib kind >>= f) :=
  fun _ v hc => Task.wp_bind.mpr (Ending.nextEvent_step
    (fun e c' hsame _ hkind => hf e hkind c' v (hc.same hsame)) fun _ _ _ _ ha => by cases ha)

/-- The same where a refusal is looked at. -/
theorem Steady.nextEvent_attempt {kind : AgentEventKind} {f : Except HarnessError AgentEvent → HarnessM β}
    (hf : ∀ e, e.kind = kind → Steady lib F (f (.ok e))) (herr : ∀ err, Steady lib F (f (.error err))) :
    Steady lib F ((LocalAgent.nextEvent lib kind).attempt >>= f) :=
  fun _ v hc => Task.wp_bind.mpr (Task.wp_attempt.mpr (Ending.nextEvent_step
    (fun e c' hsame _ hkind => hf e hkind c' v (hc.same hsame))
    fun err c' hsame => herr err c' v (hc.same hsame)))

end Rules

end LocalAgent
