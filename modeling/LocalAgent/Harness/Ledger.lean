import LocalAgent.Harness.Clients
import LocalAgent.Lib.Dialogue

/-!
# A context and its persisted log, while the store confirms every call

The files before this one hold whatever is answered. This one is about a client that is alone
with its run and whose persistence calls all succeed: the `KnownRun` of the dialogue is then the
persisted log. `Standing` is where a context stands: the durable state behind it, and the status
and the usage of its own. `Goes` is a triple over standings; an operation starts and ends `even`,
that is with a status and a usage which are those of the durable state, and in between it may be
ahead of it.
-/
namespace LocalAgent

open Program

/-! ## The persisted run -/

/-- The run of a client after an answer: created or read, or longer by an event. -/
def recorded (l : Option KnownRun) (r : Request) (a : Answer r) : Option KnownRun :=
  match r.openedRun a with
  | some k => some k
  | none =>
    if r.accepted a then
      l.map fun k => { k with log := k.log ++ (r.transition.map AppendTransition.event).toList }
    else l

/-- The evidence keeps to the route that was asked for (the checks of the reducer on it). -/
def evidenceFits (request : KnowledgeRequest) (id : KnowledgeRetrievalId) (evidence : EvidenceSet) :
    Bool :=
  match retrievalCompleted id evidence with
  | .ok (.knowledgeRetrievalCompleted _ snapshots references count _ _ _) =>
    !DurableRunState.completionRejected request.route snapshots references count
  | _ => true

/-- An answer that leaves the client what it relies on: a persistence call succeeds, the log stays
below `u64::MAX` events, and evidence keeps to its route. -/
structure Sound (r : Request) (a : Answer r) : Prop where
  confirmed : r.isPersistence = true → r.confirmed a = true
  room : ∀ t, r.transition = some t → t.event.sequence + 1 < u64Max
  evidence : ∀ run id request evidence, (⟨r, a⟩ : (r : Request) × Answer r) =
    ⟨.knowledgeRetrieve run id request, .ready (.ok evidence)⟩ → evidenceFits request id evidence = true

/-- The environments of this file. -/
structure Honest (env : Environment Answer (Option KnownRun)) : Prop where
  recorded : ∀ {l r a l'}, env l r a l' → l' = recorded l r a
  sound : ∀ {l r a l'}, env l r a l' → Sound r a

/-- Every event can be serialized. -/
def Library.Serializes (lib : Library) : Prop := ∀ e, (lib.codec.toVec e).isSome = true

namespace DurableRunState

variable {s s' : DurableRunState} {flag : Bool} {digest : Bytes32} {last : Option Nat}

@[simp] theorem stamp_stamp {flag' : Bool} {digest' : Bytes32} {last' : Option Nat} :
    (s.stamp flag digest last).stamp flag' digest' last' = s.stamp flag' digest' last' := rfl

/-- The state with the run ended. -/
def finish (outcome : RunOutcome) (s : DurableRunState) : DurableRunState :=
  { s with context.status := .finished outcome }

/-- The reducer accepts the event. -/
def Takes (s : DurableRunState) (kind : AgentEventKind) : Prop := ∃ s', s.applyKind kind = .ok s'

end DurableRunState

/-! ## Standings -/

/-- Where a context stands. -/
structure Standing where
  durable : DurableRunState
  status : RunStatus
  usage : BudgetUsage

/-- The context says what its durable state says. -/
def Standing.even (s : DurableRunState) : Standing := ⟨s, s.context.status, s.context.usage⟩

variable (lib : Library)

/-- The context stands at `x`, and its durable state is the replay of the persisted log, up to an
audit flag that was set without an event. -/
structure Stands (x : Standing) (c : RunContext) (k : KnownRun) : Prop where
  healthy : c.persistenceFailed = false
  status : c.status = x.status
  usage : c.usage = x.usage
  budget : c.budget = x.durable.context.budget
  clock : x.status = .running → c.runtime.isSome = true
  run : c.runId = c.durableState.context.key.runId
  stamped : ∃ flag digest last, c.durableState = x.durable.stamp flag digest last
  next : c.nextEventSequence = k.log.length
  expected : c.durableState.expectedSequence = k.log.length
  room : k.log.length < u64Max
  replayed : ∃ t, (DurableRunState.initial k.record).replay lib.codec k.log = .ok t ∧
    (c.durableState = t ∨ c.durableState = t.setAuditDegraded)

def StandsIn (x : Standing) (c : RunContext) (l : Option KnownRun) : Prop :=
  ∃ k, l = some k ∧ Stands lib x c k

/-- The context has taken `e` and stands at `x` once the store has it. -/
structure Owes (e : AgentEvent) (x : Standing) (c : RunContext) (k : KnownRun) : Prop where
  sequence : e.sequence = k.log.length
  pays : k.log.length + 1 < u64Max → Stands lib x c { k with log := k.log ++ [e] }

variable {lib}

section

variable {x y : Standing} {c : RunContext} {k : KnownRun} {l l' : Option KnownRun} {e : AgentEvent}
  {kind : AgentEventKind} {s' : DurableRunState}

/-- `apply` on the state of a standing context. -/
theorem Stands.apply (hserde : lib.Serializes) (h : Stands lib x c k) {d : DurableRunState}
    (hkind : c.durableState.applyKind kind = .ok d) :
    ∃ bytes, c.durableState.apply lib.codec (.new c.runId c.nextEventSequence kind) =
      .ok (d.chained lib.codec (.new c.runId c.nextEventSequence kind) bytes) := by
  obtain ⟨bytes, hbytes⟩ := Option.isSome_iff_exists.mp (hserde (.new c.runId c.nextEventSequence kind))
  refine ⟨bytes, ?_⟩
  have hnext : c.nextEventSequence = c.durableState.expectedSequence := h.next.trans h.expected.symm
  have hrun : c.runId = c.durableState.context.key.runId := h.run
  unfold DurableRunState.apply
  simp [AgentEvent.new, hrun, hnext, hkind]
  rw [← hrun, ← hnext]
  simp only [AgentEvent.new] at hbytes
  rw [hbytes]
  rfl

/-- **An event that the reducer accepts is taken**, and owed to the store. -/
theorem Stands.take (hserde : lib.Serializes) (h : Stands lib x c k) (flag : Bool) (digest : Bytes32)
    (last : Option Nat) (hkind : c.durableState.applyKind kind = .ok (s'.stamp flag digest last)) :
    ∃ e c', c.nextEvent lib.codec kind = (.ok e, c') ∧ e.kind = kind ∧
      Owes lib e ⟨s', x.status, x.usage⟩ c' k := by
  obtain ⟨bytes, happly⟩ := h.apply hserde hkind
  have hsame := (DurableRunState.applyKind_rule hkind).sameRun
  have hlt : c.nextEventSequence < u64Max := h.next ▸ h.room
  refine ⟨.new c.runId c.nextEventSequence kind, { c with
    nextEventSequence := c.nextEventSequence + 1
    durableState := (s'.stamp flag digest last).chained lib.codec
      (.new c.runId c.nextEventSequence kind) bytes }, ?_, rfl, h.next, fun hroom => ?_⟩
  · simp only [RunContext.nextEvent, checkedNext, if_pos hlt, happly]
  · refine ⟨h.healthy, h.status, h.usage, ?_, h.clock, ?_, ⟨_, _, _, rfl⟩, ?_, ?_, ?_, ?_⟩
    · obtain ⟨f, d, n, hstate⟩ := h.stamped
      have hbudget := hsame.budget
      rw [hstate] at hbudget
      exact h.budget.trans hbudget.symm
    · exact h.run.trans (congrArg RunKey.runId hsame.key.symm)
    · simp [h.next]
    · simp [DurableRunState.expectedSequence, DurableRunState.chained, AgentEvent.new, checkedNext,
        h.next, h.room]
    · simpa using hroom
    · obtain ⟨t, hreplay, hcopy⟩ := h.replayed
      rcases hcopy with hcopy | hcopy
      · rw [hcopy] at happly
        exact ⟨_, DurableRunState.replay_concat.mpr ⟨t, hreplay, happly⟩, .inl rfl⟩
      · rw [hcopy, DurableRunState.apply_setAuditDegraded] at happly
        cases ht : t.apply lib.codec (.new c.runId c.nextEventSequence kind) with
        | error err =>
          rw [ht] at happly
          cases happly
        | ok t' =>
          rw [ht] at happly
          exact ⟨t', DurableRunState.replay_concat.mpr ⟨t, hreplay, ht⟩, .inr (Except.ok.inj happly).symm⟩

theorem Stands.takes (hserde : lib.Serializes) (h : Stands lib x c k) (hk : kind ≠ .auditDegraded)
    (htakes : x.durable.applyKind kind = .ok s') :
    ∃ e c', c.nextEvent lib.codec kind = (.ok e, c') ∧ e.kind = kind ∧
      Owes lib e ⟨s', x.status, x.usage⟩ c' k := by
  obtain ⟨flag, digest, last, hstate⟩ := h.stamped
  refine h.take hserde flag digest last ?_
  rw [hstate, DurableRunState.applyKind_stamp hk, htakes]
  rfl

/-- The degraded audit leaves the context where it is. -/
theorem Stands.takes_auditDegraded (hserde : lib.Serializes) (h : Stands lib x c k) :
    ∃ e c', c.nextEvent lib.codec .auditDegraded = (.ok e, c') ∧ e.kind = .auditDegraded ∧
      Owes lib e x c' k := by
  obtain ⟨flag, digest, last, hstate⟩ := h.stamped
  have hkind : c.durableState.applyKind .auditDegraded = .ok (x.durable.stamp true digest last) := by
    rw [hstate]
    rfl
  exact h.take hserde true digest last hkind

/-- The audit flag may be set without an event. -/
theorem Stands.markAuditDegraded (h : Stands lib x c k) : Stands lib x c.markAuditDegraded k := by
  obtain ⟨flag, digest, last, hstate⟩ := h.stamped
  obtain ⟨t, hreplay, hcopy⟩ := h.replayed
  refine ⟨h.healthy, h.status, h.usage, h.budget, h.clock, h.run, ⟨true, digest, last, ?_⟩, h.next,
    h.expected, h.room, t, hreplay, .inr ?_⟩
  · simp [RunContext.markAuditDegraded, hstate, DurableRunState.setAuditDegraded, DurableRunState.stamp]
  · rcases hcopy with hcopy | hcopy
    · simp [RunContext.markAuditDegraded, hcopy]
    · simp [RunContext.markAuditDegraded, hcopy, DurableRunState.setAuditDegraded]

theorem Owes.markAuditDegraded (h : Owes lib e x c k) : Owes lib e x c.markAuditDegraded k :=
  ⟨h.sequence, fun hroom => (h.pays hroom).markAuditDegraded⟩

/-- The store has taken the event. -/
theorem Owes.paid {env : Environment Answer (Option KnownRun)} (henv : Honest env)
    (h : Owes lib e x c k) {r : Request} {a : Answer r} {t : AppendTransition}
    (hr : r.transition = some t) (ht : t.event = e) (hopened : r.openedRun a = none)
    (hstep : env (some k) r a l') : r.accepted a = true ∧ StandsIn lib x c l' := by
  have hsound := henv.sound hstep
  have haccepted : r.accepted a = true := by
    cases r with
    | appendTransition | createDurableApprovalWait | recordDurableApprovalDecision
    | transitionDurableApprovalStatus =>
      cases a with
      | ok u => rfl
      | error err => exact absurd (hsound.confirmed rfl) Bool.false_ne_true
    | _ => cases hr
  have hroom := hsound.room t hr
  rw [ht, h.sequence] at hroom
  refine ⟨haccepted, { k with log := k.log ++ [e] }, ?_, h.pays hroom⟩
  rw [henv.recorded hstep]
  simp [recorded, hopened, haccepted, hr, ht]

end

/-! ## Triples -/

section

variable (lib) {Req : Type} {Ans : Req → Type} {ε α : Type}

/-- How a method ends: a result at a standing that satisfies `Q`, an error at one that satisfies
`E`. -/
def Ends (Q : α → Standing → Prop) (E : ε → Standing → Prop) (r : Except ε α) (c : RunContext)
    (l : Option KnownRun) : Prop :=
  ∃ y, StandsIn lib y c l ∧ match r with | .ok a => Q a y | .error err => E err y

/-- The method starts at `x`. It may be one of the harness, or a program that calls these. -/
def Goes (env : Environment Ans (Option KnownRun)) (m : Task Ans ε RunContext α) (x : Standing)
    (Q : α → Standing → Prop) (E : ε → Standing → Prop) : Prop :=
  ∀ c l, StandsIn lib x c l → Task.wlp env m (Ends lib Q E) c l

variable (env : Environment Answer (Option KnownRun))

/-- It starts while the event is owed to the store. -/
def Settles (e : AgentEvent) (m : HarnessM α) (x : Standing) (Q : α → Standing → Prop)
    (E : HarnessError → Standing → Prop) : Prop :=
  ∀ c k, Owes lib e x c k → Task.wlp env m (Ends lib Q E) c (some k)

/-- The audit of such an event may be refused at `x`. -/
def Refusable (kind : AgentEventKind) (x : Standing) : Prop :=
  ∃ (e : AgentEvent) (c : RunContext) (l l' : Option KnownRun) (err : AuditPortError),
    e.kind = kind ∧ StandsIn lib x c l ∧ env l (.audit .bounded e) (.ready (.error err)) l'

end

section Rules

variable {Req : Type} {Ans : Req → Type} {env : Environment Ans (Option KnownRun)} {ε α β : Type}
  {m : Task Ans ε RunContext α} {f : α → Task Ans ε RunContext β} {x : Standing}
  {Q R : α → Standing → Prop} {S : β → Standing → Prop} {E F : ε → Standing → Prop}

theorem Goes.mono (h : Goes lib env m x Q E) (hQ : ∀ a y, Q a y → R a y) (hE : ∀ err y, E err y → F err y) :
    Goes lib env m x R F := by
  intro c l hx
  refine Task.wlp_mono (h c l hx) ?_
  rintro r c l ⟨y, hy, hr⟩
  refine ⟨y, hy, ?_⟩
  cases r with
  | ok a => exact hQ a y hr
  | error err => exact hE err y hr

theorem Goes.bind (h : Goes lib env m x Q E) (hf : ∀ a y, Q a y → Goes lib env (f a) y S E) :
    Goes lib env (m >>= f) x S E := by
  intro c l hx
  refine Task.wlp_bind.mpr (Task.wlp_mono (h c l hx) ?_)
  rintro r c l ⟨y, hy, hr⟩
  cases r with
  | ok a => exact hf a y hr c l hy
  | error err => exact ⟨y, hy, hr⟩

theorem Goes.pure {a : α} (h : Q a x) :
    Goes lib env (Pure.pure a : Task Ans ε RunContext α) x Q E :=
  fun _ _ hx => ⟨x, hx, h⟩

theorem Goes.fail {err : ε} (h : E err x) :
    Goes lib env (Task.fail err : Task Ans ε RunContext α) x Q E :=
  fun _ _ hx => ⟨x, hx, h⟩

theorem Goes.look {f : RunContext → Task Ans ε RunContext β}
    (h : ∀ c k, Stands lib x c k → Goes lib env (f c) x S E) :
    Goes lib env (Task.look >>= f) x S E := by
  rintro c l ⟨k, rfl, hc⟩
  exact h c k hc c (some k) ⟨k, rfl, hc⟩

theorem Goes.ofExcept {r : Except ε α} (hok : ∀ a, r = .ok a → Goes lib env (f a) x S E)
    (herr : ∀ err, r = .error err → E err x) : Goes lib env (Task.ofExcept r >>= f) x S E := by
  cases r with
  | ok a => exact hok a rfl
  | error err => exact fun _ _ hx => ⟨x, hx, herr err rfl⟩

theorem Goes.ite {p : Prop} [Decidable p] {m₁ m₂ : Task Ans ε RunContext α} (h₁ : p → Goes lib env m₁ x Q E)
    (h₂ : ¬ p → Goes lib env m₂ x Q E) : Goes lib env (if p then m₁ else m₂) x Q E := by
  by_cases hp : p
  · rw [if_pos hp]
    exact h₁ hp
  · rw [if_neg hp]
    exact h₂ hp

/-- A result that is looked at instead of passed on. -/
theorem Goes.attempt {f : Except ε α → Task Ans ε RunContext β} (h : Goes lib env m x Q F)
    (hok : ∀ a y, Q a y → Goes lib env (f (.ok a)) y S E)
    (herr : ∀ err y, F err y → Goes lib env (f (.error err)) y S E) :
    Goes lib env (m.attempt >>= f) x S E := by
  intro c l hx
  refine Task.wlp_bind.mpr (Task.wlp_attempt.mpr (Task.wlp_mono (h c l hx) ?_))
  rintro r c l ⟨y, hy, hr⟩
  cases r with
  | ok a => exact hok a y hr c l hy
  | error err => exact herr err y hr c l hy

end Rules

section Requests

variable {env : Environment Answer (Option KnownRun)} {β : Type} {x : Standing}
  {S : β → Standing → Prop} {E : HarnessError → Standing → Prop} {e : AgentEvent}
  {kind : AgentEventKind}

theorem recorded_of_silent {l : Option KnownRun} {r : Request} {a : Answer r}
    (hopened : r.openedRun a = none) (ht : r.transition = none) : recorded l r a = l := by
  simp [recorded, hopened, ht]

/-- A request that says nothing about the run. -/
theorem Goes.ask (henv : Honest env) {r : Request} {f : Answer r → HarnessM β}
    (ht : r.transition = none) (hopened : ∀ a, r.openedRun a = none)
    (h : ∀ a, (∃ l l', env l r a l') → Goes lib env (f a) x S E) :
    Goes lib env (LocalAgent.ask r >>= f) x S E := by
  intro c l hx a l' hstep
  rw [henv.recorded hstep, recorded_of_silent (hopened a) ht]
  exact h a ⟨l, l', hstep⟩ c l hx

/-! ## Events -/

theorem nextEvent_wlp {c c' : RunContext} {l : Option KnownRun}
    {P : Except HarnessError AgentEvent → RunContext → Option KnownRun → Prop}
    (hnext : c.nextEvent lib.codec kind = (.ok e, c')) (hP : P (.ok e) c' l) :
    Task.wlp env (nextEvent lib kind) P c l := by
  show P ((c.nextEvent lib.codec kind).1.mapError .context) (c.nextEvent lib.codec kind).2 l
  rw [hnext]
  exact hP

/-- An accepted event is taken. -/
theorem Goes.nextEvent (hserde : lib.Serializes) {f : AgentEvent → HarnessM β}
    {s' : DurableRunState} (hk : kind ≠ .auditDegraded)
    (htakes : x.durable.applyKind kind = .ok s')
    (h : ∀ e, e.kind = kind → Settles lib env e (f e) ⟨s', x.status, x.usage⟩ S E) :
    Goes lib env (LocalAgent.nextEvent lib kind >>= f) x S E := by
  rintro c l ⟨k, rfl, hc⟩
  obtain ⟨e, c', hnext, hkind, howes⟩ := hc.takes hserde hk htakes
  exact Task.wlp_bind.mpr (nextEvent_wlp hnext (h e hkind c' k howes))

theorem Settles.persist (henv : Honest env) {h : ExecutionHarness} (hp : h.persistence = true)
    {g : Unit → HarnessM β} (hg : Goes lib env (g ()) x S E) :
    Settles lib env e (persistTransition h e >>= g) x S E := by
  intro c k howes
  refine Task.wlp_bind.mpr ?_
  unfold persistTransition
  rw [if_pos hp]
  intro a l' hstep
  obtain ⟨haccepted, hx⟩ := howes.paid henv rfl rfl rfl hstep
  cases a with
  | ok u => exact hg c l' hx
  | error err => cases haccepted

/-- The same where nothing follows. -/
theorem Settles.persist_last (henv : Honest env) {h : ExecutionHarness} (hp : h.persistence = true)
    {T : Unit → Standing → Prop} (hT : T () x) : Settles lib env e (persistTransition h e) x T E := by
  intro c k howes
  unfold persistTransition
  rw [if_pos hp]
  intro a l' hstep
  obtain ⟨haccepted, hx⟩ := howes.paid henv rfl rfl rfl hstep
  cases a with
  | ok u => exact ⟨x, hx, hT⟩
  | error err => cases haccepted

end Requests

/-! ## The guarded helpers -/

/-- The run was ended at `s`. -/
def Cut (s : DurableRunState) (y : Standing) : Prop :=
  s.context.status = .running ∧ ∃ outcome, y = .even (s.finish outcome)

/-- The run was cut at `s`, or the context stands there. -/
def Parts (s : DurableRunState) (y : Standing) : Prop := Cut s y ∨ y = .even s

/-- Where the audit of an event at `s` leaves a context that reports an error: the run was cut, or
the audit was refused under the closed policy. -/
def Exits (lib : Library) (env : Environment Answer (Option KnownRun)) (h : ExecutionHarness)
    (kind : AgentEventKind) (s : DurableRunState) (y : Standing) : Prop :=
  Cut s y ∨ y = .even s ∧ h.auditFailurePolicy = .failClosed ∧ Refusable lib env kind (.even s)

/-- The next event brings a running context to `s'`, where it is even. -/
structure Due (x : Standing) (kind : AgentEventKind) (s' : DurableRunState) : Prop where
  told : kind ≠ .auditDegraded
  takes : x.durable.applyKind kind = .ok s'
  status : x.status = s'.context.status
  usage : x.usage = s'.context.usage
  running : s'.context.status = .running

section Helpers

variable {env : Environment Answer (Option KnownRun)} (henv : Honest env) (hserde : lib.Serializes)
  {h : ExecutionHarness} (hp : h.persistence = true) {x : Standing} {s s' : DurableRunState}
  {E : HarnessError → Standing → Prop} {e : AgentEvent} {kind : AgentEventKind}
  {operation : HarnessOperation}
  {phase : AuditPhase} {effect : OperationEffect}

include henv

theorem auditWithTimeout_goes {site : AuditSite} :
    Goes lib env (auditWithTimeout site e) x (fun _ y => y = x) E := by
  refine Goes.ask henv rfl (fun _ => rfl) fun a _ => ?_
  cases a with
  | ready result => cases result <;> exact Goes.pure rfl
  | _ => exact Goes.pure rfl

/-- A running context asks for the audit of its event. -/
theorem auditWithRunBounds_goes (hrunning : x.status = .running) (hkind : e.kind = kind) :
    Goes lib env (auditWithRunBounds e) x
      (fun o y => y = x ∧ ((∃ err, o = .failed err) → Refusable lib env kind x)) E := by
  refine Goes.look fun c k hc => ?_
  obtain ⟨r, hr⟩ := Option.isSome_iff_exists.mp (hc.clock hrunning)
  rw [hr]
  rintro c l hx a l' hstep
  have hsame : l' = l := by rw [henv.recorded hstep, recorded_of_silent rfl rfl]
  subst hsame
  cases a with
  | cancelled => exact ⟨x, hx, rfl, nofun⟩
  | deadlineExceeded => exact ⟨x, hx, rfl, nofun⟩
  | ready result =>
    cases result with
    | ok u => exact ⟨x, hx, rfl, nofun⟩
    | error err => exact ⟨x, hx, rfl, fun _ => ⟨e, c, l', l', err, hkind, hx, hstep⟩⟩

include hp

/-- The best effort at the end of a run leaves the context where it is. -/
theorem auditTerminalBestEffort_settles :
    Settles lib env e (auditTerminalBestEffort h e) x (fun _ y => y = x) E := by
  intro c k howes
  have hpersist : Settles lib env e (persistTransition h e) x (fun _ y => y = x) (fun _ _ => False) :=
    Settles.persist_last henv hp rfl
  refine Task.wlp_bind.mpr (Task.wlp_attempt.mpr (Task.wlp_mono (hpersist c k howes) ?_))
  rintro r c l ⟨y, hy, hr⟩
  cases r with
  | error err => exact hr.elim
  | ok u =>
    obtain rfl : y = x := hr
    refine Goes.bind (auditWithTimeout_goes henv) (fun result z hz => ?_) c l hy
    subst hz
    cases result with
    | none => exact Goes.pure rfl
    | some err =>
      rintro c l ⟨k, rfl, hc⟩
      exact ⟨_, ⟨k, rfl, hc.markAuditDegraded⟩, rfl⟩

include hserde

/-- An event at the end of a run: accepted, persisted, and audited as well as possible. -/
theorem bestEffort_goes (hne : kind ≠ .auditDegraded) (htakes : x.durable.applyKind kind = .ok s') :
    Goes lib env (do
      match ← (nextEvent lib kind).attempt with
      | .ok event => auditTerminalBestEffort h event
      | .error _ => markAuditDegraded) x (fun _ y => y = ⟨s', x.status, x.usage⟩) E := by
  rintro c l ⟨k, rfl, hc⟩
  obtain ⟨e, c', hnext, -, howes⟩ := hc.takes hserde hne htakes
  refine Task.wlp_bind.mpr (Task.wlp_attempt.mpr (nextEvent_wlp hnext ?_))
  exact auditTerminalBestEffort_settles henv hp c' k howes

theorem terminalize_goes (outcome : RunOutcome) :
    Goes lib env (terminalize lib h outcome) (.even s)
      (fun _ y => y = .even s ∧ s.context.status ≠ .running ∨ Cut s y) E := by
  rintro c l ⟨k, rfl, hc⟩
  refine Task.wlp_look_bind.mpr ?_
  by_cases hrunning : c.status = .running
  · rw [if_pos hrunning]
    have hstatus : s.context.status = .running := hc.status.symm.trans hrunning
    have hfinish : c.commitFinished outcome = .ok { c with status := .finished outcome } := by
      simp [RunContext.commitFinished, hrunning, RunStatus.finish]
    -- the context is ahead of its durable state until the event is taken
    have hahead : Stands lib ⟨s, .finished outcome, s.context.usage⟩
        { c with status := .finished outcome } k :=
      ⟨hc.healthy, rfl, hc.usage, hc.budget, by simp, hc.run, hc.stamped, hc.next, hc.expected, hc.room,
        hc.replayed⟩
    have htakes : s.applyKind (.runFinished outcome) = .ok (s.finish outcome) := by
      simp [DurableRunState.applyKind, hstatus, DurableRunState.finish]
    have hne : AgentEventKind.runFinished outcome ≠ .auditDegraded := by simp
    rw [hfinish]
    refine Task.wlp_put_bind.mpr ?_
    refine (bestEffort_goes henv hserde hp hne htakes).mono (fun _ y hy => ?_) (fun _ _ hy => hy) _ _
      ⟨k, rfl, hahead⟩
    exact .inr ⟨hstatus, outcome, hy⟩
  · rw [if_neg hrunning]
    exact ⟨_, ⟨k, rfl, hc⟩, .inl ⟨rfl, fun hstatus => hrunning (hc.status.trans hstatus)⟩⟩

/-- `record_audit_degraded` leaves the context where it is. -/
theorem recordAuditDegraded_goes :
    Goes lib env (recordAuditDegraded lib h) x (fun _ y => y = x) E := by
  rintro c l ⟨k, rfl, hc⟩
  obtain ⟨e, c', hnext, -, howes⟩ := hc.takes_auditDegraded hserde
  refine Task.wlp_bind.mpr (nextEvent_wlp hnext ?_)
  exact Settles.persist_last henv hp rfl c'.markAuditDegraded k howes.markAuditDegraded

theorem applyAuditFailure_goes {err : AuditPortError}
    (hE : h.auditFailurePolicy = .failClosed → ∀ err, E err x) :
    Goes lib env (applyAuditFailure lib h operation phase effect err) x (fun _ y => y = x) E := by
  unfold applyAuditFailure
  cases hpolicy : h.auditFailurePolicy with
  | failClosed => exact Goes.fail (hE hpolicy _)
  | failOpen => exact recordAuditDegraded_goes henv hserde hp

theorem refuseAuditFailure_goes {err : AuditPortError} {P : Unit → Standing → Prop}
    (hE : ∀ err, E err x) :
    Goes lib env (refuseAuditFailure lib h operation phase effect err) x P E :=
  Goes.bind (recordAuditDegraded_goes henv hserde hp) fun _ _ hy => Goes.fail (hy ▸ hE _)

/-- The audit of an event that a running context has persisted. -/
theorem auditAlreadyPersisted_goes {required : Bool} (hrunning : s.context.status = .running)
    (hkind : e.kind = kind) (hcut : ∀ err y, Cut s y → E err y)
    (hE : (h.auditFailurePolicy = .failClosed ∨ required = true) →
      Refusable lib env kind (.even s) → ∀ err, E err (.even s)) :
    Goes lib env (auditAlreadyPersisted lib h e operation phase effect required) (.even s)
      (fun _ y => y = .even s) E := by
  refine Goes.bind (auditWithRunBounds_goes henv hrunning hkind) ?_
  rintro o y ⟨rfl, hrefused⟩
  have hend : ∀ (terminal : SafetyTerminalization) (err : HarnessError),
      Goes lib env (do terminalizeSafety lib h terminal; (Task.fail err : HarnessM Unit)) (.even s)
        (fun _ y => y = .even s) E := by
    intro terminal err
    refine Goes.bind (terminalize_goes henv hserde hp terminal.outcome) fun _ y hy => Goes.fail ?_
    rcases hy with ⟨-, hne⟩ | hc
    · exact absurd hrunning hne
    · exact hcut err y hc
  cases o with
  | recorded => exact Goes.pure rfl
  | cancelled => exact hend .cancelled _
  | deadlineExceeded => exact hend .deadlineExceeded _
  | failed err =>
    have hx := hrefused ⟨err, rfl⟩
    refine Goes.ite (fun hreq => ?_) fun _ => ?_
    · exact refuseAuditFailure_goes henv hserde hp (hE (.inr hreq) hx)
    · exact applyAuditFailure_goes henv hserde hp fun hpolicy => hE (.inl hpolicy) hx

/-! ### Recording -/

/-- The event is recorded, and what follows is the audit. -/
theorem recorded_goes {f : AgentEvent → HarnessM Unit} {P : Unit → Standing → Prop}
    (hdue : Due x kind s') (hf : ∀ e, e.kind = kind → Goes lib env (f e) (.even s') P E) :
    Goes lib env (do let e ← nextEvent lib kind; persistTransition h e; f e) x P E := by
  refine Goes.nextEvent hserde hdue.told hdue.takes fun e hkind => Settles.persist henv hp ?_
  have heven : (⟨s', x.status, x.usage⟩ : Standing) = .even s' := by
    rw [hdue.status, hdue.usage]
    rfl
  rw [heven]
  exact hf e hkind

theorem record_goes (hdue : Due x kind s') (hE : ∀ err y, Exits lib env h kind s' y → E err y) :
    Goes lib env (record lib h kind operation phase effect) x (fun _ y => y = .even s') E := by
  refine recorded_goes henv hserde hp hdue fun e hkind => ?_
  refine auditAlreadyPersisted_goes henv hserde hp hdue.running hkind
    (fun err y hy => hE err y (.inl hy)) ?_
  rintro (hpolicy | hfalse) hrefused
  · exact fun err => hE err _ (.inr ⟨rfl, hpolicy, hrefused⟩)
  · cases hfalse

theorem recordRequired_goes (hdue : Due x kind s') (hE : ∀ err y, Parts s' y → E err y) :
    Goes lib env (recordRequired lib h kind operation phase effect) x (fun _ y => y = .even s') E :=
  recorded_goes henv hserde hp hdue fun _ hkind =>
    auditAlreadyPersisted_goes henv hserde hp hdue.running hkind (fun err y hy => hE err y (.inl hy))
      fun _ _ err => hE err _ (.inr rfl)

theorem recordTool_goes {mode : ToolAudit} (hdue : Due x kind s')
    (hE : ∀ err y, Parts s' y → E err y) :
    Goes lib env (recordTool lib h mode kind operation phase effect) x (fun _ y => y = .even s') E := by
  cases mode with
  | configured =>
    refine record_goes henv hserde hp hdue fun err y hy => hE err y ?_
    rcases hy with hcut | ⟨rfl, -⟩
    · exact .inl hcut
    · exact .inr rfl
  | required => exact recordRequired_goes henv hserde hp hdue hE

/-! ### Guards -/

/-- End the run and report it. -/
theorem terminalized_goes {α : Type} {Q : α → Standing → Prop} (hrunning : s.context.status = .running)
    (terminal : SafetyTerminalization) (err : HarnessError) (hcut : ∀ y, Cut s y → E err y) :
    Goes lib env (do terminalizeSafety lib h terminal; (Task.fail err : HarnessM α)) (.even s) Q E := by
  refine Goes.bind (terminalize_goes henv hserde hp terminal.outcome) fun _ y hy => Goes.fail ?_
  rcases hy with ⟨-, hne⟩ | hc
  · exact absurd hrunning hne
  · exact hcut y hc

omit henv hserde hp in
theorem requireStatus_goes {required : RunStatus}
    (hE : s.context.status ≠ required → ∀ err, E err (.even s)) :
    Goes lib env (requireStatus operation required) (.even s)
      (fun _ y => y = .even s ∧ s.context.status = required) E := by
  refine Goes.look fun c k hc => ?_
  have hstatus : c.status = s.context.status := hc.status
  rw [hc.healthy, if_neg Bool.false_ne_true, hstatus]
  exact Goes.ite (fun heq => Goes.pure ⟨rfl, heq⟩) fun hne => Goes.fail (hE hne _)

omit henv hserde hp in
theorem runtime_goes (hrunning : x.status = .running) :
    Goes lib env runtime x (fun _ y => y = x) E := by
  refine Goes.look fun c k hc => ?_
  obtain ⟨r, hr⟩ := Option.isSome_iff_exists.mp (hc.clock hrunning)
  rw [hr]
  exact Goes.pure rfl

theorem preflight_goes (hE : s.context.status ≠ .running → ∀ err, E err (.even s))
    (hcut : ∀ err y, Cut s y → E err y) :
    Goes lib env (preflight lib h operation) (.even s)
      (fun _ y => y = .even s ∧ s.context.status = .running) E := by
  refine Goes.bind (requireStatus_goes hE) ?_
  rintro _ y ⟨rfl, hrunning⟩
  refine Goes.bind (runtime_goes hrunning) ?_
  rintro r y rfl
  refine Goes.look fun c k _ => Goes.ask henv rfl (fun _ => rfl) fun cancelled _ => ?_
  refine Goes.ite (fun _ => ?_) fun _ => ?_
  · exact terminalized_goes henv hserde hp hrunning .cancelled _ (hcut _)
  · refine Goes.ask henv rfl (fun _ => rfl) fun now _ => ?_
    refine Goes.ite (fun _ => ?_) fun _ => Goes.pure ⟨rfl, hrunning⟩
    exact terminalized_goes henv hserde hp hrunning .deadlineExceeded _ (hcut _)

/-- A reservation moves the usage of the context alone. -/
theorem reserve_goes {α : Type} {f : RunContext → Except BudgetDimension (α × RunContext)}
    {u : BudgetUsage} {P : α → Prop} (hrunning : s.context.status = .running)
    (hf : ∀ c k, Stands lib (.even s) c k → ∀ a c', f c = .ok (a, c') → c' = { c with usage := u } ∧ P a)
    (hcut : ∀ err y, Cut s y → E err y) :
    Goes lib env (reserve lib h f) (.even s) (fun a y => y = ⟨s, .running, u⟩ ∧ P a) E := by
  rintro c l ⟨k, rfl, hc⟩
  refine Task.wlp_look_bind.mpr ?_
  cases hreserve : f c with
  | error dimension =>
    exact terminalized_goes henv hserde hp hrunning (.budgetExceeded dimension) _ (hcut _) c
      (some k) ⟨k, rfl, hc⟩
  | ok p =>
    obtain ⟨a, c'⟩ := p
    obtain ⟨rfl, ha⟩ := hf c k hc a c' hreserve
    refine ⟨⟨s, .running, u⟩, ⟨k, rfl, ?_⟩, rfl, ha⟩
    have hstatus : c.status = .running := hc.status.trans hrunning
    exact ⟨hc.healthy, hstatus, rfl, hc.budget, fun _ => hc.clock hrunning, hc.run, hc.stamped, hc.next,
      hc.expected, hc.room, hc.replayed⟩

/-- What follows the answer of a port. -/
theorem settle_goes {ε α : Type} {reap : HarnessM Unit} {wrap : ε → HarnessError}
    {a : Awaited (Except ε α)} (hrunning : s.context.status = .running)
    (hreap : Goes lib env reap (.even s) (fun _ y => y = .even s) E)
    (hport : ∀ err, E (wrap err) (.even s))
    (hcut : ∀ y, Cut s y → E (.cancelled .invocation) y ∧ E (.deadlineExceeded .invocation) y) :
    Goes lib env (settle lib h reap wrap a) (.even s) (fun _ y => y = .even s) E := by
  have hend : ∀ (terminal : SafetyTerminalization) (err : HarnessError), (∀ y, Cut s y → E err y) →
      Goes lib env (do reap; terminalizeSafety lib h terminal; (Task.fail err : HarnessM α)) (.even s)
        (fun _ y => y = .even s) E := by
    intro terminal err hE
    refine Goes.bind hreap ?_
    rintro _ y rfl
    exact terminalized_goes henv hserde hp hrunning terminal err hE
  cases a with
  | cancelled => exact hend .cancelled _ fun y hy => (hcut y hy).1
  | deadlineExceeded => exact hend .deadlineExceeded _ fun y hy => (hcut y hy).2
  | ready result =>
    cases result with
    | ok a => exact Goes.pure rfl
    | error err => exact Goes.fail (hport err)

omit henv hserde hp in
theorem mapErr_goes {ε α : Type} {wrap : ε → HarnessError} {r : Except ε α}
    (hE : ∀ err, E (wrap err) x) :
    Goes lib env (mapErr wrap r) x (fun a y => y = x ∧ r = .ok a) E := by
  cases r with
  | ok a => exact fun _ _ hx => ⟨x, hx, rfl, rfl⟩
  | error err => exact fun _ _ hx => ⟨x, hx, hE err⟩

end Helpers
end LocalAgent
