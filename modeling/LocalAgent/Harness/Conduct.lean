import LocalAgent.Harness.Track

/-!
# The guarded helpers keep to the monitor

`Live` is what holds of a context that an operation may work on, `Rest` what holds of any context
between two operations. `Does` is a triple: every request is permitted, an error leaves the
context at rest. One rule per helper of `Execution.lean` follows; the operations are put together
from these rules and never unfold a helper.
-/
namespace LocalAgent

open Program

variable {lib : Library}

/-! ## Assertions -/

/-- The known log has no end yet. -/
def Unfinished (v : View lib) : Prop :=
  v.volatile = false → ∀ k, v.run = some k → k.log.any (fun e => e.kind.isRunFinished) = false

/-- The live counters are never behind those of the durable copy. -/
def Covered (c : RunContext) : Prop :=
  ∀ x, c.durableState.context.usage.count x ≤ c.usage.count x

/-- A counted event carries the value that was reserved for it. -/
def Affords (c : RunContext) (kind : AgentEventKind) : Prop :=
  ∀ x next limit, kind.counts = some (x, next, limit) →
    next = c.usage.count x ∧ c.durableState.context.usage.count x < next ∧ next ≤ limit

/-- A running context that the store has followed so far. -/
structure Live (c : RunContext) (v : View lib) : Prop where
  healthy : c.persistenceFailed = false
  running : c.status = .running
  clock : c.runtime.isSome = true
  clean : v.volatile = false → v.refused = false
  tracks : Tracks c v
  unfinished : Unfinished v
  covered : Covered c

/-- A live context that has taken `e` and not persisted it. -/
structure Announcing (e : AgentEvent) (c : RunContext) (v : View lib) : Prop where
  healthy : c.persistenceFailed = false
  running : c.status = .running
  clock : c.runtime.isSome = true
  clean : v.volatile = false → v.refused = false
  emitted : Emitted e c v
  unfinished : Unfinished v
  covered : Covered c

/-- A context that was not started. -/
structure Fresh (c : RunContext) (v : View lib) : Prop where
  healthy : c.persistenceFailed = false
  pending : c.status = .pending
  next : c.nextEventSequence = 0
  state : c.durableState = .initial c.runRecord
  announced : v.startRefused = false

/-- The context takes part in nothing any more. -/
def Ended (c : RunContext) : Prop := c.persistenceFailed = true ∨ c.status.isFinished = true

/-- Between two operations. -/
def Rest (c : RunContext) (v : View lib) : Prop := Ended c ∨ Live c v ∨ Fresh c v

theorem Live.rest {c : RunContext} {v : View lib} (h : Live c v) : Rest c v := .inr (.inl h)

theorem Ended.rest {c : RunContext} {v : View lib} (h : Ended c) : Rest c v := .inl h

/-- The view belongs to an operation of `cmd`. -/
structure During (cmd : Command lib) (v : View lib) : Prop where
  command : v.command = some cmd
  volatile : cmd.harness.persistence = false → v.volatile = true

theorem During.persistent {cmd : Command lib} {v : View lib} (h : During cmd v) :
    v.persistent = cmd.harness.persistence := by
  simp [View.persistent, h.command]

/-- What a step of an operation leaves alone. -/
structure Kept (c : RunContext) (v : View lib) (c' : RunContext) (v' : View lib) : Prop where
  key : c'.key = c.key
  command : v'.command = v.command
  volatile : v'.volatile = v.volatile
  called : v'.called = v.called
  interrupted : v'.interrupted = v.interrupted
  current : v.current = true → v'.current = true
  facts : ∀ f ∈ v.facts, f ∈ v'.facts

namespace Kept

variable {c c' c'' : RunContext} {v v' v'' : View lib}

theorem refl : Kept c v c v := ⟨rfl, rfl, rfl, rfl, rfl, id, fun _ h => h⟩

theorem trans (h : Kept c v c' v') (h' : Kept c' v' c'' v'') : Kept c v c'' v'' where
  key := h'.key.trans h.key
  command := h'.command.trans h.command
  volatile := h'.volatile.trans h.volatile
  called := h'.called.trans h.called
  interrupted := h'.interrupted.trans h.interrupted
  current := h'.current ∘ h.current
  facts f hf := h'.facts f (h.facts f hf)

theorem during {cmd : Command lib} (h : Kept c v c' v') (hd : During cmd v) : During cmd v' :=
  ⟨h.command.trans hd.command, fun hp => h.volatile.trans (hd.volatile hp)⟩

theorem runId (h : Kept c v c' v') : c'.runId = c.runId := congrArg RunKey.runId h.key

theorem persistent (h : Kept c v c' v') : v'.persistent = v.persistent := by
  simp only [View.persistent, h.command]

end Kept

/-! ## Triples -/

/-- Every request of the method is permitted, an error leaves the context at rest, a result
satisfies `Q`. -/
def Does {α : Type} (m : HarnessM α) (c : RunContext) (v : View lib)
    (Q : α → RunContext → View lib → Prop) : Prop :=
  Task.wp (monitor lib) m (fun x c v => match x with | .ok a => Q a c v | .error _ => Rest c v) c v

namespace Does

variable {α β : Type} {m : HarnessM α} {f : α → HarnessM β} {c : RunContext} {v : View lib}
  {Q R : α → RunContext → View lib → Prop} {S : β → RunContext → View lib → Prop}

theorem mono (h : Does m c v Q) (hQR : ∀ a c v, Q a c v → R a c v) : Does m c v R := by
  refine Task.wp_mono h fun x c v hx => ?_
  cases x with
  | ok a => exact hQR a c v hx
  | error e => exact hx

theorem bind (h : Does m c v Q) (hf : ∀ a c v, Q a c v → Does (f a) c v S) :
    Does (m >>= f) c v S := by
  refine Task.wp_bind.mpr (Task.wp_mono h fun x c v hx => ?_)
  cases x with
  | ok a => exact hf a c v hx
  | error e => exact hx

theorem pure {a : α} (h : Q a c v) : Does (Pure.pure a : HarnessM α) c v Q := h

theorem fail {e : HarnessError} (h : Rest c v) : Does (Task.fail e : HarnessM α) c v Q := h

theorem look {f : RunContext → HarnessM β} (h : Does (f c) c v S) : Does (Task.look >>= f) c v S :=
  h

theorem put {c' : RunContext} {f : Unit → HarnessM β} (h : Does (f ()) c' v S) :
    Does (Task.put c' >>= f) c v S := h

theorem ask {r : Request} {f : Answer r → HarnessM β} (hr : v.permits r)
    (h : ∀ a, Does (f a) c (v.observe r a) S) : Does (LocalAgent.ask r >>= f) c v S := ⟨hr, h⟩

theorem ofExcept {x : Except HarnessError α} (hok : ∀ a, x = .ok a → Does (f a) c v S)
    (herr : Rest c v) : Does (Task.ofExcept x >>= f) c v S := by
  cases x with
  | ok a => exact hok a rfl
  | error e => exact herr

theorem ite {p : Prop} [Decidable p] {m₁ m₂ : HarnessM α} (h₁ : p → Does m₁ c v Q)
    (h₂ : ¬ p → Does m₂ c v Q) : Does (if p then m₁ else m₂) c v Q := by
  by_cases hp : p
  · rw [if_pos hp]
    exact h₁ hp
  · rw [if_neg hp]
    exact h₂ hp

/-- A result that is looked at instead of passed on. -/
theorem attempt {P : Except HarnessError α → RunContext → View lib → Prop}
    {f : Except HarnessError α → HarnessM β} (h : Task.wp (monitor lib) m P c v)
    (hf : ∀ x c v, P x c v → Does (f x) c v S) : Does (m.attempt >>= f) c v S :=
  Task.wp_bind.mpr (Task.wp_attempt.mpr (Task.wp_mono h hf))

end Does

/-! ## Requests -/

/-- Requests that no view takes notice of. -/
def Request.quiet : Request → Bool
  | .freshUuid | .instantNow | .wallClock | .isCancelled _ | .approvalPreview .. | .sealLocalWrite ..
  | .openLocalWrite .. | .waitManaged .. | .waitContained .. | .loadRun .authorization _ => true
  | _ => false

section

variable {c c' : RunContext} {v v' : View lib} {cmd : Command lib} {e : AgentEvent}
  {kind : AgentEventKind} {r : Request}

theorem View.permits_of_unrecorded (ht : r.transition = none) (hcall : r.portCall = none)
    (hordered : v.Ordered r) : v.permits r where
  append t h := by rw [ht] at h; cases h
  closes t key h := by rw [ht] at h; cases h
  call x h := by rw [hcall] at h; cases h
  ordered := hordered

theorem View.permits_of_quiet (hr : r.quiet = true) : v.permits r := by
  cases r <;> first
    | exact View.permits_of_unrecorded rfl rfl trivial
    | cases hr

theorem View.observe_of_quiet (hr : r.quiet = true) (a : Answer r) : v.observe r a = v := by
  cases r with
  | loadRun purpose key =>
    cases purpose with
    | recovery => cases hr
    | authorization => simp [View.observe, View.step, factsOf]
  | freshUuid | instantNow | wallClock | isCancelled _ | approvalPreview _ _ | sealLocalWrite _ _
  | openLocalWrite _ _ | waitManaged _ _ | waitContained _ _ =>
    simp [View.observe, View.step, factsOf]
  | _ => cases hr

theorem askQuiet_wp {β : Type} {f : Answer r → HarnessM β}
    {Q : Except HarnessError β → RunContext → View lib → Prop} (hr : r.quiet = true)
    (h : ∀ a, Task.wp (monitor lib) (f a) Q c v) :
    Task.wp (monitor lib) (ask r >>= f) Q c v := by
  refine Task.wp_ask_bind.mpr ⟨View.permits_of_quiet hr, fun a => ?_⟩
  have hsame : (monitor lib).observe v r a = v := View.observe_of_quiet hr a
  rw [hsame]
  exact h a

theorem Does.askQuiet {β : Type} {f : Answer r → HarnessM β}
    {S : β → RunContext → View lib → Prop} (hr : r.quiet = true)
    (h : ∀ a, Does (f a) c v S) : Does (LocalAgent.ask r >>= f) c v S := askQuiet_wp hr h

/-- The event may be sent: what the monitor asks of a transition. -/
structure Sendable (e : AgentEvent) (c : RunContext) (v : View lib) : Prop where
  emitted : Emitted e c v
  follow : MayFollow v
  closes : ∀ key, e.kind.closes = some key → v.called = some key

theorem Sendable.permits {checkpoint : Bool} (h : Sendable e c v)
    (hr : r.transition = some (transitionForEvent c e checkpoint)) (hcall : r.portCall = none)
    (hordered : v.Ordered r) : v.permits r where
  append t ht hv := by
    rw [hr] at ht
    cases ht
    exact h.emitted.appendable h.follow hv checkpoint
  closes t key ht hkey := by
    rw [hr] at ht
    cases ht
    exact h.closes key hkey
  call x hx := by rw [hcall] at hx; cases hx
  ordered := hordered

/-- The store has taken the event, or the harness does not persist. -/
def Wrote (cmd : Command lib) (e : AgentEvent) (v v' : View lib) : Prop :=
  cmd.harness.persistence = false ∧ v' = v ∨
  cmd.harness.persistence = true ∧ ∃ facts, v' = { v.stored e true with facts := v.facts ++ facts } ∧
    .committed e ∈ facts

namespace Wrote

theorem kept (h : Wrote cmd e v v') : Kept c v c v' := by
  obtain ⟨-, rfl⟩ | ⟨-, facts, rfl, -⟩ := h
  · exact Kept.refl
  · exact ⟨rfl, rfl, rfl, rfl, rfl, fun _ => rfl, fun f hf => List.mem_append_left _ hf⟩

theorem during (h : Wrote cmd e v v') (hd : During cmd v) : During cmd v' := by
  obtain ⟨-, rfl⟩ | ⟨-, facts, rfl, -⟩ := h
  · exact hd
  · exact ⟨hd.command, hd.volatile⟩

theorem clean (h : Wrote cmd e v v') (hclean : v.volatile = false → v.refused = false) :
    v'.volatile = false → v'.refused = false := by
  obtain ⟨-, rfl⟩ | ⟨-, facts, rfl, -⟩ := h <;> exact hclean

theorem tracks (h : Wrote cmd e v v') (hd : During cmd v) (he : Emitted e c v)
    (hclean : v.volatile = false → v.refused = false) : Tracks c v' := by
  obtain ⟨hp, rfl⟩ | ⟨-, facts, rfl, -⟩ := h
  · have hv := hd.volatile hp
    exact ⟨fun h => absurd (hv.symm.trans h) Bool.noConfusion,
      fun h => absurd (hv.symm.trans h) Bool.noConfusion⟩
  · exact (he.accepted hclean).congr rfl rfl rfl ⟨id, rfl, rfl, rfl, id, fun _ _ => id⟩

theorem unfinished (h : Wrote cmd e v v') (hu : Unfinished v)
    (hk : e.kind.isRunFinished = false) : Unfinished v' := by
  obtain ⟨-, rfl⟩ | ⟨-, facts, rfl, -⟩ := h
  · exact hu
  · intro hv k hrun
    obtain ⟨k', hk', rfl⟩ := Option.map_eq_some_iff.mp hrun
    simp [hu hv k' hk', hk]

theorem current (h : Wrote cmd e v v') (hp : cmd.harness.persistence = true) :
    v'.current = true := by
  obtain ⟨hn, -⟩ | ⟨-, facts, rfl, -⟩ := h
  · rw [hp] at hn
    cases hn
  · rfl

theorem armed (h : Wrote cmd e v v') (hp : cmd.harness.persistence = true) :
    v'.armed = match e.kind.opens with
      | some key => some (e.runId, key)
      | none => v.armed := by
  obtain ⟨hn, -⟩ | ⟨-, facts, rfl, -⟩ := h
  · rw [hp] at hn
    cases hn
  · rfl

theorem committed (h : Wrote cmd e v v') (hp : cmd.harness.persistence = true) :
    .committed e ∈ v'.facts := by
  obtain ⟨hn, -⟩ | ⟨-, facts, rfl, hmem⟩ := h
  · rw [hp] at hn
    cases hn
  · exact List.mem_append_right _ hmem

end Wrote

/-! ## Taking and writing an event -/

theorem nextEvent_wp {Q : Except HarnessError AgentEvent → RunContext → View lib → Prop}
    (hok : ∀ e c', c.nextEvent lib.codec kind = (.ok e, c') → Q (.ok e) c' v)
    (herr : ∀ err c', c.nextEvent lib.codec kind = (.error err, c') →
      Q (.error (.context err)) c' v) :
    Task.wp (monitor lib) (nextEvent lib kind) Q c v := by
  show Q ((c.nextEvent lib.codec kind).1.mapError .context) (c.nextEvent lib.codec kind).2 v
  cases hnext : c.nextEvent lib.codec kind with
  | mk x c' =>
    cases x with
    | ok e => exact hok e c' hnext
    | error err => exact herr err c' hnext

/-- What `persist_transition` leaves: the event is written, or the context has failed. -/
def Persisted (cmd : Command lib) (e : AgentEvent) (c : RunContext) (v : View lib)
    (x : Except HarnessError Unit) (c' : RunContext) (v' : View lib) : Prop :=
  match x with
  | .ok _ => c' = c ∧ Wrote cmd e v v'
  | .error _ => c' = c.markPersistenceFailed ∧ v' = v.stored e false

theorem persistTransition_wp (hd : During cmd v) (hs : Sendable e c v)
    (hstarts : ∀ x, e.kind.restricted = some x → View.mayAppend cmd.operation x = true) :
    Task.wp (monitor lib) (persistTransition cmd.harness e) (Persisted cmd e c v) c v := by
  unfold persistTransition
  by_cases hp : cmd.harness.persistence = true
  · rw [if_pos hp]
    have hordered : v.Ordered (.appendTransition
        (transitionForEvent c e c.durableState.isQuiescent)) := by
      intro id hid
      rw [hd.command]
      exact hstarts id hid
    refine ⟨hs.permits rfl rfl hordered, fun a => ?_⟩
    cases a with
    | ok u => exact ⟨rfl, .inr ⟨hp, _, rfl, List.mem_singleton.mpr rfl⟩⟩
    | error err =>
      refine ⟨rfl, ?_⟩
      show v.observe _ _ = _
      simp only [View.observe, View.step, factsOf, transitionForEvent, List.append_nil]
      rfl
  · rw [if_neg hp]
    exact ⟨rfl, .inl ⟨Bool.eq_false_iff.mpr hp, rfl⟩⟩

theorem RunContext.nextEvent_kept (he : c.nextEvent lib.codec kind = (.ok e, c')) :
    e.kind = kind ∧ e.runId = c.runId ∧ Kept c v c' v ∧ c'.status = c.status ∧
      c'.auditDegraded = c.auditDegraded := by
  obtain ⟨rfl, -, d, -, rfl⟩ := nextEvent_ok he
  exact ⟨rfl, rfl, ⟨rfl, rfl, rfl, rfl, rfl, id, fun _ hf => hf⟩, rfl, rfl⟩

theorem Live.mayFollow (hl : Live c v) : MayFollow v := by
  intro hv _ k hk hany
  rw [hl.unfinished hv k hk] at hany
  cases hany

theorem Affords.uncounted (h : kind.counts = none) : Affords c kind := by
  intro x next limit hk
  rw [h] at hk
  cases hk

theorem Affords.counted (h : Affords c kind) : View.Counted c.durableState.context.usage kind :=
  fun x next limit hk => (h x next limit hk).2

theorem Covered.rule {s : DurableRunState} (h : Covered c) (haff : Affords c kind)
    (hrule : c.durableState.Rule kind s) (x : Counter) :
    s.context.usage.count x ≤ c.usage.count x :=
  hrule.usage_le h (fun x next limit hk => (haff x next limit hk).1) x

theorem Covered.taken (h : Covered c) (haff : Affords c kind)
    (he : c.nextEvent lib.codec kind = (.ok e, c')) : Covered c' := by
  obtain ⟨rfl, -, d, hd, rfl⟩ := RunContext.nextEvent_ok he
  obtain ⟨m, bytes, -, hrule, -, rfl⟩ := (DurableRunState.apply_ok hd).rule
  exact fun x => h.rule (s := m) haff hrule x

/-- Even what a refused event leaves in the copy is covered. -/
theorem Covered.untaken {err : RunContextError} (h : Covered c) (haff : Affords c kind)
    (he : c.nextEvent lib.codec kind = (.error err, c')) : Covered c' := by
  rcases RunContext.nextEvent_error he with ⟨rfl, -⟩ | ⟨e, rfl, rfl⟩
  · exact h
  · intro x
    exact DurableRunState.residue_cases (P := fun s => s.context.usage.count x ≤ c.usage.count x)
      (h x) (h x) fun m hm => h.rule haff (DurableRunState.applyKind_rule hm) x

theorem Live.taken (hl : Live c v) (haff : Affords c kind)
    (he : c.nextEvent lib.codec kind = (.ok e, c')) : Announcing e c' v := by
  have hemitted := hl.tracks.taken haff.counted he
  have hcovered := hl.covered.taken haff he
  obtain ⟨rfl, -, d, -, rfl⟩ := RunContext.nextEvent_ok he
  exact ⟨hl.healthy, hl.running, hl.clock, hl.clean, hemitted, hl.unfinished, hcovered⟩

theorem Live.untaken {err : RunContextError} (hl : Live c v) (haff : Affords c kind)
    (he : c.nextEvent lib.codec kind = (.error err, c')) : Live c' v := by
  have htracks := hl.tracks.untaken he
  have hcovered := hl.covered.untaken haff he
  rcases RunContext.nextEvent_error he with ⟨rfl, -⟩ | ⟨e, -, rfl⟩
  · exact hl
  · exact ⟨hl.healthy, hl.running, hl.clock, hl.clean, htracks, hl.unfinished, hcovered⟩

theorem Announcing.sendable (ha : Announcing e c v)
    (hcloses : ∀ key, e.kind.closes = some key → v.called = some key) : Sendable e c v := by
  refine ⟨ha.emitted, ?_, hcloses⟩
  intro hv _ k hk hany
  rw [ha.unfinished hv k hk] at hany
  cases hany

theorem Announcing.wrote (ha : Announcing e c v) (hd : During cmd v) (hw : Wrote cmd e v v')
    (hk : e.kind.isRunFinished = false) : Live c v' :=
  ⟨ha.healthy, ha.running, ha.clock, hw.clean ha.clean, hw.tracks hd ha.emitted ha.clean,
    hw.unfinished ha.unfinished hk, ha.covered⟩

/-- A view with the same log describes the same live context. -/
theorem Live.sameLog (hl : Live c v) (hkey : c'.key = c.key)
    (hc : c'.persistenceFailed = c.persistenceFailed ∧ c'.status = c.status ∧
      c'.runtime = c.runtime ∧ c'.nextEventSequence = c.nextEventSequence ∧
      c'.durableState = c.durableState) (husage : ∀ x, c.usage.count x ≤ c'.usage.count x)
    (hv : SameLog v v') : Live c' v' := by
  obtain ⟨hfail, hstatus, hruntime, hnext, hstate⟩ := hc
  refine ⟨hfail.trans hl.healthy, hstatus.trans hl.running, ?_, ?_,
    hl.tracks.congr hkey hnext hstate hv, ?_, ?_⟩
  · rw [hruntime]
    exact hl.clock
  · intro h
    rw [hv.refused]
    exact hl.clean (hv.volatile h)
  · intro h k hk
    exact hl.unfinished (hv.volatile h) k (hv.run.symm.trans hk)
  · intro x
    rw [hstate]
    exact Nat.le_trans (hl.covered x) (husage x)

theorem Live.view (hl : Live c v) (hv : SameLog v v') : Live c v' :=
  hl.sameLog rfl ⟨rfl, rfl, rfl, rfl, rfl⟩ (fun _ => Nat.le_refl _) hv

/-! ## Audit -/

theorem sameLog_audit {site : AuditSite} {a : Answer (.audit site e)} :
    SameLog v (v.observe (.audit site e) a) := by
  simp only [View.observe, View.step]
  split
  · refine ⟨id, rfl, rfl, rfl, fun h => ?_, fun _ _ => id⟩
    simp [View.auditRefused, h]
  · exact ⟨id, rfl, rfl, rfl, id, fun _ _ => id⟩

theorem kept_audit {site : AuditSite} {a : Answer (.audit site e)} :
    Kept c v c (v.observe (.audit site e) a) := by
  simp only [View.observe, View.step]
  split <;> exact ⟨rfl, rfl, rfl, rfl, rfl, id, fun f hf => List.mem_append_left _ hf⟩

theorem armed_audit {site : AuditSite} {a : Answer (.audit site e)} :
    (v.observe (.audit site e) a).armed = v.armed := by
  simp only [View.observe, View.step]
  split <;> rfl

theorem View.permits_audit {site : AuditSite} : v.permits (.audit site e) :=
  View.permits_of_unrecorded rfl rfl trivial

/-- An audit that is bounded by its own timeout: an error means that the request failed. -/
theorem auditWithTimeout_wp {site : AuditSite} (hsite : site ≠ .bounded) :
    Task.wp (monitor lib) (auditWithTimeout site e) (fun x c' v' =>
      c' = c ∧ ∃ a, v' = v.observe (.audit site e) a ∧
        (x = .ok none ∨ ∃ kind, x = .ok (some kind) ∧ auditFailed site a = true)) c v := by
  refine ⟨View.permits_audit, fun a => ?_⟩
  cases a with
  | cancelled => exact ⟨rfl, _, rfl, .inr ⟨_, rfl, by cases site <;> first | rfl | exact absurd rfl hsite⟩⟩
  | deadlineExceeded =>
    exact ⟨rfl, _, rfl, .inr ⟨_, rfl, by cases site <;> first | rfl | exact absurd rfl hsite⟩⟩
  | ready result =>
    cases result with
    | ok u => exact ⟨rfl, _, rfl, .inl rfl⟩
    | error err => exact ⟨rfl, _, rfl, .inr ⟨_, rfl, by cases site <;> rfl⟩⟩

theorem auditWithTimeout_does {site : AuditSite} (hsite : site ≠ .bounded) :
    Does (auditWithTimeout site e) c v (fun r c' v' => c' = c ∧
      ∃ a, v' = v.observe (.audit site e) a ∧ (r.isSome = true → auditFailed site a = true)) := by
  refine Task.wp_mono (auditWithTimeout_wp hsite) ?_
  rintro x c' v' ⟨rfl, a, rfl, rfl | ⟨kind, rfl, hfailed⟩⟩
  · exact ⟨rfl, a, rfl, nofun⟩
  · exact ⟨rfl, a, rfl, fun _ => hfailed⟩

/-! ## Ending a run -/

/-- What a best-effort record leaves. After the end of a run in an interrupted tool call the context
still tracks the log, because the call is recorded next. -/
structure Noted (e : AgentEvent) (c : RunContext) (v : View lib) (x : Except HarnessError Unit) (c' : RunContext)
    (v' : View lib) : Prop where
  ok : x = .ok ()
  status : c'.status = c.status
  kept : Kept c v c' v'
  tracks : e.kind.isRunFinished = true → v.interrupted = true →
    (v.volatile = false → v.refused = false) → (v.volatile = false → v.current = true) → Tracks c' v'

theorem auditTerminalBestEffort_wp (hd : During cmd v) (hs : Sendable e c v)
    (hopens : e.kind.opens = none) (hplain : e.kind.restricted = none) :
    Task.wp (monitor lib) (auditTerminalBestEffort cmd.harness e) (Noted e c v) c v := by
  have hpersist := persistTransition_wp hd hs (fun x hx => by rw [hplain] at hx; cases hx)
  refine Task.wp_bind.mpr (Task.wp_attempt.mpr (Task.wp_mono hpersist ?_))
  intro x c₁ v₁ hx
  cases x with
  | error err =>
    obtain ⟨rfl, rfl⟩ := hx
    refine ⟨rfl, rfl, ⟨rfl, rfl, rfl, rfl, rfl, id, fun _ hf => hf⟩, fun _ _ _ hcurrent => ?_⟩
    exact (hs.emitted.refused hcurrent hopens).congr rfl rfl rfl
      ⟨id, rfl, rfl, rfl, id, fun _ _ => id⟩
  | ok u =>
    obtain ⟨rfl, hw⟩ := hx
    refine Task.wp_bind.mpr (Task.wp_mono (auditWithTimeout_wp (by decide)) ?_)
    rintro y c₂ v₂ ⟨rfl, a, rfl, rfl | ⟨err, rfl, hfailed⟩⟩
    · refine ⟨rfl, rfl, hw.kept.trans kept_audit, fun _ _ hclean _ => ?_⟩
      exact (hw.tracks hd hs.emitted hclean).congr rfl rfl rfl sameLog_audit
    · have hmark : ∀ v : View lib, Kept c₂ v c₂.markAuditDegraded v :=
        fun v => ⟨rfl, rfl, rfl, rfl, rfl, id, fun _ hf => hf⟩
      refine ⟨rfl, rfl, (hw.kept.trans kept_audit).trans (hmark _), fun hend hcut hclean _ => ?_⟩
      refine Tracks.markAuditDegraded
        ((hw.tracks hd hs.emitted hclean).congr rfl rfl rfl sameLog_audit) fun _ => ?_
      have hinterrupted : v₁.interrupted = true := (hw.kept (c := c₂)).interrupted.trans hcut
      by_cases hsaid : v₁.degraded = true
      · refine .inl ?_
        simp only [View.observe, View.step, hfailed, View.auditRefused]
        exact hsaid
      · refine .inr ?_
        simp [View.observe, View.step, hfailed, View.auditRefused, hinterrupted, hend, hsaid]

/-- What ending a run leaves. -/
structure Terminalized (c : RunContext) (v : View lib) (x : Except HarnessError Unit)
    (c' : RunContext) (v' : View lib) : Prop where
  ok : x = .ok ()
  finished : c'.status.isFinished = true
  kept : Kept c v c' v'
  tracks : v.interrupted = true → (v.volatile = false → v.refused = false) →
    (v.volatile = false → v.current = true) → Tracks c' v'

/-- A run can be ended even behind a refused event: its end is then refused too. -/
theorem terminalizeTracked_wp {outcome : RunOutcome} (hd : During cmd v)
    (hrunning : c.status = .running) (ht : Tracks c v) (hfollow : MayFollow v) :
    Task.wp (monitor lib) (terminalize lib cmd.harness outcome) (Terminalized c v) c v := by
  have hfinish : c.commitFinished outcome = .ok { c with status := .finished outcome } := by
    simp [RunContext.commitFinished, hrunning, RunStatus.finish]
  -- the status is committed before the event is taken; the log does not see it
  have htracks : Tracks { c with status := .finished outcome } v :=
    ht.congr rfl rfl rfl ⟨id, rfl, rfl, rfl, id, fun _ _ => id⟩
  unfold terminalize
  refine Task.wp_bind.mpr (Task.wp_look.mpr ?_)
  simp only [hrunning, if_true, hfinish]
  refine Task.wp_bind.mpr (Task.wp_put.mpr ?_)
  refine Task.wp_bind.mpr (Task.wp_attempt.mpr (nextEvent_wp ?_ ?_))
  · intro e c₁ he
    obtain ⟨hkind, -, hkept, hstatus, -⟩ := RunContext.nextEvent_kept (v := v) he
    have hs : Sendable e c₁ v := by
      refine ⟨htracks.taken (.uncounted rfl) he, hfollow, ?_⟩
      rw [hkind]
      exact nofun
    refine Task.wp_mono (auditTerminalBestEffort_wp hd hs (by rw [hkind]; rfl) (by rw [hkind]; rfl)) ?_
    intro x c₂ v₂ hn
    refine ⟨hn.ok, ?_, ?_, hn.tracks (by rw [hkind]; rfl)⟩
    · rw [hn.status, hstatus]
      rfl
    · exact Kept.trans ⟨hkept.key, rfl, rfl, rfl, rfl, id, fun _ hf => hf⟩ hn.kept
  · intro err c₁ he
    refine ⟨rfl, ?_, ?_, fun _ _ _ => htracks.untaken_markAuditDegraded he⟩
    · rcases RunContext.nextEvent_error he with ⟨rfl, -⟩ | ⟨e, -, rfl⟩ <;> rfl
    · rcases RunContext.nextEvent_error he with ⟨rfl, -⟩ | ⟨e, -, rfl⟩ <;>
        exact ⟨rfl, rfl, rfl, rfl, rfl, id, fun _ hf => hf⟩

theorem terminalize_wp {outcome : RunOutcome} (hd : During cmd v) (hl : Live c v) :
    Task.wp (monitor lib) (terminalize lib cmd.harness outcome) (Terminalized c v) c v :=
  terminalizeTracked_wp hd hl.running hl.tracks hl.mayFollow

/-- Ending a run and returning an error leaves it ended. -/
theorem terminalize_does {α : Type} {outcome : RunOutcome} {err : HarnessError}
    {Q : α → RunContext → View lib → Prop} (hd : During cmd v) (hl : Live c v) :
    Does (do terminalize lib cmd.harness outcome; Task.fail err) c v Q := by
  refine Task.wp_bind.mpr (Task.wp_mono (terminalize_wp hd hl) ?_)
  intro x c' v' ht
  rw [ht.ok]
  exact Ended.rest (.inr ht.finished)

/-! ## Degrading the audit -/

theorem markAuditDegraded_wp {Q : Except HarnessError Unit → RunContext → View lib → Prop}
    (h : Q (.ok ()) c.markAuditDegraded v) :
    Task.wp (monitor lib) markAuditDegraded Q c v := h

/-- What `record_audit_degraded` leaves. A context that was live stays live unless the store
refused the event. -/
structure Degraded (c : RunContext) (v : View lib) (x : Except HarnessError Unit) (c' : RunContext)
    (v' : View lib) : Prop where
  status : c'.status = c.status
  kept : Kept c v c' v'
  armed : v'.armed = v.armed
  live : Live c v → Live c' v' ∨ x ≠ .ok () ∧ Ended c'

theorem recordAuditDegraded_wp (hd : During cmd v) (ht : Tracks c v) (hfollow : MayFollow v)
    (hclean : v.volatile = false → v.refused = false) :
    Task.wp (monitor lib) (recordAuditDegraded lib cmd.harness) (Degraded c v) c v := by
  refine Task.wp_bind.mpr (nextEvent_wp ?_ ?_)
  · intro e c₁ he
    have hemitted := ht.taken (.uncounted rfl) he
    have hcovered (h : Covered c) := h.taken (.uncounted rfl) he
    obtain ⟨rfl, -, d, hd', rfl⟩ := RunContext.nextEvent_ok he
    have hflag : d.context.auditDegraded = true := by
      rw [DurableRunState.apply_auditDegraded hd']
      simp [AgentEvent.new]
    -- the event has set the flag already, so marking the context adds nothing to its state
    generalize hc₁ : ({ c with nextEventSequence := c.nextEventSequence + 1, durableState := d } :
      RunContext) = c₁ at hemitted hcovered
    have hmarked : c₁.markAuditDegraded.durableState = c₁.durableState := by
      rw [← hc₁]
      exact DurableRunState.setAuditDegraded_of_degraded hflag
    have hs : Sendable (.new c.runId c.nextEventSequence .auditDegraded) c₁.markAuditDegraded v :=
      ⟨hemitted.context rfl rfl hmarked, hfollow, nofun⟩
    have hsame : Kept c v c₁.markAuditDegraded v := by
      rw [← hc₁]
      exact ⟨rfl, rfl, rfl, rfl, rfl, id, fun _ hf => hf⟩
    refine Task.wp_bind.mpr (markAuditDegraded_wp ?_)
    refine Task.wp_mono (persistTransition_wp hd hs nofun) ?_
    intro x c₂ v₂ hx
    cases x with
    | ok u =>
      obtain ⟨rfl, hw⟩ := hx
      refine ⟨by rw [← hc₁]; rfl, hsame.trans hw.kept, ?_, fun hl => .inl ?_⟩
      · rcases hw with ⟨-, rfl⟩ | ⟨-, facts, rfl, -⟩ <;> rfl
      · have ha : Announcing (.new c.runId c.nextEventSequence .auditDegraded)
            c₁.markAuditDegraded v := by
          refine ⟨?_, ?_, ?_, hclean, hs.emitted, hl.unfinished, hcovered hl.covered⟩ <;> rw [← hc₁]
          · exact hl.healthy
          · exact hl.running
          · exact hl.clock
        exact ha.wrote hd hw rfl
    | error err =>
      obtain ⟨rfl, rfl⟩ := hx
      refine ⟨by rw [← hc₁]; rfl, ?_, rfl, fun _ => .inr ⟨nofun, .inl rfl⟩⟩
      exact hsame.trans ⟨rfl, rfl, rfl, rfl, rfl, id, fun _ hf => hf⟩
  · intro err c₁ he
    refine ⟨?_, ?_, rfl, fun hl => .inl (hl.untaken (.uncounted rfl) he)⟩
    · rcases RunContext.nextEvent_error he with ⟨rfl, -⟩ | ⟨e, -, rfl⟩ <;> rfl
    · rcases RunContext.nextEvent_error he with ⟨rfl, -⟩ | ⟨e, -, rfl⟩ <;>
        exact ⟨rfl, rfl, rfl, rfl, rfl, id, fun _ hf => hf⟩

theorem recordAuditDegraded_does (hd : During cmd v) (hl : Live c v) :
    Does (recordAuditDegraded lib cmd.harness) c v
      (fun _ c' v' => Live c' v' ∧ Kept c v c' v' ∧ v'.armed = v.armed) := by
  refine Task.wp_mono (recordAuditDegraded_wp hd hl.tracks hl.mayFollow hl.clean) ?_
  intro x c' v' h
  cases x with
  | ok u =>
    rcases h.live hl with hl' | ⟨hne, -⟩
    · exact ⟨hl', h.kept, h.armed⟩
    · exact absurd rfl hne
  | error err => exact (h.live hl).elim Live.rest fun he => he.2.rest

/-! ## Recording an event -/

theorem View.observe_recorded {site : AuditSite} {u : Unit} :
    v.observe (.audit site e) (.ready (.ok u)) = { v with facts := v.facts ++ [.audited e] } := by
  cases site <;> rfl

/-- The audit of an event that is in the log: a mandatory one returns only if it was recorded. -/
theorem auditAlreadyPersisted_does {operation : HarnessOperation} {phase : AuditPhase}
    {effect : OperationEffect} {required : Bool} (hd : During cmd v) (hl : Live c v) :
    Does (auditAlreadyPersisted lib cmd.harness e operation phase effect required) c v
      (fun _ c' v' => Live c' v' ∧ Kept c v c' v' ∧ v'.armed = v.armed ∧
        (required = true → .audited e ∈ v'.facts ∧ c'.auditDegraded = c.auditDegraded)) := by
  obtain ⟨r, hruntime⟩ := Option.isSome_iff_exists.mp hl.clock
  unfold auditAlreadyPersisted
  have hbounds : Does (auditWithRunBounds e) c v (fun x c' v' => c' = c ∧
      ∃ a, v' = v.observe (.audit .bounded e) a ∧ (x = .recorded → .audited e ∈ v'.facts)) := by
    unfold auditWithRunBounds
    refine Does.look ?_
    rw [hruntime]
    refine Does.ask View.permits_audit fun a => ?_
    cases a with
    | ready result =>
      cases result with
      | ok u =>
        refine Does.pure ⟨rfl, _, rfl, fun _ => ?_⟩
        rw [View.observe_recorded]
        exact List.mem_append_right _ (List.mem_singleton.mpr rfl)
      | error err => exact Does.pure ⟨rfl, _, rfl, nofun⟩
    | cancelled => exact Does.pure ⟨rfl, _, rfl, nofun⟩
    | deadlineExceeded => exact Does.pure ⟨rfl, _, rfl, nofun⟩
  refine Does.bind hbounds ?_
  rintro x c₁ v₁ ⟨rfl, a, rfl, hrecorded⟩
  have hl₁ := hl.view (sameLog_audit (a := a))
  have hkept : Kept c₁ v c₁ (v.observe (.audit .bounded e) a) := kept_audit
  have hd₁ := hkept.during hd
  cases x with
  | recorded => exact Does.pure ⟨hl₁, hkept, armed_audit, fun _ => ⟨hrecorded rfl, rfl⟩⟩
  | cancelled => exact terminalize_does hd₁ hl₁
  | deadlineExceeded => exact terminalize_does hd₁ hl₁
  | failed kind =>
    cases required with
    | true =>
      refine Does.bind (recordAuditDegraded_does hd₁ hl₁) ?_
      intro _ c₂ v₂ h
      exact Does.fail h.1.rest
    | false =>
      unfold applyAuditFailure
      cases cmd.harness.auditFailurePolicy with
      | failClosed => exact Does.fail hl₁.rest
      | failOpen =>
        refine (recordAuditDegraded_does hd₁ hl₁).mono ?_
        rintro _ c₂ v₂ ⟨hl₂, hkept₂, harmed⟩
        exact ⟨hl₂, hkept.trans hkept₂, harmed.trans armed_audit, nofun⟩

/-- The event is in the log and the context goes on. -/
structure Recorded (cmd : Command lib) (kind : AgentEventKind) (required : Bool) (c : RunContext)
    (v : View lib) (c' : RunContext) (v' : View lib) : Prop where
  live : Live c' v'
  kept : Kept c v c' v'
  current : cmd.harness.persistence = true → v'.current = true
  armed : cmd.harness.persistence = true → v'.armed = match kind.opens with
    | some key => some (c.runId, key)
    | none => v.armed
  settled : required = true → c'.auditDegraded = c.auditDegraded ∧
    ∃ e : AgentEvent, e.kind = kind ∧ v'.Settled e

/-- An event that was taken and written, then audited. -/
theorem Announcing.audited_does {operation : HarnessOperation} {phase : AuditPhase}
    {effect : OperationEffect} {required : Bool} (ha : Announcing e c' v) (hd : During cmd v)
    (hw : Wrote cmd e v v') (hfinish : e.kind.isRunFinished = false) (hkept : Kept c v c' v)
    (hrun : e.runId = c.runId) (hflag : c'.auditDegraded = c.auditDegraded) :
    Does (auditAlreadyPersisted lib cmd.harness e operation phase effect required) c' v'
      (fun _ => Recorded cmd e.kind required c v) := by
  have hkept' : Kept c v c' v' := hkept.trans hw.kept
  have hd' := hkept'.during hd
  refine (auditAlreadyPersisted_does hd' (ha.wrote hd hw hfinish)).mono ?_
  rintro _ c₂ v₂ ⟨hl₂, hkept₂, harmed, hrequired⟩
  refine ⟨hl₂, hkept'.trans hkept₂, fun hp => hkept₂.current (hw.current hp), fun hp => ?_,
    fun hreq => ?_⟩
  · rw [harmed, hw.armed hp, hrun]
  · obtain ⟨haudited, hflag₂⟩ := hrequired hreq
    refine ⟨hflag₂.trans hflag, e, rfl, haudited, fun hp => ?_⟩
    rw [hkept₂.persistent, hd'.persistent] at hp
    exact hkept₂.facts _ (hw.committed hp)

/-- `record` and `record_required`, whichever the mode. -/
theorem recordEvent_does {operation : HarnessOperation} {phase : AuditPhase}
    {effect : OperationEffect} {required : Bool} (hd : During cmd v) (hl : Live c v)
    (hfinish : kind.isRunFinished = false) (haff : Affords c kind)
    (hcloses : ∀ key, kind.closes = some key → v.called = some key)
    (hstarts : ∀ x, kind.restricted = some x → View.mayAppend cmd.operation x = true) :
    Does (do
      let event ← nextEvent lib kind
      persistTransition cmd.harness event
      auditAlreadyPersisted lib cmd.harness event operation phase effect required) c v
      (fun _ => Recorded cmd kind required c v) := by
  refine Task.wp_bind.mpr (nextEvent_wp ?_ ?_)
  · intro e c₁ he
    obtain ⟨rfl, hrun, hkept, -, hflag⟩ := RunContext.nextEvent_kept (v := v) he
    have ha := hl.taken haff he
    refine Task.wp_bind.mpr (Task.wp_mono
      (persistTransition_wp hd (ha.sendable hcloses) hstarts) ?_)
    intro x c₂ v₂ hx
    cases x with
    | ok u =>
      obtain ⟨rfl, hw⟩ := hx
      exact ha.audited_does hd hw hfinish hkept hrun hflag
    | error err =>
      obtain ⟨rfl, -⟩ := hx
      exact Ended.rest (.inl rfl)
  · intro err c₁ he
    exact (hl.untaken haff he).rest

theorem record_does {operation : HarnessOperation} {phase : AuditPhase} {effect : OperationEffect}
    (hd : During cmd v) (hl : Live c v) (hfinish : kind.isRunFinished = false)
    (haff : Affords c kind)
    (hcloses : ∀ key, kind.closes = some key → v.called = some key)
    (hstarts : ∀ x, kind.restricted = some x → View.mayAppend cmd.operation x = true) :
    Does (record lib cmd.harness kind operation phase effect) c v
      (fun _ => Recorded cmd kind false c v) :=
  recordEvent_does hd hl hfinish haff hcloses hstarts

theorem recordRequired_does {operation : HarnessOperation} {phase : AuditPhase}
    {effect : OperationEffect} (hd : During cmd v) (hl : Live c v)
    (hfinish : kind.isRunFinished = false) (haff : Affords c kind)
    (hcloses : ∀ key, kind.closes = some key → v.called = some key)
    (hstarts : ∀ x, kind.restricted = some x → View.mayAppend cmd.operation x = true) :
    Does (recordRequired lib cmd.harness kind operation phase effect) c v
      (fun _ => Recorded cmd kind true c v) :=
  recordEvent_does hd hl hfinish haff hcloses hstarts

/-- Is the audit of this mode mandatory? -/
def ToolAudit.isRequired : ToolAudit → Bool
  | .configured => false
  | .required => true

theorem recordTool_does {mode : ToolAudit} {operation : HarnessOperation} {phase : AuditPhase}
    {effect : OperationEffect} (hd : During cmd v) (hl : Live c v)
    (hfinish : kind.isRunFinished = false) (haff : Affords c kind)
    (hcloses : ∀ key, kind.closes = some key → v.called = some key)
    (hstarts : ∀ x, kind.restricted = some x → View.mayAppend cmd.operation x = true) :
    Does (recordTool lib cmd.harness mode kind operation phase effect) c v
      (fun _ => Recorded cmd kind mode.isRequired c v) := by
  cases mode with
  | configured => exact record_does hd hl hfinish haff hcloses hstarts
  | required => exact recordRequired_does hd hl hfinish haff hcloses hstarts

/-! ## Guards -/

theorem Rest.live (h : Rest c v) (hhealthy : c.persistenceFailed = false)
    (hrunning : c.status = .running) : Live c v := by
  rcases h with (hfailed | hfinished) | hl | hf
  · rw [hhealthy] at hfailed
    cases hfailed
  · rw [hrunning] at hfinished
    cases hfinished
  · exact hl
  · rw [hf.pending] at hrunning
    cases hrunning

theorem requireStatus_does {operation : HarnessOperation} {required : RunStatus}
    (h : Rest c v) :
    Does (requireStatus operation required) c v (fun _ c' v' => c' = c ∧ v' = v ∧
      c.persistenceFailed = false ∧ c.status = required) := by
  unfold requireStatus
  refine Does.look ?_
  by_cases hfailed : c.persistenceFailed = true
  · rw [if_pos hfailed]
    exact Does.fail h
  · rw [if_neg hfailed]
    by_cases hstatus : c.status = required
    · rw [if_pos hstatus]
      exact Does.pure ⟨rfl, rfl, Bool.eq_false_iff.mpr hfailed, hstatus⟩
    · rw [if_neg hstatus]
      exact Does.fail h

theorem runtime_wp {Q : Except HarnessError RunRuntime → RunContext → View lib → Prop}
    (hl : Live c v) (h : ∀ r, Q (.ok r) c v) : Task.wp (monitor lib) runtime Q c v := by
  obtain ⟨r, hruntime⟩ := Option.isSome_iff_exists.mp hl.clock
  unfold runtime
  refine Task.wp_bind.mpr (Task.wp_look.mpr ?_)
  simp only [hruntime]
  exact h r

/-- Whatever passes `preflight` is live. -/
theorem preflight_does {operation : HarnessOperation} (hd : During cmd v) (h : Rest c v) :
    Does (preflight lib cmd.harness operation) c v (fun _ c' v' => c' = c ∧ v' = v ∧ Live c v) := by
  refine Does.bind (requireStatus_does h) ?_
  rintro _ c v ⟨rfl, rfl, hhealthy, hrunning⟩
  have hl := h.live hhealthy hrunning
  refine Task.wp_bind.mpr (runtime_wp hl fun r => ?_)
  refine Does.look (Does.askQuiet rfl fun cancelled => ?_)
  cases cancelled with
  | true => exact terminalize_does hd hl
  | false =>
    refine Does.askQuiet rfl fun now => ?_
    by_cases hlate : r.deadlineAt ≤ now
    · rw [if_pos hlate]
      exact terminalize_does hd hl
    · rw [if_neg hlate]
      exact Does.pure ⟨rfl, rfl, hl⟩

/-! ## Reservations -/

/-- A reservation takes one unit of a counter that was below its limit, and changes nothing
else. -/
structure Reserved (x : Counter) (c c' : RunContext) : Prop where
  usage : c' = { c with usage := c'.usage }
  below : c.usage.count x < c.budget.limit x
  taken : ∀ y, c'.usage.count y = c.usage.count y + if y = x then 1 else 0

section

variable {x : Counter}

theorem Live.reserved (hl : Live c v) (h : Reserved x c c') : Live c' v := by
  have hle : ∀ y, c.usage.count y ≤ c'.usage.count y := fun y => by
    rw [h.taken y]
    exact Nat.le_add_right _ _
  rw [h.usage]
  exact hl.sameLog rfl ⟨rfl, rfl, rfl, rfl, rfl⟩ hle ⟨id, rfl, rfl, rfl, id, fun _ _ => id⟩

/-- What was reserved may be announced. -/
theorem Reserved.affords (h : Reserved x c c') (hl : Live c v)
    (hk : kind.counts = some (x, c'.usage.count x, c'.budget.limit x)) : Affords c' kind := by
  intro y next limit hy
  rw [hk] at hy
  cases hy
  have htaken : c'.usage.count x = c.usage.count x + 1 := by simpa using h.taken x
  have hcovered := hl.covered x
  have hbelow := h.below
  have hbudget : c'.budget = c.budget := by rw [h.usage]
  have hstate : c'.durableState = c.durableState := by rw [h.usage]
  rw [htaken, hbudget, hstate]
  exact ⟨rfl, Nat.lt_succ_of_le hcovered, hbelow⟩

theorem Reserved.kept (h : Reserved x c c') : Kept c v c' v := by
  rw [h.usage]
  exact ⟨rfl, rfl, rfl, rfl, rfl, id, fun _ hf => hf⟩

theorem Reserved.auditDegraded (h : Reserved x c c') : c'.auditDegraded = c.auditDegraded := by
  rw [h.usage]

end

theorem RunContext.reserveModelCall_ok (h : c.reserveModelCall = .ok c') :
    Reserved .modelCalls c c' := by
  unfold reserveModelCall at h
  dsimp only at h
  split at h
  · cases h
  · rename_i hlt
    cases h
    exact ⟨rfl, Nat.not_le.mp hlt, fun y => by cases y <;> rfl⟩

theorem RunContext.reserveToolCall_ok (h : c.reserveToolCall = .ok c') :
    Reserved .toolCalls c c' := by
  unfold reserveToolCall at h
  dsimp only at h
  split at h
  · cases h
  · rename_i hlt
    cases h
    exact ⟨rfl, Nat.not_le.mp hlt, fun y => by cases y <;> rfl⟩

theorem RunContext.reserveApprovalRequest_ok (h : c.reserveApprovalRequest = .ok c') :
    Reserved .approvalRequests c c' := by
  unfold reserveApprovalRequest at h
  dsimp only at h
  split at h
  · cases h
  · rename_i hlt
    cases h
    exact ⟨rfl, Nat.not_le.mp hlt, fun y => by cases y <;> rfl⟩

theorem RunContext.reserveIteration_ok {n : Nat} (h : c.reserveIteration = .ok (n, c')) :
    Reserved .iterations c c' ∧ n = c'.usage.iterations := by
  unfold reserveIteration at h
  dsimp only at h
  split at h
  · cases h
  · rename_i hlt
    cases h
    exact ⟨⟨rfl, Nat.not_le.mp hlt, fun y => by cases y <;> rfl⟩, rfl⟩

theorem RunContext.reserveGraphStep_ok {n : Nat} (h : c.reserveGraphStep = .ok (n, c')) :
    Reserved .graphSteps c c' ∧ n = c'.usage.graphSteps := by
  unfold reserveGraphStep at h
  dsimp only at h
  split at h
  · cases h
  · rename_i hok
    cases h
    simp only [Bool.or_eq_true, decide_eq_true_eq, not_or, Nat.not_le] at hok
    exact ⟨⟨rfl, hok.1.1, fun y => by cases y <;> rfl⟩, rfl⟩

theorem reserve_does {α : Type} {f : RunContext → Except BudgetDimension (α × RunContext)}
    {x : Counter} (hd : During cmd v) (hl : Live c v)
    (hf : ∀ a c', f c = .ok (a, c') → Reserved x c c') :
    Does (reserve lib cmd.harness f) c v (fun a c' v' => v' = v ∧ f c = .ok (a, c') ∧ Live c' v) := by
  unfold reserve
  refine Does.look ?_
  cases hfc : f c with
  | ok p => exact Does.put (Does.pure ⟨rfl, rfl, hl.reserved (hf p.1 p.2 hfc)⟩)
  | error dimension => exact terminalize_does hd hl

theorem reserveUnit_does {f : RunContext → Except BudgetDimension RunContext} {x : Counter}
    (hd : During cmd v) (hl : Live c v) (hf : ∀ c', f c = .ok c' → Reserved x c c') :
    Does (reserve lib cmd.harness fun c => (f c).map fun c => ((), c)) c v
      (fun _ c' v' => v' = v ∧ f c = .ok c' ∧ Live c' v) := by
  have hunit : ∀ a c', (f c).map (fun c => ((), c)) = .ok (a, c') → f c = .ok c' := by
    intro a c' h
    cases hfc : f c with
    | ok c'' =>
      rw [hfc] at h
      cases h
      rfl
    | error dimension =>
      rw [hfc] at h
      cases h
  refine (reserve_does hd hl fun a c' h => hf c' (hunit a c' h)).mono ?_
  rintro a c' v' ⟨hv, h, hl'⟩
  exact ⟨hv, hunit a c' h, hl'⟩

/-! ## Ports -/

/-- What a view remembers of a port call. -/
structure Called (key : CallKey) (facts : List Fact) (v v' : View lib) : Prop where
  called : v'.called = some key
  command : v'.command = v.command
  volatile : v'.volatile = v.volatile
  current : v'.current = v.current
  facts : v'.facts = v.facts ++ facts
  sameLog : SameLog v v'

theorem View.observe_port {run : RunId} {key : CallKey} (hr : r.portCall = some (run, key))
    (a : Answer r) : Called key (factsOf r a) v (v.observe r a) := by
  cases r with
  | modelInvoke | knowledgeRetrieve | approvalDecide | startManaged | startContained =>
    cases hr
    exact ⟨rfl, rfl, rfl, rfl, rfl, id, rfl, rfl, rfl, id, fun _ _ => id⟩
  | toolInvoke run call =>
    cases hr
    simp only [View.observe, View.step]
    split <;> exact ⟨rfl, rfl, rfl, rfl, rfl, id, rfl, rfl, rfl, id, fun _ _ => id⟩
  | _ => cases hr

theorem Called.during {key : CallKey} {facts : List Fact} (h : Called key facts v v')
    (hd : During cmd v) : During cmd v' :=
  ⟨h.command.trans hd.command, fun hp => h.volatile.trans (hd.volatile hp)⟩

/-- A port call appends nothing. -/
theorem Request.transition_of_portCall {x : RunId × CallKey} (hr : r.portCall = some x) :
    r.transition = none := by
  cases r <;> first | rfl | cases hr

theorem View.permits_port {x : RunId × CallKey} (hr : r.portCall = some x)
    (harmed : v.persistent = true → v.armed = some x) (hordered : v.Ordered r) : v.permits r where
  append t h := by rw [Request.transition_of_portCall hr] at h; cases h
  closes t key h := by rw [Request.transition_of_portCall hr] at h; cases h
  call y hy hp := by
    rw [hr] at hy
    cases hy
    exact harmed hp
  ordered := hordered

/-- What a `select!` over a port leaves: an answer of the port and an untouched context, or a run
that was ended in the view `w`. -/
def PortDone {ε α : Type} (wrap : ε → HarnessError) (answer : Awaited (Except ε α)) (c : RunContext)
    (v w : View lib) (x : Except HarnessError α) (c' : RunContext) (v' : View lib) : Prop :=
  match x with
  | .ok a => answer = .ready (.ok a) ∧ c' = c ∧ v' = v
  | .error e => (∃ err, e = wrap err) ∧ c' = c ∧ v' = v ∨
    (e = .cancelled .invocation ∨ e = .deadlineExceeded .invocation) ∧
      View.cutOff answer = true ∧ Terminalized c w (.ok ()) c' v'

theorem settle_wp {ε α : Type} {wrap : ε → HarnessError} {answer : Awaited (Except ε α)}
    {reap : HarnessM Unit} {w : View lib} (hl : Live c w) (hd : During cmd w)
    (hreap : Task.wp (monitor lib) reap (fun x c' v' => c' = c ∧
      (x = .ok () ∧ v' = w ∨ (∃ err, x = .error (wrap err)) ∧ v' = v)) c v) :
    Task.wp (monitor lib) (settle lib cmd.harness reap wrap answer)
      (PortDone wrap answer c v w) c v := by
  have hcut : ∀ (outcome : RunOutcome) (e : HarnessError),
      e = .cancelled .invocation ∨ e = .deadlineExceeded .invocation →
      View.cutOff answer = true →
      Task.wp (monitor lib) (do
        reap
        terminalize lib cmd.harness outcome
        (Task.fail e : HarnessM α)) (PortDone wrap answer c v w) c v := by
    intro outcome e he hanswer
    refine Task.wp_bind.mpr (Task.wp_mono hreap ?_)
    rintro x c₁ v₁ ⟨rfl, ⟨rfl, rfl⟩ | ⟨⟨err, rfl⟩, rfl⟩⟩
    · refine Task.wp_bind.mpr (Task.wp_mono (terminalize_wp hd hl) ?_)
      intro y c₂ v₂ ht
      obtain rfl := ht.ok
      exact .inr ⟨he, hanswer, ht⟩
    · exact .inl ⟨⟨err, rfl⟩, rfl, rfl⟩
  cases answer with
  | cancelled => exact hcut _ _ (.inl rfl) rfl
  | deadlineExceeded => exact hcut _ _ (.inr rfl) rfl
  | ready result =>
    cases result with
    | ok a => exact ⟨rfl, rfl, rfl⟩
    | error err => exact .inl ⟨⟨err, rfl⟩, rfl, rfl⟩

end
end LocalAgent
