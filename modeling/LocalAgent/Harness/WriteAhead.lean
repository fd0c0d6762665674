import LocalAgent.Harness.Clients

/-!
# Every port call is announced in the log first

A call of a model, tool, approval or knowledge port needs the event that announces it in the
store, and uses that event up: the calls of a history are matched one to one with earlier accepted
announcements of the same client. The event that ends a call carries the id of the call made last.
An announcement that the store refused ends the context: nothing is called or written with it any
more.
-/
namespace LocalAgent

open Program

/-! ## Announcements -/

/-- The call that an answered request announces: the store has taken the event that opens it. -/
def Request.announces (r : Request) (a : Answer r) : Option (RunId × CallKey) :=
  if r.accepted a then r.transition.bind fun t => t.event.kind.opens.map fun key => (t.event.runId, key)
  else none

/-- The store has refused the event that opens a call. -/
def Request.announcementRefused (r : Request) (a : Answer r) : Bool :=
  !r.accepted a && r.transition.any fun t => t.event.kind.opens.isSome

theorem Request.announces_none (r : Request) {a : Answer r} (h : r.transition = none) :
    r.announces a = none ∧ r.announcementRefused a = false := by
  simp [announces, announcementRefused, h]

/-- A new context is made. -/
def Operation.isNewContext {lib : Library} : Operation lib → Bool
  | .newContext .. => true
  | _ => false

section

variable {lib : Library} {S : Setting lib} {i : Nat} {h : S.clients.History}

/-- The client gives up its context: it crashes, makes a new one or reads a run to recover it. -/
def replaces : S.clients.Act → Bool
  | .began cmd _ => cmd.operation.isNewContext
  | .did r a => (r.openedRun a).isSome
  | .crashed => true

/-- The act uses up what was announced before, or takes it back. -/
def disarms : S.clients.Act → Bool
  | .did r a => r.portCall.isSome || (r.announces a).isSome || r.announcementRefused a
  | _ => true

def announcing (x : RunId × CallKey) : S.clients.Act → Bool
  | .did r a => decide (r.announces a = some x)
  | _ => false

/-- The act calls a port; with a key, under that key. -/
def calling (key : CallKey) : S.clients.Act → Bool
  | .did r _ => r.portCall.any fun x => x.2 = key
  | _ => false

/-- The act begins an operation, ends the client, or calls a port. -/
def leaves : S.clients.Act → Bool
  | .did r _ => r.portCall.isSome
  | _ => true

def refusing : S.clients.Act → Bool
  | .did r a => r.announcementRefused a
  | _ => false

/-! ## What the views remember -/

theorem View.armed_observe {v : View lib} {r : Request} {a : Answer r} {x : RunId × CallKey}
    (h : (v.observe r a).armed = some x) : r.announces a = some x ∨
      v.armed = some x ∧ r.portCall = none ∧ r.announces a = none ∧
        r.announcementRefused a = false := by
  have hmoved := step_moved (v := v) (a := a)
  replace h : (v.step r a).armed = some x := h
  generalize v.step r a = w at hmoved h
  cases hmoved with
  | @stored t transition idle =>
    cases haccepted : r.accepted a with
    | true =>
      simp only [View.stored, haccepted, if_true] at h
      cases hopens : t.event.kind.opens with
      | none =>
        rw [hopens] at h
        exact .inr ⟨h, idle, by simp [Request.announces, transition, hopens],
          by simp [Request.announcementRefused, haccepted]⟩
      | some key =>
        rw [hopens] at h
        exact .inl (by simp [Request.announces, haccepted, transition, hopens, Option.some.inj h])
    | false =>
      simp only [View.stored, haccepted, Bool.false_eq_true, if_false] at h
      cases hopens : t.event.kind.opens with
      | none =>
        simp only [hopens, Option.isSome_none, Bool.false_eq_true, if_false] at h
        exact .inr ⟨h, idle, by simp [Request.announces, haccepted],
          by simp [Request.announcementRefused, transition, hopens]⟩
      | some key =>
        simp only [hopens, Option.isSome_some, if_true] at h
        cases h
  | called | interrupted => cases h
  | opened _ silent idle | reaped silent idle | unaudited silent idle | unmoved silent idle =>
    exact .inr ⟨h, idle, r.announces_none silent⟩

/-- The call a client may make was announced, and the announcement is unused. -/
theorem armed_since {x : RunId × CallKey} (hx : (S.view i h).armed = some x) :
    Position.Since h (Machine.own i (announcing x)) (Machine.own i disarms) := by
  refine Machine.Watch.since (W := S.watch) (fun v : View lib => v.armed) (B := disarms) rfl ?_ hx
  intro v e x hx
  cases e with
  | began cmd l =>
    refine absurd hx ?_
    show (v.began cmd).armed ≠ some x
    unfold View.began
    split <;> nofun
  | crashed => cases hx
  | did r a =>
    rcases View.armed_observe hx with hann | ⟨hold, hidle, hquiet, hrefused⟩
    · exact .inl (by simp [announcing, hann])
    · exact .inr ⟨hold, by simp [disarms, hidle, hquiet, hrefused]⟩

/-- The call made last stands in the same operation, and no other call after it. -/
theorem called_since {key : CallKey} (hx : (S.view i h).called = some key) :
    Position.Since h (Machine.own i (calling key)) (Machine.own i leaves) := by
  refine Machine.Watch.since (W := S.watch) (fun v : View lib => v.called) (B := leaves) rfl ?_ hx
  intro v e key hx
  cases e with
  | began cmd l =>
    refine absurd hx ?_
    show (v.began cmd).called ≠ some key
    unfold View.began
    split <;> nofun
  | crashed => cases hx
  | did r a =>
    replace hx : (v.step r a).called = some key := hx
    have hmoved := View.step_moved (v := v) (a := a)
    generalize v.step r a = w at hmoved hx
    cases hmoved with
    | called call | interrupted call =>
      obtain rfl := Option.some.inj hx
      exact .inl (by simp [calling, call])
    | stored _ idle =>
      refine .inr ⟨?_, by simp [leaves, idle]⟩
      cases haccepted : r.accepted a <;> rw [haccepted] at hx <;> exact hx
    | opened _ _ idle | reaped _ idle | unaudited _ idle | unmoved _ idle =>
      exact .inr ⟨hx, by simp [leaves, idle]⟩

/-- A refused announcement is remembered until the context is given up. -/
theorem startRefused_of_since
    (hsince : Position.Since h (Machine.own i refusing) (Machine.own i replaces)) :
    (S.view i h).startRefused = true := by
  refine Machine.Watch.of_since (W := S.watch) (P := fun v : View lib => v.startRefused = true)
    (fun v e he => ?_) (fun v e hv he => ?_) hsince
  · cases e with
    | began | crashed => cases he
    | did r a =>
      simp only [refusing, Request.announcementRefused, Bool.and_eq_true, Bool.not_eq_true',
        Option.any_eq_true] at he
      obtain ⟨haccepted, t, ht, hopens⟩ := he
      show (v.step r a).startRefused = true
      have hmoved := View.step_moved (v := v) (a := a)
      generalize v.step r a = w at hmoved
      cases hmoved with
      | stored transition =>
        obtain rfl := Option.some.inj (ht.symm.trans transition)
        simp [View.stored, haccepted, hopens]
      | opened _ silent | called _ silent | interrupted _ silent | reaped silent
      | unaudited silent | unmoved silent =>
        rw [silent] at ht
        cases ht
  · cases e with
    | began cmd l =>
      show (v.began cmd).startRefused = true
      unfold View.began
      split
      · rename_i hop
        simp [replaces, Operation.isNewContext, hop] at he
      · exact hv
    | crashed => cases he
    | did r a =>
      show (v.step r a).startRefused = true
      have hmoved := View.step_moved (v := v) (a := a)
      generalize v.step r a = w at hmoved
      cases hmoved with
      | opened run => simp [replaces, run] at he
      | stored =>
        cases r.accepted a
        · simp [View.stored, hv]
        · exact hv
      | _ => exact hv

/-! ## The law -/

/-- Between the two positions the client begins nothing, does not crash and calls no port. -/
def Quiet (h : S.clients.History) (i q p : Nat) : Prop :=
  ∀ m e, q < m → m < p → h[m]? = some (i, e) → ∃ r a, e = .did r a ∧ r.portCall = none

/-- Write-ahead, as a property of a history. -/
structure WrittenAhead (h : S.clients.History) : Prop where
  /-- Every call has an earlier accepted announcement of the same client, run and id, in the same
  operation, and no two calls share one. -/
  announced : ∃ start : Nat → Nat,
    (∀ p i r a x, h[p]? = some (i, .did r a) → r.portCall = some x →
      start p < p ∧ Quiet h i (start p) p ∧
        ∃ r' a', h[start p]? = some (i, .did r' a') ∧ r'.announces a' = some x) ∧
    ∀ p q i j r r' a a', h[p]? = some (i, .did r a) → r.portCall.isSome = true →
      h[q]? = some (j, .did r' a') → r'.portCall.isSome = true → start p = start q → p = q
  /-- The event that ends a call follows the call in its operation, and carries its id. -/
  recorded : ∀ p i r a t key, h[p]? = some (i, .did r a) → r.transition = some t →
    t.event.kind.closes = some key →
      ∃ q r' a' run, q < p ∧ Quiet h i q p ∧ h[q]? = some (i, .did r' a') ∧
        r'.portCall = some (run, key)
  /-- After a refused announcement the client calls no port and writes nothing, until it gives its
  context up. -/
  refused : ∀ (q p i : Nat) (r r' : Request) (a : Answer r) (a' : Answer r'), q < p → h[q]? = some (i, .did r a) →
    r.announcementRefused a = true → h[p]? = some (i, .did r' a') →
    (∀ m e, q < m → m < p → h[m]? = some (i, e) → replaces e = false) →
      r'.portCall = none ∧ r'.transition = none ∧ ∀ record checkpoint,
        r' ≠ .createRun record checkpoint

theorem getElem?_of_take {α : Type} {l : List α} {p m : Nat} {x : α} (h : (l.take p)[m]? = some x) :
    m < p ∧ l[m]? = some x := by
  rw [List.getElem?_take] at h
  split_ifs at h with hlt
  exact ⟨hlt, h⟩

/-- A position since which nothing disarms, read as positions of the whole history. -/
theorem quiet_of_since {A B : S.clients.Act → Bool} {p : Nat}
    (hB : ∀ e, B e = false → ∃ r a, e = .did r a ∧ r.portCall = none)
    (hsince : Position.Since (h.take p) (Machine.own i A) (Machine.own i B)) :
    ∃ q e, q < p ∧ Quiet h i q p ∧ h[q]? = some (i, e) ∧ A e = true := by
  obtain ⟨q, hq, hafter⟩ := hsince
  obtain ⟨⟨j, e⟩, he, hown⟩ := Position.at_iff.mp hq
  obtain ⟨hj, hA⟩ := Machine.own_iff.mp hown
  obtain rfl : j = i := hj
  obtain ⟨hlt, he⟩ := getElem?_of_take he
  refine ⟨q, e, hlt, fun m e' hqm hmp hme => hB e' (Bool.eq_false_iff.mpr fun hb => ?_), he, hA⟩
  refine hafter m hqm (Position.at_iff.mpr ⟨(j, e'), ?_, Machine.own_iff.mpr ⟨rfl, hb⟩⟩)
  rw [List.getElem?_take, if_pos hmp]
  exact hme

theorem leaves_false {e : S.clients.Act} (he : leaves e = false) :
    ∃ r a, e = .did r a ∧ r.portCall = none := by
  cases e with
  | did r a => exact ⟨r, a, rfl, by simpa [leaves] using he⟩
  | _ => cases he

theorem disarms_false {e : S.clients.Act} (he : disarms e = false) :
    ∃ r a, e = .did r a ∧ r.portCall = none := by
  cases e with
  | did r a =>
    simp only [disarms, Bool.or_eq_false_iff] at he
    exact ⟨r, a, rfl, by simpa using he.1.1⟩
  | _ => cases he

variable {w₀ : S.World} {s : S.clients.State} {p : Nat} {r : Request} {a : Answer r}

/-- The view in which a request was made belongs to a context that has always persisted. -/
theorem persisted_view (hpersist : S.Persists) (hs : S.clients.Reachable w₀ s)
    (hp : s.history[p]? = some (i, .did r a)) :
    (S.view i (s.history.take p)).permits r ∧
      (S.view i (s.history.take p)).persistent = true ∧
      (S.view i (s.history.take p)).volatile = false := by
  obtain ⟨hpermits, cmd, hcmd, hadmits⟩ := Setting.acted hs hp
  obtain ⟨t, ht, hhistory⟩ := hs.take p
  refine ⟨hpermits, ?_, ?_⟩
  · simp [View.persistent, hcmd, hpersist cmd hadmits]
  · rw [← hhistory]
    exact Setting.view_volatile hpersist ht

/-- A request made with a refused announcement behind it. -/
theorem startRefused_of_refused {q : Nat} (hqp : q < p)
    (hq : s.history[q]? = some (i, .did r a)) (hrefused : r.announcementRefused a = true)
    (hkept : ∀ m e, q < m → m < p → s.history[m]? = some (i, e) → replaces e = false) :
    (S.view i (s.history.take p)).startRefused = true := by
  refine startRefused_of_since ⟨q, Position.at_iff.mpr ⟨(i, .did r a), ?_,
    Machine.own_iff.mpr ⟨rfl, hrefused⟩⟩, fun m hqm hm => ?_⟩
  · rw [List.getElem?_take, if_pos hqp]
    exact hq
  · obtain ⟨⟨j, e⟩, hme, hown⟩ := Position.at_iff.mp hm
    obtain ⟨hj, hreplaces⟩ := Machine.own_iff.mp hown
    obtain rfl : j = i := hj
    obtain ⟨hmp, hme⟩ := getElem?_of_take hme
    rw [hkept m e hqm hmp hme] at hreplaces
    cases hreplaces

theorem View.not_appendable {v : View lib} {t : AppendTransition} (hpermits : v.permits r)
    (hv : v.volatile = false) (hrefused : v.startRefused = true) : r.transition ≠ some t := by
  intro ht
  have hannounced := (hpermits.append t ht hv).announced
  rw [hrefused] at hannounced
  cases hannounced

/-- The call itself is not made: it would need an announcement after the refused one, and none is
written. -/
theorem not_called_of_refused (hpersist : S.Persists) (hs : S.clients.Reachable w₀ s) {q : Nat}
    {r' : Request} {a' : Answer r'} (hq : s.history[q]? = some (i, .did r a))
    (hrefused : r.announcementRefused a = true) (hqp : q < p)
    (hp : s.history[p]? = some (i, .did r' a'))
    (hkept : ∀ m e, q < m → m < p → s.history[m]? = some (i, e) → replaces e = false)
    (x : RunId × CallKey) : r'.portCall ≠ some x := by
  intro hx
  obtain ⟨hpermits, hpersistent, -⟩ := persisted_view hpersist hs hp
  obtain ⟨m, hm, hafter⟩ := armed_since (hpermits.call x hx hpersistent)
  obtain ⟨⟨j, e⟩, hme, hown⟩ := Position.at_iff.mp hm
  obtain ⟨hj, hann⟩ := Machine.own_iff.mp hown
  obtain rfl : j = i := hj
  obtain ⟨hmp, hme⟩ := getElem?_of_take hme
  cases e with
  | began | crashed => cases hann
  | did r₁ a₁ =>
    have hann : r₁.announces a₁ = some x := by simpa [announcing] using hann
    rcases Nat.lt_trichotomy m q with hmq | rfl | hqm
    · refine hafter q hmq (Position.at_iff.mpr ⟨(j, .did r a), ?_, Machine.own_iff.mpr ⟨rfl, ?_⟩⟩)
      · rw [List.getElem?_take, if_pos hqp]
        exact hq
      · simp [disarms, hrefused]
    · rw [hq] at hme
      cases hme
      simp only [Request.announcementRefused, Bool.and_eq_true, Bool.not_eq_true'] at hrefused
      simp [Request.announces, hrefused.1] at hann
    · obtain ⟨hpermits₁, -, hvolatile₁⟩ := persisted_view hpersist hs hme
      have hstart := startRefused_of_refused hqm hq hrefused
        fun m' e' hqm' hm' => hkept m' e' hqm' (Nat.lt_trans hm' hmp)
      cases ht : r₁.transition with
      | none =>
        rw [(r₁.announces_none ht).1] at hann
        cases hann
      | some t => exact View.not_appendable hpermits₁ hvolatile₁ hstart ht

/-- Calls are matched one to one with earlier accepted announcements. -/
theorem calls_announced (hpersist : S.Persists) (hs : S.clients.Reachable w₀ s) :
    ∃ start : Nat → Nat,
      (∀ p i r a x, s.history[p]? = some (i, .did r a) → r.portCall = some x →
        start p < p ∧ Quiet s.history i (start p) p ∧
          ∃ r' a', s.history[start p]? = some (i, .did r' a') ∧ r'.announces a' = some x) ∧
      ∀ p q i j r r' a a', s.history[p]? = some (i, .did r a) → r.portCall.isSome = true →
        s.history[q]? = some (j, .did r' a') → r'.portCall.isSome = true → start p = start q →
        p = q := by
  have hcall : ∀ p, (∃ i r a x, s.history[p]? = some (i, .did r a) ∧ r.portCall = some x) →
      ∃ q, ∀ i r a x, s.history[p]? = some (i, .did r a) → r.portCall = some x →
        q < p ∧ Quiet s.history i q p ∧
          ∃ r' a', s.history[q]? = some (i, .did r' a') ∧ r'.announces a' = some x := by
    rintro p ⟨i, r, a, x, hp, hx⟩
    obtain ⟨hpermits, hpersistent, -⟩ := persisted_view hpersist hs hp
    obtain ⟨q, e, hlt, hquiet, hq, hann⟩ :=
      quiet_of_since (fun e => disarms_false) (armed_since (hpermits.call x hx hpersistent))
    refine ⟨q, fun i' r' a' x' hp' hx' => ?_⟩
    rw [hp] at hp'
    cases hp'
    rw [hx] at hx'
    cases hx'
    cases e with
    | did r' a' => exact ⟨hlt, hquiet, r', a', hq, by simpa [announcing] using hann⟩
    | _ => cases hann
  choose! start hstart using hcall
  refine ⟨start, ?_, ?_⟩
  · intro p i r a x hp hx
    exact hstart p ⟨i, r, a, x, hp, hx⟩ i r a x hp hx
  · intro p q i j r r' a a' hp hr hq hr' heq
    obtain ⟨x, hx⟩ := Option.isSome_iff_exists.mp hr
    obtain ⟨y, hy⟩ := Option.isSome_iff_exists.mp hr'
    obtain ⟨hlt, hquiet, r₁, a₁, hat, -⟩ := hstart p ⟨i, r, a, x, hp, hx⟩ i r a x hp hx
    obtain ⟨hlt', hquiet', r₂, a₂, hat', -⟩ := hstart q ⟨j, r', a', y, hq, hy⟩ j r' a' y hq hy
    obtain rfl : i = j := by
      rw [heq, hat'] at hat
      cases hat
      rfl
    -- of two calls under one announcement, the first would stand between it and the second
    rcases Nat.lt_trichotomy p q with hpq | hpq | hpq
    · obtain ⟨r₃, a₃, he, hnone⟩ := hquiet' p _ (heq ▸ hlt) hpq hp
      cases he
      rw [hx] at hnone
      cases hnone
    · exact hpq
    · obtain ⟨r₃, a₃, he, hnone⟩ := hquiet q _ (heq ▸ hlt') hpq hq
      cases he
      rw [hy] at hnone
      cases hnone

/-- **Write-ahead.** With a persistence port, whatever the ports answer and however the clients
interleave. -/
theorem ports_called_write_ahead (hpersist : S.Persists) (hs : S.clients.Reachable w₀ s) :
    WrittenAhead s.history := by
  refine ⟨calls_announced hpersist hs, ?_, ?_⟩
  · intro p i r a t key hp ht hcloses
    obtain ⟨hpermits, -, -⟩ := persisted_view hpersist hs hp
    obtain ⟨q, e, hlt, hquiet, hq, hcalls⟩ :=
      quiet_of_since (fun e => leaves_false) (called_since (hpermits.closes t key ht hcloses))
    cases e with
    | did r' a' =>
      obtain ⟨⟨run, key'⟩, hx, hkey⟩ := (Option.any_eq_true ..).mp hcalls
      obtain rfl : key' = key := by simpa using hkey
      exact ⟨q, r', a', run, hlt, hquiet, hq, hx⟩
    | _ => cases hcalls
  · intro q p i r r' a a' hqp hq hrefused hp hkept
    obtain ⟨hpermits, hpersistent, hvolatile⟩ := persisted_view hpersist hs hp
    have hstart := startRefused_of_refused hqp hq hrefused hkept
    refine ⟨?_, ?_, ?_⟩
    · exact Option.eq_none_iff_forall_ne_some.mpr
        (not_called_of_refused hpersist hs hq hrefused hqp hp hkept)
    · exact Option.eq_none_iff_forall_ne_some.mpr fun t => View.not_appendable hpermits hvolatile hstart
    · rintro record checkpoint rfl
      have hannounced := hpermits.ordered.1
      rw [hstart] at hannounced
      cases hannounced

end

/-- Clients with a persistence port in a world that may answer anything. -/
def anything : Setting plainLibrary where
  admits cmd := cmd.harness.persistence = true
  World := Nat
  exec _ _ _ _ := True
  serial := False

/-- A run that calls the model once. -/
def modelCallRun : anything.clients.State :=
  (anything.clients.start (10 : Nat)).script (fun (n : Nat) r => (favourable n r, nextId n r))
    [(0, sampleCommand (.newContext ⟨1⟩ ⟨2⟩ sampleBudget (.restartable 1))),
     (0, sampleCommand (.startRun none)), (0, sampleCommand (.invokeModel ⟨[]⟩))]

/-- It calls a port, records the end of the call, and is written ahead. -/
theorem model_call_written_ahead :
    anything.Persists ∧ modelCallRun.history.countP (fun e => leaves e.2) = 4 ∧
      WrittenAhead modelCallRun.history := by
  have hpersist : anything.Persists := fun _ h => h
  have hreach : anything.clients.Reachable (10 : Nat) modelCallRun := by
    refine Machine.Reachable.start.trans (Machine.steps_script (fun _ _ => true)
      (fun _ _ _ => trivial) Machine.allIdle_start ?_ (by decide +kernel)).1
    intro cmd hcmd
    simp only [List.mem_cons, List.not_mem_nil, or_false] at hcmd
    rcases hcmd with rfl | rfl | rfl <;> rfl
  exact ⟨hpersist, by decide +kernel, ports_called_write_ahead hpersist hreach⟩

end LocalAgent
