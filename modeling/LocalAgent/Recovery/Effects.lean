import LocalAgent.Recovery.Recover
import LocalAgent.Lib.Position

/-!
# Unresolved effects

The reducer keeps a list of effects whose outcome is open: a start event pushes an entry, a
terminal event removes the first entry of its key (`recovery.rs:972`). Recovery refuses to go on
while the list is not empty. Here the list is compared with the log itself: per key it holds
exactly the starts that the terminals have not used up.

Main theorem: `recover_unresolved_iff_log` (an open start in the log is always reported, a log
whose starts are all answered never is).
-/
namespace LocalAgent

open FailingFold Position

variable {codec : EventCodec} {s s' : DurableRunState} {k : AgentEventKind}

/-! ## Starts and terminals in a log -/

/-- Event `i` of the log starts the effect. -/
def StartsAt (events : List AgentEvent) (i : Nat) (effect : PendingEffect) : Prop :=
  (events[i]?).bind (fun e => e.kind.starts) = some effect

/-- Event `j` of the log reports the outcome of the effects with this key. -/
def ResolvesAt (events : List AgentEvent) (j : Nat) (key : PendingEffectKey) : Prop :=
  (events[j]?).bind (fun e => e.kind.resolves) = some key

/-- Some start has no later terminal for its id. -/
def HasOpenStart (events : List AgentEvent) : Prop :=
  ∃ i effect, StartsAt events i effect ∧ ∀ j, i < j → ¬ ResolvesAt events j effect.key

/-- The starts are matched one-to-one by later terminals for their ids. -/
def StartsMatched (events : List AgentEvent) : Prop :=
  ∃ terminal : Nat → Nat,
    (∀ i effect, StartsAt events i effect →
      i < terminal i ∧ ResolvesAt events (terminal i) effect.key) ∧
    ∀ i j effect effect', StartsAt events i effect → StartsAt events j effect' →
      terminal i = terminal j → i = j

/-! ## One event and the list of open effects -/

namespace DurableRunState

/-- What an accepted event does to the open effects: push, remove, or nothing. -/
inductive PendingStep (k : AgentEventKind) (es es' : List PendingEffect) : Prop
  | push (effect : PendingEffect) (start : k.starts = some effect) (terminal : k.resolves = none)
      (pushed : es' = es ++ [effect])
  | remove (key : PendingEffectKey) (start : k.starts = none) (terminal : k.resolves = some key)
      (removed : removeFirst key es = some es')
  | keep (start : k.starts = none) (terminal : k.resolves = none) (kept : es' = es)

theorem Rule.pendingStep (h : Rule s k s') : PendingStep k s.pendingEffects s'.pendingEffects := by
  cases h with
  | modelStarted | approvalRequested | toolStarted => exact .push _ rfl rfl rfl
  | resolved terminal removed =>
    refine .remove _ ?_ terminal removed
    cases k <;> first | rfl | cases terminal
  | decided decision =>
    cases k <;> first | exact .keep rfl rfl rfl | cases decision
  | noted note =>
    cases k <;> first | exact .keep rfl rfl rfl | cases note
  | loop rule => cases rule <;> exact .keep rfl rfl rfl
  | graph rule => cases rule <;> exact .keep rfl rfl rfl
  | _ => exact .keep rfl rfl rfl

/-- Removal takes one entry of the key away and touches no other key. -/
theorem removeFirst_countP {key other : PendingEffectKey} {es es' : List PendingEffect}
    (h : removeFirst key es = some es') :
    es'.countP (fun e => e.key = other) + (if key = other then 1 else 0) =
      es.countP (fun e => e.key = other) := by
  induction es generalizing es' with
  | nil => cases h
  | cons e es ih =>
    unfold removeFirst at h
    split at h
    · rename_i hmatch
      rw [PendingEffectKey.matches_iff] at hmatch
      cases h
      rw [List.countP_cons, hmatch]
      simp
    · obtain ⟨rest, hrest, rfl⟩ := Option.map_eq_some_iff.mp h
      rw [List.countP_cons, List.countP_cons, ← ih hrest]
      omega

theorem PendingStep.countP {es es' : List PendingEffect} (h : PendingStep k es es')
    (key : PendingEffectKey) :
    es'.countP (fun e => e.key = key) + (if k.resolves = some key then 1 else 0) =
      es.countP (fun e => e.key = key) + (if k.starts.map PendingEffect.key = some key then 1 else 0) := by
  cases h with
  | push effect start terminal pushed =>
    rw [pushed, start, terminal, List.countP_append, List.countP_singleton]
    simp
  | remove other start terminal removed =>
    rw [start, terminal, ← removeFirst_countP removed]
    simp
  | keep start terminal kept =>
    rw [kept, start, terminal]
    simp

/-! ## The whole log -/

/-- The starts and the terminals of one key. -/
def isStartOf (key : PendingEffectKey) (e : AgentEvent) : Bool :=
  e.kind.starts.map PendingEffect.key = some key

def isTerminalOf (key : PendingEffectKey) (e : AgentEvent) : Bool := e.kind.resolves = some key

/-- **The open effects are the starts minus the terminals**, key by key. -/
theorem replay_pending_count {record : RunRecord} {events : List AgentEvent}
    (h : (initial record).replay codec events = .ok s) (key : PendingEffectKey) :
    s.pendingEffects.countP (fun e => e.key = key) + events.countP (isTerminalOf key) =
      events.countP (isStartOf key) := by
  refine history (R := fun log t => t.pendingEffects.countP (fun e => e.key = key) +
    log.countP (isTerminalOf key) = log.countP (isStartOf key)) rfl ?_ h
  intro log e m m' _ ih hm
  obtain ⟨next, bytes, -, hrule, -, rfl⟩ := (apply_ok hm).rule
  have hstep := hrule.pendingStep.countP key
  rw [List.countP_append, List.countP_append, List.countP_singleton, List.countP_singleton, ← ih]
  simp only [isStartOf, isTerminalOf, decide_eq_true_eq, chained]
  omega

/-- An open effect stays open as long as no terminal names it. -/
theorem replay_keeps_open {events : List AgentEvent} {key : PendingEffectKey}
    (h : s.replay codec events = .ok s') (hopen : 0 < s.pendingEffects.countP (fun e => e.key = key))
    (hnone : ∀ e ∈ events, e.kind.resolves ≠ some key) :
    0 < s'.pendingEffects.countP (fun e => e.key = key) := by
  induction events generalizing s with
  | nil => cases h; exact hopen
  | cons e events ih =>
    obtain ⟨m, hm, hrest⟩ := replay_cons.mp h
    obtain ⟨next, bytes, -, hrule, -, rfl⟩ := (apply_ok hm).rule
    have hstep := hrule.pendingStep.countP key
    rw [if_neg (hnone e List.mem_cons_self)] at hstep
    refine ih hrest ?_ fun e' he' => hnone e' (List.mem_cons_of_mem e he')
    show 0 < next.pendingEffects.countP _
    omega

/-- An open start in the log leaves an open effect in the state. -/
theorem pending_of_openStart {record : RunRecord} {events : List AgentEvent}
    (h : (initial record).replay codec events = .ok s) (hopen : HasOpenStart events) :
    s.pendingEffects ≠ [] := by
  obtain ⟨i, effect, hstart, hnone⟩ := hopen
  obtain ⟨e, he, hkind⟩ := Option.bind_eq_some_iff.mp hstart
  obtain ⟨hi, rfl⟩ := List.getElem?_eq_some_iff.mp he
  have hsplit : events = events.take i ++ events[i] :: events.drop (i + 1) := by simp
  rw [hsplit, replay_append] at h
  obtain ⟨m, -, h⟩ := h
  obtain ⟨m', hm', hrest⟩ := replay_cons.mp h
  obtain ⟨next, bytes, -, hrule, -, rfl⟩ := (apply_ok hm').rule
  have hstep := hrule.pendingStep
  have hpos : 0 < s.pendingEffects.countP (fun e => e.key = effect.key) := by
    refine replay_keeps_open hrest ?_ ?_
    · cases hstep with
      | push effect' start terminal pushed =>
        obtain rfl : effect' = effect := Option.some.inj (start.symm.trans hkind)
        rw [chained, pushed, List.countP_append]
        simp
      | remove key start => cases start.symm.trans hkind
      | keep start => cases start.symm.trans hkind
    · intro e he hres
      obtain ⟨j, hj, rfl⟩ := List.mem_iff_getElem.mp he
      refine hnone (i + 1 + j) (by omega) ?_
      rw [List.length_drop] at hj
      have hjlt : i + 1 + j < events.length := by omega
      rw [ResolvesAt, List.getElem?_eq_getElem hjlt]
      rwa [List.getElem_drop] at hres
  intro hnil
  rw [hnil] at hpos
  exact absurd hpos (Nat.lt_irrefl 0)

/-- A log whose starts are all matched leaves no open effect. -/
theorem pending_of_startsMatched {record : RunRecord} {events : List AgentEvent}
    (h : (initial record).replay codec events = .ok s) (hmatched : StartsMatched events) :
    s.pendingEffects = [] := by
  obtain ⟨terminal, hterminal, hinj⟩ := hmatched
  have hstart : ∀ key i, At events (isStartOf key) i →
      ∃ effect, StartsAt events i effect ∧ effect.key = key := by
    intro key i hi
    obtain ⟨e, he, hkey⟩ := at_iff.mp hi
    obtain ⟨effect, heffect, hkey⟩ := Option.map_eq_some_iff.mp (of_decide_eq_true hkey)
    exact ⟨effect, Option.bind_eq_some_iff.mpr ⟨e, he, heffect⟩, hkey⟩
  have hcount : ∀ key, events.countP (isStartOf key) ≤ events.countP (isTerminalOf key) := by
    intro key
    refine countP_le_of_injOn terminal (fun i hi => ?_) (fun i j hi hj heq => ?_)
    · obtain ⟨effect, heffect, rfl⟩ := hstart key i hi
      obtain ⟨e, he, hres⟩ := Option.bind_eq_some_iff.mp (hterminal i effect heffect).2
      exact at_iff.mpr ⟨e, he, decide_eq_true hres⟩
    · obtain ⟨x, hx, -⟩ := hstart key i hi
      obtain ⟨y, hy, -⟩ := hstart key j hj
      exact hinj i j x y hx hy heq
  cases hpending : s.pendingEffects with
  | nil => rfl
  | cons effect rest =>
    have hbalance := replay_pending_count h effect.key
    have hle := hcount effect.key
    rw [hpending, List.countP_cons, if_pos (by simp)] at hbalance
    omega

end DurableRunState

/-! ## Recovery -/

/-- The first test of the classification. -/
theorem classify_unresolved {contract : RecoveryContract} {nowUnixMillis : Nat} {now : Instant}
    {effect : PendingEffect} {rest : List PendingEffect} (h : s.pendingEffects = effect :: rest) :
    classify contract nowUnixMillis now s =
      .ok (.manualReconciliationRequired s (.unresolvedEffect effect)) := by
  unfold classify
  rw [h]

theorem classifyRunning_ne_unresolved {contract : RecoveryContract} {elapsed : Duration}
    {now : Instant} {state : DurableRunState} {effect : PendingEffect} :
    classifyRunning contract elapsed now s ≠
      .ok (.manualReconciliationRequired state (.unresolvedEffect effect)) := by
  intro h
  unfold classifyRunning at h
  repeat' split at h
  all_goals cases h

theorem classify_ne_unresolved {contract : RecoveryContract} {nowUnixMillis : Nat} {now : Instant}
    {state : DurableRunState} {effect : PendingEffect} (hnil : s.pendingEffects = []) :
    classify contract nowUnixMillis now s ≠
      .ok (.manualReconciliationRequired state (.unresolvedEffect effect)) := by
  intro h
  simp only [classify, hnil] at h
  repeat' split at h
  all_goals first
    | exact classifyRunning_ne_unresolved h
    | cases h

/-- **Unresolved effects are never hidden.** For every log the reducer accepts: if a start is
open, recovery reports an unresolved effect, with every checkpoint of a prefix, and with no
checkpoint anything else; if the starts are matched one-to-one by later terminals, it never
does. -/
theorem recover_unresolved_iff_log {record : RunRecord} {events : List AgentEvent}
    (hstore : record.storeSchemaVersion = currentStoreSchemaVersion)
    (hversion : record.checkpointSchemaVersion = currentCheckpointSchemaVersion)
    (hlen : events.length ≤ u64Max)
    (h : (DurableRunState.initial record).replay codec events = .ok s) :
    (HasOpenStart events →
      (∀ n ≤ events.length, ∀ covered,
        (DurableRunState.initial record).replay codec (events.take n) = .ok covered →
        ∀ nowUnixMillis now, ∃ effect,
          recoverLoadedRun codec ⟨record, .new covered, events⟩ nowUnixMillis now =
            .ok (.manualReconciliationRequired s (.unresolvedEffect effect))) ∧
      ∀ stored nowUnixMillis now d,
        recoverLoadedRun codec ⟨record, stored, events⟩ nowUnixMillis now = .ok d →
        ∃ effect, d = .manualReconciliationRequired s (.unresolvedEffect effect)) ∧
    (StartsMatched events → ∀ stored nowUnixMillis now state effect,
      recoverLoadedRun codec ⟨record, stored, events⟩ nowUnixMillis now ≠
        .ok (.manualReconciliationRequired state (.unresolvedEffect effect))) := by
  have hlog := ReplayedLog.of_replay hstore hversion hlen h
  -- whatever the checkpoint, the state that gets classified is `s`
  have hclass : ∀ stored nowUnixMillis now d,
      recoverLoadedRun codec ⟨record, stored, events⟩ nowUnixMillis now = .ok d →
      classify record.recoveryContract nowUnixMillis now s = .ok d := by
    intro stored nowUnixMillis now d hd
    obtain ⟨state, hlog', hd'⟩ := recover_verified hd
    rwa [← Except.ok.inj (hlog'.replayed.symm.trans h)]
  refine ⟨fun hopen => ?_, fun hmatched stored nowUnixMillis now state effect hd => ?_⟩
  · obtain ⟨effect, rest, hpending⟩ :=
      List.exists_cons_of_ne_nil (DurableRunState.pending_of_openStart h hopen)
    refine ⟨fun n hn covered hcp nowUnixMillis now => ⟨effect, ?_⟩,
      fun stored nowUnixMillis now d hd => ⟨effect, ?_⟩⟩
    · rw [recover_of_replayed_checkpoint hlog hn hcp, classify_unresolved hpending]
    · have := hclass stored nowUnixMillis now d hd
      rw [classify_unresolved hpending] at this
      exact (Except.ok.inj this).symm
  · have hnil := DurableRunState.pending_of_startsMatched h hmatched
    exact classify_ne_unresolved hnil (hclass stored nowUnixMillis now _ hd)

/-- A model call that was started and never answered. -/
theorem recover_unresolved_model_call :
    ∃ s effect, (DurableRunState.initial (sampleRecord .nonRestartable)).replay plainCodec
        (sampleLog [.runStarted 1000, .modelInvocationStarted ⟨7⟩ 1 4]) = .ok s ∧
      recoverLoadedRun plainCodec ⟨sampleRecord .nonRestartable,
          .new (.initial (sampleRecord .nonRestartable)),
          sampleLog [.runStarted 1000, .modelInvocationStarted ⟨7⟩ 1 4]⟩ 2000 0 =
        .ok (.manualReconciliationRequired s (.unresolvedEffect effect)) := by
  have hopen : HasOpenStart (sampleLog [.runStarted 1000, .modelInvocationStarted ⟨7⟩ 1 4]) := by
    refine ⟨1, .model ⟨7⟩, rfl, fun j hj h => ?_⟩
    rw [ResolvesAt, List.getElem?_eq_none (Nat.succ_le_of_lt hj)] at h
    cases h
  obtain ⟨s, hs⟩ : ∃ s, (DurableRunState.initial (sampleRecord .nonRestartable)).replay plainCodec
      (sampleLog [.runStarted 1000, .modelInvocationStarted ⟨7⟩ 1 4]) = .ok s := ⟨_, rfl⟩
  obtain ⟨effect, heffect⟩ := ((recover_unresolved_iff_log rfl rfl (by decide) hs).1 hopen).1
    0 (Nat.zero_le _) _ rfl 2000 0
  exact ⟨s, effect, hs, heffect⟩

end LocalAgent
