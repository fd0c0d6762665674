import LocalAgent.Desktop.Conversation

/-!
# The place in the log

What is kept of a run is always the beginning of its log, and the cursor its end (`Controller.Sound`).
A poll that is not stale never takes anything back. A stale one, because the slot names no last
sequence, replaces what is kept by the first page: a client that keeps more than one page falls back
(`place_kept`). A poll after which polling stops has all events only if they fit in its page
(`finished_iff`).
-/
namespace LocalAgent.Desktop

open Store (lastOf)

variable {workflows : List (RecoveryContract × WorkflowId)} {codec : EventCodec} {key : RunKey}
  {log log' : List AgentEvent} {a : ActiveRun} {d : PollData} {m : Nat}

/-! ## What is kept and what was fetched -/

/-- The views of the first events of the log. -/
def Begins (log : List AgentEvent) (events : List ServiceEvent) : Prop :=
  List.Forall₂ Projects events (log.take events.length)

/-- The active run is at a place of the log. -/
structure Placed (log : List AgentEvent) (runId : RunId) (a : ActiveRun) : Prop where
  run : a.runId = runId
  cursor : a.cursor = lastOf a.events.length
  events : Begins log a.events

/-- The status was given when the log had `m` events. -/
def Dated (m : Nat) (status : RunView) : Prop :=
  status.lastSequence = none ∨ ∃ k ≤ m, status.lastSequence = lastOf k

/-- The page was read when the log had `m` events, from the cursor on. -/
structure Fetched (log : List AgentEvent) (runId : RunId) (m : Nat) (d : PollData) : Prop where
  reached : m ≤ log.length
  within : count d.asked ≤ m
  length : d.events.length = min maxItems (m - count d.asked)
  events : List.Forall₂ Projects d.events ((log.drop (count d.asked)).take d.events.length)
  run : ∀ event ∈ d.events, event.runId = runId
  dated : Dated m d.status
  stale : d.staleCursor = true → d.asked = none
  current : ∀ n, d.asked = some n → ∃ last, d.status.lastSequence = some last ∧ n ≤ last

theorem Begins.length_le {events : List ServiceEvent} (h : Begins log events) :
    events.length ≤ log.length := by
  have hlen := h.length_eq
  rw [List.length_take] at hlen
  omega

theorem take_grown {n : Nat} (h : log <+: log') (hn : n ≤ log.length) : log'.take n = log.take n := by
  obtain ⟨rest, rfl⟩ := h
  exact List.take_append_of_le_length hn

theorem Begins.grow {events : List ServiceEvent} (h : Begins log events) (hlog : log <+: log') :
    Begins log' events := by
  rw [Begins, take_grown hlog h.length_le]
  exact h

theorem Placed.grow {runId : RunId} (h : Placed log runId a) (hlog : log <+: log') :
    Placed log' runId a :=
  ⟨h.run, h.cursor, h.events.grow hlog⟩

theorem Dated.mono {m' : Nat} {status : RunView} (h : Dated m status) (hm : m ≤ m') : Dated m' status :=
  h.imp_right fun ⟨k, hk, hlast⟩ => ⟨k, hk.trans hm, hlast⟩

theorem Fetched.grow {runId : RunId} (h : Fetched log runId m d) (hlog : log <+: log') :
    Fetched log' runId m d := by
  refine { h with reached := h.reached.trans hlog.length_le, events := ?_ }
  have hend : count d.asked + d.events.length ≤ log.length := by
    have hreached := h.reached
    have hwithin := h.within
    have hlen := h.length
    omega
  have hpart := h.events
  rw [List.take_drop] at hpart ⊢
  rwa [take_grown hlog hend]

/-! ## The merge -/

variable {runId : RunId}

theorem Begins.known {events : List ServiceEvent} (h : Begins log events)
    (hlog : log.map AgentEvent.sequence = List.range log.length) (x : Nat) :
    x ∈ events.map ServiceEvent.sequence ↔ x < events.length := by
  rw [sequences_of_projects h, List.map_take, hlog, List.take_range, Nat.min_eq_left h.length_le,
    List.mem_range]

/-- The page that was fetched, for what is kept. -/
theorem Fetched.merges {existing : List ServiceEvent} (h : Fetched log runId m d)
    (hlog : log.map AgentEvent.sequence = List.range log.length) (hexisting : Begins log existing) :
    Merges runId (existing.map ServiceEvent.sequence) existing.length (count d.asked) d.events := by
  refine ⟨hexisting.known hlog, ?_, h.run⟩
  have hlen := h.events.length_eq
  rw [sequences_of_projects h.events, List.map_take, List.map_drop, hlog, List.range_eq_range',
    List.drop_range', Nat.zero_add, Nat.mul_one]
  rw [List.length_take, List.length_drop] at hlen
  exact List.take_range'_of_length_ge (by omega)

/-- **A page that begins no later than what is kept ends** leaves the beginning of the log. -/
theorem merge_within {existing : List ServiceEvent} (h : Fetched log runId m d)
    (hlog : log.map AgentEvent.sequence = List.range log.length) (hexisting : Begins log existing)
    (hwithin : count d.asked ≤ existing.length) :
    ∃ events, mergeEventPage existing (lastOf existing.length) d.events runId =
        ⟨events, lastOf events.length, true⟩ ∧
      Begins log events ∧
      events.length = max existing.length (count d.asked + d.events.length) := by
  have hlen : (existing ++ d.events.drop (existing.length - count d.asked)).length =
      max existing.length (count d.asked + d.events.length) := by
    rw [List.length_append, List.length_drop]
    omega
  refine ⟨_, ?_, ?_, hlen⟩
  · rw [mergeEventPage_extends (h.merges hlog hexisting) hwithin, hlen]
  · have hrest := List.forall₂_drop (existing.length - count d.asked) h.events
    rw [List.drop_take, List.drop_drop, Nat.add_sub_cancel' hwithin] at hrest
    have hsplit : log.take (max existing.length (count d.asked + d.events.length)) =
        log.take existing.length ++ (log.drop existing.length).take
          (d.events.length - (existing.length - count d.asked)) := by
      have hmax : max existing.length (count d.asked + d.events.length) =
          existing.length + (d.events.length - (existing.length - count d.asked)) := by omega
      rw [hmax, List.take_add]
    rw [Begins, hlen, hsplit]
    exact List.rel_append hexisting hrest

/-- A page that begins later adds nothing. -/
theorem merge_beyond {existing : List ServiceEvent} (h : Fetched log runId m d)
    (hlog : log.map AgentEvent.sequence = List.range log.length) (hexisting : Begins log existing)
    (hbeyond : existing.length < count d.asked) :
    ∃ valid, mergeEventPage existing (lastOf existing.length) d.events runId =
      ⟨existing, lastOf existing.length, valid⟩ := by
  by_cases hnil : d.events = []
  · refine ⟨true, ?_⟩
    rw [hnil]
    rfl
  · exact ⟨false, mergeEventPage_gap (h.merges hlog hexisting) hbeyond hnil⟩

/-! ## The merge effect -/

/-- What the merge effect starts from. -/
def PollData.existing (d : PollData) (a : ActiveRun) : List ServiceEvent :=
  if d.staleCursor then [] else a.events

theorem PollData.existing_length : (d.existing a).length = d.kept a := by
  unfold existing kept
  split <;> rfl

theorem PollData.merged_eq (h : Placed log runId a) :
    d.merged a runId = mergeEventPage (d.existing a) (lastOf (d.kept a)) d.events runId := by
  unfold merged existing kept
  split
  · rfl
  · rw [h.cursor]

theorem PollData.existing_begins (h : Placed log runId a) : Begins log (d.existing a) := by
  unfold existing
  split
  · exact List.Forall₂.nil
  · exact h.events

/-- **The merge of a page**: it extends what is kept, or it begins later and adds nothing. -/
theorem merged_cases (hlog : log.map AgentEvent.sequence = List.range log.length)
    (ha : Placed log runId a) (hd : Fetched log runId m d) :
    (count d.asked ≤ d.kept a ∧ ∃ events, d.merged a runId = ⟨events, lastOf events.length, true⟩ ∧
      Begins log events ∧ events.length = max (d.kept a) (count d.asked + d.events.length)) ∨
    (d.kept a < count d.asked ∧ ∃ valid,
      d.merged a runId = ⟨d.existing a, lastOf (d.kept a), valid⟩) := by
  have hexisting := d.existing_begins ha
  rw [PollData.merged_eq ha, ← PollData.existing_length]
  by_cases hwithin : count d.asked ≤ (d.existing a).length
  · exact .inl ⟨hwithin, merge_within hd hlog hexisting hwithin⟩
  · exact .inr ⟨Nat.lt_of_not_le hwithin, merge_beyond hd hlog hexisting (Nat.lt_of_not_le hwithin)⟩

/-- After a merge the active run is over, was reset, or has what was merged. -/
theorem merge_active {c : Conversation} {b : ActiveRun} (hc : c.activeRun = some a)
    (hrun : a.runId = runId) (hb : (c.merge runId d).activeRun = some b) :
    b.runId = runId ∧
      (((d.merged a runId).valid = false ∧ b.cursor = none ∧ b.events = []) ∨
      ((d.merged a runId).valid = true ∧ b.cursor = (d.merged a runId).cursor ∧
        b.events = (d.merged a runId).events)) := by
  simp only [Conversation.merge, hc, hrun, ne_eq, not_true_eq_false, if_false] at hb
  split at hb
  · rename_i hvalid
    cases hb
    simp only [Bool.not_eq_true'] at hvalid
    exact ⟨rfl, .inl ⟨hvalid, rfl, rfl⟩⟩
  · rename_i hvalid
    simp only [Bool.not_eq_true', Bool.not_eq_false] at hvalid
    split at hb
    · cases hb
      exact ⟨rfl, .inr ⟨hvalid, rfl, rfl⟩⟩
    · cases hb

/-- A merge keeps the active run at a place of the log, and within what the poll has seen. -/
theorem Placed.merge {c : Conversation} {b : ActiveRun}
    (hlog : log.map AgentEvent.sequence = List.range log.length) (ha : Placed log runId a)
    (hd : Fetched log runId m d) (hm : a.events.length ≤ m) (hc : c.activeRun = some a)
    (hb : (c.merge runId d).activeRun = some b) : Placed log runId b ∧ b.events.length ≤ m := by
  have hkept : d.kept a ≤ a.events.length := by
    unfold PollData.kept
    split <;> omega
  obtain ⟨hrun, ⟨-, hcursor, hevents⟩ | ⟨hvalid, hcursor, hevents⟩⟩ := merge_active hc ha.run hb
  · refine ⟨⟨hrun, ?_, ?_⟩, by simp [hevents]⟩
    · rw [hcursor, hevents]
      rfl
    · rw [hevents]
      exact List.Forall₂.nil
  · obtain ⟨-, events, hmerged, hbegins, hlen⟩ | ⟨-, valid, hmerged⟩ := merged_cases hlog ha hd
    · rw [hmerged] at hcursor hevents
      have hlength := hd.length
      have hwithin := hd.within
      refine ⟨⟨hrun, ?_, ?_⟩, ?_⟩
      · rw [hcursor, hevents]
      · rw [hevents]
        exact hbegins
      · rw [hevents, hlen]
        omega
    · rw [hmerged] at hcursor hevents
      refine ⟨⟨hrun, ?_, ?_⟩, ?_⟩
      · rw [hcursor, hevents, PollData.existing_length]
      · rw [hevents]
        exact d.existing_begins ha
      · rw [hevents, PollData.existing_length]
        exact hkept.trans hm

/-! ## The invariant of a run -/

/-- The cursor of a render, which the log has reached, and the status that a poll may have got. -/
def Fetch.Dated (m : Nat) : Fetch → Prop
  | .started cursor => count cursor ≤ m
  | .answered cursor status => count cursor ≤ m ∧ Desktop.Dated m status

theorem Fetch.Dated.mono {m' : Nat} {f : Fetch} (h : f.Dated m) (hm : m ≤ m') : f.Dated m' := by
  cases f with
  | started cursor => exact Nat.le_trans h hm
  | answered cursor status => exact ⟨h.1.trans hm, h.2.mono hm⟩

/-- Everything the client holds came from the log as it was at some time. -/
structure Controller.Sound (key : RunKey) (c : Controller) : Prop where
  numbered : c.store.AllNumbered
  active : ∀ a, c.conversation.activeRun = some a → Placed (c.store.log key.runId) key.runId a
  rendered : ∀ cursor, c.rendered = some cursor → count cursor ≤ (c.store.log key.runId).length
  fetch : ∀ f, c.fetch = some f → f.Dated (c.store.log key.runId).length
  data : ∀ d, c.data = some d → ∃ m, Fetched (c.store.log key.runId) key.runId m d ∧
    ∀ a, c.conversation.activeRun = some a → a.events.length ≤ m

theorem validatedCursor_cases (cursor last : Option Nat) :
    validatedCursor cursor last = (none, true) ∨
      validatedCursor cursor last = (cursor, false) ∧
        ∀ n, cursor = some n → ∃ k, last = some k ∧ n ≤ k := by
  cases cursor with
  | none => exact .inr ⟨rfl, nofun⟩
  | some n =>
    cases last with
    | none => exact .inl rfl
    | some k =>
      by_cases hlt : k < n
      · exact .inl (by simp [validatedCursor, hlt])
      · refine .inr ⟨by simp [validatedCursor, hlt], ?_⟩
        intro n' hn
        cases hn
        exact ⟨k, rfl, Nat.le_of_not_lt hlt⟩

/-- The poll that just ended. -/
theorem fetched_now {s : Store} {cursor : Option Nat} {status : RunView} {transport : Bool}
    {answers : ReadAnswers} {events : List ServiceEvent} (hs : s.AllNumbered)
    (hf : (Fetch.answered cursor status).Dated (s.log key.runId).length)
    (h : readEvents key (validatedCursor cursor status.lastSequence).1 transport
      (serviceReadEvents workflows s key (validatedCursor cursor status.lastSequence).1 maxItems answers) =
        some events) :
    Fetched (s.log key.runId) key.runId (s.log key.runId).length
      ⟨events, status, (validatedCursor cursor status.lastSequence).2,
        (validatedCursor cursor status.lastSequence).1⟩ := by
  obtain ⟨hanswer, hpage⟩ := readEvents_ok h
  have hitems := serviceReadEvents_items hs hanswer
  rw [after_cursor hs] at hitems
  have hlen := hitems.length_eq
  rw [List.length_take, List.length_drop] at hlen
  have hcases := validatedCursor_cases cursor status.lastSequence
  refine ⟨le_rfl, ?_, hlen, ?_, follows_runId hpage, hf.2, ?_, ?_⟩
  · rcases hcases with hv | ⟨hv, -⟩ <;> rw [hv]
    · exact Nat.zero_le _
    · exact hf.1
  · rw [hlen, ← List.length_drop, ← List.take_eq_take_min]
    exact hitems
  · rcases hcases with hv | ⟨hv, -⟩ <;> simp [hv]
  · rcases hcases with hv | ⟨hv, hcurrent⟩ <;> rw [hv]
    · nofun
    · exact hcurrent

theorem Controller.Sound.step {c : Controller} (h : c.Sound key) (step : PollStep) :
    (c.step workflows codec key step).Sound key := by
  cases step with
  | write call =>
    have hgrow := Store.execute_log c.store call key.runId
    have hlen := hgrow.length_le
    simp only [Controller.step]
    refine ⟨execute_allNumbered h.numbered call, fun a ha => (h.active a ha).grow hgrow,
      fun cursor hr => (h.rendered cursor hr).trans hlen, fun f hf => (h.fetch f hf).mono hlen, ?_⟩
    intro d hd
    obtain ⟨m, hfetched, hm⟩ := h.data d hd
    exact ⟨m, hfetched.grow hgrow, hm⟩
  | render =>
    simp only [Controller.step]
    refine ⟨h.numbered, h.active, ?_, h.fetch, h.data⟩
    intro cursor hr
    obtain ⟨a, ha, rfl⟩ := Option.map_eq_some_iff.mp hr
    rw [(h.active a ha).cursor, count_lastOf]
    exact (h.active a ha).events.length_le
  | fetch =>
    simp only [Controller.step]
    split
    · rename_i cursor hr hf
      refine ⟨h.numbered, h.active, h.rendered, ?_, h.data⟩
      intro f hf
      cases hf
      exact h.rendered cursor hr
    · exact h
  | status transport answers =>
    simp only [Controller.step]
    split
    · rename_i cursor hf
      split
      · exact h
      · rename_i status hstatus
        refine ⟨h.numbered, h.active, h.rendered, ?_, h.data⟩
        intro f hf'
        cases hf'
        refine ⟨h.fetch _ hf, ?_⟩
        exact (getRunStatus_ok h.numbered (runStatus_ok hstatus)).imp_right fun hlast => ⟨_, le_rfl, hlast⟩
    · exact h
  | events transport answers =>
    simp only [Controller.step]
    split
    · rename_i cursor status hf
      split
      · refine ⟨h.numbered, h.active, h.rendered, ?_, h.data⟩
        intro f hf'
        cases hf'
        exact (h.fetch _ hf).1
      · rename_i events hevents
        refine ⟨h.numbered, h.active, h.rendered, (fun f hf' => by cases hf'), ?_⟩
        intro d hd
        cases hd
        exact ⟨_, fetched_now h.numbered (h.fetch _ hf) hevents,
          fun a ha => (h.active a ha).events.length_le⟩
    · exact h
  | merge =>
    simp only [Controller.step]
    split
    · exact h
    · rename_i d hd
      obtain ⟨m, hfetched, hm⟩ := h.data d hd
      have hlog := log_sequences h.numbered key.runId
      have hactive : ∀ b, (c.conversation.merge key.runId d).activeRun = some b →
          Placed (c.store.log key.runId) key.runId b ∧ b.events.length ≤ m := by
        intro b hb
        cases hc : c.conversation.activeRun with
        | none => simp [Conversation.merge, hc] at hb
        | some a => exact (h.active a hc).merge hlog hfetched (hm a hc) hc hb
      refine ⟨h.numbered, fun b hb => (hactive b hb).1, h.rendered, h.fetch, ?_⟩
      intro d' hd'
      obtain rfl := Option.some.inj (hd.symm.trans hd')
      exact ⟨m, hfetched, fun b hb => (hactive b hb).2⟩
  | giveUp =>
    simp only [Controller.step]
    have hactive : ∀ b, (c.conversation.reconnect key.runId).activeRun = some b →
        ∃ a, c.conversation.activeRun = some a ∧ b.runId = a.runId ∧ b.cursor = a.cursor ∧
          b.events = a.events := by
      intro b hb
      obtain ⟨a, ha, rfl⟩ := Option.map_eq_some_iff.mp hb
      exact ⟨a, ha, by split <;> exact ⟨rfl, rfl, rfl⟩⟩
    refine ⟨h.numbered, ?_, h.rendered, (fun f hf => by cases hf), ?_⟩
    · intro b hb
      obtain ⟨a, ha, hrun, hcursor, hevents⟩ := hactive b hb
      have hplaced := h.active a ha
      exact ⟨hrun.trans hplaced.run, by rw [hcursor, hevents, hplaced.cursor],
        by rw [hevents]; exact hplaced.events⟩
    · intro d hd
      obtain ⟨m, hfetched, hm⟩ := h.data d hd
      refine ⟨m, hfetched, fun b hb => ?_⟩
      obtain ⟨a, ha, -, -, hevents⟩ := hactive b hb
      rw [hevents]
      exact hm a ha

section

variable (workflows codec key)

theorem Controller.start_sound (conversation : Conversation) (startedAtMillis : Nat)
    (activity : ActivityLabel) : (Controller.start key conversation startedAtMillis activity).Sound key := by
  refine ⟨Store.empty_allNumbered, ?_, ?_, ?_, ?_⟩
  · intro a ha
    cases ha
    exact ⟨rfl, rfl, List.Forall₂.nil⟩
  · intro cursor hr
    cases hr
  · intro f hf
    cases hf
  · intro d hd
    cases hd

variable {key}

theorem Controller.Sound.run {c : Controller} (h : c.Sound key) (steps : List PollStep) :
    (c.run workflows codec key steps).Sound key := by
  induction steps generalizing c with
  | nil => exact h
  | cons step rest ih => exact ih (h.step step)

end

/-! ## A long run

The loop of a sample run: five iterations have 76 events with the start of the run. -/

def loopBudget : RunBudget := { sampleBudget with
  maxIterations := 5
  maxIterations_le := by decide }

/-- The 15 events of an iteration. -/
def iterationEvents (n : Nat) (decision : LoopDecisionKind) : List AgentEventKind :=
  (.loop (.iterationStarted n n 5) ::
    [LoopPhase.observe, .retrieve, .plan, .act, .verify, .reflect].flatMap fun phase =>
      [.loop (.phaseEntered n phase), .loop (.phaseCompleted n phase)]) ++
  [.loop (.reflectDecision n decision), .loop (.iterationCompleted n)]

/-- Five iterations, after which the run goes on. -/
def loopLog : List AgentEventKind :=
  .runStarted 1000 :: [1, 2, 3, 4, 5].flatMap fun n => iterationEvents n .continue

/-- Five iterations, the last of which completes the run. -/
def completedLog : List AgentEventKind :=
  .runStarted 1000 :: ([1, 2, 3, 4].flatMap fun n => iterationEvents n .continue) ++
    iterationEvents 5 .complete ++ [.loop (.loopCompleted 5), .runFinished .completed]

def loopKey : RunKey := ⟨⟨1⟩, ⟨2⟩⟩

def loopRecord : RunRecord := .new loopKey loopBudget (.restartable 1)

def loopWorkflows : List (RecoveryContract × WorkflowId) := [(.restartable 1, readonlyWorkflowId)]

/-- The writes of a log. -/
def writes (kinds : List AgentEventKind) : List PollStep :=
  .write (.createRun loopRecord (.new (.initial loopRecord))) ::
    (sampleLog kinds).map fun event =>
      let expected := if event.sequence = 0 then none else some (event.sequence - 1)
      .write (.append ⟨loopKey, expected, event, none⟩)

def loopSummary : DurableRunSummary :=
  ⟨loopKey, .restartable 1, none, some 1000, false,
    some ⟨⟨"owner"⟩, ⟨"owner"⟩, readonlyWorkflowId.value, 1, 0⟩⟩

/-- A poll that is answered from this slot, if there is one, and its merge. -/
def pollOf (slot : Option LocalAgent.ActiveRun) (stored : Option (ApplicationResult × Nat)) :
    List PollStep :=
  [.render, .fetch,
    .status true ⟨.ok (some loopSummary), fun _ => true, slot, none, 2000, 0, stored⟩,
    .events true ⟨.ok (some loopSummary), fun _ => true, .ok (some loopSummary), none⟩]

def loopSlot : LocalAgent.ActiveRun := ⟨loopKey, .running, false, readonlyWorkflowId, 0⟩

def loopConversation : Conversation := ⟨[], none, none, [], none, none, none⟩

/-- A client that has just started the run, after these steps. -/
def loopRun (steps : List PollStep) : Controller :=
  (Controller.start loopKey loopConversation 1000 .starting).run loopWorkflows plainCodec loopKey steps

/-! ## Keeping the place -/

/-- The kept events and the cursor have not moved backwards. -/
structure KeepsPlace (a b : ActiveRun) : Prop where
  events : a.events.map ServiceEvent.sequence <+: b.events.map ServiceEvent.sequence
  cursor : ∀ n, a.cursor = some n → ∃ m, b.cursor = some m ∧ n ≤ m

/-- A stale poll is merged only while no more than a page is kept. -/
def PollStep.fits (c : Controller) : PollStep → Bool
  | .merge =>
    match c.data, c.conversation.activeRun with
    | some d, some a => !d.staleCursor || a.events.length ≤ maxItems
    | _, _ => true
  | _ => true

section

variable (workflows codec key)

/-- Every step of a run does so. -/
def Controller.fitting (c : Controller) : List PollStep → Bool
  | [] => true
  | step :: rest => step.fits c && (c.step workflows codec key step).fitting rest

end

/-- The cursor a poll under way began with. -/
def Fetch.cursor : Fetch → Option Nat
  | .started cursor | .answered cursor _ => cursor

/-- Nothing that the client may still read from or merge is ahead of what is kept. -/
structure Controller.Behind (c : Controller) (a : ActiveRun) : Prop where
  rendered : ∀ cursor, c.rendered = some cursor → count cursor ≤ a.events.length
  fetch : ∀ f, c.fetch = some f → count f.cursor ≤ a.events.length
  data : ∀ d, c.data = some d → count d.asked ≤ a.events.length

theorem Controller.Behind.mono {c : Controller} {b : ActiveRun} (h : c.Behind a)
    (hle : a.events.length ≤ b.events.length) : c.Behind b :=
  ⟨fun cursor hr => (h.rendered cursor hr).trans hle, fun f hf => (h.fetch f hf).trans hle,
    fun d hd => (h.data d hd).trans hle⟩

/-- A merge of a poll that was not ahead, and that was not stale or finds no more than a page. -/
theorem merge_monotone {c : Conversation} {b : ActiveRun}
    (hlog : log.map AgentEvent.sequence = List.range log.length) (ha : Placed log runId a)
    (hd : Fetched log runId m d) (hm : a.events.length ≤ m) (hbehind : count d.asked ≤ a.events.length)
    (hfits : d.staleCursor = true → a.events.length ≤ maxItems) (hc : c.activeRun = some a)
    (hb : (c.merge runId d).activeRun = some b) : a.events.length ≤ b.events.length := by
  have hwithin : count d.asked ≤ d.kept a := by
    unfold PollData.kept
    split
    · rename_i hstale
      rw [hd.stale hstale, count_none]
    · exact hbehind
  obtain ⟨-, events, hmerged, -, hlen⟩ | ⟨hbeyond, -⟩ := merged_cases hlog ha hd
  · obtain ⟨-, ⟨hvalid, -⟩ | ⟨-, -, hevents⟩⟩ := merge_active hc ha.run hb
    · rw [hmerged] at hvalid
      cases hvalid
    · rw [hevents, hmerged, hlen]
      by_cases hstale : d.staleCursor = true
      · have hfit := hfits hstale
        have hlength := hd.length
        rw [hd.stale hstale, count_none] at hlength ⊢
        omega
      · rw [PollData.kept, if_neg hstale]
        exact Nat.le_max_left ..
  · omega

theorem step_over {c : Controller} (h : c.conversation.activeRun = none) (step : PollStep) :
    (c.step workflows codec key step).conversation.activeRun = none := by
  cases step with
  | write call => exact h
  | render => exact h
  | fetch => simp only [Controller.step]; split <;> exact h
  | status transport answers =>
    simp only [Controller.step]
    split
    · split <;> exact h
    · exact h
  | events transport answers =>
    simp only [Controller.step]
    split
    · split <;> exact h
    · exact h
  | merge =>
    simp only [Controller.step]
    split
    · exact h
    · simp [Conversation.merge, h]
  | giveUp => simp [Controller.step, Conversation.reconnect, h]

/-- **One step** takes nothing back, and leaves everything behind what is kept. -/
theorem step_behind {c : Controller} {b : ActiveRun} {step : PollStep} (h : c.Sound key)
    (hc : c.conversation.activeRun = some a) (hbehind : c.Behind a) (hfits : step.fits c = true)
    (hb : (c.step workflows codec key step).conversation.activeRun = some b) :
    a.events.length ≤ b.events.length ∧ (c.step workflows codec key step).Behind b := by
  cases step with
  | write call =>
    obtain rfl := Option.some.inj (hc.symm.trans hb)
    exact ⟨le_rfl, hbehind.rendered, hbehind.fetch, hbehind.data⟩
  | render =>
    obtain rfl := Option.some.inj (hc.symm.trans hb)
    refine ⟨le_rfl, ?_, hbehind.fetch, hbehind.data⟩
    intro cursor hr
    simp only [Controller.step, hc, Option.map_some, Option.some.injEq] at hr
    rw [← hr, (h.active a hc).cursor, count_lastOf]
  | fetch =>
    simp only [Controller.step] at hb ⊢
    split at hb
    · rename_i cursor hr hf
      obtain rfl := Option.some.inj (hc.symm.trans hb)
      refine ⟨le_rfl, hbehind.rendered, ?_, hbehind.data⟩
      intro f hf'
      cases hf'
      exact hbehind.rendered cursor hr
    · obtain rfl := Option.some.inj (hc.symm.trans hb)
      exact ⟨le_rfl, hbehind⟩
  | status transport answers =>
    simp only [Controller.step] at hb ⊢
    split at hb
    · rename_i cursor hf
      split at hb
      · obtain rfl := Option.some.inj (hc.symm.trans hb)
        exact ⟨le_rfl, hbehind⟩
      · obtain rfl := Option.some.inj (hc.symm.trans hb)
        have hcursor := hbehind.fetch _ hf
        refine ⟨le_rfl, hbehind.rendered, ?_, hbehind.data⟩
        intro f hf'
        cases hf'
        exact hcursor
    · obtain rfl := Option.some.inj (hc.symm.trans hb)
      exact ⟨le_rfl, hbehind⟩
  | events transport answers =>
    simp only [Controller.step] at hb ⊢
    split at hb
    · rename_i cursor status hf
      split at hb
      · obtain rfl := Option.some.inj (hc.symm.trans hb)
        have hcursor := hbehind.fetch _ hf
        refine ⟨le_rfl, hbehind.rendered, ?_, hbehind.data⟩
        intro f hf'
        cases hf'
        exact hcursor
      · obtain rfl := Option.some.inj (hc.symm.trans hb)
        refine ⟨le_rfl, hbehind.rendered, (fun f hf' => by cases hf'), ?_⟩
        intro d hd
        cases hd
        rcases validatedCursor_cases cursor status.lastSequence with hv | ⟨hv, -⟩ <;> simp only [hv]
        · exact Nat.zero_le _
        · exact hbehind.fetch _ hf
    · obtain rfl := Option.some.inj (hc.symm.trans hb)
      exact ⟨le_rfl, hbehind⟩
  | merge =>
    simp only [Controller.step] at hb ⊢
    split at hb
    · obtain rfl := Option.some.inj (hc.symm.trans hb)
      exact ⟨le_rfl, hbehind⟩
    · rename_i d hd
      obtain ⟨m, hfetched, hm⟩ := h.data d hd
      have hpage : d.staleCursor = true → a.events.length ≤ maxItems := by
        simpa [PollStep.fits, hd, hc, Classical.or_iff_not_imp_left] using hfits
      have hle := merge_monotone (log_sequences h.numbered key.runId) (h.active a hc) hfetched (hm a hc)
        (hbehind.data d hd) hpage hc hb
      have hmono := hbehind.mono hle
      exact ⟨hle, hmono.rendered, hmono.fetch, hmono.data⟩
  | giveUp =>
    obtain ⟨a', ha', rfl⟩ := Option.map_eq_some_iff.mp hb
    obtain rfl := Option.some.inj (hc.symm.trans ha')
    have hevents : (if a.runId = key.runId then { a with activity := .reconnecting } else a).events =
        a.events := by
      split <;> rfl
    refine ⟨by rw [hevents], ?_, (fun f hf => by cases hf), ?_⟩
    · rw [hevents]
      exact hbehind.rendered
    · rw [hevents]
      exact hbehind.data

section

variable (workflows codec)

/-- A fitting run takes nothing back. -/
theorem run_monotone {c : Controller} {b : ActiveRun} {steps : List PollStep} (h : c.Sound key)
    (hc : c.conversation.activeRun = some a) (hbehind : c.Behind a)
    (hfits : c.fitting workflows codec key steps = true)
    (hb : (c.run workflows codec key steps).conversation.activeRun = some b) :
    a.events.length ≤ b.events.length ∧ (c.run workflows codec key steps).Behind b := by
  induction steps generalizing c a with
  | nil =>
    obtain rfl := Option.some.inj (hc.symm.trans hb)
    exact ⟨le_rfl, hbehind⟩
  | cons step rest ih =>
    rw [Controller.fitting, Bool.and_eq_true] at hfits
    obtain ⟨hstep, hrest⟩ := hfits
    cases hnext : (c.step workflows codec key step).conversation.activeRun with
    | none =>
      -- once the run is over, it stays so
      have hover : ∀ (steps : List PollStep) (c : Controller), c.conversation.activeRun = none →
          (c.run workflows codec key steps).conversation.activeRun = none := by
        intro steps
        induction steps with
        | nil => exact fun c hnone => hnone
        | cons step rest ih => exact fun c hnone => ih _ (step_over hnone step)
      have hnone := hover rest _ hnext
      rw [Controller.run] at hnone
      rw [Controller.run, List.foldl_cons, hnone] at hb
      cases hb
    | some a' =>
      obtain ⟨hle, hbehind'⟩ := step_behind h hc hbehind hstep hnext
      obtain ⟨hle', hfinal⟩ := ih (h.step step) hnext hbehind' hrest hb
      exact ⟨hle.trans hle', hfinal⟩

theorem fitting_append {c : Controller} {before after : List PollStep} :
    c.fitting workflows codec key (before ++ after) = true ↔
      c.fitting workflows codec key before = true ∧
        (c.run workflows codec key before).fitting workflows codec key after = true := by
  induction before generalizing c with
  | nil => simp [Controller.fitting, Controller.run]
  | cons step rest ih =>
    simp only [List.cons_append, Controller.fitting, Bool.and_eq_true, ih, and_assoc]
    rfl

theorem Placed.keeps {b : ActiveRun} (ha : Placed log runId a) (hb : Placed log' runId b)
    (hlog : log.map AgentEvent.sequence = List.range log.length)
    (hlog' : log'.map AgentEvent.sequence = List.range log'.length)
    (hle : a.events.length ≤ b.events.length) : KeepsPlace a b := by
  have hnumbers : ∀ {log : List AgentEvent} {a : ActiveRun}, Placed log runId a →
      log.map AgentEvent.sequence = List.range log.length →
      a.events.map ServiceEvent.sequence = List.range a.events.length := by
    intro log a ha hlog
    rw [sequences_of_projects ha.events, List.map_take, hlog, List.take_range,
      Nat.min_eq_left ha.events.length_le]
  constructor
  · rw [hnumbers ha hlog, hnumbers hb hlog']
    exact ⟨_, by rw [← Nat.add_sub_cancel' hle, List.range_add]⟩
  · intro n hn
    rw [ha.cursor] at hn
    rw [hb.cursor]
    cases hlen : a.events.length with
    | zero => simp [hlen, lastOf] at hn
    | succ k =>
      rw [hlen, lastOf, Option.some.injEq] at hn
      obtain ⟨j, hj⟩ : ∃ j, b.events.length = j + 1 := ⟨b.events.length - 1, by omega⟩
      exact ⟨j, by rw [hj, lastOf], by omega⟩

theorem start_behind (conversation : Conversation) (startedAtMillis : Nat) (activity : ActivityLabel)
    (a : ActiveRun) : (Controller.start key conversation startedAtMillis activity).Behind a := by
  refine ⟨?_, ?_, ?_⟩
  · intro cursor hr
    cases hr
  · intro f hf
    cases hf
  · intro d hd
    cases hd

/-- **The desktop keeps its place**: in a run in which no stale poll is merged while more than a page
is kept, the kept events and the cursor never move backwards. -/
theorem place_kept {conversation : Conversation} {startedAtMillis : Nat} {activity : ActivityLabel}
    {before after : List PollStep} {a b : ActiveRun}
    (hfits : (Controller.start key conversation startedAtMillis activity).fitting workflows codec key
      (before ++ after) = true)
    (ha : ((Controller.start key conversation startedAtMillis activity).run workflows codec key
      before).conversation.activeRun = some a)
    (hb : ((Controller.start key conversation startedAtMillis activity).run workflows codec key
      (before ++ after)).conversation.activeRun = some b) :
    KeepsPlace a b := by
  obtain ⟨hbefore, hafter⟩ := (fitting_append workflows codec).mp hfits
  have hstart := Controller.start_sound key conversation startedAtMillis activity
  have hsound := hstart.run workflows codec before
  have hbehind : ((Controller.start key conversation startedAtMillis activity).run workflows codec key
      before).Behind a :=
    (run_monotone workflows codec hstart rfl (start_behind ..) hbefore ha).2
  rw [Controller.run, List.foldl_append] at hb
  have hle := (run_monotone workflows codec hsound ha hbehind hafter hb).1
  have hfinal := hsound.run workflows codec after
  exact (hsound.active a ha).keeps (hfinal.active b hb) (log_sequences hsound.numbered _)
    (log_sequences hfinal.numbered _) hle

/-- The first poll of the recovered run. -/
def firstPoll : List PollStep := writes loopLog ++ pollOf none none ++ [.merge]

def nextPoll (slot : Option LocalAgent.ActiveRun) : List PollStep := pollOf slot none ++ [.merge]

/-- The cursors after the first poll, the second, and one that is answered from the slot. -/
theorem loopRun_cursors :
    (loopRun firstPoll).conversation.activeRun.map ActiveRun.cursor = some (some 63) ∧
    (loopRun (firstPoll ++ nextPoll none)).conversation.activeRun.map ActiveRun.cursor =
      some (some 75) ∧
    (loopRun (firstPoll ++ nextPoll none ++ nextPoll (some loopSlot))).conversation.activeRun.map
      ActiveRun.cursor = some (some 63) := by
  decide +kernel

theorem place_kept_two_polls :
    ∃ a b, (loopRun firstPoll).conversation.activeRun = some a ∧ a.cursor = some 63 ∧
      (loopRun (firstPoll ++ nextPoll none)).conversation.activeRun = some b ∧ b.cursor = some 75 ∧
      KeepsPlace a b := by
  obtain ⟨hbefore, hafter, -⟩ := loopRun_cursors
  obtain ⟨a, ha, hacursor⟩ := Option.map_eq_some_iff.mp hbefore
  obtain ⟨b, hb, hbcursor⟩ := Option.map_eq_some_iff.mp hafter
  have hfits : (Controller.start loopKey loopConversation 1000 .starting).fitting loopWorkflows
      plainCodec loopKey (firstPoll ++ nextPoll none) = true := by
    decide +kernel
  have hkeeps : KeepsPlace a b := by
    unfold loopRun at ha hb
    exact place_kept loopWorkflows plainCodec hfits ha hb
  exact ⟨a, b, ha, hacursor, hb, hbcursor, hkeeps⟩

/-- A client that has read 76 events of a recovered run gets an answer from the slot. -/
theorem slot_answer_takes_back :
    ∃ a b, (loopRun (firstPoll ++ nextPoll none)).conversation.activeRun = some a ∧
      (loopRun (firstPoll ++ nextPoll none ++ nextPoll (some loopSlot))).conversation.activeRun =
        some b ∧
      ¬ KeepsPlace a b := by
  obtain ⟨-, hbefore, hafter⟩ := loopRun_cursors
  obtain ⟨a, ha, hacursor⟩ := Option.map_eq_some_iff.mp hbefore
  obtain ⟨b, hb, hbcursor⟩ := Option.map_eq_some_iff.mp hafter
  refine ⟨a, b, ha, hb, fun h => ?_⟩
  obtain ⟨m, hm, hle⟩ := h.cursor 75 hacursor
  rw [hbcursor] at hm
  cases hm
  omega

end

/-! ## When polling stops -/

/-- The run is finished in the conversation: all that the status reports is merged, the active run is
cleared, and its final message added. -/
structure Finished (log : List AgentEvent) (status : RunView) (before after : Conversation) : Prop where
  cleared : after.activeRun = none
  message : after.messages = before.messages ++ [finalMessage status after.lastRunEvents]
  begins : Begins log after.lastRunEvents
  complete : ∀ last, status.lastSequence = some last → last < after.lastRunEvents.length

theorem caughtUp_lastOf {status : RunView} {n : Nat} :
    caughtUp status (lastOf n) = true ↔ ∀ last, status.lastSequence = some last → last < n := by
  unfold caughtUp
  cases status.lastSequence with
  | none => simp
  | some last =>
    cases n with
    | zero => simp [lastOf]
    | succ n =>
      simp only [lastOf, Option.all_some, Option.any_some, decide_eq_true_eq, Option.some.injEq, forall_eq']
      exact Nat.lt_succ_iff.symm

/-- The merge of a poll with a terminal status. -/
theorem merge_finished {c : Conversation} (ha : Placed log runId a) (hc : c.activeRun = some a)
    (hterminal : isTerminal d.status.disposition = true) :
    ((c.merge runId d).activeRun = none ↔
      (d.merged a runId).valid = true ∧ caughtUp d.status (d.merged a runId).cursor = true) ∧
    ((c.merge runId d).activeRun = none →
      (c.merge runId d).lastRunEvents = (d.merged a runId).events ∧
      (c.merge runId d).messages =
        c.messages ++ [finalMessage d.status (d.merged a runId).events]) := by
  simp only [Conversation.merge, hc, ha.run, ne_eq, not_true_eq_false, if_false, hterminal]
  cases hvalid : (d.merged a runId).valid with
  | false => simp
  | true =>
    cases hcaught : caughtUp d.status (d.merged a runId).cursor with
    | false => simp
    | true => simp

/-- **When polling stops, the run is finished** exactly if the page begins within what is kept and
what the status reports is kept or fits in the page. -/
theorem finished_iff (conversation : Conversation) (startedAtMillis : Nat) (activity : ActivityLabel)
    (steps : List PollStep) {c : Controller}
    (hc : c = (Controller.start key conversation startedAtMillis activity).run workflows codec key steps)
    (ha : c.conversation.activeRun = some a) (hd : c.data = some d) {foreground : Bool}
    (hstop : pollingInterval (some d.status.disposition) foreground = none) :
    Finished (c.store.log key.runId) d.status c.conversation
        (c.step workflows codec key .merge).conversation ↔
      count d.asked ≤ d.kept a ∧
        d.status.lastSequence.all (· < max (d.kept a) (count d.asked + maxItems)) = true := by
  have hsound : c.Sound key := by
    rw [hc]
    exact (Controller.start_sound key conversation startedAtMillis activity).run workflows codec steps
  have hterminal : isTerminal d.status.disposition = true := by
    by_contra hnot
    simp only [pollingInterval, Option.any_some, if_neg hnot] at hstop
    split at hstop
    · cases hstop
    · split at hstop <;> cases hstop
  obtain ⟨m, hfetched, hm⟩ := hsound.data d hd
  have hplaced := hsound.active a ha
  have hlog := log_sequences hsound.numbered key.runId
  obtain ⟨hover, hfinal⟩ := merge_finished (d := d) hplaced ha hterminal
  simp only [Controller.step, hd]
  have hlength := hfetched.length
  have hwithin := hfetched.within
  -- what the status reports was in the log when the page was read
  have hdated : ∀ last, d.status.lastSequence = some last → last < m := by
    intro last hlast
    obtain hnone | ⟨k, hk, hsome⟩ := hfetched.dated
    · rw [hnone] at hlast
      cases hlast
    · rw [hsome] at hlast
      cases k with
      | zero => cases hlast
      | succ k =>
        cases hlast
        omega
  obtain ⟨hbegins, events, hmerged, hevents', hlen⟩ | ⟨hbeyond, valid, hmerged⟩ :=
    merged_cases hlog hplaced hfetched
  · have hcaught : (∀ last, d.status.lastSequence = some last → last < events.length) ↔
        d.status.lastSequence.all (· < max (d.kept a) (count d.asked + maxItems)) = true := by
      cases hlast : d.status.lastSequence with
      | none => simp
      | some last =>
        have hlt := hdated last hlast
        simp only [Option.some.injEq, forall_eq', Option.all_some, decide_eq_true_eq]
        omega
    rw [hmerged, caughtUp_lastOf, hcaught] at hover
    constructor
    · intro h
      exact ⟨hbegins, (hover.mp h.cleared).2⟩
    · intro h
      have hcleared := hover.mpr ⟨rfl, h.2⟩
      obtain ⟨hevents, hmessages⟩ := hfinal hcleared
      rw [hmerged] at hevents hmessages
      refine ⟨hcleared, ?_, ?_, ?_⟩
      · rw [hmessages, hevents]
      · rw [hevents]
        exact hevents'
      · rw [hevents]
        exact hcaught.mpr h.2
  · constructor
    · intro h
      -- a page that is not stale begins before the last event of the status
      obtain ⟨n, hn⟩ : ∃ n, d.asked = some n := by
        cases hasked : d.asked with
        | none => simp [hasked] at hbeyond
        | some n => exact ⟨n, rfl⟩
      obtain ⟨last, hlast, hle⟩ := hfetched.current n hn
      have hcaught := (hover.mp h.cleared).2
      rw [hmerged, caughtUp_lastOf] at hcaught
      have hlt := hcaught last hlast
      rw [hn, count_some] at hbeyond
      omega
    · intro h
      omega

/-- A poll of a run that has ended. -/
def endedPoll (kinds : List AgentEventKind) : List PollStep :=
  writes kinds ++ pollOf none (some (.finalAnswer "Done." [], 7))

def shortPoll : List PollStep := endedPoll [.runStarted 1000, .runFinished .completed]

/-- A short run is finished in the conversation. -/
theorem short_run_finished :
    ∃ d, (loopRun shortPoll).data = some d ∧
      Finished ((loopRun shortPoll).store.log loopKey.runId) d.status (loopRun shortPoll).conversation
        ((loopRun shortPoll).step loopWorkflows plainCodec loopKey .merge).conversation := by
  have hdata : (loopRun shortPoll).data.map
      (fun d => (d.asked, d.status.lastSequence, d.status.disposition)) =
        some (none, some 1, .completed) := by
    decide +kernel
  have hactive : (loopRun shortPoll).conversation.activeRun.isSome = true := by decide +kernel
  obtain ⟨d, hd, hfields⟩ := Option.map_eq_some_iff.mp hdata
  obtain ⟨a, ha⟩ := Option.isSome_iff_exists.mp hactive
  obtain ⟨hasked, hlast, hdisposition⟩ : d.asked = none ∧ d.status.lastSequence = some 1 ∧
      d.status.disposition = .completed := by simpa using hfields
  have hstop : pollingInterval (some d.status.disposition) true = none := by rw [hdisposition]; rfl
  refine ⟨d, hd, (finished_iff loopConversation 1000 .starting shortPoll (loopRun.eq_1 shortPoll) ha hd
    hstop).mpr ?_⟩
  rw [hasked, hlast]
  exact ⟨Nat.zero_le _, by simp [maxItems]⟩

/-- A run of 78 events that has ended is not: polling stops after the first page. -/
theorem long_run_not_finished :
    ∃ d, (loopRun (endedPoll completedLog)).data = some d ∧
      pollingInterval (some d.status.disposition) true = none ∧
      ¬ Finished ((loopRun (endedPoll completedLog)).store.log loopKey.runId) d.status
        (loopRun (endedPoll completedLog)).conversation
        ((loopRun (endedPoll completedLog)).step loopWorkflows plainCodec loopKey .merge).conversation := by
  have hdata : (loopRun (endedPoll completedLog)).data.map (fun d => d.status.disposition) =
      some .completed := by
    decide +kernel
  have hactive : ((loopRun (endedPoll completedLog)).step loopWorkflows plainCodec loopKey
      .merge).conversation.activeRun.isSome = true := by
    decide +kernel
  obtain ⟨d, hd, hdisposition⟩ := Option.map_eq_some_iff.mp hdata
  refine ⟨d, hd, by rw [hdisposition]; rfl, fun h => ?_⟩
  rw [h.cleared] at hactive
  cases hactive

end LocalAgent.Desktop
