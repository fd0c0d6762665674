import LocalAgent.Desktop.Conversation

/-!
# The approval of a conversation (`queries/conversation.ts:212-740`)

The desktop holds a list of conversations. Mutations and effects change it, one at a time: the history,
a new conversation, a prompt that is sent, a poll, a list of waits, an approval that was decided. The effect
of a list of waits gives each conversation the item of its run. It compares the row version only, and the
wait of every run begins at the same one, so an approval that was left from an earlier run stands for the
next (`waits_shown_iff`).

Titles, prompts and the pages of the run history are written and shown only, and are left out.
-/
namespace LocalAgent.Desktop

/-! ## Conversations -/

/-- `RunHistoryItem`. -/
structure RunHistoryItem where
  runId : RunId
  disposition : RunDisposition
  lastSequence : Option Nat
  outcome : Option RunOutcomeView
  workflowId : Option WorkflowId
  startedAtMillis : Option Nat

/-- `ConversationSummary`. -/
structure ConversationSummary where
  sessionId : SessionId
  latestRun : Option RunHistoryItem
  lastActivityMillis : Option Nat

/-- A `Conversation` with the fields that the list reads. -/
structure SessionConversation extends Conversation where
  sessionId : SessionId
  restoredRunId : Option RunId

/-- `runViewFromHistory`. -/
def runViewFromHistory (sessionId : SessionId) (run : RunHistoryItem) : RunView :=
  ⟨sessionId, run.runId, run.disposition, run.lastSequence, run.outcome, run.workflowId, none, none⟩

/-- A conversation without a run (conversation.ts:307-320). -/
def newConversation (sessionId : SessionId) (messages : List ConversationMessage) : SessionConversation where
  messages := messages
  activeRun := none
  lastRun := none
  lastRunEvents := []
  lastRunStartedAtMillis := none
  lastActivityMillis := none
  approval := none
  sessionId := sessionId
  restoredRunId := none

/-- `conversationFromSummary`. -/
def conversationFromSummary (summary : ConversationSummary) : SessionConversation :=
  { newConversation summary.sessionId [] with
    lastRun := summary.latestRun.map (runViewFromHistory summary.sessionId)
    lastRunStartedAtMillis := summary.latestRun.bind RunHistoryItem.startedAtMillis
    lastActivityMillis := summary.lastActivityMillis }

/-- `replaceConversation`. -/
def replaceConversation (conversations : List SessionConversation) (sessionId : SessionId)
    (update : SessionConversation → SessionConversation) : List SessionConversation :=
  conversations.map fun c => if c.sessionId = sessionId then update c else c

/-! ## The history (conversation.ts:228-302) -/

/-- `new Map(..)`: the last conversation of a session, where the first one was. -/
def bySession (current : List SessionConversation) : List SessionConversation :=
  current.foldl (fun kept c =>
    if kept.any (·.sessionId = c.sessionId) then replaceConversation kept c.sessionId fun _ => c
    else kept ++ [c]) []

/-- A conversation that the history has too. -/
def SessionConversation.refresh (existing : SessionConversation) (summary : ConversationSummary) :
    SessionConversation :=
  { existing with
    lastActivityMillis := summary.lastActivityMillis
    lastRun :=
      if existing.activeRun.isNone && existing.restoredRunId.isNone then
        summary.latestRun.map (runViewFromHistory summary.sessionId)
      else existing.lastRun
    lastRunStartedAtMillis :=
      existing.lastRunStartedAtMillis <|> summary.latestRun.bind RunHistoryItem.startedAtMillis }

/-- `[...durable, ...bySession.values()]`. -/
def durable : List SessionConversation → List ConversationSummary → List SessionConversation
  | rest, [] => rest
  | rest, summary :: summaries =>
    let conversation := match rest.find? (·.sessionId = summary.sessionId) with
      | none => conversationFromSummary summary
      | some existing => existing.refresh summary
    conversation :: durable (rest.filter (·.sessionId ≠ summary.sessionId)) summaries

/-- The run of the selected session's history (conversation.ts:282). -/
def SessionConversation.restore (c : SessionConversation) (latest : RunHistoryItem) (status : RunView)
    (now : Nat) : SessionConversation :=
  if c.restoredRunId = some latest.runId || c.activeRun.map ActiveRun.runId = some latest.runId then c
  else
    { c with
      restoredRunId := some latest.runId
      lastRun := some status
      lastRunStartedAtMillis := latest.startedAtMillis
      activeRun := some ⟨latest.runId, latest.startedAtMillis.getD now, none, [],
        if status.disposition = .waiting then .waitingForDecision else .reconnecting⟩ }

/-! ## Prompts (conversation.ts:345-428) -/

def userMessage (prompt : String) : ConversationMessage := ⟨.user, prompt, none, none⟩

/-- The run that the service started. -/
def SessionConversation.started (c : SessionConversation) (run : RunView) (now : Nat) : SessionConversation :=
  { c with
    activeRun := some ⟨run.runId, now, none, [], .starting⟩
    lastRun := some run
    lastActivityMillis := some now
    restoredRunId := some run.runId }

def SessionConversation.startFailed (c : SessionConversation) : SessionConversation :=
  { c with messages := c.messages ++
      [⟨.error, errorMessage .serviceUnavailable, none, some .serviceUnavailable⟩] }

/-! ## Waits (conversation.ts:440-485) -/

/-- The item of the active run, or of the last run. -/
def itemOf (items : List WaitingApprovalView) (c : SessionConversation) : Option WaitingApprovalView :=
  (items.find? fun item => c.activeRun.map ActiveRun.runId = some item.runId) <|>
    (items.find? fun item => c.lastRun.map RunView.runId = some item.runId)

def waitingActivity (item : WaitingApprovalView) : ActivityLabel :=
  if item.state = .waiting then .waitingForDecision else .approvalRequired

/-- A conversation takes its item, unless the row versions are equal. -/
def SessionConversation.takeItem (items : List WaitingApprovalView) (c : SessionConversation) :
    SessionConversation :=
  match itemOf items c with
  | none => c
  | some item =>
    if c.approval.map WaitingApprovalView.rowVersion = some item.rowVersion then c
    else
      { c with
        approval := some item
        activeRun := c.activeRun.map fun a => { a with activity := waitingActivity item } }

/-- The conversation of a wait whose session is not in the list. -/
def waitingConversation (now : Nat) (item : WaitingApprovalView) : SessionConversation :=
  { newConversation item.sessionId [] with
    activeRun := some ⟨item.runId, now, none, [], waitingActivity item⟩
    restoredRunId := some item.runId
    approval := some item }

/-- The loop over the items. -/
def openItems (now : Nat) : List SessionConversation → List WaitingApprovalView → List SessionConversation
  | next, [] => next
  | next, item :: items =>
    if next.any (·.sessionId = item.sessionId) then openItems now next items
    else openItems now (waitingConversation now item :: next) items

/-- The effect of `waiting.data`. -/
def takeItems (now : Nat) (items : List WaitingApprovalView) (current : List SessionConversation) :
    List SessionConversation :=
  openItems now (current.map (·.takeItem items)) items

/-! ## Approvals (conversation.ts:664-740) -/

/-- `ApprovalDecision`. -/
inductive ApprovalDecision where
  | approve | deny
deriving DecidableEq, Repr

/-- The operations of `approvalMutation`. -/
inductive ApprovalOperation where
  | decision (decision : ApprovalDecision)
  | resume
  | abort
deriving DecidableEq, Repr

/-- The calls of `localService` with their arguments. -/
inductive ApprovalCall where
  | submitApprovalDecision (sessionId : SessionId) (runId : RunId) (waitId : DurableApprovalWaitId)
      (expectedRowVersion : Nat) (decision : ApprovalDecision)
  | resumeWaiting (sessionId : SessionId) (runId : RunId) (waitId : DurableApprovalWaitId)
  | abortWaiting (sessionId : SessionId) (runId : RunId) (waitId : DurableApprovalWaitId)
      (expectedRowVersion : Nat)
deriving DecidableEq, Repr

/-- What `approvalMutation` calls for the approval that is shown. -/
def approvalCall (approval : WaitingApprovalView) : ApprovalOperation → ApprovalCall
  | .decision decision =>
    .submitApprovalDecision approval.sessionId approval.runId approval.waitId approval.rowVersion decision
  | .resume => .resumeWaiting approval.sessionId approval.runId approval.waitId
  | .abort => .abortWaiting approval.sessionId approval.runId approval.waitId approval.rowVersion

/-- What the mutation does to the conversation when the call succeeds. -/
def SessionConversation.afterCall (c : SessionConversation) : ApprovalOperation → SessionConversation
  | .decision decision =>
    { c with
      approval := c.approval.map fun approval =>
        { approval with
          rowVersion := approval.rowVersion + 1
          state := if decision = .approve then .approved else .denied }
      activeRun := c.activeRun.map fun a => { a with activity := .approvalRequired } }
  | .resume =>
    { c with
      approval := none
      activeRun := c.activeRun.map fun a => { a with activity := .resuming } }
  | .abort =>
    { c with
      approval := none
      activeRun := c.activeRun.map fun a => { a with activity := .finishing } }

/-! ## The controller -/

/-- What changes the conversations. The session of an effect is the one selected when it was rendered, and
`approvalDone` has the session of the approval that was rendered. -/
inductive ConversationStep where
  | generation
  | history (summaries : List ConversationSummary)
  | restore (sessionId : SessionId) (latest : RunHistoryItem) (status : RunView) (now : Nat)
  | created (sessionId : SessionId)
  | archived (sessionId : SessionId)
  | send (sessionId : SessionId) (prompt : String)
  | sendFirst (sessionId : SessionId) (prompt : String)
  | started (sessionId : SessionId) (run : RunView) (now : Nat)
  | startFailed (sessionId : SessionId)
  | waiting (items : List WaitingApprovalView) (now : Nat)
  | merge (sessionId : SessionId) (runId : RunId) (data : PollData)
  | reconnect (sessionId : SessionId) (runId : RunId)
  | stop (sessionId : SessionId)
  | approvalDone (sessionId : SessionId) (operation : ApprovalOperation)

/-- One call of `setConversations`. -/
def ConversationStep.apply (current : List SessionConversation) : ConversationStep → List SessionConversation
  | .generation => []
  | .history summaries => durable (bySession current) summaries
  | .restore sessionId latest status now =>
    replaceConversation current sessionId (·.restore latest status now)
  | .created sessionId => newConversation sessionId [] :: current.filter (·.sessionId ≠ sessionId)
  | .archived sessionId => current.filter (·.sessionId ≠ sessionId)
  | .send sessionId prompt =>
    -- a conversation with an active run throws
    if (current.find? (·.sessionId = sessionId)).all (·.activeRun.isSome) then current
    else replaceConversation current sessionId fun c =>
      { c with messages := c.messages ++ [userMessage prompt] }
  | .sendFirst sessionId prompt => newConversation sessionId [userMessage prompt] :: current
  | .started sessionId run now => replaceConversation current sessionId (·.started run now)
  | .startFailed sessionId => replaceConversation current sessionId (·.startFailed)
  | .waiting items now => takeItems now items current
  | .merge sessionId runId data =>
    replaceConversation current sessionId fun c => { c with toConversation := c.merge runId data }
  | .reconnect sessionId runId =>
    replaceConversation current sessionId fun c => { c with toConversation := c.reconnect runId }
  | .stop sessionId =>
    replaceConversation current sessionId fun c =>
      { c with activeRun := c.activeRun.map fun a => { a with activity := .stopping } }
  | .approvalDone sessionId operation => replaceConversation current sessionId (·.afterCall operation)

/-- The conversations after some steps. -/
def conversationsAfter (steps : List ConversationStep) : List SessionConversation :=
  steps.foldl ConversationStep.apply []

/-! ## What is meant -/

/-- The conversation shows the item of its run, and calls are for that item. -/
structure OwnWait (items : List WaitingApprovalView) (c : SessionConversation) : Prop where
  approval : ∀ item, itemOf items c = some item → c.approval = some item
  call : ∀ item, itemOf items c = some item → ∀ operation,
    c.approval.map (approvalCall · operation) = some (approvalCall item operation)

/-- No approval that is held has the row version of another item that is to take its place, and an item that
opens a conversation is the first of its run. -/
structure Unmistaken (items : List WaitingApprovalView) (current : List SessionConversation) : Prop where
  held : ∀ c ∈ current, ∀ item, itemOf items c = some item →
    ∀ held ∈ c.approval, held.rowVersion = item.rowVersion → held = item
  opened : ∀ before item after, items = before ++ item :: after →
    (∀ c ∈ current, c.sessionId ≠ item.sessionId) →
    (∀ other ∈ before, other.sessionId ≠ item.sessionId) → ∀ other ∈ before, other.runId ≠ item.runId

variable {items : List WaitingApprovalView} {current : List SessionConversation}
  {c : SessionConversation} {item : WaitingApprovalView} {now : Nat}

/-! ## One conversation -/

theorem itemOf_mem (h : itemOf items c = some item) : item ∈ items := by
  simp only [itemOf, Option.orElse_eq_orElse, Option.orElse_eq_or, Option.or_eq_some_iff] at h
  rcases h with h | ⟨-, h⟩
  · exact List.mem_of_find?_eq_some h
  · exact List.mem_of_find?_eq_some h

theorem ownWait_iff : OwnWait items c ↔ ∀ item, itemOf items c = some item → c.approval = some item := by
  constructor
  · intro h
    exact h.approval
  · intro h
    refine ⟨h, fun item hitem operation => ?_⟩
    rw [h item hitem]
    rfl

@[simp] theorem takeItem_sessionId : (c.takeItem items).sessionId = c.sessionId := by
  unfold SessionConversation.takeItem
  cases itemOf items c with
  | none => rfl
  | some item =>
    by_cases h : c.approval.map WaitingApprovalView.rowVersion = some item.rowVersion <;> simp [h]

/-- Taking an item does not change whose item it is. -/
@[simp] theorem itemOf_takeItem : itemOf items (c.takeItem items) = itemOf items c := by
  unfold SessionConversation.takeItem
  cases hitem : itemOf items c with
  | none => exact hitem
  | some item =>
    by_cases h : c.approval.map WaitingApprovalView.rowVersion = some item.rowVersion
    · simp [h, hitem]
    · simp only [h, if_false]
      rw [← hitem]
      simp [itemOf, Function.comp_def]

theorem takeItem_approval (hitem : itemOf items c = some item) :
    (c.takeItem items).approval =
      if c.approval.map WaitingApprovalView.rowVersion = some item.rowVersion then c.approval
      else some item := by
  unfold SessionConversation.takeItem
  rw [hitem]
  by_cases h : c.approval.map WaitingApprovalView.rowVersion = some item.rowVersion <;> simp [h]

theorem takeItem_ownWait :
    OwnWait items (c.takeItem items) ↔ ∀ item, itemOf items c = some item →
      ∀ held ∈ c.approval, held.rowVersion = item.rowVersion → held = item := by
  rw [ownWait_iff]
  simp only [itemOf_takeItem]
  refine forall_congr' fun item => forall_congr' fun hitem => ?_
  rw [takeItem_approval hitem]
  cases c.approval with
  | none => simp
  | some held => by_cases h : held.rowVersion = item.rowVersion <;> simp [h]

/-! ## The list -/

/-- The items that open a conversation: the first of each session without one. -/
theorem mem_openItems :
    c ∈ openItems now current items ↔ c ∈ current ∨ ∃ before item after, items = before ++ item :: after ∧
      (∀ k ∈ current, k.sessionId ≠ item.sessionId) ∧
      (∀ other ∈ before, other.sessionId ≠ item.sessionId) ∧ c = waitingConversation now item := by
  induction items generalizing current with
  | nil => simp [openItems]
  | cons first rest ih =>
    rw [openItems]
    by_cases hany : current.any (·.sessionId = first.sessionId) = true
    · rw [if_pos hany, ih]
      obtain ⟨k, hk, hsession⟩ := List.any_eq_true.mp hany
      refine or_congr_right ⟨?_, ?_⟩
      · rintro ⟨before, item, after, rfl, hcurrent, hbefore, rfl⟩
        refine ⟨first :: before, item, after, rfl, hcurrent, ?_, rfl⟩
        rw [List.forall_mem_cons]
        exact ⟨fun heq => hcurrent k hk ((of_decide_eq_true hsession).trans heq), hbefore⟩
      · rintro ⟨before, item, after, heq, hcurrent, hbefore, rfl⟩
        cases before with
        | nil =>
          obtain ⟨rfl, -⟩ := List.cons.inj heq
          exact absurd (of_decide_eq_true hsession) (hcurrent k hk)
        | cons other before =>
          obtain ⟨rfl, rfl⟩ := List.cons.inj heq
          exact ⟨before, item, after, rfl, hcurrent, (List.forall_mem_cons.mp hbefore).2, rfl⟩
    · rw [if_neg hany, ih, List.mem_cons]
      have hnone : ∀ k ∈ current, k.sessionId ≠ first.sessionId := by simpa using hany
      constructor
      · rintro ((rfl | hmem) | ⟨before, item, after, rfl, hcurrent, hbefore, rfl⟩)
        · exact .inr ⟨[], first, rest, rfl, hnone, by simp, rfl⟩
        · exact .inl hmem
        · rw [List.forall_mem_cons] at hcurrent
          refine .inr ⟨first :: before, item, after, rfl, hcurrent.2, ?_, rfl⟩
          rw [List.forall_mem_cons]
          exact ⟨hcurrent.1, hbefore⟩
      · rintro (hmem | ⟨before, item, after, heq, hcurrent, hbefore, rfl⟩)
        · exact .inl (.inr hmem)
        · cases before with
          | nil =>
            obtain ⟨rfl, -⟩ := List.cons.inj heq
            exact .inl (.inl rfl)
          | cons other before =>
            obtain ⟨rfl, rfl⟩ := List.cons.inj heq
            rw [List.forall_mem_cons] at hbefore
            refine .inr ⟨before, item, after, rfl, ?_, hbefore.2, rfl⟩
            rw [List.forall_mem_cons]
            exact ⟨hbefore.1, hcurrent⟩

theorem itemOf_waitingConversation :
    itemOf items (waitingConversation now item) = items.find? (·.runId = item.runId) := by
  have hlast : items.find? (fun _ => false) = none := by simp
  simp [itemOf, waitingConversation, newConversation, eq_comm, hlast]

/-- A conversation that an item opens shows its own wait if the item is the first of its run. -/
theorem waitingConversation_ownWait {before after : List WaitingApprovalView}
    (hbefore : ∀ other ∈ before, other.sessionId ≠ item.sessionId) :
    OwnWait (before ++ item :: after) (waitingConversation now item) ↔
      ∀ other ∈ before, other.runId ≠ item.runId := by
  rw [ownWait_iff]
  simp only [itemOf_waitingConversation, List.find?_append]
  constructor
  · intro h other hmem hrun
    have hsome : (before.find? (·.runId = item.runId)).isSome = true := by
      rw [List.find?_isSome]
      exact ⟨other, hmem, decide_eq_true hrun⟩
    obtain ⟨found, hfound⟩ := Option.isSome_iff_exists.mp hsome
    have heq : some item = some found := h found (by rw [hfound]; rfl)
    exact hbefore found (List.mem_of_find?_eq_some hfound) (by rw [Option.some.inj heq])
  · intro h found hfound
    have hnone : before.find? (·.runId = item.runId) = none := by simpa using h
    rw [hnone, Option.none_or, List.find?_cons_of_pos (by simp)] at hfound
    exact hfound

/-- **One list of waits**: each conversation shows its own wait afterwards if and only if none was mistaken. -/
theorem takeItems_ownWait :
    (∀ c ∈ takeItems now items current, OwnWait items c) ↔ Unmistaken items current := by
  constructor
  · intro h
    constructor
    · intro c hmem
      exact takeItem_ownWait.mp (h _ (mem_openItems.mpr (.inl (List.mem_map_of_mem hmem))))
    · rintro before item after rfl hcurrent hbefore
      refine (waitingConversation_ownWait hbefore).mp (h (waitingConversation now item)
        (mem_openItems.mpr (.inr ⟨before, item, after, rfl, ?_, hbefore, rfl⟩)))
      simpa using hcurrent
  · intro h c hmem
    rcases mem_openItems.mp hmem with hmem | ⟨before, item, after, rfl, hcurrent, hbefore, rfl⟩
    · obtain ⟨k, hk, rfl⟩ := List.mem_map.mp hmem
      exact takeItem_ownWait.mpr (h.held k hk)
    · refine (waitingConversation_ownWait hbefore).mpr (h.opened before item after rfl ?_ hbefore)
      simpa using hcurrent

/-! ## Where approvals come from -/

/-- The wait that an approval is for. -/
def waitOf (approval : WaitingApprovalView) : SessionId × RunId × DurableApprovalWaitId :=
  (approval.sessionId, approval.runId, approval.waitId)

/-- The wait that a conversation shows. -/
def SessionConversation.wait (c : SessionConversation) : Option (SessionId × RunId × DurableApprovalWaitId) :=
  c.approval.map waitOf

/-- An update that gives a conversation no other wait. -/
def KeepsWait (update : SessionConversation → SessionConversation) : Prop :=
  ∀ c, (update c).wait = none ∨ (update c).wait = c.wait

theorem replaceConversation_wait {sessionId : SessionId} {update : SessionConversation → SessionConversation}
    (h : KeepsWait update) (hmem : c ∈ replaceConversation current sessionId update) :
    c.wait = none ∨ ∃ k ∈ current, c.wait = k.wait := by
  obtain ⟨k, hk, rfl⟩ := List.mem_map.mp hmem
  by_cases hsession : k.sessionId = sessionId
  · rw [if_pos hsession]
    exact (h k).imp_right fun heq => ⟨k, hk, heq⟩
  · rw [if_neg hsession]
    exact .inr ⟨k, hk, rfl⟩

theorem afterCall_keepsWait (operation : ApprovalOperation) : KeepsWait (·.afterCall operation) := by
  intro c
  cases operation with
  | decision decision =>
    right
    simp only [SessionConversation.wait, SessionConversation.afterCall]
    cases c.approval <;> rfl
  | resume => exact .inl rfl
  | abort => exact .inl rfl

theorem merge_keepsWait (runId : RunId) (data : PollData) :
    KeepsWait fun c => { c with toConversation := c.merge runId data } := by
  intro c
  have h : (c.merge runId data).approval = none ∨ (c.merge runId data).approval = c.approval := by
    unfold Conversation.merge
    cases c.activeRun with
    | none => exact .inr rfl
    | some a =>
      dsimp only
      split
      · exact .inr rfl
      · split
        · exact .inr rfl
        · split
          · exact .inr rfl
          · by_cases hends : endsApproval data.status.result = true <;> simp [hends]
  unfold SessionConversation.wait
  exact h.imp (fun h => by rw [h]; rfl) (fun h => by rw [h])

theorem mem_bySession (h : c ∈ bySession current) : c ∈ current := by
  suffices hfold : ∀ kept : List SessionConversation, (∀ k ∈ kept, k ∈ current) →
      ∀ rest : List SessionConversation, (∀ k ∈ rest, k ∈ current) →
      ∀ k ∈ rest.foldl (fun kept c =>
        if kept.any (·.sessionId = c.sessionId) then replaceConversation kept c.sessionId fun _ => c
        else kept ++ [c]) kept, k ∈ current from
    hfold [] (by simp) current (fun _ hk => hk) c h
  intro kept hkept rest hrest
  induction rest generalizing kept with
  | nil => exact hkept
  | cons first rest ih =>
    rw [List.forall_mem_cons] at hrest
    refine ih _ ?_ hrest.2
    intro k hk
    dsimp only at hk
    split at hk
    · obtain ⟨other, hother, rfl⟩ := List.mem_map.mp hk
      split
      · exact hrest.1
      · exact hkept other hother
    · rcases List.mem_append.mp hk with hk | hk
      · exact hkept k hk
      · rw [List.mem_singleton.mp hk]
        exact hrest.1

theorem durable_wait {summaries : List ConversationSummary} (h : c ∈ durable current summaries) :
    c.wait = none ∨ ∃ k ∈ current, c.wait = k.wait := by
  induction summaries generalizing current with
  | nil => exact .inr ⟨c, h, rfl⟩
  | cons summary summaries ih =>
    rw [durable, List.mem_cons] at h
    rcases h with rfl | h
    · cases hfind : current.find? (·.sessionId = summary.sessionId) with
      | none => exact .inl rfl
      | some existing => exact .inr ⟨existing, List.mem_of_find?_eq_some hfind, rfl⟩
    · exact (ih h).imp_right fun ⟨k, hk, heq⟩ => ⟨k, (List.mem_filter.mp hk).1, heq⟩

theorem takeItem_wait :
    (c.takeItem items).wait = c.wait ∨ ∃ item ∈ items, (c.takeItem items).wait = some (waitOf item) := by
  unfold SessionConversation.takeItem
  cases hitem : itemOf items c with
  | none => exact .inl rfl
  | some item =>
    dsimp only
    split
    · exact .inl rfl
    · exact .inr ⟨item, itemOf_mem hitem, rfl⟩

/-- **What one step can do**: a wait that is shown was shown before, or is in the list of the step. -/
theorem apply_wait {step : ConversationStep} {wait : SessionId × RunId × DurableApprovalWaitId}
    (hmem : c ∈ step.apply current) (hwait : c.wait = some wait) :
    (∃ k ∈ current, k.wait = some wait) ∨
      ∃ items now, step = .waiting items now ∧ ∃ item ∈ items, wait = waitOf item := by
  have hkept : (c.wait = none ∨ ∃ k ∈ current, c.wait = k.wait) → ∃ k ∈ current, k.wait = some wait := by
    rintro (hnone | ⟨k, hk, heq⟩)
    · rw [hwait] at hnone
      cases hnone
    · exact ⟨k, hk, heq.symm.trans hwait⟩
  have hreplace {sessionId : SessionId} {update : SessionConversation → SessionConversation}
      (hmem : c ∈ replaceConversation current sessionId update) (h : KeepsWait update) :
      ∃ k ∈ current, k.wait = some wait :=
    hkept (replaceConversation_wait h hmem)
  cases step with
  | generation => cases hmem
  | history summaries =>
    refine .inl (hkept ((durable_wait hmem).imp_right ?_))
    rintro ⟨k, hk, heq⟩
    exact ⟨k, mem_bySession hk, heq⟩
  | restore sessionId latest status now =>
    refine .inl (hreplace hmem fun k => .inr ?_)
    unfold SessionConversation.restore
    split <;> rfl
  | created sessionId =>
    rcases List.mem_cons.mp hmem with rfl | hmem
    · cases hwait
    · exact .inl ⟨c, (List.mem_filter.mp hmem).1, hwait⟩
  | archived sessionId => exact .inl ⟨c, (List.mem_filter.mp hmem).1, hwait⟩
  | send sessionId prompt =>
    simp only [ConversationStep.apply] at hmem
    split at hmem
    · exact .inl ⟨c, hmem, hwait⟩
    · exact .inl (hreplace hmem fun k => .inr rfl)
  | sendFirst sessionId prompt =>
    rcases List.mem_cons.mp hmem with rfl | hmem
    · cases hwait
    · exact .inl ⟨c, hmem, hwait⟩
  | started sessionId run now => exact .inl (hreplace hmem fun k => .inr rfl)
  | startFailed sessionId => exact .inl (hreplace hmem fun k => .inr rfl)
  | waiting items now =>
    rcases mem_openItems.mp hmem with hmem | ⟨before, item, after, rfl, -, -, rfl⟩
    · obtain ⟨k, hk, rfl⟩ := List.mem_map.mp hmem
      have htaken : (k.takeItem items).wait = k.wait ∨
          ∃ item ∈ items, (k.takeItem items).wait = some (waitOf item) := takeItem_wait
      rcases htaken with heq | ⟨item, hitem, heq⟩
      · exact .inl ⟨k, hk, heq.symm.trans hwait⟩
      · exact .inr ⟨items, now, rfl, item, hitem, Option.some.inj (hwait.symm.trans heq)⟩
    · exact .inr ⟨_, now, rfl, item, by simp, (Option.some.inj hwait).symm⟩
  | merge sessionId runId data => exact .inl (hreplace hmem (merge_keepsWait runId data))
  | reconnect sessionId runId => exact .inl (hreplace hmem fun k => .inr rfl)
  | stop sessionId => exact .inl (hreplace hmem fun k => .inr rfl)
  | approvalDone sessionId operation => exact .inl (hreplace hmem (afterCall_keepsWait operation))

/-- **Every approval was listed**: the wait that a conversation shows was in a list of the run. -/
theorem shown_was_listed {steps : List ConversationStep} (hmem : c ∈ conversationsAfter steps)
    {approval : WaitingApprovalView} (happroval : c.approval = some approval) :
    ∃ items now, .waiting items now ∈ steps ∧ ∃ item ∈ items, waitOf approval = waitOf item := by
  have hwait : c.wait = some (waitOf approval) := by rw [SessionConversation.wait, happroval]; rfl
  clear happroval
  induction steps using List.reverseRecOn generalizing c with
  | nil => cases hmem
  | append_singleton steps step ih =>
    rw [conversationsAfter, List.foldl_append] at hmem
    rcases apply_wait hmem hwait with ⟨k, hk, heq⟩ | ⟨items, now, rfl, item, hitem, heq⟩
    · obtain ⟨items, now, hstep, hitem⟩ := ih hk heq
      exact ⟨items, now, List.mem_append_left _ hstep, hitem⟩
    · exact ⟨items, now, by simp, item, hitem, heq⟩

/-! ## Runs of the desktop -/

/-- **Whose wait is shown.** In every run, the conversations show their own waits after each list of waits if
and only if no wait is mistaken when the list arrives. -/
theorem waits_shown_iff (steps : List ConversationStep) :
    (∀ before items now after, steps = before ++ .waiting items now :: after →
      ∀ c ∈ conversationsAfter (before ++ [.waiting items now]), OwnWait items c) ↔
    ∀ before items now after, steps = before ++ .waiting items now :: after →
      Unmistaken items (conversationsAfter before) := by
  refine forall_congr' fun before => forall_congr' fun items => forall_congr' fun now =>
    forall_congr' fun after => forall_congr' fun _ => ?_
  have hafter : conversationsAfter (before ++ [.waiting items now]) =
      takeItems now items (conversationsAfter before) := by
    rw [conversationsAfter, List.foldl_append]
    rfl
  rw [hafter]
  exact takeItems_ownWait

/-! ## Two runs, the first cancelled while it waits -/

/-- The first wait of a run. -/
def firstWait (run : Nat) : WaitingApprovalView := ⟨⟨1⟩, ⟨run⟩, ⟨run + 3⟩, 0, .waiting⟩

def runningView (run : Nat) : RunView := ⟨⟨1⟩, ⟨run⟩, .running, none, none, none, none, none⟩

def localWrite : WorkflowId := ⟨"enterprise-engineering-localwrite-v1"⟩

/-- The last poll of the first run, with the log of a run that was cancelled while it waited. -/
def cancelledPoll : PollData where
  events := (sampleLog (waitingKinds ++ [.runFinished .cancelled])).map (.new · (some localWrite))
  status := ⟨⟨1⟩, ⟨1⟩, .failed, some 6, some .cancelled, some localWrite, none, none⟩
  staleCursor := false
  asked := none

/-- Two prompts in one conversation, each of which waits for an approval. -/
def twoRuns : List ConversationStep :=
  [.created ⟨1⟩, .send ⟨1⟩ "Write a", .started ⟨1⟩ (runningView 1) 0, .waiting [firstWait 1] 1,
    .merge ⟨1⟩ ⟨1⟩ cancelledPoll,
    .send ⟨1⟩ "Write b", .started ⟨1⟩ (runningView 2) 2]

/-- The second wait is listed, and the panel still shows the first one. -/
theorem earlier_wait_shown :
    (conversationsAfter (twoRuns ++ [.waiting [firstWait 2] 3])).map (fun c =>
      (itemOf [firstWait 2] c, c.approval.map (approvalCall · (.decision .approve)))) =
        [(some (firstWait 2), some (.submitApprovalDecision ⟨1⟩ ⟨1⟩ ⟨4⟩ 0 .approve))] ∧
    ¬ ∀ steps before items now after, steps = before ++ .waiting items now :: after →
      ∀ c ∈ conversationsAfter (before ++ [.waiting items now]), OwnWait items c := by
  have hshown : (conversationsAfter (twoRuns ++ [.waiting [firstWait 2] 3])).map (fun c =>
      (itemOf [firstWait 2] c, c.approval.map (approvalCall · (.decision .approve)))) =
        [(some (firstWait 2), some (.submitApprovalDecision ⟨1⟩ ⟨1⟩ ⟨4⟩ 0 .approve))] := by decide +kernel
  refine ⟨hshown, fun hall => ?_⟩
  have hmem : (some (firstWait 2), some (.submitApprovalDecision ⟨1⟩ ⟨1⟩ ⟨4⟩ 0 .approve)) ∈
      (conversationsAfter (twoRuns ++ [.waiting [firstWait 2] 3])).map (fun c =>
        (itemOf [firstWait 2] c, c.approval.map (approvalCall · (.decision .approve)))) := by
    rw [hshown]
    exact List.mem_singleton_self _
  obtain ⟨c, hc, heq⟩ := List.mem_map.mp hmem
  obtain ⟨hitem, hcall⟩ := Prod.mk.inj heq
  have hown := (hall _ twoRuns [firstWait 2] 3 [] rfl c hc).call _ hitem (.decision .approve)
  rw [hcall] at hown
  exact absurd hown (by decide)

end LocalAgent.Desktop
