import LocalAgent.Desktop.Merge

/-!
# Polling a run (`queries/conversation.ts`)

While a conversation has an active run, the desktop polls it: it asks for the status, then for the
events after its cursor, and merges the page when the data of the poll have changed. The service
appends to the log meanwhile, answers from the slot or from the recovered run, or fails.
-/
namespace LocalAgent.Desktop

/-! ## The conversation -/

/-- `ConversationErrorKind`. -/
inductive ConversationErrorKind where
  | serviceUnavailable | modelUnavailable | knowledgeUnavailable | malformedModelResult | cancelled
  | resultUnavailable | manualReconciliation | runFailed
deriving DecidableEq, Repr

inductive MessageRole where
  | user | assistant | error
deriving DecidableEq, Repr

/-- `ConversationMessage`, without its random id. -/
structure ConversationMessage where
  role : MessageRole
  content : String
  citations : Option (List ApplicationCitation)
  errorKind : Option ConversationErrorKind
deriving DecidableEq, Repr

/-- `ActiveRun`. -/
structure ActiveRun where
  runId : RunId
  startedAtMillis : Nat
  cursor : Option Nat
  events : List ServiceEvent
  activity : ActivityLabel

/-- What the poll reads and writes of a `Conversation`. -/
structure Conversation where
  messages : List ConversationMessage
  activeRun : Option ActiveRun
  lastRun : Option RunView
  lastRunEvents : List ServiceEvent
  lastRunStartedAtMillis : Option Nat
  lastActivityMillis : Option Nat
  approval : Option WaitingApprovalView

/-- The dispositions that end a run. -/
def isTerminal : RunDisposition → Bool
  | .completed | .failed | .manualReconciliationRequired => true
  | _ => false

/-- `pollingInterval` (conversation.ts:74), in milliseconds. -/
def pollingInterval (disposition : Option RunDisposition) (foreground : Bool) : Option Nat :=
  if disposition.any isTerminal then none
  else if !foreground then some 3000
  else if disposition = some .waiting then some 2000
  else some 400

/-- `validatedCursor` (conversation.ts:88): the cursor to read from, and whether it was stale. -/
def validatedCursor (cursor authoritativeLastSequence : Option Nat) : Option Nat × Bool :=
  let stale := cursor.any fun cursor => authoritativeLastSequence.all (· < cursor)
  (if stale then none else cursor, stale)

/-- `errorMessage`. -/
def errorMessage : ConversationErrorKind → String
  | .serviceUnavailable => "The local agent service is unavailable. Your task was not completed."
  | .modelUnavailable => "The configured model is unavailable or timed out."
  | .knowledgeUnavailable => "Enterprise knowledge retrieval is unavailable or timed out."
  | .malformedModelResult => "The model returned a result that did not match the required answer format."
  | .cancelled => "This run was cancelled."
  | .resultUnavailable => "Result unavailable"
  | .manualReconciliation =>
    "This run requires operator reconciliation and cannot be resumed from the desktop."
  | .runFailed => "The agent could not complete this task."

/-- `classifyFailure`. -/
def classifyFailure (status : RunView) (events : List ServiceEvent) : ConversationErrorKind :=
  let seen (category : ServiceEventCategory) (phase : ServiceEventPhase) :=
    events.any fun event => event.category = category && event.phase = phase
  if status.outcome = some .cancelled then .cancelled
  else if seen .knowledge .failed then .knowledgeUnavailable
  else if seen .model .failed then .modelUnavailable
  else if seen .model .completed then .malformedModelResult
  else .runFailed

/-- The message that a finished run adds (conversation.ts:555-627). -/
def finalMessage (status : RunView) (events : List ServiceEvent) : ConversationMessage :=
  match status.result with
  | some (.finalAnswer answer citations) => ⟨.assistant, answer, some citations, none⟩
  | some (.localWriteCompleted _) =>
    ⟨.assistant, "The workspace file was written successfully.", none, none⟩
  | some .approvalDenied => ⟨.error, "The LocalWrite request was denied.", none, some .runFailed⟩
  | none =>
    let errorKind :=
      if status.disposition = .manualReconciliationRequired then .manualReconciliation
      else if status.disposition = .completed then .resultUnavailable
      else classifyFailure status events
    ⟨.error, errorMessage errorKind, none, some errorKind⟩

/-- A finished write clears its approval. -/
def endsApproval : Option ApplicationResult → Bool
  | some (.localWriteCompleted _) | some .approvalDenied => true
  | _ => false

/-- What a poll returns. `asked` is the cursor its page was read from; the code does not keep it. -/
structure PollData where
  events : List ServiceEvent
  status : RunView
  staleCursor : Bool
  asked : Option Nat

/-- How many events count as kept when the page is merged. -/
def PollData.kept (d : PollData) (a : ActiveRun) : Nat := if d.staleCursor then 0 else a.events.length

/-- The call of `mergeEventPage` in the merge effect. -/
def PollData.merged (d : PollData) (a : ActiveRun) (runId : RunId) : EventMergeResult :=
  mergeEventPage (if d.staleCursor then [] else a.events) (if d.staleCursor then none else a.cursor)
    d.events runId

/-- `caughtUp`. -/
def caughtUp (status : RunView) (cursor : Option Nat) : Bool :=
  status.lastSequence.all fun last => cursor.any (last ≤ ·)

/-- The merge effect (conversation.ts:512-631). -/
def Conversation.merge (c : Conversation) (runId : RunId) (d : PollData) : Conversation :=
  match c.activeRun with
  | none => c
  | some a =>
    if a.runId ≠ runId then c
    else
      let merged := d.merged a runId
      if !merged.valid then
        { c with activeRun := some { a with cursor := none, events := [], activity := .reconnecting } }
      else if !isTerminal d.status.disposition || !caughtUp d.status merged.cursor then
        let freshPage := merged.events.drop (if d.staleCursor then 0 else a.events.length)
        let activity :=
          if d.status.disposition = .waiting then .waitingForDecision
          else if isTerminal d.status.disposition then .finishing
          else activityFor freshPage a.activity
        { c with
          activeRun := some { a with cursor := merged.cursor, events := merged.events, activity := activity }
          lastRun := some d.status }
      else
        { messages := c.messages ++ [finalMessage d.status merged.events]
          activeRun := none
          lastRun := some d.status
          lastRunEvents := merged.events
          lastRunStartedAtMillis := some a.startedAtMillis
          lastActivityMillis := some a.startedAtMillis
          approval := if endsApproval d.status.result then none else c.approval }

/-- The effect of a poll that failed (conversation.ts:633). -/
def Conversation.reconnect (c : Conversation) (runId : RunId) : Conversation :=
  { c with activeRun := c.activeRun.map fun a =>
      if a.runId = runId then { a with activity := .reconnecting } else a }

/-! ## The polls -/

/-- A poll under way, with the cursor of the render that began it: before and after the status. -/
inductive Fetch where
  | started (cursor : Option Nat)
  | answered (cursor : Option Nat) (status : RunView)

/-- The store, the conversation, the cursor of the active run that was last rendered, and the poll. -/
structure Controller where
  store : Store
  conversation : Conversation
  rendered : Option (Option Nat)
  fetch : Option Fetch
  data : Option PollData

inductive PollStep where
  | write (call : StoreCall)
  | render
  | fetch
  | status (transport : Bool) (answers : StatusAnswers)
  | events (transport : Bool) (answers : ReadAnswers)
  | merge
  | giveUp

section

variable (workflows : List (RecoveryContract × WorkflowId)) (codec : EventCodec) (key : RunKey)

/-- A request that fails is tried again from the status on (`retry: 2`), or the poll is given up. -/
def Controller.step (c : Controller) : PollStep → Controller
  | .write call => { c with store := (c.store.execute call).2 }
  | .render => { c with rendered := c.conversation.activeRun.map ActiveRun.cursor }
  | .fetch =>
    match c.rendered, c.fetch with
    | some cursor, none => { c with fetch := some (.started cursor) }
    | _, _ => c
  | .status transport answers =>
    match c.fetch with
    | some (.started cursor) =>
      match runStatus key transport (getRunStatus workflows codec c.store key answers) with
      | none => c
      | some status => { c with fetch := some (.answered cursor status) }
    | _ => c
  | .events transport answers =>
    match c.fetch with
    | some (.answered cursor status) =>
      let checked := validatedCursor cursor status.lastSequence
      match readEvents key checked.1 transport
          (serviceReadEvents workflows c.store key checked.1 maxItems answers) with
      | none => { c with fetch := some (.started cursor) }
      | some events => { c with fetch := none, data := some ⟨events, status, checked.2, checked.1⟩ }
    | _ => c
  | .merge =>
    match c.data with
    | none => c
    | some d => { c with conversation := c.conversation.merge key.runId d }
  | .giveUp => { c with fetch := none, conversation := c.conversation.reconnect key.runId }

/-- A run that was just started or restored. -/
def Controller.start (conversation : Conversation) (startedAtMillis : Nat) (activity : ActivityLabel) :
    Controller where
  store := .empty
  conversation :=
    { conversation with activeRun := some ⟨key.runId, startedAtMillis, none, [], activity⟩ }
  rendered := none
  fetch := none
  data := none

def Controller.run (c : Controller) (steps : List PollStep) : Controller :=
  steps.foldl (Controller.step workflows codec key) c

end

end LocalAgent.Desktop
