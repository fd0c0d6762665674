import LocalAgent.Service.Status

/-!
# The desktop's client of the service (`service_client.rs:516-818, 1160-1211, 1444`)

The client checks the size and the texts of what it receives, that a status is of the run it asked
for, and that a page of events goes on where it asked. It tells several errors apart, but a poll that
fails is the same whichever it was: an error is `none` here.

Identifiers are numbers and backends an enumeration in this model, so that the tests for a `Uuid` and
for the names of backends always pass.
-/
namespace LocalAgent.Desktop

/-- `MAX_ITEMS`. -/
def maxItems : Nat := 64

/-- `MAX_TEXT_BYTES`. -/
def maxTextBytes : Nat := 256

/-- `MAX_FINAL_ANSWER_BYTES`. -/
def maxFinalAnswerBytes : Nat := 8 * 1024

/-- `MAX_CITATION_FIELD_BYTES`. -/
def maxCitationFieldBytes : Nat := 1024

/-- `MAX_RESULT_CITATIONS`. -/
def maxResultCitations : Nat := 8

/-- `MAX_KNOWLEDGE_BACKENDS`. -/
def maxKnowledgeBackends : Nat := 8

/-- `READONLY_WORKFLOW_ID`. -/
def readonlyWorkflowId : WorkflowId := ⟨"enterprise-engineering-readonly-v1"⟩

/-- `LOCALWRITE_WORKFLOW_ID`. -/
def localwriteWorkflowId : WorkflowId := ⟨"enterprise-engineering-localwrite-v1"⟩

/-! ## What a response may hold -/

/-- The body of `bounded_text` and of `bounded_citation_text`. -/
def isBounded (limit : Nat) (value : String) : Bool :=
  !value.isEmpty && value.utf8ByteSize ≤ limit && value.toList.all (!Text.isControl ·)

def boundedText (value : String) : Bool := isBounded maxTextBytes value

def boundedCitationText (value : String) : Bool := isBounded maxCitationFieldBytes value

/-- A workflow id is absent or one of the two that the desktop knows. -/
def knownWorkflow (id : Option WorkflowId) : Bool :=
  id.all fun id => id = readonlyWorkflowId || id = localwriteWorkflowId

/-- `valid_application_result`. -/
def validApplicationResult : ApplicationResult → Bool
  | .finalAnswer answer citations =>
    !answer.isEmpty && answer.utf8ByteSize ≤ maxFinalAnswerBytes
      && citations.length ≤ maxResultCitations
      && citations.all fun citation => boundedCitationText citation.evidenceId
        && boundedCitationText citation.sourceId && boundedCitationText citation.referenceId
        && citation.provenance.all boundedCitationText
  | .localWriteCompleted _ | .approvalDenied => true

/-- `RunViewV1::validate`. -/
def validRunView (run : RunView) : Bool :=
  knownWorkflow run.workflowId && run.result.all validApplicationResult

/-- The test of one event in `Vec<ServiceEventV2>::validate`. -/
def validEvent (event : ServiceEvent) : Bool :=
  event.version = 2 && event.correlationId.all boundedText && knownWorkflow event.workflowId
    && event.knowledgeBackends.length ≤ maxKnowledgeBackends
    && event.graphNodeId.all (fun id => boundedText id.value)
    && !(match event.budgetUsage, event.budgetLimit with
      | some used, some limit => used > limit
      | _, _ => false)
    && event.budgetUsage.isSome = event.budgetLimit.isSome

/-- `Vec<ServiceEventV2>::validate`. -/
def validEvents (events : List ServiceEvent) : Bool :=
  events.length ≤ maxItems && events.all validEvent

/-- The loop of `validate_event_page`. -/
def follows (runId : RunId) : Nat → List ServiceEvent → Bool
  | _, [] => true
  | expected, event :: events =>
    event.runId = runId && event.sequence = expected
      && follows runId (min (expected + 1) u64Max) events

/-- `validate_event_page`. -/
def validateEventPage (events : List ServiceEvent) (runId : RunId) (cursor : Option Nat) : Bool :=
  follows runId (cursor.elim 0 fun value => min (value + 1) u64Max) events

/-! ## Requests -/

/-- `LocalServiceClient::run_status`: the answer of the service, unless the transport fails. -/
def runStatus (key : RunKey) (transport : Bool) (answer : Except ServiceError RunView) : Option RunView :=
  match answer with
  | .error _ => none
  | .ok run =>
    if !transport || !validRunView run || run.sessionId ≠ key.sessionId || run.runId ≠ key.runId then none
    else some run

/-- `LocalServiceClient::read_events`. -/
def readEvents (key : RunKey) (after : Option Nat) (transport : Bool)
    (answer : Except ServiceError (List ServiceEvent)) : Option (List ServiceEvent) :=
  match answer with
  | .error _ => none
  | .ok events =>
    if !transport || !validEvents events || !validateEventPage events key.runId after then none
    else some events

/-! ## What gets through -/

variable {key : RunKey} {transport : Bool}

theorem runStatus_ok {answer : Except ServiceError RunView} {run : RunView}
    (h : runStatus key transport answer = some run) : answer = .ok run := by
  unfold runStatus at h
  split at h
  · cases h
  split at h
  · cases h
  · exact congrArg Except.ok (Option.some.inj h)

theorem readEvents_ok {after : Option Nat} {answer : Except ServiceError (List ServiceEvent)}
    {events : List ServiceEvent} (h : readEvents key after transport answer = some events) :
    answer = .ok events ∧ validateEventPage events key.runId after = true := by
  unfold readEvents at h
  split at h
  · cases h
  split at h
  · cases h
  · rename_i hvalid
    cases h
    simp only [Bool.or_eq_true, not_or, Bool.not_eq_true', Bool.not_eq_false] at hvalid
    exact ⟨rfl, hvalid.2⟩

/-- Where a reader stands that has read as many events as the cursor says. -/
def count (cursor : Option Nat) : Nat := cursor.elim 0 (· + 1)

@[simp] theorem count_none : count none = 0 := rfl

@[simp] theorem count_some (n : Nat) : count (some n) = n + 1 := rfl

@[simp] theorem count_lastOf (n : Nat) : count (Store.lastOf n) = n := by cases n <;> rfl

end LocalAgent.Desktop
