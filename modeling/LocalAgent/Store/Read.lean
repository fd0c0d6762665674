import LocalAgent.Lib.Page
import LocalAgent.Store.Log
import Mathlib.Data.Prod.Lex

/-!
# Reading the store (`agent-persistence-sqlite/src/lib.rs:690-1015`, `1175-1260`)

`find_run` and the four listings: all runs by id, the runs of a session and the sessions of an owner
newest first, the open waits by run and wait. The ids are texts in the store; a UUID is written with
a fixed number of lower-case digits, so that its text is ordered as its number.

Main theorem: `page_following_lossless`.
-/
namespace LocalAgent

open Paging

/-- `MAX_READ_PAGE_ITEMS` and `MAX_SESSION_PAGE_ITEMS`. -/
def maxReadPageItems : Nat := 256

/-- `DurableRunSummary`. -/
structure DurableRunSummary where
  key : RunKey
  recoveryContract : RecoveryContract
  lastSequence : Option Nat
  startedAtUnixMillis : Option Nat
  terminal : Bool
  authorization : Option DurableRunAuthorization
deriving DecidableEq

/-- `DurableWaitingSummary`. -/
structure DurableWaitingSummary where
  key : RunKey
  waitId : DurableApprovalWaitId
  rowVersion : Nat
  status : DurableApprovalStatus
deriving DecidableEq

namespace Store

/-! ## Runs -/

/-- The rows of `runs` in the order of their `rowid`; the first has `rowid` 1. -/
def runRows (s : Store) : List (RunId × StoredRun) :=
  s.rowids.filterMap fun run => (s.runs run).map fun row => (run, row)

/-- `run_started_at` (lib.rs:882). -/
def runStartedAt (key : RunKey) (row : StoredRun) : Except PersistencePortError (Option Nat) :=
  match (row.events.insertionSort fun a b => a.sequence ≤ b.sequence).head? with
  | none => .ok none
  | some e =>
    if e.schemaVersion ≠ currentEventSchemaVersion then .error .corrupt
    else if e.runId ≠ key.runId || e.sequence ≠ 0 then .error .corrupt
    else match e.kind with
      | .runStarted startedAt => .ok (some startedAt)
      | _ => .error .corrupt

/-- `DurableRunSummary::new` of a row. -/
def summary (row : StoredRun) (startedAt : Option Nat) : DurableRunSummary :=
  ⟨row.record.key, row.record.recoveryContract, row.lastSequence, startedAt, row.terminal,
    row.record.authorization⟩

/-- The loop body of the two listings of runs; `foreign` is the check that only one of them makes. -/
def readRun (foreign : RunKey → Bool) (run : RunId) (row : StoredRun) :
    Except PersistencePortError DurableRunSummary :=
  if row.record.key.runId ≠ run || row.record.key.sessionId ≠ row.sessionId
      || foreign row.record.key then .error .corrupt
  else if row.record.storeSchemaVersion ≠ currentStoreSchemaVersion
      || row.record.checkpointSchemaVersion ≠ currentCheckpointSchemaVersion then
    .error .unsupportedVersion
  else match runStartedAt row.record.key row with
    | .error e => .error e
    | .ok startedAt => .ok (summary row startedAt)

/-- `find_run` (lib.rs:690). -/
def findRun (s : Store) (key : RunKey) : Except PersistencePortError (Option DurableRunSummary) :=
  match s.runs key.runId with
  | none => .ok none
  | some row =>
    if row.sessionId ≠ key.sessionId then .error .corrupt
    else if row.record.storeSchemaVersion ≠ currentStoreSchemaVersion
        || row.record.checkpointSchemaVersion ≠ currentCheckpointSchemaVersion then
      .error .unsupportedVersion
    else if row.record.key ≠ key then .error .corrupt
    else match runStartedAt key row with
      | .error e => .error e
      | .ok startedAt => .ok (some (summary row startedAt))

/-- `validate_page_limit` (lib.rs:683). -/
def validPageLimit (limit : Nat) : Bool := !(limit = 0 || limit > maxReadPageItems)

/-- `list_runs` (lib.rs:730). -/
def listRuns (s : Store) (limit : Nat) (after : Option RunId) :
    Except PersistencePortError (Page DurableRunSummary RunId) :=
  if !validPageLimit limit then .error .conflict
  else fetch (fun row => readRun (fun _ => false) row.1 row.2) (·.key.runId) limit
    ((s.runRows.insertionSort fun a b => a.1.uuid ≤ b.1.uuid).filter fun row =>
      after.all (·.uuid < row.1.uuid))

/-- The `rowid` of the row at an index. -/
def rowid (index : Nat) : Nat := index + 1

/-- The `rowid` before which a page begins (lib.rs:808-819). -/
def beforeRowid (s : Store) (session : SessionId) : Option RunId → Option Nat
  | none => some i64Max
  | some run => (s.runRows.findIdx? fun row => row.1 = run && row.2.sessionId = session).map rowid

/-- `list_session_runs` (lib.rs:799). -/
def listSessionRuns (s : Store) (session : SessionId) (limit : Nat) (after : Option RunId) :
    Except PersistencePortError (Page DurableRunSummary RunId) :=
  if !validPageLimit limit then .error .conflict
  else match s.beforeRowid session after with
    | none => .error .conflict
    | some before =>
      fetch (fun row => readRun (·.sessionId ≠ session) row.1.1 row.1.2) (·.key.runId) limit
        ((s.runRows.zipIdx.reverse.filter fun row => row.1.2.sessionId = session).filter fun row =>
          rowid row.2 < before)

/-! ## Waits -/

/-- The rows of `durable_approvals`. -/
def approvalRows (s : Store) : List ((RunId × DurableApprovalWaitId) × StoredApproval) :=
  s.waits.filterMap fun key => (s.approvals key.1 key.2).map fun row => (key, row)

/-- The order of `(run_id, wait_id)`. -/
def waitOrder (key : RunId × DurableApprovalWaitId) : Nat ×ₗ Nat := toLex (key.1.uuid, key.2.uuid)

/-- `list_waiting` (lib.rs:947). -/
def listWaiting (s : Store) (limit : Nat) (after : Option (RunId × DurableApprovalWaitId)) :
    Except PersistencePortError (Page DurableWaitingSummary (RunId × DurableApprovalWaitId)) :=
  if !validPageLimit limit then .error .conflict
  else fetch (fun row =>
      let key : RunKey := ⟨row.1.1, row.2.sessionId⟩
      match s.loadDurableApprovalWait key row.1.2 with
      | .error e => .error e
      | .ok record => .ok ⟨key, row.1.2, record.rowVersion, record.status⟩)
    (fun item => (item.key.runId, item.waitId)) limit
    (((s.approvalRows.filter fun row => row.2.status ≠ .consumed).insertionSort fun a b =>
        waitOrder a.1 ≤ waitOrder b.1).filter fun row =>
      after.all fun key => waitOrder key < waitOrder row.1)

end Store

/-! ## Sessions -/

/-- `MAX_CONVERSATION_TITLE_BYTES`. -/
def maxConversationTitleBytes : Nat := 80

/-- `SessionOwnershipRecord`. -/
structure SessionOwnershipRecord where
  sessionId : SessionId
  owner : PrincipalId
  title : Option String
  archived : Bool
deriving DecidableEq

inductive IdentityStoreError where
  | unavailable | conflict | corrupt
deriving DecidableEq, Repr

/-- A row of `service_conversation_metadata`. -/
structure ConversationMetadata where
  title : Option String
  archived : Bool

/-- The tables `service_sessions`, by `rowid`, and `service_conversation_metadata`. The stored record
has neither title nor archive flag (`#[serde(skip)]`). -/
structure SessionStore where
  rows : List (SessionId × SessionOwnershipRecord)
  metadata : SessionId → Option ConversationMetadata

namespace SessionStore

/-- `load_session_metadata` (lib.rs:1239). -/
def loadSessionMetadata (s : SessionStore) (session : SessionId) :
    Except IdentityStoreError ConversationMetadata :=
  let found := (s.metadata session).getD ⟨none, false⟩
  if found.title.any fun title => title.isEmpty || title.utf8ByteSize > maxConversationTitleBytes
      || title.toList.any Text.isControl then .error .corrupt
  else .ok found

/-- `set_metadata`. -/
def setMetadata (r : SessionOwnershipRecord) (m : ConversationMetadata) : SessionOwnershipRecord :=
  { r with title := m.title, archived := m.archived }

/-- The `while` loop of `list_session_ownership`: it stops when the page is overfull. -/
def collect (s : SessionStore) (owner : PrincipalId) (limit : Nat) :
    List (SessionId × SessionOwnershipRecord) → List SessionOwnershipRecord →
      Except IdentityStoreError (List SessionOwnershipRecord)
  | [], matching => .ok matching
  | (session, record) :: rows, matching =>
    if record.sessionId ≠ session then .error .corrupt
    else match s.loadSessionMetadata record.sessionId with
      | .error e => .error e
      | .ok m =>
        let record := setMetadata record m
        if record.owner = owner && !record.archived then
          if (matching ++ [record]).length > limit then .ok (matching ++ [record])
          else s.collect owner limit rows (matching ++ [record])
        else s.collect owner limit rows matching

/-- The `rowid` before which a page begins (lib.rs:1184-1195). -/
def beforeRowid (s : SessionStore) : Option SessionId → Option Nat
  | none => some i64Max
  | some session => (s.rows.findIdx? fun row => row.1 = session).map Store.rowid

/-- `list_session_ownership` (lib.rs:1175). -/
def listSessionOwnership (s : SessionStore) (owner : PrincipalId) (limit : Nat)
    (after : Option SessionId) : Except IdentityStoreError (Page SessionOwnershipRecord SessionId) :=
  if limit = 0 || limit > maxReadPageItems then .error .conflict
  else match s.beforeRowid after with
    | none => .error .conflict
    | some before =>
      match s.collect owner limit
          ((s.rows.zipIdx.reverse.filter fun row => Store.rowid row.2 < before).map Prod.fst) [] with
      | .error e => .error e
      | .ok matching =>
        let items := matching.take limit
        .ok ⟨items, if matching.length > limit then items.getLast?.map (·.sessionId) else none⟩

end SessionStore

/-! ## What the store keeps -/

namespace Store

/-- A run row as the store writes it: the columns are those of the record, and the log begins with
the start of the run. -/
structure ReadableRun (run : RunId) (row : StoredRun) : Prop where
  key : row.record.key = ⟨run, row.sessionId⟩
  storeVersion : row.record.storeSchemaVersion = currentStoreSchemaVersion
  checkpointVersion : row.record.checkpointSchemaVersion = currentCheckpointSchemaVersion
  numbered : Numbered row
  first : ∀ e, row.events.head? = some e → e.schemaVersion = currentEventSchemaVersion ∧
    e.runId = run ∧ e.kind.isRunStarted = true

/-- An approval row as the store writes it. -/
structure ReadableWait (run : RunId) (wait : DurableApprovalWaitId) (row : StoredApproval) : Prop where
  version : row.rowVersion ≤ i64Max
  sealed : row.record.sealedAction.isValid = true
  key : row.record.binding.key = ⟨run, row.sessionId⟩
  wait : row.record.binding.waitId = wait
  keyId : row.record.sealedAction.keyId = row.keyId
  nonce : row.record.sealedAction.nonce = row.nonce

/-- The invariants of the store. A table never has `i64::MAX` rows: the file would be too large. -/
structure Readable (s : Store) : Prop where
  rowids : s.rowids.Nodup
  listed : ∀ run, run ∈ s.rowids ↔ (s.runs run).isSome = true
  bounded : s.rowids.length < i64Max
  runs : ∀ run row, s.runs run = some row → ReadableRun run row
  waits : s.waits.Nodup
  queued : ∀ run wait, (run, wait) ∈ s.waits ↔ (s.approvals run wait).isSome = true
  approvals : ∀ run wait row, s.approvals run wait = some row → ReadableWait run wait row

/-- `runs` has the run as its primary key. -/
structure Listed (s : Store) : Prop where
  nodup : s.rowids.Nodup
  listed : ∀ run, run ∈ s.rowids ↔ (s.runs run).isSome = true

variable {s : Store} {run : RunId} {row : StoredRun}

theorem Readable.table (h : s.Readable) : s.Listed := ⟨h.rowids, h.listed⟩

/-- When the run was started, by its first event. -/
def startedAt (row : StoredRun) : Option Nat :=
  row.events.head?.bind fun e => match e.kind with
    | .runStarted startedAt => some startedAt
    | _ => none

theorem ReadableRun.startedAt (h : ReadableRun run row) :
    runStartedAt row.record.key row = .ok (Store.startedAt row) := by
  unfold runStartedAt Store.startedAt
  rw [h.numbered.sorted, h.key]
  cases hevents : row.events with
  | nil => rfl
  | cons e events =>
    obtain ⟨hversion, hrun, hstart⟩ := h.first e (by rw [hevents]; rfl)
    have hzero : e.sequence = 0 := by
      have hsequences := h.numbered.sequences
      rw [hevents, List.map_cons, List.length_cons, List.range_succ_eq_map] at hsequences
      exact (List.cons.inj hsequences).1
    simp only [List.head?_cons, Option.bind_some, hversion, hrun, hzero]
    cases hkind : e.kind with
    | runStarted startedAt => simp
    | _ => rw [hkind] at hstart; cases hstart

theorem ReadableRun.read {foreign : RunKey → Bool} (h : ReadableRun run row)
    (hforeign : foreign ⟨run, row.sessionId⟩ = false) :
    readRun foreign run row = .ok (summary row (Store.startedAt row)) := by
  have hstarted := h.startedAt
  rw [h.key] at hstarted
  simp [readRun, h.key, h.storeVersion, h.checkpointVersion, hforeign, hstarted]

theorem ReadableRun.summary_runId (h : ReadableRun run row) :
    (summary row (Store.startedAt row)).key.runId = run := by
  show row.record.key.runId = run
  rw [h.key]

theorem mem_runRows (h : s.Listed) : (run, row) ∈ s.runRows ↔ s.runs run = some row := by
  rw [runRows, List.mem_filterMap]
  constructor
  · rintro ⟨run', -, hrow⟩
    obtain ⟨row', hrow', heq⟩ := Option.map_eq_some_iff.mp hrow
    cases heq
    exact hrow'
  · intro hrow
    exact ⟨run, (h.listed run).mpr (by rw [hrow]; rfl), by rw [hrow]; rfl⟩

theorem runRows_keys (h : s.Listed) : s.runRows.map Prod.fst = s.rowids := by
  rw [runRows, List.map_filterMap]
  have hall : ∀ run ∈ s.rowids, ((s.runs run).map fun row => (run, row)).map Prod.fst = some run := by
    intro run hrun
    obtain ⟨row, hrow⟩ := Option.isSome_iff_exists.mp ((h.listed run).mp hrun)
    rw [hrow]
    rfl
  rw [List.filterMap_congr hall, List.filterMap_some]

theorem runRows_nodup (h : s.Listed) : (s.runRows.map Prod.fst).Nodup := by
  rw [runRows_keys h]
  exact h.nodup

theorem runRows_length (h : s.Readable) : s.runRows.length < i64Max := by
  rw [← List.length_map Prod.fst, runRows_keys h.table]
  exact h.bounded

theorem validPageLimit_pos {limit : Nat} (h : validPageLimit limit = true) : 0 < limit := by
  simp only [validPageLimit, Bool.not_eq_true', Bool.or_eq_false_iff, decide_eq_false_iff_not] at h
  omega

/-! ## All runs -/

/-- The rows in the order of `list_runs`. -/
def sortedRuns (s : Store) : List (RunId × StoredRun) :=
  s.runRows.insertionSort fun a b => a.1.uuid ≤ b.1.uuid

theorem sortedRuns_pairwise (h : s.Listed) :
    s.sortedRuns.Pairwise fun a b => a.1.uuid < b.1.uuid := by
  refine pairwise_lt_insertionSort ?_
  have hinj : ∀ a b : RunId, a.uuid = b.uuid → a = b := fun a b hab => by
    cases a
    cases b
    exact congrArg RunId.mk hab
  have := (runRows_nodup h).map (f := RunId.uuid) fun a b => hinj a b
  rwa [List.map_map] at this

theorem mem_sortedRuns (h : s.Listed) : (run, row) ∈ s.sortedRuns ↔ s.runs run = some row := by
  rw [sortedRuns, List.mem_insertionSort, mem_runRows h]

theorem sortedRuns_readable (h : s.Readable) {x : RunId × StoredRun} (hx : x ∈ s.sortedRuns) :
    ReadableRun x.1 x.2 :=
  h.runs x.1 x.2 ((mem_sortedRuns h.table).mp hx)

/-- A page after the rows that were seen. -/
theorem listRuns_after (h : s.Listed) {limit : Nat} (hlimit : validPageLimit limit = true)
    {seen rest : List (RunId × StoredRun)} (hrows : s.sortedRuns = seen ++ rest) :
    s.listRuns limit (cursor Prod.fst seen) =
      fetch (fun x => readRun (fun _ => false) x.1 x.2) (fun item => item.key.runId) limit rest := by
  have hsorted := sortedRuns_pairwise h
  rw [hrows] at hsorted
  have hafter := filter_after Prod.fst (fun a b : RunId => a.uuid < b.uuid) hsorted
    fun _ _ hab hba => Nat.lt_asymm hab hba
  rw [listRuns, hlimit]
  change fetch _ _ limit (s.sortedRuns.filter _) = _
  rw [hrows, hafter]

theorem listRuns_serves (h : s.Readable) {limit : Nat} (hlimit : validPageLimit limit = true) :
    Serves (s.listRuns limit) (fun item => item.key.runId) limit
      (s.sortedRuns.map fun x => summary x.2 (startedAt x.2)) := by
  intro seen rest hsplit
  obtain ⟨a, b, hrows, rfl, rfl⟩ := List.map_eq_append_iff.mp hsplit
  have hcursor : cursor (fun item : DurableRunSummary => item.key.runId)
      (a.map fun x => summary x.2 (startedAt x.2)) = cursor Prod.fst a := by
    rw [cursor, cursor]
    cases hlast : a.getLast? with
    | none => simp [hlast]
    | some x =>
      have hx : x ∈ s.sortedRuns := hrows ▸ List.mem_append_left b (List.mem_of_getLast? hlast)
      simp [hlast, (sortedRuns_readable h hx).summary_runId]
  rw [hcursor, listRuns_after h.table hlimit hrows]
  exact fetch_ok fun x hx => (sortedRuns_readable h (hrows ▸ List.mem_append_right a hx)).read rfl

/-! ## The runs of a session -/

/-- The rows of a session, newest first, with their indices. -/
def sessionRows (s : Store) (session : SessionId) : List ((RunId × StoredRun) × Nat) :=
  s.runRows.zipIdx.reverse.filter fun row => row.1.2.sessionId = session

theorem mem_sessionRows {session : SessionId} {x : (RunId × StoredRun) × Nat} :
    x ∈ s.sessionRows session ↔ s.runRows[x.2]? = some x.1 ∧ x.1.2.sessionId = session := by
  rw [sessionRows, List.mem_filter, List.mem_reverse, List.mem_zipIdx_iff_getElem?,
    decide_eq_true_eq]

theorem sessionRows_readable (h : s.Readable) {session : SessionId} {x : (RunId × StoredRun) × Nat}
    (hx : x ∈ s.sessionRows session) : ReadableRun x.1.1 x.1.2 :=
  h.runs x.1.1 x.1.2 ((mem_runRows h.table).mp (List.mem_of_getElem? (mem_sessionRows.mp hx).1))

theorem sessionRows_nodup (h : s.Readable) {session : SessionId} :
    ((s.sessionRows session).map fun x => x.1.1).Nodup := by
  have hall : (s.runRows.zipIdx.reverse.map fun x => x.1.1).Nodup := by
    have hrows := runRows_nodup h.table
    rwa [← List.zipIdx_map_fst 0 s.runRows, List.map_map, ← List.nodup_reverse,
      ← List.map_reverse] at hrows
  exact hall.sublist (List.Sublist.map _ List.filter_sublist)

/-- The cursor of a page finds the row it was made from. -/
theorem findIdx?_runRows (h : s.Readable) {session : SessionId} {x : (RunId × StoredRun) × Nat}
    (hx : x ∈ s.sessionRows session) :
    (s.runRows.findIdx? fun row => row.1 = x.1.1 && row.2.sessionId = session) = some x.2 := by
  obtain ⟨hindex, hsession⟩ := mem_sessionRows.mp hx
  refine findIdx?_unique hindex (by simp [hsession]) fun j row hj hrow => ?_
  simp only [Bool.and_eq_true, decide_eq_true_eq] at hrow
  exact index_unique (runRows_nodup h.table) hj hindex hrow.1

theorem listSessionRuns_serves (h : s.Readable) {limit : Nat} (hlimit : validPageLimit limit = true)
    (session : SessionId) :
    Serves (s.listSessionRuns session limit) (fun item => item.key.runId) limit
      ((s.sessionRows session).map fun x => summary x.1.2 (startedAt x.1.2)) := by
  have hbefore : ∀ seen rest, s.sessionRows session = seen ++ rest →
      s.beforeRowid session (cursor ((fun item : DurableRunSummary => item.key.runId) ∘
        fun x : (RunId × StoredRun) × Nat => summary x.1.2 (startedAt x.1.2)) seen) =
      some ((seen.getLast?.map fun x => rowid x.2).getD i64Max) := by
    intro seen rest hsplit
    cases hlast : seen.getLast? with
    | none => simp [cursor, hlast, beforeRowid]
    | some x =>
      have hx : x ∈ s.sessionRows session :=
        hsplit ▸ List.mem_append_left rest (List.mem_of_getLast? hlast)
      simp [cursor, hlast, beforeRowid, (sessionRows_readable h hx).summary_runId,
        findIdx?_runRows h hx]
  refine serves_of_fetch (fun x => readRun (·.sessionId ≠ session) x.1.1 x.1.2) _
    (fun after x => (s.beforeRowid session after).any fun bound => rowid x.2 < bound)
    (fun x hx => (sessionRows_readable h hx).read (by simp [(mem_sessionRows.mp hx).2]))
    (fun seen rest hsplit => ?_) (fun seen rest hsplit => ?_)
  · rw [hbefore seen rest hsplit, hsplit]
    exact filter_before i64Max hsplit (runRows_length h)
  · have hpage := hbefore seen rest hsplit
    rw [listSessionRuns, hlimit]
    simp only [hpage]
    rfl

/-! ## Open waits -/

/-- The open waits in the order of `list_waiting`. -/
def openWaits (s : Store) : List ((RunId × DurableApprovalWaitId) × StoredApproval) :=
  (s.approvalRows.filter fun row => row.2.status ≠ .consumed).insertionSort fun a b =>
    waitOrder a.1 ≤ waitOrder b.1

def waitingSummary (x : (RunId × DurableApprovalWaitId) × StoredApproval) : DurableWaitingSummary :=
  ⟨⟨x.1.1, x.2.sessionId⟩, x.1.2, x.2.rowVersion, x.2.status⟩

theorem mem_approvalRows (h : s.Readable) {x : (RunId × DurableApprovalWaitId) × StoredApproval} :
    x ∈ s.approvalRows ↔ s.approvals x.1.1 x.1.2 = some x.2 := by
  rw [approvalRows, List.mem_filterMap]
  constructor
  · rintro ⟨key, -, hrow⟩
    obtain ⟨row, hstored, rfl⟩ := Option.map_eq_some_iff.mp hrow
    exact hstored
  · intro hrow
    exact ⟨x.1, (h.queued x.1.1 x.1.2).mpr (by rw [hrow]; rfl), by rw [hrow]; rfl⟩

theorem mem_openWaits (h : s.Readable) {x : (RunId × DurableApprovalWaitId) × StoredApproval} :
    x ∈ s.openWaits ↔ s.approvals x.1.1 x.1.2 = some x.2 ∧ x.2.status ≠ .consumed := by
  rw [openWaits, List.mem_insertionSort, List.mem_filter, mem_approvalRows h, decide_eq_true_eq]

theorem waitOrder_injective : Function.Injective waitOrder := by
  rintro ⟨⟨a⟩, ⟨b⟩⟩ ⟨⟨c⟩, ⟨d⟩⟩ hab
  have := toLex.injective hab
  simp only [Prod.mk.injEq] at this
  rw [this.1, this.2]

theorem openWaits_pairwise (h : s.Readable) :
    s.openWaits.Pairwise fun a b => waitOrder a.1 < waitOrder b.1 := by
  refine pairwise_lt_insertionSort ?_
  have hkeys : s.approvalRows.map Prod.fst = s.waits := by
    rw [approvalRows, List.map_filterMap]
    have hall : ∀ key ∈ s.waits,
        ((s.approvals key.1 key.2).map fun row => (key, row)).map Prod.fst = some key := by
      intro key hkey
      obtain ⟨row, hrow⟩ := Option.isSome_iff_exists.mp ((h.queued key.1 key.2).mp hkey)
      rw [hrow]
      rfl
    rw [List.filterMap_congr hall, List.filterMap_some]
  have hnodup : ((s.approvalRows.filter fun row => row.2.status ≠ .consumed).map Prod.fst).Nodup := by
    have hall : (s.approvalRows.map Prod.fst).Nodup := by
      rw [hkeys]
      exact h.waits
    exact hall.sublist (List.Sublist.map Prod.fst List.filter_sublist)
  have := hnodup.map waitOrder_injective
  rwa [List.map_map] at this

theorem ReadableWait.load {wait : DurableApprovalWaitId} {row : StoredApproval}
    (hstored : s.approvals run wait = some row) (h : ReadableWait run wait row) :
    s.loadDurableApprovalWait ⟨run, row.sessionId⟩ wait =
      .ok (row.record.restoreStoreState row.status row.rowVersion) := by
  have hversion := h.version
  simp [loadDurableApprovalWait, hstored, h.sealed, h.key, h.wait, h.keyId, h.nonce,
    Nat.not_lt.mpr hversion]

theorem listWaiting_serves (h : s.Readable) {limit : Nat} (hlimit : validPageLimit limit = true) :
    Serves (s.listWaiting limit) (fun item => (item.key.runId, item.waitId)) limit
      (s.openWaits.map waitingSummary) := by
  refine serves_of_fetch (fun row =>
      match s.loadDurableApprovalWait ⟨row.1.1, row.2.sessionId⟩ row.1.2 with
      | .error e => .error e
      | .ok record => .ok ⟨⟨row.1.1, row.2.sessionId⟩, row.1.2, record.rowVersion, record.status⟩) _
    (fun after x => after.all fun key => waitOrder key < waitOrder x.1)
    (fun x hx => ?_) (fun seen rest hsplit => ?_) (fun seen rest _ => ?_)
  · have hstored := ((mem_openWaits h).mp hx).1
    simp only [(h.approvals x.1.1 x.1.2 x.2 hstored).load hstored]
    rfl
  · rw [hsplit]
    refine filter_after Prod.fst (fun a b => waitOrder a < waitOrder b) ?_
      fun _ _ hab hba => lt_asymm hab hba
    rw [← hsplit]
    exact openWaits_pairwise h
  · rw [listWaiting, hlimit]
    rfl

end Store

/-! ## The sessions of an owner -/

namespace SessionStore

variable {s : SessionStore} {owner : PrincipalId} {limit : Nat}

/-- The invariants of the session tables. -/
structure Readable (s : SessionStore) : Prop where
  ids : ∀ row ∈ s.rows, row.2.sessionId = row.1
  unique : (s.rows.map Prod.fst).Nodup
  bounded : s.rows.length < i64Max
  titles : ∀ session m title, s.metadata session = some m → m.title = some title →
    ¬ (title.isEmpty || title.utf8ByteSize > maxConversationTitleBytes
      || title.toList.any Text.isControl) = true

/-- A row as a listing shows it. -/
def shown (s : SessionStore) (row : SessionId × SessionOwnershipRecord) : SessionOwnershipRecord :=
  setMetadata row.2 ((s.metadata row.2.sessionId).getD ⟨none, false⟩)

def isOwned (s : SessionStore) (owner : PrincipalId) (row : SessionId × SessionOwnershipRecord) : Bool :=
  (s.shown row).owner = owner && !(s.shown row).archived

/-- The sessions of an owner that are not archived, newest first. -/
def owned (s : SessionStore) (owner : PrincipalId) : List SessionOwnershipRecord :=
  (s.rows.reverse.filter (s.isOwned owner)).map s.shown

theorem Readable.metadata (h : s.Readable) (session : SessionId) :
    s.loadSessionMetadata session = .ok ((s.metadata session).getD ⟨none, false⟩) := by
  unfold loadSessionMetadata
  cases hm : s.metadata session with
  | none => rfl
  | some m =>
    cases htitle : m.title with
    | none => simp [htitle]
    | some title =>
      have hvalid := h.titles session m title hm htitle
      simp only [Option.getD_some, htitle, Option.any_some]
      rw [if_neg hvalid]

/-- The loop collects one session more than a page holds, if there are so many. -/
theorem collect_ok (h : s.Readable) {rows : List (SessionId × SessionOwnershipRecord)}
    {matching : List SessionOwnershipRecord} (hids : ∀ row ∈ rows, row.2.sessionId = row.1)
    (hroom : matching.length ≤ limit) :
    s.collect owner limit rows matching =
      .ok ((matching ++ (rows.filter (s.isOwned owner)).map s.shown).take (limit + 1)) := by
  induction rows generalizing matching with
  | nil => simp [collect, List.take_of_length_le (Nat.le_succ_of_le hroom)]
  | cons row rows ih =>
    have hids' : ∀ r ∈ rows, r.2.sessionId = r.1 := fun r hr => hids r (List.mem_cons_of_mem row hr)
    rw [collect, if_neg (not_not.mpr (hids row List.mem_cons_self)), h.metadata]
    by_cases howned : s.isOwned owner row = true
    · have hmatch : ((setMetadata row.2 ((s.metadata row.2.sessionId).getD ⟨none, false⟩)).owner = owner
          && !(setMetadata row.2 ((s.metadata row.2.sessionId).getD ⟨none, false⟩)).archived) = true :=
        howned
      simp only [hmatch, if_true, List.filter_cons_of_pos howned, List.map_cons]
      split_ifs with hfull
      · rw [List.length_append, List.length_singleton] at hfull
        have hlength : (matching ++ [s.shown row]).length = limit + 1 := by
          rw [List.length_append, List.length_singleton]
          omega
        rw [show ∀ l, matching ++ s.shown row :: l = (matching ++ [s.shown row]) ++ l by simp,
          List.take_left' hlength]
        rfl
      · rw [ih hids' (Nat.not_lt.mp hfull)]
        simp [shown]
    · have hmatch : ((setMetadata row.2 ((s.metadata row.2.sessionId).getD ⟨none, false⟩)).owner = owner
          && !(setMetadata row.2 ((s.metadata row.2.sessionId).getD ⟨none, false⟩)).archived) = false :=
        Bool.not_eq_true _ ▸ howned
      simp only [hmatch, List.filter_cons_of_neg howned]
      exact ih hids' hroom

theorem listSessionOwnership_ok (h : s.Readable) (hlimit : Store.validPageLimit limit = true)
    {after : Option SessionId} {before : Nat} (hbefore : s.beforeRowid after = some before) :
    s.listSessionOwnership owner limit after = .ok (cut SessionOwnershipRecord.sessionId limit
      (((s.rows.zipIdx.reverse.filter fun x => s.isOwned owner x.1).filter fun x =>
        Store.rowid x.2 < before).map fun x => s.shown x.1)) := by
  have hvalid : ¬ (limit = 0 || limit > maxReadPageItems) = true := by
    simpa [Store.validPageLimit] using hlimit
  have hids : ∀ row ∈ (s.rows.zipIdx.reverse.filter fun x => Store.rowid x.2 < before).map Prod.fst,
      row.2.sessionId = row.1 := by
    intro row hrow
    obtain ⟨x, hx, rfl⟩ := List.mem_map.mp hrow
    have hmem := List.mem_reverse.mp (List.mem_of_mem_filter hx)
    exact h.ids x.1 (List.mem_of_getElem? (List.mem_zipIdx_iff_getElem?.mp hmem))
  have hcollect : s.collect owner limit
      ((s.rows.zipIdx.reverse.filter fun x => Store.rowid x.2 < before).map Prod.fst) [] = _ :=
    collect_ok h hids (Nat.zero_le limit)
  have hrows : (((s.rows.zipIdx.reverse.filter fun x => Store.rowid x.2 < before).map Prod.fst).filter
      (s.isOwned owner)).map s.shown =
      (((s.rows.zipIdx.reverse.filter fun x => s.isOwned owner x.1).filter fun x =>
        Store.rowid x.2 < before).map fun x => s.shown x.1) := by
    rw [List.filter_map, List.map_map, List.filter_filter, List.filter_filter]
    exact congrArg (List.map _) (List.filter_congr fun x _ => Bool.and_comm ..)
  rw [List.nil_append, hrows] at hcollect
  rw [listSessionOwnership, if_neg hvalid]
  simp only [hbefore, hcollect, cut, List.take_take, Nat.min_eq_left (Nat.le_succ limit),
    List.length_take]
  generalize (((s.rows.zipIdx.reverse.filter fun x => s.isOwned owner x.1).filter fun x =>
    Store.rowid x.2 < before).map fun x => s.shown x.1) = rows
  have hmore : limit < min (limit + 1) rows.length ↔ limit < rows.length := by omega
  simp only [gt_iff_lt, hmore]

theorem listSessionOwnership_serves (h : s.Readable) (hlimit : Store.validPageLimit limit = true) :
    Serves (s.listSessionOwnership owner limit) SessionOwnershipRecord.sessionId limit
      (s.owned owner) := by
  have howned : s.owned owner =
      (s.rows.zipIdx.reverse.filter fun x => s.isOwned owner x.1).map fun x => s.shown x.1 := by
    conv_lhs => rw [owned, ← List.zipIdx_map_fst 0 s.rows, ← List.map_reverse, List.filter_map,
      List.map_map]
    rfl
  rw [howned]
  intro seen rest hsplit
  obtain ⟨a, b, hrows, rfl, rfl⟩ := List.map_eq_append_iff.mp hsplit
  have hindex : ∀ x ∈ a, s.rows[x.2]? = some x.1 := by
    intro x hx
    have hmem : x ∈ s.rows.zipIdx.reverse.filter fun x => s.isOwned owner x.1 :=
      hrows ▸ List.mem_append_left b hx
    exact List.mem_zipIdx_iff_getElem?.mp (List.mem_reverse.mp (List.mem_of_mem_filter hmem))
  have hbefore : s.beforeRowid (cursor SessionOwnershipRecord.sessionId (a.map fun x => s.shown x.1)) =
      some ((a.getLast?.map fun x => Store.rowid x.2).getD i64Max) := by
    cases hlast : a.getLast? with
    | none => simp [cursor, hlast, beforeRowid]
    | some x =>
      have hx := hindex x (List.mem_of_getLast? hlast)
      have hid := h.ids x.1 (List.mem_of_getElem? hx)
      have hfound : (s.rows.findIdx? fun row => row.1 = x.1.1) = some x.2 := by
        refine findIdx?_unique hx (by simp) fun j row hj hrow => ?_
        exact index_unique h.unique hj hx (of_decide_eq_true hrow)
      simp [cursor, hlast, beforeRowid, shown, setMetadata, hid, hfound]
  rw [listSessionOwnership_ok h hlimit hbefore, hrows]
  exact congrArg (fun rows => Except.ok (cut SessionOwnershipRecord.sessionId limit
    (rows.map fun x => s.shown x.1))) (filter_before i64Max hrows h.bounded)

end SessionStore

/-! ## Following the pages -/

open Store in
/-- **Page-following is lossless.** On a store that satisfies its invariants and with every limit
that is admitted, following the cursors of a listing to the end yields every item exactly once and
in order; at every point a next cursor is returned exactly if items are left over. -/
theorem page_following_lossless {s : Store} {sessions : SessionStore} {limit : Nat} (hs : s.Readable)
    (hsessions : sessions.Readable) (hlimit : validPageLimit limit = true) :
    (∃ items, Lossless (s.listRuns limit) (fun item => item.key.runId) items ∧
      items.Pairwise (fun a b => a.key.runId.uuid < b.key.runId.uuid) ∧
      ∀ run, (∃ item ∈ items, item.key.runId = run) ↔ (s.runs run).isSome = true) ∧
    (∀ session, ∃ items, Lossless (s.listSessionRuns session limit) (fun item => item.key.runId) items ∧
      (items.map fun item => item.key.runId).Nodup ∧
      ∀ run, (∃ item ∈ items, item.key.runId = run) ↔
        ∃ row, s.runs run = some row ∧ row.sessionId = session) ∧
    (∀ owner, Lossless (sessions.listSessionOwnership owner limit) SessionOwnershipRecord.sessionId
      (sessions.owned owner)) ∧
    ∃ items, Lossless (s.listWaiting limit) (fun item => (item.key.runId, item.waitId)) items ∧
      items.Pairwise (fun a b => waitOrder (a.key.runId, a.waitId) < waitOrder (b.key.runId, b.waitId)) ∧
      ∀ run wait, (∃ item ∈ items, item.key.runId = run ∧ item.waitId = wait) ↔
        ∃ row, s.approvals run wait = some row ∧ row.status ≠ .consumed := by
  have hpos := validPageLimit_pos hlimit
  refine ⟨⟨_, (listRuns_serves hs hlimit).lossless hpos, ?_, fun run => ?_⟩,
    fun session => ⟨_, (listSessionRuns_serves hs hlimit session).lossless hpos, ?_, fun run => ?_⟩,
    fun owner => (SessionStore.listSessionOwnership_serves hsessions hlimit).lossless hpos,
    ⟨_, (listWaiting_serves hs hlimit).lossless hpos, ?_, fun run wait => ?_⟩⟩
  · refine List.pairwise_map.mpr ((sortedRuns_pairwise hs.table).imp_of_mem fun ha hb hab => ?_)
    rwa [(sortedRuns_readable hs ha).summary_runId, (sortedRuns_readable hs hb).summary_runId]
  · constructor
    · rintro ⟨item, hitem, rfl⟩
      obtain ⟨x, hx, rfl⟩ := List.mem_map.mp hitem
      rw [(sortedRuns_readable hs hx).summary_runId, (mem_sortedRuns hs.table).mp hx]
      rfl
    · intro hrun
      obtain ⟨row, hrow⟩ := Option.isSome_iff_exists.mp hrun
      exact ⟨_, List.mem_map.mpr ⟨(run, row), (mem_sortedRuns hs.table).mpr hrow, rfl⟩,
        (hs.runs run row hrow).summary_runId⟩
  · have hids : (s.sessionRows session).map (fun x => (summary x.1.2 (startedAt x.1.2)).key.runId) =
        (s.sessionRows session).map fun x => x.1.1 :=
      List.map_congr_left fun x hx => (sessionRows_readable hs hx).summary_runId
    rw [List.map_map]
    exact hids ▸ sessionRows_nodup hs
  · constructor
    · rintro ⟨item, hitem, rfl⟩
      obtain ⟨x, hx, rfl⟩ := List.mem_map.mp hitem
      rw [(sessionRows_readable hs hx).summary_runId]
      obtain ⟨hindex, hsession⟩ := mem_sessionRows.mp hx
      exact ⟨x.1.2, (mem_runRows hs.table).mp (List.mem_of_getElem? hindex), hsession⟩
    · rintro ⟨row, hrow, hsession⟩
      obtain ⟨i, hi⟩ := List.mem_iff_getElem?.mp ((mem_runRows hs.table).mpr hrow)
      exact ⟨_, List.mem_map.mpr ⟨((run, row), i), mem_sessionRows.mpr ⟨hi, hsession⟩, rfl⟩,
        (hs.runs run row hrow).summary_runId⟩
  · exact List.pairwise_map.mpr (openWaits_pairwise hs)
  · constructor
    · rintro ⟨item, hitem, rfl, rfl⟩
      obtain ⟨x, hx, rfl⟩ := List.mem_map.mp hitem
      exact ⟨x.2, (mem_openWaits hs).mp hx⟩
    · rintro ⟨row, hrow⟩
      exact ⟨_, List.mem_map.mpr ⟨((run, wait), row), (mem_openWaits hs).mpr hrow, rfl⟩, rfl, rfl⟩

/-- A started run of the sample session. -/
def startedRow (run : Nat) : StoredRun where
  sessionId := ⟨2⟩
  record := .new ⟨⟨run⟩, ⟨2⟩⟩ sampleBudget .nonRestartable
  lastSequence := some 0
  terminal := false
  throughSequence := none
  checkpointSchemaVersion := currentCheckpointSchemaVersion
  checkpoint := .new (.initial (.new ⟨⟨run⟩, ⟨2⟩⟩ sampleBudget .nonRestartable))
  events := [.new ⟨run⟩ 0 (.runStarted 1000)]

/-- A started run of another session. -/
def foreignRow (run : Nat) : StoredRun :=
  { startedRow run with
    sessionId := ⟨9⟩
    record := .new ⟨⟨run⟩, ⟨9⟩⟩ sampleBudget .nonRestartable
    checkpoint := .new (.initial (.new ⟨⟨run⟩, ⟨9⟩⟩ sampleBudget .nonRestartable)) }

/-- A wait of a run of the sample session. -/
def mixedWait (run wait : Nat) (status : DurableApprovalStatus) : StoredApproval where
  sessionId := ⟨2⟩
  record :=
    { binding :=
        { key := ⟨⟨run⟩, ⟨2⟩⟩, programVersion := 1, graphDigest := 7#256, nodeId := ⟨"write"⟩,
          attemptId := ⟨3⟩, waitId := ⟨wait⟩, approvalRequestId := ⟨4⟩, actionProposalId := ⟨5⟩,
          toolCallId := ⟨6⟩, actionDigest := ⟨0#256⟩, workspaceBindingId := ⟨0⟩,
          toolContractDigest := ⟨0#256⟩, requester := none, capsuleVersion := localWriteCapsuleVersion }
      sealedAction := ⟨localWriteCapsuleVersion, "key", [0], [0]⟩
      status := .waiting
      rowVersion := 0
      decisionActor := none
      decisionTimestampUnixMillis := none }
  keyId := "key"
  nonce := [0]
  status := status
  rowVersion := 0

/-- Three runs in the order 5, 3, 7, of which 3 belongs to another session, with three waits, of which the
one in the middle is consumed. -/
def mixedRuns : Store :=
  { Store.empty with
    runs := fun run =>
      if run = ⟨5⟩ ∨ run = ⟨7⟩ then some (startedRow run.uuid)
      else if run = ⟨3⟩ then some (foreignRow 3) else none
    rowids := [⟨5⟩, ⟨3⟩, ⟨7⟩]
    approvals := fun run wait =>
      if (run, wait) = (⟨5⟩, ⟨1⟩) ∨ (run, wait) = (⟨7⟩, ⟨1⟩) then some (mixedWait run.uuid wait.uuid .waiting)
      else if (run, wait) = (⟨5⟩, ⟨2⟩) then some (mixedWait 5 2 .consumed) else none
    waits := [(⟨7⟩, ⟨1⟩), (⟨5⟩, ⟨2⟩), (⟨5⟩, ⟨1⟩)] }

/-- Four sessions, of which one belongs to another owner and one is archived. -/
def mixedSessions : SessionStore where
  rows := [(⟨1⟩, ⟨⟨1⟩, ⟨"p"⟩, none, false⟩), (⟨2⟩, ⟨⟨2⟩, ⟨"q"⟩, none, false⟩),
    (⟨3⟩, ⟨⟨3⟩, ⟨"p"⟩, none, false⟩), (⟨4⟩, ⟨⟨4⟩, ⟨"p"⟩, none, false⟩)]
  metadata session := if session = ⟨3⟩ then some ⟨some "old", true⟩ else none

theorem mixedRuns_readable : mixedRuns.Readable := by
  refine ⟨by decide, fun run => ?_, by decide, fun run row hrow => ?_, by decide, fun run wait => ?_,
    fun run wait row hrow => ?_⟩
  · by_cases h : run = ⟨5⟩ ∨ run = ⟨7⟩
    · rcases h with rfl | rfl <;> simp [mixedRuns]
    · by_cases h' : run = ⟨3⟩
      · simp [mixedRuns, h']
      · simp [mixedRuns, h', not_or.mp h]
  · simp only [mixedRuns] at hrow
    split at hrow
    · obtain rfl := Option.some.inj hrow
      refine ⟨rfl, rfl, rfl, ⟨rfl, rfl⟩, fun e he => ?_⟩
      obtain rfl := Option.some.inj he
      exact ⟨rfl, rfl, rfl⟩
    · split at hrow
      · rename_i hrun
        obtain rfl := Option.some.inj hrow
        refine ⟨by rw [hrun]; rfl, rfl, rfl, ⟨rfl, rfl⟩, fun e he => ?_⟩
        obtain rfl := Option.some.inj he
        exact ⟨rfl, hrun.symm, rfl⟩
      · cases hrow
  · simp only [mixedRuns]
    split
    · rename_i h
      rcases h with h | h <;> simp [h]
    · rename_i h
      split
      · rename_i h'
        simp [h']
      · rename_i h'
        simp only [not_or] at h
        simp [h.1, h.2, h']
  · simp only [mixedRuns] at hrow
    split at hrow
    · obtain rfl := Option.some.inj hrow
      exact ⟨Nat.zero_le _, (by decide +kernel : (mixedWait 0 0 .waiting).record.sealedAction.isValid = true),
        rfl, rfl, rfl, rfl⟩
    · split at hrow
      · rename_i heq
        obtain rfl := Option.some.inj hrow
        obtain ⟨rfl, rfl⟩ := Prod.mk.inj heq
        exact ⟨by decide, by decide +kernel, rfl, rfl, rfl, rfl⟩
      · cases hrow

theorem mixedSessions_readable : mixedSessions.Readable := by
  refine ⟨by decide, by decide, by decide, fun session m title hm htitle => ?_⟩
  simp only [mixedSessions] at hm
  split at hm
  · obtain rfl := Option.some.inj hm
    obtain rfl := Option.some.inj htitle
    decide +kernel
  · cases hm

/-- Pages of one item: the listings of a session, of an owner and of the waits pass over the rows in
between that do not belong to them. -/
theorem page_following_mixed :
    (∃ items, Lossless (mixedRuns.listRuns 1) (fun item => item.key.runId) items ∧
      ∃ item ∈ items, item.key.runId = ⟨3⟩) ∧
    (∃ items, Lossless (mixedRuns.listSessionRuns ⟨2⟩ 1) (fun item => item.key.runId) items ∧
      (∃ item ∈ items, item.key.runId = ⟨5⟩) ∧ (∃ item ∈ items, item.key.runId = ⟨7⟩) ∧
      ∀ item ∈ items, item.key.runId ≠ ⟨3⟩) ∧
    Lossless (mixedSessions.listSessionOwnership ⟨"p"⟩ 1) SessionOwnershipRecord.sessionId
      [⟨⟨4⟩, ⟨"p"⟩, none, false⟩, ⟨⟨1⟩, ⟨"p"⟩, none, false⟩] ∧
    ∃ items, Lossless (mixedRuns.listWaiting 1) (fun item => (item.key.runId, item.waitId)) items ∧
      (∃ item ∈ items, item.key.runId = ⟨5⟩ ∧ item.waitId = ⟨1⟩) ∧
      (∃ item ∈ items, item.key.runId = ⟨7⟩ ∧ item.waitId = ⟨1⟩) ∧
      ∀ item ∈ items, ¬ (item.key.runId = ⟨5⟩ ∧ item.waitId = ⟨2⟩) := by
  obtain ⟨⟨runs, hruns, -, hlisted⟩, hsessions, howners, waits, hwaits, -, hqueued⟩ :=
    @page_following_lossless mixedRuns mixedSessions 1 mixedRuns_readable mixedSessions_readable rfl
  obtain ⟨own, hown, -, hmember⟩ := hsessions ⟨2⟩
  refine ⟨⟨runs, hruns, (hlisted ⟨3⟩).mpr rfl⟩, ⟨own, hown, (hmember ⟨5⟩).mpr ⟨_, rfl, rfl⟩,
    (hmember ⟨7⟩).mpr ⟨_, rfl, rfl⟩, fun item hitem hrun => ?_⟩, howners ⟨"p"⟩,
    waits, hwaits, (hqueued ⟨5⟩ ⟨1⟩).mpr ⟨_, rfl, by decide⟩, (hqueued ⟨7⟩ ⟨1⟩).mpr ⟨_, rfl, by decide⟩,
    fun item hitem hwait => ?_⟩
  · obtain ⟨row, hrow, hsession⟩ := (hmember ⟨3⟩).mp ⟨item, hitem, hrun⟩
    obtain rfl : foreignRow 3 = row := Option.some.inj hrow
    cases hsession
  · obtain ⟨row, hrow, hopen⟩ := (hqueued ⟨5⟩ ⟨2⟩).mp ⟨item, hitem, hwait⟩
    obtain rfl : mixedWait 5 2 .consumed = row := Option.some.inj hrow
    exact hopen rfl

end LocalAgent
