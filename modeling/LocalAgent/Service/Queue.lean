import LocalAgent.Lib.Dialogue
import LocalAgent.Service.Runs
import LocalAgent.Store.Read

/-!
# The approver's queue (`agent-service/src/lib.rs:1273-1312`)

`waiting_page` takes a page of open waits from the store and leaves out those whose preview the
principal may not read. The items of all pages are then the waits that it may read, whatever else the
store holds. But the cursor of a page is that of its last row, also when that row is left out.
-/
namespace LocalAgent

open Program Store Paging

/-- `ServiceAuthorizationPolicy::authorize`. -/
abbrev ServicePolicy := PrincipalId → AuthorizationAction → AuthorizationResource → Bool

section

variable (s : Store) (policy : ServicePolicy) (principal : PrincipalId)

/-- The ports read this store. -/
def StoreReads : Environment ServiceAnswer Unit := fun _ r a _ =>
  match r, a with
  | .authorize principal action resource, a => a = policy principal action resource
  | .findRun key, a => a = s.findRun key
  | .listWaiting after limit, a => a = s.listWaiting limit after
  | _, _ => True

/-- `waiting_page` answers this. -/
def ShowsPage (limit : Nat) (after : Option WaitingPageCursor)
    (y : Except ServiceError (List WaitingApprovalView × Option WaitingPageCursor)) : Prop :=
  ∃ d, (waitingPage principal after limit ()).Returns d (y, ()) ∧ Follows (StoreReads s policy) () d ()

/-- Following the cursors of `waiting_page`: the items, and the cursors on the way. -/
inductive Queue (limit : Nat) : Option WaitingPageCursor → List WaitingApprovalView →
    List WaitingPageCursor → Prop
  | last {after items} (page : ShowsPage s policy principal limit after (.ok (items, none))) :
      Queue limit after items []
  | more {after cursor items rest cursors}
      (page : ShowsPage s policy principal limit after (.ok (items, some cursor)))
      (queue : Queue limit (some cursor) rest cursors) : Queue limit after (items ++ rest) (cursor :: cursors)

/-- The preview of the waits of a run is granted. -/
def previewGranted (key : RunKey) : Bool :=
  match runAuthorization (s.findRun key) with
  | .error _ => false
  | .ok authorization => policy principal .readApprovalPreview
      (.approval authorization.workflowId authorization.owner authorization.requester)

/-- A run whose preview the principal may read. -/
def MayRead (run : RunId) : Prop := ∃ session, previewGranted s policy principal ⟨run, session⟩ = true

/-- An item, if its preview is granted. -/
def shownItem (item : DurableWaitingSummary) : Option WaitingApprovalView :=
  if previewGranted s policy principal item.key then
    some ⟨item.key.sessionId, item.key.runId, item.waitId, item.rowVersion, waitingState item.status⟩
  else none

/-- The waits that the principal may read. -/
def shownWaits : List WaitingApprovalView :=
  (s.openWaits.map waitingSummary).filterMap (shownItem s policy principal)

/-- A page, as `waiting_page` computes it. -/
def shownPage (limit : Nat) (after : Option WaitingPageCursor) :
    Except ServiceError (Page WaitingApprovalView WaitingPageCursor) :=
  if !validPageLimit limit then .error .invalidRequest
  else if policy principal .listWaiting .global then
    match s.listWaiting limit after with
    | .error e => .error (.persistence e)
    | .ok page => .ok ⟨page.items.filterMap (shownItem s policy principal), page.next⟩
  else .error .unauthorized

end

/-! ## A page -/

variable {s : Store} {policy : ServicePolicy} {principal : PrincipalId} {limit : Nat}

/-- A method has one result on a store. -/
def Answers {α : Type} (s : Store) (policy : ServicePolicy) (m : ServiceM α) (x : Except ServiceError α) :
    Prop :=
  m.wlp (StoreReads s policy) (fun y _ _ => y = x) () () ∧
    ∃ d, (m ()).Returns d (x, ()) ∧ Follows (StoreReads s policy) () d ()

section Rules

variable {α β : Type} {m : ServiceM α} {f : α → ServiceM β} {y : Except ServiceError β}

theorem Answers.pure {a : α} : Answers s policy (pure a) (.ok a) := ⟨rfl, [], .pure _, .nil _⟩

theorem Answers.fail {e : ServiceError} : Answers s policy (Task.fail e : ServiceM α) (.error e) :=
  ⟨rfl, [], .pure _, .nil _⟩

theorem Answers.ofExcept {x : Except ServiceError α} : Answers s policy (Task.ofExcept x) x :=
  ⟨rfl, [], .pure _, .nil _⟩

theorem Answers.ask {r : ServiceRequest} {a : ServiceAnswer r} {f : ServiceAnswer r → ServiceM β}
    (hone : ∀ b, StoreReads s policy () r b () ↔ b = a) (hf : Answers s policy (f a) y) :
    Answers s policy (await r >>= f) y := by
  obtain ⟨hwlp, d, hret, hd⟩ := hf
  refine ⟨Task.wlp_ask_bind.mpr fun b w hb => ?_, ⟨r, a⟩ :: d, ?_, .cons ((hone a).mpr rfl) hd⟩
  · rw [(hone b).mp hb]
    exact hwlp
  · exact Task.returns_ask_bind_iff.mpr ⟨a, d, rfl, hret⟩

theorem Answers.bind {a : α} (hm : Answers s policy m (.ok a)) (hf : Answers s policy (f a) y) :
    Answers s policy (m >>= f) y := by
  obtain ⟨hwlp, d, hret, hd⟩ := hm
  obtain ⟨hwlp', d', hret', hd'⟩ := hf
  refine ⟨Task.wlp_bind.mpr (Task.wlp_mono hwlp fun x u w hx => ?_), d ++ d', ?_, hd.append hd'⟩
  · subst hx
    exact hwlp'
  · exact Task.returns_bind_iff.mpr ⟨d, d', _, _, rfl, hret, hret'⟩

theorem Answers.attempt {x : Except ServiceError α} (h : Answers s policy m x) :
    Answers s policy m.attempt (.ok x) := by
  obtain ⟨hwlp, d, hret, hd⟩ := h
  refine ⟨Task.wlp_attempt.mpr (Task.wlp_mono hwlp fun y u w hy => by rw [hy]), d, ?_, hd⟩
  exact Task.returns_attempt_iff.mpr ⟨x, rfl, hret⟩

theorem Answers.iff {x : Except ServiceError α} (h : Answers s policy m x) {y : Except ServiceError α} :
    (∃ d, (m ()).Returns d (y, ()) ∧ Follows (StoreReads s policy) () d ()) ↔ y = x := by
  obtain ⟨hwlp, d, hret, hd⟩ := h
  constructor
  · rintro ⟨d', hret', hd'⟩
    exact Task.wlp_returns (Q := fun y _ _ => y = x) hwlp hret' hd'
  · rintro rfl
    exact ⟨d, hret, hd⟩

end Rules

theorem runAuthorizationOf_answers {key : RunKey} :
    Answers s policy (runAuthorizationOf key) (runAuthorization (s.findRun key)) :=
  .ask (fun _ => Iff.rfl) .ofExcept

theorem waitingItem_answers {item : DurableWaitingSummary} :
    Answers s policy (waitingItem principal item) (.ok (shownItem s policy principal item)) := by
  refine .bind (.attempt runAuthorizationOf_answers) ?_
  cases hauthorization : runAuthorization (s.findRun item.key) with
  | error e =>
    have hnot : previewGranted s policy principal item.key = false := by
      unfold previewGranted
      rw [hauthorization]
    rw [shownItem, hnot]
    exact .pure
  | ok authorization =>
    refine .ask (fun _ => Iff.rfl) ?_
    have hsame : previewGranted s policy principal item.key = policy principal .readApprovalPreview
        (.approval authorization.workflowId authorization.owner authorization.requester) := by
      unfold previewGranted
      rw [hauthorization]
    rw [shownItem, hsame]
    split
    · exact .pure
    · exact .pure

theorem waitingItems_answers {items : List DurableWaitingSummary} :
    Answers s policy (waitingItems principal items) (.ok (items.filterMap (shownItem s policy principal))) := by
  induction items with
  | nil => exact .pure
  | cons item rest ih =>
    refine .bind waitingItem_answers (.bind ih ?_)
    have hcons : (item :: rest).filterMap (shownItem s policy principal) =
        (shownItem s policy principal item).toList ++ rest.filterMap (shownItem s policy principal) := by
      rw [List.filterMap_cons]
      cases shownItem s policy principal item <;> rfl
    rw [hcons]
    exact .pure

theorem waitingPage_answers {after : Option WaitingPageCursor} :
    Answers s policy (waitingPage principal after limit)
      ((shownPage s policy principal limit after).map fun page => (page.items, page.next)) := by
  unfold waitingPage shownPage
  split
  · exact .fail
  · refine .ask (fun _ => Iff.rfl) ?_
    split
    · refine .ask (fun _ => Iff.rfl) ?_
      cases s.listWaiting limit after with
      | error e => exact .fail
      | ok page => exact .bind waitingItems_answers .pure
    · exact .fail

theorem showsPage_iff {after : Option WaitingPageCursor} {items : List WaitingApprovalView}
    {next : Option WaitingPageCursor} :
    ShowsPage s policy principal limit after (.ok (items, next)) ↔
      shownPage s policy principal limit after = .ok ⟨items, next⟩ := by
  refine waitingPage_answers.iff.trans ?_
  cases shownPage s policy principal limit after with
  | error e => simp [Except.map]
  | ok page =>
    obtain ⟨items', next'⟩ := page
    simp [Except.map, eq_comm]

/-! ## All pages -/

theorem queue_iff_trail {after : Option WaitingPageCursor} {items : List WaitingApprovalView}
    {cursors : List WaitingPageCursor} :
    Queue s policy principal limit after items cursors ↔
      Trail (shownPage s policy principal limit) after items cursors := by
  constructor
  · intro h
    induction h with
    | last page => exact .last (showsPage_iff.mp page)
    | more page _ ih => exact .more (showsPage_iff.mp page) ih
  · intro h
    induction h with
    | last page => exact .last (showsPage_iff.mpr page)
    | more page _ ih => exact .more (showsPage_iff.mpr page) ih

/-- The queue of a principal that may list: what it may read, with the cursors of the rows that end a
page. -/
theorem queue_exists (hs : s.Readable) (hlist : policy principal .listWaiting .global = true)
    (hlimit : validPageLimit limit = true) :
    ∃ cursors, Queue s policy principal limit none (shownWaits s policy principal) cursors ∧
      ∀ c, c ∈ cursors ↔ ∃ x, EndsPage limit s.openWaits x ∧ x.1 = c := by
  have hpos : 0 < limit := by
    unfold validPageLimit at hlimit
    simp only [Bool.not_eq_true', Bool.or_eq_false_iff, decide_eq_false_iff_not] at hlimit
    omega
  obtain ⟨cursors, htrail, hcursors⟩ := (listWaiting_serves hs hlimit).trail hpos
  refine ⟨cursors, queue_iff_trail.mpr (htrail.filterMap fun after page hpage => ?_), fun c => ?_⟩
  · simp [shownPage, hlimit, hlist, hpage]
  · rw [hcursors]
    simp only [EndsPage.map]
    constructor
    · rintro ⟨item, ⟨x, hx, rfl⟩, rfl⟩
      exact ⟨x, hx, rfl⟩
    · rintro ⟨x, hx, rfl⟩
      exact ⟨_, ⟨x, hx, rfl⟩, rfl⟩

/-- Without the right to list, or with an invalid limit, there is no page. -/
theorem queue_granted {after : Option WaitingPageCursor} {items : List WaitingApprovalView}
    {cursors : List WaitingPageCursor} (h : Queue s policy principal limit after items cursors) :
    policy principal .listWaiting .global = true ∧ validPageLimit limit = true := by
  have hpage : ∃ page, shownPage s policy principal limit after = .ok page := by
    cases queue_iff_trail.mp h with
    | last page => exact ⟨_, page⟩
    | more page _ => exact ⟨_, page⟩
  obtain ⟨page, hpage⟩ := hpage
  unfold shownPage at hpage
  split at hpage
  · cases hpage
  · next hlimit =>
    split at hpage
    · next hlist => exact ⟨hlist, by simpa using hlimit⟩
    · cases hpage

theorem queue_items (hs : s.Readable) {items : List WaitingApprovalView} {cursors : List WaitingPageCursor}
    (h : Queue s policy principal limit none items cursors) :
    items = shownWaits s policy principal ∧
      ∀ c, c ∈ cursors ↔ ∃ x, EndsPage limit s.openWaits x ∧ x.1 = c := by
  obtain ⟨hlist, hlimit⟩ := queue_granted h
  obtain ⟨cursors', hqueue, hcursors⟩ := queue_exists hs hlist hlimit
  obtain ⟨rfl, rfl⟩ := (queue_iff_trail.mp h).unique (queue_iff_trail.mp hqueue)
  exact ⟨rfl, hcursors⟩

/-- The waits are shown in the order of their keys. -/
theorem shownWaits_pairwise (hs : s.Readable) :
    (shownWaits s policy principal).Pairwise fun a b =>
      waitOrder (a.runId, a.waitId) < waitOrder (b.runId, b.waitId) := by
  have hkey : ∀ {item v}, shownItem s policy principal item = some v →
      (v.runId, v.waitId) = (item.key.runId, item.waitId) := by
    intro item v hv
    unfold shownItem at hv
    split at hv
    · obtain rfl := Option.some.inj hv
      rfl
    · cases hv
  have hrows : (s.openWaits.map waitingSummary).Pairwise fun a b =>
      waitOrder (a.key.runId, a.waitId) < waitOrder (b.key.runId, b.waitId) :=
    List.pairwise_map.mpr (openWaits_pairwise hs)
  refine hrows.filterMap _ fun a b hab v hv w hw => ?_
  rw [hkey hv, hkey hw]
  exact hab

/-- **What a principal may read determines what it is shown.** -/
theorem shownWaits_eq {s' : Store} (hs : s.Readable) (hs' : s'.Readable)
    (hsame : ∀ v, v ∈ shownWaits s policy principal ↔ v ∈ shownWaits s' policy principal) :
    shownWaits s policy principal = shownWaits s' policy principal := by
  have horder : (shownWaits s policy principal).Pairwise _ := shownWaits_pairwise hs
  have horder' : (shownWaits s' policy principal).Pairwise _ := shownWaits_pairwise hs'
  have hnodup : ∀ {l : List WaitingApprovalView}, (l.Pairwise fun a b =>
      waitOrder (a.runId, a.waitId) < waitOrder (b.runId, b.waitId)) → l.Nodup := by
    refine fun h => h.imp fun hab heq => ?_
    rw [heq] at hab
    exact lt_irrefl _ hab
  have hperm := (List.perm_ext_iff_of_nodup (hnodup horder) (hnodup horder')).mpr hsame
  exact hperm.eq_of_pairwise (fun _ _ _ _ hab hba => absurd hba (lt_asymm hab)) horder horder'

/-- A wait that is shown may be read. -/
theorem mayRead_of_shown {v : WaitingApprovalView} (h : v ∈ shownWaits s policy principal) :
    MayRead s policy principal v.runId := by
  obtain ⟨item, -, hitem⟩ := List.mem_filterMap.mp h
  unfold shownItem at hitem
  split at hitem
  · next hgranted =>
    obtain rfl := Option.some.inj hitem
    exact ⟨item.key.sessionId, hgranted⟩
  · cases hitem

/-! ## What the queue reveals -/

/-- The queue reveals only what the principal may read. -/
structure Discreet (s : Store) (policy : ServicePolicy) (principal : PrincipalId) (limit : Nat) : Prop where
  /-- A principal that may list comes to the end. -/
  follows : policy principal .listWaiting .global = true → validPageLimit limit = true →
    ∃ items cursors, Queue s policy principal limit none items cursors
  /-- Every store in which it may read the same waits gives it the same items. -/
  same : ∀ items cursors s' items' cursors', Queue s policy principal limit none items cursors →
    s'.Readable → (∀ v, v ∈ shownWaits s policy principal ↔ v ∈ shownWaits s' policy principal) →
    Queue s' policy principal limit none items' cursors' → items = items'
  /-- No other run appears. -/
  reveals : ∀ items cursors, Queue s policy principal limit none items cursors →
    (∀ v ∈ items, MayRead s policy principal v.runId) ∧ ∀ c ∈ cursors, MayRead s policy principal c.1

/-- **The queue is discreet exactly if no page ends in a row that is left out**, up to the last page. -/
theorem queue_discreet_iff (hs : s.Readable) :
    Discreet s policy principal limit ↔
      (policy principal .listWaiting .global = true → validPageLimit limit = true →
        ∀ x, EndsPage limit s.openWaits x → MayRead s policy principal x.1.1) := by
  constructor
  · intro h hlist hlimit x hx
    obtain ⟨cursors, hqueue, hcursors⟩ := queue_exists hs hlist hlimit
    exact (h.reveals _ _ hqueue).2 x.1 ((hcursors x.1).mpr ⟨x, hx, rfl⟩)
  · intro h
    refine ⟨fun hlist hlimit => ?_, fun items cursors s' items' cursors' hqueue hs' hsame hqueue' => ?_,
      fun items cursors hqueue => ?_⟩
    · obtain ⟨cursors, hqueue, -⟩ := queue_exists hs hlist hlimit
      exact ⟨_, cursors, hqueue⟩
    · rw [(queue_items hs hqueue).1, (queue_items hs' hqueue').1]
      exact shownWaits_eq hs hs' hsame
    · obtain ⟨hlist, hlimit⟩ := queue_granted hqueue
      obtain ⟨rfl, hcursors⟩ := queue_items hs hqueue
      refine ⟨fun v hv => mayRead_of_shown hv, fun c hc => ?_⟩
      obtain ⟨x, hx, rfl⟩ := (hcursors c).mp hc
      exact h hlist hlimit x hx

/-! ## Two waits -/

/-- A run of the sample session that was requested by this principal. -/
def requestedRow (run : Nat) (requester : PrincipalId) : StoredRun :=
  { startedRow run with
    record := { (startedRow run).record with authorization := some ⟨requester, requester, "w", 1, 0⟩ } }

/-- Its wait. -/
def waitRow (run : Nat) (requester : PrincipalId) : StoredApproval where
  sessionId := ⟨2⟩
  record := .new
    { key := ⟨⟨run⟩, ⟨2⟩⟩
      programVersion := 1
      graphDigest := 0
      nodeId := ⟨"n"⟩
      attemptId := ⟨1⟩
      waitId := ⟨run⟩
      approvalRequestId := ⟨1⟩
      actionProposalId := ⟨1⟩
      toolCallId := ⟨1⟩
      actionDigest := ⟨0⟩
      workspaceBindingId := ⟨1⟩
      toolContractDigest := ⟨0⟩
      requester := some requester
      capsuleVersion := 1 } ⟨1, "k", [UInt8.ofNat run], [1]⟩
  keyId := "k"
  nonce := [UInt8.ofNat run]
  status := .waiting
  rowVersion := 0

/-- Who has requested a run. -/
def requesterOf (run : RunId) : PrincipalId := if run = ⟨3⟩ then ⟨"p"⟩ else ⟨"q"⟩

/-- The runs 3 of `p` and 5 of `q` wait. -/
def twoWaits : Store :=
  { Store.empty with
    runs := fun run => if run = ⟨5⟩ ∨ run = ⟨3⟩ then some (requestedRow run.uuid (requesterOf run)) else none
    rowids := [⟨5⟩, ⟨3⟩]
    approvals := fun run wait =>
      if (run = ⟨5⟩ ∨ run = ⟨3⟩) ∧ wait = ⟨run.uuid⟩ then some (waitRow run.uuid (requesterOf run)) else none
    waits := [(⟨5⟩, ⟨5⟩), (⟨3⟩, ⟨3⟩)] }

/-- Nobody reads the previews of what it has requested itself. -/
def separated : ServicePolicy := fun principal action resource =>
  match action, resource with
  | .listWaiting, .global => true
  | .readApprovalPreview, .approval _ _ requester => requester ≠ principal
  | _, _ => false

theorem twoWaits_readable : twoWaits.Readable := by
  have hpair : ∀ {run row}, twoWaits.runs run = some row →
      row = requestedRow run.uuid (requesterOf run) := by
    intro run row hrow
    by_cases h : run = ⟨5⟩ ∨ run = ⟨3⟩
    · simpa [twoWaits, h, eq_comm] using hrow
    · simp [twoWaits, h] at hrow
  have hwait : ∀ {run wait row}, twoWaits.approvals run wait = some row →
      (run = ⟨5⟩ ∨ run = ⟨3⟩) ∧ wait = ⟨run.uuid⟩ ∧ row = waitRow run.uuid (requesterOf run) := by
    intro run wait row hrow
    by_cases h : (run = ⟨5⟩ ∨ run = ⟨3⟩) ∧ wait = ⟨run.uuid⟩
    · exact ⟨h.1, h.2, by simpa [twoWaits, h, eq_comm] using hrow⟩
    · simp [twoWaits, h] at hrow
  refine ⟨by decide, fun run => ?_, by decide, fun run row hrow => ?_, by decide, fun run wait => ?_,
    fun run wait row hrow => ?_⟩
  · by_cases h : run = ⟨5⟩ ∨ run = ⟨3⟩ <;> simp [twoWaits, h]
  · obtain rfl := hpair hrow
    refine ⟨rfl, rfl, rfl, ⟨rfl, rfl⟩, fun e he => ?_⟩
    obtain rfl := Option.some.inj he
    exact ⟨rfl, rfl, rfl⟩
  · by_cases h : (run = ⟨5⟩ ∨ run = ⟨3⟩) ∧ wait = ⟨run.uuid⟩
    · obtain ⟨rfl | rfl, rfl⟩ := h <;> simp [twoWaits]
    · have hnot : (run, wait) ∉ twoWaits.waits := by
        intro hmem
        simp only [twoWaits, List.mem_cons, Prod.mk.injEq, List.not_mem_nil, or_false] at hmem
        obtain ⟨rfl, rfl⟩ | ⟨rfl, rfl⟩ := hmem <;> simp at h
      have hnone : twoWaits.approvals run wait = none := if_neg h
      simp [hnone, hnot]
  · obtain ⟨h | h, rfl, rfl⟩ := hwait hrow <;> subst h
    · exact ⟨by decide, by decide +kernel, rfl, rfl, rfl, rfl⟩
    · exact ⟨by decide, by decide +kernel, rfl, rfl, rfl, rfl⟩

theorem twoWaits_open : twoWaits.openWaits.map Prod.fst = [(⟨3⟩, ⟨3⟩), (⟨5⟩, ⟨5⟩)] := by
  decide +kernel

/-- The principal `r` reads both previews, and its queue is discreet. -/
theorem reviewer_queue_discreet : Discreet twoWaits separated ⟨"r"⟩ 1 := by
  refine (queue_discreet_iff twoWaits_readable).mpr fun _ _ x hx => ?_
  obtain ⟨k, -, hrow⟩ := hx
  have hmem : x.1 ∈ twoWaits.openWaits.map Prod.fst := List.mem_map_of_mem (List.mem_of_getElem? hrow)
  rw [twoWaits_open] at hmem
  simp only [List.mem_cons, List.not_mem_nil, or_false] at hmem
  rcases hmem with h | h <;> rw [h] <;> exact ⟨⟨2⟩, by decide +kernel⟩

/-- **The cursor tells `p` of its own run**, whose preview it may not read. -/
theorem requester_sees_cursor : ¬ Discreet twoWaits separated ⟨"p"⟩ 1 := by
  intro h
  obtain ⟨cursors, hqueue, hcursors⟩ : ∃ cursors,
      Queue twoWaits separated ⟨"p"⟩ 1 none (shownWaits twoWaits separated ⟨"p"⟩) cursors ∧
        ∀ c, c ∈ cursors ↔ ∃ x, EndsPage 1 twoWaits.openWaits x ∧ x.1 = c :=
    queue_exists twoWaits_readable rfl rfl
  have hends : EndsPage 1 (twoWaits.openWaits.map Prod.fst) (⟨3⟩, ⟨3⟩) := by
    rw [twoWaits_open]
    exact ⟨0, by decide, rfl⟩
  obtain ⟨session, hgranted⟩ := (h.reveals _ _ hqueue).2 _ ((hcursors _).mpr (EndsPage.map.mp hends))
  by_cases hsession : session = ⟨2⟩
  · subst hsession
    revert hgranted
    decide +kernel
  · have hfind : twoWaits.findRun ⟨⟨3⟩, session⟩ = .error .corrupt := by
      unfold findRun
      have hrow : twoWaits.runs ⟨3⟩ = some (requestedRow 3 ⟨"p"⟩) := rfl
      rw [hrow]
      exact if_pos fun h : (requestedRow 3 ⟨"p"⟩).sessionId = session => hsession h.symm
    simp [previewGranted, runAuthorization, hfind] at hgranted

end LocalAgent
