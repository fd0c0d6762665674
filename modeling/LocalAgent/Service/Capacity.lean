import LocalAgent.Service.Mutations

/-!
# The number of sessions (`agent-service/src/lib.rs:690-722, 1558-1580`)

`create_session` counts the sessions in one section and inserts the new one in another, and
`discover_runs` inserts without counting. So the set can outgrow `MAX_SESSIONS`
(`two_sessions_overfill`). It does not as long as every session that is let in finds room beside the
sessions that are there and those that are on their way (`sessions_within_capacity`).
-/
namespace LocalAgent

open Program

variable {svc : AgentService}

/-! ## Sessions on their way -/

/-- One event of the run. -/
def insertingStep (pids : List Nat) : svc.deployed.Event → List Nat
  | .did pid .sessionCount count => if count < maxSessions then pids.insert pid else pids
  | .did pid (.insertSession _) _ => pids.erase pid
  | .returned pid _ | .dropped pid => pids.erase pid
  | .restarted => []
  | _ => pids

/-- The calls of `create_session` that have passed the check, and have not inserted their session. -/
def inserting (history : List svc.deployed.Event) : List Nat := history.foldl insertingStep []

theorem inserting_concat {history : List svc.deployed.Event} {e : svc.deployed.Event} :
    inserting (history ++ [e]) = insertingStep (inserting history) e := by
  unfold inserting
  rw [List.foldl_append, List.foldl_cons, List.foldl_nil]

/-- There is room for one more. -/
def HasRoom (s : svc.deployed.State) : Prop :=
  s.world.sessions.length + (inserting s.history).length < maxSessions

/-- A session that is let in finds room: when `create_session` counts, and when `discover_runs` inserts
one that is not there yet. -/
def FindsRoom (s : svc.deployed.State) : svc.deployed.Event → Prop
  | .did _ .sessionCount count => count < maxSessions → HasRoom s
  | .did pid (.insertSession session) _ =>
    (∃ prog, s.procs pid = some ⟨.call .discoverRuns, prog⟩) → session ∈ s.world.sessions ∨ HasRoom s
  | _ => True

/-! ## Who inserts -/

structure CountView where
  /-- The call is `discover_runs`. -/
  discovers : Bool := false
  /-- The check is passed. -/
  checked : Bool := false
deriving Inhabited

/-- A session is inserted by `discover_runs`, or by a call that has counted. -/
@[reducible] def counting (svc : AgentService) : Runtime.Discipline svc.deployed where
  View := CountView
  permits v
    | .insertSession _ => v.checked = true ∨ v.discovers = true
    | _ => True
  observe v
    | .sessionCount, count => { v with checked := count < maxSessions }
    | .insertSession _, _ => { v with checked := false }
    | _, _ => v
  fresh
    | .discoverRuns => { discovers := true }
    | _ => {}
  heir _ _ := {}
  Returns _ _ := True

/-- The requests that concern the size of the set. -/
def ServiceRequest.counts : ServiceRequest → Bool
  | .sessionCount | .insertSession _ => true
  | _ => false

theorem ServiceRequest.counts_of_inner {r : ServiceRequest} (h : r.inner = true) : r.counts = false := by
  cases r with
  | sessionCount => cases h
  | insertSession session => cases h
  | _ => rfl

section Commands

variable {principal : PrincipalId} {key : RunKey} {session : SessionId} {input : List UInt8}
  {action : AuthorizationAction} {resource : AuthorizationResource} {waitId : Option DurableApprovalWaitId}

/-- The method does not look at the size of the set. -/
abbrev Uncounted {α : Type} (m : ServiceM α) : Prop := m.Only fun r => r.counts = false

theorem auditSecurity_uncounted {phase : SecurityAuditPhase} {key : Option RunKey} :
    Uncounted (auditSecurity principal action phase key waitId) := .bind (.ask rfl) fun _ => .ite .pure .fail

theorem authorizeMutation_uncounted {key : Option RunKey} :
    Uncounted (authorizeMutation principal action resource key waitId) := by
  refine .bind (.ask rfl) fun granted => .ite ?_ .fail
  exact .bind auditSecurity_uncounted fun _ => auditSecurity_uncounted

theorem auditMutationResult_uncounted {α : Type} {key : Option RunKey} {result : Except ServiceError α} :
    Uncounted (auditMutationResult principal action key waitId result) :=
  auditMutationResult_only fun _ hr => ServiceRequest.counts_of_inner (ServiceRequest.inner_of_settles hr)

theorem startRun_uncounted {request : Nat} {workflowId : WorkflowId} :
    Uncounted (svc.startRun principal session request workflowId input) := by
  refine .bind (ensureServing_only rfl) fun _ => .ite .fail ?_
  refine .bind (loadSession_only rfl) fun record => .ite .fail ?_
  refine .bind authorizeMutation_uncounted fun _ => ?_
  cases svc.workflow? workflowId with
  | none => exact .fail
  | some workflow =>
    refine .ite .fail (.bind (.ask rfl) fun reservation => ?_)
    cases reservation with
    | existing run => exact .pure
    | refused e => exact .fail
    | reserved => exact startReserved_only fun _ => ServiceRequest.counts_of_inner

theorem resumeRun_uncounted : Uncounted (svc.resumeRun principal key waitId) := by
  refine .bind (ensureServing_only rfl) fun _ => .bind (runAuthorizationOf_only rfl) fun _ => ?_
  refine .bind authorizeMutation_uncounted fun _ => .bind (recoverRunOf_only fun _ => rfl) fun recovered => ?_
  cases recovered with
  | error e => exact .fail
  | ok disposition =>
    refine .bind .ofExcept fun workflowId => .bind (.ask rfl) fun reservation => ?_
    cases reservation with
    | existing run => exact .fail
    | refused e => exact .fail
    | reserved => exact .bind (.ask rfl) fun _ => auditMutationResult_uncounted

theorem cancelActiveRun_uncounted : Uncounted (cancelActiveRun principal key) := by
  refine .bind (runAuthorizationOf_only rfl) fun _ => .bind authorizeMutation_uncounted fun _ => ?_
  refine .bind (.ask rfl) fun slot => ?_
  cases slot with
  | none => exact .fail
  | some slot => exact .ite .fail (.bind (.ask rfl) fun _ => auditMutationResult_uncounted)

theorem archiveConversation_uncounted : Uncounted (archiveConversation svc principal session) := by
  refine .bind (ensureServing_only rfl) fun _ => .bind (loadSession_only rfl) fun record => .ite .fail ?_
  refine .bind authorizeMutation_uncounted fun _ => ?_
  refine .bind (.ask rfl) fun slot => .ite auditMutationResult_uncounted ?_
  refine .bind (.ask rfl) fun listed => ?_
  cases listed with
  | error e => exact .fail
  | ok runs =>
    refine .bind (latestDisposition_only fun _ => ServiceRequest.counts_of_inner) fun latest => ?_
    refine .ite auditMutationResult_uncounted (.bind (.ask rfl) fun archived => ?_)
    exact .bind auditMutationResult_uncounted fun _ => .ask rfl

theorem submitDecision_uncounted {wait : DurableApprovalWaitId} {version : Nat}
    {outcome : DurableApprovalOutcome} :
    Uncounted (submitDecision svc principal key wait version outcome) := by
  refine .bind (ensureServing_only rfl) fun _ => .bind (runAuthorizationOf_only rfl) fun _ => ?_
  refine .bind authorizeMutation_uncounted fun _ => .bind (.ask rfl) fun now => ?_
  cases now with
  | none => exact .fail
  | some decidedAt => exact .bind (onHarnessM_only fun _ => rfl) fun _ => auditMutationResult_uncounted

theorem abortWaiting_uncounted {wait : DurableApprovalWaitId} {version : Nat} :
    Uncounted (abortWaiting svc principal key wait version) := by
  refine .bind (ensureServing_only rfl) fun _ => .bind (runAuthorizationOf_only rfl) fun _ => ?_
  refine .bind authorizeMutation_uncounted fun _ => ?_
  exact .bind (onHarnessM_only fun _ => rfl) fun _ => auditMutationResult_uncounted

theorem waitingItem_uncounted {item : DurableWaitingSummary} : Uncounted (waitingItem principal item) := by
  refine .bind (.attempt (runAuthorizationOf_only rfl)) fun authorization => ?_
  cases authorization with
  | error e => exact .pure
  | ok authorization => exact .bind (.ask rfl) fun _ => .ite .pure .pure

theorem waitingItems_uncounted {items : List DurableWaitingSummary} :
    Uncounted (waitingItems principal items) := by
  induction items with
  | nil => exact .pure
  | cons item rest ih => exact .bind waitingItem_uncounted fun _ => .bind ih fun _ => .pure

theorem waitingPage_uncounted {after : Option WaitingPageCursor} {limit : Nat} :
    Uncounted (waitingPage principal after limit) := by
  refine .ite .fail (.bind (.ask rfl) fun granted => .ite (.bind (.ask rfl) fun listed => ?_) .fail)
  cases listed with
  | error e => exact .fail
  | ok page => exact .bind waitingItems_uncounted fun _ => .pure

theorem drain_uncounted : Uncounted drain := by
  refine .bind (.ask rfl) fun _ => .bind (.ask rfl) fun _ => .bind (.ask rfl) fun _ => ?_
  exact .bind (.ask rfl) fun _ => .ite (.bind (.ask rfl) fun _ => .ite .fail .pure) .fail

theorem WorkflowTask.body_uncounted {task : WorkflowTask} : Uncounted (task.body svc) := by
  have hcomplete : Uncounted task.complete := by
    unfold WorkflowTask.complete
    split
    · exact .pure
    · exact .ask rfl
    · exact .ask rfl
    · exact .ask rfl
    · exact .pure
  have hstore : ∀ completion, Uncounted (storeCompletion task.key completion) := by
    intro completion
    unfold storeCompletion
    split
    · exact .ask rfl
    · exact .pure
  refine .bind hcomplete fun completion => .bind (hstore completion) fun _ => ?_
  exact .bind (recoverRunOf_only fun _ => rfl) fun _ => .ask rfl

/-- What does not look at the set leaves the view as it is. -/
theorem Uncounted.wp {α : Type} {m : ServiceM α} {v : CountView} (h : Uncounted m) :
    m.wp (counting svc).toMonitor (fun _ _ v' => v' = v) () v := by
  refine (h ()).wp (fun v' r hv hr => ?_) rfl
  subst hv
  cases r with
  | sessionCount => cases hr
  | insertSession session => cases hr
  | _ => exact ⟨trivial, fun _ => rfl⟩

theorem Uncounted.bind {α β : Type} {m : ServiceM α} {f : α → ServiceM β} {v : CountView} (h : Uncounted m)
    (hf : ∀ a, (f a).wp (counting svc).toMonitor (fun _ _ _ => True) () v) :
    Task.wp (counting svc).toMonitor (m >>= f) (fun _ _ _ => True) () v := by
  refine Task.wp_bind.mpr (Task.wp_mono h.wp fun x _ v' hv => ?_)
  subst hv
  cases x with
  | ok a => exact hf a
  | error e => trivial

/-- `create_session` inserts after it has counted. -/
theorem createSession_counting {v : CountView} :
    (createSession principal).wp (counting svc).toMonitor (fun _ _ _ => True) () v := by
  refine Uncounted.bind (ensureServing_only rfl) fun _ => Uncounted.bind authorizeMutation_uncounted fun _ => ?_
  refine Task.wp_ask_bind.mpr ⟨trivial, fun count => ?_⟩
  by_cases hcount : count ≥ maxSessions
  · rw [if_pos hcount]
    trivial
  · rw [if_neg hcount]
    refine Task.wp_ask_bind.mpr ⟨trivial, fun session => Task.wp_ask_bind.mpr ⟨trivial, fun created => ?_⟩⟩
    refine Uncounted.bind auditMutationResult_uncounted fun _ => ?_
    refine Task.wp_ask_bind.mpr ⟨Or.inl ?_, fun _ => trivial⟩
    exact decide_eq_true (Nat.lt_of_not_le hcount)

end Commands

/-- A method that is run to its end. -/
theorem counting_finishing {α : Type} {m : ServiceM α} {f : Except ServiceError α → ServiceOutcome}
    {v : CountView} (h : m.wp (counting svc).toMonitor (fun _ _ _ => True) () v) :
    (finishing m f).wp (counting svc).toMonitor (counting svc).Returns v :=
  Prog.wp_bind.mpr (Prog.wp_mono h fun _ _ _ => trivial)

theorem Uncounted.keeps {α : Type} {m : ServiceM α} {f : Except ServiceError α → ServiceOutcome}
    {v : CountView} (h : Uncounted m) :
    (finishing m f).wp (counting svc).toMonitor (counting svc).Returns v :=
  counting_finishing (Task.wp_mono h.wp fun _ _ _ _ => trivial)

theorem counting_sound (svc : AgentService) : (counting svc).Sound := by
  have hbody : ∀ (task : WorkflowTask) v, (finishing (task.body svc) fun _ => .ended).wp
      (counting svc).toMonitor (counting svc).Returns v := fun task v => WorkflowTask.body_uncounted.keeps
  refine ⟨fun c => ?_, fun v r task _ _ => hbody task _⟩
  cases c with
  | startRun principal session request workflow input => exact startRun_uncounted.keeps
  | resumeRun principal key waitId => exact resumeRun_uncounted.keeps
  | cancelActiveRun principal key => exact cancelActiveRun_uncounted.keeps
  | archiveConversation principal session => exact archiveConversation_uncounted.keeps
  | createSession principal => exact counting_finishing createSession_counting
  | submitDecision principal key waitId version outcome => exact submitDecision_uncounted.keeps
  | abortWaiting principal key waitId version => exact abortWaiting_uncounted.keeps
  | waitingPage principal after limit => exact waitingPage_uncounted.keeps
  | drain => exact drain_uncounted.keeps
  | discoverRuns =>
    refine Prog.wp_mono ((Prog.only_true _).wp (I := fun v : CountView => v.discovers = true) ?_ rfl)
      fun _ _ _ => trivial
    intro v r hv _
    refine ⟨?_, fun a => ?_⟩
    · cases r <;> first | exact Or.inr hv | trivial
    · cases r <;> exact hv

/-! ## The set of sessions -/

/-- What the capacity rests on. -/
structure Fits (s : svc.deployed.State) (views : Nat → CountView) : Prop where
  /-- A view that says so belongs to `discover_runs`. -/
  discovers : ∀ pid proc, s.procs pid = some proc → (views pid).discovers = true →
    proc.kind = .call .discoverRuns
  /-- Whoever has counted is on its way. -/
  checked : ∀ pid proc, s.procs pid = some proc → (views pid).checked = true → pid ∈ inserting s.history
  room : s.world.sessions.length + (inserting s.history).length ≤ maxSessions

theorem length_insert_le {α : Type} [DecidableEq α] (a : α) (l : List α) :
    (l.insert a).length ≤ l.length + 1 := by
  rw [List.length_insert]
  split <;> omega

section Moves

variable {s t : svc.deployed.State} {views views' : Nat → (counting svc).View} {e : svc.deployed.Event}

theorem CountView.observe_discovers (v : CountView) (r : ServiceRequest) (a : ServiceAnswer r) :
    ((counting svc).observe v r a).discovers = v.discovers := by
  cases r <;> rfl

/-- The set is touched by the two requests that are for it. -/
theorem Deployment.exec_sessions {w w' : Deployment} {owner : Nat} {idle : Prop} {r : ServiceRequest}
    {a : ServiceAnswer r} (h : w.exec owner idle r a w') (hinsert : ∀ session, r ≠ .insertSession session) :
    w'.sessions.length ≤ w.sessions.length := by
  obtain ⟨-, -, hports⟩ := h
  cases r with
  | insertSession session => exact absurd rfl (hinsert session)
  | removeSession session =>
    rw [show w'.sessions = w.sessions.erase session from congrArg Deployment.sessions hports]
    exact List.length_erase_le
  | createSession session owner =>
    rcases hports with ⟨owners, -, -, hw⟩ | ⟨e, -, hw⟩ <;> rw [hw]
  | setTitleIfAbsent session owner title =>
    rcases hports with ⟨owners, -, -, hw⟩ | ⟨e, -, hw⟩ <;> rw [hw]
  | archiveSession session owner =>
    rcases hports with ⟨owners, -, -, hw⟩ | ⟨e, -, hw⟩ <;> rw [hw]
  | _ => exact Nat.le_of_eq (congrArg (fun d => d.sessions.length) hports)

/-- The sessions that are there and those on their way, after a request of one process. -/
structure Counted (s : svc.deployed.State) (pid : Nat) (checked : Bool) (w : Deployment) (pids : List Nat) :
    Prop where
  self : checked = true → pid ∈ pids
  others : ∀ other ∈ inserting s.history, other ≠ pid → other ∈ pids
  room : w.sessions.length + pids.length ≤ maxSessions

theorem Fits.counted (h : Fits s views) {pid : Nat} {kind : svc.deployed.Kind} {r : ServiceRequest}
    {k : ServiceAnswer r → Prog ServiceAnswer ServiceOutcome} {a : ServiceAnswer r} {w : Deployment}
    {idle : Prop} (hproc : s.procs pid = some ⟨kind, .call r k⟩) (hexec : s.world.exec (kind.owner pid) idle r a w)
    (hpermits : (counting svc).permits (views pid) r) (hroom : FindsRoom s (.did pid r a)) :
    Counted s pid ((counting svc).observe (views pid) r a).checked w
      (insertingStep (inserting s.history) (.did pid r a : svc.deployed.Event)) := by
  have hchecked := h.checked pid _ hproc
  have hold := h.room
  by_cases hcounts : r.counts = false
  · have hsessions := Deployment.exec_sessions hexec fun session hr => by subst hr; cases hcounts
    have hsame : insertingStep (inserting s.history) (.did pid r a : svc.deployed.Event) = inserting s.history := by
      cases r <;> first | rfl | cases hcounts
    rw [hsame]
    refine ⟨fun hc => hchecked ?_, fun _ hother _ => hother, by omega⟩
    cases r <;> first | exact hc | cases hcounts
  cases r with
  | sessionCount =>
    have hsessions := Deployment.exec_sessions hexec nofun
    by_cases hcount : a < maxSessions
    · have hfits : HasRoom s := hroom hcount
      unfold HasRoom at hfits
      have hlength := length_insert_le pid (inserting s.history)
      simp only [insertingStep, if_pos hcount]
      refine ⟨fun _ => List.mem_insert_self, fun _ hother _ => List.mem_insert_of_mem hother, by omega⟩
    · simp only [insertingStep, if_neg hcount]
      refine ⟨fun hc => ?_, fun _ hother _ => hother, by omega⟩
      exact absurd (of_decide_eq_true hc) hcount
  | insertSession session =>
    have hinsert : w.sessions = s.world.sessions.insert session := congrArg Deployment.sessions hexec.2.2
    simp only [insertingStep]
    refine ⟨nofun, fun _ hother hne => (List.mem_erase_of_ne hne).mpr hother, ?_⟩
    rw [hinsert]
    rcases hpermits with hchecks | hdiscovers
    · have hmem := hchecked hchecks
      have hpos := List.length_pos_of_mem hmem
      have hinserted := length_insert_le session s.world.sessions
      rw [List.length_erase_of_mem hmem]
      omega
    · have hkind : kind = .call .discoverRuns := h.discovers pid _ hproc hdiscovers
      have herase : ((inserting s.history).erase pid).length ≤ (inserting s.history).length := List.length_erase_le
      have hfound := hroom ⟨_, hkind ▸ hproc⟩
      rcases hfound with hmem | hfits
      · rw [List.insert_of_mem hmem]
        omega
      · unfold HasRoom at hfits
        have hinserted := length_insert_le session s.world.sessions
        omega
  | _ => exact absurd rfl hcounts

theorem Fits.empty (hprocs : ∀ pid, s.procs pid = none) (hsessions : s.world.sessions = [])
    (hhistory : inserting s.history = []) : Fits s views := by
  have hnone : ∀ {pid proc}, s.procs pid ≠ some proc := by
    intro pid proc hproc
    rw [hprocs] at hproc
    cases hproc
  refine ⟨fun _ _ hproc => absurd hproc hnone, fun _ _ hproc => absurd hproc hnone, ?_⟩
  rw [hsessions, hhistory]
  exact Nat.zero_le maxSessions

/-- A process that is gone is no longer on its way. -/
theorem Fits.erased (h : Fits s views) {pid : Nat} (hprocs : t.procs = Function.update s.procs pid none)
    (hworld : t.world = s.world) (hhistory : inserting t.history = (inserting s.history).erase pid) :
    Fits t views := by
  have hback : ∀ {other proc}, t.procs other = some proc → other ≠ pid ∧ s.procs other = some proc := by
    intro other proc hother
    rw [hprocs] at hother
    by_cases heq : other = pid
    · subst heq
      simp at hother
    · exact ⟨heq, by rwa [Function.update_of_ne heq] at hother⟩
  refine ⟨fun other proc hother => h.discovers other proc (hback hother).2, fun other proc hother hc => ?_, ?_⟩
  · rw [hhistory, List.mem_erase_of_ne (hback hother).1]
    exact h.checked other proc (hback hother).2 hc
  · have hle : ((inserting s.history).erase pid).length ≤ (inserting s.history).length := List.length_erase_le
    have hold := h.room
    rw [hworld, hhistory]
    omega

/-- A process that has moved. -/
theorem Fits.acted (h : Fits s views) {pid : Nat} {kind : svc.deployed.Kind}
    {p q : Prog ServiceAnswer ServiceOutcome} {w : Deployment} {v : CountView}
    {history : List svc.deployed.Event} (hproc : s.procs pid = some ⟨kind, p⟩)
    (hdiscovers : v.discovers = true → (views pid).discovers = true)
    (hcounted : Counted s pid v.checked w (inserting history)) :
    Fits { s with
      world := w
      procs := Function.update s.procs pid (some ⟨kind, q⟩)
      history := history } (Function.update views pid v) := by
  refine ⟨fun other proc hother hd => ?_, fun other proc hother hc => ?_, hcounted.room⟩
  · by_cases heq : other = pid
    · subst heq
      simp only [Function.update_self, Option.some.injEq] at hother hd
      subst hother
      have hkind : kind = .call .discoverRuns := h.discovers other _ hproc (hdiscovers hd)
      exact hkind
    · simp only [Function.update_of_ne heq] at hother hd
      exact h.discovers other proc hother hd
  · by_cases heq : other = pid
    · subst heq
      simp only [Function.update_self] at hc
      exact hcounted.self hc
    · simp only [Function.update_of_ne heq] at hother hc
      exact hcounted.others other (h.checked other proc hother hc) heq

/-- A process that comes in has counted nothing. -/
theorem Fits.inserted (h : Fits s views) {proc : svc.deployed.Proc} {v : CountView}
    {history : List svc.deployed.Event} (hdiscovers : v.discovers = true → proc.kind = .call .discoverRuns)
    (hchecked : v.checked = false) (hhistory : inserting history = inserting s.history) :
    Fits { s with
      procs := Function.update s.procs s.next (some proc)
      next := s.next + 1
      history := history } (Function.update views s.next v) := by
  refine ⟨fun other proc' hother hd => ?_, fun other proc' hother hc => ?_, ?_⟩
  · by_cases heq : other = s.next
    · subst heq
      simp only [Function.update_self, Option.some.injEq] at hother hd
      subst hother
      exact hdiscovers hd
    · simp only [Function.update_of_ne heq] at hother hd
      exact h.discovers other proc' hother hd
  · by_cases heq : other = s.next
    · subst heq
      simp only [Function.update_self, hchecked, Bool.false_eq_true] at hc
    · simp only [Function.update_of_ne heq] at hother hc
      rw [hhistory]
      exact h.checked other proc' hother hc
  · rw [hhistory]
    exact h.room

theorem Fits.moves (h : Fits s views)
    (hmove : (counting svc).Moves s views e t views') (hroom : FindsRoom s e) : Fits t views' := by
  cases hmove with
  | call c =>
    refine h.inserted (fun hc => ?_) ?_ inserting_concat
    · cases c <;> first | rfl | cases hc
    · cases c <;> rfl
  | @act pid kind r k a w hproc hjob hexec hpermits =>
    refine h.acted hproc (fun hd => ?_) ?_
    · exact (CountView.observe_discovers _ r a) ▸ hd
    · rw [inserting_concat]
      exact h.counted hproc hexec hpermits hroom
  | @spawn pid kind r k a w task hproc hjob hexec hpermits =>
    have hact : Fits { s with
        world := w
        procs := Function.update s.procs pid (some ⟨kind, k a⟩)
        history := s.history ++ [.did pid r a] }
        (Function.update views pid ((counting svc).observe (views pid) r a)) := by
      refine h.acted hproc (fun hd => ?_) ?_
      · exact (CountView.observe_discovers _ r a) ▸ hd
      · rw [inserting_concat]
        exact h.counted hproc hexec hpermits hroom
    exact hact.inserted nofun rfl rfl
  | @«return» pid kind o hproc hreturns => exact h.erased rfl rfl inserting_concat
  | @drop pid kind r k hproc hpermits => exact h.erased rfl rfl inserting_concat
  | @interfere w hworld =>
    refine ⟨h.discovers, fun other proc hother hc => ?_, ?_⟩
    · rw [inserting_concat]
      exact h.checked other proc hother hc
    · have hold := h.room
      rw [inserting_concat, hworld.2]
      exact hold
  | restart => exact .empty (fun _ => rfl) rfl inserting_concat

end Moves

/-- **The set never holds more than 256 sessions** if every session that is let in finds room beside
those that are there and those that are on their way. -/
theorem sessions_within_capacity {storage : Storage} {owners : SessionStore} {s : svc.deployed.State}
    (hs : svc.deployed.Reachable FindsRoom (Deployment.new storage owners) s) :
    s.world.sessions.length ≤ maxSessions := by
  obtain ⟨views, -, hfits⟩ := hs.keeps (I := Fits) (counting_sound svc)
    (fun views => .empty (fun _ => rfl) rfl rfl) fun s views e t views' _ hfits _ hmove hroom =>
      hfits.moves hmove hroom
  have hroom := hfits.room
  omega

/-! ## Sessions that are created -/

/-- A call of `create_session` up to its check. -/
def granted : Dialogue ServiceAnswer :=
  [⟨.lifecycle, false⟩, ⟨.authorize ⟨"a"⟩ .createSession .global, true⟩,
    ⟨.audit ⟨.authorizationGranted, ⟨"a"⟩, .createSession, none, none, none⟩, true⟩,
    ⟨.audit ⟨.mutationRequested, ⟨"a"⟩, .createSession, none, none, none⟩, true⟩]

/-- From its check until the session is inserted. -/
def owned (session : SessionId) : Dialogue ServiceAnswer :=
  [⟨.freshSession, session⟩, ⟨.createSession session ⟨"a"⟩, .ok ()⟩,
    ⟨.audit ⟨.mutationCommitted, ⟨"a"⟩, .createSession, none, none, none⟩, true⟩]

/-- What is left of the call after its check. -/
def admittedSession : Prog ServiceAnswer ServiceOutcome :=
  finishing (do
    let session ← await .freshSession
    let created ← await (.createSession session ⟨"a"⟩)
    auditMutationResult ⟨"a"⟩ .createSession none none (created.mapError .identityStore)
    await (.insertSession session)
    pure session) .session

/-- What follows the count. -/
def checkedSession (count : Nat) : Prog ServiceAnswer ServiceOutcome :=
  finishing (if count ≥ maxSessions then Task.fail .capacity else do
    let session ← await .freshSession
    let created ← await (.createSession session ⟨"a"⟩)
    auditMutationResult ⟨"a"⟩ .createSession none none (created.mapError .identityStore)
    await (.insertSession session)
    pure session) .session

theorem checkedSession_eq {count : Nat} (h : count < maxSessions) : checkedSession count = admittedSession := by
  unfold checkedSession admittedSession
  rw [if_neg (Nat.not_le_of_lt h)]

theorem createSession_after_grant (svc : AgentService) : ((ServiceCall.createSession ⟨"a"⟩).code svc).After granted
    (.call .sessionCount checkedSession) := by
  refine Prog.After.call ⟨false, _, rfl, ?_⟩
  refine Prog.After.call ⟨true, _, rfl, ?_⟩
  refine Prog.After.call ⟨true, _, rfl, ?_⟩
  exact Prog.After.call ⟨true, _, rfl, .nil _⟩

theorem admittedSession_after_create {session : SessionId} : admittedSession.After (owned session)
    (.call (.insertSession session) fun _ => .pure (.session (.ok session))) := by
  refine Prog.After.call ⟨session, _, rfl, ?_⟩
  refine Prog.After.call ⟨.ok (), _, rfl, ?_⟩
  exact Prog.After.call ⟨true, _, rfl, .nil _⟩

/-- The session has an owner. -/
def Deployment.withOwner (w : Deployment) (session : SessionId) : Deployment :=
  { w with owners := { w.owners with
      rows := w.owners.rows ++ [(session, ⟨session, ⟨"a"⟩, none, false⟩)] } }

/-- The session is in the set. -/
def Deployment.withSession (w : Deployment) (session : SessionId) : Deployment :=
  { w with sessions := session :: w.sessions }

/-- The deployment with the sessions `0, …, n - 1`. -/
def filled : Nat → Deployment
  | 0 => .new ⟨.empty, []⟩ ⟨[], fun _ => none⟩
  | n + 1 => ((filled n).withOwner ⟨n⟩).withSession ⟨n⟩

theorem filled_sessions (n : Nat) : (filled n).sessions.length = n := by
  induction n with
  | zero => rfl
  | succ n ih => exact congrArg (· + 1) ih

theorem filled_serving (n : Nat) : (filled n).world.draining = false := by
  induction n with
  | zero => rfl
  | succ n ih => exact ih

theorem filled_fresh {n m : Nat} (h : n ≤ m) :
    (⟨m⟩ : SessionId) ∉ (filled n).sessions ∧ (filled n).owners.rows.lookup ⟨m⟩ = none := by
  induction n with
  | zero => exact ⟨List.not_mem_nil, rfl⟩
  | succ n ih =>
    obtain ⟨hsession, hrow⟩ := ih (by omega)
    have hne : (⟨m⟩ : SessionId) ≠ ⟨n⟩ := by
      intro heq
      have huuid : m = n := congrArg SessionId.uuid heq
      omega
    refine ⟨List.mem_cons.not.mpr (not_or.mpr ⟨hne, hsession⟩), ?_⟩
    change ((filled n).owners.rows ++ _).lookup _ = none
    rw [List.lookup_append, hrow]
    simp [hne]

/-- A request of the call `pid`. -/
abbrev deployedEnv (svc : AgentService) (pid : Nat) : Environment ServiceAnswer Deployment := fun w r a w' =>
  svc.deployed.spawns r = none ∧ ∀ idle, svc.deployed.exec w pid idle r a w'

theorem granted_follows {pid : Nat} (w : Deployment) (h : w.world.draining = false) :
    Follows (deployedEnv svc pid) w granted w := by
  refine .cons ⟨rfl, fun _ => ⟨⟨h.symm, rfl⟩, trivial, rfl⟩⟩ ?_
  refine .cons ⟨rfl, fun _ => ⟨rfl, trivial, rfl⟩⟩ ?_
  refine .cons ⟨rfl, fun _ => ⟨rfl, trivial, rfl⟩⟩ ?_
  exact .cons ⟨rfl, fun _ => ⟨rfl, trivial, rfl⟩⟩ (.nil w)

theorem owned_follows {pid : Nat} (w : Deployment) {session : SessionId}
    (hrow : w.owners.rows.lookup session = none) :
    Follows (deployedEnv svc pid) w (owned session) (w.withOwner session) := by
  have hcreated : w.owners.createSession ⟨session, ⟨"a"⟩, none, false⟩ = .ok (w.withOwner session).owners := by
    unfold SessionStore.createSession
    rw [hrow]
    rfl
  refine .cons ⟨rfl, fun _ => ⟨rfl, trivial, rfl⟩⟩ ?_
  refine .cons (show deployedEnv svc pid w _ _ (w.withOwner session) from
    ⟨rfl, fun _ => ⟨rfl, trivial, .inl ⟨_, hcreated, rfl, rfl⟩⟩⟩) ?_
  exact .cons ⟨rfl, fun _ => ⟨rfl, trivial, rfl⟩⟩ (.nil _)

/-- Requests that do not concern the set. -/
theorem inserting_quiet {history : List svc.deployed.Event} {pid : Nat} {d : Dialogue ServiceAnswer}
    (hd : ∀ e ∈ d, e.1.counts = false) :
    inserting (history ++ d.map fun e => .did pid e.1 e.2) = inserting history := by
  induction d generalizing history with
  | nil => rw [List.map_nil, List.append_nil]
  | cons e d ih =>
    rw [List.map_cons, List.append_cons, ih fun e he => hd e (List.mem_cons_of_mem _ he), inserting_concat]
    obtain ⟨r, a⟩ := e
    have hquiet : r.counts = false := hd _ List.mem_cons_self
    cases r with
    | sessionCount | insertSession => cases hquiet
    | _ => rfl

theorem findsRoom_quiet {t : svc.deployed.State} {pid : Nat} {r : ServiceRequest} {a : ServiceAnswer r}
    (hquiet : r.counts = false) : FindsRoom t (.did pid r a) := by
  cases r with
  | sessionCount | insertSession => cases hquiet
  | _ => trivial

section Scenario

variable {ok : svc.deployed.State → svc.deployed.Event → Prop} {s : svc.deployed.State}

/-- A call of `create_session` that has passed its check. -/
theorem checked_reachable (hok : ∀ t e, FindsRoom t e → ok t e)
    (hs : svc.deployed.Reachable ok (filled 0) s) (hserving : s.world.world.draining = false)
    (hcount : s.world.sessions.length < maxSessions)
    (hcheck : ∀ t : svc.deployed.State, t.world = s.world → inserting t.history = inserting s.history →
      ok t (.did s.next .sessionCount s.world.sessions.length)) :
    ∃ t, svc.deployed.Reachable ok (filled 0) t ∧ t.world = s.world ∧ t.next = s.next + 1 ∧
      t.procs = Function.update s.procs s.next (some ⟨.call (.createSession ⟨"a"⟩), admittedSession⟩) ∧
      inserting t.history = (inserting s.history).insert s.next := by
  have hquiet : ∀ e ∈ granted, e.1.counts = false := by simp [granted, ServiceRequest.counts]
  have hcalled := hs.called (.createSession ⟨"a"⟩) (hok _ _ trivial)
  have hgranted := hcalled.runs s.next (createSession_after_grant svc) (Function.update_self ..)
    (granted_follows s.world hserving) fun t e he => hok _ _ (findsRoom_quiet (hquiet e he))
  have hhistory : inserting ((s.history ++ [.called s.next (.createSession ⟨"a"⟩)]) ++
      granted.map fun e => .did s.next e.1 e.2) = inserting s.history := by
    rw [inserting_quiet hquiet, inserting_concat]
    rfl
  have hchecked := hgranted.did (r := .sessionCount) s.next s.world.sessions.length (Function.update_self ..)
    rfl ⟨rfl, rfl, rfl⟩ (hcheck _ rfl hhistory)
  refine ⟨_, hchecked, rfl, rfl, ?_, ?_⟩
  · rw [checkedSession_eq hcount, Function.update_idem, Function.update_idem]
  · rw [inserting_concat, hhistory]
    exact if_pos hcount

/-- Such a call inserts its session. -/
theorem inserted_reachable (hok : ∀ t e, FindsRoom t e → ok t e)
    (hs : svc.deployed.Reachable ok (filled 0) s) (pid : Nat)
    (hproc : s.procs pid = some ⟨.call (.createSession ⟨"a"⟩), admittedSession⟩) {session : SessionId}
    (hsession : session ∉ s.world.sessions) (hrow : s.world.owners.rows.lookup session = none) :
    ∃ t, svc.deployed.Reachable ok (filled 0) t ∧
      t.world = (s.world.withOwner session).withSession session ∧ t.next = s.next ∧
      t.procs = Function.update s.procs pid
        (some ⟨.call (.createSession ⟨"a"⟩), .pure (.session (.ok session))⟩) ∧
      inserting t.history = (inserting s.history).erase pid := by
  have hquiet : ∀ e ∈ owned session, e.1.counts = false := by simp [owned, ServiceRequest.counts]
  have hcreated := hs.runs pid admittedSession_after_create hproc (owned_follows s.world hrow)
    fun t e he => hok _ _ (findsRoom_quiet (hquiet e he))
  have hinserted : (s.world.withOwner session).sessions.insert session = session :: s.world.sessions :=
    List.insert_of_not_mem hsession
  have hthere := hcreated.did (w := (s.world.withOwner session).withSession session) pid ()
    (Function.update_self ..) rfl ⟨rfl, trivial, ?_⟩ (hok _ _ ?_)
  · refine ⟨_, hthere, rfl, rfl, Function.update_idem .., ?_⟩
    rw [inserting_concat, inserting_quiet hquiet]
    rfl
  · change _ = { s.world.withOwner session with sessions := (s.world.withOwner session).sessions.insert session }
    rw [hinserted]
    rfl
  · rintro ⟨prog, hdiscovers⟩
    simp only [Function.update_self, Option.some.injEq, Runtime.Proc.mk.injEq] at hdiscovers
    cases hdiscovers.1

end Scenario

/-- A run that reaches it, whatever the number, in which every session has found room. -/
theorem filled_reachable (svc : AgentService) {n : Nat} (h : n ≤ maxSessions) :
    ∃ s, svc.deployed.Reachable FindsRoom (filled 0) s ∧ s.world = filled n ∧ inserting s.history = [] := by
  induction n with
  | zero => exact ⟨_, .start, rfl, rfl⟩
  | succ n ih =>
    obtain ⟨s, hs, hworld, hnone⟩ := ih (by omega)
    have hcount : s.world.sessions.length < maxSessions := by
      rw [hworld, filled_sessions]
      omega
    have hroom : ∀ t : svc.deployed.State, t.world = s.world → inserting t.history = inserting s.history →
        FindsRoom t (.did s.next .sessionCount s.world.sessions.length) := by
      intro t ht hhistory _
      unfold HasRoom
      rw [ht, hhistory, hnone]
      exact hcount
    obtain ⟨t, ht, hsame, -, hprocs, hinserting⟩ :=
      checked_reachable (fun _ _ => id) hs (by rw [hworld, filled_serving]) hcount hroom
    have hfresh := filled_fresh (Nat.le_refl n)
    rw [← hworld, ← hsame] at hfresh
    obtain ⟨u, hu, hfilled, -, -, hleft⟩ := inserted_reachable (fun _ _ => id) ht s.next
      (by rw [hprocs, Function.update_self]) hfresh.1 hfresh.2
    refine ⟨u, hu, by rw [hfilled, hsame, hworld]; rfl, ?_⟩
    rw [hleft, hinserting, hnone]
    simp

/-- Two calls pass their checks while there are `n` sessions, and then both insert theirs. -/
theorem overlapping_reachable {ok : svc.deployed.State → svc.deployed.Event → Prop}
    (hok : ∀ t e, FindsRoom t e → ok t e) {n : Nat} (hn : n < maxSessions) {s : svc.deployed.State}
    (hs : svc.deployed.Reachable ok (filled 0) s) (hworld : s.world = filled n)
    (hnone : inserting s.history = [])
    (hcheck : ∀ (t : svc.deployed.State) pid, t.world = filled n → (inserting t.history).length ≤ 1 →
      ok t (.did pid .sessionCount n)) :
    ∃ t u, svc.deployed.Reachable ok (filled 0) t ∧ t.world = filled n ∧ (inserting t.history).length = 2 ∧
      svc.deployed.Reachable ok (filled 0) u ∧ u.world = filled (n + 2) := by
  have hlength : ∀ {t : svc.deployed.State}, t.world = filled n → t.world.sessions.length = n :=
    fun ht => by rw [ht, filled_sessions]
  obtain ⟨t₁, h₁, hworld₁, hnext₁, hprocs₁, hinserting₁⟩ := checked_reachable hok hs
    (by rw [hworld, filled_serving]) (by rwa [hlength hworld]) fun t ht hhistory => by
      rw [hlength hworld]
      exact hcheck t _ (ht.trans hworld) (by simp [hhistory, hnone])
  rw [hworld] at hworld₁
  simp only [hnone, List.insert_nil] at hinserting₁
  obtain ⟨t₂, h₂, hworld₂, -, hprocs₂, hinserting₂⟩ := checked_reachable hok h₁
    (by rw [hworld₁, filled_serving]) (by rwa [hlength hworld₁]) fun t ht hhistory => by
      rw [hlength hworld₁]
      exact hcheck t _ (ht.trans hworld₁) (by simp [hhistory, hinserting₁])
  rw [hworld₁] at hworld₂
  have hne : s.next ≠ t₁.next := by omega
  have hfresh := filled_fresh (Nat.le_refl n)
  rw [← hworld₂] at hfresh
  obtain ⟨t₃, h₃, hworld₃, -, hprocs₃, -⟩ := inserted_reachable hok h₂ t₁.next
    (by rw [hprocs₂, Function.update_self]) hfresh.1 hfresh.2
  have hfilled : t₃.world = filled (n + 1) := by
    rw [hworld₃, hworld₂]
    rfl
  have hfresh' := filled_fresh (Nat.le_refl (n + 1))
  rw [← hfilled] at hfresh'
  obtain ⟨t₄, h₄, hworld₄, -⟩ := inserted_reachable hok h₃ s.next (by
    rw [hprocs₃, Function.update_of_ne hne, hprocs₂, Function.update_of_ne hne, hprocs₁, Function.update_self])
    hfresh'.1 hfresh'.2
  refine ⟨t₂, t₄, h₂, hworld₂, ?_, h₄, by rw [hworld₄, hfilled]; rfl⟩
  rw [hinserting₂, hinserting₁, List.insert_of_not_mem (by simp [Ne.symm hne])]
  rfl

/-- Two calls that overlap fill the set: 254 sessions are in it while both are on their way, and both find
room. -/
theorem overlapping_sessions_fit : ∃ s t : sampleService.deployed.State,
    s.world.sessions.length = 254 ∧ (inserting s.history).length = 2 ∧ s.world.sessions.length ≤ maxSessions ∧
      t.world.sessions.length = 256 ∧ t.world.sessions.length ≤ maxSessions := by
  obtain ⟨s, hs, hworld, hnone⟩ := filled_reachable sampleService (n := 254) (by decide)
  obtain ⟨t, u, ht, htworld, hboth, hu, huworld⟩ := overlapping_reachable (fun _ _ => id) (by decide) hs
    hworld hnone fun t pid ht hroom _ => by
      unfold HasRoom maxSessions
      rw [ht, filled_sessions]
      omega
  exact ⟨t, u, by rw [htworld, filled_sessions], hboth, sessions_within_capacity ht,
    by rw [huworld, filled_sessions], sessions_within_capacity hu⟩

/-- Two calls both count 255 sessions, and both insert theirs. -/
theorem overfilled_reachable (svc : AgentService) :
    ∃ s, svc.deployed.Reachable (fun _ _ => True) (filled 0) s ∧ s.world.sessions.length = 257 := by
  obtain ⟨s, hs, hworld, hnone⟩ := filled_reachable svc (n := 255) (by decide)
  obtain ⟨-, u, -, -, -, hu, huworld⟩ := overlapping_reachable (fun _ _ _ => trivial) (by decide)
    (hs.mono fun _ _ _ => trivial) hworld hnone fun _ _ _ _ => trivial
  exact ⟨u, hu, by rw [huworld, filled_sessions]⟩

/-- **Two calls overfill the set.** -/
theorem two_sessions_overfill :
    ∃ s, sampleService.deployed.Reachable (fun _ _ => True) (filled 0) s ∧ s.world.sessions.length = 257 :=
  overfilled_reachable sampleService

end LocalAgent
