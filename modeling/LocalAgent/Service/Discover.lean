import LocalAgent.Lib.Dialogue
import LocalAgent.Service.Runs
import LocalAgent.Store.Runs

/-!
# The catalog at start-up (`agent-service/src/lib.rs:1558-1604`)

Before the daemon serves, `discover_runs` reads all pages of the store and recovers every run; the
daemon does not start if it fails. It fails on the first run that cannot be recovered, and it counts
the runs against the capacity for sessions after each full page, so that two full pages are the most
that it lists. `discovers_iff` says exactly when it succeeds.
-/
namespace LocalAgent

open Program Store Paging

section

variable (svc : AgentService) (s : Store) (walls : Set Nat) (instants : Set Instant)

/-- The ports read this store, and the clocks have one of these readings. -/
def CatalogReads : Environment ServiceAnswer Unit := fun _ r a _ =>
  match r, a with
  | .listRuns after limit, a => a = s.listRuns limit after
  | .harness (.loadRun _ key), a => a = s.loadRun key
  | .harness .wallClock, a => ∃ t ∈ walls, a = some t
  | .harness .instantNow, a => a ∈ instants
  | _, _ => True

/-- `discover_runs` returns every run of the store once. -/
structure Discovers : Prop where
  returns : ∃ d x, (discoverRuns svc ()).Returns d (x, ()) ∧
    Follows (CatalogReads s walls instants) () d ()
  lists : ∀ d x, (discoverRuns svc ()).Returns d (x, ()) → Follows (CatalogReads s walls instants) () d () →
    ∃ views, x = .ok views ∧ (views.map RunView.runId).Nodup ∧
      ∀ key : RunKey, (∃ v ∈ views, v.runId = key.runId ∧ v.sessionId = key.sessionId) ↔
        ∃ row, s.runs key.runId = some row ∧ row.sessionId = key.sessionId

/-- The run is loaded and recovered at these readings. -/
def RecoversAt (key : RunKey) (nowUnixMillis : Nat) (now : Instant) : Prop :=
  ∃ loaded d, s.loadRun key = .ok loaded ∧ recoverLoadedRun svc.lib.codec loaded nowUnixMillis now = .ok d

/-- A row that can be listed. -/
def Listable (x : RunId × StoredRun) : Prop := ∃ item, readRun (fun _ => false) x.1 x.2 = .ok item

/-- The run is listed, and recovered at some readings. -/
def Fine (x : RunId × StoredRun) : Prop :=
  Listable x ∧ ∃ t ∈ walls, ∃ now ∈ instants, RecoversAt svc s x.2.record.key t now

/-- The run is not listed, or not recovered at some readings. -/
def Amiss (x : RunId × StoredRun) : Prop :=
  ¬ Listable x ∨ ∃ t ∈ walls, ∃ now ∈ instants, ¬ RecoversAt svc s x.2.record.key t now

/-- What was returned for these rows. -/
def Tells (rows : List (RunId × StoredRun)) : Except ServiceError (List RunView) → Prop
  | .ok views => (views.map fun v => (⟨v.runId, v.sessionId⟩ : RunKey)) = rows.map (·.2.record.key) ∧
      ∀ x ∈ rows, Fine svc s walls instants x
  | .error _ => ∃ x ∈ rows, Amiss svc s walls instants x

end

variable {svc : AgentService} {s : Store} {walls : Set Nat} {instants : Set Instant}

/-! ## A run -/

theorem onHarness_wlp {α W : Type} {env : Environment ServiceAnswer W} {p : Prog Answer α}
    {Q : α → W → Prop} {w : W} :
    (onHarness p).wlp env Q w ↔ p.wlp (fun w r a w' => env w (.harness r) a w') Q w := by
  induction p generalizing w with
  | pure a => exact Iff.rfl
  | call r k ih => exact forall_congr' fun a => forall_congr' fun w' => imp_congr_right fun _ => ih a

/-- What a recovery that is kept to the walls and the instants may return. -/
def RecoveryAnswers (svc : AgentService) (s : Store) (walls : Set Nat) (instants : Set Instant) (key : RunKey) :
    Except HarnessError RecoveryDisposition → Prop
  | .ok d => ∃ t ∈ walls, ∃ now ∈ instants, ∃ loaded, s.loadRun key = .ok loaded ∧
      recoverLoadedRun svc.lib.codec loaded t now = .ok d
  | .error _ => ∃ t ∈ walls, ∃ now ∈ instants, ¬ RecoversAt svc s key t now

/-- What `recover_run` tells. -/
theorem recoverRunOf_wlp (hport : svc.harness.persistence = true) (hwalls : walls.Nonempty)
    (hinstants : instants.Nonempty) {key : RunKey} :
    (recoverRunOf svc key).wlp (CatalogReads s walls instants) (fun x _ _ => ∃ t ∈ walls, ∃ now ∈ instants,
      match x with
      | .ok (.ok d) => ∃ loaded, s.loadRun key = .ok loaded ∧
          recoverLoadedRun svc.lib.codec loaded t now = .ok d
      | .ok (.error _) => ¬ RecoversAt svc s key t now
      | .error _ => False) () () := by
  obtain ⟨t₀, ht₀⟩ := hwalls
  obtain ⟨now₀, hnow₀⟩ := hinstants
  refine Prog.wlp_bind.mpr (onHarness_wlp.mpr ?_)
  have hwlp : (recoverRun svc.lib svc.harness key ()).wlp
      (fun w r a w' => CatalogReads s walls instants w (.harness r) a w')
      (fun p _ => RecoveryAnswers svc s walls instants key p.1) () := by
    change Task.wlp _ (recoverRun svc.lib svc.harness key)
      (fun x _ _ => RecoveryAnswers svc s walls instants key x) () ()
    unfold recoverRun
    rw [if_pos hport]
    refine Task.wlp_ask_bind.mpr fun a _ ha => ?_
    have hload : a = s.loadRun key := ha
    subst hload
    cases hloaded : s.loadRun key with
    | error e =>
      refine ⟨t₀, ht₀, now₀, hnow₀, ?_⟩
      rintro ⟨loaded, d, hok, -⟩
      cases hloaded.symm.trans hok
    | ok loaded =>
      refine Task.wlp_bind.mpr (Task.wlp_ask_bind.mpr fun a _ ha => ?_)
      obtain ⟨t, ht, hwall⟩ : ∃ t ∈ walls, a = some t := ha
      subst hwall
      refine Task.wlp_pure.mpr (Task.wlp_ask_bind.mpr fun now _ hnow => ?_)
      cases hrecover : recoverLoadedRun svc.lib.codec loaded t now with
      | ok d => exact ⟨t, ht, now, hnow, loaded, hloaded, hrecover⟩
      | error e =>
        refine ⟨t, ht, now, hnow, ?_⟩
        rintro ⟨loaded', d, hok, hd⟩
        obtain rfl := Except.ok.inj (hloaded.symm.trans hok)
        cases hrecover.symm.trans hd
  refine Prog.wlp_mono hwlp fun p _ hp => ?_
  obtain ⟨x | x, u⟩ := p
  · exact hp
  · exact hp

theorem projectLegacyUnowned_key (unowned : Bool) (view : RunView) :
    (projectLegacyUnowned unowned view).runId = view.runId ∧
      (projectLegacyUnowned unowned view).sessionId = view.sessionId := by
  unfold projectLegacyUnowned
  split <;> exact ⟨rfl, rfl⟩

/-- The view is that of the recovered run. -/
theorem viewForDisposition_wlp {d : RecoveryDisposition} {W : Type} {env : Environment ServiceAnswer W} {w : W} :
    (viewForDisposition svc d).wlp env (fun x _ _ => ∃ view, x = .ok view ∧
      view.runId = d.state.context.key.runId ∧ view.sessionId = d.state.context.key.sessionId) () w := by
  refine Task.wlp_ask_bind.mpr fun a w' _ => ?_
  cases a with
  | none => exact ⟨_, rfl, rfl, rfl⟩
  | some result => exact ⟨_, rfl, rfl, rfl⟩

/-- A recovered run has the key that was asked for. -/
theorem recovered_key {key : RunKey} {loaded : LoadedRun} {nowUnixMillis : Nat} {now : Instant}
    {d : RecoveryDisposition} (hload : s.loadRun key = .ok loaded)
    (hrecover : recoverLoadedRun svc.lib.codec loaded nowUnixMillis now = .ok d) :
    d.state.context.key = key := by
  obtain ⟨row, -, hkey, hrecord, -⟩ := loadRun_ok hload
  obtain ⟨state, hlog, hclass⟩ := recover_verified hrecover
  rw [classify_state hclass, (DurableRunState.replay_identity hlog.replayed).1, hrecord]
  exact hkey

/-! ## A page -/

/-- What was returned with the rows before. -/
theorem Tells.append {rows rest : List (RunId × StoredRun)} {views : List RunView}
    {x : Except ServiceError (List RunView)} (h : Tells svc s walls instants rows (.ok views))
    (hx : Tells svc s walls instants rest x) :
    Tells svc s walls instants (rows ++ rest) (x.map (views ++ ·)) := by
  cases x with
  | error e =>
    obtain ⟨y, hy, hamiss⟩ := hx
    exact ⟨y, List.mem_append_right rows hy, hamiss⟩
  | ok more =>
    refine ⟨?_, fun y hy => ?_⟩
    · rw [List.map_append, List.map_append, h.1, hx.1]
    · rcases List.mem_append.mp hy with hy | hy
      · exact h.2 y hy
      · exact hx.2 y hy

theorem summary_key {x : RunId × StoredRun} {item : DurableRunSummary}
    (h : readRun (fun _ => false) x.1 x.2 = .ok item) : item.key = x.2.record.key := by
  unfold readRun at h
  split at h
  · cases h
  · split at h
    · cases h
    · split at h
      · cases h
      · obtain rfl := Except.ok.inj h
        rfl

/-- The loop over the items of a page. -/
theorem discoverItems_wlp (hport : svc.harness.persistence = true) (hwalls : walls.Nonempty)
    (hinstants : instants.Nonempty) {rows : List (RunId × StoredRun)} {items : List DurableRunSummary}
    (h : List.Forall₂ (fun x item => readRun (fun _ => false) x.1 x.2 = .ok item) rows items) :
    (discoverItems svc items).wlp (CatalogReads s walls instants)
      (fun y _ _ => Tells svc s walls instants rows y) () () := by
  induction h with
  | nil =>
    refine Task.wlp_pure.mpr ⟨rfl, fun y hy => ?_⟩
    cases hy
  | @cons x item rows items hread _ ih =>
    have hkey := summary_key hread
    unfold discoverItems
    refine Task.wlp_bind.mpr (Task.wlp_mono (recoverRunOf_wlp hport hwalls hinstants) ?_)
    rintro y u v ⟨t, ht, now, hnow, hy⟩
    rw [hkey] at hy
    match y, hy with
    | .error _, hy => exact hy.elim
    | .ok (.error e), hnot =>
      exact ⟨x, List.mem_cons_self, .inr ⟨t, ht, now, hnow, hnot⟩⟩
    | .ok (.ok d), ⟨loaded, hload, hrecover⟩ =>
      have hd := recovered_key hload hrecover
      refine Task.wlp_bind.mpr (Task.wlp_mono viewForDisposition_wlp ?_)
      rintro _ _ _ ⟨view, rfl, hrun, hsession⟩
      refine Task.wlp_ask_bind.mpr fun _ _ _ => ?_
      refine Task.wlp_bind.mpr (Task.wlp_mono ih fun y _ _ hy => ?_)
      have hview : Tells svc s walls instants [x]
          (.ok [projectLegacyUnowned item.authorization.isNone view]) := by
        refine ⟨?_, fun z hz => ?_⟩
        · obtain ⟨hr, hs⟩ := projectLegacyUnowned_key item.authorization.isNone view
          simp only [List.map_cons, List.map_nil, hr, hs, hrun, hsession, hd]
        · rw [List.mem_singleton.mp hz]
          exact ⟨⟨item, hread⟩, t, ht, now, hnow, loaded, d, hload, hrecover⟩
      have hall := hview.append hy
      cases y with
      | error e => exact hall
      | ok views => exact hall

/-! ## The pages -/

/-- What `discover_runs` tells of the store. -/
def TellsStore (svc : AgentService) (s : Store) (walls : Set Nat) (instants : Set Instant) :
    Except ServiceError (List RunView) → Prop
  | .ok views => s.sortedRuns.length ≤ 512 ∧ Tells svc s walls instants s.sortedRuns (.ok views)
  | .error e => 512 < s.sortedRuns.length ∨ Tells svc s walls instants s.sortedRuns (.error e)

/-- The cursor of a page that is not the last one. -/
theorem page_cursor {rows rest : List (RunId × StoredRun)} {page : Page DurableRunSummary RunId}
    {limit : Nat} (hlimit : 0 < limit)
    (h : fetch (fun x : RunId × StoredRun => readRun (fun _ => false) x.1 x.2)
      (fun item => item.key.runId) limit rest = .ok page) (hmore : limit < rest.length) :
    ∃ c, page.next = some c ∧ cursor Prod.fst (rows ++ rest.take limit) = some c := by
  obtain ⟨hread, hnext⟩ := fetch_page h
  have hne : rest.take limit ≠ [] := by
    intro hnil
    have := congrArg List.length hnil
    simp only [List.length_take, List.length_nil] at this
    omega
  have hlast := List.getLast?_eq_some_getLast hne
  obtain ⟨item, hitem, hok⟩ := getLast_of_forall₂ hread hlast
  refine ⟨item.key.runId, ?_, ?_⟩
  · rw [hnext, if_pos hmore, hitem]
    rfl
  · rw [(readRun_ok hok).1]
    simp [cursor, List.getLast?_append, hlast]

theorem discoverPages_wlp (hport : svc.harness.persistence = true) (hwalls : walls.Nonempty)
    (hinstants : instants.Nonempty) (hs : s.Listed) {seen rest : List (RunId × StoredRun)}
    {views : List RunView} {fuel : Nat} (hrows : s.sortedRuns = seen ++ rest)
    (hviews : Tells svc s walls instants seen (.ok views)) (hlast : rest.length ≤ 256 → seen.length ≤ 256)
    (hnext : ∀ more, 256 < rest.length → Tells svc s walls instants (seen ++ rest.take 256) (.ok more) →
      if more.length > maxSessions then 512 < s.sortedRuns.length
      else (discoverPages svc more (cursor Prod.fst (seen ++ rest.take 256)) fuel).wlp
        (CatalogReads s walls instants) (fun y _ _ => TellsStore svc s walls instants y) () ()) :
    (discoverPages svc views (cursor Prod.fst seen) (fuel + 1)).wlp (CatalogReads s walls instants)
      (fun y _ _ => TellsStore svc s walls instants y) () () := by
  unfold discoverPages
  refine Task.wlp_ask_bind.mpr fun a _ ha => ?_
  have hpage : a = s.listRuns 256 (cursor Prod.fst seen) := ha
  rw [listRuns_after hs rfl hrows] at hpage
  cases a with
  | error e =>
    obtain ⟨x, hx, herror⟩ := fetch_error hpage.symm
    refine .inr ⟨x, ?_, .inl ?_⟩
    · rw [hrows]
      exact List.mem_append_right seen (List.mem_of_mem_take hx)
    · rintro ⟨item, hok⟩
      cases herror.symm.trans hok
  | ok page =>
    obtain ⟨hread, hpagenext⟩ := fetch_page hpage.symm
    refine Task.wlp_bind.mpr (Task.wlp_mono (discoverItems_wlp hport hwalls hinstants hread) ?_)
    intro y _ _ hy
    have hall := hviews.append hy
    cases y with
    | error e =>
      obtain ⟨x, hx, hamiss⟩ := hall
      refine .inr ⟨x, ?_, hamiss⟩
      rw [hrows]
      rcases List.mem_append.mp hx with hx | hx
      · exact List.mem_append_left rest hx
      · exact List.mem_append_right seen (List.mem_of_mem_take hx)
    | ok more =>
      change Tells svc s walls instants (seen ++ rest.take 256) (.ok (views ++ more)) at hall
      by_cases hmore : 256 < rest.length
      · obtain ⟨c, hc, hcursor⟩ : ∃ c, page.next = some c ∧
            cursor Prod.fst (seen ++ rest.take 256) = some c := page_cursor (by decide) hpage.symm hmore
        have hgo := hnext _ hmore hall
        rw [hcursor] at hgo
        dsimp only
        rw [hc]
        dsimp only
        split at hgo
        · next hfull =>
          rw [if_pos hfull]
          exact .inl hgo
        · next hroom =>
          rw [if_neg hroom]
          exact hgo
      · rw [if_neg hmore] at hpagenext
        dsimp only
        rw [hpagenext]
        have hshort : rest.length ≤ 256 := Nat.not_lt.mp hmore
        rw [List.take_of_length_le hshort, ← hrows] at hall
        refine ⟨?_, hall⟩
        rw [hrows, List.length_append]
        have := hlast hshort
        omega

/-- Two pages are the most. -/
theorem discoverRuns_wlp (hport : svc.harness.persistence = true) (hwalls : walls.Nonempty)
    (hinstants : instants.Nonempty) (hs : s.Listed) :
    (discoverRuns svc).wlp (CatalogReads s walls instants) (fun y _ _ => TellsStore svc s walls instants y) () () := by
  have hnone : Tells svc s walls instants [] (.ok []) := by
    refine ⟨rfl, fun y hy => ?_⟩
    cases hy
  have hlength : ∀ {rows : List (RunId × StoredRun)} {views : List RunView},
      Tells svc s walls instants rows (.ok views) → views.length = rows.length := by
    intro rows views h
    simpa using congrArg List.length h.1
  have hsplit : s.sortedRuns = s.sortedRuns.take 256 ++ s.sortedRuns.drop 256 :=
    (List.take_append_drop ..).symm
  have hall : s.sortedRuns = [] ++ s.sortedRuns := (List.nil_append _).symm
  refine discoverPages_wlp hport hwalls hinstants hs hall hnone (fun _ => Nat.zero_le _) ?_
  intro more hmore hfirst
  rw [List.nil_append] at hfirst ⊢
  have hlen : (s.sortedRuns.take 256).length = 256 := by
    rw [List.length_take]
    omega
  rw [if_neg (by rw [hlength hfirst, hlen]; decide)]
  refine discoverPages_wlp hport hwalls hinstants hs hsplit hfirst (fun _ => by omega) ?_
  intro all hagain hsecond
  rw [List.length_drop] at hagain
  have hfull : all.length > maxSessions := by
    rw [hlength hsecond, List.length_append, hlen, List.length_take, List.length_drop]
    change 256 < _
    omega
  rw [if_pos hfull]
  omega

/-! ## When the daemon starts -/

/-- Every request has an answer. -/
theorem ServiceAnswer.nonempty (r : ServiceRequest) : Nonempty (ServiceAnswer r) := by
  cases r with
  | harness r =>
    cases r with
    | freshUuid | instantNow => exact ⟨(0 : Nat)⟩
    | wallClock => exact ⟨(none : Option Nat)⟩
    | isCancelled => exact ⟨false⟩
    | authorize => exact ⟨AuthorizationDecision.allowed⟩
    | modelInvoke | knowledgeRetrieve | approvalDecide | toolInvoke | waitManaged | waitContained | audit =>
      exact ⟨Awaited.cancelled⟩
    | approvalPreview | startContained | reapContained => exact ⟨Except.error ContainmentPortError.unavailable⟩
    | sealLocalWrite | openLocalWrite => exact ⟨Except.error ActionSealError.keyUnavailable⟩
    | startManaged | reapManaged => exact ⟨Except.error ToolPortError.unavailable⟩
    | _ => exact ⟨Except.error PersistencePortError.unavailable⟩
  | loadSession | setTitleIfAbsent | archiveSession | createSession =>
    exact ⟨Except.error IdentityStoreError.unavailable⟩
  | findRun | listSessionRuns | listRuns | listWaiting => exact ⟨Except.error PersistencePortError.unavailable⟩
  | freshSession => exact ⟨(⟨0⟩ : SessionId)⟩
  | wallClock | storedResult | lookup => exact ⟨(none : Option _)⟩
  | policy => exact ⟨((0, 0) : Nat × Bytes32)⟩
  | authorize | audit | lifecycle | attach | awaitTasks => exact ⟨false⟩
  | reserve => exact ⟨Reservation.reserved⟩
  | handles | remaining | sessionCount => exact ⟨(0 : Nat)⟩
  | workflow => exact ⟨(Except.error WorkflowError.failed : Except WorkflowError WorkflowCompletion)⟩
  | _ => exact ⟨()⟩

theorem catalogReads_answers (hwalls : walls.Nonempty) (hinstants : instants.Nonempty) (w : Unit)
    (r : ServiceRequest) : ∃ a w', CatalogReads s walls instants w r a w' := by
  obtain ⟨t, ht⟩ := hwalls
  obtain ⟨now, hnow⟩ := hinstants
  obtain ⟨a⟩ := ServiceAnswer.nonempty r
  cases r with
  | harness r =>
    cases r with
    | loadRun purpose key => exact ⟨s.loadRun key, (), rfl⟩
    | wallClock => exact ⟨some t, (), t, ht, rfl⟩
    | instantNow => exact ⟨now, (), hnow⟩
    | _ => exact ⟨a, (), trivial⟩
  | listRuns after limit => exact ⟨s.listRuns limit after, (), rfl⟩
  | _ => exact ⟨a, (), trivial⟩

theorem catalogReads_mono {walls' : Set Nat} {instants' : Set Instant} (hwalls : walls ⊆ walls')
    (hinstants : instants ⊆ instants') (w : Unit) (r : ServiceRequest) (a : ServiceAnswer r) (w' : Unit)
    (h : CatalogReads s walls instants w r a w') : CatalogReads s walls' instants' w r a w' := by
  cases r with
  | harness r =>
    cases r with
    | wallClock =>
      obtain ⟨t, ht, ha⟩ := h
      exact ⟨t, hwalls ht, ha⟩
    | instantNow => exact hinstants h
    | _ => exact h
  | _ => exact h

/-- Some dialogue leads to the end, and tells of the store. -/
theorem exists_tellsStore (hport : svc.harness.persistence = true) (hwalls : walls.Nonempty)
    (hinstants : instants.Nonempty) (hs : s.Listed) :
    ∃ d x, (discoverRuns svc ()).Returns d (x, ()) ∧ Follows (CatalogReads s walls instants) () d () ∧
      TellsStore svc s walls instants x := by
  obtain ⟨d, ⟨x, u⟩, w, hret, hd⟩ :=
    Prog.exists_returns (catalogReads_answers (s := s) hwalls hinstants) (discoverRuns svc ()) ()
  exact ⟨d, x, hret, hd, Task.wlp_returns (Q := fun y _ _ => TellsStore svc s walls instants y)
    (discoverRuns_wlp hport hwalls hinstants hs) hret hd⟩

theorem RowWritten.listable_iff {run : RunId} {row : StoredRun} (h : RowWritten run row) :
    Listable (run, row) ↔ ∀ e, row.events.head? = some e → e.kind.isRunStarted = true := by
  constructor
  · rintro ⟨item, hitem⟩ e he
    unfold readRun runStartedAt at hitem
    rw [h.numbered.sorted, he] at hitem
    dsimp only at hitem
    split at hitem
    · cases hitem
    · split at hitem
      · cases hitem
      · split at hitem
        · cases hitem
        · next hstarted =>
          split at hstarted
          · cases hstarted
          · split at hstarted
            · cases hstarted
            · split at hstarted
              · next hkind =>
                rw [hkind]
                rfl
              · cases hstarted
  · exact fun hfirst => ⟨_, (h.readable hfirst).read rfl⟩

theorem sortedRuns_length (hs : s.Listed) : s.sortedRuns.length = s.rowids.length := by
  rw [sortedRuns, List.length_insertionSort, ← runRows_keys hs, List.length_map]

/-- **`discover_runs` lists every run once exactly if there are two pages of runs at most and each of
them can be listed, loaded and recovered.** -/
theorem discovers_iff (hport : svc.harness.persistence = true) (hwalls : walls.Nonempty)
    (hinstants : instants.Nonempty) (hs : Written s) :
    Discovers svc s walls instants ↔ s.rowids.length ≤ 512 ∧ ∀ run row, s.runs run = some row →
      ∀ t ∈ walls, ∀ now ∈ instants, Recoverable svc.lib.codec row t now := by
  have hlength := sortedRuns_length hs.listed
  constructor
  · intro h
    -- with one reading of each clock, the run that the program tells of was recovered at it
    have hone : ∀ t ∈ walls, ∀ now ∈ instants, s.sortedRuns.length ≤ 512 ∧
        ∀ x ∈ s.sortedRuns, Fine svc s {t} {now} x := by
      intro t ht now hnow
      obtain ⟨d, x, hret, hd, htold⟩ := exists_tellsStore (s := s) hport
        (Set.singleton_nonempty t) (Set.singleton_nonempty now) hs.listed
      obtain ⟨views, rfl, -⟩ := h.lists d x hret (hd.mono (catalogReads_mono
        (Set.singleton_subset_iff.mpr ht) (Set.singleton_subset_iff.mpr hnow)))
      exact ⟨htold.1, htold.2.2⟩
    obtain ⟨t₀, ht₀⟩ := hwalls
    obtain ⟨now₀, hnow₀⟩ := hinstants
    refine ⟨hlength ▸ (hone t₀ ht₀ now₀ hnow₀).1, fun run row hrow t ht now hnow => ?_⟩
    have hrows := hs.rows run row hrow
    obtain ⟨hlistable, t', rfl, now', rfl, hrecovers⟩ :=
      (hone t ht now hnow).2 (run, row) ((mem_sortedRuns hs.listed).mpr hrow)
    exact (hrows.recovers_iff hrow (hrows.listable_iff.mp hlistable)).mp hrecovers
  · rintro ⟨hshort, hall⟩
    have hfine : ∀ x ∈ s.sortedRuns, ¬ Amiss svc s walls instants x := by
      rintro ⟨run, row⟩ hx hamiss
      have hrow := (mem_sortedRuns hs.listed).mp hx
      have hrows := hs.rows run row hrow
      have hfirst : ∀ e, row.events.head? = some e → e.kind.isRunStarted = true := by
        obtain ⟨t, ht⟩ := hwalls
        obtain ⟨now, hnow⟩ := hinstants
        exact (hall run row hrow t ht now hnow).first
      rcases hamiss with hnot | ⟨t, ht, now, hnow, hnot⟩
      · exact hnot (hrows.listable_iff.mpr hfirst)
      · exact hnot ((hrows.recovers_iff hrow hfirst).mpr (hall run row hrow t ht now hnow))
    have hok : ∀ x, TellsStore svc s walls instants x → ∃ views, x = .ok views ∧
        (views.map fun v => (⟨v.runId, v.sessionId⟩ : RunKey)) = s.sortedRuns.map (·.2.record.key) := by
      intro x hx
      cases x with
      | error e =>
        rcases hx with hlong | ⟨y, hy, hamiss⟩
        · omega
        · exact absurd hamiss (hfine y hy)
      | ok views => exact ⟨views, rfl, hx.2.1⟩
    obtain ⟨d, x, hret, hd, -⟩ := exists_tellsStore (s := s) hport hwalls hinstants hs.listed
    refine ⟨⟨d, x, hret, hd⟩, fun d x hret hd => ?_⟩
    obtain ⟨views, rfl, hkeys⟩ := hok x (Task.wlp_returns (Q := fun y _ _ => TellsStore svc s walls instants y)
      (discoverRuns_wlp hport hwalls hinstants hs.listed) hret hd)
    have hrunkeys : ∀ y ∈ s.sortedRuns, y.2.record.key = ⟨y.1, y.2.sessionId⟩ := fun y hy =>
      (hs.rows y.1 y.2 ((mem_sortedRuns hs.listed).mp hy)).key
    refine ⟨views, rfl, ?_, fun key => ?_⟩
    · have hruns : views.map RunView.runId = s.sortedRuns.map Prod.fst := by
        have := congrArg (List.map RunKey.runId) hkeys
        rw [List.map_map, List.map_map] at this
        refine this.trans (List.map_congr_left fun y hy => ?_)
        show y.2.record.key.runId = y.1
        rw [hrunkeys y hy]
      rw [hruns]
      refine (sortedRuns_pairwise hs.listed).imp_of_mem (S := fun a b => a.1 ≠ b.1) (fun _ _ hab heq => ?_) |>
        List.pairwise_map.mpr
      rw [heq] at hab
      exact lt_irrefl _ hab
    · have hmem : (∃ v ∈ views, v.runId = key.runId ∧ v.sessionId = key.sessionId) ↔
          key ∈ views.map fun v => (⟨v.runId, v.sessionId⟩ : RunKey) := by
        rw [List.mem_map]
        constructor
        · rintro ⟨v, hv, hr, hs⟩
          exact ⟨v, hv, by rw [hr, hs]⟩
        · rintro ⟨v, hv, rfl⟩
          exact ⟨v, hv, rfl, rfl⟩
      rw [hmem, hkeys, List.mem_map]
      constructor
      · rintro ⟨⟨run, row⟩, hy, rfl⟩
        have hrow := (mem_sortedRuns hs.listed).mp hy
        have hkey : row.record.key = ⟨run, row.sessionId⟩ := hrunkeys _ hy
        refine ⟨row, ?_, ?_⟩
        · show s.runs row.record.key.runId = some row
          rw [hkey, hrow]
        · show row.sessionId = row.record.key.sessionId
          rw [hkey]
      · rintro ⟨row, hrow, hsession⟩
        have hy := (mem_sortedRuns hs.listed).mpr hrow
        refine ⟨_, hy, ?_⟩
        rw [hrunkeys _ hy]
        show (⟨key.runId, row.sessionId⟩ : RunKey) = key
        rw [hsession]

/-- **When the service restarts on its own data.** -/
theorem restarts_iff {reliable serial : Prop} {s : (sqlite svc.lib reliable serial).clients.State}
    (hs : (sqlite svc.lib reliable serial).clients.Reachable ⟨empty, []⟩ s)
    (hport : svc.harness.persistence = true) (hwalls : walls.Nonempty) (hinstants : instants.Nonempty) :
    Discovers svc s.world.now walls instants ↔ s.world.now.rowids.length ≤ 512 ∧
      ∀ run row, s.world.now.runs run = some row →
        ∀ t ∈ walls, ∀ now ∈ instants, Recoverable svc.lib.codec row t now :=
  discovers_iff hport hwalls hinstants (reachable_written hs)

/-! ## A long catalog -/

/-- The run with this number, created and not started. -/
def freshContext (n : Nat) : RunContext := .newWithRecoveryContract ⟨n⟩ ⟨2⟩ sampleBudget .nonRestartable

/-- The next run is created. -/
theorem create_next {w : Storage} (hlisted : w.now.Listed) {n : Nat}
    (hrows : w.now.rowids = (List.range n).map RunId.mk) :
    ∃ s', w.now.commit (.createRun (freshContext n).runRecord (freshContext n).durableCheckpoint) = .ok s' ∧
      s'.rowids = (List.range (n + 1)).map RunId.mk ∧
      ∀ run row, s'.runs run = some row → row.events = [] ∨ w.now.runs run = some row := by
  have hvalid : validRecordCheckpoint (freshContext n).runRecord (freshContext n).durableCheckpoint = true := by
    simp [validRecordCheckpoint, freshContext, RunContext.newWithRecoveryContract, RunContext.runRecord,
      RunContext.durableCheckpoint, RunContext.key, DurableCheckpoint.new, DurableRunState.initial,
      DurableRunState.key, DurableRunState.budget, DurableRunState.status, RunRecord.new]
  have habsent : w.now.runs ⟨n⟩ = none := by
    rw [← Option.not_isSome_iff_eq_none, ← hlisted.listed, hrows]
    simp
  obtain ⟨s', hcommit⟩ : ∃ s', w.now.createRun (freshContext n).runRecord (freshContext n).durableCheckpoint =
      .ok s' := by
    unfold Store.createRun
    rw [hvalid, show (freshContext n).runRecord.key.runId = ⟨n⟩ from rfl, habsent]
    exact ⟨_, rfl⟩
  obtain ⟨-, -, rfl⟩ := createRun_ok hcommit
  refine ⟨_, hcommit, ?_, fun run row hrow => ?_⟩
  · rw [List.range_succ, List.map_append]
    exact congrArg (· ++ [_]) hrows
  · by_cases hrun : run = (freshContext n).runRecord.key.runId
    · subst hrun
      left
      have hself := putRun_self.symm.trans hrow
      obtain rfl := Option.some.inj hself
      rfl
    · exact .inr ((putRun_of_ne hrun).symm.trans hrow)

theorem exists_runs (n : Nat) : ∃ s, (sqlite plainLibrary True False).clients.Reachable ⟨empty, []⟩ s ∧
    (sqlite plainLibrary True False).clients.AllIdle s ∧
    s.world.now.rowids = (List.range n).map RunId.mk ∧
    ∀ run row, s.world.now.runs run = some row → row.events = [] := by
  induction n with
  | zero => exact ⟨_, .start, Machine.allIdle_start, rfl, fun run row hrow => by cases hrow⟩
  | succ n ih =>
    obtain ⟨s, hs, hidle, hrows, hevents⟩ := ih
    obtain ⟨l, hl⟩ := hidle 0
    obtain ⟨s', hcommit, hrows', hevents'⟩ := create_next (reachable_written hs).listed hrows
    have hnew : (sqlite plainLibrary True False).admits
        (sampleCommand (.newContext ⟨n⟩ ⟨2⟩ sampleBudget .nonRestartable)) := rfl
    have hstart : (sqlite plainLibrary True False).admits (sampleCommand (.startRun none)) := rfl
    have hbegun := hs.step (.begin hl hnew fun h => h.elim)
    have hheld := hbegun.step (.finish (l := Holding.context (freshContext n)) (Function.update_self ..))
    have hasked := hheld.step (.begin (Function.update_self ..) hstart fun h => h.elim)
    have hcreated := hasked.step (.act (r := .createRun (freshContext n).runRecord
      (freshContext n).durableCheckpoint) (a := (Except.ok () : Except PersistencePortError Unit))
      (Function.update_self ..) (.wrote (.inl rfl) rfl rfl hcommit))
    refine ⟨_, hcreated.step (.crash (i := 0)), fun j => ?_, hrows', fun run row hrow => ?_⟩
    · by_cases hj : j = 0
      · refine ⟨(sqlite plainLibrary True False).clients.blank, ?_⟩
        dsimp only
        rw [hj, Function.update_self]
      · obtain ⟨l', hl'⟩ := hidle j
        refine ⟨l', ?_⟩
        dsimp only
        iterate 5 rw [Function.update_of_ne hj]
        exact hl'
    · rcases hevents' run row hrow with hnil | hold
      · exact hnil
      · exact hevents run row hold

/-- **The daemon does not start on a store with 513 runs**, although all of its clocks are right. -/
theorem long_catalog_refuses_start :
    ∃ s : (sqlite sampleService.lib True False).clients.State,
      (sqlite sampleService.lib True False).clients.Reachable ⟨empty, []⟩ s ∧
      s.world.now.rowids.length = 513 ∧
      (∀ run row state, s.world.now.runs run = some row →
        (DurableRunState.initial row.record).replay sampleService.lib.codec row.events = .ok state →
        ∀ started, state.context.startedAtUnixMillis = some started → started ≤ 2000) ∧
      ¬ Discovers sampleService s.world.now {2000} {0} := by
  obtain ⟨s, hs, -, hrows, hevents⟩ := exists_runs 513
  have hlength : s.world.now.rowids.length = 513 := by rw [hrows, List.length_map, List.length_range]
  refine ⟨s, hs, hlength, fun run row state hrow hstate started hstarted => ?_, fun h => ?_⟩
  · rw [hevents run row hrow] at hstate
    obtain rfl := Except.ok.inj hstate
    cases hstarted
  · have hshort := ((discovers_iff rfl (Set.singleton_nonempty 2000) (Set.singleton_nonempty 0)
      (reachable_written hs)).mp h).1
    omega

/-- The run of the tool that reads is found again. -/
theorem tool_run_restarts :
    Discovers sampleService (sqliteRun favourable toolRunCommands).world.now {2000} {0} := by
  have hreach := sqliteRun_reachable favourable toolRunCommands (by decide +kernel)
  have hwritten := reachable_written hreach
  have hrowids : (sqliteRun favourable toolRunCommands).world.now.rowids = [⟨1⟩] := by decide +kernel
  have hrecovers : ((sqliteRun favourable toolRunCommands).world.now.runs ⟨1⟩).all (fun row =>
      (row.events.head?.all fun e => e.kind.isRunStarted) &&
        isOkAnd ((sqliteRun favourable toolRunCommands).world.now.loadRun row.record.key) fun loaded =>
          isOkAnd (recoverLoadedRun plainCodec loaded 2000 0) fun _ => true) = true := by decide +kernel
  refine (restarts_iff hreach rfl (Set.singleton_nonempty 2000) (Set.singleton_nonempty 0)).mpr ⟨?_, ?_⟩
  · rw [hrowids]
    decide
  · rintro run row hrow t rfl now rfl
    obtain rfl : run = ⟨1⟩ := by
      have hmem := (hwritten.listed.listed run).mpr (by rw [hrow]; rfl)
      rw [hrowids] at hmem
      exact List.mem_singleton.mp hmem
    rw [hrow, Option.all_some, Bool.and_eq_true] at hrecovers
    obtain ⟨hfirst, hrecover⟩ := hrecovers
    refine ((hwritten.rows _ row hrow).recovers_iff hrow fun e he => ?_).mp ?_
    · simpa [he] using hfirst
    · obtain ⟨loaded, hload, hrecovered⟩ := isOkAnd_iff.mp hrecover
      obtain ⟨d, hd, -⟩ := isOkAnd_iff.mp hrecovered
      exact ⟨loaded, d, hload, hd⟩

end LocalAgent
