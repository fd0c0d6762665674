import LocalAgent.Store.Catalog
import LocalAgent.Store.Consistent

/-!
# What the store holds of a run

`reachable_consistent` gives every row of a reachable store the form of `RowKept`. Here it is read
off what that means for the readers of the store: for the terminal flag of the summaries, for
`load_run`, for the checkpoint that recovery starts from, and for the budget over a run's whole
life.
-/
namespace LocalAgent

open Program Store DurableRunState

variable {lib : Library} {reliable serial : Prop} {run : RunId} {row : StoredRun}

/-! ## The terminal flag -/

/-- Replaying the committed events ends in a finished run. -/
def StoredRun.Finished (codec : EventCodec) (row : StoredRun) : Prop :=
  ∃ t, (DurableRunState.initial row.record).replay codec row.events = .ok t ∧
    t.context.status.isFinished = true

/-- The store reports the run as terminal exactly if `truth`: in its row, and in every summary. -/
structure ReportsTerminal (s : Store) (run : RunId) (truth : Prop) : Prop where
  column : ∀ row, s.runs run = some row → (row.terminal = true ↔ truth)
  findRun : ∀ key summary, s.findRun key = .ok (some summary) → summary.key.runId = run →
    (summary.terminal = true ↔ truth)
  listRuns : ∀ limit after page summary, s.listRuns limit after = .ok page → summary ∈ page.items →
    summary.key.runId = run → (summary.terminal = true ↔ truth)
  listSessionRuns : ∀ session limit after page summary,
    s.listSessionRuns session limit after = .ok page → summary ∈ page.items →
    summary.key.runId = run → (summary.terminal = true ↔ truth)

theorem readRun_ok {foreign : RunKey → Bool} {summary : DurableRunSummary}
    (h : readRun foreign run row = .ok summary) :
    summary.key.runId = run ∧ summary.terminal = row.terminal := by
  unfold readRun at h
  split at h
  · cases h
  · rename_i hkey
    split at h
    · cases h
    · split at h
      · cases h
      · cases h
        simp only [Bool.or_eq_true, decide_eq_true_eq, not_or, not_not] at hkey
        exact ⟨hkey.1.1, rfl⟩

theorem findRun_ok {s : Store} {key : RunKey} {summary : DurableRunSummary}
    (h : s.findRun key = .ok (some summary)) :
    ∃ row, s.runs summary.key.runId = some row ∧ summary.terminal = row.terminal := by
  unfold findRun at h
  split at h
  · cases h
  · rename_i row hrow
    split at h
    · cases h
    · split at h
      · cases h
      · split at h
        · cases h
        · rename_i hkey
          split at h
          · cases h
          · cases h
            refine ⟨row, ?_, rfl⟩
            rw [show (Store.summary row _).key = key from not_not.mp hkey, hrow]

theorem mem_runRows_runs {s : Store} {x : RunId × StoredRun} (h : x ∈ s.runRows) :
    s.runs x.1 = some x.2 := by
  obtain ⟨run, -, hx⟩ := List.mem_filterMap.mp h
  obtain ⟨row, hrow, rfl⟩ := Option.map_eq_some_iff.mp hx
  exact hrow

/-- Every summary tells the flag of the row. -/
theorem reportsTerminal {s : Store} {truth : Prop}
    (h : ∀ row, s.runs run = some row → (row.terminal = true ↔ truth)) :
    ReportsTerminal s run truth := by
  have hread : ∀ {foreign : RunKey → Bool} {x : RunId × StoredRun} {summary : DurableRunSummary},
      x ∈ s.runRows → readRun foreign x.1 x.2 = .ok summary → summary.key.runId = run →
      (summary.terminal = true ↔ truth) := by
    intro foreign x summary hx hsummary hrun
    obtain ⟨hkey, hterminal⟩ := readRun_ok hsummary
    have hrow := mem_runRows_runs hx
    rw [← hkey, hrun] at hrow
    rw [hterminal]
    exact h x.2 hrow
  refine ⟨h, ?_, ?_, ?_⟩
  · intro key summary hfind hrun
    obtain ⟨row, hrow, hterminal⟩ := findRun_ok hfind
    rw [hrun] at hrow
    rw [hterminal]
    exact h row hrow
  · intro limit after page summary hlist hmem hrun
    unfold listRuns at hlist
    split at hlist
    · cases hlist
    · obtain ⟨x, hx, hsummary⟩ := Paging.mem_of_fetch hlist hmem
      have hx' := (List.mem_insertionSort _).mp (List.mem_filter.mp hx).1
      exact hread hx' hsummary hrun
  · intro session limit after page summary hlist hmem hrun
    unfold listSessionRuns at hlist
    split at hlist
    · cases hlist
    · split at hlist
      · cases hlist
      · obtain ⟨⟨x, n⟩, hx, hsummary⟩ := Paging.mem_of_fetch hlist hmem
        have hx' := List.mem_reverse.mp (List.mem_filter.mp (List.mem_filter.mp hx).1).1
        exact hread (List.fst_mem_of_mem_zipIdx hx') hsummary hrun

/-- The flag of a row follows `RunFinished`, the status every kind of end. -/
theorem RowKept.terminal_iff {marred late : Prop} (h : RowKept lib marred late run row) :
    (row.terminal = true ↔ row.Finished lib.codec) ↔
      ∀ e ∈ row.events, e.kind.isGraphTerminal = false := by
  obtain ⟨t, ht⟩ := h.replayed
  have hfinished : row.Finished lib.codec ↔ t.context.status.isFinished = true := by
    refine ⟨?_, fun hs => ⟨t, ht, hs⟩⟩
    rintro ⟨t', ht', hs⟩
    obtain rfl : t = t' := Except.ok.inj (ht.symm.trans ht')
    exact hs
  have hterminal : row.terminal = true ↔ 0 < row.events.countP fun e => e.kind.isRunFinished := by
    rw [h.terminal, List.any_eq_true, List.countP_pos_iff]
  have hgraph : (∀ e ∈ row.events, e.kind.isGraphTerminal = false) ↔
      row.events.countP (fun e => e.kind.isGraphTerminal) = 0 := by
    rw [List.countP_eq_zero]
    simp
  have hcount := countP_isFinish row.events
  have hend := replay_finish_count ht
  rw [hfinished, hterminal, hgraph]
  cases hs : t.context.status.isFinished with
  | true =>
    rw [hs, if_pos rfl] at hend
    simp only [iff_true]
    omega
  | false =>
    rw [hs, if_neg Bool.false_ne_true] at hend
    simp only [Bool.false_eq_true, iff_false]
    omega

/-- **The terminal flag tells the truth** exactly for the runs that no graph terminal ended. -/
theorem terminal_flag_iff {s : (sqlite lib True False).clients.State}
    (hs : (sqlite lib True False).clients.Reachable ⟨empty, []⟩ s)
    (hrow : s.world.now.runs run = some row) :
    ReportsTerminal s.world.now run (row.Finished lib.codec) ↔
      ∀ e ∈ row.events, e.kind.isGraphTerminal = false := by
  have hkept := (reachable_consistent (.inl trivial) hs).rows run row hrow
  rw [← hkept.terminal_iff]
  refine ⟨fun h => h.column row hrow, fun h => reportsTerminal fun row' hrow' => ?_⟩
  obtain rfl : row = row' := Option.some.inj (hrow.symm.trans hrow')
  exact h

/-- A run that is started and completed. -/
def plainRunCommands : List (Nat × Command plainLibrary) :=
  [(0, sampleCommand (.newContext ⟨1⟩ ⟨2⟩ sampleBudget (.restartable 1))),
   (0, sampleCommand (.startRun none)), (0, sampleCommand .completeRun)]

theorem terminal_flag_of_completed_run :
    ∃ row, (sqliteRun favourable plainRunCommands).world.now.runs ⟨1⟩ = some row ∧
      row.terminal = true ∧
      ReportsTerminal (sqliteRun favourable plainRunCommands).world.now ⟨1⟩
        (row.Finished plainCodec) := by
  have hreach := sqliteRun_reachable favourable plainRunCommands (by decide +kernel)
  have hall : ((sqliteRun favourable plainRunCommands).world.now.runs ⟨1⟩).all (fun row =>
      row.terminal && row.events.all fun e => !e.kind.isGraphTerminal) = true := by decide +kernel
  have hsome : ((sqliteRun favourable plainRunCommands).world.now.runs ⟨1⟩).isSome = true := by
    decide +kernel
  obtain ⟨row, hrow⟩ := Option.isSome_iff_exists.mp hsome
  rw [hrow, Option.all_some, Bool.and_eq_true, List.all_eq_true] at hall
  refine ⟨row, hrow, hall.1, (terminal_flag_iff hreach hrow).mpr fun e he => ?_⟩
  simpa using hall.2 e he

/-- A graph of one node that is completed. -/
def graphRunCommands : List (Nat × Command plainLibrary) :=
  [(0, sampleCommand (.newContext ⟨1⟩ ⟨2⟩ sampleBudget (.graph 1 7#256))),
   (0, sampleCommand (.startRun none)),
   (0, sampleCommand (.startGraph 7#256 ⟨"end"⟩ .complete .never)),
   (0, sampleCommand (.enterGraphNode ⟨"end"⟩ .complete .never)),
   (0, sampleCommand (.completeGraph ⟨3⟩ ⟨"end"⟩))]

/-- The run is finished and the store says that it is not. -/
theorem completed_graph_not_terminal :
    ∃ row, (sqlite plainLibrary True False).clients.Reachable ⟨empty, []⟩
        (sqliteRun favourable graphRunCommands) ∧
      (sqliteRun favourable graphRunCommands).world.now.runs ⟨1⟩ = some row ∧
      row.Finished plainCodec ∧ row.terminal = false ∧
      ¬ ReportsTerminal (sqliteRun favourable graphRunCommands).world.now ⟨1⟩
        (row.Finished plainCodec) := by
  have hreach := sqliteRun_reachable favourable graphRunCommands (by decide +kernel)
  have hall : ((sqliteRun favourable graphRunCommands).world.now.runs ⟨1⟩).all (fun row =>
      !row.terminal && isOkAnd ((DurableRunState.initial row.record).replay plainCodec row.events)
        (·.context.status.isFinished)) = true := by decide +kernel
  have hsome : ((sqliteRun favourable graphRunCommands).world.now.runs ⟨1⟩).isSome = true := by
    decide +kernel
  obtain ⟨row, hrow⟩ := Option.isSome_iff_exists.mp hsome
  rw [hrow, Option.all_some, Bool.and_eq_true] at hall
  obtain ⟨hterminal, hreplay⟩ := hall
  have hfinished : row.Finished plainCodec := isOkAnd_iff.mp hreplay
  have hfalse : row.terminal = false := by simpa using hterminal
  refine ⟨row, hreach, hrow, hfinished, hfalse, fun h => ?_⟩
  rw [(h.column row hrow).mpr hfinished] at hfalse
  cases hfalse

/-! ## What the history says -/

section

variable {S : Setting lib}

/-- The event that an answer has committed to a run. -/
def Request.commits (r : Request) (a : Answer r) (run : RunId) : Option AgentEvent :=
  if r.accepted a then (r.transition.filter fun t => t.key.runId = run).map (·.event) else none

/-- The events that were appended to a run, in their order. -/
def committed (run : RunId) (h : S.clients.History) : List AgentEvent :=
  h.filterMap fun
    | (_, .did r a) => r.commits a run
    | _ => none

/-- The run of this record was created. -/
def Created (h : S.clients.History) (record : RunRecord) : Prop :=
  ∃ i checkpoint, (i, .did (.createRun record checkpoint) (.ok ())) ∈ h

theorem committed_append {h h' : S.clients.History} :
    committed run (h ++ h') = committed run h ++ committed run h' := List.filterMap_append

theorem committed_did {i : Nat} {r : Request} {a : Answer r} :
    committed (S := S) run [(i, .did r a)] = (r.commits a run).toList := by
  simp only [committed, List.filterMap_cons, List.filterMap_nil]
  cases r.commits a run <;> rfl

end

/-- The store holds the runs that were created, with the events that were appended to them. -/
structure Chronicled (w : Storage) (h : (sqlite lib reliable serial).clients.History) : Prop where
  log : ∀ run, w.now.log run = committed run h
  created : ∀ record, Created h record ↔
    ∃ row, w.now.runs record.key.runId = some row ∧ row.record = record

section

variable {w w' : Storage} {h : (sqlite lib reliable serial).clients.History} {i : Nat} {r : Request}
  {a : Answer r}

theorem created_concat {e : (sqlite lib reliable serial).clients.Act} {record : RunRecord} :
    Created (h ++ [(i, e)]) record ↔
      Created h record ∨ ∃ checkpoint, e = .did (.createRun record checkpoint) (.ok ()) := by
  simp only [Created, List.mem_append, List.mem_singleton, Prod.mk.injEq]
  constructor
  · rintro ⟨j, checkpoint, hold | ⟨-, hnew⟩⟩
    · exact .inl ⟨j, checkpoint, hold⟩
    · exact .inr ⟨checkpoint, hnew.symm⟩
  · rintro (⟨j, checkpoint, hold⟩ | ⟨checkpoint, hnew⟩)
    · exact ⟨j, checkpoint, .inl hold⟩
    · exact ⟨i, checkpoint, .inr ⟨rfl, hnew.symm⟩⟩

/-- An act that tells nothing of the runs. -/
theorem Chronicled.silent (hc : Chronicled w h) {e : (sqlite lib reliable serial).clients.Act}
    (he : ∀ r a, e ≠ .did r a) : Chronicled w (h ++ [(i, e)]) := by
  refine ⟨fun run => ?_, fun record => ?_⟩
  · have hnone : committed (S := sqlite lib reliable serial) run [(i, e)] = [] := by
      cases e with
      | did r a => exact absurd rfl (he r a)
      | _ => rfl
    rw [committed_append, hnone, List.append_nil]
    exact hc.log run
  · rw [created_concat, ← hc.created]
    refine or_iff_left ?_
    rintro ⟨checkpoint, hnew⟩
    exact he _ _ hnew

/-- What an answer has committed to a run stands at the end of its log. -/
theorem RunsMoved.log (hmoved : RunsMoved w r a w') (run : RunId) :
    w'.now.log run = w.now.log run ++ (r.commits a run).toList := by
  cases hmoved with
  | created record checkpoint request opened absent _ runs =>
    subst request
    by_cases hrun : run = record.key.runId
    · subst hrun
      simp only [Store.log, runs, putRun_self, absent]
      rfl
    · simp only [Store.log, runs, putRun_of_ne hrun]
      exact (List.append_nil _).symm
  | appended t row transition accepted continues runs =>
    simp only [Request.commits, accepted, if_true, transition]
    by_cases hrun : run = t.key.runId
    · subst hrun
      simp only [Store.log, runs, putRun_self, continues.stored, append_events]
      simp [Option.filter]
    · simp only [Store.log, runs, putRun_of_ne hrun]
      simp [Option.filter, Ne.symm hrun]
  | still silent opened runs =>
    have hnone : r.commits a run = none := by
      unfold Request.commits
      split
      · rename_i haccepted
        cases ht : r.transition with
        | none => rfl
        | some t => exact absurd (haccepted.symm.trans (silent t ht)) (by simp)
      · rfl
    simp only [Store.log, runs, hnone]
    exact (List.append_nil _).symm

theorem Chronicled.log_did (hc : Chronicled w h) (hmoved : RunsMoved w r a w') (run : RunId) :
    w'.now.log run = committed run (h ++ [(i, .did r a)]) := by
  rw [committed_append, committed_did, ← hc.log]
  exact hmoved.log run

theorem Chronicled.created_did (hc : Chronicled w h) (hmoved : RunsMoved w r a w')
    (record : RunRecord) : Created (h ++ [(i, .did r a)]) record ↔
      ∃ row, w'.now.runs record.key.runId = some row ∧ row.record = record := by
  rw [created_concat, hc.created]
  cases hmoved with
  | created new checkpoint request opened absent _ runs =>
    subst request
    have ha : a = .ok () := by
      cases a with
      | ok u => rfl
      | error e => cases opened
    subst ha
    rw [runs]
    by_cases hrun : record.key.runId = new.key.runId
    · rw [hrun, putRun_self, absent]
      constructor
      · rintro (⟨row, hrow, -⟩ | ⟨cp, hnew⟩)
        · cases hrow
        · cases hnew
          exact ⟨_, rfl, rfl⟩
      · rintro ⟨row, hrow, hrecord⟩
        cases hrow
        cases hrecord
        exact .inr ⟨checkpoint, rfl⟩
    · rw [putRun_of_ne hrun]
      refine or_iff_left ?_
      rintro ⟨cp, hnew⟩
      cases hnew
      exact hrun rfl
  | appended t old transition accepted continues runs =>
    have hnot : ¬ ∃ cp, (Machine.Act.did r a : (sqlite lib reliable serial).clients.Act) =
        .did (.createRun record cp) (.ok ()) := by
      rintro ⟨cp, hnew⟩
      cases hnew
      cases transition
    rw [or_iff_left hnot, runs]
    by_cases hrun : record.key.runId = t.key.runId
    · rw [hrun, putRun_self, continues.stored]
      constructor
      · rintro ⟨row, hrow, hrecord⟩
        cases hrow
        exact ⟨_, rfl, by rw [append_record, hrecord]⟩
      · rintro ⟨row, hrow, hrecord⟩
        cases hrow
        exact ⟨old, rfl, by rwa [append_record] at hrecord⟩
    · rw [putRun_of_ne hrun]
  | still silent opened runs =>
    rw [runs]
    refine or_iff_left_of_imp ?_
    rintro ⟨cp, hnew⟩
    cases hnew
    obtain ⟨key, checkpoint, hload⟩ := opened _ rfl
    obtain ⟨row, hrow, hkey, hrecord, -⟩ := loadRun_ok hload
    exact ⟨row, by rw [show record = row.record from hrecord, hkey, hrow], hrecord.symm⟩

end

theorem reachable_chronicled {s : (sqlite lib reliable serial).clients.State}
    (hs : (sqlite lib reliable serial).clients.Reachable ⟨empty, []⟩ s) :
    Chronicled s.world s.history := by
  refine hs.induct (P := Chronicled) (sqlite lib reliable serial).watch_sound ?_ ?_ ?_ ?_
  · refine ⟨fun run => rfl, fun record => ⟨?_, ?_⟩⟩
    · rintro ⟨i, checkpoint, hmem⟩
      cases hmem
    · rintro ⟨row, hrow, -⟩
      cases hrow
  · intro w h i cmd l hc _
    exact hc.silent fun r a he => by cases he
  · intro w h i r a w' hc hacts
    have hmoved := Served.runsMoved hacts.answered
    exact ⟨hc.log_did hmoved, hc.created_did hmoved⟩
  · intro w h i hc
    exact hc.silent fun r a he => by cases he

/-! ## Loading -/

/-- The number at which the replay of the first `n` events stops. -/
theorem RowKept.replay_take {marred late : Prop} (h : RowKept lib marred late run row) {n : Nat}
    (hn : n ≤ row.events.length) {t : DurableRunState}
    (ht : (DurableRunState.initial row.record).replay lib.codec (row.events.take n) = .ok t) :
    t.lastSequence = lastOf n := by
  cases n with
  | zero =>
    cases ht
    rfl
  | succ n =>
    have hlen : (row.events.take (n + 1)).length = n + 1 := by
      rw [List.length_take, Nat.min_eq_left hn]
    have hshort := h.short
    have hseq : WellSequenced row.record 0 (row.events.take (n + 1)) :=
      replay_wellSequenced ht rfl rfl (by omega)
    have hne : row.events.take (n + 1) ≠ [] := by
      intro hnil
      rw [hnil] at hlen
      cases hlen
    rw [replay_lastSequence ht hseq hne, hlen]
    simp [lastOf]

theorem RowKept.written {marred late : Prop} (h : RowKept lib marred late run row) : RowWritten run row := by
  refine ⟨h.key, h.storeVersion, h.checkpointVersion, h.numbered, h.events, h.terminal, ?_⟩
  obtain ⟨n, hn, t, ht, hthrough, hversion, hcheckpoint⟩ := h.covered
  have hkey : t.context.key = row.record.key := (replay_identity ht).1
  rw [hthrough, ← h.replay_take hn ht]
  rcases hcheckpoint with hcp | ⟨-, hcp⟩ <;> rw [hcp] <;> exact ⟨hversion, rfl, hkey, rfl⟩

theorem endsLast_of_dropLast (hlast : ∀ e ∈ row.events.dropLast, e.kind.isRunFinished = false) :
    EndsLast row := by
  unfold EndsLast
  rcases List.eq_nil_or_concat row.events with hnil | ⟨init, e, hconcat⟩
  · simp [hnil]
  · rw [List.concat_eq_append] at hconcat
    rw [hconcat, List.dropLast_concat] at hlast
    have hnone : (init.any fun e => e.kind.isRunFinished) = false :=
      List.any_eq_false.mpr fun e' he' => by simp [hlast e' he']
    simp [hconcat, hnone]

/-- A row that ends with its `RunFinished`, or has none, can be loaded. -/
theorem RowKept.load {marred late : Prop} {s : Store} (h : RowKept lib marred late run row)
    (hrow : s.runs run = some row)
    (hlast : ∀ e ∈ row.events.dropLast, e.kind.isRunFinished = false) :
    s.loadRun row.record.key = .ok ⟨row.record, row.checkpoint, row.events⟩ := by
  rw [h.written.load hrow, if_pos (endsLast_of_dropLast hlast)]

/-- **Every run that the harness wrote can be loaded**, with exactly its events, unless something
was written behind its end. -/
theorem harness_runs_loadable {s : (sqlite lib True False).clients.State}
    (hs : (sqlite lib True False).clients.Reachable ⟨empty, []⟩ s)
    (hcalm : ∀ p i r a, s.history[p]? = some (i, .did r a) →
      ((sqlite lib True False).view i (s.history.take p)).overruns r a = false)
    {record : RunRecord} (hcreated : Created s.history record) :
    ∃ checkpoint, s.world.now.loadRun record.key =
      .ok ⟨record, checkpoint, committed record.key.runId s.history⟩ := by
  have hchronicle := reachable_chronicled hs
  obtain ⟨row, hrow, hrecord⟩ := (hchronicle.created record).mp hcreated
  have hkept := (reachable_consistent (.inl trivial) hs).rows _ row hrow
  have hevents : row.events = committed record.key.runId s.history := by
    rw [← hchronicle.log]
    simp only [Store.log, hrow]
  have hlast : ∀ e ∈ row.events.dropLast, e.kind.isRunFinished = false := by
    rcases hkept.last with hlate | hlast
    · obtain ⟨p, i, r, a, hp, hover⟩ := hlate.answered
      rw [hcalm p i r a hp] at hover
      cases hover
    · exact hlast
  refine ⟨row.checkpoint, ?_⟩
  rw [← hevents, ← hrecord]
  exact hkept.load hrow hlast

/-- A test of every answer of a history, in the view of the client that got it. -/
def answersPass (check : View lib → (r : Request) → Answer r → Bool)
    (h : (sqlite lib reliable serial).clients.History) : Bool :=
  (List.range h.length).all fun p => match h[p]? with
    | some (i, .did r a) => check ((sqlite lib reliable serial).view i (h.take p)) r a
    | _ => true

theorem answersPass_did {check : View lib → (r : Request) → Answer r → Bool}
    {h : (sqlite lib reliable serial).clients.History} (hpass : answersPass check h = true)
    {p i : Nat} {r : Request} {a : Answer r} (hp : h[p]? = some (i, .did r a)) :
    check ((sqlite lib reliable serial).view i (h.take p)) r a = true := by
  have hlt := (List.getElem?_eq_some_iff.mp hp).1
  have hat := List.all_eq_true.mp hpass p (List.mem_range.mpr hlt)
  rwa [hp] at hat

/-- A call of the tool that reads. -/
def readCall : ToolCall := ⟨⟨5⟩, ⟨"read"⟩, .null⟩

def toolRunCommands : List (Nat × Command plainLibrary) :=
  [(0, sampleCommand (.newContext ⟨1⟩ ⟨2⟩ sampleBudget (.restartable 1))),
   (0, sampleCommand (.startRun none)), (0, sampleCommand (.invokeTool readCall)),
   (0, sampleCommand .completeRun)]

def plainRecord : RunRecord := .new ⟨⟨1⟩, ⟨2⟩⟩ sampleBudget (.restartable 1)

theorem created_plainRecord {ports : Nat → (r : Request) → Answer r}
    {cmds : List (Nat × Command plainLibrary)}
    (h : ((sqliteRun ports cmds).history.any fun
      | (_, .did (.createRun record _) (.ok _)) => record = plainRecord
      | _ => false) = true) : Created (sqliteRun ports cmds).history plainRecord := by
  obtain ⟨⟨i, e⟩, hmem, hcreated⟩ := List.any_eq_true.mp h
  split at hcreated
  · rename_i heq
    cases heq
    rw [decide_eq_true_eq] at hcreated
    rw [← hcreated]
    exact ⟨i, _, hmem⟩
  · cases hcreated

theorem tool_run_loaded :
    ∃ checkpoint, (sqliteRun favourable toolRunCommands).world.now.loadRun plainRecord.key =
      .ok ⟨plainRecord, checkpoint, committed ⟨1⟩ (sqliteRun favourable toolRunCommands).history⟩ := by
  have hreach := sqliteRun_reachable favourable toolRunCommands (by decide +kernel)
  have hpass : answersPass (fun v r a => !v.overruns r a)
      (sqliteRun favourable toolRunCommands).history = true := by decide +kernel
  refine harness_runs_loadable hreach (fun p i r a hp => ?_) (created_plainRecord (by decide +kernel))
  simpa using answersPass_did hpass hp

/-- A tool call that is cut off by a cancellation. -/
def cutOffCall (n : Nat) : (r : Request) → Answer r
  | .toolInvoke .. => .cancelled
  | r => favourable n r

/-- The call is recorded behind `RunFinished`, and the run can no longer be loaded. -/
theorem cut_off_run_corrupt :
    (sqlite plainLibrary True False).clients.Reachable ⟨empty, []⟩
        (sqliteRun cutOffCall (toolRunCommands.take 3)) ∧
      Created (sqliteRun cutOffCall (toolRunCommands.take 3)).history plainRecord ∧
      (sqliteRun cutOffCall (toolRunCommands.take 3)).world.now.loadRun plainRecord.key =
        .error .corrupt := by
  refine ⟨sqliteRun_reachable _ _ (by decide +kernel), created_plainRecord (by decide +kernel), ?_⟩
  have herror : isErrAnd ((sqliteRun cutOffCall (toolRunCommands.take 3)).world.now.loadRun
      plainRecord.key) (· = .corrupt) = true := by decide +kernel
  obtain ⟨e, he, hcorrupt⟩ := isErrAnd_iff.mp herror
  rw [he, of_decide_eq_true hcorrupt]

/-! ## Checkpoints -/

/-- Every checkpoint that was appended is the replay of the log up to and including its event. -/
def CheckpointsReplay (h : (sqlite lib reliable serial).clients.History) : Prop :=
  ∀ p i r a t checkpoint, h[p]? = some (i, .did r a) → r.transition = some t → r.accepted a = true →
    t.checkpoint = some checkpoint →
    ∃ record state, Created (h.take p) record ∧ record.key = t.key ∧
      (DurableRunState.initial record).replay lib.codec (committed t.key.runId (h.take (p + 1))) =
        .ok state ∧ checkpoint = .new state

/-- An accepted checkpoint is the replay of the stored log, or its context is marred. -/
theorem reachable_checkpointsReplay (htrust : reliable ∨ serial)
    {s : (sqlite lib reliable serial).clients.State}
    (hs : (sqlite lib reliable serial).clients.Reachable ⟨empty, []⟩ s) (hclean : ¬ Marred s.history) :
    CheckpointsReplay s.history := by
  intro p i r a t checkpoint hp ht haccepted hcheckpoint
  obtain ⟨u, w', hu, heq, hacts⟩ := hs.acts (sqlite lib reliable serial).watch_sound hp
  have hchron := reachable_chronicled hu
  have hmoved := Served.runsMoved hacts.answered
  have hlog := hchron.log_did (i := i) hmoved t.key.runId
  have hnext : s.history.take (p + 1) = u.history ++ [(i, .did r a)] := by
    rw [List.take_add_one, hp, heq]
    rfl
  rw [hnext, ← heq, ← hlog]
  cases hmoved with
  | created record cp request =>
    subst request
    cases ht
  | still silent => exact absurd (haccepted.symm.trans (silent t ht)) (by simp)
  | appended t' row transition _ continues runs =>
    obtain rfl : t' = t := Option.some.inj (transition.symm.trans ht)
    obtain ⟨k, hk, hrecord, hevents, k', m, m', hk', hkey, -, hreplay, happly, hcp, -⟩ :=
      (reachable_consistent htrust hu).extends htrust hacts transition continues
    obtain rfl : k = k' := Option.some.inj (hk.symm.trans hk')
    refine ⟨k.record, m', (hchron.created _).mpr ⟨row, ?_, hrecord⟩, hkey.symm, ?_, ?_⟩
    · rw [← hkey]
      exact continues.stored
    · simp only [Store.log, runs, putRun_self, append_events, hevents]
      exact DurableRunState.replay_concat.mpr ⟨m, hreplay, happly⟩
    · refine (hcp checkpoint hcheckpoint).resolve_right ?_
      rintro ⟨htainted, -⟩
      exact hclean ⟨i, u.history, heq ▸ List.take_prefix p s.history, htainted⟩

/-- A replayed state is never called corrupt. -/
theorem classify_not_corrupt {record : RunRecord} {events : List AgentEvent}
    {contract : RecoveryContract} {state : DurableRunState} {nowUnixMillis : Nat} {now : Instant}
    (h : (DurableRunState.initial record).replay lib.codec events = .ok state) :
    classify contract nowUnixMillis now state ≠ .error .corruptLog ∧
      classify contract nowUnixMillis now state ≠ .error .corruptCheckpoint := by
  unfold classify
  split
  · exact ⟨nofun, nofun⟩
  · split
    · exact ⟨nofun, nofun⟩
    · exact ⟨nofun, nofun⟩
    · exact ⟨nofun, nofun⟩
    · rename_i hrunning
      have hstarted := replay_started h hrunning
      split
      · rename_i hnone
        rw [hnone] at hstarted
        cases hstarted
      · split
        · exact ⟨nofun, nofun⟩
        · split
          · exact ⟨nofun, nofun⟩
          · unfold classifyRunning
            split_ifs
            · exact ⟨nofun, nofun⟩
            · split <;> exact ⟨nofun, nofun⟩
            · exact ⟨nofun, nofun⟩
            · exact ⟨nofun, nofun⟩
            · split <;> exact ⟨nofun, nofun⟩

/-- What `load_run` returns of a row that it does not find corrupt. -/
def StoredRun.loaded (row : StoredRun) : LoadedRun := ⟨row.record, row.checkpoint, row.events⟩

/-- **Checkpoints equal the replay they stand for**, unless an audit failed where the flag is set
without an event; so recovery never calls a log or checkpoint of the harness corrupt. -/
theorem checkpoints_equal_replay (htrust : reliable ∨ serial)
    {s : (sqlite lib reliable serial).clients.State}
    (hs : (sqlite lib reliable serial).clients.Reachable ⟨empty, []⟩ s)
    (hcalm : ∀ p i r a, s.history[p]? = some (i, .did r a) →
      ((sqlite lib reliable serial).view i (s.history.take p)).mars r a = false) :
    CheckpointsReplay s.history ∧
      ∀ run row nowUnixMillis now, s.world.now.runs run = some row →
        recoverLoadedRun lib.codec row.loaded nowUnixMillis now ≠ .error .corruptLog ∧
        recoverLoadedRun lib.codec row.loaded nowUnixMillis now ≠ .error .corruptCheckpoint := by
  have hclean : ¬ Marred s.history := by
    intro hm
    obtain ⟨p, i, r, a, hp, hmars⟩ := hm.answered
    rw [hcalm p i r a hp] at hmars
    cases hmars
  refine ⟨reachable_checkpointsReplay htrust hs hclean, ?_⟩
  intro run row nowUnixMillis now hrow
  have hkept := (reachable_consistent htrust hs).rows run row hrow
  obtain ⟨n, hn, covered, hcovered, -, -, hcheckpoint⟩ := hkept.covered
  have hstored : row.checkpoint = .new covered := hcheckpoint.resolve_right fun hm => hclean hm.1
  obtain ⟨state, hstate⟩ := hkept.replayed
  have hlog := ReplayedLog.of_replay hkept.storeVersion hkept.checkpointVersion hkept.short hstate
  have hrecover := recover_of_replayed_checkpoint hlog hn hcovered nowUnixMillis now
  rw [StoredRun.loaded, hstored, hrecover]
  exact classify_not_corrupt hstate

/-- A graph whose first node retrieves. -/
def retrieveCommands : List (Nat × Command plainLibrary) :=
  [(0, sampleCommand (.newContext ⟨1⟩ ⟨2⟩ sampleBudget (.graph 1 7#256))),
   (0, sampleCommand (.startRun none)),
   (0, sampleCommand (.startGraph 7#256 ⟨"look"⟩ .retrieve .freshRetrieval)),
   (0, sampleCommand (.enterGraphNode ⟨"look"⟩ .retrieve .freshRetrieval)),
   (0, sampleCommand (.retrieveKnowledge ⟨.single .standardsMcp, "q", 0, by simp [KnowledgeRouteMetadata.backends]⟩))]

/-- A retrieval that is cancelled, with an audit that works. -/
def cancelledRetrieval (n : Nat) : (r : Request) → Answer r
  | .knowledgeRetrieve .. => .cancelled
  | r => favourable n r

/-- The same with an audit that does not. -/
def unauditedRetrieval (n : Nat) : (r : Request) → Answer r
  | .knowledgeRetrieve .. => .cancelled
  | .audit .knowledgeInterruption _ => .ready (.error .unavailable)
  | r => favourable n r

theorem checkpoints_of_cancelled_retrieval :
    CheckpointsReplay (sqliteRun cancelledRetrieval retrieveCommands).history ∧
      ∀ row, (sqliteRun cancelledRetrieval retrieveCommands).world.now.runs ⟨1⟩ = some row →
        recoverLoadedRun plainCodec row.loaded 2000 0 ≠ .error .corruptCheckpoint := by
  have hreach := sqliteRun_reachable cancelledRetrieval retrieveCommands (by decide +kernel)
  have hpass : answersPass (fun v r a => !v.mars r a)
      (sqliteRun cancelledRetrieval retrieveCommands).history = true := by decide +kernel
  have hcalm := checkpoints_equal_replay (.inl trivial) hreach fun p i r a hp => by
    simpa using answersPass_did hpass hp
  exact ⟨hcalm.1, fun row hrow => (hcalm.2 _ row 2000 0 hrow).2⟩

/-- The checkpoint of `RunFinished` says that the audit is degraded, and the log does not. -/
theorem unaudited_retrieval_corrupts_checkpoint :
    ∃ row, (sqlite plainLibrary True False).clients.Reachable ⟨empty, []⟩
        (sqliteRun unauditedRetrieval retrieveCommands) ∧
      (sqliteRun unauditedRetrieval retrieveCommands).world.now.runs ⟨1⟩ = some row ∧
      (sqliteRun unauditedRetrieval retrieveCommands).world.now.loadRun ⟨⟨1⟩, ⟨2⟩⟩ = .ok row.loaded ∧
      row.throughSequence = row.lastSequence ∧
      (∀ state, (DurableRunState.initial row.record).replay plainCodec row.events = .ok state →
        row.checkpoint ≠ .new state) ∧
      recoverLoadedRun plainCodec row.loaded 2000 0 = .error .corruptCheckpoint := by
  have hreach := sqliteRun_reachable unauditedRetrieval retrieveCommands (by decide +kernel)
  have hall : ((sqliteRun unauditedRetrieval retrieveCommands).world.now.runs ⟨1⟩).all (fun row =>
      (row.record.key = ⟨⟨1⟩, ⟨2⟩⟩ && row.throughSequence = row.lastSequence
        && row.events.dropLast.all fun e => !e.kind.isRunFinished)
      && !isOkAnd ((DurableRunState.initial row.record).replay plainCodec row.events)
        (row.checkpoint.state = ·)
      && isErrAnd (recoverLoadedRun plainCodec row.loaded 2000 0) (· = .corruptCheckpoint)) = true := by
    decide +kernel
  have hsome : ((sqliteRun unauditedRetrieval retrieveCommands).world.now.runs ⟨1⟩).isSome = true := by
    decide +kernel
  obtain ⟨row, hrow⟩ := Option.isSome_iff_exists.mp hsome
  have hkept := (reachable_consistent (.inl trivial) hreach).rows _ row hrow
  rw [hrow, Option.all_some] at hall
  simp only [Bool.and_eq_true, decide_eq_true_eq, List.all_eq_true, Bool.not_eq_true'] at hall
  obtain ⟨⟨⟨⟨hkey, hthrough⟩, hlast⟩, hreplay⟩, hrecover⟩ := hall
  refine ⟨row, hreach, hrow, ?_, hthrough, fun state hstate hcheckpoint => ?_, ?_⟩
  · rw [← hkey]
    exact hkept.load hrow hlast
  · rw [hstate, hcheckpoint] at hreplay
    simp [isOkAnd, DurableCheckpoint.new] at hreplay
  · obtain ⟨e, he, hcorrupt⟩ := isErrAnd_iff.mp hrecover
    rw [he, of_decide_eq_true hcorrupt]

end LocalAgent
