import LocalAgent.Store.World

/-!
# The store and its clients agree

`Consistent` is the invariant: every row is as the harness leaves it (`RowKept`), and what a client
knows of a run is a prefix of what the store holds. The step that matters is an accepted write. The
store accepts only the next number, so the log that the client knows is the whole log and the
reducer has accepted the event after exactly these events (`Consistent.extends`). A client whose
write was refused goes on with a number that is too large; such a write is accepted by no store
that holds just the confirmed log, which is where the two ways to `Trusted` come in.

Main theorem: `reachable_consistent`.
-/
namespace LocalAgent

open Program Store

variable {lib : Library} {reliable serial : Prop}

/-! ## What an answer leaves of the view -/

namespace View

variable {v : View lib} {r : Request} {a : Answer r} {t : AppendTransition} {k : KnownRun}

theorem began_cases (v : View lib) (cmd : Command lib) :
    ((v.began cmd).run = none ∧ (v.began cmd).refused = false ∨
      (v.began cmd).run = v.run ∧ (v.began cmd).refused = v.refused) ∧
    (v.began cmd).current = false := by
  unfold began
  split
  · exact ⟨.inl ⟨rfl, rfl⟩, rfl⟩
  · exact ⟨.inr ⟨rfl, rfl⟩, rfl⟩

theorem observe_opened (h : r.openedRun a = some k) :
    (v.observe r a).run = some k ∧ (v.observe r a).refused = false := by
  show (v.step r a).run = some k ∧ (v.step r a).refused = false
  have hmoved := step_moved (v := v) (a := a)
  generalize v.step r a = w at hmoved
  cases hmoved with
  | opened run => exact ⟨run.symm.trans h, rfl⟩
  | stored _ _ closed | called _ _ closed | interrupted _ _ closed | reaped _ _ closed
  | unaudited _ _ closed | unmoved _ _ closed => exact absurd (closed.symm.trans h) (by simp)

theorem observe_stored (ht : r.transition = some t) (ha : r.accepted a = true) :
    (v.observe r a).run = v.run.map (fun k => { k with log := k.log ++ [t.event] }) ∧
      (v.observe r a).refused = v.refused := by
  show (v.step r a).run = _ ∧ (v.step r a).refused = _
  have hmoved := step_moved (v := v) (a := a)
  generalize v.step r a = w at hmoved
  cases hmoved with
  | @stored t' transition =>
    obtain rfl : t' = t := Option.some.inj (transition.symm.trans ht)
    rw [ha]
    exact ⟨rfl, rfl⟩
  | opened _ silent | called _ silent | interrupted _ silent | reaped silent | unaudited silent
  | unmoved silent => exact absurd (silent.symm.trans ht) (by simp)

/-- Neither opened nor stored: the client knows what it knew. -/
theorem observe_quiet (hclosed : r.openedRun a = none)
    (hsilent : ∀ t, r.transition = some t → r.accepted a = false) :
    (v.observe r a).run = v.run ∧ (v.observe r a).current = v.current ∧
      (r.transition = none → (v.observe r a).refused = v.refused) := by
  show (v.step r a).run = _ ∧ (v.step r a).current = _ ∧ (_ → (v.step r a).refused = _)
  have hmoved := step_moved (v := v) (a := a)
  generalize v.step r a = w at hmoved
  cases hmoved with
  | opened run => exact absurd (hclosed.symm.trans run) (by simp)
  | @stored t transition =>
    rw [hsilent t transition]
    exact ⟨rfl, rfl, fun hnone => absurd (hnone.symm.trans transition) (by simp)⟩
  | _ => exact ⟨rfl, rfl, fun _ => rfl⟩

end View

/-! ## The invariant -/

/-- The store holds the run that a client knows, and at least the events the client knows. -/
def Store.Holds (s : Store) (k : KnownRun) : Prop :=
  ∃ row, s.runs k.record.key.runId = some row ∧ row.record = k.record ∧ k.log <+: row.events

/-- Some context was marked audit-degraded without an event. -/
def Marred (h : (sqlite lib reliable serial).clients.History) : Prop :=
  ∃ i past, past <+: h ∧ ((sqlite lib reliable serial).view i past).tainted = true

/-- Some operation was in a state in which it may write after the end of its run. -/
def Late (h : (sqlite lib reliable serial).clients.History) : Prop :=
  ∃ i past, past <+: h ∧ (((sqlite lib reliable serial).view i past).interrupted = true ∨
    ((sqlite lib reliable serial).view i past).lateAudit = true)

/-- The answer lets the operation write behind the end of its run: a tool call was cut off, or
the audit of the end failed and the policy is to go on. -/
def View.overruns (v : View lib) : (r : Request) → Answer r → Bool
  | .toolInvoke .., x => View.cutOff x
  | .reapManaged .., .ok _ | .reapContained .., .ok _ => true
  | .audit site event, x => auditFailed site x && v.failOpen && event.kind.isRunFinished
      && (site = .lifecycle || site = .bounded)
  | _, _ => false

/-- The answer sets the audit flag of the context without an event, and no event has set it: an
audit failed in `record_knowledge_interruption`, or that of the end of the run after a tool call
was cut off. -/
def View.mars (v : View lib) : (r : Request) → Answer r → Bool
  | .audit site event, x => auditFailed site x && !v.degraded
      && (site = .knowledgeInterruption || site = .terminal && v.interrupted && event.kind.isRunFinished)
  | _, _ => false

theorem View.observe_late {v : View lib} {r : Request} {a : Answer r}
    (h : (v.observe r a).interrupted = true ∨ (v.observe r a).lateAudit = true) :
    (v.interrupted = true ∨ v.lateAudit = true) ∨ v.overruns r a = true := by
  change (v.step r a).interrupted = true ∨ (v.step r a).lateAudit = true at h
  cases r with
  | createRun | reapManaged | reapContained =>
    cases a with
    | ok u => first | exact .inl h | exact .inr rfl
    | error e => exact .inl h
  | loadRun purpose =>
    cases purpose <;> cases a <;> exact .inl h
  | appendTransition | createDurableApprovalWait | recordDurableApprovalDecision =>
    cases a <;> exact .inl h
  | transitionDurableApprovalStatus request =>
    simp only [step] at h
    split at h
    · cases a <;> exact .inl h
    · exact .inl h
  | toolInvoke run call =>
    simp only [step] at h
    split at h
    · rename_i hcut
      exact .inr hcut
    · exact .inl h
  | audit site event =>
    simp only [step] at h
    split at h
    · rename_i hfailed
      simp only [auditRefused, Bool.or_eq_true] at h
      rcases h with hold | hold | hnew
      · exact .inl (.inl hold)
      · exact .inl (.inr hold)
      · refine .inr ?_
        simpa [overruns, hfailed] using hnew
    · exact .inl h
  | _ => exact .inl h

theorem View.observe_tainted {v : View lib} {r : Request} {a : Answer r}
    (h : (v.observe r a).tainted = true) : v.tainted = true ∨ v.mars r a = true := by
  change (v.step r a).tainted = true at h
  cases r with
  | createRun | reapManaged | reapContained =>
    cases a with
    | ok u => first | exact .inl h | cases h
    | error e => exact .inl h
  | loadRun purpose =>
    cases purpose <;> cases a <;> first | exact .inl h | cases h
  | appendTransition | createDurableApprovalWait | recordDurableApprovalDecision =>
    cases a <;> exact .inl h
  | transitionDurableApprovalStatus request =>
    simp only [step] at h
    split at h
    · cases a <;> exact .inl h
    · exact .inl h
  | toolInvoke run call =>
    simp only [step] at h
    split at h <;> exact .inl h
  | audit site event =>
    simp only [step] at h
    split at h
    · rename_i hfailed
      simp only [auditRefused, Bool.or_eq_true] at h
      rcases h with hold | hnew
      · exact .inl hold
      · refine .inr ?_
        simpa [mars, hfailed] using hnew
    · exact .inl h
  | _ => exact .inl h

/-- An answer of a history. -/
def Answered (h : (sqlite lib reliable serial).clients.History)
    (P : View lib → (r : Request) → Answer r → Prop) : Prop :=
  ∃ p i r a, h[p]? = some (i, .did r a) ∧ P ((sqlite lib reliable serial).view i (h.take p)) r a

theorem Answered.grows {past h : (sqlite lib reliable serial).clients.History}
    {P : View lib → (r : Request) → Answer r → Prop} (hpast : past <+: h) (hp : Answered past P) :
    Answered h P := by
  obtain ⟨p, i, r, a, hget, hP⟩ := hp
  obtain ⟨rest, rfl⟩ := hpast
  have hlt := (List.getElem?_eq_some_iff.mp hget).1
  refine ⟨p, i, r, a, by rwa [List.getElem?_append_left hlt], ?_⟩
  rwa [List.take_append_of_le_length (Nat.le_of_lt hlt)]

theorem Late.answered {h : (sqlite lib reliable serial).clients.History} (hl : Late h) :
    Answered h fun v r a => v.overruns r a = true := by
  obtain ⟨i, past, hpast, hflag⟩ := hl
  have hbegan : ∀ (v : View lib) (cmd : Command lib),
      (v.began cmd).interrupted = true ∨ (v.began cmd).lateAudit = true →
      v.interrupted = true ∨ v.lateAudit = true := by
    intro v cmd hnow
    unfold View.began at hnow
    split at hnow <;> simp at hnow
  obtain ⟨p, r, a, hp, hset⟩ := Setting.view_set
    (fun v => v.interrupted = true ∨ v.lateAudit = true) (by simp) hbegan
    (fun v r a => View.observe_late) hflag
  exact .grows hpast ⟨p, i, r, a, hp, hset⟩

theorem Marred.answered {h : (sqlite lib reliable serial).clients.History} (hm : Marred h) :
    Answered h fun v r a => v.mars r a = true := by
  obtain ⟨i, past, hpast, hflag⟩ := hm
  have hbegan : ∀ (v : View lib) (cmd : Command lib), (v.began cmd).tainted = true →
      v.tainted = true := by
    intro v cmd hnow
    unfold View.began at hnow
    split at hnow
    · cases hnow
    · exact hnow
  obtain ⟨p, r, a, hp, hset⟩ := Setting.view_set (fun v => v.tainted = true) (by simp)
    hbegan (fun v r a => View.observe_tainted) hflag
  exact .grows hpast ⟨p, i, r, a, hp, hset⟩

structure Consistent (w : Storage) (h : (sqlite lib reliable serial).clients.History) : Prop where
  rows : ∀ run row, w.now.runs run = some row → RowKept lib (Marred h) (Late h) run row
  known : ∀ i k, ((sqlite lib reliable serial).view i h).run = some k → w.now.Holds k
  persistent : ∀ i, ((sqlite lib reliable serial).view i h).volatile = false
  confirmed : reliable → ∀ i, ((sqlite lib reliable serial).view i h).refused = false
  fresh : serial → ∀ i k, ((sqlite lib reliable serial).view i h).run = some k →
    ((sqlite lib reliable serial).view i h).current = true →
    (sqlite lib reliable serial).clients.lastBegan h = some i →
    ∃ row, w.now.runs k.record.key.runId = some row ∧ row.events = k.log

section

variable {w w' : Storage} {h : (sqlite lib reliable serial).clients.History} {i : Nat} {r : Request}
  {a : Answer r} {t : AppendTransition} {row : StoredRun}
  {x : Nat × (sqlite lib reliable serial).clients.Act}

theorem Marred.concat (hm : Marred h) : Marred (h ++ [x]) := by
  obtain ⟨i, past, hpast, hv⟩ := hm
  exact ⟨i, past, hpast.trans (List.prefix_append ..), hv⟩

theorem Late.concat (hl : Late h) : Late (h ++ [x]) := by
  obtain ⟨i, past, hpast, hv⟩ := hl
  exact ⟨i, past, hpast.trans (List.prefix_append ..), hv⟩

/-- **An accepted write extends the stored log.** -/
theorem Consistent.extends (hc : Consistent w h) (htrust : reliable ∨ serial)
    (hacts : Machine.Acts (sqlite lib reliable serial).watch w h i r a w')
    (ht : r.transition = some t) (happ : Appended w.now t row) :
    ∃ k, ((sqlite lib reliable serial).view i h).run = some k ∧ row.record = k.record ∧
      row.events = k.log ∧ ((sqlite lib reliable serial).view i h).Extends t := by
  have hpermits : ((sqlite lib reliable serial).view i h).permits r := hacts.permitted
  have happend := hpermits.append t ht (hc.persistent i)
  -- the row the client knows is the row that was written
  have hsame : ∀ k, t.key = k.record.key → w.now.Holds k →
      row.record = k.record ∧ k.log <+: row.events := by
    rintro k hkey ⟨row', hrow', hrecord, hheld⟩
    rw [← hkey, happ.stored] at hrow'
    obtain rfl := Option.some.inj hrow'
    exact ⟨hrecord, hheld⟩
  have hseq := happ.sequence (hc.rows _ _ happ.stored).numbered
  by_cases hrefused : ((sqlite lib reliable serial).view i h).refused = true
  · exfalso
    obtain ⟨hcurrent, k, hk, hkey, hlt⟩ := happend.gapped hrefused
    have hserial : serial := by
      rcases htrust with hreliable | hserial
      · rw [hc.confirmed hreliable i] at hrefused
        cases hrefused
      · exact hserial
    obtain ⟨row', hrow', hevents⟩ := hc.fresh hserial i k hk hcurrent (hacts.alone hserial)
    rw [← hkey, happ.stored] at hrow'
    obtain rfl := Option.some.inj hrow'
    rw [hseq, hevents] at hlt
    exact Nat.lt_irrefl _ hlt
  · have hext := happend.extends_ (Bool.not_eq_true _ ▸ hrefused)
    have ⟨k, m, m', hk, hkey, hlen, _⟩ := hext
    obtain ⟨hrecord, hheld⟩ := hsame k hkey (hc.known i k hk)
    refine ⟨k, hk, hrecord, ?_, hext⟩
    exact (hheld.eq_of_length (hlen.symm.trans hseq)).symm

/-! ## Steps -/

theorem Consistent.began (hc : Consistent w h) {cmd : Command lib} {l : Holding}
    (hadmits : (sqlite lib reliable serial).admits cmd) : Consistent w (h ++ [(i, .began cmd l)]) := by
  have hview : ∀ j, (sqlite lib reliable serial).view j (h ++ [(i, .began cmd l)]) =
      if j = i then ((sqlite lib reliable serial).view j h).began cmd
      else (sqlite lib reliable serial).view j h := by
    intro j
    by_cases hji : j = i
    · subst hji
      rw [Setting.view_began, if_pos rfl]
    · rw [Setting.view_other hji, if_neg hji]
  have hrun : ∀ j k, ((sqlite lib reliable serial).view j (h ++ [(i, .began cmd l)])).run = some k →
      ((sqlite lib reliable serial).view j h).run = some k := by
    intro j k hk
    rw [hview] at hk
    split_ifs at hk with hji
    · rcases (View.began_cases ((sqlite lib reliable serial).view j h) cmd).1 with ⟨hnone, -⟩ | ⟨hsame, -⟩
      · rw [hnone] at hk
        cases hk
      · rwa [hsame] at hk
    · exact hk
  refine ⟨fun run row hrow => (hc.rows run row hrow).mono Marred.concat Late.concat,
    fun j k hk => hc.known j k (hrun j k hk), fun j => ?_, fun hreliable j => ?_,
    fun hserial j k hk hcurrent hlast => ?_⟩
  · rw [hview]
    split_ifs with hji
    · unfold View.began
      split <;> simp [show cmd.harness.persistence = true from hadmits, hc.persistent j]
    · exact hc.persistent j
  · rw [hview]
    split_ifs with hji
    · rcases (View.began_cases ((sqlite lib reliable serial).view j h) cmd).1 with ⟨-, hfalse⟩ | ⟨-, hsame⟩
      · exact hfalse
      · rw [hsame]
        exact hc.confirmed hreliable j
    · exact hc.confirmed hreliable j
  · rw [Machine.lastBegan_began] at hlast
    obtain rfl : i = j := Option.some.inj hlast
    rw [hview, if_pos rfl, (View.began_cases _ cmd).2] at hcurrent
    cases hcurrent

theorem Consistent.crashed (hc : Consistent w h) : Consistent w (h ++ [(i, .crashed)]) := by
  have hview : ∀ j, (sqlite lib reliable serial).view j (h ++ [(i, .crashed)]) =
      if j = i then {} else (sqlite lib reliable serial).view j h := by
    intro j
    by_cases hji : j = i
    · subst hji
      rw [Setting.view_crashed, if_pos rfl]
    · rw [Setting.view_other hji, if_neg hji]
  have hrun : ∀ j k, ((sqlite lib reliable serial).view j (h ++ [(i, .crashed)])).run = some k →
      j ≠ i ∧ ((sqlite lib reliable serial).view j h).run = some k := by
    intro j k hk
    by_cases hji : j = i
    · rw [hview, if_pos hji] at hk
      cases hk
    · rw [hview, if_neg hji] at hk
      exact ⟨hji, hk⟩
  refine ⟨fun run row hrow => (hc.rows run row hrow).mono Marred.concat Late.concat,
    fun j k hk => hc.known j k (hrun j k hk).2, fun j => ?_, fun hreliable j => ?_,
    fun hserial j k hk hcurrent hlast => ?_⟩
  · rw [hview]
    split_ifs with hji
    · rfl
    · exact hc.persistent j
  · rw [hview]
    split_ifs with hji
    · rfl
    · exact hc.confirmed hreliable j
  · obtain ⟨hji, hold⟩ := hrun j k hk
    rw [hview, if_neg hji] at hcurrent
    rw [Machine.lastBegan_crashed] at hlast
    exact hc.fresh hserial j k hold hcurrent hlast

/-- A run that is read is the stored run. -/
theorem Consistent.loaded (hc : Consistent w h) {key : RunKey} {loaded : LoadedRun}
    (hload : w.now.loadRun key = .ok loaded) :
    ∃ row, w.now.runs loaded.record.key.runId = some row ∧ row.record = loaded.record ∧
      row.events = loaded.events := by
  obtain ⟨row, hrow, hkey, hrecord, -, hevents⟩ := loadRun_ok hload
  refine ⟨row, by rw [hrecord, hkey, hrow], hrecord.symm, ?_⟩
  rw [hevents, (hc.rows _ row hrow).numbered.sorted]

/-- What a request keeps of the store for the clients that did not make it. -/
theorem RunsMoved.holds (hmoved : RunsMoved w r a w') {k : KnownRun} (hk : w.now.Holds k) :
    w'.now.Holds k := by
  obtain ⟨row, hrow, hrecord, hheld⟩ := hk
  cases hmoved with
  | created record checkpoint _ _ absent _ runs =>
    refine ⟨row, ?_, hrecord, hheld⟩
    rw [runs, putRun_of_ne, hrow]
    rintro heq
    rw [heq, absent] at hrow
    cases hrow
  | appended t old _ _ continues runs =>
    by_cases heq : k.record.key.runId = t.key.runId
    · rw [heq, continues.stored] at hrow
      obtain rfl := Option.some.inj hrow
      refine ⟨StoredRun.append old t, by rw [runs, heq, putRun_self], by simpa using hrecord, ?_⟩
      rw [append_events]
      exact hheld.trans (List.prefix_append ..)
    · exact ⟨row, by rw [runs, putRun_of_ne heq, hrow], hrecord, hheld⟩
  | still _ _ runs => exact ⟨row, by rw [runs, hrow], hrecord, hheld⟩

theorem Consistent.rows_did (hc : Consistent w h) (htrust : reliable ∨ serial)
    (hacts : Machine.Acts (sqlite lib reliable serial).watch w h i r a w') (run : RunId)
    (row : StoredRun) (hrow : w'.now.runs run = some row) :
    RowKept lib (Marred (h ++ [(i, .did r a)])) (Late (h ++ [(i, .did r a)])) run row := by
  suffices hkept : RowKept lib (Marred h) (Late h) run row from
    hkept.mono Marred.concat Late.concat
  have hpermits : ((sqlite lib reliable serial).view i h).permits r := hacts.permitted
  cases Served.runsMoved hacts.answered with
  | created record checkpoint request _ absent valid runs =>
    rw [runs] at hrow
    by_cases heq : run = record.key.runId
    · subst heq
      rw [putRun_self] at hrow
      obtain rfl := Option.some.inj hrow
      subst request
      exact rowKept_new valid hpermits.ordered.2.1
    · rw [putRun_of_ne heq] at hrow
      exact hc.rows run row hrow
  | appended t old transition _ continues runs =>
    rw [runs] at hrow
    by_cases heq : run = t.key.runId
    · subst heq
      rw [putRun_self] at hrow
      obtain rfl := Option.some.inj hrow
      obtain ⟨k, hk, hrecord, hlog, hext⟩ := hc.extends htrust hacts transition continues
      exact (hc.rows _ old continues.stored).append continues rfl hk hrecord hlog hext
        (fun htainted => ⟨i, h, List.prefix_refl h, htainted⟩)
        (fun hlate => ⟨i, h, List.prefix_refl h, hlate⟩)
    · rw [putRun_of_ne heq] at hrow
      exact hc.rows run row hrow
  | still _ _ runs =>
    rw [runs] at hrow
    exact hc.rows run row hrow

/-- What the client that made a request knows afterwards. -/
theorem Consistent.known_did (hc : Consistent w h) (htrust : reliable ∨ serial)
    (hacts : Machine.Acts (sqlite lib reliable serial).watch w h i r a w') {k : KnownRun}
    (hk : (((sqlite lib reliable serial).view i h).observe r a).run = some k) :
    w'.now.Holds k ∧ ((((sqlite lib reliable serial).view i h).observe r a).current = true →
      (serial → (sqlite lib reliable serial).clients.lastBegan h = some i →
        ∃ row, w'.now.runs k.record.key.runId = some row ∧ row.events = k.log)) := by
  have hmoved := Served.runsMoved hacts.answered
  have hholds : ∀ {k}, w.now.Holds k → w'.now.Holds k := hmoved.holds
  cases hmoved with
  | created record checkpoint _ opened _ _ runs =>
    rw [(View.observe_opened opened).1] at hk
    obtain rfl := Option.some.inj hk
    have hnew := congrFun runs record.key.runId
    rw [putRun_self] at hnew
    exact ⟨⟨_, hnew, rfl, List.nil_prefix⟩, fun _ _ _ => ⟨_, hnew, rfl⟩⟩
  | appended t old transition accepted continues runs =>
    obtain ⟨known, hknown, hrecord, hlog, k', -, -, hk', hkey, -⟩ :=
      hc.extends htrust hacts transition continues
    obtain rfl : known = k' := Option.some.inj (hknown.symm.trans hk')
    rw [(View.observe_stored transition accepted).1, hknown] at hk
    obtain rfl := Option.some.inj hk
    have hstored : w'.now.runs known.record.key.runId = some (StoredRun.append old t) := by
      rw [runs, ← hkey, putRun_self]
    have hevents : (StoredRun.append old t).events = known.log ++ [t.event] := by
      rw [append_events, hlog]
    exact ⟨⟨_, hstored, by simpa using hrecord, by rw [hevents]⟩, fun _ _ _ => ⟨_, hstored, hevents⟩⟩
  | still silent opened runs =>
    cases hopened : r.openedRun a with
    | some k' =>
      rw [(View.observe_opened hopened).1] at hk
      obtain rfl := Option.some.inj hk
      obtain ⟨key, checkpoint, hload⟩ := opened k' hopened
      obtain ⟨row, hrow, hrecord, hevents⟩ := hc.loaded hload
      rw [← runs] at hrow
      exact ⟨⟨row, hrow, hrecord, by rw [hevents]⟩, fun _ _ _ => ⟨row, hrow, hevents⟩⟩
    | none =>
      obtain ⟨hrun, hcurrent, -⟩ := View.observe_quiet
        (v := (sqlite lib reliable serial).view i h) hopened silent
      rw [hrun] at hk
      refine ⟨hholds (hc.known i k hk), fun hnow hserial hlast => ?_⟩
      rw [hcurrent] at hnow
      rw [runs]
      exact hc.fresh hserial i k hk hnow hlast

theorem Consistent.did (hc : Consistent w h) (htrust : reliable ∨ serial)
    (hacts : Machine.Acts (sqlite lib reliable serial).watch w h i r a w') :
    Consistent w' (h ++ [(i, .did r a)]) := by
  have hmoved := Served.runsMoved hacts.answered
  have hother : ∀ {j}, j ≠ i → (sqlite lib reliable serial).view j (h ++ [(i, .did r a)]) =
      (sqlite lib reliable serial).view j h := fun hji => Setting.view_other hji
  refine ⟨hc.rows_did htrust hacts, fun j k hk => ?_, fun j => ?_, fun hreliable j => ?_,
    fun hserial j k hk hcurrent hlast => ?_⟩
  · by_cases hji : j = i
    · subst hji
      rw [Setting.view_did] at hk
      exact (hc.known_did htrust hacts hk).1
    · rw [hother hji] at hk
      exact hmoved.holds (hc.known j k hk)
  · by_cases hji : j = i
    · subst hji
      rw [Setting.view_did]
      exact View.observe_volatile (hc.persistent j)
    · rw [hother hji]
      exact hc.persistent j
  · by_cases hji : j = i
    · subst hji
      rw [Setting.view_did]
      have hbefore := hc.confirmed hreliable j
      cases hopened : r.openedRun a with
      | some k => exact (View.observe_opened hopened).2
      | none =>
        cases ht : r.transition with
        | some t =>
          rw [(View.observe_stored ht (Served.accepted hacts.answered hreliable ht)).2]
          exact hbefore
        | none =>
          rw [(View.observe_quiet hopened fun t h => absurd (ht.symm.trans h) (by simp)).2.2 ht]
          exact hbefore
    · rw [hother hji]
      exact hc.confirmed hreliable j
  · rw [Machine.lastBegan_did] at hlast
    obtain rfl : i = j := Option.some.inj ((hacts.alone hserial).symm.trans hlast)
    rw [Setting.view_did] at hk hcurrent
    exact (hc.known_did htrust hacts hk).2 hcurrent hserial hlast

end

/-- **The store and its clients agree** in every reachable state, if no persistence call fails or if
commands run one after another. -/
theorem reachable_consistent (htrust : reliable ∨ serial)
    {s : (sqlite lib reliable serial).clients.State}
    (hs : (sqlite lib reliable serial).clients.Reachable ⟨empty, []⟩ s) :
    Consistent s.world s.history := by
  refine hs.induct (P := Consistent) (sqlite lib reliable serial).watch_sound ?_ ?_ ?_ ?_
  · have hview : ∀ i, (sqlite lib reliable serial).view i [] = {} := fun _ => rfl
    refine ⟨fun run row hrow => ?_, fun i k hk => ?_, fun i => ?_, fun _ i => ?_, fun _ i k hk => ?_⟩
    · cases hrow
    · rw [hview] at hk
      cases hk
    · rw [hview]
    · rw [hview]
    · rw [hview] at hk
      cases hk
  · intro w h i cmd l hc hadmits
    exact hc.began hadmits
  · intro w h i r a w' hc hacts
    exact hc.did htrust hacts
  · intro w h i hc
    exact hc.crashed

end LocalAgent
