import LocalAgent.Service.Slots

/-!
# The map of active runs

What a request does to the slots (`SlotMove`), and the invariant that ties the map to the views of the
processes (`Slotted`): one slot a session, at most `maxActiveRuns` of them, and every process that
holds a slot finds it in the map under the name of its call. Every move of the service keeps it
(`Slotted.moves`).
-/
namespace LocalAgent

open Program

variable {svc : AgentService}

/-! ## One request -/

/-- The run and the owner of every slot. -/
def ids (active : List ActiveRun) : List (RunKey × Nat) := active.map fun run => (run.key, run.owner)

/-- What a request did to the slots and to the view of the process that made it. -/
inductive SlotMove (w : ServiceWorld) (v : SlotView) (owner : Nat) (r : ServiceRequest) (w' : ServiceWorld)
    (v' : SlotView) : Prop
  | kept (active : ids w'.active = ids w.active) (slot : v'.slot = v.slot)
  | took (key : RunKey) (run : ActiveRun) (serving : w.draining = false)
      (vacant : ∀ id ∈ ids w.active, id.1.sessionId ≠ key.sessionId)
      (room : w.active.length < maxActiveRuns) (active : w'.active = run :: w.active)
      (id : run.key = key ∧ run.owner = owner) (free : v.slot = none) (slot : v'.slot = some key)
  | gave (key : RunKey) (request : r = .release key.sessionId) (held : v.slot = some key)
      (active : w'.active = removeSlot key.sessionId w.active) (slot : v'.slot = none)

theorem slotOf_none {active : List ActiveRun} {session : SessionId} (h : slotOf active session = none) :
    ∀ id ∈ ids active, id.1.sessionId ≠ session := by
  intro id hid
  obtain ⟨run, hrun, rfl⟩ := List.mem_map.mp hid
  have hne := List.find?_eq_none.mp h run hrun
  exact fun heq => hne (decide_eq_true heq)

/-- A section that inserts a slot. -/
theorem reserveSlot_cases (draining : Bool) (active : List ActiveRun) (entry : Entry) (run : ActiveRun) :
    (∃ r, reserveSlot draining active entry run = (r, active) ∧ r ≠ .reserved) ∨
      (reserveSlot draining active entry run = (.reserved, run :: active) ∧ draining = false ∧
        active.length < maxActiveRuns ∧ slotOf active run.session = none) := by
  unfold reserveSlot
  cases draining with
  | true => exact .inl ⟨_, rfl, nofun⟩
  | false =>
    cases hslot : slotOf active run.session with
    | some existing =>
      cases entry with
      | start =>
        by_cases hkey : existing.key = run.key
        · exact .inl ⟨.existing existing, by simp [hkey], nofun⟩
        · exact .inl ⟨.refused .conflict, by simp [hkey], nofun⟩
      | resume => exact .inl ⟨_, rfl, nofun⟩
    | none =>
      by_cases hfull : active.length ≥ maxActiveRuns
      · cases entry with
        | start => exact .inl ⟨.refused .capacity, by simp [hfull], nofun⟩
        | resume => exact .inl ⟨.refused .conflict, by simp [hfull], nofun⟩
      · refine .inr ⟨?_, rfl, by omega, rfl⟩
        cases entry <;> simp [hfull]

theorem ids_attachSlot {session : SessionId} {active : List ActiveRun} :
    ids (attachSlot session active) = ids active := by
  unfold ids attachSlot
  rw [List.map_map]
  refine List.map_congr_left fun run _ => ?_
  simp only [Function.comp_apply]
  split <;> rfl

theorem Entry.slot_ids (entry : Entry) (key : RunKey) (workflow : WorkflowId) (owner : Nat) :
    (entry.slot key workflow owner).key = key ∧ (entry.slot key workflow owner).owner = owner := by
  cases entry <;> exact ⟨rfl, rfl⟩

/-- **Every permitted request keeps the slots, takes one or gives one back.** -/
theorem slotMove {w w' : ServiceWorld} {v : SlotView} {owner : Nat} {idle : Prop} {r : ServiceRequest}
    {a : ServiceAnswer r} (hexec : w.exec owner idle r a w') (hpermits : v.permits svc r)
    (hspawn : ∀ task, r ≠ .spawn task) : SlotMove w v owner r w' (v.observe r a) := by
  have hsame : ∀ {v' : SlotView}, w' = w → v'.slot = v.slot → SlotMove w v owner r w' v' :=
    fun hw hv => .kept (by rw [hw]) hv
  cases r with
  | harness r =>
    obtain ⟨st, -, rfl⟩ := hexec
    refine .kept rfl ?_
    cases r with
    | createRun record checkpoint => cases a <;> rfl
    | _ => rfl
  | reserve entry key workflow =>
    have hids := entry.slot_ids key workflow owner
    simp only [ServiceWorld.exec, Prod.mk.injEq] at hexec
    obtain ⟨rfl, rfl⟩ := hexec
    rcases reserveSlot_cases w.draining w.active entry (entry.slot key workflow owner) with
      ⟨r, hr, hne⟩ | ⟨hr, hserving, hroom, hvacant⟩
    · rw [hr]
      refine .kept rfl ?_
      cases r with
      | reserved => exact absurd rfl hne
      | existing run => rfl
      | refused e => rfl
    · rw [hr]
      have hsession : (entry.slot key workflow owner).session = key.sessionId := by
        rw [ActiveRun.session, hids.1]
      rw [hsession] at hvacant
      exact .took key _ hserving (slotOf_none hvacant) hroom rfl hids hpermits.2 rfl
  | release session =>
    obtain ⟨-, key, hslot, rfl⟩ := hpermits
    exact .gave key rfl hslot (by rw [hexec]) rfl
  | attach session =>
    obtain ⟨-, rfl⟩ := hexec
    exact .kept ids_attachSlot rfl
  | findRun key =>
    refine hsame hexec ?_
    match a with
    | .error e => rfl
    | .ok none => rfl
    | .ok (some summary) => rfl
  | beginDrain => exact .kept (by rw [hexec]) rfl
  | closeTasks => exact .kept (by rw [hexec]) rfl
  | spawn task => exact absurd rfl (hspawn task)
  | lifecycle | lookup | handles | awaitTasks | remaining => exact hsame hexec.2 rfl
  | _ => exact hsame hexec rfl

/-- What an answer does not change. -/
theorem SlotView.observe_fixed (v : SlotView) (r : ServiceRequest) (a : ServiceAnswer r) :
    (v.observe r a).job = v.job ∧ (v.observe r a).target = v.target ∧
      (r ≠ .beginDrain → (v.observe r a).draining = v.draining) ∧
      (r ≠ .remaining → (v.observe r a).drained = v.drained) := by
  have hfixed : ∀ {v' : SlotView}, v'.job = v.job → v'.target = v.target → v'.draining = v.draining →
      v'.drained = v.drained → v'.job = v.job ∧ v'.target = v.target ∧
        (r ≠ .beginDrain → v'.draining = v.draining) ∧ (r ≠ .remaining → v'.drained = v.drained) :=
    fun hjob htarget hdraining hdrained => ⟨hjob, htarget, fun _ => hdraining, fun _ => hdrained⟩
  cases r with
  | harness r =>
    cases r with
    | createRun record checkpoint => cases a <;> exact hfixed rfl rfl rfl rfl
    | _ => exact hfixed rfl rfl rfl rfl
  | reserve entry key workflow => cases a <;> exact hfixed rfl rfl rfl rfl
  | findRun key =>
    match a with
    | .error e => exact hfixed rfl rfl rfl rfl
    | .ok none => exact hfixed rfl rfl rfl rfl
    | .ok (some summary) => exact hfixed rfl rfl rfl rfl
  | beginDrain => exact ⟨rfl, rfl, fun h => absurd rfl h, fun _ => rfl⟩
  | remaining => exact ⟨rfl, rfl, fun _ => rfl, fun h => absurd rfl h⟩
  | _ => exact hfixed rfl rfl rfl rfl

/-! ## The processes that hold a slot -/

/-- A process holds the slot of a run, on behalf of a call. -/
def Holder (s : svc.runtime.State) (views : Nat → SlotView) (pid : Nat) (key : RunKey) (owner : Nat) : Prop :=
  ∃ proc, s.procs pid = some proc ∧ (views pid).slot = some key ∧ proc.kind.owner pid = owner

/-- The map and the views agree. -/
structure Slotted (s : svc.runtime.State) (views : Nat → SlotView) : Prop where
  sessions : ((ids s.world.active).map fun id => id.1.sessionId).Nodup
  capacity : s.world.active.length ≤ maxActiveRuns
  holds : ∀ pid key owner, Holder s views pid key owner → (key, owner) ∈ ids s.world.active
  single : ∀ pid pid' key key' owner owner', Holder s views pid key owner →
    Holder s views pid' key' owner' → key.sessionId = key'.sessionId → pid = pid'

theorem ids_removeSlot {session : SessionId} {active : List ActiveRun} :
    ids (removeSlot session active) = (ids active).filter (·.1.sessionId ≠ session) := by
  unfold ids removeSlot
  rw [List.filter_map]
  rfl

/-- The slots stay, and everyone who holds one now held it before, or has it from its only holder. -/
theorem Slotted.transfer {s t : svc.runtime.State} {views views' : Nat → SlotView} (h : Slotted s views)
    (hactive : ids t.world.active = ids s.world.active) (origin : Nat → Nat)
    (hholder : ∀ pid key owner, Holder t views' pid key owner → Holder s views (origin pid) key owner)
    (horigin : ∀ pid pid' key key' owner owner', Holder t views' pid key owner →
      Holder t views' pid' key' owner' → origin pid = origin pid' → pid = pid') : Slotted t views' := by
  have hlength : t.world.active.length = s.world.active.length := by
    simpa [ids] using congrArg List.length hactive
  constructor
  · rw [hactive]
    exact h.sessions
  · rw [hlength]
    exact h.capacity
  · intro pid key owner hpid
    rw [hactive]
    exact h.holds _ key owner (hholder pid key owner hpid)
  · intro pid pid' key key' owner owner' hpid hpid' hsession
    refine horigin pid pid' key key' owner owner' hpid hpid' ?_
    exact h.single _ _ key key' owner owner' (hholder _ _ _ hpid) (hholder _ _ _ hpid') hsession

section Moves

variable {s : svc.runtime.State} {views : Nat → SlotView} {pid : Nat} {kind : svc.runtime.Kind}
  {p q : Prog ServiceAnswer ServiceOutcome} {w : ServiceWorld} {v : SlotView}
  {history : List svc.runtime.Event}

/-- The state after a request of one process. -/
@[reducible] def acted (s : svc.runtime.State) (pid : Nat) (kind : svc.runtime.Kind)
    (q : Prog ServiceAnswer ServiceOutcome) (w : ServiceWorld) (history : List svc.runtime.Event) :
    svc.runtime.State :=
  { s with
    world := w
    procs := Function.update s.procs pid (some ⟨kind, q⟩)
    history := history }

/-- Who holds a slot after a request: the others what they held, this one what its view says. -/
theorem holder_acted {other : Nat} {key : RunKey} {owner : Nat}
    (h : Holder (acted s pid kind q w history) (Function.update views pid v) other key owner) :
    (other ≠ pid ∧ Holder s views other key owner) ∨
      (other = pid ∧ v.slot = some key ∧ kind.owner pid = owner) := by
  obtain ⟨proc, hproc, hslot, howner⟩ := h
  by_cases hother : other = pid
  · subst hother
    simp only [Function.update_self, Option.some.injEq] at hproc hslot
    subst hproc
    exact .inr ⟨rfl, hslot, howner⟩
  · simp only [Function.update_of_ne hother] at hproc hslot
    exact .inl ⟨hother, proc, hproc, hslot, howner⟩

theorem Slotted.acted (h : Slotted s views) (hproc : s.procs pid = some ⟨kind, p⟩)
    {r : ServiceRequest} (hmove : SlotMove s.world (views pid) (kind.owner pid) r w v) :
    Slotted (acted s pid kind q w history) (Function.update views pid v) := by
  have hself : ∀ {key}, (views pid).slot = some key → Holder s views pid key (kind.owner pid) :=
    fun hslot => ⟨_, hproc, hslot, rfl⟩
  cases hmove with
  | kept hactive hslot =>
    refine h.transfer hactive id (fun other key owner hholder => ?_) fun _ _ _ _ _ _ _ _ => id
    rcases holder_acted hholder with ⟨-, hother⟩ | ⟨rfl, hkey, rfl⟩
    · exact hother
    · exact hself (hslot ▸ hkey)
  | took key run hserving hvacant hroom hactive hid hfree hslot =>
    have hids : ids w.active = (key, kind.owner pid) :: ids s.world.active := by
      rw [hactive, ids, List.map_cons, hid.1, hid.2]
      rfl
    have hback : ∀ {other key' owner}, Holder (LocalAgent.acted s pid kind q w history)
        (Function.update views pid v) other key' owner →
          (other ≠ pid ∧ Holder s views other key' owner) ∨
            (other = pid ∧ key' = key ∧ owner = kind.owner pid) := by
      intro other key' owner hholder
      rcases holder_acted hholder with hother | ⟨hother, hkey, howner⟩
      · exact .inl hother
      · rw [hslot] at hkey
        exact .inr ⟨hother, (Option.some.inj hkey).symm, howner.symm⟩
    refine ⟨?_, ?_, fun other key' owner hholder => ?_, fun o o' k k' w w' hh hh' hk => ?_⟩
    · rw [hids, List.map_cons, List.nodup_cons]
      refine ⟨fun hmem => ?_, h.sessions⟩
      obtain ⟨id, hid', heq⟩ := List.mem_map.mp hmem
      exact hvacant id hid' heq
    · rw [hactive, List.length_cons]
      omega
    · rw [hids]
      rcases hback hholder with ⟨-, hother⟩ | ⟨-, rfl, rfl⟩
      · exact List.mem_cons_of_mem _ (h.holds other key' owner hother)
      · exact List.mem_cons_self
    · rcases hback hh with ⟨-, ho⟩ | ⟨ho, rfl, -⟩ <;> rcases hback hh' with ⟨-, ho'⟩ | ⟨ho', rfl, -⟩
      · exact h.single o o' k k' w w' ho ho' hk
      · exact absurd hk (hvacant _ (h.holds o k w ho))
      · exact absurd hk.symm (hvacant _ (h.holds o' k' w' ho'))
      · rw [ho, ho']
  | gave key hrequest hheld hactive hslot =>
    have hback : ∀ {other key' owner}, Holder (LocalAgent.acted s pid kind q w history)
        (Function.update views pid v) other key' owner →
          other ≠ pid ∧ Holder s views other key' owner := by
      intro other key' owner hholder
      rcases holder_acted hholder with hother | ⟨-, hkey, -⟩
      · exact hother
      · rw [hslot] at hkey
        cases hkey
    refine ⟨?_, ?_, fun other key' owner hholder => ?_, fun o o' k k' w w' hh hh' => ?_⟩
    · rw [hactive, ids_removeSlot]
      exact h.sessions.sublist (List.filter_sublist.map _)
    · rw [hactive]
      exact (List.length_filter_le ..).trans h.capacity
    · obtain ⟨hne, hother⟩ := hback hholder
      rw [hactive, ids_removeSlot, List.mem_filter]
      refine ⟨h.holds other key' owner hother, decide_eq_true fun hsession => hne ?_⟩
      exact h.single other pid key' key owner _ hother (hself hheld) hsession
    · exact h.single o o' k k' w w' (hback hh).2 (hback hh').2

/-- A process is gone. -/
theorem holder_erased {other : Nat} {key : RunKey} {owner : Nat}
    (h : Holder { s with procs := Function.update s.procs pid none, history := history } views other key
      owner) : other ≠ pid ∧ Holder s views other key owner := by
  obtain ⟨proc, hproc, hslot, howner⟩ := h
  by_cases hother : other = pid
  · subst hother
    simp at hproc
  · simp only [Function.update_of_ne hother] at hproc
    exact ⟨hother, proc, hproc, hslot, howner⟩

theorem Slotted.erased (h : Slotted s views) :
    Slotted { s with procs := Function.update s.procs pid none, history := history } views := by
  exact h.transfer rfl id (fun other key owner hholder => (holder_erased hholder).2)
    fun _ _ _ _ _ _ _ _ => id

/-- A process is new. -/
theorem holder_inserted {proc : svc.runtime.Proc} {other : Nat} {key : RunKey} {owner : Nat}
    (h : Holder { s with
      procs := Function.update s.procs s.next (some proc)
      next := s.next + 1
      history := history } (Function.update views s.next v) other key owner) :
    (other ≠ s.next ∧ Holder s views other key owner) ∨
      (other = s.next ∧ v.slot = some key ∧ proc.kind.owner s.next = owner) := by
  obtain ⟨proc', hproc, hslot, howner⟩ := h
  by_cases hother : other = s.next
  · subst hother
    simp only [Function.update_self, Option.some.injEq] at hproc hslot
    subst hproc
    exact .inr ⟨rfl, hslot, howner⟩
  · simp only [Function.update_of_ne hother] at hproc hslot
    exact .inl ⟨hother, proc', hproc, hslot, howner⟩

/-- A call that comes in holds nothing. -/
theorem Slotted.called (h : Slotted s views) (c : ServiceCall) (hslot : v.slot = none) :
    Slotted { s with
      procs := Function.update s.procs s.next (some ⟨.call c, svc.runtime.code c⟩)
      next := s.next + 1
      history := history } (Function.update views s.next v) := by
  refine h.transfer rfl id (fun other key owner hholder => ?_) fun _ _ _ _ _ _ _ _ => id
  rcases holder_inserted hholder with ⟨-, hother⟩ | ⟨-, hkey, -⟩
  · exact hother
  · rw [hslot] at hkey
    cases hkey

/-- The slot goes to the task that is spawned. -/
theorem holder_spawned {proc proc' : svc.runtime.Proc} {v' : SlotView} (hfresh : pid < s.next)
    (hslot : v.slot = none) {other : Nat} {key : RunKey} {owner : Nat}
    (h : Holder { s with
      world := w
      procs := Function.update (Function.update s.procs pid (some proc)) s.next (some proc')
      next := s.next + 1
      history := history } (Function.update (Function.update views pid v) s.next v') other key owner) :
    (other ≠ pid ∧ other ≠ s.next ∧ Holder s views other key owner) ∨
      (other = s.next ∧ v'.slot = some key ∧ proc'.kind.owner s.next = owner) := by
  obtain ⟨holder, hproc, hkey, howner⟩ := h
  by_cases hother : other = s.next
  · subst hother
    simp only [Function.update_self, Option.some.injEq] at hproc hkey
    subst hproc
    exact .inr ⟨rfl, hkey, howner⟩
  · simp only [Function.update_of_ne hother] at hproc hkey
    by_cases hpid : other = pid
    · subst hpid
      simp only [Function.update_self] at hkey
      rw [hslot] at hkey
      cases hkey
    · simp only [Function.update_of_ne hpid] at hproc hkey
      exact .inl ⟨hpid, hother, holder, hproc, hkey, howner⟩

theorem Slotted.spawned {task : WorkflowTask} (h : Slotted s views)
    (hproc : s.procs pid = some ⟨kind, p⟩) (hfresh : pid < s.next) (hslot : v.slot = none)
    (htask : (views pid).slot = some task.key) (hactive : w.active = s.world.active) :
    Slotted { s with
      world := w
      procs := Function.update (Function.update s.procs pid (some ⟨kind, q⟩)) s.next
        (some ⟨.job (kind.owner pid) task, svc.runtime.body task⟩)
      next := s.next + 1
      history := history }
      (Function.update (Function.update views pid v) s.next { slot := some task.key, job := true }) := by
  have hself : Holder s views pid task.key (kind.owner pid) := ⟨_, hproc, htask, rfl⟩
  refine h.transfer (by rw [hactive]) (fun other => if other = s.next then pid else other)
    (fun other key owner hholder => ?_) fun o o' k k' w w' ho ho' heq => ?_
  · rcases holder_spawned hfresh hslot hholder with ⟨-, hne, hother⟩ | ⟨rfl, hkey, rfl⟩
    · rw [if_neg hne]
      exact hother
    · rw [if_pos rfl, ← Option.some.inj hkey]
      exact hself
  · rcases holder_spawned hfresh hslot ho with ⟨hpid, hne, -⟩ | ⟨rfl, -, -⟩ <;>
      rcases holder_spawned hfresh hslot ho' with ⟨hpid', hne', -⟩ | ⟨rfl, -, -⟩
    · simpa [hne, hne'] using heq
    · exact absurd (by simpa [hne] using heq) hpid
    · exact absurd (by simpa [hne'] using heq.symm) hpid'
    · rfl

theorem Slotted.empty (hactive : s.world.active = []) (hprocs : ∀ pid, s.procs pid = none) :
    Slotted s views := by
  have hnone : ∀ {pid proc}, s.procs pid ≠ some proc := by
    intro pid proc hproc
    rw [hprocs] at hproc
    cases hproc
  constructor
  · rw [hactive]
    exact List.nodup_nil
  · rw [hactive]
    exact Nat.zero_le _
  · rintro pid key owner ⟨proc, hproc, -⟩
    exact absurd hproc hnone
  · rintro pid pid' key key' owner owner' ⟨proc, hproc, -⟩
    exact absurd hproc hnone

/-- **Every move of the service keeps the map in order.** -/
theorem Slotted.moves {t : svc.runtime.State} {views' : Nat → (slots svc).View} {e : svc.runtime.Event}
    (h : Slotted s views) (hfollows : (slots svc).Follows s views)
    (hmove : (slots svc).Moves s views e t views') : Slotted t views' := by
  cases hmove with
  | call c => exact h.called c rfl
  | @act pid kind r k a w hproc hjob hexec hpermits =>
    refine h.acted hproc (slotMove hexec hpermits fun task htask => ?_)
    subst htask
    cases hjob
  | @spawn pid kind r k a w task hproc hjob hexec hpermits =>
    cases r with
    | spawn task' =>
      cases hjob
      exact h.spawned hproc (hfollows.lt_next hproc) rfl hpermits.2.1 (by rw [hexec])
    | _ => cases hjob
  | «return» hproc hreturns => exact h.erased
  | drop hproc hpermits => exact h.erased
  | interfere hworld =>
    obtain ⟨c, st, -, rfl⟩ := hworld
    exact h.transfer rfl id (fun _ _ _ => id) fun _ _ _ _ _ _ _ _ => id
  | restart =>
    exact Slotted.empty rfl fun _ => rfl

theorem Slotted.start (storage : Storage) (views : Nat → SlotView) :
    Slotted (svc.runtime.start (ServiceWorld.new storage)) views := Slotted.empty rfl fun _ => rfl

end Moves

/-! ## Calls and tasks -/

/-- A call has its own target, a task the slot it was spawned with. -/
def Own : svc.runtime.Kind → SlotView → Prop
  | .call c, v => v.job = false ∧ v.target = c.target svc
  | .job _ task, v => v.job = true ∧ v.target = none ∧ ∀ key, v.slot = some key → key = task.key

theorem Own.observe {kind : svc.runtime.Kind} {v : SlotView} {w w' : ServiceWorld} {owner : Nat}
    {idle : Prop} {r : ServiceRequest} {a : ServiceAnswer r} (h : Own kind v) (hpermits : v.permits svc r)
    (hexec : w.exec owner idle r a w') : Own kind (v.observe r a) := by
  obtain ⟨hjob, htarget, -⟩ := v.observe_fixed r a
  cases kind with
  | call c => exact ⟨by rw [hjob, h.1], by rw [htarget, h.2]⟩
  | job parent task =>
    refine ⟨by rw [hjob, h.1], by rw [htarget, h.2.1], fun key hkey => ?_⟩
    have hlive : v.slot.isSome = true := hpermits.1 h.1
    by_cases hspawn : ∃ task', r = .spawn task'
    · obtain ⟨task', rfl⟩ := hspawn
      cases hkey
    · cases slotMove hexec hpermits fun task' htask => hspawn ⟨task', htask⟩ with
      | kept hactive hslot => exact h.2.2 key (hslot ▸ hkey)
      | took key' run hserving hvacant hroom hactive hid hfree hslot => simp [hfree] at hlive
      | gave key' hrequest hheld hactive hslot =>
        rw [hslot] at hkey
        cases hkey

/-- The views are those of the calls and the tasks. -/
def Owned (s : svc.runtime.State) (views : Nat → SlotView) : Prop :=
  ∀ pid proc, s.procs pid = some proc → Own proc.kind (views pid)

theorem Owned.moves {s t : svc.runtime.State} {views views' : Nat → (slots svc).View}
    {e : svc.runtime.Event} (h : Owned s views) (hmove : (slots svc).Moves s views e t views') :
    Owned t views' :=
  hmove.each (D := slots svc) (P := fun _ kind v => Own kind v) h (fun _ => ⟨rfl, rfl⟩)
    (fun _ hproc hpermits hexec => (h _ _ hproc).observe hpermits hexec) (fun hv _ => hv)
    (fun _ _ _ => ⟨rfl, rfl, fun _ hkey => (Option.some.inj hkey).symm⟩) fun hv _ => hv

end LocalAgent
