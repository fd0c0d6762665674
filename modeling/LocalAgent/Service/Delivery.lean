import LocalAgent.Lib.Feed
import LocalAgent.Service.Events
import LocalAgent.Store.Log

/-!
# Events are delivered without gaps

While writers append, a client reads page after page, from the store or through the service, or a
stream does so for it. Whatever the limits, the faults and the order of the steps, it has got exactly
the events after its first cursor up to the last one it got: `event_delivery_gapless`.
-/
namespace LocalAgent

open Paging Feed

/-! ## Reading from the store -/

/-- The cursor that a page leaves: its own, or else that of its last event, or else the one it was
asked for. -/
def pageCursor (after : Option Nat) (page : Page AgentEvent Nat) : Option Nat :=
  page.next.or ((page.items.getLast?.map AgentEvent.sequence).or after)

/-- A reader among the writers. -/
structure Reader where
  store : Store
  cursor : Option Nat
  events : List AgentEvent

/-- A writer's call, or a read; a read may fail although the store is well. -/
inductive ReadStep where
  | write (call : StoreCall)
  | read (limit : Nat) (fault : Option PersistencePortError)

def Reader.step (key : RunKey) (r : Reader) : ReadStep → Reader
  | .write call => { r with store := (r.store.execute call).2 }
  | .read limit fault =>
    match fault.elim (r.store.readEvents key r.cursor limit) .error with
    | .error _ => r
    | .ok page => { r with cursor := pageCursor r.cursor page, events := r.events ++ page.items }

def Reader.run (key : RunKey) (after : Option Nat) (steps : List ReadStep) : Reader :=
  steps.foldl (Reader.step key) ⟨.empty, after, []⟩

/-- These are exactly the events of the log after the cursor up to the last of them. -/
def Gapless (log : List AgentEvent) (after : Option Nat) (events : List AgentEvent) : Prop :=
  events = log.filter fun e =>
    after.all (· < e.sequence) && events.getLast?.any (e.sequence ≤ ·.sequence)

/-! ## Reading through the service -/

/-- A client of the service, which takes its cursor from the last event it got. -/
structure Client where
  store : Store
  cursor : Option Nat
  events : List ServiceEvent

inductive ClientStep where
  | write (call : StoreCall)
  | read (limit : Nat) (answers : ReadAnswers)

section

variable (workflows : List (RecoveryContract × WorkflowId)) (encode : ServiceEvent → Option String)
  (key : RunKey)

def Client.step (c : Client) : ClientStep → Client
  | .write call => { c with store := (c.store.execute call).2 }
  | .read limit answers =>
    match serviceReadEvents workflows c.store key c.cursor limit answers with
    | .error _ => c
    | .ok events => { c with
        cursor := (events.getLast?.map ServiceEvent.sequence).or c.cursor
        events := c.events ++ events }

def Client.run (after : Option Nat) (steps : List ClientStep) : Client :=
  steps.foldl (Client.step workflows key) ⟨.empty, after, []⟩

/-! ## The stream -/

/-- An open stream and the frames it has yielded. -/
structure EventStream where
  store : Store
  sse : SseState
  frames : List Frame
  ended : Bool

inductive StreamStep where
  | write (call : StoreCall)
  | turn (expired : Bool) (answers : ReadAnswers)

def EventStream.step (st : EventStream) : StreamStep → EventStream
  | .write call => { st with store := (st.store.execute call).2 }
  | .turn expired answers =>
    if st.ended then st
    else
      let read := fun cursor => serviceReadEvents workflows st.store key cursor ssePageSize answers
      match st.sse.turn encode expired read with
      | (.ended, sse) => { st with sse := sse, ended := true }
      | (.frame frame, sse) => { st with sse := sse, frames := st.frames ++ [frame] }
      | (.again, sse) => { st with sse := sse }

def EventStream.run (sse : SseState) (steps : List StreamStep) : EventStream :=
  steps.foldl (EventStream.step workflows encode key) ⟨.empty, sse, [], false⟩

/-- The projection of an event, under some workflow. -/
def Projects (view : ServiceEvent) (event : AgentEvent) : Prop :=
  ∃ workflowId, view = ServiceEvent.new event workflowId

/-- The frame of an event: its number as the id and its projection as the data. -/
def Shows (frame : Frame) (event : AgentEvent) : Prop :=
  ∃ view data, Projects view event ∧ encode view = some data ∧
    frame = .metadata (toString event.sequence) data

end

/-! ## Pages -/

variable {s : Store} {key : RunKey} {after : Option Nat} {limit : Nat}

/-- The events of a log are numbered from zero. -/
theorem log_sequences (hs : s.AllNumbered) (run : RunId) :
    (s.log run).map AgentEvent.sequence = List.range (s.log run).length := by
  unfold Store.log
  cases hrow : s.runs run with
  | none => rfl
  | some row => exact (hs run row hrow).sequences

/-- The log of a store is ordered by its numbers. -/
theorem log_ordered (hs : s.AllNumbered) (run : RunId) : Ordered AgentEvent.sequence (s.log run) := by
  have hlt : ((s.log run).map AgentEvent.sequence).Pairwise (· < ·) := by
    rw [log_sequences hs]
    exact List.pairwise_lt_range
  exact List.pairwise_map.mp hlt

/-- A page holds the first events after the cursor. -/
theorem readEvents_items {page : Page AgentEvent Nat} (hs : s.AllNumbered)
    (h : s.readEvents key after limit = .ok page) :
    page.items = (Feed.after AgentEvent.sequence after (s.log key.runId)).take limit ∧
      page.next.all fun next => page.items.getLast?.map AgentEvent.sequence = some next := by
  unfold Store.readEvents at h
  split at h
  · cases h
  cases hload : s.loadRun key with
  | error e =>
    rw [hload] at h
    cases h
  | ok loaded =>
    rw [hload] at h
    simp only at h
    split at h
    · cases h
    · cases h
      obtain ⟨row, hrow, -, -, -, hevents⟩ := Store.loadRun_ok hload
      have hlog : loaded.events = s.log key.runId := by
        rw [hevents, (hs _ row hrow).sorted, Store.log, hrow]
      refine ⟨by rw [hlog, Feed.after], ?_⟩
      simp only
      split
      · cases ((loaded.events.filter _).take limit).getLast? <;> simp
      · rfl

/-- **A page is the next part of the log**, and a cursor it names is that of its last event. -/
theorem readEvents_ok {page : Page AgentEvent Nat} (hs : s.AllNumbered)
    (h : s.readEvents key after limit = .ok page) :
    page.items <+: Feed.after AgentEvent.sequence after (s.log key.runId) ∧
      pageCursor after page = position AgentEvent.sequence after page.items := by
  obtain ⟨hitems, hnext⟩ := readEvents_items hs h
  refine ⟨hitems ▸ List.take_prefix .., ?_⟩
  unfold pageCursor position cursor
  cases hpage : page.next with
  | none => rfl
  | some next =>
    rw [hpage, Option.all_some, decide_eq_true_eq] at hnext
    rw [hnext]
    rfl

/-- Events are stored behind the cursor. -/
def HasUnread (log : List AgentEvent) (cursor : Option Nat) : Prop :=
  ∃ e ∈ log, cursor.all (· < e.sequence) = true

/-- **A read behind which events are stored returns events**, if the run can be loaded. -/
theorem readEvents_progress (hs : s.AllNumbered) (hlimit : Store.validPageLimit limit = true)
    (hload : ∃ loaded, s.loadRun key = .ok loaded) (hunread : HasUnread (s.log key.runId) after) :
    ∃ page, s.readEvents key after limit = .ok page ∧ page.items ≠ [] := by
  obtain ⟨loaded, hload⟩ := hload
  obtain ⟨event, hevent, hafter⟩ := hunread
  obtain ⟨row, hrow, -, -, -, hevents⟩ := Store.loadRun_ok hload
  have hlog : loaded.events = s.log key.runId := by
    rw [hevents, (hs _ row hrow).sorted, Store.log, hrow]
  have hordered := log_ordered hs key.runId
  rw [← hlog] at hevent hordered
  have hcursor : (after.any fun cursor => loaded.events.getLast?.all fun e => e.sequence < cursor) = false := by
    cases after with
    | none => rfl
    | some cursor =>
      obtain ⟨init, last, hinit⟩ : ∃ init last, loaded.events = init ++ [last] := by
        obtain hnil | ⟨init, last, hconcat⟩ := List.eq_nil_or_concat loaded.events
        · rw [hnil] at hevent
          cases hevent
        · exact ⟨init, last, by rw [hconcat, List.concat_eq_append]⟩
      -- the last event is not before the one behind the cursor
      have hle : event.sequence ≤ last.sequence := by
        rw [hinit] at hevent hordered
        rcases List.mem_append.mp hevent with hmem | hmem
        · exact ((List.pairwise_append.mp hordered).2.2 event hmem last (by simp)).le
        · rw [List.mem_singleton.mp hmem]
      simp only [Option.all_some, decide_eq_true_eq] at hafter
      simp only [Option.any_some, hinit, List.getLast?_append, List.getLast?_singleton, Option.some_or,
        Option.all_some, decide_eq_false_iff_not]
      omega
  have hmatching : event ∈ loaded.events.filter fun e => after.all fun cursor => cursor < e.sequence :=
    List.mem_filter.mpr ⟨hevent, hafter⟩
  unfold Store.readEvents
  rw [hlimit, hload]
  simp only [Bool.not_true, Bool.false_eq_true, if_false, hcursor]
  refine ⟨_, rfl, fun hnone => ?_⟩
  rcases List.take_eq_nil_iff.mp hnone with hzero | hnil
  · rw [hzero] at hlimit
    cases hlimit
  · rw [hnil] at hmatching
    cases hmatching

/-- No port keeps the caller from reading. -/
structure ReadAnswers.Grants (a : ReadAnswers) : Prop where
  authorized : ∃ authorization, runAuthorization a.authorized = .ok authorization ∧
    a.granted authorization = true
  found : ∃ run, a.found = .ok run
  fault : a.fault = none

theorem serviceReadEvents_progress (workflows : List (RecoveryContract × WorkflowId)) {a : ReadAnswers}
    (ha : a.Grants) (hs : s.AllNumbered) (hlimit : Store.validPageLimit limit = true)
    (hload : ∃ loaded, s.loadRun key = .ok loaded) (hunread : HasUnread (s.log key.runId) after) :
    ∃ views, serviceReadEvents workflows s key after limit a = .ok views ∧ views ≠ [] := by
  obtain ⟨⟨authorization, hauthorized, hgranted⟩, ⟨run, hfound⟩, hfault⟩ := ha
  obtain ⟨page, hpage, hitems⟩ := readEvents_progress hs hlimit hload hunread
  have hvalid : (limit = 0 || limit > maxReadPageItems) = false := by
    simpa [Store.validPageLimit] using hlimit
  refine ⟨page.items.map fun event =>
    ServiceEvent.new event (run.bind fun run => workflows.lookup run.recoveryContract), ?_,
    fun hnone => hitems (List.map_eq_nil_iff.mp hnone)⟩
  simp only [serviceReadEvents, hvalid, Bool.false_eq_true, if_false, hauthorized, hgranted, Bool.not_true,
    hfound, hfault, Option.elim_none, hpage]

/-- What the service returns is the projection of a page. -/
theorem serviceReadEvents_items {workflows : List (RecoveryContract × WorkflowId)} {a : ReadAnswers}
    {views : List ServiceEvent} (hs : s.AllNumbered)
    (h : serviceReadEvents workflows s key after limit a = .ok views) :
    List.Forall₂ Projects views
      ((Feed.after AgentEvent.sequence after (s.log key.runId)).take limit) := by
  unfold serviceReadEvents at h
  split at h
  · cases h
  split at h
  · cases h
  split at h
  · cases h
  split at h
  · cases h
  · rename_i run _
    simp only at h
    split at h
    · cases h
    · rename_i page hpage
      cases h
      have hread : s.readEvents key after limit = .ok page := by
        cases hfault : a.fault with
        | none => simpa [hfault] using hpage
        | some e => simp [hfault] at hpage
      rw [← (readEvents_items hs hread).1, List.forall₂_map_left_iff]
      exact List.forall₂_same.mpr fun event _ => ⟨_, rfl⟩

theorem serviceReadEvents_ok {workflows : List (RecoveryContract × WorkflowId)} {a : ReadAnswers}
    {views : List ServiceEvent} (hs : s.AllNumbered)
    (h : serviceReadEvents workflows s key after limit a = .ok views) :
    ∃ events, List.Forall₂ Projects views events ∧
      events <+: Feed.after AgentEvent.sequence after (s.log key.runId) :=
  ⟨_, serviceReadEvents_items hs h, List.take_prefix ..⟩

/-! ## The runs -/

theorem execute_allNumbered (hs : s.AllNumbered) (call : StoreCall) : (s.execute call).2.AllNumbered :=
  Store.serve_allNumbered hs [call]

/-- What was delivered is gapless. -/
theorem gapless_of_delivered {log events : List AgentEvent}
    (h : Delivered AgentEvent.sequence after log events) (hlog : Ordered AgentEvent.sequence log) :
    Gapless log after events := by
  unfold Gapless
  have hexact := h.exact hlog
  rw [Feed.after, List.filter_filter] at hexact
  refine hexact.trans (List.filter_congr fun e _ => ?_)
  rw [cursor, Bool.and_comm]
  cases events.getLast? <;> rfl

theorem Projects.sequence {view : ServiceEvent} {event : AgentEvent} (h : Projects view event) :
    view.sequence = event.sequence := by
  obtain ⟨workflowId, rfl⟩ := h
  rfl

/-- Projections have the numbers of their events. -/
theorem sequences_of_projects {views : List ServiceEvent} {events : List AgentEvent}
    (h : List.Forall₂ Projects views events) :
    views.map ServiceEvent.sequence = events.map AgentEvent.sequence := by
  induction h with
  | nil => rfl
  | cons hview _ ih => rw [List.map_cons, List.map_cons, hview.sequence, ih]

/-- The last projection has the number of the last event. -/
theorem cursor_of_projects {views : List ServiceEvent} {events : List AgentEvent}
    (h : List.Forall₂ Projects views events) :
    views.getLast?.map ServiceEvent.sequence = cursor AgentEvent.sequence events := by
  rw [cursor, ← List.getLast?_map, ← List.getLast?_map, sequences_of_projects h]

/-- A reader of the store is where its events end. -/
structure Reader.Sound (key : RunKey) (after : Option Nat) (r : Reader) : Prop where
  numbered : r.store.AllNumbered
  position : r.cursor = position AgentEvent.sequence after r.events
  delivered : Delivered AgentEvent.sequence after (r.store.log key.runId) r.events

theorem Reader.Sound.step {r : Reader} (h : r.Sound key after) (step : ReadStep) :
    (r.step key step).Sound key after := by
  cases step with
  | write call =>
    exact ⟨execute_allNumbered h.numbered call, h.position,
      h.delivered.grow (Store.execute_log r.store call key.runId)⟩
  | read limit fault =>
    simp only [Reader.step]
    cases hpage : fault.elim (r.store.readEvents key r.cursor limit) .error with
    | error e => exact h
    | ok page =>
      have hread : r.store.readEvents key r.cursor limit = .ok page := by
        cases fault with
        | none => exact hpage
        | some e => cases hpage
      obtain ⟨hitems, hcursor⟩ := readEvents_ok h.numbered hread
      refine ⟨h.numbered, ?_, ?_⟩
      · show pageCursor r.cursor page = _
        rw [hcursor, h.position]
        exact position_append.symm
      · rw [h.position] at hitems
        exact h.delivered.read (log_ordered h.numbered _) hitems

theorem Reader.run_sound (key : RunKey) (after : Option Nat) (steps : List ReadStep) :
    (Reader.run key after steps).Sound key after := by
  have hfold : ∀ (steps : List ReadStep) (r : Reader), r.Sound key after →
      (steps.foldl (Reader.step key) r).Sound key after := by
    intro steps
    induction steps with
    | nil => exact fun r h => h
    | cons step rest ih => exact fun r h => ih _ (h.step step)
  exact hfold steps _ ⟨Store.empty_allNumbered, rfl, Delivered.nil⟩

section

variable {workflows : List (RecoveryContract × WorkflowId)} {encode : ServiceEvent → Option String}

/-- A client of the service is where its events end. -/
structure Client.Sound (key : RunKey) (after : Option Nat) (c : Client) (events : List AgentEvent) :
    Prop where
  numbered : c.store.AllNumbered
  position : c.cursor = position AgentEvent.sequence after events
  projects : List.Forall₂ Projects c.events events
  delivered : Delivered AgentEvent.sequence after (c.store.log key.runId) events

theorem Client.Sound.step {c : Client} {events : List AgentEvent} (h : c.Sound key after events)
    (step : ClientStep) : ∃ events, (c.step workflows key step).Sound key after events := by
  cases step with
  | write call =>
    exact ⟨events, execute_allNumbered h.numbered call, h.position, h.projects,
      h.delivered.grow (Store.execute_log c.store call key.runId)⟩
  | read limit answers =>
    simp only [Client.step]
    cases hread : serviceReadEvents workflows c.store key c.cursor limit answers with
    | error e => exact ⟨events, h⟩
    | ok views =>
      obtain ⟨more, hmore, hitems⟩ := serviceReadEvents_ok h.numbered hread
      refine ⟨events ++ more, h.numbered, ?_, List.rel_append h.projects hmore, ?_⟩
      · show (views.getLast?.map ServiceEvent.sequence).or c.cursor = _
        rw [cursor_of_projects hmore, h.position, position_append]
        rfl
      · rw [h.position] at hitems
        exact h.delivered.read (log_ordered h.numbered _) hitems

theorem Client.run_sound (workflows : List (RecoveryContract × WorkflowId)) (key : RunKey)
    (after : Option Nat) (steps : List ClientStep) :
    ∃ events, (Client.run workflows key after steps).Sound key after events := by
  have hfold : ∀ (steps : List ClientStep) (c : Client), (∃ events, c.Sound key after events) →
      ∃ events, (steps.foldl (Client.step workflows key) c).Sound key after events := by
    intro steps
    induction steps with
    | nil => exact fun c h => h
    | cons step rest ih => exact fun c ⟨events, h⟩ => ih _ (h.step step)
  exact hfold steps _ ⟨[], Store.empty_allNumbered, rfl, .nil, Delivered.nil⟩

/-- A stream has shown some events. As long as it is not done, it holds the next ones. -/
structure EventStream.Sound (encode : ServiceEvent → Option String) (key : RunKey)
    (after : Option Nat) (st : EventStream) (shown : List AgentEvent) : Prop where
  numbered : st.store.AllNumbered
  delivered : Delivered AgentEvent.sequence after (st.store.log key.runId) shown
  shows : ∃ front tail, st.frames = front ++ tail ∧ List.Forall₂ (Shows encode) front shown ∧
    (tail = [] ∨ (∃ data, tail = [.error data]) ∧ st.sse.done = true)
  live : st.sse.done = false → List.Forall₂ (Shows encode) st.frames shown ∧
    st.sse.cursor = position AgentEvent.sequence after shown ∧
    ∃ held, List.Forall₂ Projects st.sse.pending held ∧
      Delivered AgentEvent.sequence after (st.store.log key.runId) (shown ++ held)

/-- An error frame is the last one. -/
theorem EventStream.Sound.fail {st : EventStream} {shown : List AgentEvent}
    (h : st.Sound encode key after shown) (hdone : st.sse.done = false) (data : String)
    (sse : SseState) (hsse : sse.done = true) :
    EventStream.Sound encode key after
      { st with sse := sse, frames := st.frames ++ [.error data] } shown := by
  refine ⟨h.numbered, h.delivered, ?_, ?_⟩
  · exact ⟨st.frames, [.error data], rfl, (h.live hdone).1, .inr ⟨⟨data, rfl⟩, hsse⟩⟩
  · intro hlive
    rw [hsse] at hlive
    cases hlive

theorem EventStream.Sound.step {st : EventStream} {shown : List AgentEvent}
    (h : st.Sound encode key after shown) (step : StreamStep) :
    ∃ shown, (st.step workflows encode key step).Sound encode key after shown := by
  cases step with
  | write call =>
    have hgrow := Store.execute_log st.store call key.runId
    refine ⟨shown, execute_allNumbered h.numbered call, h.delivered.grow hgrow, h.shows, ?_⟩
    intro hdone
    obtain ⟨hshown, hposition, held, hheld, hdelivered⟩ := h.live hdone
    exact ⟨hshown, hposition, held, hheld, hdelivered.grow hgrow⟩
  | turn expired answers =>
    simp only [EventStream.step]
    by_cases hended : st.ended = true
    · rw [if_pos hended]
      exact ⟨shown, h⟩
    rw [if_neg hended]
    unfold SseState.turn
    by_cases hstop : (st.sse.done || expired) = true
    · simp only [hstop, if_true]
      exact ⟨shown, h.numbered, h.delivered, h.shows, h.live⟩
    have hdone : st.sse.done = false := by
      simp only [Bool.or_eq_true, not_or, Bool.not_eq_true] at hstop
      exact hstop.1
    rw [if_neg hstop]
    obtain ⟨hshown, hposition, held, hheld, hdelivered⟩ := h.live hdone
    cases hpending : st.sse.pending with
    | cons view pending =>
      rw [hpending] at hheld
      obtain ⟨event, rest, hview, hrest, rfl⟩ := List.forall₂_cons_left_iff.mp hheld
      simp only
      cases hencode : encode view with
      | none => exact ⟨shown, h.fail hdone _ _ rfl⟩
      | some data =>
        have hframes : List.Forall₂ (Shows encode)
            (st.frames ++ [.metadata (toString view.sequence) data]) (shown ++ [event]) := by
          refine List.rel_append hshown (.cons ⟨view, data, hview, hencode, ?_⟩ .nil)
          rw [hview.sequence]
        have hall : Delivered AgentEvent.sequence after (st.store.log key.runId)
            (shown ++ [event] ++ rest) := by simpa using hdelivered
        refine ⟨shown ++ [event], h.numbered, (List.prefix_append ..).trans hall,
          ⟨_, [], (List.append_nil _).symm, hframes, .inl rfl⟩, fun _ => ⟨hframes, ?_, rest, hrest, hall⟩⟩
        simp [position, cursor, hview.sequence]
    | nil =>
      rw [hpending] at hheld
      obtain rfl := List.forall₂_nil_left_iff.mp hheld
      simp only
      cases hread : serviceReadEvents workflows st.store key st.sse.cursor ssePageSize answers with
      | error e => exact ⟨shown, h.fail hdone _ _ rfl⟩
      | ok views =>
        obtain ⟨events, hevents, hitems⟩ := serviceReadEvents_ok h.numbered hread
        refine ⟨shown, h.numbered, h.delivered, h.shows, fun _ => ⟨hshown, hposition, events, hevents, ?_⟩⟩
        rw [hposition] at hitems
        exact h.delivered.read (log_ordered h.numbered _) hitems

theorem EventStream.run_sound (workflows : List (RecoveryContract × WorkflowId))
    (encode : ServiceEvent → Option String) (key : RunKey) (after : Option Nat)
    (steps : List StreamStep) : ∃ shown,
      (EventStream.run workflows encode key ⟨after, [], false⟩ steps).Sound encode key after shown := by
  have hfold : ∀ (steps : List StreamStep) (st : EventStream),
      (∃ shown, st.Sound encode key after shown) →
        ∃ shown, (steps.foldl (EventStream.step workflows encode key) st).Sound encode key after shown := by
    intro steps
    induction steps with
    | nil => exact fun st h => h
    | cons step rest ih => exact fun st ⟨shown, h⟩ => ih _ (h.step step)
  refine hfold steps _ ⟨[], Store.empty_allNumbered, Delivered.nil, ⟨[], [], rfl, .nil, .inl rfl⟩, ?_⟩
  exact fun _ => ⟨.nil, rfl, [], .nil, Delivered.nil⟩

end

/-- An accepted request starts the stream at its cursor. -/
theorem streamEvents_fresh {query : Option Nat} {header : Option (Option String)} {sse : SseState}
    (h : streamEvents query header = some sse) : sse = ⟨sse.cursor, [], false⟩ := by
  unfold streamEvents at h
  split at h
  · cases h
    rfl
  split at h
  · cases h
  split at h
  · cases h
  · cases h
    rfl

/-- A turn with events at hand yields a frame. -/
theorem EventStream.step_pending {workflows : List (RecoveryContract × WorkflowId)}
    {encode : ServiceEvent → Option String} {st : EventStream} (answers : ReadAnswers) (hended : st.ended = false)
    (hdone : st.sse.done = false) (hpending : st.sse.pending ≠ []) :
    (st.step workflows encode key (.turn false answers)).frames.length = st.frames.length + 1 := by
  obtain ⟨event, pending, hcons⟩ := List.exists_cons_of_ne_nil hpending
  cases hencode : encode event <;>
    simp [EventStream.step, SseState.turn, hended, hdone, hcons, hencode]

/-- A turn without them reads the next ones. -/
theorem EventStream.step_read {workflows : List (RecoveryContract × WorkflowId)}
    {encode : ServiceEvent → Option String} {st : EventStream} {answers : ReadAnswers}
    {views : List ServiceEvent} (hended : st.ended = false) (hdone : st.sse.done = false)
    (hpending : st.sse.pending = [])
    (hread : serviceReadEvents workflows st.store key st.sse.cursor ssePageSize answers = .ok views) :
    (st.step workflows encode key (.turn false answers)).sse.pending = views := by
  simp [EventStream.step, SseState.turn, hended, hdone, hpending, hread]

/-- **Events are delivered without gaps**, to a reader of the store, to a client of the service and
by a stream, whatever the writers, the limits, the faults and the clock do in between. A stream
shows every event under its number, and ends with at most one error frame. And they are delivered: where
events are stored behind the cursor of a run that can be loaded, a read that meets no fault returns some,
and a stream that is not over has some at hand one turn later and yields a frame for each. -/
theorem event_delivery_gapless (workflows : List (RecoveryContract × WorkflowId))
    (encode : ServiceEvent → Option String) (key : RunKey) (after : Option Nat) :
    (∀ steps, let r := Reader.run key after steps
      Gapless (r.store.log key.runId) after r.events ∧
      ∀ limit, Store.validPageLimit limit = true → (∃ loaded, r.store.loadRun key = .ok loaded) →
        HasUnread (r.store.log key.runId) r.cursor →
          r.events.length < (r.step key (.read limit none)).events.length) ∧
    (∀ steps, let c := Client.run workflows key after steps
      (∃ events, Gapless (c.store.log key.runId) after events ∧
        List.Forall₂ Projects c.events events) ∧
      ∀ limit answers, Store.validPageLimit limit = true → answers.Grants →
        (∃ loaded, c.store.loadRun key = .ok loaded) → HasUnread (c.store.log key.runId) c.cursor →
          c.events.length < (c.step workflows key (.read limit answers)).events.length) ∧
    ∀ query header sse steps, streamEvents query header = some sse →
      let st := EventStream.run workflows encode key sse steps
      (∃ events front tail, Gapless (st.store.log key.runId) sse.cursor events ∧
        st.frames = front ++ tail ∧ List.Forall₂ (Shows encode) front events ∧
        (tail = [] ∨ (∃ data, tail = [.error data]) ∧ st.sse.done = true)) ∧
      ∀ answers, st.ended = false → st.sse.done = false →
        (st.sse.pending = [] → answers.Grants → (∃ loaded, st.store.loadRun key = .ok loaded) →
          HasUnread (st.store.log key.runId) st.sse.cursor →
            (st.step workflows encode key (.turn false answers)).sse.pending ≠ []) ∧
        (st.sse.pending ≠ [] →
          (st.step workflows encode key (.turn false answers)).frames.length = st.frames.length + 1) := by
  refine ⟨fun steps => ?_, fun steps => ?_, fun query header sse steps hsse => ?_⟩
  · have h := Reader.run_sound key after steps
    refine ⟨gapless_of_delivered h.delivered (log_ordered h.numbered _), fun limit hlimit hload hunread => ?_⟩
    obtain ⟨page, hpage, hitems⟩ := readEvents_progress h.numbered hlimit hload hunread
    simp only [Reader.step, Option.elim_none, hpage, List.length_append]
    exact Nat.lt_add_of_pos_right (List.length_pos_iff.mpr hitems)
  · obtain ⟨events, h⟩ := Client.run_sound workflows key after steps
    refine ⟨⟨events, gapless_of_delivered h.delivered (log_ordered h.numbered _), h.projects⟩,
      fun limit answers hlimit hgrants hload hunread => ?_⟩
    obtain ⟨views, hviews, hsome⟩ := serviceReadEvents_progress workflows hgrants h.numbered hlimit
      hload hunread
    simp only [Client.step, hviews, List.length_append]
    exact Nat.lt_add_of_pos_right (List.length_pos_iff.mpr hsome)
  · have hfresh := streamEvents_fresh hsse
    obtain ⟨shown, h⟩ := EventStream.run_sound workflows encode key sse.cursor steps
    rw [← hfresh] at h
    obtain ⟨front, tail, hframes, hshown, htail⟩ := h.shows
    refine ⟨⟨shown, front, tail, gapless_of_delivered h.delivered (log_ordered h.numbered _), hframes, hshown,
      htail⟩, fun answers hended hdone => ⟨fun hpending hgrants hload hunread => ?_,
      EventStream.step_pending answers hended hdone⟩⟩
    obtain ⟨views, hviews, hsome⟩ := serviceReadEvents_progress workflows hgrants h.numbered
      (show Store.validPageLimit ssePageSize = true from rfl) hload hunread
    rw [EventStream.step_read hended hdone hpending hviews]
    exact hsome

end LocalAgent
