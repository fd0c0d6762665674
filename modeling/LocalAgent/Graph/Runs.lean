import LocalAgent.Graph.Traces
import LocalAgent.Harness.Clients
import LocalAgent.Harness.Refused

/-!
# Runs of the graph engine

What the engines of a definition send to the store, in however many runs and resumptions of them, is a
walk along the edges of the definition once the reducer accepts it (`engine_log_walks`). No run is left
because the loop has gone on for too long: a definition without cycles is left after at most as many
rounds as it has nodes (`graph_engine_ends`). And a run finds every node that it looks for, as long as
the program decides for branches that exist (`graph_engine_moves`).
-/
namespace LocalAgent

open Program Relation DurableRunState

namespace GraphDefinition

variable {σ α : Type} {lib : Library} {h : ExecutionHarness} {d : GraphDefinition}
  {program : GraphProgram lib σ}

/-! ## What is sent -/

/-- Some engine of the definition, on some context, asks for this at some point. -/
inductive EngineAsks (d : GraphDefinition) (r : Request) : Prop
  | run {σ : Type} {lib : Library} {h : ExecutionHarness} {program : GraphProgram lib σ}
      {s : RunContext × σ} (asks : (runGraph lib h d program s).Asks r)
  | resume {σ : Type} {lib : Library} {h : ExecutionHarness} {program : GraphProgram lib σ}
      {recovered : RecoveredRun} {s : RunContext × σ} (asks : (resumeGraph lib h d program recovered s).Asks r)
  | resumeWaiting {σ : Type} {lib : Library} {h : ExecutionHarness} {program : GraphProgram lib σ}
      {recovered : RecoveredRun} {waitId : DurableApprovalWaitId} {s : RunContext × σ}
      (asks : (resumeWaitingGraph lib h d program recovered waitId s).Asks r)

theorem EngineAsks.keeps {r : Request} (hr : d.EngineAsks r) : d.Keeps r := by
  cases hr with
  | run asks => exact (runGraph_keeps _).asks asks
  | resume asks => exact (resumeGraph_keeps _).asks asks
  | resumeWaiting asks => exact (resumeWaitingGraph_keeps _).asks asks

/-- Some engine of the definition asks the store to keep the event. -/
def EngineSends (d : GraphDefinition) (e : AgentEvent) : Prop :=
  ∃ r t, d.EngineAsks r ∧ r.transition = some t ∧ t.event = e

theorem EngineSends.allows {e : AgentEvent} (he : d.EngineSends e) : d.Allows e.kind := by
  obtain ⟨r, t, hr, ht, rfl⟩ := he
  exact hr.keeps t ht

/-- **Engine logs are walks.** Of a log that the reducer accepts, let every progress event be one that an
engine of the definition has sent. Then its entries begin at the start, and what is entered lies one edge
on, or upstream where it is a restart. Between two restarts no node is entered twice, which bounds the
steps that the run has spent. -/
theorem engine_log_walks {sha256 : List UInt8 → Bytes32} {start : GraphNodeId}
    {nodes : List NodeDefinition} {edges : List Edge} (hnew : new sha256 start nodes edges = .ok d)
    {codec : EventCodec} {record : RunRecord} {events : List AgentEvent} {s : DurableRunState}
    (hsent : ∀ e ∈ events, e.kind.isProgress = true → d.EngineSends e)
    (hreplay : (initial record).replay codec events = .ok s) :
    (∀ x, (entries events).head? = some x → x.1 = d.start) ∧ (entries events).IsChain d.Step ∧
      ((entries events).countP (·.2) = 0 → ((entries events).map Prod.fst).Nodup) ∧
      s.context.usage.graphSteps ≤ ((entries events).countP (·.2) + 1) * d.nodes.length := by
  refine walks_of_allows (valid_of_new hnew) (fun e he => ?_) hreplay
  by_cases hprogress : e.kind.isProgress = true
  · exact (hsent e he hprogress).allows
  · rw [Bool.not_eq_true] at hprogress
    exact allows_of_not_progress hprogress

/-- A graph that decides, retrieves on one of its branches, and ends. -/
def choosingGraph : GraphDefinition where
  start := ⟨"choose"⟩
  nodes := [⟨⟨"choose"⟩, .decision [⟨"look"⟩, ⟨"skip"⟩], .deterministicBoundary⟩, ⟨⟨"end"⟩, .complete, .never⟩,
    ⟨⟨"get"⟩, .retrieve, .freshRetrieval⟩]
  edges := [⟨⟨"choose"⟩, .branch ⟨"look"⟩, ⟨"get"⟩⟩, ⟨⟨"choose"⟩, .branch ⟨"skip"⟩, ⟨"end"⟩⟩,
    ⟨⟨"get"⟩, .succeeded, ⟨"end"⟩⟩]
  digest := 1

theorem new_choosingGraph :
    new (fun _ => 1) ⟨"choose"⟩ choosingGraph.nodes choosingGraph.edges = .ok choosingGraph := rfl

/-- A program that decides to look, and finds nothing. -/
def lookingProgram : GraphProgram plainLibrary Unit where
  retrieve _ := pure ()
  model _ := pure ()
  action _ := pure ()
  durableLocalWriteAction _ := Task.fail .failed
  verify _ := pure .passed
  decide _ := pure ⟨"look"⟩
  recoveryVersion := 1
  restoreWorkingState _ := pure ()
  restoreDurableActionCompletion _ := pure ()

/-- A run that has started. -/
def startedContext : RunContext :=
  { RunContext.takeAll plainCodec (.newWithRecoveryContract ⟨1⟩ ⟨2⟩ sampleBudget (.graph 1 1))
      [.runStarted 1000] with
    status := .running
    runtime := some ⟨1⟩ }

/-- The run to its end, where every answer is favourable: its dialogue and its result. -/
def lookingRun : List ((r : Request) × Answer r) × Nat × Except GraphEngineError GraphRunSummary × RunContext × Unit :=
  (runGraph plainLibrary sampleHarness choosingGraph lookingProgram (startedContext, ())).drive
    (fun n r => (favourable n r, nextId n r)) 10

/-- The log that it leaves. -/
def lookingLog : List AgentEvent :=
  .new ⟨1⟩ 0 (.runStarted 1000) :: lookingRun.1.filterMap fun e => e.1.transition.map (·.event)

/-- The run goes over the decision and the retrieval to the end. -/
theorem looking_log_walks : (entries lookingLog).map Prod.fst = [⟨"choose"⟩, ⟨"get"⟩, ⟨"end"⟩] ∧
    (entries lookingLog).IsChain choosingGraph.Step ∧ ((entries lookingLog).map Prod.fst).Nodup := by
  have hreplay : ∃ s, (initial (sampleRecord (.graph 1 1))).replay plainCodec lookingLog = .ok s :=
    (isOkAnd_iff.mp (show isOkAnd ((initial (sampleRecord (.graph 1 1))).replay plainCodec lookingLog)
      (fun _ => true) = true by decide +kernel)).imp fun _ h => h.1
  have hsent : ∀ e ∈ lookingLog, e.kind.isProgress = true → choosingGraph.EngineSends e := by
    intro e he hprogress
    rcases List.mem_cons.mp he with rfl | he
    · cases hprogress
    · obtain ⟨asked, hasked, hevent⟩ := List.mem_filterMap.mp he
      obtain ⟨t, ht, rfl⟩ := Option.map_eq_some_iff.mp hevent
      exact ⟨asked.1, t, .run (Prog.asks_of_mem_drive hasked), ht, rfl⟩
  obtain ⟨s, hs⟩ := hreplay
  obtain ⟨-, hchain, honce, -⟩ := engine_log_walks new_choosingGraph hsent hs
  exact ⟨by decide +kernel, hchain, honce (by decide +kernel)⟩

/-! ## Errors of the loop -/

/-- The errors that only the loop itself raises. -/
def OfLoop (e : GraphEngineError) : Prop := e = .outOfFuel ∨ e = .transitionUnavailable

section Visit

variable {bad : GraphEngineError} (hbad : OfLoop bad)
include hbad

theorem viaHarness_avoids {m : HarnessM α} : (viaHarness m : EngineM σ α).Avoids bad := by
  refine .focus ?_
  rintro e rfl
  rcases hbad with h | h <;> cases h

theorem program_ne {e : GraphProgramError} : GraphEngineError.program e ≠ bad := by
  rintro rfl
  rcases hbad with h | h <;> cases h

theorem recoveryMismatch_ne : GraphEngineError.recoveryMismatch ≠ bad := by
  rintro rfl
  rcases hbad with h | h <;> cases h

omit hbad in
theorem failQuietly_avoids {attempt : GraphNodeAttemptId} {node : GraphNodeId}
    {failure : GraphFailureKind} : (failQuietly lib h attempt node failure : EngineM σ Unit).Avoids bad :=
  .bind .attempt fun _ => .pure

theorem inNode_avoids {attempt : GraphNodeAttemptId} {node : GraphNodeId}
    {m : EngineM σ (Except GraphProgramError α)} (hm : m.Avoids bad) :
    (inNode lib h attempt node m).Avoids bad := by
  refine .bind hm fun x => ?_
  cases x with
  | ok a => exact .pure
  | error e => exact .bind failQuietly_avoids fun _ => .fail (program_ne hbad)

omit hbad in
theorem summarize_avoids {terminal : GraphTerminalOutcome} {waiting : Option DurableApprovalWait} :
    (summarize terminal waiting : EngineM σ NodeOutcome).Avoids bad := .bind .look fun _ => .pure

theorem durableVersion_avoids : (durableVersion d : EngineM σ Nat).Avoids bad := by
  refine .bind .look fun s => ?_
  obtain ⟨c, -⟩ := s
  dsimp only
  cases c.recoveryContract with
  | graph version digest => exact .ite .pure (.fail (recoveryMismatch_ne hbad))
  | _ => exact .fail (recoveryMismatch_ne hbad)

theorem visitNode_avoids {attempt : GraphNodeAttemptId} {node : NodeDefinition} :
    (visitNode lib h d program attempt node).Avoids bad := by
  unfold visitNode
  cases node.kind with
  | complete | fail => exact .bind (viaHarness_avoids hbad) fun _ => summarize_avoids
  | durableLocalWriteAction =>
    exact .bind (durableVersion_avoids hbad) fun _ =>
      .bind (inNode_avoids hbad .callback) fun _ => summarize_avoids
  | _ => exact .bind (inNode_avoids hbad .callback) fun _ => .pure

theorem restore_avoids {hook : GraphCallback NoEffect.Result σ Unit} :
    (restore hook : EngineM σ Unit).Avoids bad := by
  refine .bind .callback fun x => ?_
  cases x with
  | ok u => exact .pure
  | error e => exact .fail (program_ne hbad)

theorem restoreCompletion_avoids {resumed : DurableLocalWriteResume} :
    (restoreCompletion lib program resumed).Avoids bad := by
  cases resumed with
  | denied => exact .pure
  | executed attempt node result =>
    cases result <;> exact .bind (restore_avoids hbad) fun _ => .pure

end Visit

/-! ## The loop ends -/

theorem outOfFuel_ofLoop : OfLoop .outOfFuel := .inl rfl

/-- **The fuel lasts.** The nodes that were visited so far are a chain without repetition, so as many
rounds are left as the definition has other nodes. -/
theorem execute_avoids (hd : d.Valid) {visited : List GraphNodeId} {fuel : Nat} {current : ResumeNode}
    {restarting : Bool} (hwalk : (visited ++ [current.nodeId]).IsChain (Leads d.edges))
    (hvisited : ∀ x ∈ visited, x ∈ d.nodes.map (·.id))
    (hcurrent : visited ≠ [] → current.nodeId ∈ d.nodes.map (·.id))
    (hfuel : d.nodes.length ≤ fuel + visited.length) :
    (execute lib h d program fuel current restarting).Avoids .outOfFuel := by
  induction fuel generalizing visited current restarting with
  | zero =>
    have hpos := hd.some_node
    have hne : visited ≠ [] := by
      rintro rfl
      rw [List.length_nil] at hfuel
      omega
    have hle := Rounds.length_le_of_chain hd.acyclic hwalk fun x hx => by
      rcases List.mem_append.mp hx with hx | hx
      · exact hvisited x hx
      · rw [List.mem_singleton.mp hx]
        exact hcurrent hne
    rw [List.length_append, List.length_singleton, List.length_map] at hle
    omega
  | succ fuel ih =>
    unfold execute
    cases hnode : d.node current.nodeId with
    | none => exact .fail (by simp)
    | some node =>
      obtain ⟨hmem, hid⟩ := node_eq_some hnode
      refine .bind (viaHarness_avoids outOfFuel_ofLoop) fun attempt => .bind (visitNode_avoids outOfFuel_ofLoop) fun outcome => ?_
      cases outcome with
      | ended summary => exact .pure
      | transition key =>
        dsimp only
        cases hnext : (d.transition node.id key).bind d.node with
        | none => exact .bind failQuietly_avoids fun _ => .fail (by simp)
        | some next =>
          obtain ⟨hedge, hnextmem⟩ := exists_edge_of_bind hnext
          rw [hid] at hedge
          have hlonger : (visited ++ [current.nodeId] ++ [next.id]).IsChain (Leads d.edges) := by
            refine List.isChain_append.mpr ⟨hwalk, List.isChain_singleton _, fun x hx y hy => ?_⟩
            rw [List.getLast?_concat] at hx
            cases hx
            cases hy
            exact leads_of_mem hedge
          refine .bind (viaHarness_avoids outOfFuel_ofLoop) fun _ => ih hlonger (fun x hx => ?_) (fun _ => ?_) ?_
          · rcases List.mem_append.mp hx with hx | hx
            · exact hvisited x hx
            · rw [List.mem_singleton.mp hx, ← hid]
              exact List.mem_map_of_mem hmem
          · exact List.mem_map_of_mem hnextmem
          · rw [List.length_append, List.length_singleton]
            omega

theorem execute_nodes_avoids (hd : d.Valid) {current : ResumeNode} {restarting : Bool} :
    (execute lib h d program d.nodes.length current restarting).Avoids .outOfFuel := by
  have hwalk : ([] ++ [current.nodeId]).IsChain (Leads d.edges) := List.isChain_singleton _
  refine execute_avoids hd hwalk (fun x hx => ?_) (fun hne => ?_) ?_
  · cases hx
  · exact absurd rfl hne
  · rw [List.length_nil, Nat.add_zero]

/-- **The engine ends.** With a definition that `new` has accepted, no run and no resumption gives up for
want of fuel: whatever the program does and whatever is answered, the loop is left at a terminal node, in
a wait, or with an error of the source. -/
theorem graph_engine_ends {sha256 : List UInt8 → Bytes32} {start : GraphNodeId}
    {nodes : List NodeDefinition} {edges : List Edge} (hnew : new sha256 start nodes edges = .ok d) :
    (runGraph lib h d program).Avoids .outOfFuel ∧
      (∀ recovered, (resumeGraph lib h d program recovered).Avoids .outOfFuel) ∧
      ∀ recovered waitId, (resumeWaitingGraph lib h d program recovered waitId).Avoids .outOfFuel := by
  have hd := valid_of_new hnew
  refine ⟨?_, fun recovered => ?_, fun recovered waitId => ?_⟩
  · unfold runGraph
    cases d.node d.start with
    | none => exact .fail (by simp)
    | some node => exact .bind (viaHarness_avoids outOfFuel_ofLoop) fun _ => execute_nodes_avoids hd
  · unfold resumeGraph
    cases resumeNode program.recoveryVersion d.digest recovered with
    | error e => exact .fail (by simp)
    | ok current => exact .bind (restore_avoids outOfFuel_ofLoop) fun _ => execute_nodes_avoids hd
  · unfold resumeWaitingGraph
    cases waitingNode lib d program recovered waitId with
    | none => exact .fail (by simp)
    | some waiting =>
      refine .bind (restore_avoids outOfFuel_ofLoop) fun _ => .bind (viaHarness_avoids outOfFuel_ofLoop) fun resumed =>
        .bind (restoreCompletion_avoids outOfFuel_ofLoop) fun ids => .ite (.fail (by simp)) ?_
      cases (d.transition ids.2.1 ids.2.2).bind d.node with
      | none => exact .fail (by simp)
      | some next => exact .bind (viaHarness_avoids outOfFuel_ofLoop) fun _ => execute_nodes_avoids hd

/-- The run of the example ends without an error, and no other one gives up. -/
theorem choosing_engine_ends : lookingRun.2.2.1.isOk = true ∧
    (runGraph plainLibrary sampleHarness choosingGraph lookingProgram).Avoids .outOfFuel ∧
    (∀ recovered,
      (resumeGraph plainLibrary sampleHarness choosingGraph lookingProgram recovered).Avoids .outOfFuel) ∧
    ∀ recovered waitId, (resumeWaitingGraph plainLibrary sampleHarness choosingGraph lookingProgram recovered
      waitId).Avoids .outOfFuel :=
  ⟨by decide +kernel, graph_engine_ends new_choosingGraph⟩

/-! ## The loop moves on -/

/-- A decision of the program is one of the branches of its node. -/
def Decides (d : GraphDefinition) (program : GraphProgram lib σ) : Prop :=
  ∀ n ∈ d.nodes, ∀ bs, n.kind = .decision bs → ∀ b, (program.decide n.id).Yields b → b ∈ bs

theorem inNode_yields {attempt : GraphNodeAttemptId} {node : GraphNodeId}
    {m : EngineM σ (Except GraphProgramError α)} {a : α} (ha : (inNode lib h attempt node m).Yields a) :
    m.Yields (.ok a) := by
  obtain ⟨x, hx, hrest⟩ := ha.of_bind
  cases x with
  | ok b =>
    obtain rfl := Task.Yields.of_pure hrest
    exact hx
  | error e =>
    obtain ⟨u, -, hfail⟩ := hrest.of_bind
    exact absurd hfail Task.not_yields_fail

theorem summarize_yields {terminal : GraphTerminalOutcome} {waiting : Option DurableApprovalWait}
    {key : GraphTransitionKey} :
    ¬ (summarize terminal waiting : EngineM σ NodeOutcome).Yields (.transition key) := by
  intro hkey
  obtain ⟨s, -, hpure⟩ := hkey.of_bind
  cases Task.Yields.of_pure hpure

/-- **A node is left by one of its labels.** -/
theorem visitNode_yields (hdecides : d.Decides program) {attempt : GraphNodeAttemptId}
    {node : NodeDefinition} (hnode : node ∈ d.nodes) {key : GraphTransitionKey}
    (hkey : (visitNode lib h d program attempt node).Yields (.transition key)) : Labels node.kind key := by
  unfold visitNode at hkey
  cases hkind : node.kind with
  | complete | fail =>
    rw [hkind] at hkey
    obtain ⟨u, -, hend⟩ := hkey.of_bind
    exact absurd hend summarize_yields
  | durableLocalWriteAction =>
    rw [hkind] at hkey
    obtain ⟨version, -, hrest⟩ := hkey.of_bind
    obtain ⟨wait, -, hend⟩ := hrest.of_bind
    exact absurd hend summarize_yields
  | retrieve | model | action =>
    rw [hkind] at hkey
    obtain ⟨u, -, hpure⟩ := hkey.of_bind
    cases Task.Yields.of_pure hpure
    rfl
  | verify =>
    rw [hkind] at hkey
    obtain ⟨outcome, -, hpure⟩ := hkey.of_bind
    cases Task.Yields.of_pure hpure
    cases outcome with
    | passed => exact .inl rfl
    | failed => exact .inr rfl
  | decision bs =>
    rw [hkind] at hkey
    obtain ⟨branch, hbranch, hpure⟩ := hkey.of_bind
    cases Task.Yields.of_pure hpure
    exact ⟨branch, hdecides node hnode bs hkind branch (inNode_yields hbranch).of_callback, rfl⟩

/-- **The next node is there.** -/
theorem execute_moves (hd : d.Valid) (hdecides : d.Decides program) {fuel : Nat} {current : ResumeNode}
    {restarting : Bool} (hcurrent : ∃ n ∈ d.nodes, n.id = current.nodeId) :
    (execute lib h d program fuel current restarting).Avoids .transitionUnavailable := by
  have hbad : OfLoop .transitionUnavailable := .inr rfl
  induction fuel generalizing current restarting with
  | zero => exact .fail (by simp)
  | succ fuel ih =>
    unfold execute
    obtain ⟨node, hnode⟩ := exists_node hcurrent
    rw [hnode]
    obtain ⟨hmem, -⟩ := node_eq_some hnode
    refine .bind (viaHarness_avoids hbad) fun attempt =>
      .bind_yields (visitNode_avoids hbad) fun outcome houtcome => ?_
    cases outcome with
    | ended summary => exact .pure
    | transition key =>
      have hlabel := visitNode_yields hdecides hmem houtcome
      obtain ⟨e, he, hsource, hkey⟩ := (hd.labels node hmem key).mpr hlabel
      obtain ⟨target, htarget⟩ := exists_transition ⟨e, he, hsource, hkey⟩
      obtain ⟨next, hnext⟩ := exists_node (hd.endpoints _ (transition_eq_some htarget)).2
      have hfound : (d.transition node.id key).bind d.node = some next := by
        rw [htarget, Option.bind_some, hnext]
      dsimp only
      rw [hfound]
      exact .bind (viaHarness_avoids hbad) fun _ => ih ⟨next, (node_eq_some hnext).1, rfl⟩

/-- **The engine is never stuck.** With a definition that `new` has accepted and a program that decides for
branches of its nodes, a run finds every node and every transition that it looks for. -/
theorem graph_engine_moves {sha256 : List UInt8 → Bytes32} {start : GraphNodeId}
    {nodes : List NodeDefinition} {edges : List Edge} (hnew : new sha256 start nodes edges = .ok d)
    (hdecides : d.Decides program) : (runGraph lib h d program).Avoids .transitionUnavailable := by
  have hd := valid_of_new hnew
  obtain ⟨node, hnode⟩ := exists_node hd.has_start
  unfold runGraph
  rw [hnode]
  exact .bind (viaHarness_avoids (.inr rfl)) fun _ =>
    execute_moves hd hdecides ⟨node, (node_eq_some hnode).1, rfl⟩

theorem choosing_engine_moves :
    (runGraph plainLibrary sampleHarness choosingGraph lookingProgram).Avoids .transitionUnavailable := by
  refine graph_engine_moves new_choosingGraph fun n hn bs hbs b hb => ?_
  obtain rfl : b = ⟨"look"⟩ := Task.Yields.of_pure hb
  simp only [choosingGraph, List.mem_cons, List.not_mem_nil, or_false] at hn
  rcases hn with rfl | rfl | rfl
  · cases hbs
    decide
  all_goals cases hbs

end GraphDefinition
end LocalAgent
