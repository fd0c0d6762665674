import LocalAgent.Graph.Engine
import LocalAgent.Harness.Emission
import LocalAgent.Lib.Rounds

/-!
# What the graph engine asks the store to keep (`agent-graph/src/engine.rs`)

Every progress event of an engine names nodes and edges of its definition (`Agrees`). This holds at
each of the three entry points, for every program, whatever it is answered and wherever it is cut
off (`runGraph_keeps`, `resumeGraph_keeps`, `resumeWaitingGraph_keeps`).
-/
namespace LocalAgent

open Program Relation

namespace GraphDefinition

/-- What `new` guarantees. -/
def Valid (d : GraphDefinition) : Prop := WellFormed d.start d.nodes d.edges

theorem valid_of_new {sha256 : List UInt8 → Bytes32} {start : GraphNodeId} {nodes : List NodeDefinition}
    {edges : List Edge} {d : GraphDefinition} (h : new sha256 start nodes edges = .ok d) : d.Valid := by
  obtain ⟨hsize, nodeMap, hnodes, hstart, edgeMap, hedges, htransitions, hsearch, rfl⟩ := new_ok.mp h
  have hn := nodeMap_perm hnodes
  have he := edgeMap_perm hedges
  have hwf := (new_ok_iff sha256 start nodes edges).mp ⟨_, h⟩
  have hleads : Leads edgeMap = Leads edges := by
    funext x y
    simp only [Leads, he.mem_iff]
  have hpairwise : edgeMap.Pairwise fun e f => e.source = f.source → e.transition ≠ f.transition :=
    (he.pairwise_iff fun hef hs ht => hef hs.symm ht.symm).mpr hwf.deterministic
  refine ⟨?_, ?_, ?_, ?_, ?_, ?_, ?_, hpairwise, ?_, ?_, ?_, ?_, ?_⟩
  · rw [hn.length_eq]
    exact hwf.some_node
  · rw [hn.length_eq]
    exact hwf.few_nodes
  · rw [he.length_eq]
    exact hwf.few_edges
  · exact (hn.map _).nodup_iff.mpr hwf.unique
  · simpa only [hn.mem_iff] using hwf.has_start
  · simpa only [hn.mem_iff] using hwf.recovery
  · simpa only [hn.mem_iff] using hwf.branches
  · simpa only [hn.mem_iff, he.mem_iff] using hwf.labels
  · simpa only [hn.mem_iff, he.mem_iff] using hwf.endpoints
  · simpa only [hn.mem_iff, hleads] using hwf.reachable
  · simpa only [hleads] using hwf.acyclic
  · simpa only [hn.mem_iff] using hwf.terminal

/-- A node of the definition, as the events describe it. -/
def HasNode (d : GraphDefinition) (id : GraphNodeId) (kind : GraphNodeKind)
    (recovery : GraphRecoveryMode) : Prop :=
  ∃ n ∈ d.nodes, n.id = id ∧ n.kind.durableKind = kind ∧ n.recovery = recovery

/-- The event names nodes and edges of the definition. That a resumption names the node that waits is
checked by the reducer. -/
def Agrees (d : GraphDefinition) : GraphProgressEvent → Prop
  | .graphStarted digest node kind recovery =>
    digest = d.digest ∧ node = d.start ∧ d.HasNode node kind recovery
  | .graphNodeEntered _ node kind recovery _ _ | .graphNodeRestarted _ _ node kind recovery _ _ =>
    d.HasNode node kind recovery
  | .graphNodeCompleted _ node key next kind recovery =>
    ⟨node, key, next⟩ ∈ d.edges ∧ d.HasNode next kind recovery
  | .graphSuspended _ node .. => ∃ n ∈ d.nodes, n.id = node ∧ n.kind = .durableLocalWriteAction
  | .graphResumed .. => True
  | .graphCompleted _ node _ => ∃ n ∈ d.nodes, n.id = node ∧ n.kind = .complete
  | .graphFailed _ node _ failure _ =>
    ∃ n ∈ d.nodes, n.id = node ∧ (failure = .explicitTerminal → n.kind = .fail)

/-- The events of an engine's run: its own, and those of the effects. -/
def Allows (d : GraphDefinition) : AgentEventKind → Prop
  | .graph event => d.Agrees event
  | .loop _ => False
  | _ => True

theorem allows_of_not_progress {d : GraphDefinition} {kind : AgentEventKind}
    (h : kind.isProgress = false) : d.Allows kind := by
  cases kind with
  | graph | loop => cases h
  | _ => trivial

theorem hasNode_of_mem {d : GraphDefinition} {n : NodeDefinition} (h : n ∈ d.nodes) :
    d.HasNode n.id n.kind.durableKind n.recovery := ⟨n, h, rfl, rfl, rfl⟩

theorem leads_of_mem {d : GraphDefinition} {source target : GraphNodeId} {key : GraphTransitionKey}
    (h : ⟨source, key, target⟩ ∈ d.edges) : Leads d.edges source target := ⟨_, h, rfl, rfl⟩

end GraphDefinition

/-- Every event that the request asks the store to keep agrees with the definition. -/
def GraphDefinition.Keeps (d : GraphDefinition) (r : Request) : Prop :=
  ∀ t, r.transition = some t → d.Allows t.event.kind

section Engine

variable {σ α : Type} {lib : Library} {h : ExecutionHarness} {d : GraphDefinition}
  {program : GraphProgram lib σ}

/-! ## Effects -/

theorem viaHarness_keeps {m : HarnessM α} (hm : Emits lib d.Allows m) :
    (viaHarness m : EngineM σ α).Only d.Keeps := .focus hm.only

theorem retrieveEffects_keeps (effect : RetrieveEffect) (c : RunContext) :
    (retrieveEffects lib h effect c).Only d.Keeps := by
  cases effect with
  | retrieveKnowledge request =>
    exact (retrieveKnowledge_emits fun _ => GraphDefinition.allows_of_not_progress).only c

theorem modelEffects_keeps (effect : ModelEffect) (c : RunContext) :
    (modelEffects lib h effect c).Only d.Keeps := by
  cases effect with
  | invokeModel request =>
    exact (invokeModelInternal_emits fun _ => GraphDefinition.allows_of_not_progress).only c
  | invokeGroundedModel retrieval request =>
    exact (invokeGroundedModel_emits fun _ => GraphDefinition.allows_of_not_progress).only c

theorem suspendForWait_emits {action : ValidatedAction lib} {durable : DurableActionContext}
    (hnode : ∃ n ∈ d.nodes, n.id = durable.nodeId ∧ n.kind = .durableLocalWriteAction) :
    Emits lib d.Allows (suspendForWait lib h action durable) := by
  refine .bind (suspendDurableLocalWrite_emits (fun _ => GraphDefinition.allows_of_not_progress)
    fun _ _ _ _ _ _ => hnode) fun _ => .bind .look fun c => ?_
  split
  · exact .pure
  · exact .fail

theorem actionEffects_keeps {durable : Option DurableActionContext}
    (hnode : ∀ context, durable = some context →
      ∃ n ∈ d.nodes, n.id = context.nodeId ∧ n.kind = .durableLocalWriteAction)
    (effect : ActionEffect lib) (c : RunContext) : (actionEffects lib h durable effect c).Only d.Keeps := by
  cases effect with
  | prepareAction invocation =>
    exact (prepareAction_emits fun _ => GraphDefinition.allows_of_not_progress).only c
  | invokeValidatedAction action =>
    exact (invokeValidatedAction_emits fun _ => GraphDefinition.allows_of_not_progress).only c
  | suspendLocalWrite action =>
    cases durable with
    | none => trivial
    | some context => exact (suspendForWait_emits (hnode context rfl)).only c

theorem noEffects_keeps (effect : Empty) (c : RunContext) : (noEffects effect c).Only d.Keeps := by
  cases effect

/-! ## The engine -/

theorem failGraph_emits {attempt : GraphNodeAttemptId} {node : NodeDefinition}
    {failure : GraphFailureKind} (hnode : node ∈ d.nodes)
    (hkind : failure = .explicitTerminal → node.kind = .fail) :
    Emits lib d.Allows (failGraph lib h attempt node.id failure) :=
  finishWith_emits (fun _ => GraphDefinition.allows_of_not_progress) fun _ => ⟨node, hnode, rfl, hkind⟩

theorem failQuietly_keeps {attempt : GraphNodeAttemptId} {node : NodeDefinition}
    {failure : GraphFailureKind} (hnode : node ∈ d.nodes) (hne : failure ≠ .explicitTerminal) :
    (failQuietly lib h attempt node.id failure : EngineM σ Unit).Only d.Keeps :=
  .bind (viaHarness_keeps (failGraph_emits hnode fun heq => absurd heq hne)).attempt fun _ => .pure

theorem inNode_keeps {attempt : GraphNodeAttemptId} {node : NodeDefinition} (hnode : node ∈ d.nodes)
    {m : EngineM σ (Except GraphProgramError α)} (hm : m.Only d.Keeps) :
    (inNode lib h attempt node.id m).Only d.Keeps := by
  refine .bind hm fun x => ?_
  cases x with
  | ok a => exact .pure
  | error e => exact .bind (failQuietly_keeps hnode nofun) fun _ => .fail

theorem summarize_keeps {terminal : GraphTerminalOutcome} {waiting : Option DurableApprovalWait} :
    (summarize terminal waiting : EngineM σ NodeOutcome).Only d.Keeps := .bind .look fun _ => .pure

theorem durableVersion_keeps : (durableVersion d : EngineM σ Nat).Only d.Keeps := by
  refine .bind .look fun s => ?_
  obtain ⟨c, -⟩ := s
  dsimp only
  cases c.recoveryContract with
  | graph version digest => exact .ite .pure .fail
  | _ => exact .fail

theorem visitNode_keeps {attempt : GraphNodeAttemptId} {node : NodeDefinition} (hnode : node ∈ d.nodes) :
    (visitNode lib h d program attempt node).Only d.Keeps := by
  unfold visitNode
  cases hkind : node.kind with
  | complete =>
    have hcomplete : Emits lib d.Allows (completeGraph lib h attempt node.id) :=
      finishWith_emits (fun _ => GraphDefinition.allows_of_not_progress) fun _ =>
        ⟨node, hnode, rfl, hkind⟩
    exact .bind (viaHarness_keeps hcomplete) fun _ => summarize_keeps
  | fail =>
    exact .bind (viaHarness_keeps (failGraph_emits hnode fun _ => hkind)) fun _ => summarize_keeps
  | retrieve => exact .bind (inNode_keeps hnode (.callback retrieveEffects_keeps)) fun _ => .pure
  | model => exact .bind (inNode_keeps hnode (.callback modelEffects_keeps)) fun _ => .pure
  | action =>
    exact .bind (inNode_keeps hnode (.callback (actionEffects_keeps nofun))) fun _ => .pure
  | durableLocalWriteAction =>
    refine .bind durableVersion_keeps fun version =>
      .bind (inNode_keeps hnode (.callback (actionEffects_keeps ?_))) fun _ => summarize_keeps
    intro context hcontext
    obtain rfl := Option.some.inj hcontext
    exact ⟨node, hnode, rfl, hkind⟩
  | verify => exact .bind (inNode_keeps hnode (.callback noEffects_keeps)) fun _ => .pure
  | decision => exact .bind (inNode_keeps hnode (.callback noEffects_keeps)) fun _ => .pure

theorem enter_emits {current : ResumeNode} {restarting : Bool} {node : NodeDefinition}
    (hnode : node ∈ d.nodes) : Emits lib d.Allows (enter lib h current restarting node) := by
  have hmem := GraphDefinition.hasNode_of_mem hnode
  cases restarting with
  | true =>
    exact restartGraphNode_emits (fun _ => GraphDefinition.allows_of_not_progress) fun _ _ _ => hmem
  | false => exact enterGraphNode_emits (fun _ => GraphDefinition.allows_of_not_progress) fun _ _ _ => hmem

/-- A transition that was found is an edge to a node. -/
theorem exists_edge_of_bind {node : GraphNodeId} {key : GraphTransitionKey} {next : NodeDefinition}
    (hnext : (d.transition node key).bind d.node = some next) :
    ⟨node, key, next.id⟩ ∈ d.edges ∧ next ∈ d.nodes := by
  obtain ⟨id, hid, hnode⟩ := Option.bind_eq_some_iff.mp hnext
  obtain ⟨hmem, rfl⟩ := GraphDefinition.node_eq_some hnode
  exact ⟨GraphDefinition.transition_eq_some hid, hmem⟩

theorem completeGraphNode_keeps {attempt : GraphNodeAttemptId} {node : GraphNodeId}
    {key : GraphTransitionKey} {next : NodeDefinition}
    (hnext : (d.transition node key).bind d.node = some next) :
    (viaHarness (completeGraphNode lib h attempt node key next.id next.kind.durableKind next.recovery) :
      EngineM σ Unit).Only d.Keeps := by
  obtain ⟨hedge, hmem⟩ := exists_edge_of_bind hnext
  exact viaHarness_keeps (recorded_emits (fun _ => GraphDefinition.allows_of_not_progress)
    ⟨hedge, GraphDefinition.hasNode_of_mem hmem⟩)

/-- **One run of the loop.** -/
theorem execute_keeps {fuel : Nat} {current : ResumeNode} {restarting : Bool} :
    (execute lib h d program fuel current restarting).Only d.Keeps := by
  induction fuel generalizing current restarting with
  | zero => exact .fail
  | succ fuel ih =>
    unfold execute
    cases hnode : d.node current.nodeId with
    | none => exact .fail
    | some node =>
      obtain ⟨hmem, -⟩ := GraphDefinition.node_eq_some hnode
      refine .bind (viaHarness_keeps (enter_emits hmem)) fun attempt =>
        .bind (visitNode_keeps hmem) fun outcome => ?_
      cases outcome with
      | ended summary => exact .pure
      | transition key =>
        dsimp only
        cases hnext : (d.transition node.id key).bind d.node with
        | none => exact .bind (failQuietly_keeps hmem nofun) fun _ => .fail
        | some next => exact .bind (completeGraphNode_keeps hnext) fun _ => ih

theorem restore_keeps {hook : GraphCallback NoEffect.Result σ Unit} :
    (restore hook : EngineM σ Unit).Only d.Keeps := by
  refine .bind (.callback noEffects_keeps) fun x => ?_
  cases x with
  | ok u => exact .pure
  | error e => exact .fail

/-- **Events agree with the definition: a new run.** -/
theorem runGraph_keeps : (runGraph lib h d program).Only d.Keeps := by
  unfold runGraph
  cases hnode : d.node d.start with
  | none => exact .fail
  | some start =>
    obtain ⟨hmem, hid⟩ := GraphDefinition.node_eq_some hnode
    refine .bind (viaHarness_keeps (recorded_emits (fun _ => GraphDefinition.allows_of_not_progress) ?_))
      fun _ => execute_keeps
    exact ⟨rfl, hid, GraphDefinition.hasNode_of_mem hmem⟩

/-- The same for a run that is resumed. -/
theorem resumeGraph_keeps {recovered : RecoveredRun} :
    (resumeGraph lib h d program recovered).Only d.Keeps := by
  unfold resumeGraph
  cases resumeNode program.recoveryVersion d.digest recovered with
  | error e => exact .fail
  | ok current => exact .bind restore_keeps fun _ => execute_keeps

/-- The same for a run that waited. -/
theorem resumeWaitingGraph_keeps {recovered : RecoveredRun} {waitId : DurableApprovalWaitId} :
    (resumeWaitingGraph lib h d program recovered waitId).Only d.Keeps := by
  unfold resumeWaitingGraph
  cases waitingNode lib d program recovered waitId with
  | none => exact .fail
  | some waiting =>
    refine .bind restore_keeps fun _ => .bind (viaHarness_keeps (resumeDurableLocalWrite_emits
      (fun _ => GraphDefinition.allows_of_not_progress) fun _ _ _ => trivial)) fun resumed =>
        .bind ?_ fun ids => .ite .fail ?_
    · cases resumed with
      | denied => exact .pure
      | executed attempt node result => cases result <;> exact .bind restore_keeps fun _ => .pure
    · cases hnext : (d.transition ids.2.1 ids.2.2).bind d.node with
      | none => exact .fail
      | some next => exact .bind (completeGraphNode_keeps hnext) fun _ => execute_keeps

end Engine
end LocalAgent
