import LocalAgent.Graph.Agreement

/-!
# Logs of a graph

A log whose progress events agree with a definition, and which the reducer accepts, is a walk along the
edges of the definition: the reducer knows no definition, but it lets a node be entered only where the
last completion has led, or at the restart anchor, which always lies upstream (`replay_traces`). So a
log enters each node at most once between two restarts (`walks_of_allows`).
-/
namespace LocalAgent

open FailingFold Relation Rounds DurableRunState

/-! ## Entries -/

/-- The node that an event enters, and whether it is a restart. -/
def AgentEventKind.entry : AgentEventKind → Option (GraphNodeId × Bool)
  | .graph (.graphNodeEntered _ node _ _ _ _) => some (node, false)
  | .graph (.graphNodeRestarted _ _ node _ _ _ _) => some (node, true)
  | _ => none

/-- The nodes that a log enters, in their order. -/
def entries (log : List AgentEvent) : List (GraphNodeId × Bool) := log.filterMap (·.kind.entry)

theorem entries_concat_none {log : List AgentEvent} {e : AgentEvent} (h : e.kind.entry = none) :
    entries (log ++ [e]) = entries log := by simp [entries, h]

theorem entries_concat_some {log : List AgentEvent} {e : AgentEvent} {x : GraphNodeId × Bool}
    (h : e.kind.entry = some x) : entries (log ++ [e]) = entries log ++ [x] := by simp [entries, h]

namespace GraphDefinition

variable {d : GraphDefinition} {l : List (GraphNodeId × Bool)}

/-- The last entry leads to the node, or it is the start. -/
def Reached (d : GraphDefinition) (l : List (GraphNodeId × Bool)) (node : GraphNodeId) : Prop :=
  l = [] ∧ node = d.start ∨ ∃ x, l.getLast? = some x ∧ Leads d.edges x.1 node

/-- The last entry is this one. -/
def Inside (l : List (GraphNodeId × Bool)) (node : GraphNodeId) : Prop := ∃ b, l.getLast? = some (node, b)

/-- Where a graph stands after these entries. -/
def Stood (d : GraphDefinition) (l : List (GraphNodeId × Bool)) : DurableGraphPosition → Prop
  | .ready node kind recovery => d.HasNode node kind recovery ∧ d.Reached l node
  | .running _ node kind recovery => d.HasNode node kind recovery ∧ Inside l node
  | .waiting _ node _ _ _ _ _ _ =>
    (∃ n ∈ d.nodes, n.id = node ∧ n.kind = .durableLocalWriteAction) ∧ Inside l node
  | .notStarted | .finished => True

/-- A fresh entry goes along an edge. A restart does, or it goes back. -/
def Step (d : GraphDefinition) (x y : GraphNodeId × Bool) : Prop :=
  (y.2 = false → Leads d.edges x.1 y.1) ∧
    (y.2 = true → Leads d.edges x.1 y.1 ∨ ReflTransGen (Leads d.edges) y.1 x.1)

/-- The anchor is a fresh-retrieval node upstream of the last entry. -/
def Upstream (d : GraphDefinition) (l : List (GraphNodeId × Bool)) (a : GraphRestartAnchor) : Prop :=
  d.HasNode a.nodeId .retrieve .freshRetrieval ∧
    ∃ x, l.getLast? = some x ∧ ReflTransGen (Leads d.edges) a.nodeId x.1

/-- What a log of these entries leaves in the state. -/
structure Traces (d : GraphDefinition) (l : List (GraphNodeId × Bool)) (s : DurableRunState) : Prop where
  unstarted : s.graph = none → l = [] ∧ s.context.usage.graphSteps = 0
  digest : ∀ g, s.graph = some g → g.definitionDigest = d.digest
  steps : ∀ g, s.graph = some g → g.steps = min l.length u32Max ∧ s.context.usage.graphSteps = g.steps
  position : ∀ g, s.graph = some g → d.Stood l g.position
  anchor : ∀ g a, s.graph = some g → g.restartAnchor = some a → d.Upstream l a
  first : ∀ x, l.head? = some x → x.1 = d.start
  walk : l.IsChain d.Step

theorem HasNode.mem {id : GraphNodeId} {kind : GraphNodeKind} {recovery : GraphRecoveryMode}
    (h : d.HasNode id kind recovery) : ∃ n ∈ d.nodes, n.id = id := by
  obtain ⟨n, hn, hid, -, -⟩ := h
  exact ⟨n, hn, hid⟩

/-- Only retrievals are fresh. -/
theorem HasNode.retrieve (hd : d.Valid) {id : GraphNodeId} {kind : GraphNodeKind}
    (h : d.HasNode id kind .freshRetrieval) : kind = .retrieve := by
  obtain ⟨n, hn, -, rfl, hrecovery⟩ := h
  have hvalid := hd.recovery n hn
  rw [hrecovery] at hvalid
  cases hkind : n.kind.durableKind <;> rw [hkind] at hvalid <;> first | rfl | cases hvalid

section Steps

variable {s s' : DurableRunState} {g g' : DurableGraphState}

theorem Traces.initial {record : RunRecord} : d.Traces [] (.initial record) := by
  refine ⟨fun _ => ⟨rfl, rfl⟩, fun _ hg => ?_, fun _ hg => ?_, fun _ hg => ?_, fun _ _ hg => ?_,
    fun _ hx => ?_, List.isChain_nil⟩
  · cases hg
  · cases hg
  · cases hg
  · cases hg
  · cases hx

/-- An event outside the graph. -/
theorem Traces.other (h : d.Traces l s) (hst : s'.stage = s.stage)
    (hanchor : s'.anchor = none ∨ s'.anchor = s.anchor) : d.Traces l s' := by
  have husage : s'.context.usage.graphSteps = s.context.usage.graphSteps := congrArg Stage.graphSteps hst
  have hgraph : s'.graph.map (fun g => (g.definitionDigest, g.position, g.steps)) =
      s.graph.map fun g => (g.definitionDigest, g.position, g.steps) := congrArg Stage.graph hst
  have hsame : ∀ g', s'.graph = some g' → ∃ g, s.graph = some g ∧
      g.definitionDigest = g'.definitionDigest ∧ g.position = g'.position ∧ g.steps = g'.steps := by
    intro g' hg'
    rw [hg'] at hgraph
    obtain ⟨g, hg, heq⟩ := Option.map_eq_some_iff.mp hgraph.symm
    simp only [Prod.mk.injEq] at heq
    exact ⟨g, hg, heq⟩
  refine ⟨fun hnone => ?_, fun g' hg' => ?_, fun g' hg' => ?_, fun g' hg' => ?_, fun g' a hg' ha => ?_,
    h.first, h.walk⟩
  · rw [hnone, Option.map_none, eq_comm, Option.map_eq_none_iff] at hgraph
    rw [husage]
    exact h.unstarted hgraph
  · obtain ⟨g, hg, hdigest, -, -⟩ := hsame g' hg'
    exact hdigest.symm.trans (h.digest g hg)
  · obtain ⟨g, hg, -, -, hsteps⟩ := hsame g' hg'
    rw [← hsteps, husage]
    exact h.steps g hg
  · obtain ⟨g, hg, -, hposition, -⟩ := hsame g' hg'
    rw [← hposition]
    exact h.position g hg
  · obtain ⟨g, hg, -⟩ := hsame g' hg'
    have ha' : s'.anchor = some a := by simp [DurableRunState.anchor, hg', ha]
    rcases hanchor with hnone | hkept
    · rw [ha'] at hnone
      cases hnone
    · have hbefore : g.restartAnchor = some a := by
        simpa [DurableRunState.anchor, hg] using hkept.symm.trans ha'
      exact h.anchor g a hg hbefore

/-- An event that enters nothing. -/
theorem Traces.still (h : d.Traces l s) {k : AgentEventKind} (hk : k.entry = none) :
    d.Traces (l ++ k.entry.toList) s := by
  rw [hk, Option.toList_none, List.append_nil]
  exact h

/-- A node is entered: where the last completion has led, or behind an anchor. -/
theorem Traces.enter (h : d.Traces l s) (hd : d.Valid) (hg : s.graph = some g)
    {attempt : GraphNodeAttemptId} {node : GraphNodeId} {kind : GraphNodeKind}
    {recovery : GraphRecoveryMode} {step limit : Nat} {restarted : Bool}
    (haccepted : s.StepAccepted g kind recovery step limit) (hnode : d.HasNode node kind recovery)
    (hfirst : l = [] → node = d.start)
    (hstep : ∀ x, l.getLast? = some x → d.Step x (node, restarted))
    (hkept : recovery ≠ .freshRetrieval →
      ∀ x, l.getLast? = some x → ReflTransGen (Leads d.edges) x.1 node) :
    d.Traces (l ++ [(node, restarted)]) (s.enterNode g attempt node kind recovery step) := by
  have hcount := (h.steps g hg).1
  have hsteps : step = min (l ++ [(node, restarted)]).length u32Max := by
    rw [haccepted.counted, hcount, saturatingSucc, List.length_append, List.length_singleton]
    omega
  have hgraph : ∀ {g'}, (s.enterNode g attempt node kind recovery step).graph = some g' →
      g' = { g with
        steps := step
        position := .running attempt node kind recovery
        restartAnchor := if recovery = .freshRetrieval then some ⟨node, attempt⟩ else g.restartAnchor } :=
    fun hg' => (Option.some.inj hg').symm
  refine ⟨fun hnone => ?_, fun g' hg' => ?_, fun g' hg' => ?_, fun g' hg' => ?_,
    fun g' a hg' ha => ?_, fun x hx => ?_, ?_⟩
  · cases hnone
  · rw [hgraph hg']
    exact h.digest g hg
  · rw [hgraph hg']
    exact ⟨hsteps, rfl⟩
  · rw [hgraph hg']
    exact ⟨hnode, restarted, List.getLast?_concat⟩
  · rw [hgraph hg'] at ha
    dsimp only at ha
    by_cases hfresh : recovery = .freshRetrieval
    · rw [if_pos hfresh] at ha
      cases ha
      subst hfresh
      obtain rfl := hnode.retrieve hd
      exact ⟨hnode, _, List.getLast?_concat, .refl⟩
    · rw [if_neg hfresh] at ha
      obtain ⟨hanchor, x, hx, hreach⟩ := h.anchor g a hg ha
      exact ⟨hanchor, _, List.getLast?_concat, hreach.trans (hkept hfresh x hx)⟩
  · cases l with
    | nil =>
      cases hx
      exact hfirst rfl
    | cons y l => exact h.first x hx
  · refine List.isChain_append.mpr ⟨h.walk, List.isChain_singleton _, fun x hx y hy => ?_⟩
    cases hy
    exact hstep x hx

/-- The graph moves without an entry. -/
theorem Traces.move (h : d.Traces l s) (hg : s.graph = some g) (hg' : s'.graph = some g')
    (hsteps : s'.context.usage.graphSteps = s.context.usage.graphSteps)
    (hdigest : g'.definitionDigest = g.definitionDigest) (hcount : g'.steps = g.steps)
    (hposition : d.Stood l g'.position)
    (hanchor : g'.restartAnchor = none ∨ g'.restartAnchor = g.restartAnchor) : d.Traces l s' := by
  have hsame : ∀ {x}, s'.graph = some x → x = g' := fun hx => Option.some.inj (hx.symm.trans hg')
  refine ⟨fun hnone => ?_, fun x hx => ?_, fun x hx => ?_, fun x hx => ?_, fun x a hx ha => ?_,
    h.first, h.walk⟩
  · rw [hg'] at hnone
    cases hnone
  · rw [hsame hx, hdigest]
    exact h.digest g hg
  · rw [hsame hx, hcount, hsteps]
    exact h.steps g hg
  · rw [hsame hx]
    exact hposition
  · rw [hsame hx] at ha
    rcases hanchor with hnone | hkept
    · rw [hnone] at ha
      cases ha
    · exact h.anchor g a hg (hkept.symm.trans ha)

/-- What stands ready comes next. -/
theorem Traces.ready_step (h : d.Traces l s) (hg : s.graph = some g) {node : GraphNodeId}
    {kind : GraphNodeKind} {recovery : GraphRecoveryMode} (hready : g.position = .ready node kind recovery) :
    (l = [] → node = d.start) ∧ ∀ x, l.getLast? = some x → Leads d.edges x.1 node := by
  have hstood := h.position g hg
  rw [hready] at hstood
  refine ⟨?_, fun x hx => ?_⟩
  · rintro rfl
    rcases hstood.2 with ⟨-, hstart⟩ | ⟨x, hx, -⟩
    · exact hstart
    · cases hx
  · rcases hstood.2 with ⟨rfl, -⟩ | ⟨y, hy, hleads⟩
    · cases hx
    · obtain rfl : x = y := Option.some.inj (hx.symm.trans hy)
      exact hleads

/-- What is running was entered last. -/
theorem Traces.running_last (h : d.Traces l s) (hg : s.graph = some g) {attempt : GraphNodeAttemptId}
    {node : GraphNodeId} {kind : GraphNodeKind} {recovery : GraphRecoveryMode}
    (hrunning : g.position = .running attempt node kind recovery) :
    l ≠ [] ∧ ∀ x, l.getLast? = some x → x.1 = node := by
  have hstood := h.position g hg
  rw [hrunning] at hstood
  obtain ⟨-, b, hlast⟩ := hstood
  refine ⟨?_, fun x hx => ?_⟩
  · rintro rfl
    cases hlast
  · rw [hlast] at hx
    cases hx
    rfl

theorem Traces.inside (h : d.Traces l s) (hg : s.graph = some g) {attempt : GraphNodeAttemptId}
    {node : GraphNodeId} (hrunning : runningAt g.position attempt node = true) : Inside l node := by
  have hstood := h.position g hg
  cases hp : g.position with
  | running a n kind recovery =>
    rw [hp] at hrunning hstood
    simp only [runningAt, Bool.and_eq_true, decide_eq_true_eq] at hrunning
    obtain ⟨-, rfl⟩ := hrunning
    exact hstood.2
  | _ =>
    rw [hp] at hrunning
    cases hrunning

/-- A restart continues at the anchor, or at what stands there. -/
theorem Traces.restart_step (h : d.Traces l s) (hg : s.graph = some g)
    {previous : Option GraphNodeAttemptId} {node : GraphNodeId} {kind : GraphNodeKind}
    {recovery : GraphRecoveryMode} (hposition : directRestart g.position previous node kind recovery = true ∨
      anchorMatches g.restartAnchor previous node recovery = true) :
    (l = [] → node = d.start) ∧ (∀ x, l.getLast? = some x → d.Step x (node, true)) ∧
      (recovery ≠ .freshRetrieval →
        ∀ x, l.getLast? = some x → ReflTransGen (Leads d.edges) x.1 node) := by
  rcases hposition with hdirect | hanchor
  · cases hp : g.position with
    | ready id k r =>
      simp only [directRestart, hp, Bool.and_eq_true, decide_eq_true_eq] at hdirect
      obtain ⟨⟨⟨⟨rfl, rfl⟩, rfl⟩, -⟩, -⟩ := hdirect
      obtain ⟨hfirst, hleads⟩ := h.ready_step hg hp
      refine ⟨hfirst, fun x hx => ⟨fun hfalse => ?_, fun _ => .inl (hleads x hx)⟩,
        fun _ x hx => .single (hleads x hx)⟩
      cases hfalse
    | running attempt id k r =>
      simp only [directRestart, hp, Bool.and_eq_true, decide_eq_true_eq] at hdirect
      obtain ⟨⟨⟨⟨rfl, rfl⟩, rfl⟩, -⟩, -⟩ := hdirect
      obtain ⟨hne, hlast⟩ := h.running_last hg hp
      refine ⟨fun hnil => absurd hnil hne, fun x hx => ⟨fun hfalse => ?_, fun _ => .inr ?_⟩,
        fun _ x hx => ?_⟩
      · cases hfalse
      · rw [hlast x hx]
      · rw [hlast x hx]
    | notStarted | waiting | finished =>
      rw [hp] at hdirect
      cases hdirect
  · obtain ⟨a, ha, hmatches⟩ := (Option.any_eq_true _ _).mp hanchor
    simp only [Bool.and_eq_true, decide_eq_true_eq] at hmatches
    obtain ⟨⟨rfl, rfl⟩, -⟩ := hmatches
    obtain ⟨-, y, hy, hreach⟩ := h.anchor g a hg ha
    refine ⟨?_, fun x hx => ⟨fun hfalse => ?_, fun _ => .inr ?_⟩, fun hne => absurd rfl hne⟩
    · rintro rfl
      cases hy
    · cases hfalse
    · obtain rfl : x = y := Option.some.inj (hx.symm.trans hy)
      exact hreach

/-- An action node that waits is never restarted. -/
theorem hasNode_of_action (hd : d.Valid) {id : GraphNodeId}
    (h : ∃ n ∈ d.nodes, n.id = id ∧ n.kind = .durableLocalWriteAction) :
    d.HasNode id .action .never := by
  obtain ⟨n, hn, hid, hkind⟩ := h
  have hvalid := hd.recovery n hn
  rw [hkind] at hvalid
  refine ⟨n, hn, hid, by rw [hkind]; rfl, ?_⟩
  cases hrecovery : n.recovery with
  | never => rfl
  | freshRetrieval | deterministicBoundary =>
    rw [hrecovery] at hvalid
    cases hvalid

/-- **One event of the graph.** -/
theorem Traces.graph (h : d.Traces l s) (hd : d.Valid) {event : GraphProgressEvent}
    (hagrees : d.Agrees event) (hrule : GraphRule s event s') :
    d.Traces (l ++ (AgentEventKind.graph event).entry.toList) s' := by
  cases hrule with
  | graphStarted fresh =>
    obtain ⟨rfl, rfl, hnode⟩ := hagrees
    obtain ⟨rfl, hsteps⟩ := h.unstarted fresh
    refine ⟨fun hnone => ?_, fun g hg => ?_, fun g hg => ?_, fun g hg => ?_, fun g a hg ha => ?_,
      h.first, h.walk⟩
    · cases hnone
    · cases hg
      rfl
    · cases hg
      exact ⟨rfl, hsteps⟩
    · cases hg
      exact ⟨hnode, .inl ⟨rfl, rfl⟩⟩
    · cases hg
      cases ha
  | graphNodeEntered graph position accepted =>
    obtain ⟨hfirst, hleads⟩ := h.ready_step graph position
    refine h.enter hd graph accepted hagrees hfirst (fun x hx => ⟨fun _ => hleads x hx, fun htrue => ?_⟩)
      fun _ x hx => .single (hleads x hx)
    cases htrue
  | graphNodeRestarted graph position accepted =>
    obtain ⟨hfirst, hstep, hkept⟩ := h.restart_step graph position
    exact h.enter hd graph accepted hagrees hfirst hstep hkept
  | graphNodeCompleted graph position =>
    obtain ⟨hedge, hnode⟩ := hagrees
    obtain ⟨b, hlast⟩ := h.inside graph position
    have hready : d.Reached l _ := .inr ⟨_, hlast, leads_of_mem hedge⟩
    refine .still ?_ rfl
    exact h.move graph rfl rfl rfl rfl ⟨hnode, hready⟩ (.inr rfl)
  | graphSuspended graph position =>
    have hstood := h.position _ graph
    rw [position] at hstood
    refine .still ?_ rfl
    exact h.move graph rfl rfl rfl rfl ⟨hagrees, hstood.2⟩ (.inl rfl)
  | graphResumed graph position =>
    have hstood := h.position _ graph
    rw [position] at hstood
    refine .still ?_ rfl
    exact h.move graph rfl rfl rfl rfl ⟨hasNode_of_action hd hstood.1, hstood.2⟩ (.inr rfl)
  | graphFinished graph terminal =>
    have hentry : (AgentEventKind.graph event).entry = none := by
      rcases terminal with ⟨_, _, _, rfl, -⟩ | ⟨_, _, _, _, rfl, -⟩ <;> rfl
    refine .still ?_ hentry
    exact h.move graph rfl rfl rfl rfl trivial (.inl rfl)

/-- **One accepted event.** -/
theorem Traces.rule (h : d.Traces l s) (hd : d.Valid) {k : AgentEventKind} (hallows : d.Allows k)
    (hrule : Rule s k s') : d.Traces (l ++ k.entry.toList) s' := by
  by_cases hk : k.isProgress = true
  · cases k with
    | graph event =>
      cases hrule with
      | graph rule => exact h.graph hd hallows rule
      | resolved terminal => cases terminal
      | decided decision => cases decision
      | noted note => cases note
    | loop => exact hallows.elim
    | _ => cases hk
  · rw [Bool.not_eq_true] at hk
    have hentry : k.entry = none ∧ k.anchors = none := by
      cases k with
      | graph | loop => cases hk
      | _ => exact ⟨rfl, rfl⟩
    refine .still (h.other (hrule.stage hk) ?_) hentry.1
    cases hrule.anchorStep with
    | set a entry =>
      rw [hentry.2] at entry
      cases entry
    | drop _ now => exact .inl now
    | keep _ _ now => exact .inr now

end Steps

/-! ## Whole logs -/

section Logs

variable {codec : EventCodec} {record : RunRecord} {events : List AgentEvent} {s : DurableRunState}

/-- **A log that the reducer accepts.** -/
theorem replay_traces (hd : d.Valid) (hallows : ∀ e ∈ events, d.Allows e.kind)
    (h : (DurableRunState.initial record).replay codec events = .ok s) : d.Traces (entries events) s := by
  refine history (R := fun log t => (∀ e ∈ log, d.Allows e.kind) → d.Traces (entries log) t)
    (fun _ => .initial) ?_ h hallows
  intro log e m m' _ ih hm hlog
  obtain ⟨next, bytes, -, hrule, -, rfl⟩ := (DurableRunState.apply_ok hm).rule
  have hbefore := ih fun x hx => hlog x (List.mem_append_left _ hx)
  have hnext := hbefore.rule hd (hlog e (List.mem_append_right _ List.mem_cons_self)) hrule
  have hentries : entries (log ++ [e]) = entries log ++ e.kind.entry.toList := by
    cases hentry : e.kind.entry with
    | none => rw [entries_concat_none hentry, Option.toList_none, List.append_nil]
    | some x => rw [entries_concat_some hentry, Option.toList_some]
  rw [hentries]
  exact hnext.other rfl (.inr rfl)

/-- Only nodes of the definition are entered. -/
theorem mem_nodes_of_mem_entries (hallows : ∀ e ∈ events, d.Allows e.kind) {x : GraphNodeId × Bool}
    (hx : x ∈ entries events) : x.1 ∈ d.nodes.map (·.id) := by
  obtain ⟨e, he, hentry⟩ := List.mem_filterMap.mp hx
  have hagrees := hallows e he
  cases hk : e.kind with
  | graph event =>
    rw [hk] at hentry hagrees
    cases event with
    | graphNodeEntered | graphNodeRestarted =>
      cases hentry
      exact List.mem_map.mpr (HasNode.mem hagrees)
    | _ => cases hentry
  | _ =>
    rw [hk] at hentry
    cases hentry

/-- **An accepted log is a walk.** -/
theorem walks_of_allows (hd : d.Valid) (hallows : ∀ e ∈ events, d.Allows e.kind)
    (h : (DurableRunState.initial record).replay codec events = .ok s) :
    (∀ x, (entries events).head? = some x → x.1 = d.start) ∧ (entries events).IsChain d.Step ∧
      ((entries events).countP (·.2) = 0 → ((entries events).map Prod.fst).Nodup) ∧
      s.context.usage.graphSteps ≤ ((entries events).countP (·.2) + 1) * d.nodes.length := by
  have htraces := replay_traces hd hallows h
  have honward : (entries events).IsChain (Onward (Leads d.edges)) := htraces.walk.imp fun _ _ => And.left
  refine ⟨htraces.first, htraces.walk, nodup_of_unmarked hd.acyclic honward, ?_⟩
  have hlength := length_le_rounds hd.acyclic honward fun x => mem_nodes_of_mem_entries hallows
  rw [List.length_map] at hlength
  cases hg : s.graph with
  | none =>
    rw [(htraces.unstarted hg).2]
    exact Nat.zero_le _
  | some g =>
    obtain ⟨hcount, hused⟩ := htraces.steps g hg
    rw [hused, hcount]
    exact (Nat.min_le_left _ _).trans hlength

end Logs

end GraphDefinition
end LocalAgent
