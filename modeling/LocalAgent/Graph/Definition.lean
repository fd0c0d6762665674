import LocalAgent.Lib.Search
import LocalAgent.Recovery.Reducer
import Mathlib.Data.List.Sort
import Mathlib.Data.Finset.Card

/-!
# Graph definitions (`agent-graph/src/definition.rs`)

`GraphDefinition::new` checks a list of nodes and a list of edges and builds the maps the engine walks.
A `BTreeMap` is the list of its entries in the order of their keys.

Main theorem: `new_ok_iff` (it accepts exactly the well-formed graphs).
-/
namespace LocalAgent

open Encoding FailingFold Relation Search

/-- `MAX_GRAPH_NODES`. -/
def maxGraphNodes : Nat := 64

/-- `MAX_GRAPH_EDGES`. -/
def maxGraphEdges : Nat := 128

/-- `MAX_DECISION_BRANCHES`. -/
def maxDecisionBranches : Nat := 16

inductive NodeKind where
  | retrieve | model | action | durableLocalWriteAction | verify
  | decision (branches : List GraphBranchId)
  | complete | fail
deriving DecidableEq, Repr

/-- `durable_kind` (definition.rs:26). -/
def NodeKind.durableKind : NodeKind → GraphNodeKind
  | .retrieve => .retrieve
  | .model => .model
  | .action | .durableLocalWriteAction => .action
  | .verify => .verify
  | .decision _ => .decision
  | .complete => .complete
  | .fail => .fail

/-- `Complete` and `Fail`. -/
def NodeKind.isTerminal : NodeKind → Bool
  | .complete | .fail => true
  | _ => false

structure NodeDefinition where
  id : GraphNodeId
  kind : NodeKind
  recovery : GraphRecoveryMode
deriving DecidableEq, Repr

structure Edge where
  source : GraphNodeId
  transition : GraphTransitionKey
  target : GraphNodeId
deriving DecidableEq, Repr

/-- `outOfFuel` is no error of the source: the search always ends (`new_ne_outOfFuel`). -/
inductive GraphDefinitionError where
  | sizeLimit | duplicateNode | unknownNode | duplicateTransition | invalidTransition
  | terminalOutgoingEdge | unreachableNode | cycle | noTerminal | invalidRecoveryMode
  | invalidDecisionBranches
  | outOfFuel
deriving DecidableEq, Repr

/-- The maps are in the order of their keys. -/
structure GraphDefinition where
  start : GraphNodeId
  nodes : List NodeDefinition
  edges : List Edge
  digest : Bytes32
deriving DecidableEq

namespace GraphDefinition

/-! ## Nodes -/

/-- The modes of recovery a kind admits (definition.rs:174-191). -/
def recoveryValid : GraphNodeKind → GraphRecoveryMode → Bool
  | .retrieve, .freshRetrieval => true
  | .decision, .deterministicBoundary => true
  | .model, .never | .action, .never | .verify, .never | .complete, .never | .fail, .never => true
  | _, _ => false

/-- The branches of a decision (definition.rs:195-203). -/
def branchesValid : NodeKind → Bool
  | .decision branches =>
    !(branches.isEmpty || branches.length > maxDecisionBranches
      || branches.toFinset.card ≠ branches.length)
  | _ => true

/-- `validate_node` (definition.rs:173). -/
def validateNode (node : NodeDefinition) : Except GraphDefinitionError Unit :=
  if !recoveryValid node.kind.durableKind node.recovery then .error .invalidRecoveryMode
  else if !branchesValid node.kind then .error .invalidDecisionBranches
  else .ok ()

/-- One round of the loop over the nodes (definition.rs:120-125). -/
def insertNode (map : List NodeDefinition) (node : NodeDefinition) :
    Except GraphDefinitionError (List NodeDefinition) := do
  validateNode node
  if map.any (·.id = node.id) then .error .duplicateNode
  else .ok (map.orderedInsert (fun a b => a.id.value ≤ b.id.value) node)

/-! ## Edges -/

/-- The tag of a key, in its order and in the digest. -/
def transitionTag : GraphTransitionKey → Nat
  | .succeeded => 0
  | .approvalDenied => 1
  | .verificationPassed => 2
  | .verificationFailed => 3
  | .branch _ => 4

def branchText : GraphTransitionKey → String
  | .branch id => id.value
  | _ => ""

/-- The order of the keys of the edge map. -/
def keyLe (a b : Edge) : Bool :=
  a.source.value < b.source.value || (a.source = b.source && (transitionTag a.transition < transitionTag b.transition
    || (transitionTag a.transition = transitionTag b.transition && branchText a.transition ≤ branchText b.transition)))

/-- One round of the loop over the edges (definition.rs:130-140). -/
def insertEdge (nodes : List NodeDefinition) (map : List Edge) (edge : Edge) :
    Except GraphDefinitionError (List Edge) :=
  if !nodes.any (·.id = edge.source) || !nodes.any (·.id = edge.target) then .error .unknownNode
  else if map.any fun e => e.source = edge.source && e.transition = edge.transition then
    .error .duplicateTransition
  else .ok (map.orderedInsert (fun a b => keyLe a b = true) edge)

/-- The transitions that a kind of node declares (definition.rs:219-239). -/
def expected : NodeKind → List GraphTransitionKey
  | .retrieve | .model | .action => [.succeeded]
  | .durableLocalWriteAction => [.succeeded, .approvalDenied]
  | .verify => [.verificationPassed, .verificationFailed]
  | .decision branches => branches.map .branch
  | .complete | .fail => []

/-- The transitions that leave a node. -/
def actual (edges : List Edge) (node : GraphNodeId) : List GraphTransitionKey :=
  (edges.filter (·.source = node)).map (·.transition)

/-- One round of `validate_transitions` (definition.rs:213-249). -/
def checkTransitions (edges : List Edge) (node : NodeDefinition) : Except GraphDefinitionError Unit :=
  if (actual edges node.id).toFinset ≠ (expected node.kind).toFinset then
    .error (if node.kind.isTerminal && !(actual edges node.id).isEmpty then .terminalOutgoingEdge
      else .invalidTransition)
  else .ok ()

/-- `validate_transitions` (definition.rs:208). -/
def validateTransitions (nodes : List NodeDefinition) (edges : List Edge) : Except GraphDefinitionError Unit :=
  nodes.forM (checkTransitions edges)

/-! ## Reachability and cycles -/

/-- The targets of a node. -/
def targets (edges : List Edge) (node : GraphNodeId) : List GraphNodeId :=
  (edges.filter (·.source = node)).map (·.target)

/-- `validate_reachability_and_cycles` (definition.rs:253). -/
def validateReachabilityAndCycles (start : GraphNodeId) (nodes : List NodeDefinition) (edges : List Edge) :
    Except GraphDefinitionError Unit :=
  match visit (targets edges) (nodes.length + 1) .empty start with
  | .error .cycle => .error .cycle
  | .error .outOfFuel => .error .outOfFuel
  | .ok walk =>
    if walk.visited.length ≠ nodes.length then .error .unreachableNode
    else if !nodes.any (·.kind.isTerminal) then .error .noTerminal
    else .ok ()

/-! ## The digest -/

/-- `update_text` (definition.rs:352). -/
def text (value : String) : List UInt8 := beBytes 8 value.utf8ByteSize ++ value.toUTF8.toList

/-- `node_kind_tag` (definition.rs:331). -/
def nodeKindTag : NodeKind → UInt8
  | .retrieve => 0
  | .model => 1
  | .action => 2
  | .durableLocalWriteAction => 3
  | .verify => 4
  | .decision _ => 5
  | .complete => 6
  | .fail => 7

/-- `recovery_tag` (definition.rs:344). -/
def recoveryTag : GraphRecoveryMode → UInt8
  | .never => 0
  | .freshRetrieval => 1
  | .deterministicBoundary => 2

/-- `definition_digest` (definition.rs:293). -/
def definitionDigest (sha256 : List UInt8 → Bytes32) (start : GraphNodeId) (nodes : List NodeDefinition)
    (edges : List Edge) : Bytes32 :=
  let node (n : NodeDefinition) : List UInt8 :=
    [1] ++ text n.id.value ++ [nodeKindTag n.kind, recoveryTag n.recovery] ++ match n.kind with
      | .decision branches => (branches.insertionSort fun a b => a.value ≤ b.value).flatMap fun b => text b.value
      | _ => []
  let edge (e : Edge) : List UInt8 :=
    [2] ++ text e.source.value ++ [UInt8.ofNat (transitionTag e.transition)] ++ (match e.transition with
      | .branch id => text id.value
      | _ => []) ++ text e.target.value
  sha256 ("enterprise-local-agent:graph:v2".toUTF8.toList ++ text start.value ++ nodes.flatMap node ++
    edges.flatMap edge)

/-- `GraphDefinition::new` (definition.rs:111). -/
def new (sha256 : List UInt8 → Bytes32) (start : GraphNodeId) (nodes : List NodeDefinition)
    (edges : List Edge) : Except GraphDefinitionError GraphDefinition :=
  if nodes.isEmpty || nodes.length > maxGraphNodes || edges.length > maxGraphEdges then .error .sizeLimit
  else do
    let nodeMap ← nodes.foldlM insertNode []
    if !nodeMap.any (·.id = start) then .error .unknownNode
    else do
      let edgeMap ← edges.foldlM (insertEdge nodeMap) []
      validateTransitions nodeMap edgeMap
      validateReachabilityAndCycles start nodeMap edgeMap
      .ok ⟨start, nodeMap, edgeMap, definitionDigest sha256 start nodeMap edgeMap⟩

/-! ## Well-formed graphs -/

/-- An edge leads from one node to the other. -/
def Leads (edges : List Edge) (x y : GraphNodeId) : Prop := ∃ e ∈ edges, e.source = x ∧ e.target = y

/-- The labels a kind of node has on its outgoing edges. -/
def Labels : NodeKind → GraphTransitionKey → Prop
  | .retrieve, t | .model, t | .action, t => t = .succeeded
  | .durableLocalWriteAction, t => t = .succeeded ∨ t = .approvalDenied
  | .verify, t => t = .verificationPassed ∨ t = .verificationFailed
  | .decision branches, t => ∃ b ∈ branches, t = .branch b
  | .complete, _ | .fail, _ => False

/-- What a graph has to be, in terms of its nodes and edges. -/
structure WellFormed (start : GraphNodeId) (nodes : List NodeDefinition) (edges : List Edge) : Prop where
  some_node : 1 ≤ nodes.length
  few_nodes : nodes.length ≤ 64
  few_edges : edges.length ≤ 128
  unique : (nodes.map (·.id)).Nodup
  has_start : ∃ n ∈ nodes, n.id = start
  recovery : ∀ n ∈ nodes, validRecoveryMode n.kind.durableKind n.recovery = true
  branches : ∀ n ∈ nodes, ∀ bs, n.kind = .decision bs → 1 ≤ bs.length ∧ bs.length ≤ 16 ∧ bs.Nodup
  deterministic : edges.Pairwise fun e f => e.source = f.source → e.transition ≠ f.transition
  labels : ∀ n ∈ nodes, ∀ t, (∃ e ∈ edges, e.source = n.id ∧ e.transition = t) ↔ Labels n.kind t
  endpoints : ∀ e ∈ edges, (∃ n ∈ nodes, n.id = e.source) ∧ ∃ n ∈ nodes, n.id = e.target
  reachable : ∀ n ∈ nodes, ReflTransGen (Leads edges) start n.id
  acyclic : ∀ x, ¬ TransGen (Leads edges) x x
  terminal : ∃ n ∈ nodes, n.kind = .complete ∨ n.kind = .fail

/-! ## The checks -/

section Checks

variable {kind : NodeKind} {node : NodeDefinition} {nodes map map' : List NodeDefinition}
  {edges edgeMap edgeMap' : List Edge} {edge : Edge} {start : GraphNodeId}

/-- The validator and the reducer admit the same modes. -/
theorem recoveryValid_eq (k : GraphNodeKind) (mode : GraphRecoveryMode) :
    recoveryValid k mode = validRecoveryMode k mode := by
  cases k <;> cases mode <;> rfl

theorem branchesValid_iff : branchesValid kind = true ↔
    ∀ bs, kind = .decision bs → 1 ≤ bs.length ∧ bs.length ≤ 16 ∧ bs.Nodup := by
  cases kind with
  | decision bs =>
    have hcard : bs.toFinset.card = bs.length ↔ bs.Nodup := by
      constructor
      · exact fun h => Multiset.toFinset_card_eq_card_iff_nodup.mp h
      · exact List.toFinset_card_of_nodup
    have hpos : bs ≠ [] ↔ 1 ≤ bs.length := by
      rw [← List.length_pos_iff]
      exact Iff.rfl
    simp only [branchesValid, maxDecisionBranches, Bool.not_eq_true', Bool.or_eq_false_iff,
      decide_eq_false_iff_not, List.isEmpty_eq_false_iff, not_not, ne_eq, gt_iff_lt, not_lt,
      NodeKind.decision.injEq, forall_eq', hcard, and_assoc]
    rw [← ne_eq, hpos]
  | _ => simp [branchesValid]

theorem validateNode_ok : validateNode node = .ok () ↔
    recoveryValid node.kind.durableKind node.recovery = true ∧ branchesValid node.kind = true := by
  unfold validateNode
  by_cases hrecovery : recoveryValid node.kind.durableKind node.recovery = true
  · by_cases hbranches : branchesValid node.kind = true
    · simp [hrecovery, hbranches]
    · simp [hrecovery, hbranches]
  · simp [hrecovery]

theorem insertNode_ok : insertNode map node = .ok map' ↔ validateNode node = .ok () ∧
    (∀ n ∈ map, ¬ n.id = node.id) ∧
      map' = map.orderedInsert (fun a b => a.id.value ≤ b.id.value) node := by
  unfold insertNode
  cases hnode : validateNode node with
  | error e => simp [bind, Except.bind]
  | ok u =>
    by_cases hany : map.any (·.id = node.id) = true
    · have hclash : ¬ ∀ n ∈ map, ¬ n.id = node.id := by simpa using hany
      simp [bind, Except.bind, hany, hclash]
    · have hfree : ∀ n ∈ map, ¬ n.id = node.id := by simpa using hany
      simp only [bind, Except.bind, hany, Bool.false_eq_true, if_false, Except.ok.injEq, true_and]
      exact ⟨fun h => ⟨hfree, h.symm⟩, fun h => h.2.symm⟩

/-- Two edges under one key. -/
def SameKey (e f : Edge) : Prop := e.source = f.source ∧ e.transition = f.transition

theorem insertEdge_ok : insertEdge nodes edgeMap edge = .ok edgeMap' ↔
    ((∃ n ∈ nodes, n.id = edge.source) ∧ ∃ n ∈ nodes, n.id = edge.target) ∧
      (∀ e ∈ edgeMap, ¬ SameKey e edge) ∧
        edgeMap' = edgeMap.orderedInsert (fun a b => keyLe a b = true) edge := by
  have hsource : (nodes.any (·.id = edge.source)) = true ↔ ∃ n ∈ nodes, n.id = edge.source := by simp
  have htarget : (nodes.any (·.id = edge.target)) = true ↔ ∃ n ∈ nodes, n.id = edge.target := by simp
  have hkey : (edgeMap.any fun e => e.source = edge.source && e.transition = edge.transition) = true ↔
      ¬ ∀ e ∈ edgeMap, ¬ SameKey e edge := by simp [SameKey]
  unfold insertEdge
  rw [← hsource, ← htarget]
  by_cases h₁ : (nodes.any (·.id = edge.source)) = true
  · by_cases h₂ : (nodes.any (·.id = edge.target)) = true
    · by_cases h₃ : (edgeMap.any fun e => e.source = edge.source && e.transition = edge.transition) = true
      · have hclash := hkey.mp h₃
        simp [h₁, h₂, h₃, hclash]
      · have hfree := not_not.mp (hkey.not.mp h₃)
        simp only [h₁, h₂, h₃, Bool.not_true, Bool.or_false, Bool.false_eq_true, if_false,
          Except.ok.injEq, and_self, true_and]
        exact ⟨fun h => ⟨hfree, h.symm⟩, fun h => h.2.symm⟩
    · simp [h₂]
  · simp [h₁]

/-! ### Filling a map -/

section Fill

variable {β ε : Type} {f : List β → β → Except ε (List β)} {valid : β → Prop} {clash : β → β → Prop}
  {insert : List β → β → List β}

/-- A map is filled if every entry is valid and no key comes twice. -/
theorem foldlM_insert
    (hf : ∀ acc b acc', f acc b = .ok acc' ↔ valid b ∧ (∀ a ∈ acc, ¬ clash a b) ∧ acc' = insert acc b)
    (hinsert : ∀ acc b, (insert acc b).Perm (b :: acc)) {l acc : List β} :
    (∃ m, l.foldlM f acc = .ok m) ↔
      (∀ b ∈ l, valid b) ∧ l.Pairwise (fun a b => ¬ clash a b) ∧ ∀ a ∈ acc, ∀ b ∈ l, ¬ clash a b := by
  induction l generalizing acc with
  | nil => simp [pure, Except.pure]
  | cons b l ih =>
    simp only [foldlM_cons_ok, hf, List.forall_mem_cons, List.pairwise_cons]
    constructor
    · rintro ⟨m, m', ⟨hb, hfree, rfl⟩, hl⟩
      obtain ⟨hvalid, hdistinct, hrest⟩ := ih.mp ⟨m, hl⟩
      have hrest' : ∀ a ∈ b :: acc, ∀ c ∈ l, ¬ clash a c := fun a ha =>
        hrest a ((hinsert acc b).mem_iff.mpr ha)
      exact ⟨⟨hb, hvalid⟩, ⟨hrest' b List.mem_cons_self, hdistinct⟩, fun a ha =>
        ⟨hfree a ha, hrest' a (List.mem_cons_of_mem _ ha)⟩⟩
    · rintro ⟨⟨hb, hvalid⟩, ⟨hfirst, hdistinct⟩, hrest⟩
      have hrest' : ∀ a ∈ insert acc b, ∀ c ∈ l, ¬ clash a c := by
        intro a ha
        rcases List.mem_cons.mp ((hinsert acc b).mem_iff.mp ha) with rfl | ha
        · exact hfirst
        · exact (hrest a ha).2
      obtain ⟨m, hm⟩ := ih.mpr ⟨hvalid, hdistinct, hrest'⟩
      exact ⟨m, insert acc b, ⟨hb, fun a ha => (hrest a ha).1, rfl⟩, hm⟩

/-- Its entries are the ones that were inserted. -/
theorem foldlM_insert_perm
    (hf : ∀ acc b acc', f acc b = .ok acc' ↔ valid b ∧ (∀ a ∈ acc, ¬ clash a b) ∧ acc' = insert acc b)
    (hinsert : ∀ acc b, (insert acc b).Perm (b :: acc)) {l acc m : List β} (h : l.foldlM f acc = .ok m) :
    m.Perm (l ++ acc) := by
  induction l generalizing acc with
  | nil =>
    rw [foldlM_nil_ok] at h
    rw [h]
    exact List.Perm.refl _
  | cons b l ih =>
    obtain ⟨m', hm', hl⟩ := foldlM_cons_ok.mp h
    obtain ⟨-, -, rfl⟩ := (hf acc b m').mp hm'
    exact (ih hl).trans (((hinsert acc b).append_left l).trans List.perm_middle)

/-- It stays in the order that inserting keeps. -/
theorem foldlM_insert_pairwise {r : β → β → Prop}
    (hf : ∀ acc b acc', f acc b = .ok acc' ↔ valid b ∧ (∀ a ∈ acc, ¬ clash a b) ∧ acc' = insert acc b)
    (hinsert : ∀ acc b, acc.Pairwise r → (insert acc b).Pairwise r) {l acc m : List β}
    (hacc : acc.Pairwise r) (h : l.foldlM f acc = .ok m) : m.Pairwise r := by
  induction l generalizing acc with
  | nil =>
    rw [foldlM_nil_ok] at h
    rwa [h]
  | cons b l ih =>
    obtain ⟨m', hm', hl⟩ := foldlM_cons_ok.mp h
    obtain ⟨-, -, rfl⟩ := (hf acc b m').mp hm'
    exact ih (hinsert acc b hacc) hl

end Fill

theorem nodeMap_ok : (∃ m, nodes.foldlM insertNode [] = .ok m) ↔
    (∀ n ∈ nodes, validateNode n = .ok ()) ∧ (nodes.map (·.id)).Nodup := by
  rw [foldlM_insert (f := insertNode) (fun _ _ _ => insertNode_ok) fun _ _ => List.perm_orderedInsert ..]
  simp only [List.not_mem_nil, false_implies, implies_true, and_true, List.Nodup, List.pairwise_map, ne_eq]

theorem nodeMap_perm (h : nodes.foldlM insertNode [] = .ok map) : map.Perm nodes := by
  have hperm := foldlM_insert_perm (f := insertNode) (fun _ _ _ => insertNode_ok)
    (fun _ _ => List.perm_orderedInsert ..) h
  rwa [List.append_nil] at hperm

theorem edgeMap_ok : (∃ m, edges.foldlM (insertEdge nodes) [] = .ok m) ↔
    (∀ e ∈ edges, (∃ n ∈ nodes, n.id = e.source) ∧ ∃ n ∈ nodes, n.id = e.target) ∧
      edges.Pairwise fun e f => ¬ SameKey e f := by
  rw [foldlM_insert (f := insertEdge nodes) (fun _ _ _ => insertEdge_ok) fun _ _ => List.perm_orderedInsert ..]
  simp only [List.not_mem_nil, false_implies, implies_true, and_true]

theorem edgeMap_perm (h : edges.foldlM (insertEdge nodes) [] = .ok edgeMap) : edgeMap.Perm edges := by
  have hperm := foldlM_insert_perm (f := insertEdge nodes) (fun _ _ _ => insertEdge_ok)
    (fun _ _ => List.perm_orderedInsert ..) h
  rwa [List.append_nil] at hperm

/-! ### Labels -/

theorem mem_actual {t : GraphTransitionKey} {id : GraphNodeId} :
    t ∈ actual edges id ↔ ∃ e ∈ edges, e.source = id ∧ e.transition = t := by
  simp [actual, and_assoc]

theorem mem_expected {t : GraphTransitionKey} : t ∈ expected kind ↔ Labels kind t := by
  cases kind <;> simp [expected, Labels, eq_comm]

theorem checkTransitions_ok : checkTransitions edges node = .ok () ↔
    ∀ t, (∃ e ∈ edges, e.source = node.id ∧ e.transition = t) ↔ Labels node.kind t := by
  have hsame : (actual edges node.id).toFinset = (expected node.kind).toFinset ↔
      ∀ t, (∃ e ∈ edges, e.source = node.id ∧ e.transition = t) ↔ Labels node.kind t := by
    simp only [Finset.ext_iff, List.mem_toFinset, mem_actual, mem_expected]
  rw [← hsame]
  unfold checkTransitions
  by_cases h : (actual edges node.id).toFinset = (expected node.kind).toFinset <;> simp [h]

theorem validateTransitions_ok : validateTransitions nodes edges = .ok () ↔
    ∀ n ∈ nodes, ∀ t, (∃ e ∈ edges, e.source = n.id ∧ e.transition = t) ↔ Labels n.kind t := by
  unfold validateTransitions
  induction nodes with
  | nil => simp [pure, Except.pure]
  | cons n nodes ih =>
    rw [List.forM_eq_forM, List.forM_cons, bind_eq_ok, List.forall_mem_cons, ← checkTransitions_ok, ← ih]
    exact ⟨fun ⟨u, hn, hrest⟩ => ⟨hn, hrest⟩, fun h => ⟨(), h.1, h.2⟩⟩

/-! ### The search -/

theorem leads_targets (edges : List Edge) : Search.Leads (targets edges) = Leads edges := by
  funext x y
  simp [Search.Leads, targets, Leads, and_assoc]

theorem targets_closed (hends : ∀ e ∈ edges, (∃ n ∈ nodes, n.id = e.source) ∧ ∃ n ∈ nodes, n.id = e.target)
    {x y : GraphNodeId} (hy : y ∈ targets edges x) : y ∈ nodes.map (·.id) := by
  obtain ⟨e, he, rfl⟩ := List.mem_map.mp hy
  exact List.mem_map.mpr (hends e (List.mem_filter.mp he).1).2

/-- The search has fuel for every path. -/
theorem visit_ne_outOfFuel
    (hends : ∀ e ∈ edges, (∃ n ∈ nodes, n.id = e.source) ∧ ∃ n ∈ nodes, n.id = e.target)
    (hstart : ∃ n ∈ nodes, n.id = start) :
    visit (targets edges) (nodes.length + 1) .empty start ≠ .error .outOfFuel := by
  have hclosed : ∀ x ∈ nodes.map (·.id), ∀ y ∈ targets edges x, y ∈ nodes.map (·.id) :=
    fun _ _ _ => targets_closed hends
  have hfuel := search_terminates hclosed (List.mem_map.mpr hstart)
  rwa [List.length_map] at hfuel

/-- What lies on the way from a node of the graph is in the graph. -/
theorem reaches_node
    (hends : ∀ e ∈ edges, (∃ n ∈ nodes, n.id = e.source) ∧ ∃ n ∈ nodes, n.id = e.target)
    (hstart : ∃ n ∈ nodes, n.id = start) {x : GraphNodeId} (h : ReflTransGen (Leads edges) start x) :
    x ∈ nodes.map (·.id) := by
  cases h with
  | refl => exact List.mem_map.mpr hstart
  | tail _ hstep =>
    obtain ⟨e, he, -, rfl⟩ := hstep
    exact List.mem_map.mpr (hends e he).2

theorem isTerminal_iff : (nodes.any (·.kind.isTerminal)) = true ↔
    ∃ n ∈ nodes, n.kind = .complete ∨ n.kind = .fail := by
  have hkind : ∀ kind : NodeKind, kind.isTerminal = true ↔ kind = .complete ∨ kind = .fail := by
    intro kind
    cases kind <;> simp [NodeKind.isTerminal]
  simp only [List.any_eq_true, hkind]

theorem validateReachabilityAndCycles_ok (hunique : (nodes.map (·.id)).Nodup)
    (hends : ∀ e ∈ edges, (∃ n ∈ nodes, n.id = e.source) ∧ ∃ n ∈ nodes, n.id = e.target)
    (hstart : ∃ n ∈ nodes, n.id = start) :
    validateReachabilityAndCycles start nodes edges = .ok () ↔
      (∀ n ∈ nodes, ReflTransGen (Leads edges) start n.id) ∧ (∀ x, ¬ TransGen (Leads edges) x x) ∧
        ∃ n ∈ nodes, n.kind = .complete ∨ n.kind = .fail := by
  unfold validateReachabilityAndCycles
  rw [← isTerminal_iff]
  cases hvisit : visit (targets edges) (nodes.length + 1) .empty start with
  | error e =>
    cases e with
    | cycle =>
      obtain ⟨x, -, hcycle⟩ := search_cycle hvisit
      rw [leads_targets] at hcycle
      exact ⟨fun h => (by cases h), fun h => absurd hcycle (h.2.1 x)⟩
    | outOfFuel => exact absurd hvisit (visit_ne_outOfFuel hends hstart)
  | ok walk =>
    obtain ⟨hnodup, hmem, hacyclic⟩ := search_ok hvisit
    simp only [leads_targets] at hmem hacyclic
    have hsub : ∀ x ∈ walk.visited, x ∈ nodes.map (·.id) := fun x hx =>
      reaches_node hends hstart ((hmem x).mp hx)
    -- both lists are without repetitions, so the lengths decide whether all nodes were reached
    have hlength : walk.visited.length = nodes.length ↔
        ∀ n ∈ nodes, ReflTransGen (Leads edges) start n.id := by
      constructor
      · intro hlength n hn
        have hperm : walk.visited.Perm (nodes.map (·.id)) :=
          (hnodup.subperm hsub).perm_of_length_le (by rw [List.length_map, hlength])
        exact (hmem n.id).mp (hperm.mem_iff.mpr (List.mem_map_of_mem hn))
      · intro hreach
        have hsub' : ∀ x ∈ nodes.map (·.id), x ∈ walk.visited := by
          intro x hx
          obtain ⟨n, hn, rfl⟩ := List.mem_map.mp hx
          exact (hmem n.id).mpr (hreach n hn)
        have hle := (hnodup.subperm hsub).length_le
        have hge := (hunique.subperm hsub').length_le
        rw [List.length_map] at hle hge
        omega
    have hcycles : (∀ n ∈ nodes, ReflTransGen (Leads edges) start n.id) →
        ∀ x, ¬ TransGen (Leads edges) x x := by
      intro hreach x hcycle
      obtain ⟨y, hstep, -⟩ := TransGen.head'_iff.mp hcycle
      obtain ⟨e, he, rfl, -⟩ := hstep
      obtain ⟨n, hn, hid⟩ := (hends e he).1
      rw [← hid] at hcycle
      exact hacyclic n.id (hreach n hn) hcycle
    dsimp only
    by_cases hall : walk.visited.length = nodes.length
    · have hreach := hlength.mp hall
      by_cases hterminal : (nodes.any (·.kind.isTerminal)) = true
      · simp only [hall, ne_eq, not_true_eq_false, if_false, hterminal, Bool.not_true, Bool.false_eq_true,
          and_true, true_iff]
        exact ⟨hreach, hcycles hreach⟩
      · simp [hall, hterminal]
    · have hnot := hlength.not.mp hall
      simp [hall, hnot]

end Checks

/-! ## What is accepted -/

section New

variable {sha256 : List UInt8 → Bytes32} {start : GraphNodeId} {nodes : List NodeDefinition} {edges : List Edge}

/-- The checks of `new`, one after the other. -/
theorem new_ok {d : GraphDefinition} : new sha256 start nodes edges = .ok d ↔
    (1 ≤ nodes.length ∧ nodes.length ≤ 64 ∧ edges.length ≤ 128) ∧
      ∃ nodeMap, nodes.foldlM insertNode [] = .ok nodeMap ∧ (∃ n ∈ nodeMap, n.id = start) ∧
      ∃ edgeMap, edges.foldlM (insertEdge nodeMap) [] = .ok edgeMap ∧
        validateTransitions nodeMap edgeMap = .ok () ∧
        validateReachabilityAndCycles start nodeMap edgeMap = .ok () ∧
        d = ⟨start, nodeMap, edgeMap, definitionDigest sha256 start nodeMap edgeMap⟩ := by
  have hsize : (nodes.isEmpty || nodes.length > maxGraphNodes || edges.length > maxGraphEdges) = true ↔
      ¬ (1 ≤ nodes.length ∧ nodes.length ≤ 64 ∧ edges.length ≤ 128) := by
    simp only [Bool.or_eq_true, List.isEmpty_iff, ← List.length_eq_zero_iff, decide_eq_true_eq]
    have hnodes : maxGraphNodes = 64 := rfl
    have hedges : maxGraphEdges = 128 := rfl
    omega
  have hany : ∀ nodeMap : List NodeDefinition, (nodeMap.any (·.id = start)) = true ↔
      ∃ n ∈ nodeMap, n.id = start := by simp
  unfold new
  by_cases hbad : (nodes.isEmpty || nodes.length > maxGraphNodes || edges.length > maxGraphEdges) = true
  · rw [if_pos hbad]
    refine ⟨fun h => (by cases h), fun h => absurd h.1 (hsize.mp hbad)⟩
  rw [if_neg hbad, bind_eq_ok]
  refine ⟨?_, ?_⟩
  · rintro ⟨nodeMap, hnodes, h⟩
    refine ⟨not_not.mp (hsize.not.mp hbad), nodeMap, hnodes, ?_⟩
    by_cases hstart : (nodeMap.any (·.id = start)) = true
    · simp only [hstart, Bool.not_true, Bool.false_eq_true, if_false, bind_eq_ok] at h
      obtain ⟨edgeMap, hedges, ⟨⟩, htransitions, ⟨⟩, hsearch, hd⟩ := h
      exact ⟨(hany _).mp hstart, edgeMap, hedges, htransitions, hsearch, (Except.ok.inj hd).symm⟩
    · simp [hstart] at h
  · rintro ⟨-, nodeMap, hnodes, hstart, edgeMap, hedges, htransitions, hsearch, rfl⟩
    refine ⟨nodeMap, hnodes, ?_⟩
    simp only [(hany _).mpr hstart, Bool.not_true, Bool.false_eq_true, if_false, bind_eq_ok]
    exact ⟨edgeMap, hedges, (), htransitions, (), hsearch, rfl⟩

/-- **`GraphDefinition::new` accepts exactly the well-formed graphs.** -/
theorem new_ok_iff (sha256 : List UInt8 → Bytes32) (start : GraphNodeId) (nodes : List NodeDefinition)
    (edges : List Edge) :
    (∃ d, new sha256 start nodes edges = .ok d) ↔ WellFormed start nodes edges := by
  -- the checks are made on the maps, which hold the same nodes and edges
  have hleads : ∀ {edgeMap : List Edge}, edgeMap.Perm edges → Leads edgeMap = Leads edges := by
    intro edgeMap hperm
    funext x y
    simp only [Leads, hperm.mem_iff]
  constructor
  · rintro ⟨d, hd⟩
    obtain ⟨hsize, nodeMap, hnodes, hstart, edgeMap, hedges, htransitions, hsearch, -⟩ := new_ok.mp hd
    obtain ⟨hvalid, hunique⟩ := nodeMap_ok.mp ⟨nodeMap, hnodes⟩
    obtain ⟨hends, hkeys⟩ := edgeMap_ok.mp ⟨edgeMap, hedges⟩
    have hn := nodeMap_perm hnodes
    have he := edgeMap_perm hedges
    have hends' : ∀ e ∈ edgeMap, (∃ n ∈ nodeMap, n.id = e.source) ∧ ∃ n ∈ nodeMap, n.id = e.target :=
      fun e hmem => hends e (he.mem_iff.mp hmem)
    rw [validateReachabilityAndCycles_ok ((hn.map _).nodup_iff.mpr hunique) hends' hstart, hleads he] at hsearch
    rw [validateTransitions_ok] at htransitions
    simp only [hn.mem_iff, he.mem_iff] at hstart hends htransitions hsearch
    refine ⟨hsize.1, hsize.2.1, hsize.2.2, hunique, hstart, fun n hmem => ?_, fun n hmem => ?_, ?_,
      htransitions, hends, hsearch.1, hsearch.2.1, hsearch.2.2⟩
    · rw [← recoveryValid_eq]
      exact (validateNode_ok.mp (hvalid n hmem)).1
    · exact branchesValid_iff.mp (validateNode_ok.mp (hvalid n hmem)).2
    · exact hkeys.imp fun hkey hsource htransition => hkey ⟨hsource, htransition⟩
  · intro h
    have hvalid : ∀ n ∈ nodes, validateNode n = .ok () := fun n hmem => validateNode_ok.mpr
      ⟨by rw [recoveryValid_eq]; exact h.recovery n hmem, branchesValid_iff.mpr (h.branches n hmem)⟩
    obtain ⟨nodeMap, hnodes⟩ := nodeMap_ok.mpr ⟨hvalid, h.unique⟩
    have hn := nodeMap_perm hnodes
    have hends : ∀ e ∈ edges, (∃ n ∈ nodeMap, n.id = e.source) ∧ ∃ n ∈ nodeMap, n.id = e.target := by
      simpa only [hn.mem_iff] using h.endpoints
    obtain ⟨edgeMap, hedges⟩ := edgeMap_ok.mpr
      ⟨hends, h.deterministic.imp fun hkey hsame => hkey hsame.1 hsame.2⟩
    have he := edgeMap_perm hedges
    have hstart : ∃ n ∈ nodeMap, n.id = start := by simpa only [hn.mem_iff] using h.has_start
    have hends' : ∀ e ∈ edgeMap, (∃ n ∈ nodeMap, n.id = e.source) ∧ ∃ n ∈ nodeMap, n.id = e.target :=
      fun e hmem => hends e (he.mem_iff.mp hmem)
    refine ⟨_, new_ok.mpr ⟨⟨h.some_node, h.few_nodes, h.few_edges⟩, nodeMap, hnodes, hstart, edgeMap, hedges,
      validateTransitions_ok.mpr ?_, ?_, rfl⟩⟩
    · simpa only [hn.mem_iff, he.mem_iff] using h.labels
    · rw [validateReachabilityAndCycles_ok ((hn.map _).nodup_iff.mpr h.unique) hends' hstart, hleads he]
      simpa only [hn.mem_iff] using ⟨h.reachable, h.acyclic, h.terminal⟩

/-! ### The search always ends -/

theorem foldlM_error_ne {σ β : Type} {f : σ → β → Except GraphDefinitionError σ} {l : List β} {s : σ}
    (hf : ∀ s b, f s b ≠ .error .outOfFuel) : l.foldlM f s ≠ .error .outOfFuel := by
  intro h
  obtain ⟨-, b, -, m, -, -, hb⟩ := foldlM_error h
  exact hf m b hb

theorem bind_ne_outOfFuel {σ τ : Type} {x : Except GraphDefinitionError σ}
    {f : σ → Except GraphDefinitionError τ} (hx : x ≠ .error .outOfFuel)
    (hf : ∀ a, x = .ok a → f a ≠ .error .outOfFuel) : (x >>= f) ≠ .error .outOfFuel := by
  cases x with
  | ok a => exact hf a rfl
  | error e =>
    intro h
    exact hx (congrArg Except.error (Except.error.inj h))

theorem insertNode_ne_outOfFuel (map : List NodeDefinition) (node : NodeDefinition) :
    insertNode map node ≠ .error .outOfFuel := by
  refine bind_ne_outOfFuel ?_ fun u _ => ?_
  · unfold validateNode
    split
    · simp
    · split <;> simp
  · split <;> simp

theorem insertEdge_ne_outOfFuel (nodes : List NodeDefinition) (map : List Edge) (edge : Edge) :
    insertEdge nodes map edge ≠ .error .outOfFuel := by
  unfold insertEdge
  split
  · simp
  · split <;> simp

theorem validateTransitions_ne_outOfFuel (nodes : List NodeDefinition) (edges : List Edge) :
    validateTransitions nodes edges ≠ .error .outOfFuel := by
  unfold validateTransitions
  induction nodes with
  | nil => simp [pure, Except.pure]
  | cons n nodes ih =>
    rw [List.forM_eq_forM, List.forM_cons]
    refine bind_ne_outOfFuel ?_ fun _ _ => ih
    unfold checkTransitions
    split
    · simp only [ne_eq, Except.error.injEq]
      split <;> simp
    · simp

theorem validateReachabilityAndCycles_ne_outOfFuel
    (hends : ∀ e ∈ edges, (∃ n ∈ nodes, n.id = e.source) ∧ ∃ n ∈ nodes, n.id = e.target)
    (hstart : ∃ n ∈ nodes, n.id = start) :
    validateReachabilityAndCycles start nodes edges ≠ .error .outOfFuel := by
  unfold validateReachabilityAndCycles
  cases hwalk : visit (targets edges) (nodes.length + 1) .empty start with
  | error e =>
    cases e with
    | cycle => simp
    | outOfFuel => exact absurd hwalk (visit_ne_outOfFuel hends hstart)
  | ok walk =>
    by_cases hall : walk.visited.length = nodes.length
    · by_cases hterminal : (nodes.any (·.kind.isTerminal)) = true <;> simp [hall, hterminal]
    · simp [hall]

theorem new_ne_outOfFuel : new sha256 start nodes edges ≠ .error .outOfFuel := by
  unfold new
  split
  · simp
  refine bind_ne_outOfFuel (foldlM_error_ne insertNode_ne_outOfFuel) fun nodeMap _ => ?_
  split
  · simp
  next hany =>
  have hstart : ∃ n ∈ nodeMap, n.id = start := by simpa using hany
  refine bind_ne_outOfFuel (foldlM_error_ne (insertEdge_ne_outOfFuel nodeMap)) fun edgeMap hedges => ?_
  have hends := (edgeMap_ok.mp ⟨edgeMap, hedges⟩).1
  simp only [← (edgeMap_perm hedges).mem_iff] at hends
  refine bind_ne_outOfFuel (validateTransitions_ne_outOfFuel nodeMap edgeMap) fun _ _ => ?_
  exact bind_ne_outOfFuel (validateReachabilityAndCycles_ne_outOfFuel hends hstart) fun _ _ => by simp

end New

/-- A retrieval that leads to the end. -/
example : (new (fun _ => 0) ⟨"get"⟩ [⟨⟨"get"⟩, .retrieve, .freshRetrieval⟩, ⟨⟨"end"⟩, .complete, .never⟩]
    [⟨⟨"get"⟩, .succeeded, ⟨"end"⟩⟩]).isOk = true := by decide +kernel

end GraphDefinition
end LocalAgent
