import LocalAgent.Graph.Definition
import LocalAgent.Graph.Resume
import LocalAgent.Lib.Sorted
import LocalAgent.Lib.Utf8
import Mathlib.Data.String.Basic
import Mathlib.Data.Prod.Lex

/-!
# What the graph digest identifies (`agent-graph/src/definition.rs:293-355`)

The digest is taken over the texts of the graph, each behind its length, without a count of nodes,
branches or edges. Where a node ends is known all the same: a length fits into one of its eight
bytes and begins with a zero, a node begins with a one and an edge with a two. The maps are in the
order of their keys and branches are sorted, so the order in which a graph was listed is forgotten.

Main theorem: `digestInput_eq_iff` (equal bytes, equal graphs).
-/
namespace LocalAgent

open Encoding Utf8

/-- `MAX_GRAPH_NODE_ID_BYTES`. -/
def maxGraphNodeIdBytes : Nat := 64

/-- `MAX_GRAPH_BRANCH_ID_BYTES`. -/
def maxGraphBranchIdBytes : Nat := 32

/-- `bounded_id!` (graph_control.rs:15): what the constructors of the identifiers accept. -/
def boundedId (max : Nat) (value : String) : Bool :=
  !(value.isEmpty || value.utf8ByteSize > max || value.toList.any fun c =>
    !c.isAlphanum && !(c = '_' || c = '-' || c = '.' || c = ':'))

def GraphNodeId.accepted (id : GraphNodeId) : Bool := boundedId maxGraphNodeIdBytes id.value

def GraphBranchId.accepted (id : GraphBranchId) : Bool := boundedId maxGraphBranchIdBytes id.value

/-- Equal kinds, with equal sets of branches. -/
def NodeKind.Same : NodeKind → NodeKind → Prop
  | .decision branches, .decision branches' => ∀ b, b ∈ branches ↔ b ∈ branches'
  | kind, kind' => kind = kind'

/-- Equal identifiers, kinds and modes of recovery. -/
def NodeDefinition.Same (n n' : NodeDefinition) : Prop :=
  n.id = n'.id ∧ n.kind.Same n'.kind ∧ n.recovery = n'.recovery

namespace GraphDefinition

/-- Equal starts, equal sets of nodes and equal sets of labelled edges. -/
structure SameGraph (start start' : GraphNodeId) (nodes nodes' : List NodeDefinition)
    (edges edges' : List Edge) : Prop where
  start_eq : start = start'
  nodes_sub : ∀ n ∈ nodes, ∃ n' ∈ nodes', n.Same n'
  nodes_sup : ∀ n' ∈ nodes', ∃ n ∈ nodes, n.Same n'
  edges_iff : ∀ e, e ∈ edges ↔ e ∈ edges'

/-- The identifiers of a graph went through their constructors. -/
structure Named (start : GraphNodeId) (nodes : List NodeDefinition) (edges : List Edge) : Prop where
  start_ok : start.accepted = true
  node_ok : ∀ n ∈ nodes, n.id.accepted = true
  branch_ok : ∀ n ∈ nodes, ∀ bs, n.kind = .decision bs → ∀ b ∈ bs, b.accepted = true
  source_ok : ∀ e ∈ edges, e.source.accepted = true
  label_ok : ∀ e ∈ edges, ∀ b, e.transition = .branch b → b.accepted = true
  target_ok : ∀ e ∈ edges, e.target.accepted = true

/-! ## The bytes -/

/-- The branches of a node in the order of the digest. -/
def sortedBranches (branches : List GraphBranchId) : List GraphBranchId :=
  branches.insertionSort fun a b => a.value ≤ b.value

/-- The part of a node (definition.rs:301-311). -/
def nodeBytes (n : NodeDefinition) : List UInt8 :=
  [1] ++ text n.id.value ++ [nodeKindTag n.kind, recoveryTag n.recovery] ++ match n.kind with
    | .decision branches => (sortedBranches branches).flatMap fun b => text b.value
    | _ => []

/-- The part of an edge (definition.rs:312-326). -/
def edgeBytes (e : Edge) : List UInt8 :=
  [2] ++ text e.source.value ++ [UInt8.ofNat (transitionTag e.transition)] ++ (match e.transition with
    | .branch id => text id.value
    | _ => []) ++ text e.target.value

/-- What `definition_digest` feeds to the hash. -/
def digestInput (start : GraphNodeId) (nodes : List NodeDefinition) (edges : List Edge) : List UInt8 :=
  "enterprise-local-agent:graph:v2".toUTF8.toList ++ text start.value ++ nodes.flatMap nodeBytes ++
    edges.flatMap edgeBytes

variable {sha256 : List UInt8 → Bytes32} {start start' : GraphNodeId}
  {nodes nodes' : List NodeDefinition} {edges edges' : List Edge} {d d' : GraphDefinition}

theorem definitionDigest_eq :
    definitionDigest sha256 start nodes edges = sha256 (digestInput start nodes edges) := rfl

theorem text_eq (value : String) : text value = sized 8 value.toUTF8.toList := by
  rw [text, sized, length_utf8]

theorem text_inj {a b : String} (h : text a = text b) : a = b := by
  rw [text_eq, text_eq] at h
  exact utf8_inj (sized_inj h)

/-- Texts far shorter than a length can say. -/
def Short (value : String) : Prop := value.utf8ByteSize < 256 ^ 7

theorem short_of_accepted {max : Nat} {value : String} (hmax : max < 256 ^ 7)
    (h : boundedId max value = true) : Short value := by
  simp only [boundedId, Bool.not_eq_true', Bool.or_eq_false_iff, decide_eq_false_iff_not,
    Nat.not_lt] at h
  exact h.1.2.trans_lt hmax

theorem GraphNodeId_short {id : GraphNodeId} (h : id.accepted = true) : Short id.value :=
  short_of_accepted (by decide) h

theorem GraphBranchId_short {id : GraphBranchId} (h : id.accepted = true) : Short id.value :=
  short_of_accepted (by decide) h

theorem splits_text {a b : String} (ha : Short a) (hb : Short b) : Splits (text a) (text b) := by
  have hle : 256 ^ 7 ≤ 256 ^ 8 := by decide
  rw [text_eq, text_eq]
  exact splits_sized (by rw [length_utf8]; exact ha.trans_le hle) (by rw [length_utf8]; exact hb.trans_le hle)

/-- A text begins with a zero. -/
theorem marked_text {a : String} (ha : Short a) : Marked (· = 0) (text a) := by
  rw [text_eq, ← List.append_nil (sized _ _)]
  exact marked_sized (by rwa [length_utf8]) []

/-! ## Nodes -/

/-- The node with its branches sorted. -/
def normal (n : NodeDefinition) : NodeDefinition :=
  match n.kind with
  | .decision branches => { n with kind := .decision (sortedBranches branches) }
  | _ => n

theorem normal_id (n : NodeDefinition) : (normal n).id = n.id := by
  unfold normal
  split <;> rfl

/-- The branches that the digest takes from a node. -/
def branchTexts : NodeKind → List (List UInt8)
  | .decision branches => (sortedBranches branches).map fun b => text b.value
  | _ => []

theorem nodeBytes_eq (n : NodeDefinition) : nodeBytes n =
    ([1] ++ text n.id.value ++ [nodeKindTag n.kind, recoveryTag n.recovery]) ++ (branchTexts n.kind).flatten := by
  unfold nodeBytes branchTexts
  cases n.kind <;> simp [List.flatMap_def]

theorem normal_eq_iff {n n' : NodeDefinition} : normal n = normal n' ↔
    n.id = n'.id ∧ nodeKindTag n.kind = nodeKindTag n'.kind ∧ recoveryTag n.recovery = recoveryTag n'.recovery ∧
      branchTexts n.kind = branchTexts n'.kind := by
  have hrecovery : ∀ {r r' : GraphRecoveryMode}, recoveryTag r = recoveryTag r' ↔ r = r' := by
    intro r r'
    cases r <;> cases r' <;> decide
  have hbranches : ∀ {bs bs' : List GraphBranchId},
      bs.map (fun b => text b.value) = bs'.map (fun b => text b.value) ↔ bs = bs' := by
    intro bs bs'
    refine List.map_inj_right fun a b h => ?_
    exact congrArg GraphBranchId.mk (text_inj h)
  obtain ⟨id, kind, recovery⟩ := n
  obtain ⟨id', kind', recovery'⟩ := n'
  rw [hrecovery]
  cases kind <;> cases kind' <;>
    simp [normal, nodeKindTag, branchTexts, hbranches, and_comm]

/-- A node whose texts are short. -/
structure Readable (n : NodeDefinition) : Prop where
  id_short : Short n.id.value
  branches_short : ∀ t ∈ branchTexts n.kind, ∃ b, Short b ∧ t = text b

theorem branchTexts_unique {n n' : NodeDefinition} (hn : Readable n) (hn' : Readable n')
    {s t : List UInt8} (hs : ¬ Marked (· = 0) s) (ht : ¬ Marked (· = 0) t)
    (h : (branchTexts n.kind).flatten ++ s = (branchTexts n'.kind).flatten ++ t) :
    branchTexts n.kind = branchTexts n'.kind ∧ s = t := by
  have hmarked : ∀ {m : NodeDefinition}, Readable m → ∀ t ∈ branchTexts m.kind, Marked (· = 0) t := by
    intro m hm t ht
    obtain ⟨b, hb, rfl⟩ := hm.branches_short t ht
    exact marked_text hb
  refine flatten_marked (hmarked hn) (hmarked hn') hs ht (fun p hp q hq => ?_) h
  obtain ⟨b, hb, rfl⟩ := hn.branches_short p hp
  obtain ⟨b', hb', rfl⟩ := hn'.branches_short q hq
  exact splits_text hb hb'

/-- The identifier and the tags of a node. -/
def nodeHead (n : NodeDefinition) : List UInt8 :=
  [1] ++ text n.id.value ++ [nodeKindTag n.kind, recoveryTag n.recovery]

theorem splits_nodeHead {n n' : NodeDefinition} (hn : Readable n) (hn' : Readable n') :
    Splits (nodeHead n) (nodeHead n') :=
  ((Splits.refl [1]).append (splits_text hn.id_short hn'.id_short)).append (.of_length rfl)

theorem splits_nodeBytes {n n' : NodeDefinition} (hn : Readable n) (hn' : Readable n') :
    SplitsBefore (Marked (· = 0)) (nodeBytes n) (nodeBytes n') := by
  rw [nodeBytes_eq, nodeBytes_eq]
  refine (splits_nodeHead hn hn').append_before fun _ s t hs ht happ => ?_
  obtain ⟨heq, hrest⟩ := branchTexts_unique hn hn' hs ht happ
  exact ⟨by rw [heq], hrest⟩

/-- Nodes with equal bytes differ in the order of their branches at most. -/
theorem nodeBytes_inj {n n' : NodeDefinition} (hn : Readable n) (hn' : Readable n') :
    nodeBytes n = nodeBytes n' ↔ normal n = normal n' := by
  rw [normal_eq_iff, nodeBytes_eq, nodeBytes_eq]
  constructor
  · intro h
    obtain ⟨hhead, hbranches⟩ := splits_nodeHead hn hn' h
    obtain ⟨htext, htags⟩ := (Splits.refl [1]).append (splits_text hn.id_short hn'.id_short) hhead
    obtain ⟨htexts, -⟩ := branchTexts_unique hn hn' not_marked_nil not_marked_nil (congrArg (· ++ []) hbranches)
    simp only [List.cons.injEq, and_true] at htags
    exact ⟨congrArg GraphNodeId.mk (text_inj (List.append_cancel_left htext)), htags.1, htags.2, htexts⟩
  · rintro ⟨hid, hkind, hrecovery, hbranches⟩
    rw [hid, hkind, hrecovery, hbranches]

/-! ### Sorted branches -/

theorem sortedBranches_eq (bs : List GraphBranchId) :
    sortedBranches bs = bs.insertionSort (Sorted.Before GraphBranchId.value) := rfl

theorem mem_sortedBranches {bs : List GraphBranchId} {b : GraphBranchId} :
    b ∈ sortedBranches bs ↔ b ∈ bs := List.mem_insertionSort _

theorem value_injective : Function.Injective GraphBranchId.value := fun a b h => by
  cases a
  cases b
  exact congrArg GraphBranchId.mk h

/-- Sorted branches are equal exactly if the sets are. -/
theorem sortedBranches_inj {bs bs' : List GraphBranchId} (h : bs.Nodup) (h' : bs'.Nodup) :
    sortedBranches bs = sortedBranches bs' ↔ ∀ b, b ∈ bs ↔ b ∈ bs' := by
  constructor
  · intro heq b
    rw [← mem_sortedBranches, heq, mem_sortedBranches]
  · intro hmem
    rw [sortedBranches_eq, sortedBranches_eq]
    exact Sorted.insertionSort_of_perm ((List.perm_ext_iff_of_nodup h h').mpr hmem)
      (h.map value_injective)

theorem normal_eq_iff_same {n n' : NodeDefinition} (h : ∀ bs, n.kind = .decision bs → bs.Nodup)
    (h' : ∀ bs, n'.kind = .decision bs → bs.Nodup) : normal n = normal n' ↔ n.Same n' := by
  obtain ⟨id, kind, recovery⟩ := n
  obtain ⟨id', kind', recovery'⟩ := n'
  cases kind with
  | decision bs =>
    cases kind' with
    | decision bs' =>
      have hsorted := sortedBranches_inj (h bs rfl) (h' bs' rfl)
      simp [normal, NodeDefinition.Same, NodeKind.Same, hsorted]
    | _ => simp [normal, NodeDefinition.Same, NodeKind.Same]
  | _ => cases kind' <;> simp [normal, NodeDefinition.Same, NodeKind.Same]

/-! ## Edges -/

/-- The tag of a label, and the branch behind it. -/
def labelBytes (t : GraphTransitionKey) : List UInt8 :=
  UInt8.ofNat (transitionTag t) :: match t with
    | .branch id => text id.value
    | _ => []

theorem edgeBytes_eq (e : Edge) : edgeBytes e =
    [2] ++ text e.source.value ++ labelBytes e.transition ++ text e.target.value := by
  simp [edgeBytes, labelBytes]

theorem splits_labelBytes {t t' : GraphTransitionKey} (h : ∀ b, t = .branch b → Short b.value)
    (h' : ∀ b, t' = .branch b → Short b.value) : Splits (labelBytes t) (labelBytes t') := by
  by_cases htag : UInt8.ofNat (transitionTag t) = UInt8.ofNat (transitionTag t')
  · cases t with
    | branch b =>
      cases t' with
      | branch b' => exact .cons fun _ => splits_text (h b rfl) (h' b' rfl)
      | _ => exact absurd htag (by simp [transitionTag])
    | _ =>
      cases t' with
      | branch b' => exact absurd htag (by simp [transitionTag])
      | _ => exact .of_length rfl
  · exact .of_ne htag

theorem labelBytes_inj {t t' : GraphTransitionKey} (h : labelBytes t = labelBytes t') : t = t' := by
  obtain ⟨htag, hrest⟩ := List.cons.inj h
  cases t <;> cases t'
  case branch.branch b b' => exact congrArg (GraphTransitionKey.branch ∘ GraphBranchId.mk) (text_inj hrest)
  all_goals first
    | rfl
    | exact absurd htag (by simp [transitionTag])

/-- An edge whose texts are short. -/
structure ReadableEdge (e : Edge) : Prop where
  source_short : Short e.source.value
  label_short : ∀ b, e.transition = .branch b → Short b.value
  target_short : Short e.target.value

theorem splits_edgeHead {e e' : Edge} (h : ReadableEdge e) (h' : ReadableEdge e') :
    Splits ([2] ++ text e.source.value) ([2] ++ text e'.source.value) :=
  (Splits.refl [2]).append (splits_text h.source_short h'.source_short)

theorem splits_edgeBytes {e e' : Edge} (h : ReadableEdge e) (h' : ReadableEdge e') :
    Splits (edgeBytes e) (edgeBytes e') := by
  rw [edgeBytes_eq, edgeBytes_eq]
  exact ((splits_edgeHead h h').append (splits_labelBytes h.label_short h'.label_short)).append
    (splits_text h.target_short h'.target_short)

theorem edgeBytes_inj {e e' : Edge} (h : ReadableEdge e) (h' : ReadableEdge e')
    (heq : edgeBytes e = edgeBytes e') : e = e' := by
  rw [edgeBytes_eq, edgeBytes_eq] at heq
  obtain ⟨hhead, htarget⟩ :=
    (splits_edgeHead h h').append (splits_labelBytes h.label_short h'.label_short) heq
  obtain ⟨hsource, hlabel⟩ := splits_edgeHead h h' hhead
  obtain ⟨⟨source⟩, transition, ⟨target⟩⟩ := e
  obtain ⟨⟨source'⟩, transition', ⟨target'⟩⟩ := e'
  obtain rfl : source = source' := text_inj (List.append_cancel_left hsource)
  obtain rfl : transition = transition' := labelBytes_inj hlabel
  obtain rfl : target = target' := text_inj htarget
  rfl

/-! ## The whole input -/

/-- Nodes and edges can be told apart in what the hash is fed. -/
theorem digestInput_inj (hstart : Short start.value) (hstart' : Short start'.value)
    (hn : ∀ n ∈ nodes, Readable n) (hn' : ∀ n ∈ nodes', Readable n)
    (he : ∀ e ∈ edges, ReadableEdge e) (he' : ∀ e ∈ edges', ReadableEdge e)
    (h : digestInput start nodes edges = digestInput start' nodes' edges') :
    start = start' ∧ nodes.map nodeBytes = nodes'.map nodeBytes ∧ edges = edges' := by
  have hedge : ∀ (es : List Edge), ∀ w ∈ es.map edgeBytes, Marked (· = 2) w := by
    intro es w hw
    obtain ⟨e, -, rfl⟩ := List.mem_map.mp hw
    exact marked_cons.mpr rfl
  have hnode : ∀ (ns : List NodeDefinition), ∀ w ∈ ns.map nodeBytes, Marked (· = 1) w := by
    intro ns w hw
    obtain ⟨n, -, rfl⟩ := List.mem_map.mp hw
    exact marked_cons.mpr rfl
  -- what follows the nodes begins with a two, if with anything
  have hafter : ∀ (es : List Edge) (b : UInt8), b ≠ 2 → ¬ Marked (· = b) (es.flatMap edgeBytes) := by
    intro es b hb
    cases es with
    | nil => exact not_marked_nil
    | cons e es =>
      rw [List.flatMap_cons, edgeBytes_eq]
      simp only [List.append_assoc, List.cons_append, marked_cons]
      exact hb.symm
  simp only [digestInput, List.append_assoc] at h
  obtain ⟨hstarts, hrest⟩ := splits_text hstart hstart' (List.append_cancel_left h)
  rw [List.flatMap_def, List.flatMap_def] at hrest
  have hends : ∀ p : List UInt8, Marked (· = 1) p → ¬ Marked (· = 0) p := by
    rintro p ⟨b, hb, rfl⟩ ⟨c, hc, rfl⟩
    cases Option.mem_unique hb hc
  have hreadable : ∀ p ∈ nodes.map nodeBytes, ∀ q ∈ nodes'.map nodeBytes,
      SplitsBefore (Marked (· = 0)) p q := by
    intro p hp q hq
    obtain ⟨n, hmem, rfl⟩ := List.mem_map.mp hp
    obtain ⟨n', hmem', rfl⟩ := List.mem_map.mp hq
    exact splits_nodeBytes (hn n hmem) (hn' n' hmem')
  obtain ⟨hnodes, hedges⟩ := flatten_signed (fun _ r hp => hp.append r) hends (hnode nodes) (hnode nodes')
    ⟨hafter edges 1 (by decide), hafter edges 0 (by decide)⟩
    ⟨hafter edges' 1 (by decide), hafter edges' 0 (by decide)⟩ hreadable hrest
  have hsplit : ∀ p ∈ edges.map edgeBytes, ∀ q ∈ edges'.map edgeBytes, Splits p q := by
    intro p hp q hq
    obtain ⟨e, hmem, rfl⟩ := List.mem_map.mp hp
    obtain ⟨e', hmem', rfl⟩ := List.mem_map.mp hq
    exact splits_edgeBytes (he e hmem) (he' e' hmem')
  rw [List.flatMap_def, List.flatMap_def, ← List.append_nil (edges.map edgeBytes).flatten,
    ← List.append_nil (edges'.map edgeBytes).flatten] at hedges
  obtain ⟨hwords, -⟩ := flatten_marked (hedge edges) (hedge edges') not_marked_nil not_marked_nil hsplit hedges
  refine ⟨congrArg GraphNodeId.mk (text_inj hstarts), hnodes, ?_⟩
  have heq := Sorted.map_eq_of_map_eq (g := id)
    (fun e hmem e' hmem' => edgeBytes_inj (he e hmem) (he' e' hmem')) hwords
  rwa [List.map_id, List.map_id] at heq

/-! ## The maps -/

/-- The key of an edge, as it is compared. -/
def edgeKey (e : Edge) : String ×ₗ ℕ ×ₗ String :=
  toLex (e.source.value, toLex (transitionTag e.transition, branchText e.transition))

theorem keyLe_iff {e f : Edge} : keyLe e f = true ↔ Sorted.Before edgeKey e f := by
  have hsource : e.source = f.source ↔ e.source.value = f.source.value := by
    constructor
    · exact congrArg GraphNodeId.value
    · intro h
      cases hs : e.source
      cases hs' : f.source
      rw [hs, hs'] at h
      exact congrArg GraphNodeId.mk h
  simp [keyLe, Sorted.Before, edgeKey, Prod.Lex.toLex_le_toLex, hsource]

theorem sameKey_of_edgeKey {e f : Edge} (h : edgeKey e = edgeKey f) : SameKey e f := by
  obtain ⟨⟨source⟩, transition, target⟩ := e
  obtain ⟨⟨source'⟩, transition', target'⟩ := f
  simp only [edgeKey, toLex_inj, Prod.mk.injEq] at h
  obtain ⟨rfl, htag, htext⟩ := h
  refine ⟨rfl, ?_⟩
  cases transition <;> cases transition'
  case branch.branch b b' => exact congrArg (GraphTransitionKey.branch ∘ GraphBranchId.mk) htext
  all_goals first
    | rfl
    | cases htag

/-- What `new` builds its digest from. -/
structure Built (sha256 : List UInt8 → Bytes32) (start : GraphNodeId) (nodes : List NodeDefinition)
    (edges : List Edge) (d : GraphDefinition) : Prop where
  start_eq : d.start = start
  nodes_perm : d.nodes.Perm nodes
  nodes_sorted : d.nodes.Pairwise (Sorted.Before (·.id.value))
  nodes_unique : (d.nodes.map (·.id.value)).Nodup
  branches_unique : ∀ n ∈ d.nodes, ∀ bs, n.kind = .decision bs → bs.Nodup
  edges_perm : d.edges.Perm edges
  edges_sorted : d.edges.Pairwise (Sorted.Before edgeKey)
  edges_unique : (d.edges.map edgeKey).Nodup
  digest_eq : d.digest = sha256 (digestInput d.start d.nodes d.edges)

theorem built_of_new (h : new sha256 start nodes edges = .ok d) : Built sha256 start nodes edges d := by
  have hwell := (new_ok_iff sha256 start nodes edges).mp ⟨d, h⟩
  obtain ⟨-, nodeMap, hnodes, -, edgeMap, hedges, -, -, rfl⟩ := new_ok.mp h
  have hn := nodeMap_perm hnodes
  have he := edgeMap_perm hedges
  obtain ⟨-, hkeys⟩ := edgeMap_ok.mp ⟨edgeMap, hedges⟩
  have hnodeInsert : ∀ (acc : List NodeDefinition) n, acc.Pairwise (Sorted.Before (·.id.value)) →
      (acc.orderedInsert (fun a b => a.id.value ≤ b.id.value) n).Pairwise (Sorted.Before (·.id.value)) :=
    fun acc n hacc => List.Pairwise.orderedInsert (r := Sorted.Before fun n : NodeDefinition => n.id.value) n acc hacc
  have hedgeInsert : ∀ (acc : List Edge) e, acc.Pairwise (Sorted.Before edgeKey) →
      (acc.orderedInsert (fun a b => keyLe a b = true) e).Pairwise (Sorted.Before edgeKey) := by
    have : Std.Total fun a b => keyLe a b = true :=
      ⟨fun a b => by simpa only [keyLe_iff] using Std.Total.total (r := Sorted.Before edgeKey) a b⟩
    have : IsTrans Edge fun a b => keyLe a b = true :=
      ⟨fun a b c hab hbc => keyLe_iff.mpr (le_trans (keyLe_iff.mp hab) (keyLe_iff.mp hbc))⟩
    intro acc e hacc
    exact (List.Pairwise.orderedInsert e acc (hacc.imp keyLe_iff.mpr)).imp keyLe_iff.mp
  have hid : (nodes.map (·.id.value)).Nodup := by
    have hmap : nodes.map (·.id.value) = (nodes.map (·.id)).map GraphNodeId.value := by simp
    rw [hmap]
    exact hwell.unique.map fun a b hab => by
      cases a
      cases b
      exact congrArg GraphNodeId.mk hab
  have hkeysNodup : (edges.map edgeKey).Nodup :=
    List.pairwise_map.mpr (hkeys.imp fun hclash hsame => hclash (sameKey_of_edgeKey hsame))
  exact {
    start_eq := rfl
    nodes_perm := hn
    nodes_sorted := foldlM_insert_pairwise (f := insertNode) (fun _ _ _ => insertNode_ok) hnodeInsert .nil hnodes
    nodes_unique := (hn.map _).nodup_iff.mpr hid
    branches_unique := fun n hmem bs hbs => (hwell.branches n (hn.mem_iff.mp hmem) bs hbs).2.2
    edges_perm := he
    edges_sorted := foldlM_insert_pairwise (f := insertEdge nodeMap) (fun _ _ _ => insertEdge_ok) hedgeInsert
      .nil hedges
    edges_unique := (he.map _).nodup_iff.mpr hkeysNodup
    digest_eq := definitionDigest_eq }

/-! ## Equal bytes, equal graphs -/

theorem readable_of_named (h : Named start nodes edges) {n : NodeDefinition} (hn : n ∈ nodes) : Readable n where
  id_short := GraphNodeId_short (h.node_ok n hn)
  branches_short := by
    intro t ht
    cases hkind : n.kind with
    | decision bs =>
      rw [hkind] at ht
      obtain ⟨b, hb, rfl⟩ := List.mem_map.mp ht
      exact ⟨b.value, GraphBranchId_short (h.branch_ok n hn bs hkind b (mem_sortedBranches.mp hb)), rfl⟩
    | _ =>
      rw [hkind] at ht
      cases ht

theorem readableEdge_of_named (h : Named start nodes edges) {e : Edge} (he : e ∈ edges) : ReadableEdge e where
  source_short := GraphNodeId_short (h.source_ok e he)
  label_short := fun b hb => GraphBranchId_short (h.label_ok e he b hb)
  target_short := GraphNodeId_short (h.target_ok e he)

theorem normal_sorted (h : Built sha256 start nodes edges d) :
    (d.nodes.map normal).Pairwise (Sorted.Before (·.id.value)) := by
  rw [List.pairwise_map]
  exact h.nodes_sorted.imp fun hab => by simpa only [Sorted.Before, normal_id] using hab

theorem normal_unique (h : Built sha256 start nodes edges d) :
    ((d.nodes.map normal).map (·.id.value)).Nodup := by
  have hmap : (d.nodes.map normal).map (·.id.value) = d.nodes.map (·.id.value) := by
    simp [Function.comp_def, normal_id]
  rw [hmap]
  exact h.nodes_unique

theorem Named.of_subset (h : Named start nodes edges) (hn : nodes' ⊆ nodes) (he : edges' ⊆ edges) :
    Named start nodes' edges' where
  start_ok := h.start_ok
  node_ok := fun n hmem => h.node_ok n (hn hmem)
  branch_ok := fun n hmem => h.branch_ok n (hn hmem)
  source_ok := fun e hmem => h.source_ok e (he hmem)
  label_ok := fun e hmem => h.label_ok e (he hmem)
  target_ok := fun e hmem => h.target_ok e (he hmem)

/-- In the maps the same graph is the same list. -/
theorem sameGraph_iff (h : Built sha256 start nodes edges d) (h' : Built sha256 start' nodes' edges' d') :
    SameGraph start start' nodes nodes' edges edges' ↔
      d.start = d'.start ∧ d.nodes.map normal = d'.nodes.map normal ∧ d.edges = d'.edges := by
  have hsame : ∀ {n n' : NodeDefinition}, n ∈ nodes → n' ∈ nodes' → (normal n = normal n' ↔ n.Same n') := by
    intro n n' hn hn'
    exact normal_eq_iff_same (h.branches_unique n (h.nodes_perm.mem_iff.mpr hn))
      (h'.branches_unique n' (h'.nodes_perm.mem_iff.mpr hn'))
  rw [h.start_eq, h'.start_eq]
  constructor
  · intro hgraph
    refine ⟨hgraph.start_eq, ?_, ?_⟩
    · refine Sorted.eq_of_mem_iff (normal_sorted h) (normal_sorted h') (normal_unique h) (normal_unique h')
        fun m => ?_
      constructor
      · intro hm
        obtain ⟨n, hn, rfl⟩ := List.mem_map.mp hm
        have hmem := h.nodes_perm.mem_iff.mp hn
        obtain ⟨n', hn', hnn⟩ := hgraph.nodes_sub n hmem
        exact List.mem_map.mpr ⟨n', h'.nodes_perm.mem_iff.mpr hn', ((hsame hmem hn').mpr hnn).symm⟩
      · intro hm
        obtain ⟨n', hn', rfl⟩ := List.mem_map.mp hm
        have hmem := h'.nodes_perm.mem_iff.mp hn'
        obtain ⟨n, hn, hnn⟩ := hgraph.nodes_sup n' hmem
        exact List.mem_map.mpr ⟨n, h.nodes_perm.mem_iff.mpr hn, (hsame hn hmem).mpr hnn⟩
    · exact Sorted.eq_of_mem_iff h.edges_sorted h'.edges_sorted h.edges_unique h'.edges_unique fun e => by
        rw [h.edges_perm.mem_iff, h'.edges_perm.mem_iff]
        exact hgraph.edges_iff e
  · rintro ⟨hstart, hnodes, hedges⟩
    refine ⟨hstart, fun n hn => ?_, fun n' hn' => ?_, fun e => ?_⟩
    · have hmem : normal n ∈ d'.nodes.map normal :=
        hnodes ▸ List.mem_map_of_mem (h.nodes_perm.mem_iff.mpr hn)
      obtain ⟨n', hn', heq⟩ := List.mem_map.mp hmem
      have hmem' := h'.nodes_perm.mem_iff.mp hn'
      exact ⟨n', hmem', (hsame hn hmem').mp heq.symm⟩
    · have hmem : normal n' ∈ d.nodes.map normal :=
        hnodes ▸ List.mem_map_of_mem (h'.nodes_perm.mem_iff.mpr hn')
      obtain ⟨n, hn, heq⟩ := List.mem_map.mp hmem
      have hmem' := h.nodes_perm.mem_iff.mp hn
      exact ⟨n, hmem', (hsame hmem' hn').mp heq⟩
    · rw [← h.edges_perm.mem_iff, hedges, h'.edges_perm.mem_iff]

/-- **The digest identifies the graph.** What is fed to the hash for two accepted definitions is
equal exactly if start, nodes and labelled edges are, however they were listed. If these two inputs do
not collide, a run of the one graph is refused with another one, and goes on with the same one. -/
theorem digestInput_eq_iff (h : new sha256 start nodes edges = .ok d)
    (h' : new sha256 start' nodes' edges' = .ok d') (hnamed : Named start nodes edges)
    (hnamed' : Named start' nodes' edges') :
    (digestInput d.start d.nodes d.edges = digestInput d'.start d'.nodes d'.edges ↔
      SameGraph start start' nodes nodes' edges edges') ∧
    (d.digest = sha256 (digestInput d.start d.nodes d.edges) ∧
      d'.digest = sha256 (digestInput d'.start d'.nodes d'.edges)) ∧
    ((d.digest = d'.digest →
        digestInput d.start d.nodes d.edges = digestInput d'.start d'.nodes d'.edges) →
      ∀ version recovered, recovered.recoveryContract = .graph version d.digest →
        (SameGraph start start' nodes nodes' edges edges' →
          resumeNode version d'.digest recovered = resumeNode version d.digest recovered) ∧
        (¬ SameGraph start start' nodes nodes' edges edges' →
          resumeNode version d'.digest recovered = .error .recoveryMismatch)) := by
  have hb := built_of_new h
  have hb' := built_of_new h'
  have hreadable : ∀ n ∈ d.nodes, Readable n := fun n hn =>
    readable_of_named hnamed (hb.nodes_perm.mem_iff.mp hn)
  have hreadable' : ∀ n ∈ d'.nodes, Readable n := fun n hn =>
    readable_of_named hnamed' (hb'.nodes_perm.mem_iff.mp hn)
  have hinput : digestInput d.start d.nodes d.edges = digestInput d'.start d'.nodes d'.edges ↔
      SameGraph start start' nodes nodes' edges edges' := by
    rw [sameGraph_iff hb hb']
    constructor
    · intro heq
      obtain ⟨hstart, hnodes, hedges⟩ := digestInput_inj
        (by rw [hb.start_eq]; exact GraphNodeId_short hnamed.start_ok)
        (by rw [hb'.start_eq]; exact GraphNodeId_short hnamed'.start_ok) hreadable hreadable'
        (fun e he => readableEdge_of_named hnamed (hb.edges_perm.mem_iff.mp he))
        (fun e he => readableEdge_of_named hnamed' (hb'.edges_perm.mem_iff.mp he)) heq
      exact ⟨hstart, Sorted.map_eq_of_map_eq (fun n hn n' hn' =>
        (nodeBytes_inj (hreadable n hn) (hreadable' n' hn')).mp) hnodes, hedges⟩
    · rintro ⟨hstart, hnodes, hedges⟩
      have hbytes := Sorted.map_eq_of_map_eq (g := nodeBytes) (fun n hn n' hn' =>
        (nodeBytes_inj (hreadable n hn) (hreadable' n' hn')).mpr) hnodes
      simp only [digestInput, List.flatMap_def, hstart, hbytes, hedges]
  refine ⟨hinput, ⟨hb.digest_eq, hb'.digest_eq⟩, fun hcollision version recovered hcontract => ⟨?_, ?_⟩⟩
  · intro hgraph
    rw [hb.digest_eq, hb'.digest_eq, hinput.mpr hgraph]
  · intro hdiffer
    have hne : d.digest ≠ d'.digest := fun heq => hdiffer (hinput.mp (hcollision heq))
    have hmismatch : recovered.recoveryContract ≠ .graph version d'.digest := by
      rw [hcontract]
      exact fun heq => hne (RecoveryContract.graph.inj heq).2
    simp [resumeNode, hmismatch]

/-! ### A decision between two ends, listed in two ways -/

def twoEnds : List NodeDefinition :=
  [⟨⟨"a"⟩, .decision [⟨"yes"⟩, ⟨"no"⟩], .deterministicBoundary⟩, ⟨⟨"b"⟩, .complete, .never⟩,
    ⟨⟨"c"⟩, .fail, .never⟩]

def twoEnds' : List NodeDefinition :=
  [⟨⟨"c"⟩, .fail, .never⟩, ⟨⟨"a"⟩, .decision [⟨"no"⟩, ⟨"yes"⟩], .deterministicBoundary⟩,
    ⟨⟨"b"⟩, .complete, .never⟩]

def twoEdges : List Edge := [⟨⟨"a"⟩, .branch ⟨"yes"⟩, ⟨"b"⟩⟩, ⟨⟨"a"⟩, .branch ⟨"no"⟩, ⟨"c"⟩⟩]

/-- The decision the other way around. -/
def crossedEdges : List Edge := [⟨⟨"a"⟩, .branch ⟨"yes"⟩, ⟨"c"⟩⟩, ⟨⟨"a"⟩, .branch ⟨"no"⟩, ⟨"b"⟩⟩]

/-- A hash that tells these graphs apart. -/
def plainHash (bytes : List UInt8) : Bytes32 :=
  BitVec.ofNat 256 (bytes.foldl (fun n b => 257 * n + b.toNat + 1) 0)

/-- What the log of a run in the decision recovers to. -/
def decidingRun (digest : Bytes32) : Except RecoveryError RecoveryDisposition :=
  recoverLoadedRun plainCodec ⟨sampleRecord (.graph 1 digest), .new (.initial (sampleRecord (.graph 1 digest))),
    sampleLog [.runStarted 1000, .graph (.graphStarted digest ⟨"a"⟩ .decision .deterministicBoundary),
      .graph (.graphNodeEntered ⟨3⟩ ⟨"a"⟩ .decision .deterministicBoundary 1 8)]⟩ 2000 0

/-- It is a run that goes on in the decision, with the same graph. -/
def goesOn (digest : Bytes32) : RecoveryDisposition → Bool
  | .resumable recovered => recovered.recoveryContract = .graph 1 digest &&
      isOkAnd (resumeNode 1 digest recovered) fun node => node = ⟨⟨"a"⟩, some ⟨3⟩⟩
  | _ => false

theorem goesOn_resumable {digest : Bytes32} {disposition : RecoveryDisposition}
    (h : goesOn digest disposition = true) : ∃ recovered, disposition = .resumable recovered ∧
      recovered.recoveryContract = .graph 1 digest ∧
      resumeNode 1 digest recovered = .ok ⟨⟨"a"⟩, some ⟨3⟩⟩ := by
  unfold goesOn at h
  split at h
  · rename_i recovered
    obtain ⟨hcontract, hnode⟩ := Bool.and_eq_true_iff.mp h
    obtain ⟨node, hok, heq⟩ := isOkAnd_iff.mp hnode
    rw [of_decide_eq_true heq] at hok
    exact ⟨recovered, rfl, of_decide_eq_true hcontract, hok⟩
  · cases h

/-- A run of the graph goes on where it was, if the graph is listed otherwise, and is refused if the
decision is crossed. -/
theorem digestInput_eq_reordered : ∃ d d' other recovered,
    new plainHash ⟨"a"⟩ twoEnds twoEdges = .ok d ∧
    new plainHash ⟨"a"⟩ twoEnds' twoEdges.reverse = .ok d' ∧
    new plainHash ⟨"a"⟩ twoEnds crossedEdges = .ok other ∧
      digestInput d.start d.nodes d.edges = digestInput d'.start d'.nodes d'.edges ∧
      decidingRun d.digest = .ok (.resumable recovered) ∧
      resumeNode 1 d'.digest recovered = .ok ⟨⟨"a"⟩, some ⟨3⟩⟩ ∧
      resumeNode 1 other.digest recovered = .error .recoveryMismatch := by
  have hnew : new plainHash ⟨"a"⟩ twoEnds twoEdges =
      .ok ⟨⟨"a"⟩, twoEnds, twoEdges.reverse, plainHash (digestInput ⟨"a"⟩ twoEnds twoEdges.reverse)⟩ := by
    decide +kernel
  have hnew' : new plainHash ⟨"a"⟩ twoEnds' twoEdges.reverse =
      .ok ⟨⟨"a"⟩, [twoEnds'[1], twoEnds'[2], twoEnds'[0]], twoEdges.reverse,
        plainHash (digestInput ⟨"a"⟩ twoEnds twoEdges.reverse)⟩ := by
    decide +kernel
  have hother : new plainHash ⟨"a"⟩ twoEnds crossedEdges =
      .ok ⟨⟨"a"⟩, twoEnds, crossedEdges.reverse, plainHash (digestInput ⟨"a"⟩ twoEnds crossedEdges.reverse)⟩ := by
    decide +kernel
  have hnamed : Named ⟨"a"⟩ (twoEnds ++ twoEnds') (twoEdges ++ crossedEdges) := by
    constructor
    case branch_ok =>
      simp only [twoEnds, twoEnds', List.cons_append, List.nil_append, List.forall_mem_cons,
        NodeKind.decision.injEq, forall_eq', reduceCtorEq, false_implies, implies_true, List.not_mem_nil,
        and_true]
      decide +kernel
    case label_ok =>
      simp only [twoEdges, crossedEdges, List.cons_append, List.nil_append, List.forall_mem_cons,
        GraphTransitionKey.branch.injEq, forall_eq', List.not_mem_nil, false_implies, implies_true, and_true]
      decide +kernel
    all_goals decide +kernel
  have hgraph : SameGraph ⟨"a"⟩ ⟨"a"⟩ twoEnds twoEnds' twoEdges twoEdges.reverse := by
    refine ⟨rfl, ?_, ?_, fun e => List.mem_reverse.symm⟩
    all_goals
      simp only [twoEnds, twoEnds', List.forall_mem_cons, List.exists_mem_cons_iff]
      simp [NodeDefinition.Same, NodeKind.Same, or_comm]
  have hfirst := hnamed.of_subset (List.subset_append_left _ _) (List.subset_append_left _ _)
  have hsame := digestInput_eq_iff hnew hnew' hfirst (hnamed.of_subset (List.subset_append_right _ _)
    (List.reverse_subset.mpr (List.subset_append_left _ _)))
  have hcrossed := digestInput_eq_iff hnew hother hfirst
    (hnamed.of_subset (List.subset_append_left _ _) (List.subset_append_right _ _))
  obtain ⟨disposition, hrecovers, hgoes⟩ := isOkAnd_iff.mp (show isOkAnd
    (decidingRun (plainHash (digestInput ⟨"a"⟩ twoEnds twoEdges.reverse)))
    (goesOn (plainHash (digestInput ⟨"a"⟩ twoEnds twoEdges.reverse))) = true by decide +kernel)
  obtain ⟨recovered, rfl, hcontract, hnode⟩ := goesOn_resumable hgoes
  refine ⟨_, _, _, recovered, hnew, hnew', hother, hsame.1.mpr hgraph, hrecovers, ?_, ?_⟩
  · rw [(hsame.2.2 (fun _ => hsame.1.mpr hgraph) 1 recovered hcontract).1 hgraph]
    exact hnode
  · refine (hcrossed.2.2 (fun heq => ?_) 1 recovered hcontract).2 (mt hcrossed.1.mpr ?_)
    · exact absurd heq (by decide +kernel)
    · decide +kernel

end GraphDefinition

end LocalAgent
