import LocalAgent.Harness.Arguments
import LocalAgent.Lib.Worklist

/-!
# The limits on arguments, as sums (`agent-harness/src/action.rs:577-612`)

`validate_argument_limits` walks over the arguments with a stack and stops at the first counter that is
too high. What it accepts is what is small: the text, the height, and the numbers of values, of keys and
of elements in the whole tree (`argument_limits_iff`).
-/
namespace LocalAgent

open JsonText String Worklist

/-! ## Sums over a value -/

namespace Json

/-- The values in an array or an object. -/
def parts : Json → List Json
  | .array elements => elements
  | .object entries => entries.map Prod.snd
  | _ => []

mutual

/-- The sum of `own` over a value and all values in it. -/
def total (own : Json → Nat) : Json → Nat
  | .array elements => own (.array elements) + totalElements own elements
  | .object entries => own (.object entries) + totalEntries own entries
  | value => own value

def totalElements (own : Json → Nat) : List Json → Nat
  | [] => 0
  | value :: rest => total own value + totalElements own rest

def totalEntries (own : Json → Nat) : List (String × Json) → Nat
  | [] => 0
  | (_, value) :: rest => total own value + totalEntries own rest

end

mutual

/-- One more than the deepest value in it. -/
def depth : Json → Nat
  | .array elements => 1 + depthElements elements
  | .object entries => 1 + depthEntries entries
  | _ => 1

def depthElements : List Json → Nat
  | [] => 0
  | value :: rest => max (depth value) (depthElements rest)

def depthEntries : List (String × Json) → Nat
  | [] => 0
  | (_, value) :: rest => max (depth value) (depthEntries rest)

end

/-- The keys of the value itself. -/
def ownKeys : Json → Nat
  | .object entries => entries.length
  | _ => 0

/-- The elements of the value itself. -/
def ownElements : Json → Nat
  | .array elements => elements.length
  | _ => 0

def nodes (value : Json) : Nat := value.total fun _ => 1

def objectKeys (value : Json) : Nat := value.total ownKeys

def arrayElements (value : Json) : Nat := value.total ownElements

end Json

/-- Arguments that are small enough. -/
structure WithinLimits (formatFloat : UInt64 → List Char) (arguments : Json) : Prop where
  bytes : utf8Len (arguments.text formatFloat) ≤ maxActionArgumentBytes
  depth : arguments.depth ≤ maxActionArgumentDepth
  nodes : arguments.nodes ≤ maxActionArgumentNodes
  keys : arguments.objectKeys ≤ maxActionArgumentKeys
  elements : arguments.arrayElements ≤ maxActionArgumentArrayElements

/-! ## Values as trees -/

theorem totalElements_eq (own : Json → Nat) (elements : List Json) :
    Json.totalElements own elements = (elements.map (Json.total own)).sum := by
  induction elements with
  | nil => rfl
  | cons value rest ih => simp [Json.totalElements, ih]

theorem totalEntries_eq (own : Json → Nat) (entries : List (String × Json)) :
    Json.totalEntries own entries = ((entries.map Prod.snd).map (Json.total own)).sum := by
  induction entries with
  | nil => rfl
  | cons entry rest ih => simp [Json.totalEntries, ih]

theorem Json.total_eq (own : Json → Nat) (value : Json) :
    value.total own = own value + (value.parts.map (Json.total own)).sum := by
  cases value with
  | array elements => simp [Json.total, Json.parts, totalElements_eq]
  | object entries => rw [Json.total, Json.parts, totalEntries_eq]
  | _ => simp [Json.total, Json.parts]

theorem depthElements_le {elements : List Json} {n : Nat} :
    Json.depthElements elements ≤ n ↔ ∀ value ∈ elements, value.depth ≤ n := by
  induction elements with
  | nil => simp [Json.depthElements]
  | cons value rest ih => simp [Json.depthElements, ih]

theorem depthEntries_le {entries : List (String × Json)} {n : Nat} :
    Json.depthEntries entries ≤ n ↔ ∀ value ∈ entries.map Prod.snd, value.depth ≤ n := by
  induction entries with
  | nil => simp [Json.depthEntries]
  | cons entry rest ih => simp [Json.depthEntries, ih]

theorem Json.depth_le (value : Json) (n : Nat) :
    value.depth ≤ n + 1 ↔ ∀ part ∈ value.parts, part.depth ≤ n := by
  cases value with
  | array elements =>
    rw [Json.depth, Json.parts, ← depthElements_le]
    omega
  | object entries =>
    rw [Json.depth, Json.parts, ← depthEntries_le]
    omega
  | _ => simp [Json.depth, Json.parts]

theorem Json.depth_pos (value : Json) : 1 ≤ value.depth := by
  cases value <;> simp [Json.depth]

/-! ## The walk -/

inductive ArgumentCounter
  | nodes
  | keys
  | elements

/-- What a value adds to a counter. -/
def ArgumentCounter.own : ArgumentCounter → Json → Nat
  | .nodes => fun _ => 1
  | .keys => Json.ownKeys
  | .elements => Json.ownElements

def ArgumentCounter.limit : ArgumentCounter → Nat
  | .nodes => maxActionArgumentNodes
  | .keys => maxActionArgumentKeys
  | .elements => maxActionArgumentArrayElements

/-- The walk of `validate_argument_limits`, whatever it takes from its stack. -/
abbrev ArgumentWalk : (ArgumentCounter → Nat) → List (Json × Nat) → Bool → Prop :=
  Walk Json.parts ArgumentCounter.own ArgumentCounter.limit maxActionArgumentDepth

theorem json_measured :
    Measured Json.parts ArgumentCounter.own (fun i => Json.total i.own) Json.depth where
  total i value := Json.total_eq i.own value
  height_pos := Json.depth_pos
  height_le := Json.depth_le

/-- The counters of the loop, which counts the nodes down. -/
def loopCounters (nodes objectKeys arrayElements : Nat) : ArgumentCounter → Nat
  | .nodes => maxActionArgumentNodes - nodes
  | .keys => objectKeys
  | .elements => arrayElements

/-- What the loop goes on with after a value it does not refuse. -/
theorem argumentLoop_next {nodes keys elements keys' elements' depth : Nat} {value : Json}
    {stack : List (Json × Nat)} {accepted : Bool} (hnodes : nodes + 1 ≤ maxActionArgumentNodes)
    (hkeys : keys' = keys + value.ownKeys) (helements : elements' = elements + value.ownElements)
    (hwithin : depth ≤ maxActionArgumentDepth ∧ keys' ≤ maxActionArgumentKeys ∧
      elements' ≤ maxActionArgumentArrayElements)
    (h : ArgumentWalk (loopCounters nodes keys' elements')
      ((value.parts.map fun part => (part, depth + 1)).reverse ++ stack) accepted) :
    ArgumentWalk (loopCounters (nodes + 1) keys elements) ((value, depth) :: stack) accepted := by
  have hcounters : (fun i => loopCounters (nodes + 1) keys elements i + i.own value) =
      loopCounters nodes keys' elements' := by
    funext i
    cases i with
    | nodes => simp only [loopCounters, ArgumentCounter.own]; omega
    | keys => exact hkeys.symm
    | elements => exact helements.symm
  refine .visit (.refl _) ⟨hwithin.1, fun i => ?_⟩ ?_
  · have hcounter : loopCounters (nodes + 1) keys elements i + i.own value =
        loopCounters nodes keys' elements' i := congrFun hcounters i
    rw [hcounter]
    cases i with
    | nodes => simp only [loopCounters, ArgumentCounter.limit]; omega
    | keys => exact hwithin.2.1
    | elements => exact hwithin.2.2
  · rw [hcounters]
    exact h.perm ((List.reverse_perm _).append_right stack)

/-- The loop is a walk: it takes what was put on the list last. -/
theorem argumentLoop_walk {nodes keys elements : Nat} {stack : List (Json × Nat)}
    (hnodes : nodes ≤ maxActionArgumentNodes) (hkeys : keys ≤ maxActionArgumentKeys)
    (helements : elements ≤ maxActionArgumentArrayElements) :
    ArgumentWalk (loopCounters nodes keys elements) stack
      (argumentLoop nodes stack keys elements).isOk := by
  induction nodes generalizing stack keys elements with
  | zero =>
    cases stack with
    | nil => exact .done
    | cons x stack =>
      refine .refuse (.refl _) fun hwithin => ?_
      have hle := hwithin.2 .nodes
      simp only [loopCounters, ArgumentCounter.own, ArgumentCounter.limit] at hle
      omega
  | succ nodes ih =>
    match stack with
    | [] => exact .done
    | (value, depth) :: stack =>
      have hscalar : value.parts = [] → value.ownKeys = 0 → value.ownElements = 0 →
          depth ≤ maxActionArgumentDepth →
          ArgumentWalk (loopCounters (nodes + 1) keys elements) ((value, depth) :: stack)
            (argumentLoop nodes stack keys elements).isOk := by
        intro hparts hown howned hdepth
        refine argumentLoop_next hnodes (by rw [hown]; rfl) (by rw [howned]; rfl)
          ⟨hdepth, hkeys, helements⟩ ?_
        rw [hparts]
        exact ih (by omega) hkeys helements
      rw [argumentLoop.eq_def]
      simp only
      by_cases hdepth : depth > maxActionArgumentDepth
      · rw [if_pos hdepth]
        exact .refuse (.refl _) fun hwithin => absurd hwithin.1 (Nat.not_le.mpr hdepth)
      · rw [if_neg hdepth]
        have hle := Nat.not_lt.mp hdepth
        cases value with
        | object entries =>
          simp only
          by_cases hover : keys + entries.length > maxActionArgumentKeys
          · rw [if_pos hover]
            exact .refuse (.refl _) fun hwithin => absurd (hwithin.2 .keys) (Nat.not_le.mpr hover)
          · rw [if_neg hover]
            refine argumentLoop_next hnodes rfl rfl ⟨hle, Nat.not_lt.mp hover, helements⟩ ?_
            rw [Json.parts, List.map_map]
            exact ih (by omega) (Nat.not_lt.mp hover) helements
        | array items =>
          simp only
          by_cases hover : elements + items.length > maxActionArgumentArrayElements
          · rw [if_pos hover]
            exact .refuse (.refl _) fun hwithin =>
              absurd (hwithin.2 .elements) (Nat.not_le.mpr hover)
          · rw [if_neg hover]
            refine argumentLoop_next hnodes rfl rfl ⟨hle, hkeys, Nat.not_lt.mp hover⟩ ?_
            exact ih (by omega) hkeys (Nat.not_lt.mp hover)
        | _ => exact hscalar rfl rfl rfl hle

/-- The limits on the walk are limits on sums. -/
theorem within_start {arguments : Json} :
    Within (fun i => Json.total (ArgumentCounter.own i)) Json.depth ArgumentCounter.limit
        maxActionArgumentDepth (fun _ => 0) [(arguments, 1)] ↔
      arguments.depth ≤ maxActionArgumentDepth ∧ arguments.nodes ≤ maxActionArgumentNodes ∧
        arguments.objectKeys ≤ maxActionArgumentKeys ∧
        arguments.arrayElements ≤ maxActionArgumentArrayElements := by
  unfold Within
  simp only [List.map_cons, List.map_nil, List.sum_cons, List.sum_nil, Nat.zero_add, Nat.add_zero,
    List.forall_mem_singleton]
  constructor
  · rintro ⟨hsums, hdepth⟩
    exact ⟨by omega, hsums .nodes, hsums .keys, hsums .elements⟩
  · rintro ⟨hdepth, hnodes, hkeys, helements⟩
    refine ⟨fun i => ?_, by omega⟩
    cases i with
    | nodes => exact hnodes
    | keys => exact hkeys
    | elements => exact helements

/-- Every order of the walk gives the same answer. -/
theorem argumentWalk_iff {arguments : Json} {accepted : Bool}
    (h : ArgumentWalk (fun _ => 0) [(arguments, 1)] accepted) :
    accepted = true ↔ arguments.depth ≤ maxActionArgumentDepth ∧
      arguments.nodes ≤ maxActionArgumentNodes ∧ arguments.objectKeys ≤ maxActionArgumentKeys ∧
      arguments.arrayElements ≤ maxActionArgumentArrayElements := by
  rw [h.iff json_measured fun _ => Nat.zero_le _, within_start]

theorem validateArgumentLimits_iff {formatFloat : UInt64 → List Char} {arguments : Json} :
    validateArgumentLimits formatFloat arguments = .ok () ↔ WithinLimits formatFloat arguments := by
  have hstart : loopCounters maxActionArgumentNodes 0 0 = fun _ => 0 := by
    funext i
    cases i <;> rfl
  have hwalk : ArgumentWalk (loopCounters maxActionArgumentNodes 0 0) [(arguments, 1)]
      (argumentLoop maxActionArgumentNodes [(arguments, 1)] 0 0).isOk :=
    argumentLoop_walk (Nat.le_refl _) (Nat.zero_le _) (Nat.zero_le _)
  rw [hstart] at hwalk
  have hiff := argumentWalk_iff hwalk
  have hok : (argumentLoop maxActionArgumentNodes [(arguments, 1)] 0 0).isOk = true ↔
      argumentLoop maxActionArgumentNodes [(arguments, 1)] 0 0 = .ok () := by
    cases argumentLoop maxActionArgumentNodes [(arguments, 1)] 0 0 with
    | ok u => simp [Except.isOk, Except.toBool]
    | error e => simp [Except.isOk, Except.toBool]
  rw [hok] at hiff
  unfold validateArgumentLimits
  by_cases hbytes : utf8Len (arguments.text formatFloat) > maxActionArgumentBytes
  · rw [if_pos hbytes]
    simp only [reduceCtorEq, false_iff]
    intro hwithin
    exact absurd hwithin.bytes (Nat.not_le.mpr hbytes)
  · rw [if_neg hbytes, hiff]
    constructor
    · rintro ⟨hdepth, hnodes, hkeys, helements⟩
      exact ⟨Nat.not_lt.mp hbytes, hdepth, hnodes, hkeys, helements⟩
    · intro hwithin
      exact ⟨hwithin.depth, hwithin.nodes, hwithin.keys, hwithin.elements⟩

/-- **The limits are limits on the whole tree**, in whatever order it is visited. -/
theorem argument_limits_iff (formatFloat : UInt64 → List Char) (arguments : Json) :
    (validateArgumentLimits formatFloat arguments = .ok () ↔ WithinLimits formatFloat arguments) ∧
      ∀ accepted, ArgumentWalk (fun _ => 0) [(arguments, 1)] accepted →
        (accepted = true ↔ arguments.depth ≤ maxActionArgumentDepth ∧
          arguments.nodes ≤ maxActionArgumentNodes ∧ arguments.objectKeys ≤ maxActionArgumentKeys ∧
          arguments.arrayElements ≤ maxActionArgumentArrayElements) :=
  ⟨validateArgumentLimits_iff, fun _ => argumentWalk_iff⟩

end LocalAgent
