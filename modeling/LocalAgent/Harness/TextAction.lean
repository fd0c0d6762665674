import LocalAgent.Core.Raw
import LocalAgent.Harness.Limits
import LocalAgent.Harness.Operations
import LocalAgent.Lib.Sorted
import Mathlib.Data.List.Permutation

/-!
# The decoder of proposed actions (`agent-harness/src/action.rs:310-368`, `:540-575`, `:735-817`)

A model proposes an action as one JSON text. The visitor refuses an object that repeats a key, at any
depth; the envelope is taken apart by removing the members one after the other; and the arguments have to
be within the limits. Together they accept the texts of one form only (`decode_ok_iff`).

The tokenizer is a parameter. It reads what a text denotes, up to its recursion limit (`Tokenizes`).
-/
namespace LocalAgent

/-! ## Tool names (`agent-core/src/tool.rs:13-26`) -/

inductive ToolNameError where
  | empty | surroundingWhitespace | controlCharacter
deriving DecidableEq, Repr

/-- `ToolName::new`. -/
def ToolName.new (value : String) : Except ToolNameError ToolName :=
  if value.isEmpty then .error .empty
  else if Text.trim value ≠ value then .error .surroundingWhitespace
  else if value.toList.any Text.isControl then .error .controlCharacter
  else .ok ⟨value⟩

/-- A name that a tool can have. -/
structure ToolName.Valid (name : ToolName) : Prop where
  ne_empty : name.value ≠ ""
  bare : Text.isBare name.value = true
  plain : ∀ c ∈ name.value.toList, Text.isControl c = false

theorem ToolName.new_iff {value : String} {name : ToolName} :
    ToolName.new value = .ok name ↔ name.value = value ∧ name.Valid := by
  obtain ⟨text⟩ := name
  unfold ToolName.new
  constructor
  · intro h
    split at h
    · cases h
    · rename_i hempty
      split at h
      · cases h
      · rename_i hbare
        split at h
        · cases h
        · rename_i hplain
          obtain rfl := ToolName.mk.inj (Except.ok.inj h)
          refine ⟨rfl, by simpa using hempty, Text.trim_eq_self_iff.mp (not_not.mp hbare), ?_⟩
          simpa using hplain
  · rintro ⟨rfl, hempty, hbare, hplain⟩
    rw [if_neg (by simpa using hempty), if_neg (not_not.mpr (Text.trim_eq_self_iff.mpr hbare)),
      if_neg (by simpa using hplain)]

namespace TextActionDecoder

/-- `MAX_PLANNING_RESPONSE_BYTES`. -/
def maxPlanningResponseBytes : Nat := 16 * 1024

/-! ## The visitor (action.rs:735-817) -/

/-- `serde_json::Number::from_f64`: a number that is finite. -/
def isFinite (bits : UInt64) : Bool := (bits >>> 52) &&& 0x7ff ≠ 0x7ff

mutual

/-- `UniqueJsonVisitor`. -/
def uniqueJson : RawJson → Option Json
  | .null => some .null
  | .bool value => some (.bool value)
  | .number (.float bits) => if isFinite bits then some (.number (.float bits)) else none
  | .number value => some (.number value)
  | .string value => some (.string value)
  | .array elements => (visitSeq elements).map .array
  | .object members => (visitMap members [] []).map .object

def visitSeq : List RawJson → Option (List Json)
  | [] => some []
  | value :: rest =>
    match uniqueJson value with
    | none => none
    | some value => (visitSeq rest).map (value :: ·)

/-- `visit_map`: the keys that were seen and the map so far, which is kept in the order of its keys. A key
that is inserted is new. -/
def visitMap : List (String × RawJson) → List String → List (String × Json) → Option (List (String × Json))
  | [], _, values => some values
  | (key, value) :: rest, keys, values =>
    if keys.contains key then none
    else match uniqueJson value with
      | none => none
      | some value => visitMap rest (key :: keys) (values.orderedInsert (Sorted.Before Prod.fst) (key, value))

end

/-! ## The envelope (action.rs:547-575) -/

/-- `Map::remove`. -/
def removeKey (key : String) (entries : List (String × Json)) : Option (Json × List (String × Json)) :=
  (entries.lookup key).map fun value => (value, entries.eraseP (·.1 = key))

/-- `decode_envelope`. -/
def decodeEnvelope : Json → Except ActionRejectionReason (ToolName × Json)
  | .object root =>
    if root.length ≠ 1 then .error .malformedEnvelope
    else match removeKey "action" root with
      | some (.object action, _) =>
        if action.length ≠ 2 then .error .malformedEnvelope
        else match removeKey "tool" action with
          | some (.string rawToolName, action) =>
            match removeKey "arguments" action with
            | some (.object entries, action) =>
              if !action.isEmpty then .error .malformedEnvelope
              else if rawToolName.utf8ByteSize > maxActionToolNameBytes then .error .securityLimitExceeded
              else match ToolName.new rawToolName with
                | .error _ => .error .invalidToolName
                | .ok toolName => .ok (toolName, .object entries)
            | _ => .error .malformedEnvelope
          | _ => .error .malformedEnvelope
      | _ => .error .malformedEnvelope
  | _ => .error .malformedEnvelope

/-- `TextActionDecoder::decode` (action.rs:313). The two ids that it puts around its result are left to the
caller. -/
def decode (formatFloat : UInt64 → List Char) (tokenize : String → Option RawJson)
    (response : ModelResponse) : Except ActionRejectionReason (ToolName × Json) :=
  match response.output with
  | [.text text] =>
    if (Text.trim text).isEmpty then .error .emptyOutput
    else if text.utf8ByteSize > maxPlanningResponseBytes then .error .responseTooLarge
    else match (tokenize text).bind uniqueJson with
      | none => .error .malformedEnvelope
      | some value =>
        match decodeEnvelope value with
        | .error reason => .error reason
        | .ok (toolName, arguments) =>
          match validateArgumentLimits formatFloat arguments with
          | .error reason => .error reason
          | .ok _ => .ok (toolName, arguments)
  | [] => .error .emptyOutput
  | _ => .error .unsupportedOutputShape

/-! ## What is meant -/

mutual

/-- The value of a text without repeated keys: a map has its keys in order. -/
def valueOf : RawJson → Json
  | .null => .null
  | .bool value => .bool value
  | .number value => .number value
  | .string value => .string value
  | .array elements => .array (valuesOf elements)
  | .object members => .object ((entriesOf members).insertionSort (Sorted.Before Prod.fst))

def valuesOf : List RawJson → List Json
  | [] => []
  | value :: rest => valueOf value :: valuesOf rest

def entriesOf : List (String × RawJson) → List (String × Json)
  | [] => []
  | (key, value) :: rest => (key, valueOf value) :: entriesOf rest

end

/-- The object does not repeat a key. -/
def KeysOnce : RawJson → Prop
  | .object members => (members.map Prod.fst).Nodup
  | _ => True

/-- The number is finite. -/
def Finite : RawJson → Prop
  | .number (.float bits) => isFinite bits = true
  | _ => True

/-- One object with the member `action`, an object of `tool` and `arguments` in any order. -/
def IsEnvelope (raw : RawJson) (tool : String) (arguments : RawJson) : Prop :=
  ∃ members, raw = .object [("action", .object members)] ∧
    members.Perm [("tool", .string tool), ("arguments", arguments)]

/-- `serde_json` reads what a text denotes, if at most 127 arrays and objects are around each other. A
blank text denotes nothing, and a number of a text is finite. -/
structure Tokenizes (denotes : String → RawJson → Prop) (tokenize : String → Option RawJson) : Prop where
  sound : ∀ {text value}, tokenize text = some value → denotes text value
  complete : ∀ {text value}, denotes text value → value.NestedWithin 127 → tokenize text = some value
  not_blank : ∀ {text value}, denotes text value → Text.trim text ≠ ""
  finite : ∀ {text value}, denotes text value → value.All Finite

variable {elements : List RawJson} {members : List (String × RawJson)} {raw : RawJson} {value : Json}
  {keys : List String} {values entries : List (String × Json)}

theorem valuesOf_eq : valuesOf elements = elements.map valueOf := by
  induction elements with
  | nil => rfl
  | cons e rest ih => rw [valuesOf, ih, List.map_cons]

theorem entriesOf_eq : entriesOf members = members.map fun m => (m.1, valueOf m.2) := by
  induction members with
  | nil => rfl
  | cons m rest ih => rw [entriesOf, ih, List.map_cons]

/-! ## What the visitor accepts -/

/-- **The visitor** reads what has no repeated key and no number that is not finite, as its value. -/
def Reads (raw : RawJson) : Prop :=
  ∀ value, uniqueJson raw = some value ↔ (raw.All KeysOnce ∧ raw.All Finite) ∧ value = valueOf raw

theorem visitSeq_iff (h : ∀ e ∈ elements, Reads e) {vs : List Json} :
    visitSeq elements = some vs ↔
      (∀ e ∈ elements, e.All KeysOnce ∧ e.All Finite) ∧ vs = elements.map valueOf := by
  induction elements generalizing vs with
  | nil => simp [visitSeq, eq_comm]
  | cons e rest ih =>
    rw [List.forall_mem_cons] at h
    rw [visitSeq, List.forall_mem_cons]
    constructor
    · intro hvisit
      split at hvisit
      · cases hvisit
      · rename_i value hvalue
        obtain ⟨vs', hrest, rfl⟩ := Option.map_eq_some_iff.mp hvisit
        obtain ⟨hall, rfl⟩ := (h.1 value).mp hvalue
        obtain ⟨hallRest, rfl⟩ := (ih h.2).mp hrest
        exact ⟨⟨hall, hallRest⟩, rfl⟩
    · rintro ⟨⟨hall, hallRest⟩, rfl⟩
      rw [(h.1 _).mpr ⟨hall, rfl⟩, (ih h.2).mpr ⟨hallRest, rfl⟩]
      rfl

theorem visitMap_iff (h : ∀ m ∈ members, Reads m.2) :
    visitMap members keys values = some entries ↔
      ((members.map Prod.fst).Nodup ∧ (∀ m ∈ members, m.1 ∉ keys) ∧
        ∀ m ∈ members, m.2.All KeysOnce ∧ m.2.All Finite) ∧
      entries = (entriesOf members).foldl
        (fun sorted e => sorted.orderedInsert (Sorted.Before Prod.fst) e) values := by
  induction members generalizing keys values with
  | nil => simp [visitMap, entriesOf, eq_comm]
  | cons m rest ih =>
    obtain ⟨key, raw⟩ := m
    rw [List.forall_mem_cons] at h
    rw [visitMap, entriesOf, List.foldl_cons, List.map_cons, List.nodup_cons, List.forall_mem_cons,
      List.forall_mem_cons]
    constructor
    · intro hvisit
      split at hvisit
      · cases hvisit
      · rename_i hnew
        split at hvisit
        · cases hvisit
        · rename_i value hvalue
          obtain ⟨hall, rfl⟩ := (h.1 value).mp hvalue
          obtain ⟨⟨hnodup, hkeys, hallRest⟩, rfl⟩ := (ih h.2).mp hvisit
          refine ⟨⟨⟨fun hmem => ?_, hnodup⟩, ⟨by simpa using hnew, fun m hm hkey => ?_⟩, hall, hallRest⟩, rfl⟩
          · obtain ⟨m, hm, rfl⟩ := List.mem_map.mp hmem
            exact hkeys m hm List.mem_cons_self
          · exact hkeys m hm (List.mem_cons_of_mem key hkey)
    · rintro ⟨⟨⟨hfirst, hnodup⟩, ⟨hnew, hkeys⟩, hall, hallRest⟩, rfl⟩
      rw [if_neg (by simpa using hnew), (h.1 _).mpr ⟨hall, rfl⟩]
      refine (ih h.2).mpr ⟨⟨hnodup, fun m hm hkey => ?_, hallRest⟩, rfl⟩
      rcases List.mem_cons.mp hkey with hkey | hkey
      · exact hfirst (List.mem_map.mpr ⟨m, hm, hkey⟩)
      · exact hkeys m hm hkey

theorem uniqueJson_iff : Reads raw := by
  induction raw using RawJson.induct with
  | null => simp [Reads, uniqueJson, valueOf, KeysOnce, Finite, eq_comm]
  | bool b => simp [Reads, uniqueJson, valueOf, KeysOnce, Finite, eq_comm]
  | number n =>
    intro value
    cases n with
    | float bits =>
      by_cases hfinite : isFinite bits = true
      · simp [uniqueJson, valueOf, KeysOnce, Finite, hfinite, eq_comm]
      · simp [uniqueJson, KeysOnce, Finite, hfinite]
    | _ => simp [uniqueJson, valueOf, KeysOnce, Finite, eq_comm]
  | string text => simp [Reads, uniqueJson, valueOf, KeysOnce, Finite, eq_comm]
  | array elements ih =>
    intro value
    rw [uniqueJson, Option.map_eq_some_iff, valueOf, valuesOf_eq]
    simp only [visitSeq_iff ih, RawJson.all_array, KeysOnce, Finite, true_and, ← forall₂_and]
    constructor
    · rintro ⟨vs, ⟨hall, rfl⟩, rfl⟩
      exact ⟨hall, rfl⟩
    · rintro ⟨hall, rfl⟩
      exact ⟨_, ⟨hall, rfl⟩, rfl⟩
  | object members ih =>
    intro value
    rw [uniqueJson, Option.map_eq_some_iff, valueOf]
    simp only [visitMap_iff ih, RawJson.all_object, KeysOnce, Finite, true_and]
    have hkeys : (entriesOf members).map Prod.fst = members.map Prod.fst := by
      rw [entriesOf_eq, List.map_map]
      rfl
    constructor
    · rintro ⟨entries, ⟨⟨hnodup, -, hall⟩, rfl⟩, rfl⟩
      rw [Sorted.foldl_orderedInsert (by rwa [hkeys])]
      exact ⟨⟨⟨hnodup, fun m hm => (hall m hm).1⟩, fun m hm => (hall m hm).2⟩, rfl⟩
    · rintro ⟨⟨⟨hnodup, hall⟩, hfinite⟩, rfl⟩
      refine ⟨_, ⟨⟨hnodup, fun m _ => List.not_mem_nil, fun m hm => ⟨hall m hm, hfinite m hm⟩⟩, rfl⟩, ?_⟩
      rw [Sorted.foldl_orderedInsert (by rwa [hkeys])]

/-! ## The envelope -/

variable {key : String} {name : ToolName} {arguments : Json}

theorem removeKey_single {e : String × Json} {rest : List (String × Json)} :
    removeKey key [e] = some (value, rest) ↔ e = (key, value) ∧ rest = [] := by
  obtain ⟨k, v⟩ := e
  by_cases hkey : k = key
  · subst hkey
    simp [removeKey, eq_comm]
  · have hne : (key == k) = false := beq_eq_false_iff_ne.mpr (Ne.symm hkey)
    simp [removeKey, hkey, List.lookup_cons, hne]

theorem removeKey_pair {e e' : String × Json} {rest : List (String × Json)} :
    removeKey key [e, e'] = some (value, rest) ↔
      (e = (key, value) ∧ rest = [e']) ∨ (e.1 ≠ key ∧ e' = (key, value) ∧ rest = [e]) := by
  obtain ⟨k, v⟩ := e
  obtain ⟨k', v'⟩ := e'
  by_cases hkey : k = key
  · subst hkey
    simp [removeKey, eq_comm]
  · by_cases hkey' : k' = key
    · subst hkey'
      have hne : (k' == k) = false := beq_eq_false_iff_ne.mpr (Ne.symm hkey)
      simp [removeKey, hkey, List.lookup_cons, hne, eq_comm]
    · have hne : (key == k) = false := beq_eq_false_iff_ne.mpr (Ne.symm hkey)
      have hne' : (key == k') = false := beq_eq_false_iff_ne.mpr (Ne.symm hkey')
      simp [removeKey, hkey, hkey', List.lookup_cons, hne, hne']

/-- The two members of an action, taken out one after the other. -/
theorem remove_both {action rest rest' : List (String × Json)} {text : Json} (hlen : action.length = 2) :
    (removeKey "tool" action = some (text, rest) ∧ removeKey "arguments" rest = some (arguments, rest')) ↔
      action.Perm [("tool", text), ("arguments", arguments)] ∧
        rest = [("arguments", arguments)] ∧ rest' = [] := by
  obtain ⟨e, e', rfl⟩ := List.length_eq_two.mp hlen
  rw [removeKey_pair, List.perm_pair]
  constructor
  · rintro ⟨⟨rfl, rfl⟩ | ⟨-, rfl, rfl⟩, harguments⟩
    · obtain ⟨rfl, rfl⟩ := removeKey_single.mp harguments
      exact ⟨.inl rfl, rfl, rfl⟩
    · obtain ⟨rfl, rfl⟩ := removeKey_single.mp harguments
      exact ⟨.inr rfl, rfl, rfl⟩
  · rintro ⟨hperm, rfl, rfl⟩
    refine ⟨?_, removeKey_single.mpr ⟨rfl, rfl⟩⟩
    rcases hperm with heq | heq
    · obtain ⟨rfl, htail⟩ := List.cons.inj heq
      exact .inl ⟨rfl, htail.symm⟩
    · obtain ⟨rfl, htail⟩ := List.cons.inj heq
      obtain ⟨rfl, -⟩ := List.cons.inj htail
      exact .inr ⟨(by decide : "arguments" ≠ "tool"), rfl, rfl⟩

/-- **What `decode_envelope` accepts.** -/
theorem decodeEnvelope_iff : decodeEnvelope value = .ok (name, arguments) ↔
    (∃ action, value = .object [("action", .object action)] ∧
      action.Perm [("tool", .string name.value), ("arguments", arguments)]) ∧
    arguments.isObject = true ∧ name.value.utf8ByteSize ≤ maxActionToolNameBytes ∧ name.Valid := by
  constructor
  · intro h
    unfold decodeEnvelope at h
    split at h
    · rename_i root
      split at h
      · cases h
      · rename_i hroot
        split at h
        · rename_i action _ haction
          split at h
          · cases h
          · rename_i hlen
            split at h
            · rename_i raw action' htool
              split at h
              · rename_i entries action'' harguments
                split at h
                · cases h
                · split at h
                  · cases h
                  · rename_i hbytes
                    split at h
                    · cases h
                    · rename_i toolName hname
                      obtain ⟨rfl, rfl⟩ := Prod.mk.inj (Except.ok.inj h)
                      obtain ⟨rfl, hvalid⟩ := ToolName.new_iff.mp hname
                      obtain ⟨e, rfl⟩ := List.length_eq_one_iff.mp (not_not.mp hroot)
                      obtain ⟨rfl, rfl⟩ := removeKey_single.mp haction
                      obtain ⟨hperm, -⟩ := (remove_both (not_not.mp hlen)).mp ⟨htool, harguments⟩
                      exact ⟨⟨action, rfl, hperm⟩, rfl, Nat.not_lt.mp hbytes, hvalid⟩
              · cases h
            · cases h
        · cases h
    · cases h
  · rintro ⟨⟨action, rfl, hperm⟩, hobject, hbytes, hvalid⟩
    cases arguments with
    | object entries =>
      have hlen : action.length = 2 := hperm.length_eq
      obtain ⟨htool, harguments⟩ := (remove_both hlen).mpr ⟨hperm, rfl, rfl⟩
      have hroot : removeKey "action" [("action", Json.object action)] = some (.object action, []) :=
        removeKey_single.mpr ⟨rfl, rfl⟩
      have hname := ToolName.new_iff.mpr ⟨rfl, hvalid⟩
      simp only [decodeEnvelope, List.length_singleton, ne_eq, not_true_eq_false, if_false, hroot, hlen,
        htool, harguments, List.isEmpty_nil, Bool.not_true, Bool.false_eq_true, hname]
      rw [if_neg (Nat.not_lt.mpr hbytes)]
    | _ => cases hobject

/-! ## From texts to values -/

theorem valueOf_eq_string {text : String} : valueOf raw = .string text ↔ raw = .string text := by
  cases raw <;> simp [valueOf]

theorem valueOf_eq_object : valueOf raw = .object entries ↔
    ∃ members, raw = .object members ∧
      entries = (entriesOf members).insertionSort (Sorted.Before Prod.fst) := by
  cases raw <;> simp [valueOf, eq_comm]

/-- **The form of the value is the form of the text.** -/
theorem envelope_iff {tool : String} :
    (∃ action, valueOf raw = .object [("action", .object action)] ∧
      action.Perm [("tool", .string tool), ("arguments", arguments)]) ↔
    ∃ a, IsEnvelope raw tool a ∧ arguments = valueOf a := by
  constructor
  · rintro ⟨action, hvalue, hperm⟩
    obtain ⟨root, rfl, hroot⟩ := valueOf_eq_object.mp hvalue
    have hsingle := (List.perm_insertionSort (Sorted.Before Prod.fst) (entriesOf root)).symm
    rw [← hroot, List.perm_singleton, entriesOf_eq] at hsingle
    obtain ⟨m, rfl, hm⟩ := List.map_eq_singleton_iff.mp hsingle
    obtain ⟨key, value⟩ := m
    obtain ⟨rfl, hinner⟩ := Prod.mk.inj hm
    obtain ⟨members, rfl, rfl⟩ := valueOf_eq_object.mp hinner
    have hpair := (List.perm_insertionSort (Sorted.Before Prod.fst) (entriesOf members)).symm.trans hperm
    rw [entriesOf_eq] at hpair
    obtain ⟨both, hboth, hmap⟩ := Sorted.exists_perm_of_map_perm hpair.symm
    obtain ⟨m, rest, rfl, hm, hrest⟩ := List.map_eq_cons_iff.mp hmap.symm
    obtain ⟨m', rfl, hm'⟩ := List.map_eq_singleton_iff.mp hrest
    obtain ⟨key, value⟩ := m
    obtain ⟨key', a⟩ := m'
    obtain ⟨rfl, htool⟩ := Prod.mk.inj hm
    obtain ⟨rfl, ha⟩ := Prod.mk.inj hm'
    obtain rfl : value = .string tool := valueOf_eq_string.mp htool
    exact ⟨a, ⟨members, rfl, hboth⟩, ha.symm⟩
  · rintro ⟨a, ⟨members, rfl, hperm⟩, rfl⟩
    refine ⟨(entriesOf members).insertionSort (Sorted.Before Prod.fst), rfl, ?_⟩
    refine (List.perm_insertionSort _ _).trans ?_
    rw [entriesOf_eq]
    exact hperm.map fun m => (m.1, valueOf m.2)

/-- A value of this depth does not reach the recursion limit. -/
theorem nestedWithin_of_depth {n : Nat} (h : (valueOf raw).depth ≤ n) : raw.NestedWithin n := by
  induction raw using RawJson.induct generalizing n with
  | array elements ih =>
    cases n with
    | zero => exact absurd (Nat.le_trans (Json.depth_pos _) h) (Nat.not_succ_le_zero 0)
    | succ n =>
      have hparts := (Json.depth_le _ n).mp h
      rw [valueOf, Json.parts, valuesOf_eq] at hparts
      exact fun e he => ih e he (hparts _ (List.mem_map_of_mem he))
  | object members ih =>
    cases n with
    | zero => exact absurd (Nat.le_trans (Json.depth_pos _) h) (Nat.not_succ_le_zero 0)
    | succ n =>
      have hparts := (Json.depth_le _ n).mp h
      rw [valueOf, Json.parts, entriesOf_eq] at hparts
      intro m hm
      refine ih m hm (hparts _ (List.mem_map.mpr ⟨(m.1, valueOf m.2), ?_, rfl⟩))
      exact (List.mem_insertionSort _).mpr (List.mem_map.mpr ⟨m, hm, rfl⟩)
  | _ => cases n <;> trivial

theorem IsEnvelope.nestedWithin {tool : String} {a : RawJson} (h : IsEnvelope raw tool a)
    (hdepth : (valueOf a).depth ≤ 125) : raw.NestedWithin 127 := by
  obtain ⟨members, rfl, hperm⟩ := h
  intro m hm
  obtain rfl := List.mem_singleton.mp hm
  intro inner hinner
  have hmem := hperm.mem_iff.mp hinner
  rw [List.mem_cons, List.mem_singleton] at hmem
  rcases hmem with rfl | rfl
  · trivial
  · exact nestedWithin_of_depth hdepth

/-! ## Decoding -/

/-- **The decoder accepts its envelope and nothing else**, and the proposal carries the tool and the
arguments of the text. -/
theorem decode_ok_iff {denotes : String → RawJson → Prop} {tokenize : String → Option RawJson}
    (h : Tokenizes denotes tokenize) (formatFloat : UInt64 → List Char) (response : ModelResponse)
    (name : ToolName) (arguments : Json) :
    decode formatFloat tokenize response = .ok (name, arguments) ↔
      ∃ text raw a, response.output = [.text text] ∧ text.utf8ByteSize ≤ maxPlanningResponseBytes ∧
        denotes text raw ∧ IsEnvelope raw name.value a ∧ raw.All KeysOnce ∧
        name.value.utf8ByteSize ≤ maxActionToolNameBytes ∧ name.Valid ∧
        (valueOf a).isObject = true ∧ arguments = valueOf a ∧ WithinLimits formatFloat arguments := by
  constructor
  · intro hdecode
    unfold decode at hdecode
    split at hdecode
    · rename_i text houtput
      split at hdecode
      · cases hdecode
      · split at hdecode
        · cases hdecode
        · rename_i hbytes
          split at hdecode
          · cases hdecode
          · rename_i value hvalue
            split at hdecode
            · cases hdecode
            · rename_i toolName arguments' henvelope
              split at hdecode
              · cases hdecode
              · rename_i hlimits
                obtain ⟨rfl, rfl⟩ := Prod.mk.inj (Except.ok.inj hdecode)
                obtain ⟨raw, hraw, hunique⟩ := Option.bind_eq_some_iff.mp hvalue
                obtain ⟨⟨hkeys, -⟩, rfl⟩ := (uniqueJson_iff value).mp hunique
                obtain ⟨hform, hobject, hname, hvalid⟩ := decodeEnvelope_iff.mp henvelope
                obtain ⟨a, ha, rfl⟩ := envelope_iff.mp hform
                exact ⟨text, raw, a, houtput, Nat.not_lt.mp hbytes, h.sound hraw, ha, hkeys, hname, hvalid,
                  hobject, rfl, validateArgumentLimits_iff.mp hlimits⟩
    · cases hdecode
    · cases hdecode
  · rintro ⟨text, raw, a, houtput, hbytes, hdenotes, henvelope, hkeys, hname, hvalid, hobject, rfl, hlimits⟩
    have hblank : (Text.trim text).isEmpty = false := by simpa using h.not_blank hdenotes
    have hdepth : (valueOf a).depth ≤ 125 := Nat.le_trans hlimits.depth (by decide)
    have hraw := h.complete hdenotes (henvelope.nestedWithin hdepth)
    have hunique := (uniqueJson_iff _).mpr ⟨⟨hkeys, h.finite hdenotes⟩, rfl⟩
    have hform := decodeEnvelope_iff.mpr
      ⟨envelope_iff.mpr ⟨a, henvelope, rfl⟩, hobject, hname, hvalid⟩
    simp only [decode, houtput, hblank, Bool.false_eq_true, if_false, hraw, Option.bind_some, hunique, hform,
      validateArgumentLimits_iff.mpr hlimits]
    rw [if_neg (Nat.not_lt.mpr hbytes)]

/-- The text of an action whose arguments are nested, behind them the name of its tool. -/
def nestedAction : String := "\x7b\"action\":\x7b\"arguments\":\x7b\"path\":\"a\",\"options\":" ++
  "\x7b\"tags\":[\"x\",null],\"depth\":2\x7d\x7d,\"tool\":\"t\"\x7d\x7d"

/-- The arguments as they stand there. -/
def nestedArguments : RawJson :=
  .object [("path", .string "a"),
    ("options", .object [("tags", .array [.string "x", .null]), ("depth", .number (.posInt 2))])]

/-- What the text denotes. -/
def nestedActionTree : RawJson :=
  .object [("action", .object [("arguments", nestedArguments), ("tool", .string "t")])]

/-- The action is accepted, with its arguments in the order of their keys. -/
theorem decode_nested_action :
    decode (fun _ => []) (fun text => if text = nestedAction then some nestedActionTree else none)
      ⟨[.text nestedAction], none⟩ = .ok (⟨"t"⟩, .object [("options",
        .object [("depth", .number (.posInt 2)), ("tags", .array [.string "x", .null])]), ("path", .string "a")]) := by
  have htokenizes : Tokenizes (fun text raw => text = nestedAction ∧ raw = nestedActionTree)
      (fun text => if text = nestedAction then some nestedActionTree else none) := by
    refine ⟨fun h => ?_, ?_, ?_, ?_⟩
    · split at h
      · rename_i htext
        exact ⟨htext, (Option.some.inj h).symm⟩
      · cases h
    · rintro text value ⟨rfl, rfl⟩ -
      exact if_pos rfl
    · rintro text value ⟨rfl, rfl⟩
      decide +kernel
    · rintro text value ⟨rfl, rfl⟩
      simp [nestedActionTree, nestedArguments, Finite]
  have hname : ToolName.new "t" = .ok ⟨"t"⟩ := by rfl
  refine (decode_ok_iff htokenizes (fun _ => []) ⟨[.text nestedAction], none⟩ ⟨"t"⟩ _).mpr
    ⟨nestedAction, nestedActionTree, nestedArguments, rfl, by decide +kernel, ⟨rfl, rfl⟩, ⟨_, rfl, .swap ..⟩,
      by simp [nestedActionTree, nestedArguments, KeysOnce], by decide, (ToolName.new_iff.mp hname).2, rfl,
      rfl, ?_⟩
  exact ⟨by decide +kernel, by decide +kernel, by decide +kernel, by decide +kernel, by decide +kernel⟩

end TextActionDecoder

end LocalAgent
