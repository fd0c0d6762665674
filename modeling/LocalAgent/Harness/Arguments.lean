import LocalAgent.Containment.Paths
import LocalAgent.Harness.Operations
import LocalAgent.Lib.JsonText

/-!
# The limits on the arguments of an action (`agent-harness/src/action.rs:577-612`)

Arguments are printed once and must fit 8 KiB, and a walk over their values counts nodes, keys,
elements and depth. For the workspace write the walk never ends the proposal: there are two strings
in one object (`writeArguments_limits`), so all that counts is how long the text is, and escaping
decides that (`writeArguments_bytes`).
-/
namespace LocalAgent

open JsonText String

/-! ## Printing -/

section Text

/- `serde_json` prints a float as the shortest text that reads back. -/
variable (formatFloat : UInt64 → List Char)

def JsonNumber.text : JsonNumber → List Char
  | .posInt value => (toString value).toList
  | .negInt magnitude => '-' :: (toString magnitude).toList
  | .float bits => formatFloat bits

mutual

/-- `serde_json::to_vec` of a value. -/
def Json.text : Json → List Char
  | .null => "null".toList
  | .bool value => (if value then "true" else "false").toList
  | .number value => value.text formatFloat
  | .string value => quote value
  | .array elements => JsonText.array (Json.elementTexts elements)
  | .object entries => JsonText.object (Json.memberTexts entries)

def Json.elementTexts : List Json → List (List Char)
  | [] => []
  | value :: rest => value.text :: Json.elementTexts rest

def Json.memberTexts : List (String × Json) → List (String × List Char)
  | [] => []
  | (key, value) :: rest => (key, value.text) :: Json.memberTexts rest

end

/-! ## Limits -/

/-- `MAX_ACTION_ARGUMENT_BYTES`. -/
def maxActionArgumentBytes : Nat := 8 * 1024

/-- `MAX_ACTION_ARGUMENT_DEPTH`. -/
def maxActionArgumentDepth : Nat := 8

/-- `MAX_ACTION_ARGUMENT_KEYS`. -/
def maxActionArgumentKeys : Nat := 64

/-- `MAX_ACTION_ARGUMENT_ARRAY_ELEMENTS`. -/
def maxActionArgumentArrayElements : Nat := 128

/-- `MAX_ACTION_ARGUMENT_NODES`. -/
def maxActionArgumentNodes : Nat := 256

/-- The loop of `validate_argument_limits` (action.rs:588-610). The first argument is how many more
nodes are allowed, the head of the list is the top of the stack. -/
def argumentLoop : Nat → List (Json × Nat) → Nat → Nat → Except ActionRejectionReason Unit
  | _, [], _, _ => .ok ()
  | 0, _ :: _, _, _ => .error .securityLimitExceeded
  | nodes + 1, (value, depth) :: stack, objectKeys, arrayElements =>
    if depth > maxActionArgumentDepth then .error .securityLimitExceeded
    else match value with
      | .object entries =>
        if objectKeys + entries.length > maxActionArgumentKeys then .error .securityLimitExceeded
        else argumentLoop nodes ((entries.map fun e => (e.2, depth + 1)).reverse ++ stack)
          (objectKeys + entries.length) arrayElements
      | .array elements =>
        if arrayElements + elements.length > maxActionArgumentArrayElements then
          .error .securityLimitExceeded
        else argumentLoop nodes ((elements.map fun e => (e, depth + 1)).reverse ++ stack)
          objectKeys (arrayElements + elements.length)
      | _ => argumentLoop nodes stack objectKeys arrayElements

/-- `validate_argument_limits` (action.rs:577). -/
def validateArgumentLimits (arguments : Json) : Except ActionRejectionReason Unit :=
  if utf8Len (arguments.text formatFloat) > maxActionArgumentBytes then .error .securityLimitExceeded
  else argumentLoop maxActionArgumentNodes [(arguments, 1)] 0 0

end Text

/-- The registered schema of `workspace_write_file` (agent-containment-linux/src/lib.rs:370): JSON
Schema counts characters. -/
def workspaceWriteSchema : Json → Bool
  | .object entries =>
    (match entries.lookup "relative_path" with
      | some (.string path) => path.length ≤ 240
      | _ => false)
    && (match entries.lookup "content" with
      | some (.string content) => content.length ≤ 4096
      | _ => false)
    && entries.all fun e => e.1 = "relative_path" || e.1 = "content"
  | _ => false

/-- A map holds a key once. -/
def Json.KeysDistinct : Json → Prop
  | .object entries => (entries.map Prod.fst).Nodup
  | _ => True

/-! ## Objects with two entries -/

section Entries

variable {α β : Type} [BEq α] [LawfulBEq α] {a b : α} {x y : β} {entries : List (α × β)}

theorem mem_of_lookup (h : entries.lookup a = some x) : (a, x) ∈ entries := by
  obtain ⟨front, back, rfl, -⟩ := List.lookup_eq_some_iff.mp h
  simp

/-- Two entries that are found under two keys. -/
theorem entries_of_lookup (hne : a ≠ b) (hlen : entries.length = 2) (ha : entries.lookup a = some x)
    (hb : entries.lookup b = some y) :
    entries = [(a, x), (b, y)] ∨ entries = [(b, y), (a, x)] := by
  have hmemA := mem_of_lookup ha
  have hmemB := mem_of_lookup hb
  obtain ⟨e₁, e₂, rfl⟩ := List.length_eq_two.mp hlen
  have hother : (b, y) ≠ (a, x) := fun h => hne (congrArg Prod.fst h).symm
  simp only [List.mem_cons, List.not_mem_nil, or_false] at hmemA hmemB
  rcases hmemA with rfl | rfl
  · exact .inl (by rw [hmemB.resolve_left hother])
  · exact .inr (by rw [hmemB.resolve_right hother])

end Entries

/-! ## The arguments of a write -/

/-- An object of the two strings, in either order. -/
def WritesTo (path content : String) (arguments : Json) : Prop :=
  arguments = .object [("relative_path", .string path), ("content", .string content)] ∨
    arguments = .object [("content", .string content), ("relative_path", .string path)]

variable {formatFloat : UInt64 → List Char} {path content : String} {arguments : Json}
  {capsule : LocalWriteActionCapsule}

theorem writeInput_writes : WritesTo path content (writeInput path content) := .inl rfl

/-- Beside what the two strings take, the text has 33 bytes. -/
theorem writeArguments_bytes (h : WritesTo path content arguments) :
    utf8Len (arguments.text formatFloat) = escapedBytes path + escapedBytes content + 33 := by
  have hpath : escapedBytes "relative_path" = 13 := by decide +kernel
  have hcontent : escapedBytes "content" = 7 := by decide +kernel
  rcases h with rfl | rfl
  all_goals
    rw [Json.text, utf8Len_object (by simp [Json.memberTexts])]
    simp only [Json.memberTexts, Json.text, List.map_cons, List.map_nil, List.sum_cons, List.sum_nil,
      utf8Len_quote, hpath, hcontent]
    omega

/-- Two strings in an object pass the walk. -/
theorem writeArguments_limits (h : WritesTo path content arguments) :
    validateArgumentLimits formatFloat arguments = .ok () ↔
      utf8Len (arguments.text formatFloat) ≤ maxActionArgumentBytes := by
  have hloop : argumentLoop maxActionArgumentNodes [(arguments, 1)] 0 0 = .ok () := by
    rcases h with rfl | rfl <;> rfl
  unfold validateArgumentLimits
  rw [hloop]
  by_cases hlen : utf8Len (arguments.text formatFloat) > maxActionArgumentBytes
  · simp only [hlen, if_true, reduceCtorEq, false_iff]
    omega
  · simp only [hlen, if_false, true_iff]
    omega

theorem WritesTo.of_lookup {entries : List (String × Json)} (hlen : entries.length = 2)
    (hpath : entries.lookup "relative_path" = some (.string path))
    (hcontent : entries.lookup "content" = some (.string content)) :
    WritesTo path content (.object entries) := by
  rcases entries_of_lookup (by decide) hlen hpath hcontent with h | h
  · exact .inl (by rw [h])
  · exact .inr (by rw [h])

theorem eq_string_of_asStr {value : Option Json} {s : String} (h : value.bind Json.asStr = some s) :
    value = some (.string s) := by
  obtain ⟨v, rfl, hv⟩ := Option.bind_eq_some_iff.mp h
  cases v with
  | string t =>
    cases hv
    rfl
  | _ => cases hv

theorem LocalWriteActionCapsule.new_ok (h : LocalWriteActionCapsule.new path content = .ok capsule) :
    capsule = ⟨path, content⟩ := by
  unfold LocalWriteActionCapsule.new at h
  split at h
  · cases h
  · exact (Except.ok.inj h).symm

/-- What `local_write_capsule` reads the two strings from. -/
theorem localWriteCapsule_ok (h : localWriteCapsule arguments = .ok capsule) :
    WritesTo capsule.relativePath capsule.content arguments ∧
      LocalWriteActionCapsule.new capsule.relativePath capsule.content = .ok capsule := by
  cases arguments with
  | object entries =>
    simp only [localWriteCapsule] at h
    split at h
    · cases h
    rename_i hlen
    split at h
    · rename_i path content hpath hcontent
      cases hnew : LocalWriteActionCapsule.new path content with
      | error e =>
        rw [hnew] at h
        cases h
      | ok built =>
        rw [hnew] at h
        cases h
        obtain rfl := LocalWriteActionCapsule.new_ok hnew
        exact ⟨.of_lookup (not_not.mp hlen) (eq_string_of_asStr hpath) (eq_string_of_asStr hcontent),
          hnew⟩
    · cases h
  | _ => cases h

/-! ## Writes that come to a human -/

theorem length_le_utf8ByteSize (s : String) : s.length ≤ s.utf8ByteSize := by
  rw [← utf8Len_toList, ← length_toList]
  induction s.toList with
  | nil => simp
  | cons c rest ih =>
    have hc := c.utf8Size_pos
    rw [utf8Len_cons, List.length_cons]
    omega

theorem writeInput_schema (hpath : pathRejected path = false)
    (hcontent : content.utf8ByteSize ≤ maxContentBytes) :
    workspaceWriteSchema (writeInput path content) = true := by
  have hpathBytes : path.utf8ByteSize ≤ 240 := by
    rw [pathRejected_eq] at hpath
    simp only [Bool.or_eq_false_iff, decide_eq_false_iff_not, Nat.not_lt] at hpath
    exact hpath.1.1.1.2
  have hpathLength := (length_le_utf8ByteSize path).trans hpathBytes
  have hcontentLength : content.length ≤ 4096 := (length_le_utf8ByteSize content).trans hcontent
  have hschema : workspaceWriteSchema (writeInput path content) =
      (decide (path.length ≤ 240) && decide (content.length ≤ 4096) && true) := rfl
  rw [hschema, decide_eq_true hpathLength, decide_eq_true hcontentLength]
  rfl

theorem writeInput_limits
    (h : escapedBytes path + escapedBytes content + 33 ≤ maxActionArgumentBytes) :
    validateArgumentLimits formatFloat (writeInput path content) = .ok () := by
  rw [writeArguments_limits writeInput_writes, writeArguments_bytes writeInput_writes]
  exact h

/-- A content of control characters, which take six bytes each in a text. -/
@[irreducible] def controls (n : Nat) : String := ofList (List.replicate n '\x01')

theorem utf8ByteSize_controls {n : Nat} : (controls n).utf8ByteSize = n := by
  have hsize : ('\x01' : Char).utf8Size = 1 := by decide
  rw [controls, utf8ByteSize_replicate, hsize, Nat.mul_one]

theorem escapedBytes_controls {n : Nat} : escapedBytes (controls n) = n * 6 := by
  have hescape : utf8Len (escape '\x01') = 6 := by decide
  rw [controls, escapedBytes_replicate, hescape]

end LocalAgent
