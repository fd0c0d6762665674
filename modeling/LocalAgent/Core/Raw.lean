import LocalAgent.Core.Tool

/-!
# JSON texts as they are tokenized

A text is read as a tree before anything is made of it. The tree has the members of an object in the
order of the text, and a member that is repeated is in it twice.
-/
namespace LocalAgent

/-- A JSON text, token for token. -/
inductive RawJson where
  | null
  | bool (value : Bool)
  | number (value : JsonNumber)
  | string (value : String)
  | array (elements : List RawJson)
  | object (members : List (String × RawJson))

namespace RawJson

/-- `String::deserialize`. -/
def asString : RawJson → Option String
  | .string value => some value
  | _ => none

/-- `Option::deserialize`: `null` is `None`. -/
def optional {α : Type} (read : RawJson → Option α) : RawJson → Option (Option α)
  | .null => some none
  | value => (read value).map some

/-- `Vec::<String>::deserialize`. -/
def asStrings : RawJson → Option (List String)
  | .array elements => elements.mapM asString
  | _ => none

/-- **Induction over trees.** -/
theorem induct {P : RawJson → Prop} (null : P .null) (bool : ∀ value, P (.bool value))
    (number : ∀ value, P (.number value)) (string : ∀ value, P (.string value))
    (array : ∀ elements, (∀ e ∈ elements, P e) → P (.array elements))
    (object : ∀ members, (∀ m ∈ members, P m.2) → P (.object members)) (value : RawJson) : P value :=
  @RawJson.rec P (fun elements => ∀ e ∈ elements, P e) (fun members => ∀ m ∈ members, P m.2)
    (fun m => P m.2) null bool number string array object
    (by simp) (fun _ _ hvalue hrest => List.forall_mem_cons.mpr ⟨hvalue, hrest⟩)
    (by simp) (fun _ _ hmember hrest => List.forall_mem_cons.mpr ⟨hmember, hrest⟩)
    (fun _ _ hvalue => hvalue) value

/-- A property of a value and of every value inside of it. -/
inductive All (p : RawJson → Prop) : RawJson → Prop
  | null : p .null → All p .null
  | bool {value : Bool} : p (.bool value) → All p (.bool value)
  | number {value : JsonNumber} : p (.number value) → All p (.number value)
  | string {value : String} : p (.string value) → All p (.string value)
  | array {elements : List RawJson} : p (.array elements) → (∀ e ∈ elements, All p e) →
      All p (.array elements)
  | object {members : List (String × RawJson)} : p (.object members) → (∀ m ∈ members, All p m.2) →
      All p (.object members)

/-- No more than so many arrays and objects around each other. -/
def NestedWithin : Nat → RawJson → Prop
  | 0, .array _ | 0, .object _ => False
  | n + 1, .array elements => ∀ e ∈ elements, NestedWithin n e
  | n + 1, .object members => ∀ m ∈ members, NestedWithin n m.2
  | _, _ => True

section All

variable {p : RawJson → Prop}

@[simp] theorem all_null : All p .null ↔ p .null := ⟨fun | .null h => h, .null⟩

@[simp] theorem all_bool {b : Bool} : All p (.bool b) ↔ p (.bool b) := ⟨fun | .bool h => h, .bool⟩

@[simp] theorem all_number {n : JsonNumber} : All p (.number n) ↔ p (.number n) :=
  ⟨fun | .number h => h, .number⟩

@[simp] theorem all_string {text : String} : All p (.string text) ↔ p (.string text) :=
  ⟨fun | .string h => h, .string⟩

@[simp] theorem all_array {elements : List RawJson} :
    All p (.array elements) ↔ p (.array elements) ∧ ∀ e ∈ elements, All p e :=
  ⟨fun | .array h helements => ⟨h, helements⟩, fun h => .array h.1 h.2⟩

@[simp] theorem all_object {members : List (String × RawJson)} :
    All p (.object members) ↔ p (.object members) ∧ ∀ m ∈ members, All p m.2 :=
  ⟨fun | .object h hmembers => ⟨h, hmembers⟩, fun h => .object h.1 h.2⟩

end All

variable {α : Type} {read : RawJson → Option α} {value : RawJson}

theorem asString_eq_some {text : String} : value.asString = some text ↔ value = .string text := by
  cases value <;> simp [asString]

theorem mapM_asString {elements : List RawJson} {texts : List String} :
    elements.mapM asString = some texts ↔ elements = texts.map .string := by
  induction elements generalizing texts with
  | nil => cases texts <;> simp
  | cons e elements ih =>
    rw [List.mapM_cons, Option.bind_eq_bind, Option.bind_eq_some_iff]
    constructor
    · rintro ⟨text, htext, hbind⟩
      obtain ⟨rest, hrest, hcons⟩ := Option.bind_eq_some_iff.mp hbind
      obtain rfl := Option.some.inj hcons
      rw [asString_eq_some.mp htext, ih.mp hrest, List.map_cons]
    · intro h
      cases texts with
      | nil => cases h
      | cons text rest =>
        obtain ⟨rfl, hrest⟩ := List.cons.inj h
        exact ⟨text, rfl, Option.bind_eq_some_iff.mpr ⟨rest, ih.mpr hrest, rfl⟩⟩

theorem asStrings_eq_some {texts : List String} :
    value.asStrings = some texts ↔ value = .array (texts.map .string) := by
  cases value <;> simp [asStrings, mapM_asString]

theorem optional_eq_none : value.optional read = some none ↔ value = .null := by
  cases value <;> simp [optional]

theorem optional_eq_some {a : α} (hnull : read .null = none) :
    value.optional read = some (some a) ↔ read value = some a := by
  cases value <;> simp [optional, hnull]

end RawJson

end LocalAgent
