import LocalAgent.Core.Raw

/-!
# The output of the model (`agent-mvp/src/lib.rs:409-459`)

The model is to answer with one JSON object: `final_answer` and `citations`, or `action`, and nothing else.
`decode_model_text` reads the text into a structure of three optional fields. For such a structure `serde`
takes `null` for a field that is absent, and it takes an array of three values for the fields in their order.
The texts that are misread so are listed (`Misread`), and there are no others (`decodes_exactly_iff`).

What the tokenizer makes of a text is a parameter.
-/
namespace LocalAgent.Mvp

/-- `MAX_MVP_MODEL_OUTPUT_BYTES`. -/
def maxMvpModelOutputBytes : Nat := 16 * 1024

/-- `agent_service::MAX_FINAL_ANSWER_BYTES`. -/
def maxFinalAnswerBytes : Nat := 8 * 1024

/-- `agent_service::MAX_RESULT_CITATIONS`. -/
def maxResultCitations : Nat := 8

/-! ## The structure that is read -/

/-- `StrictRoot`. -/
structure StrictRoot where
  finalAnswer : Option String
  citations : Option (List String)
  action : Option Unit
deriving DecidableEq

/-- The fields of which `visit_map` has seen a member. -/
structure Slots where
  finalAnswer : Option (Option String)
  citations : Option (Option (List String))
  action : Option (Option Unit)

/-- `IgnoredAny::deserialize`. -/
def ignoredAny : RawJson → Option Unit := fun _ => some ()

/-- A member of one field: an error if the field was seen before. -/
def visitField {α : Type} (read : RawJson → Option α) (slot : Option (Option α)) (value : RawJson) :
    Option (Option (Option α)) :=
  if slot.isSome then none else (value.optional read).map some

/-- One member. `deny_unknown_fields` makes any other name an error. -/
def visitMember (seen : Slots) (member : String × RawJson) : Option Slots :=
  if member.1 = "final_answer" then
    (visitField RawJson.asString seen.finalAnswer member.2).map fun slot => { seen with finalAnswer := slot }
  else if member.1 = "citations" then
    (visitField RawJson.asStrings seen.citations member.2).map fun slot => { seen with citations := slot }
  else if member.1 = "action" then
    (visitField ignoredAny seen.action member.2).map fun slot => { seen with action := slot }
  else none

/-- `visit_map` of the derived `Deserialize`. A field without a member is `None`. -/
def visitMap : List (String × RawJson) → Slots → Option StrictRoot
  | [], seen => some ⟨seen.finalAnswer.join, seen.citations.join, seen.action.join⟩
  | member :: rest, seen =>
    match visitMember seen member with
    | none => none
    | some seen => visitMap rest seen

/-- `visit_seq`, also of the derived implementation: the fields in their order, and no more. -/
def visitSeq : List RawJson → Option StrictRoot
  | [answer, citations, action] =>
    match answer.optional RawJson.asString, citations.optional RawJson.asStrings, action.optional ignoredAny with
    | some answer, some citations, some action => some ⟨answer, citations, action⟩
    | _, _, _ => none
  | _ => none

/-- `StrictRoot::deserialize`, as `serde_json` calls it. -/
def StrictRoot.deserialize : RawJson → Option StrictRoot
  | .object members => visitMap members ⟨none, none, none⟩
  | .array elements => visitSeq elements
  | _ => none

/-! ## Decoding -/

/-- `FinalAnswerDraft`. -/
structure FinalAnswerDraft where
  answer : String
  citations : List String
deriving DecidableEq

inductive DecodedModelOutput where
  | finalAnswer (draft : FinalAnswerDraft)
  | action
deriving DecidableEq

/-- `MvpOutputError`, as far as decoding returns it. -/
inductive MvpOutputError where
  | invalidJson | invalidShape | tooLarge
deriving DecidableEq

/-- The `match` on the fields (lib.rs:445-458). -/
def StrictRoot.branch (root : StrictRoot) : Except MvpOutputError DecodedModelOutput :=
  match root.finalAnswer, root.citations, root.action with
  | some answer, some citations, none =>
    if answer ≠ "" ∧ answer.utf8ByteSize ≤ maxFinalAnswerBytes ∧ citations.length ≤ maxResultCitations then
      .ok (.finalAnswer ⟨answer, citations⟩)
    else .error .invalidShape
  | none, none, some _ => .ok .action
  | _, _, _ => .error .invalidShape

/-- `decode_model_text` (lib.rs:440). -/
def decodeModelText (tokenize : String → Option RawJson) (text : String) :
    Except MvpOutputError DecodedModelOutput :=
  if text.utf8ByteSize > maxMvpModelOutputBytes then .error .tooLarge
  else match (tokenize text).bind StrictRoot.deserialize with
    | none => .error .invalidJson
    | some root => root.branch

/-! ## What is meant -/

/-- A draft within its limits. -/
def FinalAnswerDraft.Bounded (draft : FinalAnswerDraft) : Prop :=
  draft.answer ≠ "" ∧ draft.answer.utf8ByteSize ≤ maxFinalAnswerBytes ∧
    draft.citations.length ≤ maxResultCitations

/-- The members of a final answer. -/
def FinalAnswerDraft.members (draft : FinalAnswerDraft) : List (String × RawJson) :=
  [("final_answer", .string draft.answer), ("citations", .array (draft.citations.map .string))]

/-- One object with the two members of a final answer, in any order. -/
def IsFinalAnswer (draft : FinalAnswerDraft) (value : RawJson) : Prop :=
  draft.Bounded ∧ ∃ members, value = .object members ∧ members.Perm draft.members

/-- One object with the member `action` only. -/
def IsAction (value : RawJson) : Prop := ∃ action, value = .object [("action", action)]

/-- The text is taken for a final answer or for an action if and only if it is one. -/
def DecodesExactly (tokenize : String → Option RawJson) (text : String) : Prop :=
  (∀ draft, decodeModelText tokenize text = .ok (.finalAnswer draft) ↔
    text.utf8ByteSize ≤ maxMvpModelOutputBytes ∧ ∃ value, tokenize text = some value ∧
      IsFinalAnswer draft value) ∧
  (decodeModelText tokenize text = .ok .action ↔
    text.utf8ByteSize ≤ maxMvpModelOutputBytes ∧ ∃ value, tokenize text = some value ∧ IsAction value)

/-- The values that are misread. -/
inductive Misread : RawJson → Prop
  /-- A final answer with an `action` that is `null`. -/
  | extendedAnswer {draft members} : FinalAnswerDraft.Bounded draft →
      List.Perm members (draft.members ++ [("action", .null)]) → Misread (.object members)
  /-- An action with a `final_answer` or `citations` that are `null`. -/
  | extendedAction {action nulls members} : action ≠ .null → nulls ≠ [] →
      List.Sublist nulls [("final_answer", RawJson.null), ("citations", .null)] →
      List.Perm members (nulls ++ [("action", action)]) → Misread (.object members)
  /-- The member `action` only, and it is `null`. -/
  | nullAction : Misread (.object [("action", .null)])
  /-- A final answer as an array. -/
  | answerArray {draft} : FinalAnswerDraft.Bounded draft →
      Misread (.array [.string draft.answer, .array (draft.citations.map .string), .null])
  /-- An action as an array. -/
  | actionArray {action} : action ≠ .null → Misread (.array [.null, .null, action])

variable {members rest : List (String × RawJson)} {seen : Slots} {root : StrictRoot}
  {x y z x' y' z' : Option RawJson} {value : RawJson} {draft : FinalAnswerDraft}

/-! ## Members in order -/

/-- The members of the three names that are there, in the order of the fields. -/
def fieldsOf (x y z : Option RawJson) : List (String × RawJson) :=
  x.toList.map ("final_answer", ·) ++ (y.toList.map ("citations", ·) ++ z.toList.map ("action", ·))

/-- The slot of a field after its member, if there is one. -/
def filled {α : Type} (read : RawJson → Option α) (slot : Option (Option α)) :
    Option RawJson → Option (Option (Option α))
  | none => some slot
  | some value => visitField read slot value

theorem visitMap_nil :
    visitMap [] seen = some ⟨seen.finalAnswer.join, seen.citations.join, seen.action.join⟩ := rfl

theorem visitMap_cons (member : String × RawJson) :
    visitMap (member :: rest) = fun seen => (visitMember seen member).bind (visitMap rest) := by
  funext seen
  rw [visitMap]
  cases visitMember seen member <;> rfl

@[simp] theorem visitMember_finalAnswer : visitMember seen ("final_answer", value) =
    (visitField RawJson.asString seen.finalAnswer value).map fun slot =>
      { seen with finalAnswer := slot } := rfl

@[simp] theorem visitMember_citations : visitMember seen ("citations", value) =
    (visitField RawJson.asStrings seen.citations value).map fun slot =>
      { seen with citations := slot } := rfl

@[simp] theorem visitMember_action : visitMember seen ("action", value) =
    (visitField ignoredAny seen.action value).map fun slot => { seen with action := slot } := rfl

/-- **`visit_map`** on members in the order of the fields. -/
theorem visitMap_fieldsOf : visitMap (fieldsOf x y z) seen =
    (filled RawJson.asString seen.finalAnswer x).bind fun a =>
      (filled RawJson.asStrings seen.citations y).bind fun c =>
        (filled ignoredAny seen.action z).bind fun v => some ⟨a.join, c.join, v.join⟩ := by
  cases x <;> cases y <;> cases z <;>
    simp [fieldsOf, visitMap_cons, visitMap_nil, filled, Option.bind_map, Function.comp_def]

/-- A field cannot be visited again. -/
theorem visitField_twice {α : Type} {read : RawJson → Option α} {slot slot' : Option (Option α)}
    {other : RawJson} (h : visitField read slot value = some slot') : visitField read slot' other = none := by
  unfold visitField at h
  split at h
  · cases h
  · obtain ⟨field, -, rfl⟩ := Option.map_eq_some_iff.mp h
    rfl

/-- Two members of one field are an error in any order. -/
theorem visitField_bind {α β : Type} {read : RawJson → Option α} {slot : Option (Option α)}
    {other : RawJson} {f : Option (Option α) → β} :
    ((visitField read slot value).bind fun slot => (visitField read slot other).map f) = none := by
  cases h : visitField read slot value with
  | none => rfl
  | some slot' => rw [Option.bind_some, visitField_twice h, Option.map_none]

theorem map_then {α β γ : Type} (a : Option α) (f : α → β) (g : β → Option γ) :
    (a.map f).bind g = a.bind fun x => g (f x) := by
  cases a <;> rfl

/-- Members of two fields are read in any order. -/
theorem bind_map_comm {α β γ : Type} (a : Option α) (b : Option β) (f : α → β → γ) :
    (a.bind fun x => b.map fun y => f x y) = b.bind fun y => a.map fun x => f x y := by
  cases a <;> cases b <;> rfl

/-- A name is one of the three, or the member is an error. -/
theorem name_cases (member : String × RawJson) :
    (∃ v, member = ("final_answer", v)) ∨ (∃ v, member = ("citations", v)) ∨
      (∃ v, member = ("action", v)) ∨ ∀ seen, visitMember seen member = none := by
  obtain ⟨key, value⟩ := member
  by_cases hanswer : key = "final_answer"
  · exact .inl ⟨value, by rw [hanswer]⟩
  by_cases hcitations : key = "citations"
  · exact .inr (.inl ⟨value, by rw [hcitations]⟩)
  by_cases haction : key = "action"
  · exact .inr (.inr (.inl ⟨value, by rw [haction]⟩))
  · refine .inr (.inr (.inr fun seen => ?_))
    simp only [visitMember, hanswer, hcitations, haction, if_false]

theorem visitMember_comm (a b : String × RawJson) :
    ((visitMember seen a).bind fun seen => visitMember seen b) =
      (visitMember seen b).bind fun seen => visitMember seen a := by
  rcases name_cases a with ⟨v, rfl⟩ | ⟨v, rfl⟩ | ⟨v, rfl⟩ | hnone
  · rcases name_cases b with ⟨w, rfl⟩ | ⟨w, rfl⟩ | ⟨w, rfl⟩ | hnone
    · simp [map_then, visitField_bind]
    · simp [map_then, bind_map_comm (visitField _ seen.finalAnswer _)]
    · simp [map_then, bind_map_comm (visitField _ seen.finalAnswer _)]
    · simp [hnone]
  · rcases name_cases b with ⟨w, rfl⟩ | ⟨w, rfl⟩ | ⟨w, rfl⟩ | hnone
    · simp [map_then, bind_map_comm (visitField _ seen.citations _)]
    · simp [map_then, visitField_bind]
    · simp [map_then, bind_map_comm (visitField _ seen.citations _)]
    · simp [hnone]
  · rcases name_cases b with ⟨w, rfl⟩ | ⟨w, rfl⟩ | ⟨w, rfl⟩ | hnone
    · simp [map_then, bind_map_comm (visitField _ seen.action _)]
    · simp [map_then, bind_map_comm (visitField _ seen.action _)]
    · simp [map_then, visitField_bind]
    · simp [hnone]
  · simp [hnone]

/-- The order of the members does not matter. -/
theorem visitMap_perm {other : List (String × RawJson)} (h : members.Perm other) :
    visitMap members seen = visitMap other seen := by
  induction h generalizing seen with
  | nil => rfl
  | cons member _ ih =>
    rw [visitMap_cons, visitMap_cons]
    exact congrArg _ (funext fun seen => ih)
  | swap a b rest =>
    simp only [visitMap_cons]
    rw [← Option.bind_assoc, visitMember_comm, Option.bind_assoc]
  | trans _ _ ih ih' => exact ih.trans ih'

/-- A member that was read has filled its slot. -/
theorem visitField_isSome {α : Type} {read : RawJson → Option α} {slot slot' : Option (Option α)}
    (h : visitField read slot value = some slot') : slot.isSome = false ∧ slot'.isSome = true := by
  unfold visitField at h
  split at h
  · cases h
  · rename_i hslot
    obtain ⟨field, -, rfl⟩ := Option.map_eq_some_iff.mp h
    exact ⟨by simpa using hslot, rfl⟩

/-- **What is read has each field at most once**, and no other. -/
theorem fieldsOf_of_visitMap (h : visitMap members seen = some root) :
    ∃ x y z, members.Perm (fieldsOf x y z) ∧ (seen.finalAnswer.isSome → x = none) ∧
      (seen.citations.isSome → y = none) ∧ (seen.action.isSome → z = none) := by
  induction members generalizing seen with
  | nil => exact ⟨none, none, none, .nil, fun _ => rfl, fun _ => rfl, fun _ => rfl⟩
  | cons member rest ih =>
    rw [visitMap_cons] at h
    obtain ⟨next, hnext, hrest⟩ := Option.bind_eq_some_iff.mp h
    obtain ⟨x, y, z, hperm, hx, hy, hz⟩ := ih hrest
    rcases name_cases member with ⟨v, rfl⟩ | ⟨v, rfl⟩ | ⟨v, rfl⟩ | hnone
    · rw [visitMember_finalAnswer] at hnext
      obtain ⟨slot, hslot, rfl⟩ := Option.map_eq_some_iff.mp hnext
      obtain ⟨hnew, hfull⟩ := visitField_isSome hslot
      obtain rfl : x = none := hx hfull
      refine ⟨some v, y, z, hperm.cons _, fun hs => ?_, hy, hz⟩
      rw [hnew] at hs
      cases hs
    · rw [visitMember_citations] at hnext
      obtain ⟨slot, hslot, rfl⟩ := Option.map_eq_some_iff.mp hnext
      obtain ⟨hnew, hfull⟩ := visitField_isSome hslot
      obtain rfl : y = none := hy hfull
      refine ⟨x, some v, z, (hperm.cons _).trans List.perm_middle.symm, hx, fun hs => ?_, hz⟩
      rw [hnew] at hs
      cases hs
    · rw [visitMember_action] at hnext
      obtain ⟨slot, hslot, rfl⟩ := Option.map_eq_some_iff.mp hnext
      obtain ⟨hnew, hfull⟩ := visitField_isSome hslot
      obtain rfl : z = none := hz hfull
      have hlast : fieldsOf x y (some v) = fieldsOf x y none ++ [("action", v)] := by
        simp [fieldsOf]
      refine ⟨x, y, some v, ?_, hx, hy, fun hs => ?_⟩
      · rw [hlast]
        exact (hperm.cons _).trans (List.perm_append_singleton _ _).symm
      · rw [hnew] at hs
        cases hs
    · rw [hnone] at hnext
      cases hnext

/-! ## What is read from a value -/

/-- A field from its member, if there is one. -/
def field {α : Type} (read : RawJson → Option α) : Option RawJson → Option (Option α)
  | none => some none
  | some value => value.optional read

theorem bind_filled {α β : Type} {read : RawJson → Option α} {f : Option α → Option β} :
    ((filled read none x).bind fun slot => f slot.join) = (field read x).bind f := by
  cases x with
  | none => rfl
  | some value =>
    simp only [filled, visitField, field, Option.isSome_none, Bool.false_eq_true, if_false,
      map_then, Option.join_some]

/-- **What an object is read as.** -/
theorem deserialize_object : StrictRoot.deserialize (.object members) = some root ↔
    ∃ x y z, members.Perm (fieldsOf x y z) ∧ field RawJson.asString x = some root.finalAnswer ∧
      field RawJson.asStrings y = some root.citations ∧ field ignoredAny z = some root.action := by
  have hfields : ∀ x y z, visitMap (fieldsOf x y z) ⟨none, none, none⟩ =
      (field RawJson.asString x).bind fun a => (field RawJson.asStrings y).bind fun c =>
        (field ignoredAny z).bind fun v => some ⟨a, c, v⟩ := by
    intro x y z
    rw [visitMap_fieldsOf, ← bind_filled]
    simp only [← bind_filled]
  constructor
  · intro h
    obtain ⟨x, y, z, hperm, -⟩ := fieldsOf_of_visitMap h
    rw [StrictRoot.deserialize, visitMap_perm hperm, hfields] at h
    obtain ⟨a, ha, h⟩ := Option.bind_eq_some_iff.mp h
    obtain ⟨c, hc, h⟩ := Option.bind_eq_some_iff.mp h
    obtain ⟨v, hv, h⟩ := Option.bind_eq_some_iff.mp h
    obtain rfl := Option.some.inj h
    exact ⟨x, y, z, hperm, ha, hc, hv⟩
  · rintro ⟨x, y, z, hperm, ha, hc, hv⟩
    rw [StrictRoot.deserialize, visitMap_perm hperm, hfields, ha, hc, hv]
    rfl

theorem deserialize_array {elements : List RawJson} :
    StrictRoot.deserialize (.array elements) = some root ↔
      ∃ a c v, elements = [a, c, v] ∧ a.optional RawJson.asString = some root.finalAnswer ∧
        c.optional RawJson.asStrings = some root.citations ∧ v.optional ignoredAny = some root.action := by
  constructor
  · intro h
    rw [StrictRoot.deserialize] at h
    unfold visitSeq at h
    split at h
    · rename_i a c v
      split at h
      · rename_i ha hc hv
        obtain rfl := Option.some.inj h
        exact ⟨a, c, v, rfl, ha, hc, hv⟩
      · cases h
    · cases h
  · rintro ⟨a, c, v, rfl, ha, hc, hv⟩
    rw [StrictRoot.deserialize, visitSeq, ha, hc, hv]

theorem field_eq_none {α : Type} {read : RawJson → Option α} :
    field read x = some none ↔ x = none ∨ x = some .null := by
  cases x <;> simp [field, RawJson.optional_eq_none]

theorem field_asString {text : String} :
    field RawJson.asString x = some (some text) ↔ x = some (.string text) := by
  cases x with
  | none => simp [field]
  | some v => rw [field, RawJson.optional_eq_some rfl, RawJson.asString_eq_some, Option.some.injEq]

theorem field_asStrings {texts : List String} :
    field RawJson.asStrings x = some (some texts) ↔ x = some (.array (texts.map .string)) := by
  cases x with
  | none => simp [field]
  | some v => rw [field, RawJson.optional_eq_some rfl, RawJson.asStrings_eq_some, Option.some.injEq]

theorem optional_ignoredAny : value.optional ignoredAny = some (some ()) ↔ value ≠ .null := by
  cases value <;> simp [RawJson.optional, ignoredAny]

theorem field_ignoredAny : field ignoredAny x = some (some ()) ↔ ∃ v, v ≠ .null ∧ x = some v := by
  cases x with
  | none => simp [field]
  | some v => simp [field, optional_ignoredAny]

theorem branch_finalAnswer : root.branch = .ok (.finalAnswer draft) ↔
    draft.Bounded ∧ root.finalAnswer = some draft.answer ∧ root.citations = some draft.citations ∧
      root.action = none := by
  obtain ⟨answer, citations⟩ := draft
  obtain ⟨a, c, v⟩ := root
  simp only [StrictRoot.branch, FinalAnswerDraft.Bounded]
  split
  · split
    · rename_i hbounded
      constructor
      · intro h
        obtain ⟨rfl, rfl⟩ := FinalAnswerDraft.mk.inj (DecodedModelOutput.finalAnswer.inj (Except.ok.inj h))
        exact ⟨hbounded, rfl, rfl, rfl⟩
      · rintro ⟨-, ha, hc, -⟩
        obtain rfl := Option.some.inj ha
        obtain rfl := Option.some.inj hc
        rfl
    · rename_i hbounded
      refine ⟨nofun, ?_⟩
      rintro ⟨hbounded', ha, hc, -⟩
      obtain rfl := Option.some.inj ha
      obtain rfl := Option.some.inj hc
      exact absurd hbounded' hbounded
  · exact ⟨nofun, fun h => by cases h.2.1⟩
  · rename_i hother _
    refine ⟨nofun, ?_⟩
    rintro ⟨-, rfl, rfl, rfl⟩
    exact absurd rfl (hother _ _ rfl rfl)

theorem branch_action : root.branch = .ok .action ↔
    root.finalAnswer = none ∧ root.citations = none ∧ root.action = some () := by
  obtain ⟨a, c, v⟩ := root
  simp only [StrictRoot.branch]
  split
  · split <;> simp
  · simp
  · rename_i hother
    refine ⟨nofun, ?_⟩
    rintro ⟨rfl, rfl, rfl⟩
    exact absurd rfl (hother _ rfl rfl)

/-! ## What is taken for what -/

/-- A value is read as this output. -/
def ReadAs (value : RawJson) (output : DecodedModelOutput) : Prop :=
  ∃ root, StrictRoot.deserialize value = some root ∧ root.branch = .ok output

theorem decodeModelText_iff {tokenize : String → Option RawJson} {text : String}
    {output : DecodedModelOutput} : decodeModelText tokenize text = .ok output ↔
      text.utf8ByteSize ≤ maxMvpModelOutputBytes ∧ ∃ value, tokenize text = some value ∧
        ReadAs value output := by
  unfold decodeModelText
  split
  · rename_i hlong
    exact ⟨nofun, fun h => absurd h.1 (Nat.not_le.mpr hlong)⟩
  · rename_i hshort
    split
    · rename_i hnone
      refine ⟨nofun, ?_⟩
      rintro ⟨-, value, hvalue, root, hroot, -⟩
      rw [hvalue, Option.bind_some, hroot] at hnone
      cases hnone
    · rename_i root hroot
      obtain ⟨value, hvalue, hread⟩ := Option.bind_eq_some_iff.mp hroot
      constructor
      · exact fun h => ⟨Nat.not_lt.mp hshort, value, hvalue, root, hread, h⟩
      · rintro ⟨-, value', hvalue', root', hread', h⟩
        obtain rfl := Option.some.inj (hvalue.symm.trans hvalue')
        obtain rfl := Option.some.inj (hread.symm.trans hread')
        exact h

/-- **Final answers**: the two members, with or without an `action` that is `null`, or the array. -/
theorem readAs_finalAnswer : ReadAs value (.finalAnswer draft) ↔ draft.Bounded ∧
    ((∃ members, value = .object members ∧ members.Perm draft.members) ∨
      (∃ members, value = .object members ∧ members.Perm (draft.members ++ [("action", .null)])) ∨
        value = .array [.string draft.answer, .array (draft.citations.map .string), .null]) := by
  constructor
  · rintro ⟨root, hroot, hbranch⟩
    obtain ⟨hbounded, ha, hc, hv⟩ := branch_finalAnswer.mp hbranch
    refine ⟨hbounded, ?_⟩
    cases value with
    | object members =>
      obtain ⟨x, y, z, hperm, hx, hy, hz⟩ := deserialize_object.mp hroot
      rw [ha] at hx
      rw [hc] at hy
      rw [hv] at hz
      obtain rfl := field_asString.mp hx
      obtain rfl := field_asStrings.mp hy
      rcases field_eq_none.mp hz with rfl | rfl
      · exact .inl ⟨members, rfl, hperm⟩
      · exact .inr (.inl ⟨members, rfl, hperm⟩)
    | array elements =>
      obtain ⟨a, c, v, rfl, hx, hy, hz⟩ := deserialize_array.mp hroot
      rw [ha, RawJson.optional_eq_some rfl] at hx
      rw [hc, RawJson.optional_eq_some rfl] at hy
      rw [hv] at hz
      rw [RawJson.asString_eq_some.mp hx, RawJson.asStrings_eq_some.mp hy, RawJson.optional_eq_none.mp hz]
      exact .inr (.inr rfl)
    | _ => cases hroot
  · rintro ⟨hbounded, h⟩
    refine ⟨⟨some draft.answer, some draft.citations, none⟩, ?_,
      branch_finalAnswer.mpr ⟨hbounded, rfl, rfl, rfl⟩⟩
    rcases h with ⟨members, rfl, hperm⟩ | ⟨members, rfl, hperm⟩ | rfl
    · exact deserialize_object.mpr ⟨some _, some _, none, hperm, field_asString.mpr rfl,
        field_asStrings.mpr rfl, rfl⟩
    · exact deserialize_object.mpr ⟨some _, some _, some .null, hperm, field_asString.mpr rfl,
        field_asStrings.mpr rfl, rfl⟩
    · exact deserialize_array.mpr ⟨_, _, _, rfl, (RawJson.optional_eq_some rfl).mpr rfl,
        (RawJson.optional_eq_some rfl).mpr (RawJson.asStrings_eq_some.mpr rfl), rfl⟩

/-- The members that are `null` in front of an action. -/
theorem sublist_nulls {nulls : List (String × RawJson)} :
    nulls.Sublist [("final_answer", RawJson.null), ("citations", .null)] ↔
      ∃ x y, nulls = fieldsOf x y none ∧ (x = none ∨ x = some .null) ∧ (y = none ∨ y = some .null) := by
  constructor
  · intro h
    rcases List.sublist_cons_iff.mp h with hone | ⟨one, rfl, hone⟩
    · rcases List.sublist_cons_iff.mp hone with htwo | ⟨two, rfl, htwo⟩
      · exact ⟨none, none, List.sublist_nil.mp htwo, .inl rfl, .inl rfl⟩
      · obtain rfl := List.sublist_nil.mp htwo
        exact ⟨none, some .null, rfl, .inl rfl, .inr rfl⟩
    · rcases List.sublist_cons_iff.mp hone with htwo | ⟨two, rfl, htwo⟩
      · obtain rfl := List.sublist_nil.mp htwo
        exact ⟨some .null, none, rfl, .inr rfl, .inl rfl⟩
      · obtain rfl := List.sublist_nil.mp htwo
        exact ⟨some .null, some .null, rfl, .inr rfl, .inr rfl⟩
  · rintro ⟨x, y, rfl, rfl | rfl, rfl | rfl⟩
    · exact List.nil_sublist _
    · exact (List.Sublist.refl _).cons _
    · exact (List.nil_sublist _).cons_cons _
    · exact List.Sublist.refl _

/-- **Actions**: the member `action`, unless it is `null`, with or without others that are `null`, or the
array. -/
theorem readAs_action : ReadAs value .action ↔
    (∃ action nulls members, action ≠ .null ∧
      nulls.Sublist [("final_answer", RawJson.null), ("citations", .null)] ∧
        members.Perm (nulls ++ [("action", action)]) ∧ value = .object members) ∨
      ∃ action, action ≠ .null ∧ value = .array [.null, .null, action] := by
  have happend : ∀ x y v, fieldsOf x y (some v) = fieldsOf x y none ++ [("action", v)] := by
    intro x y v
    simp [fieldsOf]
  constructor
  · rintro ⟨root, hroot, hbranch⟩
    obtain ⟨ha, hc, hv⟩ := branch_action.mp hbranch
    cases value with
    | object members =>
      obtain ⟨x, y, z, hperm, hx, hy, hz⟩ := deserialize_object.mp hroot
      rw [ha] at hx
      rw [hc] at hy
      rw [hv] at hz
      obtain ⟨action, haction, rfl⟩ := field_ignoredAny.mp hz
      exact .inl ⟨action, fieldsOf x y none, members, haction,
        sublist_nulls.mpr ⟨x, y, rfl, field_eq_none.mp hx, field_eq_none.mp hy⟩, happend x y action ▸ hperm, rfl⟩
    | array elements =>
      obtain ⟨a, c, v, rfl, hx, hy, hz⟩ := deserialize_array.mp hroot
      rw [ha] at hx
      rw [hc] at hy
      rw [hv] at hz
      rw [RawJson.optional_eq_none.mp hx, RawJson.optional_eq_none.mp hy]
      exact .inr ⟨v, optional_ignoredAny.mp hz, rfl⟩
    | _ => cases hroot
  · intro h
    refine ⟨⟨none, none, some ()⟩, ?_, rfl⟩
    rcases h with ⟨action, nulls, members, haction, hnulls, hperm, rfl⟩ | ⟨action, haction, rfl⟩
    · obtain ⟨x, y, rfl, hx, hy⟩ := sublist_nulls.mp hnulls
      exact deserialize_object.mpr ⟨x, y, some action, happend x y action ▸ hperm, field_eq_none.mpr hx,
        field_eq_none.mpr hy, field_ignoredAny.mpr ⟨action, haction, rfl⟩⟩
    · exact deserialize_array.mpr ⟨_, _, _, rfl, rfl, rfl, optional_ignoredAny.mpr haction⟩

/-! ## Which texts are decoded exactly -/

theorem readAs_finalAnswer_iff (h : ¬ Misread value) :
    ReadAs value (.finalAnswer draft) ↔ IsFinalAnswer draft value := by
  rw [readAs_finalAnswer]
  constructor
  · rintro ⟨hbounded, hobject | ⟨members, rfl, hperm⟩ | rfl⟩
    · exact ⟨hbounded, hobject⟩
    · exact absurd (.extendedAnswer hbounded hperm) h
    · exact absurd (.answerArray hbounded) h
  · rintro ⟨hbounded, hobject⟩
    exact ⟨hbounded, .inl hobject⟩

theorem readAs_action_iff (h : ¬ Misread value) : ReadAs value .action ↔ IsAction value := by
  rw [readAs_action]
  constructor
  · rintro (⟨action, nulls, members, haction, hnulls, hperm, rfl⟩ | ⟨action, haction, rfl⟩)
    · by_cases hnil : nulls = []
      · subst hnil
        exact ⟨action, congrArg _ (List.perm_singleton.mp hperm)⟩
      · exact absurd (.extendedAction haction hnil hnulls hperm) h
    · exact absurd (.actionArray haction) h
  · rintro ⟨action, rfl⟩
    refine .inl ⟨action, [], _, ?_, List.nil_sublist _, .refl _, rfl⟩
    rintro rfl
    exact h .nullAction

/-- A value that is misread is read as something that it is not, or not as the action that it is. -/
theorem Misread.not_exact (h : Misread value) :
    (∃ draft, ReadAs value (.finalAnswer draft) ∧ ¬ IsFinalAnswer draft value) ∨
      ¬ (ReadAs value .action ↔ IsAction value) := by
  cases h with
  | extendedAnswer hbounded hperm =>
    refine .inl ⟨_, readAs_finalAnswer.mpr ⟨hbounded, .inr (.inl ⟨_, rfl, hperm⟩)⟩, ?_⟩
    rintro ⟨-, members, hmembers, hperm'⟩
    obtain rfl := RawJson.object.inj hmembers
    have hlength := hperm.length_eq.symm.trans hperm'.length_eq
    simp [FinalAnswerDraft.members] at hlength
  | extendedAction haction hnil hnulls hperm =>
    refine .inr fun hiff => ?_
    obtain ⟨other, hmembers⟩ :=
      hiff.mp (readAs_action.mpr (.inl ⟨_, _, _, haction, hnulls, hperm, rfl⟩))
    obtain rfl := RawJson.object.inj hmembers
    have hlength := hperm.length_eq
    rw [List.length_append, List.length_singleton, List.length_singleton] at hlength
    exact hnil (List.length_eq_zero_iff.mp (by omega))
  | nullAction =>
    refine .inr fun hiff => ?_
    rcases readAs_action.mp (hiff.mpr ⟨.null, rfl⟩) with
      ⟨action, nulls, members, haction, -, hperm, hmembers⟩ | ⟨action, -, harray⟩
    · obtain rfl := RawJson.object.inj hmembers
      have hmem : ("action", action) ∈ [("action", RawJson.null)] :=
        hperm.mem_iff.mpr (List.mem_append_right _ (List.mem_singleton_self _))
      exact haction (Prod.mk.inj (List.mem_singleton.mp hmem)).2
    · cases harray
  | answerArray hbounded =>
    refine .inl ⟨_, readAs_finalAnswer.mpr ⟨hbounded, .inr (.inr rfl)⟩, ?_⟩
    rintro ⟨-, members, hmembers, -⟩
    cases hmembers
  | actionArray haction =>
    refine .inr fun hiff => ?_
    obtain ⟨other, hmembers⟩ := hiff.mp (readAs_action.mpr (.inr ⟨_, haction, rfl⟩))
    cases hmembers

theorem not_decodesExactly {tokenize : String → Option RawJson} {text : String}
    (hshort : text.utf8ByteSize ≤ maxMvpModelOutputBytes) (hvalue : tokenize text = some value)
    (hmisread : Misread value) : ¬ DecodesExactly tokenize text := by
  rintro ⟨hanswer, haction⟩
  have hunique : ∀ P : RawJson → Prop,
      (text.utf8ByteSize ≤ maxMvpModelOutputBytes ∧ ∃ value, tokenize text = some value ∧ P value) ↔
        P value := by
    intro P
    constructor
    · rintro ⟨-, other, hother, h⟩
      obtain rfl := Option.some.inj (hvalue.symm.trans hother)
      exact h
    · exact fun h => ⟨hshort, value, hvalue, h⟩
  simp only [decodeModelText_iff, hunique] at hanswer haction
  rcases hmisread.not_exact with ⟨draft, hread, hnot⟩ | hnot
  · exact hnot ((hanswer draft).mp hread)
  · exact hnot haction

/-- **Which texts are decoded exactly**: all that are too long or are not misread. -/
theorem decodes_exactly_iff (tokenize : String → Option RawJson) (text : String) :
    DecodesExactly tokenize text ↔
      ¬ (text.utf8ByteSize ≤ maxMvpModelOutputBytes ∧ ∃ value ∈ tokenize text, Misread value) := by
  constructor
  · rintro hexact ⟨hshort, value, hvalue, hmisread⟩
    exact not_decodesExactly hshort hvalue hmisread hexact
  · intro h
    have hvalue : ∀ value, text.utf8ByteSize ≤ maxMvpModelOutputBytes → tokenize text = some value →
        ¬ Misread value := fun value hshort htext hmisread => h ⟨hshort, value, htext, hmisread⟩
    unfold DecodesExactly
    simp only [decodeModelText_iff]
    refine ⟨fun draft => and_congr_right fun hshort => exists_congr fun value => ?_,
      and_congr_right fun hshort => exists_congr fun value => ?_⟩
    · exact and_congr_right fun htext => readAs_finalAnswer_iff (hvalue value hshort htext)
    · exact and_congr_right fun htext => readAs_action_iff (hvalue value hshort htext)

/-- A tokenizer for the three texts below. -/
def tokenizeThree (text : String) : Option RawJson :=
  if text = "\x7b\"final_answer\":\"ok\",\"citations\":[],\"action\":null\x7d" then
    some (.object [("final_answer", .string "ok"), ("citations", .array []), ("action", .null)])
  else if text = "[\"ok\",[],null]" then some (.array [.string "ok", .array [], .null])
  else if text = "\x7b\"action\":null\x7d" then some (.object [("action", .null)])
  else none

/-- **An object with an `action` is taken for a final answer**, if the action is `null`. An array is taken
for one as well, and an action that is `null` is refused. -/
theorem mixed_output_accepted :
    ¬ DecodesExactly tokenizeThree
        "\x7b\"final_answer\":\"ok\",\"citations\":[],\"action\":null\x7d" ∧
      ¬ DecodesExactly tokenizeThree "[\"ok\",[],null]" ∧
      ¬ DecodesExactly tokenizeThree "\x7b\"action\":null\x7d" := by
  have hbounded : FinalAnswerDraft.Bounded ⟨"ok", []⟩ := ⟨by decide, by decide, by decide⟩
  refine ⟨not_decodesExactly (by decide) rfl (.extendedAnswer hbounded (.refl _)),
    not_decodesExactly (by decide) rfl (.answerArray hbounded),
    not_decodesExactly (by decide) rfl .nullAction⟩

end LocalAgent.Mvp
