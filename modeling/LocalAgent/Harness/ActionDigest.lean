import LocalAgent.Core.Json
import LocalAgent.Lib.Encoding
import LocalAgent.Lib.Sorted
import LocalAgent.Lib.Utf8
import Mathlib.Data.String.Basic

/-!
# What the action digest binds (`agent-harness/src/action.rs:432-517`)

The digest is taken over a tag for each value, lengths before texts and counts before lists, and the
members of an object in the order of their keys. So the end of a value is known where it is read
(`told`), and equal bytes are equal actions up to the order of members.
-/
namespace LocalAgent

open Encoding Utf8

/-! ## The bytes -/

/-- `encode_len` (action.rs:514). -/
def encodeLen (value : Nat) : List UInt8 := beBytes 8 (min value (2 ^ 64 - 1))

/-- `encode_string` (action.rs:509). -/
def encodeString (value : String) : List UInt8 := encodeLen value.utf8ByteSize ++ value.toUTF8.toList

/-- `Number::as_i64`. -/
def JsonNumber.asI64 : JsonNumber → Option Int
  | .posInt value => if value < 2 ^ 63 then some value else none
  | .negInt magnitude => some (-magnitude)
  | .float _ => none

/-- `Number::as_u64`. -/
def JsonNumber.asU64 : JsonNumber → Option Nat
  | .posInt value => some value
  | _ => none

/-- The bits of `Number::as_f64`, of a number that is a float. -/
def JsonNumber.floatBits : JsonNumber → Option UInt64
  | .float bits => some bits
  | _ => none

/-- `i64::to_be_bytes`. -/
def i64Bytes (value : Int) : List UInt8 := beBytes 8 (value % 2 ^ 64).toNat

/-- `encode_number` (action.rs:496). Only a float comes to its last branch. -/
def encodeNumber (number : JsonNumber) : List UInt8 :=
  match number.asI64, number.asU64, number.floatBits with
  | some value, _, _ => 'I'.toUInt8 :: i64Bytes value
  | none, some value, _ => 'U'.toUInt8 :: beBytes 8 value
  | none, none, some bits => 'F'.toUInt8 :: beBytes 8 bits.toNat
  | none, none, none => []

/-- The members of an object in the order of their keys, one after the other. The order of the bytes of
two texts is the order of their characters. -/
def encodeEntries (members : List (String × List UInt8)) : List UInt8 :=
  (members.insertionSort fun a b => a.1 ≤ b.1).flatMap fun m => encodeString m.1 ++ m.2

mutual

/-- `encode_json` (action.rs:466). -/
def encodeJson : Json → List UInt8
  | .null => ['N'.toUInt8]
  | .bool false => ['B'.toUInt8, 0]
  | .bool true => ['B'.toUInt8, 1]
  | .number number => encodeNumber number
  | .string text => 'S'.toUInt8 :: encodeString text
  | .array values => 'A'.toUInt8 :: encodeLen values.length ++ (encodeValues values).flatten
  | .object entries => 'O'.toUInt8 :: encodeLen entries.length ++ encodeEntries (encodeMembers entries)

def encodeValues : List Json → List (List UInt8)
  | [] => []
  | value :: rest => encodeJson value :: encodeValues rest

def encodeMembers : List (String × Json) → List (String × List UInt8)
  | [] => []
  | (key, value) :: rest => (key, encodeJson value) :: encodeMembers rest

end

/-- `encode_capability` (action.rs:456). -/
def encodeCapability (capability : CapabilityKind) : List UInt8 :=
  ['C'.toUInt8, match capability with
    | .readOnly => 0
    | .localWrite => 1
    | .externalWrite => 2
    | .privileged => 3]

/-- What `compute_action_digest` (action.rs:432) feeds to the hash. -/
def actionDigestInput (toolName : ToolName) (capability : CapabilityKind) (arguments : Json) : List UInt8 :=
  "enterprise-local-agent/action-digest/v1\x00".toUTF8.toList ++ encodeString toolName.value ++
    encodeCapability capability ++ encodeJson arguments

def computeActionDigest (sha256 : List UInt8 → Bytes32) (toolName : ToolName) (capability : CapabilityKind)
    (arguments : Json) : ActionDigest :=
  ⟨sha256 (actionDigestInput toolName capability arguments)⟩

/-- What `compute_tool_contract_digest` (action.rs:446) feeds to the hash. -/
def toolContractInput (definition : ToolDefinition) : List UInt8 :=
  "enterprise-local-agent/tool-contract/v1\x00".toUTF8.toList ++ encodeString definition.name.value ++
    encodeCapability definition.capability ++ encodeString definition.description ++
    encodeJson definition.inputSchema

/-! ## Numbers and texts -/

theorem encodeLen_of_lt {n : Nat} (h : n < 2 ^ 64) : encodeLen n = beBytes 8 n := by
  rw [encodeLen, Nat.min_eq_left (by omega)]

theorem encodeString_eq {s : String} (h : s.utf8ByteSize < 2 ^ 64) :
    encodeString s = sized 8 s.toUTF8.toList := by
  rw [encodeString, sized, encodeLen_of_lt h, length_utf8]

theorem splits_encodeString {a b : String} (ha : a.utf8ByteSize < 2 ^ 64) (hb : b.utf8ByteSize < 2 ^ 64) :
    Splits (encodeString a) (encodeString b) := by
  rw [encodeString_eq ha, encodeString_eq hb]
  exact splits_sized (by rw [length_utf8]; exact ha) (by rw [length_utf8]; exact hb)

theorem encodeString_inj {a b : String} (ha : a.utf8ByteSize < 2 ^ 64) (hb : b.utf8ByteSize < 2 ^ 64)
    (h : encodeString a = encodeString b) : a = b := by
  rw [encodeString_eq ha, encodeString_eq hb] at h
  exact utf8_inj (sized_inj h)

/-- The tag of a number and its eight bytes as a number: those of a negative number count down from
`2 ^ 64`. -/
def numberParts : JsonNumber → UInt8 × Nat
  | .posInt value => (if value < 2 ^ 63 then 'I'.toUInt8 else 'U'.toUInt8, value)
  | .negInt magnitude => ('I'.toUInt8, 2 ^ 64 - magnitude)
  | .float bits => ('F'.toUInt8, bits.toNat)

theorem encodeNumber_eq {n : JsonNumber} (h : n.Representable) :
    encodeNumber n = (numberParts n).1 :: beBytes 8 (numberParts n).2 := by
  cases n with
  | posInt value =>
    by_cases hvalue : value < 2 ^ 63
    · have hmod : ((value : Int) % 2 ^ 64).toNat = value := by omega
      simp only [encodeNumber, JsonNumber.asI64, numberParts, if_pos hvalue, i64Bytes, hmod]
    · simp only [encodeNumber, JsonNumber.asI64, JsonNumber.asU64, numberParts, if_neg hvalue]
  | negInt magnitude =>
    have hmod : (-(magnitude : Int) % 2 ^ 64).toNat = 2 ^ 64 - magnitude := by
      have hrange := h
      simp only [JsonNumber.Representable] at hrange
      omega
    simp only [encodeNumber, JsonNumber.asI64, numberParts, i64Bytes, hmod]
  | float bits => rfl

theorem numberParts_lt {n : JsonNumber} (h : n.Representable) : (numberParts n).2 < 256 ^ 8 := by
  cases n with
  | posInt value => exact h
  | negInt magnitude =>
    have hrange : 1 ≤ magnitude ∧ magnitude ≤ 2 ^ 63 := h
    simp only [numberParts]
    omega
  | float bits => exact bits.toNat_lt

/-- The number is read off its parts. -/
def numberOfParts (parts : UInt8 × Nat) : JsonNumber :=
  if parts.1 = 'F'.toUInt8 then .float (UInt64.ofNat parts.2)
  else if parts.1 = 'I'.toUInt8 ∧ 2 ^ 63 ≤ parts.2 then .negInt (2 ^ 64 - parts.2)
  else .posInt parts.2

theorem numberOfParts_numberParts {n : JsonNumber} (h : n.Representable) :
    numberOfParts (numberParts n) = n := by
  have hIF : ¬ 'I'.toUInt8 = 'F'.toUInt8 := by decide
  have hUF : ¬ 'U'.toUInt8 = 'F'.toUInt8 := by decide
  have hUI : ¬ 'U'.toUInt8 = 'I'.toUInt8 := by decide
  cases n with
  | posInt value =>
    by_cases hvalue : value < 2 ^ 63
    · have hlow : ¬ 2 ^ 63 ≤ value := by omega
      simp only [numberOfParts, numberParts, if_pos hvalue, hIF, hlow, and_false, if_false]
    · simp only [numberOfParts, numberParts, if_neg hvalue, hUF, hUI, false_and, if_false]
  | negInt magnitude =>
    have hrange : 1 ≤ magnitude ∧ magnitude ≤ 2 ^ 63 := h
    have hhigh : 2 ^ 63 ≤ 2 ^ 64 - magnitude := by omega
    have hback : 2 ^ 64 - (2 ^ 64 - magnitude) = magnitude := by omega
    simp only [numberOfParts, numberParts, hIF, hhigh, hback, and_self, if_true, if_false]
  | float bits => simp [numberOfParts, numberParts]

theorem numberParts_inj {a b : JsonNumber} (ha : a.Representable) (hb : b.Representable)
    (h : numberParts a = numberParts b) : a = b := by
  rw [← numberOfParts_numberParts ha, h, numberOfParts_numberParts hb]

/-! ## Values -/

theorem encodeValues_eq (values : List Json) : encodeValues values = values.map encodeJson := by
  induction values with
  | nil => rfl
  | cons value rest ih => rw [encodeValues, ih, List.map_cons]

/-- A member as it is sorted. -/
def encodeMember (e : String × Json) : String × List UInt8 := (e.1, encodeJson e.2)

theorem encodeMembers_eq (entries : List (String × Json)) :
    encodeMembers entries = entries.map encodeMember := by
  induction entries with
  | nil => rfl
  | cons e rest ih =>
    obtain ⟨key, value⟩ := e
    rw [encodeMembers, ih, List.map_cons]
    rfl

namespace Json

def tag : Json → UInt8
  | .null => 'N'.toUInt8
  | .bool _ => 'B'.toUInt8
  | .number n => (numberParts n).1
  | .string _ => 'S'.toUInt8
  | .array _ => 'A'.toUInt8
  | .object _ => 'O'.toUInt8

/-- What follows the tag. -/
def payload : Json → List UInt8
  | .null => []
  | .bool value => [if value then 1 else 0]
  | .number n => beBytes 8 (numberParts n).2
  | .string text => encodeString text
  | .array values => encodeLen values.length ++ (values.map encodeJson).flatten
  | .object entries => encodeLen entries.length ++ encodeEntries (entries.map encodeMember)

theorem encodeJson_eq {a : Json} (h : a.Representable) : encodeJson a = a.tag :: a.payload := by
  cases h with
  | bool value => cases value <;> rfl
  | number hn => exact encodeNumber_eq hn
  | array =>
    rw [encodeJson, encodeValues_eq]
    rfl
  | object =>
    rw [encodeJson, encodeMembers_eq]
    rfl
  | _ => rfl

/-- The kinds of values. -/
def kind : Json → Nat
  | .null => 0
  | .bool _ => 1
  | .number _ => 2
  | .string _ => 3
  | .array _ => 4
  | .object _ => 5

/-- The kind is read off the tag. -/
def kindOfTag (t : UInt8) : Nat :=
  if t = 'N'.toUInt8 then 0 else if t = 'B'.toUInt8 then 1 else if t = 'S'.toUInt8 then 3
  else if t = 'A'.toUInt8 then 4 else if t = 'O'.toUInt8 then 5 else 2

theorem kindOfTag_tag (a : Json) : kindOfTag a.tag = a.kind := by
  cases a with
  | number n =>
    cases n with
    | posInt value =>
      simp only [tag, numberParts]
      split <;> rfl
    | _ => rfl
  | _ => rfl

/-- Where the values end is known, and equal bytes are equal values. -/
def Told (a b : Json) : Prop :=
  Splits (encodeJson a) (encodeJson b) ∧ (encodeJson a = encodeJson b → a.Same b)

/-- Values of one kind are told apart by what follows the tag. -/
theorem told_of_payload {a b : Json} (ha : a.Representable) (hb : b.Representable)
    (h : a.kind = b.kind → Splits a.payload b.payload)
    (heq : a.kind = b.kind → a.tag = b.tag → a.payload = b.payload → a.Same b) : Told a b := by
  have hkind : a.tag = b.tag → a.kind = b.kind := fun htag => by
    rw [← kindOfTag_tag, htag, kindOfTag_tag]
  unfold Told
  rw [encodeJson_eq ha, encodeJson_eq hb]
  refine ⟨.cons fun htag => h (hkind htag), fun hbytes => ?_⟩
  obtain ⟨htag, hpayload⟩ := List.cons.inj hbytes
  exact heq (hkind htag) htag hpayload

theorem told_number {n m : JsonNumber} (hn : n.Representable) (hm : m.Representable) :
    Told (.number n) (.number m) := by
  refine told_of_payload (.number hn) (.number hm) (fun _ => splits_beBytes _ _ _) fun _ htag hpayload => ?_
  have hparts := beBytes_inj (numberParts_lt hn) (numberParts_lt hm) hpayload
  obtain rfl := numberParts_inj hn hm (Prod.ext htag hparts)
  exact .number n

theorem told_string {s t : String} (hs : s.utf8ByteSize < 2 ^ 64) (ht : t.utf8ByteSize < 2 ^ 64) :
    Told (.string s) (.string t) := by
  refine told_of_payload (.string hs) (.string ht) (fun _ => splits_encodeString hs ht) fun _ _ hpayload => ?_
  obtain rfl := encodeString_inj hs ht hpayload
  exact .string s

/-- A count before a sequence. -/
theorem counted_unique {n m : Nat} {ps qs : List (List UInt8)} {s t : List UInt8} (hn : n < 2 ^ 64)
    (hm : m < 2 ^ 64) (hps : ps.length = n) (hqs : qs.length = m) (h : ∀ p ∈ ps, ∀ q ∈ qs, Splits p q)
    (happ : encodeLen n ++ ps.flatten ++ s = encodeLen m ++ qs.flatten ++ t) : ps = qs ∧ s = t := by
  rw [encodeLen_of_lt hn, encodeLen_of_lt hm, List.append_assoc, List.append_assoc] at happ
  obtain ⟨hbytes, hrest⟩ := splits_beBytes 8 n m happ
  obtain rfl := beBytes_inj hn hm hbytes
  exact flatten_counted (hps.trans hqs.symm) h hrest

theorem splits_counted {n m : Nat} {ps qs : List (List UInt8)} (hn : n < 2 ^ 64) (hm : m < 2 ^ 64)
    (hps : ps.length = n) (hqs : qs.length = m) (h : ∀ p ∈ ps, ∀ q ∈ qs, Splits p q) :
    Splits (encodeLen n ++ ps.flatten) (encodeLen m ++ qs.flatten) := by
  intro s t happ
  obtain ⟨rfl, hrest⟩ := counted_unique hn hm hps hqs h happ
  rw [← hps, ← hqs]
  exact ⟨rfl, hrest⟩

theorem counted_inj {n m : Nat} {ps qs : List (List UInt8)} (hn : n < 2 ^ 64) (hm : m < 2 ^ 64)
    (hps : ps.length = n) (hqs : qs.length = m) (h : ∀ p ∈ ps, ∀ q ∈ qs, Splits p q)
    (heq : encodeLen n ++ ps.flatten = encodeLen m ++ qs.flatten) : ps = qs :=
  (counted_unique hn hm hps hqs h (congrArg (· ++ []) heq)).1

theorem told_array {xs ys : List Json} (hx : (Json.array xs).Representable) (hy : (Json.array ys).Representable)
    (h : ∀ x ∈ xs, ∀ y ∈ ys, Told x y) : Told (.array xs) (.array ys) := by
  have hsplit : ∀ p ∈ xs.map encodeJson, ∀ q ∈ ys.map encodeJson, Splits p q := by
    intro p hp q hq
    obtain ⟨x, hmem, rfl⟩ := List.mem_map.mp hp
    obtain ⟨y, hmem', rfl⟩ := List.mem_map.mp hq
    exact (h x hmem y hmem').1
  cases hx with
  | array hxlen hxs =>
    cases hy with
    | array hylen hys =>
      refine told_of_payload (.array hxlen hxs) (.array hylen hys)
        (fun _ => splits_counted hxlen hylen (by simp) (by simp) hsplit) fun _ _ hpayload => ?_
      have hwords := counted_inj hxlen hylen (by simp) (by simp) hsplit hpayload
      exact .array (Sorted.forall₂_of_map_eq (fun x hx y hy => (h x hx y hy).2) hwords)

/-! ### Members -/

/-- The bytes of a member. -/
def memberWord (m : String × List UInt8) : List UInt8 := encodeString m.1 ++ m.2

def sortedMembers (entries : List (String × Json)) : List (String × List UInt8) :=
  (entries.map encodeMember).insertionSort (Sorted.Before Prod.fst)

theorem sortedMembers_perm (entries : List (String × Json)) :
    (sortedMembers entries).Perm (entries.map encodeMember) := List.perm_insertionSort _ _

theorem encodeEntries_eq (entries : List (String × Json)) :
    encodeEntries (entries.map encodeMember) = ((sortedMembers entries).map memberWord).flatten := by
  rw [← List.flatMap_def]
  rfl

theorem told_object {xs ys : List (String × Json)} (hx : (Json.object xs).Representable)
    (hy : (Json.object ys).Representable) (h : ∀ x ∈ xs, ∀ y ∈ ys, Told x.2 y.2) :
    Told (.object xs) (.object ys) := by
  cases hx with
  | object hxlen hxkeys hxsizes hxs =>
    cases hy with
    | object hylen hykeys hysizes hys =>
      have hmember : ∀ m ∈ sortedMembers xs, ∀ m' ∈ sortedMembers ys,
          Splits (memberWord m) (memberWord m') ∧ (memberWord m = memberWord m' → m = m') := by
        intro m hm m' hm'
        obtain ⟨x, hmem, rfl⟩ := List.mem_map.mp ((sortedMembers_perm xs).mem_iff.mp hm)
        obtain ⟨y, hmem', rfl⟩ := List.mem_map.mp ((sortedMembers_perm ys).mem_iff.mp hm')
        have hkey := splits_encodeString (hxsizes x hmem) (hysizes y hmem')
        refine ⟨hkey.append (h x hmem y hmem').1, fun heq => ?_⟩
        obtain ⟨hkeys, hvalues⟩ := hkey heq
        exact Prod.ext (encodeString_inj (hxsizes x hmem) (hysizes y hmem') hkeys) hvalues
      have hsplit : ∀ p ∈ (sortedMembers xs).map memberWord, ∀ q ∈ (sortedMembers ys).map memberWord,
          Splits p q := by
        intro p hp q hq
        obtain ⟨m, hm, rfl⟩ := List.mem_map.mp hp
        obtain ⟨m', hm', rfl⟩ := List.mem_map.mp hq
        exact (hmember m hm m' hm').1
      have hlen : ∀ entries : List (String × Json),
          ((sortedMembers entries).map memberWord).length = entries.length := by
        intro entries
        rw [List.length_map, (sortedMembers_perm entries).length_eq, List.length_map]
      refine told_of_payload (.object hxlen hxkeys hxsizes hxs) (.object hylen hykeys hysizes hys)
        (fun _ => ?_) fun _ _ hpayload => ?_
      · simp only [payload, encodeEntries_eq]
        exact splits_counted hxlen hylen (hlen xs) (hlen ys) hsplit
      · simp only [payload, encodeEntries_eq] at hpayload
        have hwords := counted_inj hxlen hylen (hlen xs) (hlen ys) hsplit hpayload
        have hsorted := Sorted.map_eq_of_map_eq (g := id) (fun m hm m' hm' => (hmember m hm m' hm').2) hwords
        rw [List.map_id, List.map_id] at hsorted
        have hperm : (xs.map encodeMember).Perm (ys.map encodeMember) :=
          ((sortedMembers_perm xs).symm.trans (hsorted ▸ List.Perm.refl _)).trans (sortedMembers_perm ys)
        obtain ⟨zs, horder, hzs⟩ := Sorted.exists_perm_of_map_perm hperm
        have hpairs := Sorted.forall₂_of_map_eq (r := fun x z => x.1 = z.1 ∧ x.2.Same z.2)
          (fun x hx z hz heq => ⟨congrArg Prod.fst heq,
            (h x hx z (horder.mem_iff.mpr hz)).2 (congrArg Prod.snd heq)⟩) hzs
        refine .object horder ?_ ?_
        · rw [← List.forall₂_eq_eq_eq, List.forall₂_map_left_iff, List.forall₂_map_right_iff]
          exact hpairs.imp fun _ _ h => h.1
        · rw [List.forall₂_map_left_iff, List.forall₂_map_right_iff]
          exact hpairs.imp fun _ _ h => h.2

/-- **The bytes of a value tell the value** up to the order of members, and where it ends. -/
theorem told (a : Json) : ∀ b, a.Representable → b.Representable → Told a b := by
  -- values of different kinds begin with different tags
  have hother : ∀ {a b : Json}, a.kind ≠ b.kind → a.Representable → b.Representable → Told a b := by
    intro a b hkind ha hb
    exact told_of_payload ha hb (fun h => absurd h hkind) fun h => absurd h hkind
  induction a using induct with
  | null =>
    intro b ha hb
    cases b with
    | null => exact told_of_payload ha hb (fun _ => .refl _) fun _ _ _ => .null
    | _ => exact hother (by simp [kind]) ha hb
  | bool x =>
    intro b ha hb
    cases b with
    | bool y =>
      refine told_of_payload ha hb (fun _ => .of_length rfl) fun _ _ hpayload => ?_
      obtain rfl : x = y := by cases x <;> cases y <;> first | rfl | cases hpayload
      exact .bool x
    | _ => exact hother (by simp [kind]) ha hb
  | number n =>
    intro b ha hb
    cases b with
    | number m =>
      cases ha with
      | number hn =>
        cases hb with
        | number hm => exact told_number hn hm
    | _ => exact hother (by simp [kind]) ha hb
  | string s =>
    intro b ha hb
    cases b with
    | string t =>
      cases ha with
      | string hs =>
        cases hb with
        | string ht => exact told_string hs ht
    | _ => exact hother (by simp [kind]) ha hb
  | array xs ih =>
    intro b ha hb
    cases b with
    | array ys =>
      refine told_array ha hb fun x hx y hy => ih x hx y ?_ ?_
      · cases ha with
        | array _ hxs => exact hxs x hx
      · cases hb with
        | array _ hys => exact hys y hy
    | _ => exact hother (by simp [kind]) ha hb
  | object xs ih =>
    intro b ha hb
    cases b with
    | object ys =>
      refine told_object ha hb fun x hx y hy => ih x hx y.2 ?_ ?_
      · cases ha with
        | object _ _ _ hxs => exact hxs x hx
      · cases hb with
        | object _ _ _ hys => exact hys y hy
    | _ => exact hother (by simp [kind]) ha hb

theorem map_encodeMember (entries : List (String × Json)) : entries.map encodeMember =
    (entries.map Prod.fst).zip ((entries.map Prod.snd).map encodeJson) := by
  rw [List.map_map, List.zip_map']
  rfl

/-- Equal values have equal bytes, whatever the order of their members. -/
theorem encodeJson_of_same (a : Json) : ∀ b, b.Representable → a.Same b → encodeJson a = encodeJson b := by
  induction a using induct with
  | array xs ih =>
    intro b hb h
    cases h with
    | @array _ ys h =>
      cases hb with
      | array _ hys =>
        have hvalues := Sorted.map_eq_of_forall₂ h fun x hx y hy hsame => ih x hx y (hys y hy) hsame
        rw [encodeJson, encodeJson, encodeValues_eq, encodeValues_eq, hvalues, h.length_eq]
  | object xs ih =>
    intro b hb h
    cases h with
    | @object _ ys zs horder hkeys hvalues =>
      cases hb with
      | object _ hkeysNodup _ hys =>
        have hencoded := Sorted.map_eq_of_forall₂ (f := encodeJson) hvalues fun v hv w hw hsame => by
          obtain ⟨x, hx, rfl⟩ := List.mem_map.mp hv
          obtain ⟨z, hz, rfl⟩ := List.mem_map.mp hw
          exact ih x hx z.2 (hys z (horder.mem_iff.mpr hz)) hsame
        have hmembers : xs.map encodeMember = zs.map encodeMember := by
          rw [map_encodeMember, map_encodeMember, hkeys, hencoded]
        have hnodup : ((ys.map encodeMember).map Prod.fst).Nodup := by
          rw [List.map_map]
          exact hkeysNodup
        have hsorted : sortedMembers xs = sortedMembers ys := by
          unfold sortedMembers
          rw [hmembers]
          exact (Sorted.insertionSort_of_perm (horder.map _) hnodup).symm
        have hlen : xs.length = ys.length := by
          rw [← List.length_map encodeMember, hmembers, List.length_map, horder.length_eq]
        rw [encodeJson, encodeJson, encodeMembers_eq, encodeMembers_eq, encodeEntries_eq, encodeEntries_eq,
          hsorted, hlen]
  | _ =>
    intro b hb h
    cases h
    rfl

end Json

/-! ## Actions -/

theorem encodeCapability_inj {c c' : CapabilityKind} (h : encodeCapability c = encodeCapability c') : c = c' := by
  cases c <;> cases c' <;> first | rfl | exact absurd h (by decide)

theorem splits_encodeCapability (c c' : CapabilityKind) : Splits (encodeCapability c) (encodeCapability c') :=
  .of_length rfl

/-- The two digests are taken behind different words. -/
theorem actionDigestInput_ne_toolContractInput (toolName : ToolName) (capability : CapabilityKind)
    (arguments : Json) (definition : ToolDefinition) :
    actionDigestInput toolName capability arguments ≠ toolContractInput definition := by
  intro h
  have hwords : "enterprise-local-agent/action-digest/v1\x00".toUTF8.toList.take 24 ≠
      "enterprise-local-agent/tool-contract/v1\x00".toUTF8.toList.take 24 := by
    rw [toList_eq, toList_eq]
    decide +kernel
  have hlen : 24 ≤ "enterprise-local-agent/action-digest/v1\x00".toUTF8.toList.length := by
    rw [length_utf8]
    decide +kernel
  have hlen' : 24 ≤ "enterprise-local-agent/tool-contract/v1\x00".toUTF8.toList.length := by
    rw [length_utf8]
    decide +kernel
  have htake := congrArg (List.take 24) h
  simp only [actionDigestInput, toolContractInput, List.append_assoc] at htake
  rw [List.take_append_of_le_length hlen, List.take_append_of_le_length hlen'] at htake
  exact hwords htake

/-- **The action digest binds the action.** What is fed to the hash is equal exactly if tool name and
capability are equal and the arguments are equal up to the order of members, it is never what a tool
contract feeds, and without a collision a digest covers one action only. -/
theorem actionDigestInput_eq_iff {toolName toolName' : ToolName} {capability capability' : CapabilityKind}
    {arguments arguments' : Json} (hname : toolName.value.utf8ByteSize < 2 ^ 64)
    (hname' : toolName'.value.utf8ByteSize < 2 ^ 64) (harguments : arguments.Representable)
    (harguments' : arguments'.Representable) :
    (actionDigestInput toolName capability arguments = actionDigestInput toolName' capability' arguments' ↔
      toolName = toolName' ∧ capability = capability' ∧ arguments.Same arguments') ∧
    (∀ definition, actionDigestInput toolName capability arguments ≠ toolContractInput definition) ∧
    ∀ sha256 : List UInt8 → Bytes32,
      (sha256 (actionDigestInput toolName capability arguments) =
          sha256 (actionDigestInput toolName' capability' arguments') →
        actionDigestInput toolName capability arguments = actionDigestInput toolName' capability' arguments') →
      (computeActionDigest sha256 toolName capability arguments =
          computeActionDigest sha256 toolName' capability' arguments' ↔
        toolName = toolName' ∧ capability = capability' ∧ arguments.Same arguments') := by
  have hinput : actionDigestInput toolName capability arguments =
      actionDigestInput toolName' capability' arguments' ↔
        toolName = toolName' ∧ capability = capability' ∧ arguments.Same arguments' := by
    constructor
    · intro h
      simp only [actionDigestInput, List.append_assoc] at h
      obtain ⟨hnames, hrest⟩ := splits_encodeString hname hname' (List.append_cancel_left h)
      obtain ⟨hcapabilities, hvalues⟩ := splits_encodeCapability _ _ hrest
      have heq : toolName = toolName' := by
        cases toolName
        cases toolName'
        exact congrArg ToolName.mk (encodeString_inj hname hname' hnames)
      exact ⟨heq, encodeCapability_inj hcapabilities, (Json.told _ _ harguments harguments').2 hvalues⟩
    · rintro ⟨rfl, rfl, hsame⟩
      rw [actionDigestInput, actionDigestInput, Json.encodeJson_of_same _ _ harguments' hsame]
  refine ⟨hinput, actionDigestInput_ne_toolContractInput toolName capability arguments, fun sha256 hcollision => ?_⟩
  rw [← hinput, computeActionDigest, computeActionDigest, ActionDigest.mk.injEq]
  exact ⟨hcollision, congrArg sha256⟩

/-- Arguments whose members come in the other order. -/
theorem actionDigestInput_eq_reordered :
    actionDigestInput ⟨"count"⟩ .readOnly
        (.object [("path", .string "a"), ("lines", .array [.number (.negInt 2)])]) =
      actionDigestInput ⟨"count"⟩ .readOnly
        (.object [("lines", .array [.number (.negInt 2)]), ("path", .string "a")]) := by
  have hstring : (Json.string "a").Representable := .string (by decide +kernel)
  have harray : (Json.array [.number (.negInt 2)]).Representable := by
    refine .array (by decide) ?_
    rintro _ (_ | ⟨_, ⟨⟩⟩)
    exact .number ⟨by decide, by decide⟩
  have hobject : ∀ entries : List (String × Json),
      entries.Perm [("path", .string "a"), ("lines", .array [.number (.negInt 2)])] →
        (Json.object entries).Representable := by
    intro entries hperm
    refine .object (by rw [hperm.length_eq]; decide) ((hperm.map _).nodup_iff.mpr (by decide)) ?_ ?_
    · intro e he
      have hmem := hperm.mem_iff.mp he
      simp only [List.mem_cons, List.not_mem_nil, or_false] at hmem
      rcases hmem with rfl | rfl <;> decide +kernel
    · intro e he
      have hmem := hperm.mem_iff.mp he
      simp only [List.mem_cons, List.not_mem_nil, or_false] at hmem
      rcases hmem with rfl | rfl
      · exact hstring
      · exact harray
  have hsame : (Json.object [("path", .string "a"), ("lines", .array [.number (.negInt 2)])]).Same
      (.object [("lines", .array [.number (.negInt 2)]), ("path", .string "a")]) := by
    refine .object (.swap _ _ _) rfl (.cons (.string "a") (.cons (.array ?_) .nil))
    exact .cons (.number _) .nil
  exact (actionDigestInput_eq_iff (by decide +kernel) (by decide +kernel) (hobject _ (.refl _))
    (hobject _ (.swap _ _ _))).1.mpr ⟨rfl, rfl, hsame⟩

end LocalAgent
