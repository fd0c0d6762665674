import LocalAgent.Core.Tool
import Mathlib.Data.List.Forall2

/-!
# JSON values

Induction over values whose parts are lists of values, what a value of the program can be
(`Representable`), and equality up to the order of members (`Same`).
-/
namespace LocalAgent

/-- A `u64`, an `i64` below zero, or the bits of a float. -/
def JsonNumber.Representable : JsonNumber → Prop
  | .posInt value => value < 2 ^ 64
  | .negInt magnitude => 1 ≤ magnitude ∧ magnitude ≤ 2 ^ 63
  | .float _ => True

namespace Json

/-- **Induction over values.** -/
theorem induct {P : Json → Prop} (null : P .null) (bool : ∀ value, P (.bool value))
    (number : ∀ value, P (.number value)) (string : ∀ value, P (.string value))
    (array : ∀ elements, (∀ e ∈ elements, P e) → P (.array elements))
    (object : ∀ entries, (∀ e ∈ entries, P e.2) → P (.object entries)) (value : Json) : P value :=
  @Json.rec P (fun elements => ∀ e ∈ elements, P e) (fun entries => ∀ e ∈ entries, P e.2) (fun e => P e.2)
    null bool number string array object
    (by simp) (fun _ _ hvalue hrest => List.forall_mem_cons.mpr ⟨hvalue, hrest⟩)
    (by simp) (fun _ _ hentry hrest => List.forall_mem_cons.mpr ⟨hentry, hrest⟩)
    (fun _ _ hvalue => hvalue) value

/-- Lengths are `usize`, and a map holds a key once. -/
inductive Representable : Json → Prop
  | null : Representable .null
  | bool (value : Bool) : Representable (.bool value)
  | number {value : JsonNumber} (h : value.Representable) : Representable (.number value)
  | string {value : String} (h : value.utf8ByteSize < 2 ^ 64) : Representable (.string value)
  | array {elements : List Json} (length : elements.length < 2 ^ 64)
      (h : ∀ e ∈ elements, Representable e) : Representable (.array elements)
  | object {entries : List (String × Json)} (length : entries.length < 2 ^ 64)
      (keys : (entries.map Prod.fst).Nodup) (sizes : ∀ e ∈ entries, e.1.utf8ByteSize < 2 ^ 64)
      (h : ∀ e ∈ entries, Representable e.2) : Representable (.object entries)

/-- Equal values, the members of objects in any order. -/
inductive Same : Json → Json → Prop
  | null : Same .null .null
  | bool (value : Bool) : Same (.bool value) (.bool value)
  | number (value : JsonNumber) : Same (.number value) (.number value)
  | string (value : String) : Same (.string value) (.string value)
  | array {xs ys : List Json} (h : List.Forall₂ Same xs ys) : Same (.array xs) (.array ys)
  | object {xs ys zs : List (String × Json)} (order : ys.Perm zs)
      (keys : xs.map Prod.fst = zs.map Prod.fst)
      (h : List.Forall₂ Same (xs.map Prod.snd) (zs.map Prod.snd)) : Same (.object xs) (.object ys)

end Json

end LocalAgent
