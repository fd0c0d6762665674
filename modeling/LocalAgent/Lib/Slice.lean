import Mathlib.Algebra.Group.Nat.Defs
import Mathlib.Data.String.Basic

/-!
# Slices of a text by byte offsets

A text is cut at a byte offset if the offset lies between two characters. A slice that begins or ends
inside of a character does not exist.
-/
namespace Text

/-- The text before a byte offset and the text after it. -/
def splitAtByte : Nat → List Char → Option (List Char × List Char)
  | 0, text => some ([], text)
  | _ + 1, [] => none
  | n + 1, c :: rest =>
    if n + 1 < c.utf8Size then none
    else (splitAtByte (n + 1 - c.utf8Size) rest).map fun cut => (c :: cut.1, cut.2)

/-- The bytes from `start` on, up to `stop`. -/
def slice (start stop : Nat) (text : List Char) : Option (List Char) :=
  (splitAtByte start text).bind fun cut => (splitAtByte (stop - start) cut.2).map Prod.fst

variable {n : Nat} {text before after : List Char}

theorem splitAtByte_append (before after : List Char) :
    splitAtByte (String.utf8Len before) (before ++ after) = some (before, after) := by
  induction before with
  | nil => cases after <;> rfl
  | cons c before ih =>
    have hpos := c.utf8Size_pos
    obtain ⟨m, hm⟩ : ∃ m, String.utf8Len (c :: before) = m + 1 :=
      ⟨String.utf8Len before + c.utf8Size - 1, by rw [String.utf8Len_cons]; omega⟩
    have hrest : m + 1 - c.utf8Size = String.utf8Len before := by
      rw [← hm, String.utf8Len_cons]
      omega
    rw [String.utf8Len_cons] at hm
    rw [String.utf8Len_cons, hm, List.cons_append, splitAtByte, if_neg (by omega), hrest, ih,
      Option.map_some]

theorem splitAtByte_eq_some :
    splitAtByte n text = some (before, after) ↔ text = before ++ after ∧ String.utf8Len before = n := by
  constructor
  · intro h
    fun_induction splitAtByte n text generalizing before with
    | case1 text =>
      obtain ⟨rfl, rfl⟩ := Prod.mk.inj (Option.some.inj h)
      exact ⟨rfl, rfl⟩
    | case2 => cases h
    | case3 => cases h
    | case4 n c rest hlong ih =>
      obtain ⟨cut, hcut, heq⟩ := Option.map_eq_some_iff.mp h
      obtain ⟨rfl, rfl⟩ := Prod.mk.inj heq
      obtain ⟨rfl, hlen⟩ := ih hcut
      refine ⟨rfl, ?_⟩
      rw [String.utf8Len_cons, hlen]
      omega
  · rintro ⟨rfl, rfl⟩
    exact splitAtByte_append before after

/-- A slice that begins where a part of the text ends. -/
theorem slice_append (before text : List Char) (n : Nat) :
    slice (String.utf8Len before) (String.utf8Len before + n) (before ++ text) =
      (splitAtByte n text).map Prod.fst := by
  rw [slice, splitAtByte_append, Option.bind_some, Nat.add_sub_cancel_left]

end Text
