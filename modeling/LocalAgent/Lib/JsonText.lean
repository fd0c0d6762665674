import Mathlib.Algebra.GroupWithZero.Nat
import Mathlib.Data.String.Basic

/-!
# The text of JSON values

How a compact writer prints strings, arrays and objects, and how many bytes that takes. An object
takes for each member the escaped key, the value and four more bytes (two quotes, colon, comma), and
one byte besides (`utf8Len_object`). What escaping adds to a string is left as `escapedBytes`.
-/
namespace JsonText

open String

/-! ## Texts -/

/-- A lower-case hexadecimal digit. -/
def hexDigit (n : Nat) : Char := Nat.digitChar (n % 16)

/-- A character in a string: quotes, backslashes and the characters below U+0020 are escaped, five of
these by a letter. -/
def escape (c : Char) : List Char :=
  if c = '"' then ['\\', '"']
  else if c = '\\' then ['\\', '\\']
  else if c.toNat < 0x20 then
    match c.toNat with
    | 0x08 => ['\\', 'b']
    | 0x09 => ['\\', 't']
    | 0x0A => ['\\', 'n']
    | 0x0C => ['\\', 'f']
    | 0x0D => ['\\', 'r']
    | n => ['\\', 'u', '0', '0', hexDigit (n / 16), hexDigit n]
  else [c]

def escaped (s : String) : List Char := s.toList.flatMap escape

def quote (s : String) : List Char := '"' :: escaped s ++ ['"']

def separated (parts : List (List Char)) : List Char := [','].intercalate parts

def array (elements : List (List Char)) : List Char := '[' :: separated elements ++ [']']

/-- An object from its keys and the texts of its values. -/
def object (members : List (String × List Char)) : List Char :=
  '{' :: separated (members.map fun m => quote m.1 ++ ':' :: m.2) ++ ['}']

/-! ## Indented texts -/

/-- A new line at a depth, two blanks for each level. -/
def newline (depth : Nat) : List Char := '\n' :: List.replicate (2 * depth) ' '

/-- Parts on lines of their own, one level deeper. -/
def indented (depth : Nat) (parts : List (List Char)) : List Char :=
  newline (depth + 1) ++ (',' :: newline (depth + 1)).intercalate parts ++ newline depth

def prettyArray (depth : Nat) (elements : List (List Char)) : List Char :=
  if elements.isEmpty then ['[', ']'] else '[' :: indented depth elements ++ [']']

/-- An object with at least one member. -/
def prettyObject (depth : Nat) (members : List (String × List Char)) : List Char :=
  '{' :: indented depth (members.map fun m => quote m.1 ++ ':' :: ' ' :: m.2) ++ ['}']

/-! ## Bytes -/

/-- The bytes of a text. -/
def utf8Bytes (text : List Char) : List UInt8 := (String.ofList text).toByteArray.data.toList

@[simp] theorem length_utf8Bytes (text : List Char) : (utf8Bytes text).length = utf8Len text := by
  rw [utf8Bytes, Array.length_toList, ← utf8ByteSize_ofList]
  rfl

/-- The bytes of a string between its quotes. -/
def escapedBytes (s : String) : Nat := utf8Len (escaped s)

theorem utf8Len_quote (s : String) : utf8Len (quote s) = escapedBytes s + 2 := by
  simp only [quote, escapedBytes, List.cons_append, utf8Len_cons, utf8Len_append, utf8Len_nil]
  have h : ('"' : Char).utf8Size = 1 := rfl
  omega

theorem utf8Len_intercalate {sep : List Char} {parts : List (List Char)} (h : parts ≠ []) :
    utf8Len (sep.intercalate parts) + utf8Len sep = (parts.map fun p => utf8Len p + utf8Len sep).sum := by
  induction parts with
  | nil => exact absurd rfl h
  | cons part rest ih =>
    cases rest with
    | nil => simp [List.intercalate_singleton]
    | cons next rest =>
      have hrest := ih (List.cons_ne_nil next rest)
      rw [List.intercalate_cons_cons, List.map_cons, List.sum_cons, ← hrest]
      simp only [utf8Len_append]
      omega

theorem utf8Len_separated {parts : List (List Char)} (h : parts ≠ []) :
    utf8Len (separated parts) + 1 = (parts.map fun p => utf8Len p + 1).sum :=
  utf8Len_intercalate h

/-- **The size of an object** with at least one member. -/
theorem utf8Len_object {members : List (String × List Char)} (h : members ≠ []) :
    utf8Len (object members) =
      (members.map fun m => escapedBytes m.1 + utf8Len m.2 + 4).sum + 1 := by
  have hparts : members.map (fun m => quote m.1 ++ ':' :: m.2) ≠ [] := by simpa using h
  have hmember : ∀ m : String × List Char,
      utf8Len (quote m.1 ++ ':' :: m.2) + 1 = escapedBytes m.1 + utf8Len m.2 + 4 := by
    intro m
    have hcolon : (':' : Char).utf8Size = 1 := rfl
    rw [utf8Len_append, utf8Len_quote, utf8Len_cons]
    omega
  have hsum := utf8Len_separated hparts
  simp only [List.map_map, Function.comp_def, hmember] at hsum
  have hopen : ('{' : Char).utf8Size = 1 := rfl
  have hclose : ('}' : Char).utf8Size = 1 := rfl
  simp only [object, List.cons_append, utf8Len_cons, utf8Len_append, utf8Len_nil]
  omega

theorem escapedBytes_of_plain {s : String} (h : ∀ c ∈ s.toList, escape c = [c]) :
    escapedBytes s = s.utf8ByteSize := by
  have hplain : escaped s = s.toList := by
    rw [escaped, List.flatMap_congr h, List.flatMap_singleton']
  rw [escapedBytes, hplain, utf8Len_toList]

theorem escapedBytes_of_ascii {s : String} (h : ∀ c ∈ s.toList, escape c = [c] ∧ c.utf8Size = 1) :
    escapedBytes s = s.toList.length := by
  rw [escapedBytes_of_plain fun c hc => (h c hc).1, ← utf8Len_toList]
  generalize s.toList = chars at h
  induction chars with
  | nil => rfl
  | cons c rest ih =>
    rw [utf8Len_cons, ih fun d hd => h d (List.mem_cons_of_mem c hd), (h c List.mem_cons_self).2,
      List.length_cons]

/-! ## The same character over and over -/

theorem utf8ByteSize_replicate (n : Nat) (c : Char) :
    (ofList (List.replicate n c)).utf8ByteSize = n * c.utf8Size := by
  rw [utf8ByteSize_ofList]
  induction n with
  | zero => simp
  | succ n ih => rw [List.replicate_succ, utf8Len_cons, ih, Nat.succ_mul]

theorem escapedBytes_replicate (n : Nat) (c : Char) :
    escapedBytes (ofList (List.replicate n c)) = n * utf8Len (escape c) := by
  unfold escapedBytes escaped
  rw [toList_ofList]
  induction n with
  | zero => simp
  | succ n ih =>
    rw [List.replicate_succ, List.flatMap_cons, utf8Len_append, ih, Nat.succ_mul, Nat.add_comm]

end JsonText
