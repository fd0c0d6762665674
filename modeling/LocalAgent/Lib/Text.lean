import Mathlib.Data.String.Basic
import Mathlib.Data.List.DropRight

/-!
# Texts and relative paths

Characters as Unicode classes them (`White_Space` and `Cc`), trimming, and the components of a
path text. A path whose parts are all plain names has these parts as its components
(`components_of_names`), and joining them gives the text back (`join_splitOn`).
-/
namespace Text

/-! ## Characters -/

/-- The characters with the Unicode property `White_Space`. -/
def isWhitespace (c : Char) : Bool :=
  c.toNat ∈ [0x20, 0x85, 0xA0, 0x1680, 0x2028, 0x2029, 0x202F, 0x205F, 0x3000]
    || (0x09 ≤ c.toNat && c.toNat ≤ 0x0D) || (0x2000 ≤ c.toNat && c.toNat ≤ 0x200A)

/-- The characters of the Unicode category `Cc`. -/
def isControl (c : Char) : Bool :=
  c.toNat ≤ 0x1F || (0x7F ≤ c.toNat && c.toNat ≤ 0x9F)

/-! ## Trimming -/

/-- The text without the white space at its two ends. -/
def trim (s : String) : String :=
  String.ofList ((s.toList.dropWhile isWhitespace).rdropWhile isWhitespace)

/-- No white space at either end. -/
def isBare (s : String) : Bool :=
  s.toList.head?.all (!isWhitespace ·) && s.toList.getLast?.all (!isWhitespace ·)

theorem dropWhile_eq_self_iff_head? {α : Type} {p : α → Bool} {l : List α} :
    l.dropWhile p = l ↔ l.head?.all (!p ·) = true := by
  cases l with
  | nil => simp
  | cons a l =>
    simp only [List.dropWhile_cons, List.head?_cons, Option.all_some, Bool.not_eq_true']
    by_cases hp : p a = true
    · simp only [hp, if_true, Bool.true_eq_false, iff_false]
      intro h
      have hle := (List.dropWhile_suffix (l := l) p).length_le
      rw [h, List.length_cons] at hle
      omega
    · simp [hp]

theorem rdropWhile_eq_self_iff_getLast? {α : Type} {p : α → Bool} {l : List α} :
    l.rdropWhile p = l ↔ l.getLast?.all (!p ·) = true := by
  rw [List.rdropWhile, List.reverse_eq_iff, dropWhile_eq_self_iff_head?, List.head?_reverse]

/-- **Trimming changes nothing** exactly where there is nothing to trim. -/
theorem trim_eq_self_iff {s : String} : trim s = s ↔ isBare s = true := by
  unfold trim isBare
  rw [← String.toList_inj, String.toList_ofList, Bool.and_eq_true, ← dropWhile_eq_self_iff_head?,
    ← rdropWhile_eq_self_iff_getLast?]
  constructor
  · intro h
    have hprefix := List.rdropWhile_prefix isWhitespace (l := s.toList.dropWhile isWhitespace)
    have hsuffix := List.dropWhile_suffix (l := s.toList) isWhitespace
    rw [h] at hprefix
    have hlen := Nat.le_antisymm hsuffix.length_le hprefix.length_le
    have hfront := hsuffix.eq_of_length hlen
    rw [hfront] at h
    exact ⟨hfront, h⟩
  · rintro ⟨hfront, hback⟩
    rw [hfront, hback]

/-! ## Paths -/

/-- `std::path::Component` on Unix. -/
inductive Component where
  | rootDir
  | curDir
  | parentDir
  | normal (part : List Char)
deriving DecidableEq

/-- What is left of a part between separators: repeated separators and `.` disappear. -/
def component : List Char → Option Component
  | [] => none
  | ['.'] => none
  | ['.', '.'] => some .parentDir
  | part => some (.normal part)

/-- `Path::components`: a leading separator is the root, a leading `.` stays. -/
def components (path : List Char) : List Component :=
  let parts := path.splitOn '/'
  (if path.head? = some '/' then [.rootDir]
    else if parts.head? = some ['.'] then [.curDir] else []) ++ parts.filterMap component

/-- A part that is a plain name. -/
def isName (part : List Char) : Bool := !(part = [] || part = ['.'] || part = ['.', '.'])

theorem component_of_isName {part : List Char} (h : isName part = true) :
    component part = some (.normal part) := by
  simp only [isName, Bool.not_eq_true', Bool.or_eq_false_iff, decide_eq_false_iff_not] at h
  obtain ⟨⟨hne, hdot⟩, hdots⟩ := h
  unfold component
  split
  · exact absurd rfl hne
  · exact absurd rfl hdot
  · exact absurd rfl hdots
  · rfl

/-- A path of plain names has just these as its components. -/
theorem components_of_names {path : List Char} (hroot : path.head? ≠ some '/')
    (h : ∀ part ∈ path.splitOn '/', isName part = true) :
    components path = (path.splitOn '/').map .normal := by
  have hhead : (path.splitOn '/').head? ≠ some ['.'] := by
    intro hdot
    exact absurd (h _ (List.mem_of_mem_head? hdot)) (by decide)
  have hparts : (path.splitOn '/').filterMap component = (path.splitOn '/').map .normal := by
    rw [← List.filterMap_eq_map]
    exact List.filterMap_congr fun part hpart => component_of_isName (h part hpart)
  simp only [components, if_neg hroot, if_neg hhead, List.nil_append, hparts]

/-- The parts of a path in one text. -/
def join (parts : List (List Char)) : List Char := ['/'].intercalate parts

@[simp] theorem join_splitOn {path : List Char} : join (path.splitOn '/') = path :=
  List.intercalate_splitOn '/'

/-- A part has no separator, and no more in it than the path. -/
theorem splitOn_part {sep : Char} {path : List Char} :
    ∀ part ∈ path.splitOn sep, sep ∉ part ∧ part.Sublist path := by
  induction path with
  | nil => simp
  | cons c path ih =>
    rw [List.splitOn_cons_eq_if_modifyHead]
    by_cases hc : c = sep
    · subst hc
      simp only [beq_self_eq_true, if_true]
      intro part hpart
      rcases List.mem_cons.mp hpart with rfl | hpart
      · simp
      · exact ⟨(ih part hpart).1, (ih part hpart).2.cons c⟩
    · rw [if_neg (by simpa using hc)]
      cases hparts : path.splitOn sep with
      | nil => simp
      | cons first rest =>
        rw [hparts] at ih
        intro part hpart
        simp only [List.modifyHead_cons] at hpart
        rcases List.mem_cons.mp hpart with rfl | hpart
        · obtain ⟨hfirst, hsub⟩ := ih first (by simp)
          exact ⟨by simp [hfirst, Ne.symm hc], hsub.cons_cons c⟩
        · obtain ⟨hpart', hsub⟩ := ih part (by simp [hpart])
          exact ⟨hpart', hsub.cons c⟩

/-- Where no part but the first can be empty, separators stand neither at the end nor side by side. -/
theorem splitOn_separated {sep : Char} {path : List Char}
    (h : ∀ part ∈ (path.splitOn sep).tail, part ≠ []) :
    path.getLast? ≠ some sep ∧ (sep, sep) ∉ path.zip path.tail := by
  induction path with
  | nil => simp
  | cons c path ih =>
    rw [List.splitOn_cons_eq_if_modifyHead] at h
    by_cases hc : c = sep
    · subst hc
      simp only [beq_self_eq_true, if_true, List.tail_cons] at h
      obtain ⟨hlast, hadj⟩ := ih fun part hpart => h part (List.mem_of_mem_tail hpart)
      cases path with
      | nil => exact absurd rfl (h [] (by simp))
      | cons d path =>
        have hd : d ≠ c := by
          rintro rfl
          exact h [] (by simp [List.splitOn_cons_eq_if_modifyHead]) rfl
        simp only [List.getLast?_cons_cons, List.tail_cons, List.zip_cons_cons, List.mem_cons,
          Prod.mk.injEq, true_and, not_or]
        exact ⟨hlast, Ne.symm hd, hadj⟩
    · rw [if_neg (by simpa using hc), List.tail_modifyHead] at h
      obtain ⟨hlast, hadj⟩ := ih h
      cases path with
      | nil => simpa using hc
      | cons d path =>
        simp only [List.getLast?_cons_cons, List.tail_cons, List.zip_cons_cons, List.mem_cons,
          Prod.mk.injEq, not_or, not_and]
        exact ⟨hlast, fun h => absurd h.symm hc, hadj⟩

/-- A part takes no more bytes than the path. -/
theorem splitOn_part_bytes {sep : Char} {path : String} {part : List Char}
    (h : part ∈ path.toList.splitOn sep) : (String.ofList part).utf8ByteSize ≤ path.utf8ByteSize := by
  rw [String.utf8ByteSize_ofList, ← String.utf8Len_toList path]
  exact String.utf8Len_le_of_sublist (splitOn_part part h).2

theorem join_concat {parts : List (List Char)} {last : List Char} (hne : parts ≠ []) :
    join (parts ++ [last]) = join parts ++ '/' :: last := by
  induction parts with
  | nil => exact absurd rfl hne
  | cons part rest ih =>
    cases rest with
    | nil => simp [join, List.intercalate_cons_cons, List.intercalate_singleton]
    | cons next rest =>
      have hstep := ih (List.cons_ne_nil next rest)
      simp only [join, List.cons_append] at hstep ⊢
      rw [List.intercalate_cons_cons, List.intercalate_cons_cons, hstep]
      simp

end Text
