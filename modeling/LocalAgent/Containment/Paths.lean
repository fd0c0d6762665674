import LocalAgent.Containment.Linux

/-!
# One path, three validators

The path of a durable write is checked when the action is suspended
(`LocalWriteActionCapsuleV1::new`, durable_approval.rs:50), when the write is prepared on the host
(`parse_input`, path.rs:31) and once more in the sandboxed worker, which gets the file name only
(`write_file`, enterprise-local-write-worker.rs:205). The host's further checks (no `/` at the end,
no `//`, no component over 255 bytes, `Path::components`) reject nothing more
(`pathRejected_eq`, `validateRelativePath_of_accepted`), and what it hands to the worker passes there.
-/
namespace LocalAgent

open Text

/-- The checks of the worker's `write_file` (enterprise-local-write-worker.rs:210). -/
def writeFileRejected (basename content : String) : Bool :=
  basename.isEmpty || basename = "." || basename = ".." || basename.toList.contains '/'
    || basename.toList.any Text.isControl || content.utf8ByteSize > maxContentBytes

/-! ## The host's path check -/

/-- Of the checks at the head of `validate_relative_path` two follow from the others. -/
theorem pathRejected_eq {value : String} :
    pathRejected value = (value.isEmpty || value.utf8ByteSize > maxRelativePathBytes
      || value.toList.head? = some '/' || value.toList.any Text.isControl
      || (value.toList.splitOn '/').any (!isName ·)) := by
  cases hnames : (value.toList.splitOn '/').any (!isName ·) with
  | true => simp [pathRejected, hnames]
  | false =>
    have hne : ∀ part ∈ (value.toList.splitOn '/').tail, part ≠ [] := by
      rintro part hpart rfl
      exact List.any_eq_false.mp hnames [] (List.mem_of_mem_tail hpart) (by decide)
    obtain ⟨hlast, hadj⟩ := splitOn_separated hne
    simp [pathRejected, hnames, hlast, hadj]

/-- No part of an accepted path is too long for a file name. -/
theorem part_bytes_of_accepted {value : String} {part : List Char}
    (h : pathRejected value = false) (hpart : part ∈ value.toList.splitOn '/') :
    (String.ofList part).utf8ByteSize ≤ 255 := by
  have hle := splitOn_part_bytes hpart
  rw [pathRejected_eq] at h
  simp only [Bool.or_eq_false_iff, decide_eq_false_iff_not, Nat.not_lt] at h
  have hmax : maxRelativePathBytes = 240 := rfl
  omega

theorem normalParts_map {path : List (List Char)}
    (h : ∀ part ∈ path, isName part = true ∧ (String.ofList part).utf8ByteSize ≤ 255) :
    normalParts (path.map .normal) = .ok path := by
  induction path with
  | nil => rfl
  | cons part rest ih =>
    obtain ⟨hname, hbytes⟩ := h part (by simp)
    have hne : part.isEmpty = false := by
      cases part with
      | nil => exact absurd hname (by decide)
      | cons _ _ => rfl
    have hrest := ih fun p hp => h p (by simp [hp])
    simp only [List.map_cons, normalParts, hne, Bool.not_false, Bool.true_and, hbytes, decide_true,
      if_true, hrest]
    rfl

/-- An accepted path is split at its last separator. -/
theorem validateRelativePath_of_accepted {value : String} (h : pathRejected value = false) :
    ∃ parent last, last ∈ value.toList.splitOn '/' ∧
      validateRelativePath value = .ok (parent, String.ofList last) := by
  obtain ⟨hroot, hnames⟩ := names_of_accepted h
  have hparts : normalParts (components value.toList) = .ok (value.toList.splitOn '/') := by
    rw [components_of_names hroot hnames]
    exact normalParts_map fun part hpart => ⟨hnames part hpart, part_bytes_of_accepted h hpart⟩
  have hne := List.splitOn_ne_nil '/' value.toList
  unfold validateRelativePath
  rw [if_neg (by simp [h]), hparts]
  simp only [List.getLast?_eq_some_getLast hne]
  exact ⟨_, _, List.getLast_mem hne, rfl⟩

/-! ## The three validators -/

theorem rawInput_writeInput {path content : String} :
    rawInput (writeInput path content) = some (path, content) := rfl

/-- What an accepted input is split into. -/
theorem parseInput_writeInput {path content parent basename : String}
    (hcontent : content.utf8ByteSize ≤ maxContentBytes)
    (hsplit : validateRelativePath path = .ok (parent, basename)) :
    parseInput (writeInput path content) = .ok ⟨path, parent, basename, content⟩ := by
  simp only [parseInput, rawInput_writeInput, hsplit, if_neg (Nat.not_lt.mpr hcontent)]

/-- What the host accepts. -/
theorem parseInput_ok_iff {path content : String} :
    (∃ input, parseInput (writeInput path content) = .ok input) ↔
      pathRejected path = false ∧ content.utf8ByteSize ≤ maxContentBytes := by
  unfold parseInput
  rw [rawInput_writeInput]
  by_cases hlen : content.utf8ByteSize > maxContentBytes
  · simp only [hlen, if_true, reduceCtorEq, exists_false, false_iff, not_and, Nat.not_le]
    exact fun _ => trivial
  · simp only [hlen, if_false]
    cases hrejected : pathRejected path with
    | true => simp [validateRelativePath, hrejected]
    | false =>
      obtain ⟨parent, last, -, hsplit⟩ := validateRelativePath_of_accepted hrejected
      simp only [hsplit, Except.ok.injEq, exists_eq', true_and, true_iff]
      omega

/-- What the capsule accepts. -/
theorem capsule_ok_iff {path content : String} :
    (∃ capsule, LocalWriteActionCapsule.new path content = .ok capsule) ↔
      pathRejected path = false ∧ content.utf8ByteSize ≤ maxContentBytes := by
  have hparts : (path.toList.splitOn '/').any (!isName ·) =
      (path.toList.splitOn '/').any fun part =>
        part.isEmpty || part = ['.'] || part = ['.', '.'] := by
    congr 1
    funext part
    cases part <;> simp [isName]
  have hnew : LocalWriteActionCapsule.new path content =
      if pathRejected path || content.utf8ByteSize > maxContentBytes then .error .invalidCapsule
      else .ok ⟨path, content⟩ := by
    rw [pathRejected_eq, hparts]
    rfl
  rw [hnew]
  by_cases hrejected : (pathRejected path || decide (content.utf8ByteSize > maxContentBytes)) = true
  · rw [if_pos hrejected]
    simp only [Bool.or_eq_true, decide_eq_true_eq] at hrejected
    simp only [reduceCtorEq, exists_false, false_iff, not_and, Nat.not_le]
    intro haccepted
    simpa [haccepted] using hrejected
  · rw [if_neg hrejected]
    simp only [Bool.not_eq_true, Bool.or_eq_false_iff, decide_eq_false_iff_not, Nat.not_lt] at hrejected
    simp [hrejected]

/-- The file name of an accepted input passes the worker's checks. -/
theorem writeFile_accepts {path content : String} {last : List Char}
    (h : pathRejected path = false) (hlast : last ∈ path.toList.splitOn '/')
    (hlen : content.utf8ByteSize ≤ maxContentBytes) :
    writeFileRejected (String.ofList last) content = false := by
  have hname := (names_of_accepted h).2 last hlast
  obtain ⟨hslash, hsub⟩ := splitOn_part last hlast
  rw [pathRejected_eq] at h
  simp only [Bool.or_eq_false_iff] at h
  have hcontrol : last.any Text.isControl = false := by
    rw [List.any_eq_false]
    exact fun c hc => List.any_eq_false.mp h.1.2 c (hsub.subset hc)
  simp only [isName, Bool.not_eq_true', Bool.or_eq_false_iff, decide_eq_false_iff_not] at hname
  obtain ⟨⟨hempty, hdot⟩, hdots⟩ := hname
  have heq {s : String} : (String.ofList last = s) ↔ last = s.toList := by
    rw [← String.toList_inj, String.toList_ofList]
  simp [writeFileRejected, heq, hempty, hdot, hdots, hslash, hcontrol, hlen]

/-- **The validators agree.** The capsule accepts what the host accepts. Directory and file name of
an accepted input give its path back, no component of it is empty, `.` or `..`, and the worker
accepts the file name. -/
theorem path_validators_agree (path content : String) :
    ((∃ capsule, LocalWriteActionCapsule.new path content = .ok capsule) ↔
      ∃ input, parseInput (writeInput path content) = .ok input) ∧
    ∀ input, parseInput (writeInput path content) = .ok input →
      (if input.parent = "." then input.basename else input.parent ++ "/" ++ input.basename) = path ∧
      (∀ part ∈ path.toList.splitOn '/', part ≠ [] ∧ part ≠ ['.'] ∧ part ≠ ['.', '.']) ∧
      writeFileRejected input.basename input.content = false := by
  refine ⟨capsule_ok_iff.trans parseInput_ok_iff.symm, fun input hinput => ?_⟩
  obtain ⟨haccepted, hlen⟩ := parseInput_ok_iff.mp ⟨input, hinput⟩
  obtain ⟨parent, last, hlast, hsplit⟩ := validateRelativePath_of_accepted haccepted
  have hparsed : input = ⟨path, parent, String.ofList last, content⟩ :=
    Except.ok.inj (hinput.symm.trans (parseInput_writeInput hlen hsplit))
  subst hparsed
  refine ⟨validateRelativePath_ok hsplit, fun part hpart => ?_, writeFile_accepts haccepted hlast hlen⟩
  have hname := (names_of_accepted haccepted).2 part hpart
  simpa [isName, and_assoc] using hname

/-- A path in a directory, and one that climbs out of it. -/
theorem path_validators_agree_on_reports :
    writeFileRejected "a.txt" "x" = false ∧
      (∃ input, parseInput (writeInput "reports/a.txt" "x") = .ok input) ∧
      ¬ ∃ capsule, LocalWriteActionCapsule.new "reports/../a.txt" "x" = .ok capsule := by
  have haccepted : parseInput (writeInput "reports/a.txt" "x") =
      .ok ⟨"reports/a.txt", "reports", "a.txt", "x"⟩ := by decide +kernel
  have hrejected : LocalWriteActionCapsule.new "reports/../a.txt" "x" = .error .invalidCapsule := by
    decide +kernel
  exact ⟨((path_validators_agree "reports/a.txt" "x").2 _ haccepted).2.2, ⟨_, haccepted⟩,
    fun ⟨_, h⟩ => by simp [hrejected] at h⟩

end LocalAgent
