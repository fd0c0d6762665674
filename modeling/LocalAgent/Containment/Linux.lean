import LocalAgent.Harness.Ports
import LocalAgent.Lib.Text

/-!
# The workspace write tool (`agent-containment-linux/src/lib.rs:213-259`, `path.rs`)

One input is read twice: `approval_preview` shows a human what will be written, and
`start_contained` splits the path of the same input into a directory and a file name and hands
these to the worker. The split loses nothing (`written_eq_relativePath`). The preview is trimmed on
its way (`approval.rs:50`), the path is not: `label_names_written_path_iff`.
-/
namespace LocalAgent

open Text

/-! ## Input (`path.rs`) -/

/-- `MAX_CONTENT_BYTES`. -/
def maxContentBytes : Nat := 4 * 1024

/-- `MAX_RELATIVE_PATH_BYTES`. -/
def maxRelativePathBytes : Nat := 240

inductive InputError where
  | invalid | invalidPath | contentTooLarge
deriving DecidableEq, Repr

structure WriteInput where
  relativePath : String
  parent : String
  basename : String
  content : String
deriving DecidableEq, Repr

/-- `serde_json::from_value::<RawInput>`: an object with these two fields and no other, or the two
values as an array. -/
def rawInput : Json → Option (String × String)
  | .object entries =>
    if entries.all fun e => e.1 = "relative_path" || e.1 = "content" then
      match entries.lookup "relative_path", entries.lookup "content" with
      | some (.string path), some (.string content) => some (path, content)
      | _, _ => none
    else none
  | .array [.string path, .string content] => some (path, content)
  | _ => none

/-- The checks at the head of `validate_relative_path` (path.rs:53-63). -/
def pathRejected (value : String) : Bool :=
  let chars := value.toList
  value.isEmpty || value.utf8ByteSize > maxRelativePathBytes || chars.head? = some '/'
    || chars.getLast? = some '/' || (chars.zip chars.tail).contains ('/', '/')
    || chars.any Text.isControl || (chars.splitOn '/').any (!isName ·)

/-- The loop over the components (path.rs:67-74): every one is a name of at most 255 bytes. -/
def normalParts : List Component → Except InputError (List (List Char))
  | [] => .ok []
  | .normal part :: rest =>
    if !part.isEmpty && (String.ofList part).utf8ByteSize ≤ 255 then
      (normalParts rest).map (part :: ·)
    else .error .invalidPath
  | _ :: _ => .error .invalidPath

/-- `validate_relative_path` (path.rs:52): the directory and the file name. -/
def validateRelativePath (value : String) : Except InputError (String × String) :=
  if pathRejected value then .error .invalidPath
  else match normalParts (components value.toList) with
    | .error e => .error e
    | .ok parts =>
      match parts.getLast? with
      | none => .error .invalidPath
      | some basename =>
        let parent := if parts.dropLast.isEmpty then "." else String.ofList (join parts.dropLast)
        .ok (parent, String.ofList basename)

/-- `parse_input` (path.rs:31). -/
def parseInput (value : Json) : Except InputError WriteInput :=
  match rawInput value with
  | none => .error .invalid
  | some (path, content) =>
    if content.utf8ByteSize > maxContentBytes then .error .contentTooLarge
    else match validateRelativePath path with
      | .error e => .error e
      | .ok (parent, basename) => .ok ⟨path, parent, basename, content⟩

/-! ## Preview (`approval.rs:17-63`) -/

/-- `MAX_APPROVAL_PREVIEW_BYTES`. -/
def maxApprovalPreviewBytes : Nat := 256

inductive ApprovalPreviewError where
  | empty | tooLarge | controlCharacter
deriving DecidableEq, Repr

/-- `validate_preview_part` (approval.rs:49). -/
def validatePreviewPart (value : String) : Except ApprovalPreviewError String :=
  let value := trim value
  if value.isEmpty then .error .empty
  else if value.utf8ByteSize > maxApprovalPreviewBytes then .error .tooLarge
  else if value.toList.any Text.isControl then .error .controlCharacter
  else .ok value

/-- `ApprovalPreview::new` (approval.rs:18). -/
def ApprovalPreview.new (summary targetLabel : String) :
    Except ApprovalPreviewError ApprovalPreview :=
  match validatePreviewPart summary with
  | .error e => .error e
  | .ok summary =>
    match validatePreviewPart targetLabel with
    | .error e => .error e
    | .ok targetLabel => .ok ⟨summary, targetLabel⟩

/-! ## The tool (`lib.rs:213-259`) -/

/-- `WORKSPACE_WRITE_FILE_TOOL_NAME`. -/
def workspaceWriteFileToolName : ToolName := ⟨"workspace_write_file"⟩

/-- `approval_preview` (lib.rs:218). -/
def approvalPreview (input : Json) : Except ContainmentPortError ApprovalPreview :=
  match parseInput input with
  | .error _ => .error .previewRejected
  | .ok input =>
    (ApprovalPreview.new
      ("workspace_write_file (" ++ toString input.content.utf8ByteSize ++ " bytes)")
      input.relativePath).mapError fun _ => .previewRejected

/-- What `start_contained` asks for: the directory that is opened beneath the workspace, and the
`WorkerRequest` for a file in it. -/
structure ContainedWrite where
  parent : String
  toolCallId : ToolCallId
  basename : String
  content : String
deriving DecidableEq, Repr

/-- `start_contained` (lib.rs:231), up to the opening of the directory and the worker. -/
def startContained (call : ToolCall) : Except ContainmentPortError ContainedWrite :=
  if call.name ≠ workspaceWriteFileToolName then .error .infrastructure
  else match parseInput call.input with
    | .error _ => .error .infrastructure
    | .ok input => .ok ⟨input.parent, call.id, input.basename, input.content⟩

/-- The path, from the workspace, of the file that the worker replaces: `basename` in the directory
`parent` (`commit_file` renames to `basename` in the directory it was given). -/
def ContainedWrite.path (w : ContainedWrite) : String :=
  if w.parent = "." then w.basename else w.parent ++ "/" ++ w.basename

/-! ## The split loses nothing -/

theorem normalParts_ok {path : List (List Char)} {parts : List (List Char)}
    (h : normalParts (path.map .normal) = .ok parts) : parts = path := by
  induction path generalizing parts with
  | nil =>
    cases h
    rfl
  | cons part rest ih =>
    simp only [List.map_cons, normalParts] at h
    split at h
    · cases hrest : normalParts (rest.map .normal) with
      | error e =>
        rw [hrest] at h
        cases h
      | ok parts' =>
        rw [hrest] at h
        cases h
        rw [ih hrest]
    · cases h

/-- An accepted path consists of names. -/
theorem names_of_accepted {value : String} (h : pathRejected value = false) :
    value.toList.head? ≠ some '/' ∧ ∀ part ∈ value.toList.splitOn '/', isName part = true := by
  simp only [pathRejected, Bool.or_eq_false_iff, decide_eq_false_iff_not] at h
  obtain ⟨⟨⟨⟨⟨-, hroot⟩, -⟩, -⟩, -⟩, hnames⟩ := h
  refine ⟨hroot, fun part hpart => ?_⟩
  have hname := List.any_eq_false.mp hnames part hpart
  simpa using hname

/-- **Directory and file name give the path back.** -/
theorem validateRelativePath_ok {value parent basename : String}
    (h : validateRelativePath value = .ok (parent, basename)) :
    (if parent = "." then basename else parent ++ "/" ++ basename) = value := by
  unfold validateRelativePath at h
  by_cases hrejected : pathRejected value = true
  · rw [if_pos hrejected] at h
    cases h
  rw [if_neg hrejected] at h
  obtain ⟨hroot, hnames⟩ := names_of_accepted (Bool.not_eq_true _ ▸ hrejected)
  rw [components_of_names hroot hnames] at h
  cases hparts : normalParts ((value.toList.splitOn '/').map .normal) with
  | error e =>
    rw [hparts] at h
    cases h
  | ok parts =>
    obtain rfl := normalParts_ok hparts
    rw [hparts] at h
    obtain ⟨front, last, hsplit⟩ : ∃ front last, value.toList.splitOn '/' = front ++ [last] :=
      ⟨_, _, (List.dropLast_append_getLast (List.splitOn_ne_nil '/' value.toList)).symm⟩
    have hjoin : join (front ++ [last]) = value.toList := by rw [← hsplit, join_splitOn]
    simp only [hsplit, List.getLast?_concat, List.dropLast_concat] at h
    cases front with
    | nil =>
      cases h
      simp only [List.isEmpty_nil, if_true]
      rw [← String.toList_inj, String.toList_ofList, ← hjoin]
      simp [join, List.intercalate_singleton]
    | cons first rest =>
      cases h
      -- the directory is not `.`: its first part is a name
      have hdir : String.ofList (join (first :: rest)) ≠ "." := by
        intro hdot
        have hfirst := hnames first (by rw [hsplit]; simp)
        have hchars : join (first :: rest) = ['.'] := by
          rw [← String.toList_ofList (l := join (first :: rest)), hdot]
          rfl
        cases rest with
        | nil =>
          simp only [join, List.intercalate_singleton] at hchars
          rw [hchars] at hfirst
          exact absurd hfirst (by decide)
        | cons next rest =>
          have hlen := congrArg List.length hchars
          have hpos : first ≠ [] := by
            rintro rfl
            exact absurd hfirst (by decide)
          have := List.length_pos_iff.mpr hpos
          simp [join, List.intercalate_cons_cons] at hlen
          omega
      simp only [List.isEmpty_cons, Bool.false_eq_true, if_false, if_neg hdir]
      rw [← String.toList_inj, ← hjoin, join_concat (List.cons_ne_nil first rest)]
      simp

/-- What is written is the path of the input. -/
theorem written_eq_relativePath {call : ToolCall} {w : ContainedWrite}
    (h : startContained call = .ok w) :
    ∃ input, parseInput call.input = .ok input ∧ w.path = input.relativePath := by
  unfold startContained at h
  split at h
  · cases h
  cases hparse : parseInput call.input with
  | error e =>
    rw [hparse] at h
    cases h
  | ok input =>
    rw [hparse] at h
    cases h
    refine ⟨input, rfl, ?_⟩
    unfold parseInput at hparse
    split at hparse
    · cases hparse
    split at hparse
    · cases hparse
    split at hparse
    · cases hparse
    · rename_i parent basename hpath
      cases hparse
      exact validateRelativePath_ok hpath

/-! ## What the approver sees -/

theorem validatePreviewPart_ok {value shown : String} (h : validatePreviewPart value = .ok shown) :
    shown = trim value := by
  simp only [validatePreviewPart] at h
  split at h
  · cases h
  split at h
  · cases h
  split at h
  · cases h
  · exact (Except.ok.inj h).symm

/-- The label of an accepted preview. -/
theorem approvalPreview_ok {value : Json} {preview : ApprovalPreview}
    (h : approvalPreview value = .ok preview) :
    ∃ input, parseInput value = .ok input ∧ preview.targetLabel = trim input.relativePath := by
  unfold approvalPreview at h
  cases hparse : parseInput value with
  | error e =>
    rw [hparse] at h
    cases h
  | ok input =>
    rw [hparse] at h
    refine ⟨input, rfl, ?_⟩
    simp only [ApprovalPreview.new] at h
    cases hsummary : validatePreviewPart
        ("workspace_write_file (" ++ toString input.content.utf8ByteSize ++ " bytes)") with
    | error e =>
      rw [hsummary] at h
      cases h
    | ok summary =>
      cases hlabel : validatePreviewPart input.relativePath with
      | error e =>
        rw [hsummary, hlabel] at h
        cases h
      | ok label =>
        rw [hsummary, hlabel] at h
        cases h
        exact validatePreviewPart_ok hlabel

/-- The path of an input, as its text stands there. -/
def relativePathOf (value : Json) : Option String := (rawInput value).map Prod.fst

theorem relativePathOf_eq {value : Json} {input : WriteInput} (h : parseInput value = .ok input) :
    relativePathOf value = some input.relativePath := by
  unfold parseInput at h
  unfold relativePathOf
  cases hraw : rawInput value with
  | none =>
    rw [hraw] at h
    cases h
  | some raw =>
    rw [hraw] at h
    simp only at h
    split at h
    · cases h
    split at h
    · cases h
    · cases h
      rfl

/-- **The label names the written path exactly when the path has no white space at its ends.**
An accepted input can always be started. -/
theorem label_names_written_path_iff {input : Json} {preview : ApprovalPreview} (id : ToolCallId)
    (h : approvalPreview input = .ok preview) :
    ∃ w path, startContained ⟨id, workspaceWriteFileToolName, input⟩ = .ok w ∧
      relativePathOf input = some path ∧ w.path = path ∧
      (preview.targetLabel = w.path ↔ isBare path = true) := by
  obtain ⟨parsed, hparse, hlabel⟩ := approvalPreview_ok h
  have hstart : startContained ⟨id, workspaceWriteFileToolName, input⟩ =
      .ok ⟨parsed.parent, id, parsed.basename, parsed.content⟩ := by
    simp [startContained, hparse]
  obtain ⟨parsed', hparse', hpath⟩ := written_eq_relativePath hstart
  obtain rfl : parsed = parsed' := Except.ok.inj (hparse.symm.trans hparse')
  refine ⟨_, parsed.relativePath, hstart, relativePathOf_eq hparse, hpath, ?_⟩
  rw [hlabel, hpath]
  exact trim_eq_self_iff

/-- An input of the tool. -/
def writeInput (path content : String) : Json :=
  .object [("relative_path", .string path), ("content", .string content)]

/-- A preview of a plain path names the path. -/
theorem label_names_plain_path :
    approvalPreview (writeInput "reports/a.txt" "x") =
        .ok ⟨"workspace_write_file (1 bytes)", "reports/a.txt"⟩ ∧
      ∃ w path, startContained ⟨⟨1⟩, workspaceWriteFileToolName, writeInput "reports/a.txt" "x"⟩ =
          .ok w ∧ relativePathOf (writeInput "reports/a.txt" "x") = some path ∧ w.path = path ∧
        (("reports/a.txt" : String) = w.path ↔ isBare path = true) := by
  have h : approvalPreview (writeInput "reports/a.txt" "x") =
      .ok ⟨"workspace_write_file (1 bytes)", "reports/a.txt"⟩ := by decide +kernel
  exact ⟨h, label_names_written_path_iff ⟨1⟩ h⟩

/-- Two inputs that write two files and show one label. -/
theorem one_label_for_two_paths :
    approvalPreview (writeInput "a.txt" "x") = .ok ⟨"workspace_write_file (1 bytes)", "a.txt"⟩ ∧
      approvalPreview (writeInput "a.txt " "x") = .ok ⟨"workspace_write_file (1 bytes)", "a.txt"⟩ ∧
      (startContained ⟨⟨1⟩, workspaceWriteFileToolName, writeInput "a.txt" "x"⟩).map
        ContainedWrite.path = .ok "a.txt" ∧
      (startContained ⟨⟨1⟩, workspaceWriteFileToolName, writeInput "a.txt " "x"⟩).map
        ContainedWrite.path = .ok "a.txt " := by
  decide +kernel

end LocalAgent
