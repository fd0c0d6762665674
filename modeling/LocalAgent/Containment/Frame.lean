import LocalAgent.Harness.Arguments

/-!
# The request to the worker (`protocol.rs:4-26`, `launcher.rs:27-45`)

`start_contained` parses the input of an approved call, opens the directory and sends the worker one
JSON frame of at most 8 KiB. The frame carries 129 bytes besides the escaped file name and content,
the arguments carried 33 besides the escaped path and content, and both have the same limit. What the
directory does not make up for of the 96 bytes between them is missing (`framed_iff`).
-/
namespace LocalAgent

open JsonText String

/-- `PROTOCOL_VERSION`. -/
def protocolVersion : Nat := 1

/-- `MAX_PROTOCOL_FRAME_BYTES`. -/
def maxProtocolFrameBytes : Nat := 8 * 1024

/-- `WorkerRequest::WorkspaceWriteFile`. -/
structure WorkspaceWriteFile where
  version : Nat
  toolCallId : ToolCallId
  basename : String
  content : String

/-- `serde_json::to_vec` of the request: the tag, then the fields in the order of their
declaration. -/
def WorkspaceWriteFile.text (request : WorkspaceWriteFile) : List Char :=
  JsonText.object [("operation", quote "workspace_write_file"),
    ("version", (toString request.version).toList),
    ("tool_call_id", quote (uuidText request.toolCallId.uuid)),
    ("basename", quote request.basename), ("content", quote request.content)]

/-- The head of `SpawnedWorker::spawn` (launcher.rs:33): the payload and the length that is sent
before it. -/
def WorkspaceWriteFile.frame (request : WorkspaceWriteFile) :
    Except ContainmentPortError (Nat × List Char) :=
  if utf8Len request.text > maxProtocolFrameBytes then .error .unavailable
  else .ok (utf8Len request.text, request.text)

/-- The request that `start_contained` builds (lib.rs:248). -/
def ContainedWrite.request (w : ContainedWrite) : WorkspaceWriteFile :=
  ⟨protocolVersion, w.toolCallId, w.basename, w.content⟩

/-- `start_contained` (lib.rs:231) in a directory that can be opened: what the worker is sent. -/
def startWorker (call : ToolCall) : Except ContainmentPortError (Nat × List Char) :=
  match startContained call with
  | .error e => .error e
  | .ok w => w.request.frame

/-- Arguments that come to the launcher: within the limits, of the schema, and parsed. -/
structure Launchable (formatFloat : UInt64 → List Char) (arguments : Json) (input : WriteInput) :
    Prop where
  keysDistinct : arguments.KeysDistinct
  limits : validateArgumentLimits formatFloat arguments = .ok ()
  schema : workspaceWriteSchema arguments = true
  parsed : parseInput arguments = .ok input

variable {formatFloat : UInt64 → List Char} {arguments : Json} {input : WriteInput}

/-- An identifier is printed as it is. -/
theorem escapedBytes_uuidText (uuid : Nat) : escapedBytes (uuidText uuid) = 36 := by
  have hdash : JsonText.escape '-' = ['-'] ∧ ('-' : Char).utf8Size = 1 := by decide
  have hdigit : ∀ d : Fin 16, JsonText.escape (Nat.digitChar d) = [Nat.digitChar d] ∧
      (Nat.digitChar d).utf8Size = 1 := by decide
  have hdigits : ∀ c ∈ (List.range 32).map fun i => Nat.digitChar (uuid / 16 ^ (31 - i) % 16),
      JsonText.escape c = [c] ∧ c.utf8Size = 1 := by
    intro c hc
    obtain ⟨i, -, rfl⟩ := List.mem_map.mp hc
    exact hdigit ⟨uuid / 16 ^ (31 - i) % 16, Nat.mod_lt _ (by decide)⟩
  rw [escapedBytes_of_ascii]
  · simp [uuidText]
  · intro c hc
    simp only [uuidText, toList_ofList, List.mem_append, List.mem_cons] at hc
    rcases hc with ((((h | rfl | h) | rfl | h) | rfl | h) | rfl | h)
    all_goals first
      | exact hdash
      | exact hdigits c (List.mem_of_mem_drop (List.mem_of_mem_take h))

/-- The size of a frame. -/
theorem ContainedWrite.request_bytes (w : ContainedWrite) :
    utf8Len w.request.text = escapedBytes w.basename + escapedBytes w.content + 129 := by
  have hoperation : escapedBytes "operation" = 9 := by decide +kernel
  have hversion : escapedBytes "version" = 7 := by decide +kernel
  have hid : escapedBytes "tool_call_id" = 12 := by decide +kernel
  have hbasename : escapedBytes "basename" = 8 := by decide +kernel
  have hcontent : escapedBytes "content" = 7 := by decide +kernel
  have htag : escapedBytes "workspace_write_file" = 20 := by decide +kernel
  have hone : utf8Len (toString protocolVersion).toList = 1 := by decide +kernel
  rw [WorkspaceWriteFile.text, utf8Len_object (by simp)]
  simp only [List.map_cons, List.map_nil, List.sum_cons, List.sum_nil, utf8Len_quote, hoperation,
    hversion, hid, hbasename, hcontent, htag, hone, escapedBytes_uuidText, ContainedWrite.request]
  omega

/-- A parsed input is refused for its length only. -/
theorem startWorker_eq (id : ToolCallId) (h : parseInput arguments = .ok input) :
    ∃ frame, startWorker ⟨id, workspaceWriteFileToolName, arguments⟩ =
      if escapedBytes input.basename + escapedBytes input.content + 129 > maxProtocolFrameBytes then
        .error .unavailable
      else .ok frame := by
  have hstart : startContained ⟨id, workspaceWriteFileToolName, arguments⟩ =
      .ok ⟨input.parent, id, input.basename, input.content⟩ := by
    simp [startContained, h]
  have hbytes := ContainedWrite.request_bytes ⟨input.parent, id, input.basename, input.content⟩
  simp only [startWorker, hstart, WorkspaceWriteFile.frame, hbytes]
  exact ⟨_, rfl⟩

/-- **What can be approved can be framed** exactly when file name and content leave room for the 129
bytes around them. -/
theorem framed_iff (id : ToolCallId) (h : Launchable formatFloat arguments input) :
    (∃ frame, startWorker ⟨id, workspaceWriteFileToolName, arguments⟩ = .ok frame) ↔
      escapedBytes input.basename + escapedBytes input.content + 129 ≤ maxProtocolFrameBytes := by
  obtain ⟨frame, hframe⟩ := startWorker_eq id h.parsed
  rw [hframe]
  split
  · simp only [reduceCtorEq, exists_false, false_iff]
    omega
  · simp only [Except.ok.injEq, exists_eq', true_iff]
    omega

/-! ## Close to the limit -/

theorem launchable_writeInput {path content parent basename : String}
    (hsplit : validateRelativePath path = .ok (parent, basename))
    (hpath : pathRejected path = false) (hcontent : content.utf8ByteSize ≤ maxContentBytes)
    (htext : escapedBytes path + escapedBytes content + 33 ≤ maxActionArgumentBytes) :
    Launchable formatFloat (writeInput path content) ⟨path, parent, basename, content⟩ where
  keysDistinct := by simp [Json.KeysDistinct, writeInput]
  limits := writeInput_limits htext
  schema := writeInput_schema hpath hcontent
  parsed := parseInput_writeInput hcontent hsplit

theorem startWorker_refused {path content parent basename : String} (id : ToolCallId)
    (hsplit : validateRelativePath path = .ok (parent, basename))
    (hcontent : content.utf8ByteSize ≤ maxContentBytes)
    (hlong : escapedBytes basename + escapedBytes content + 129 > maxProtocolFrameBytes) :
    startWorker ⟨id, workspaceWriteFileToolName, writeInput path content⟩ = .error .unavailable := by
  obtain ⟨frame, hframe⟩ := startWorker_eq id (parseInput_writeInput hcontent hsplit)
  rwa [if_pos hlong] at hframe

/-- An approved write that is too long for a frame. -/
theorem approved_write_not_framed :
    Launchable (fun _ => []) (writeInput "a.txt" (controls 1350))
        ⟨"a.txt", ".", "a.txt", controls 1350⟩ ∧
      startWorker ⟨⟨1⟩, workspaceWriteFileToolName, writeInput "a.txt" (controls 1350)⟩ =
        .error .unavailable := by
  have hname : escapedBytes "a.txt" = 5 := by decide +kernel
  have hescaped : escapedBytes (controls 1350) = 8100 := escapedBytes_controls
  have hcontent : (controls 1350).utf8ByteSize ≤ maxContentBytes := by
    rw [utf8ByteSize_controls]
    decide
  have htext : escapedBytes "a.txt" + escapedBytes (controls 1350) + 33 ≤ maxActionArgumentBytes := by
    rw [hname, hescaped]
    decide
  have hlong : escapedBytes "a.txt" + escapedBytes (controls 1350) + 129 > maxProtocolFrameBytes := by
    rw [hname, hescaped]
    decide
  have hpath : pathRejected "a.txt" = false := by decide +kernel
  have hsplit : validateRelativePath "a.txt" = .ok (".", "a.txt") := by decide +kernel
  exact ⟨launchable_writeInput hsplit hpath hcontent htext, startWorker_refused ⟨1⟩ hsplit hcontent hlong⟩

/-- A short write is framed. -/
theorem short_write_framed :
    ∃ frame, startWorker ⟨⟨1⟩, workspaceWriteFileToolName, writeInput "a" "x"⟩ = .ok frame := by
  have hsplit : validateRelativePath "a" = .ok (".", "a") := by decide +kernel
  have hlaunch : Launchable (fun _ => []) (writeInput "a" "x") ⟨"a", ".", "a", "x"⟩ :=
    launchable_writeInput hsplit (by decide +kernel) (by decide) (by decide +kernel)
  exact (framed_iff ⟨1⟩ hlaunch).mpr (by decide +kernel)

end LocalAgent
