import LocalAgent.Containment.Frame
import LocalAgent.Lib.Chunks
import LocalAgent.Lib.Encoding

/-!
# The two ends of the pipes (`launcher.rs:27-45`, `launcher.rs:202-229`, `enterprise-local-write-worker.rs:51-88`)

The launcher and the worker send each other one JSON value behind its length in four bytes. Each end
has its own reader: the worker reads the four bytes, then as many as they say, then looks for one more;
the launcher collects what comes up to a limit and compares the length afterwards. Both accept a frame
however it is split into reads, and nothing that is longer or shorter (`readRequest_ok`,
`receive_ok`).
-/
namespace LocalAgent

open JsonText Encoding Chunks

/-! ## The protocol -/

/-- `MAX_RESPONSE_FRAME_BYTES`. -/
def maxResponseFrameBytes : Nat := 4 * 1024

structure NamespaceIds where
  user : UInt64
  mount : UInt64
  pid : UInt64
  network : UInt64

/-- `WorkerRequest` (protocol.rs:12), the last of them with the feature `certification-hooks` only. -/
inductive WorkerRequest
  | probe (version : UInt16) (hostNamespaces : NamespaceIds) (hostProbePort : UInt16)
  | workspaceWriteFile (request : WorkspaceWriteFile)
  | certificationHold (version : UInt16)

inductive LandlockState
  | fullyEnforced
  | partiallyEnforced
  | unavailable
deriving DecidableEq

inductive WorkerErrorCode
  | invalidInput
  | rejected
  | notFound
  | conflict
  | ioFailure
  | unsupported
deriving DecidableEq

inductive WorkerWriteResult
  | written (bytesWritten : UInt32)
  | failed (code : WorkerErrorCode)
deriving DecidableEq

/-- `WorkerResponse::Probe`. -/
structure WorkerProbe where
  version : UInt16
  namespacesIsolated : Bool
  networkIsolated : Bool
  environmentIsolated : Bool
  descriptorsIsolated : Bool
  homeIsolated : Bool
  noNewPrivileges : Bool
  capabilitiesDropped : Bool
  openat2Enforced : Bool
  landlock : LandlockState

/-- `WorkerResponse` (protocol.rs:44). -/
inductive WorkerResponse
  | probe (probe : WorkerProbe)
  | workspaceWriteFile (version : UInt16) (toolCallId : ToolCallId) (result : WorkerWriteResult)
  | protocolError (version : UInt16) (code : WorkerErrorCode)

/-! ## Their JSON -/

def numberText (n : Nat) : List Char := (toString n).toList

def boolText (b : Bool) : List Char := (toString b).toList

def NamespaceIds.text (ids : NamespaceIds) : List Char :=
  JsonText.object [("user", numberText ids.user.toNat), ("mount", numberText ids.mount.toNat),
    ("pid", numberText ids.pid.toNat), ("network", numberText ids.network.toNat)]

def WorkerRequest.text : WorkerRequest → List Char
  | .probe version hostNamespaces hostProbePort =>
    JsonText.object [("operation", quote "probe"), ("version", numberText version.toNat),
      ("host_namespaces", hostNamespaces.text), ("host_probe_port", numberText hostProbePort.toNat)]
  | .workspaceWriteFile request => request.text
  | .certificationHold version =>
    JsonText.object [("operation", quote "certification_hold"), ("version", numberText version.toNat)]

def LandlockState.text : LandlockState → List Char
  | .fullyEnforced => quote "fully_enforced"
  | .partiallyEnforced => quote "partially_enforced"
  | .unavailable => quote "unavailable"

def WorkerErrorCode.text : WorkerErrorCode → List Char
  | .invalidInput => quote "invalid_input"
  | .rejected => quote "rejected"
  | .notFound => quote "not_found"
  | .conflict => quote "conflict"
  | .ioFailure => quote "io_failure"
  | .unsupported => quote "unsupported"

def WorkerWriteResult.text : WorkerWriteResult → List Char
  | .written bytesWritten =>
    JsonText.object [("status", quote "written"), ("bytes_written", numberText bytesWritten.toNat)]
  | .failed code => JsonText.object [("status", quote "failed"), ("code", code.text)]

def WorkerProbe.text (p : WorkerProbe) : List Char :=
  JsonText.object [("response", quote "probe"), ("version", numberText p.version.toNat),
    ("namespaces_isolated", boolText p.namespacesIsolated),
    ("network_isolated", boolText p.networkIsolated),
    ("environment_isolated", boolText p.environmentIsolated),
    ("descriptors_isolated", boolText p.descriptorsIsolated),
    ("home_isolated", boolText p.homeIsolated), ("no_new_privileges", boolText p.noNewPrivileges),
    ("capabilities_dropped", boolText p.capabilitiesDropped),
    ("openat2_enforced", boolText p.openat2Enforced), ("landlock", p.landlock.text)]

def WorkerResponse.text : WorkerResponse → List Char
  | .probe p => p.text
  | .workspaceWriteFile version toolCallId result =>
    JsonText.object [("response", quote "workspace_write_file"),
      ("version", numberText version.toNat), ("tool_call_id", quote (uuidText toolCallId.uuid)),
      ("result", result.text)]
  | .protocolError version code =>
    JsonText.object [("response", quote "protocol_error"), ("version", numberText version.toNat),
      ("code", code.text)]

/-- `serde_json::to_vec`, of values that are always printed. -/
def WorkerRequest.toVec (request : WorkerRequest) : List UInt8 := utf8Bytes request.text

def WorkerResponse.toVec (response : WorkerResponse) : List UInt8 := utf8Bytes response.text

/-! ## The launcher's end -/

/-- The errors of the launcher's end. -/
inductive LauncherError
  /-- `worker request too large` -/
  | requestTooLarge
  /-- a read failed -/
  | readFailed
  /-- `contained worker output exceeded limit` -/
  | outputExceededLimit
  /-- `contained worker response was incomplete` -/
  | responseIncomplete
  /-- `contained worker response framing was invalid` -/
  | framingInvalid
  /-- `contained worker response was invalid` -/
  | responseInvalid

/-- The head of `SpawnedWorker::spawn` (launcher.rs:33): the bytes that are written to the worker. -/
def frameRequest (request : WorkerRequest) : Except LauncherError (List UInt8) :=
  let payload := request.toVec
  if payload.length > maxProtocolFrameBytes then .error .requestTooLarge
  else if payload.length ≥ 2 ^ 32 then .error .requestTooLarge
  else .ok (beBytes 4 payload.length ++ payload)

/-- `read_bounded` (launcher.rs:202). Each read brings at most 1024 bytes. -/
def readBounded (reads : Reads UInt8) (limit : Nat) : Except LauncherError (List UInt8) :=
  match collect limit reads [] with
  | .ok output => .ok output
  | .error .readFailed => .error .readFailed
  | .error .limitExceeded => .error .outputExceededLimit

/-- `decode_response` (launcher.rs:217), with the JSON reader. -/
def decodeResponse (fromSlice : List UInt8 → Option WorkerResponse) (frame : List UInt8) :
    Except LauncherError WorkerResponse :=
  if frame.length < 4 then .error .responseIncomplete
  else
    let length := ofBeBytes (frame.take 4)
    if length > maxResponseFrameBytes ∨ frame.length ≠ length + 4 then .error .framingInvalid
    else match fromSlice (frame.drop 4) with
      | some response => .ok response
      | none => .error .responseInvalid

/-- What `exchange` (launcher.rs:123) makes of the worker's output. -/
def receive (fromSlice : List UInt8 → Option WorkerResponse) (reads : Reads UInt8) :
    Except LauncherError WorkerResponse :=
  match readBounded reads (maxResponseFrameBytes + 4) with
  | .ok output => decodeResponse fromSlice output
  | .error e => .error e

/-! ## The worker's end -/

/-- `read_request` (enterprise-local-write-worker.rs:51), with the JSON reader. -/
def readRequest (fromSlice : List UInt8 → Option WorkerRequest) (reads : Reads UInt8) :
    Except WorkerErrorCode WorkerRequest :=
  match readExact 4 [] reads with
  | none => .error .invalidInput
  | some (lengthBytes, input) =>
    let length := ofBeBytes lengthBytes
    if length = 0 ∨ length > maxProtocolFrameBytes then .error .invalidInput
    else match readExact length input.buffer input.reads with
      | none => .error .invalidInput
      | some (payload, input) =>
        match readByte input with
        | none => .error .invalidInput
        | some (some _) => .error .invalidInput
        | some none =>
          match fromSlice payload with
          | some request => .ok request
          | none => .error .invalidInput

/-- `write_response` (enterprise-local-write-worker.rs:77): the bytes of its two writes. -/
def writeResponse (response : WorkerResponse) : Except WorkerErrorCode (List UInt8) :=
  let payload := response.toVec
  if payload.length > maxResponseFrameBytes then .error .ioFailure
  else if payload.length ≥ 2 ^ 32 then .error .ioFailure
  else .ok (beBytes 4 payload.length ++ payload)

/-! ## What is sent -/

theorem utf8Bytes_object_ne_nil (members : List (String × List Char)) :
    utf8Bytes (JsonText.object members) ≠ [] := by
  intro h
  have hlen := length_utf8Bytes (JsonText.object members)
  rw [h, List.length_nil, eq_comm, String.utf8Len_eq_zero] at hlen
  cases hlen

theorem WorkerRequest.toVec_ne_nil (request : WorkerRequest) : request.toVec ≠ [] := by
  cases request with
  | probe => exact utf8Bytes_object_ne_nil _
  | workspaceWriteFile => exact utf8Bytes_object_ne_nil _
  | certificationHold => exact utf8Bytes_object_ne_nil _

/-- A request is framed if it is short enough. -/
theorem frameRequest_of_le {request : WorkerRequest} (h : request.toVec.length ≤ maxProtocolFrameBytes) :
    frameRequest request = .ok (sized 4 request.toVec) := by
  have hmax : maxProtocolFrameBytes = 8192 := rfl
  simp only [frameRequest, sized]
  rw [if_neg (by omega), if_neg (by omega)]

theorem writeResponse_of_le {response : WorkerResponse}
    (h : response.toVec.length ≤ maxResponseFrameBytes) :
    writeResponse response = .ok (sized 4 response.toVec) := by
  have hmax : maxResponseFrameBytes = 4096 := rfl
  simp only [writeResponse, sized]
  rw [if_neg (by omega), if_neg (by omega)]

/-- The bytes of a write are the length and the text that were computed for it. -/
theorem frameRequest_workspaceWriteFile (request : WorkspaceWriteFile) :
    frameRequest (.workspaceWriteFile request) = match request.frame with
      | .ok (length, text) => .ok (beBytes 4 length ++ utf8Bytes text)
      | .error _ => .error .requestTooLarge := by
  have hmax : maxProtocolFrameBytes = 8192 := rfl
  simp only [frameRequest, WorkspaceWriteFile.frame, WorkerRequest.toVec, WorkerRequest.text,
    length_utf8Bytes]
  split
  · rfl
  · rw [if_neg (by omega)]

/-! ## What is accepted -/

/-- A length behind four bytes. -/
theorem take_sized {payload : List UInt8} (h : payload.length < 2 ^ 32) :
    ofBeBytes ((sized 4 payload).take 4) = payload.length := by
  rw [sized, List.take_left' (length_beBytes 4 _), ofBeBytes_beBytes (by simpa using h)]

/-- A length in four bytes and a payload of that length. -/
def IsFrame (bytes : List UInt8) : Prop :=
  ∃ payload, payload.length < 2 ^ 32 ∧ bytes = sized 4 payload

/-- Bytes whose first four are the number of the others. -/
theorem IsFrame.of_length {bytes : List UInt8}
    (hlen : bytes.length = ofBeBytes (bytes.take 4) + 4) : IsFrame bytes := by
  have htake : (bytes.take 4).length = 4 := by rw [List.length_take]; omega
  have hdrop : (bytes.drop 4).length = ofBeBytes (bytes.take 4) := by rw [List.length_drop]; omega
  have hlt := ofBeBytes_lt (bytes.take 4)
  have hbytes := beBytes_ofBeBytes (bytes.take 4)
  rw [htake] at hlt hbytes
  exact ⟨bytes.drop 4, by omega, by rw [sized, hdrop, hbytes, List.take_append_drop]⟩

/-- Of two frames neither is a proper beginning of the other. -/
theorem IsFrame.eq {frame bytes : List UInt8} (hframe : IsFrame frame) (hbytes : IsFrame bytes)
    (hproper : bytes <+: frame ∨ frame <+: bytes) : bytes = frame := by
  obtain ⟨payload, hlen, rfl⟩ := hframe
  obtain ⟨body, hbody, rfl⟩ := hbytes
  have hsplits : Splits (sized 4 body) (sized 4 payload) :=
    splits_sized (by simpa using hbody) (by simpa using hlen)
  rcases hproper with ⟨rest, hrest⟩ | ⟨rest, hrest⟩
  · exact (hsplits (hrest.trans (List.append_nil _).symm)).1
  · exact (hsplits ((List.append_nil _).trans hrest.symm)).1

/-- The worker's reader decides by the lengths. -/
theorem readRequest_eq {fromSlice : List UInt8 → Option WorkerRequest} {reads : Reads UInt8}
    {bytes : List UInt8} (h : Brings reads bytes) :
    readRequest fromSlice reads =
      if bytes.length < 4 ∨ ofBeBytes (bytes.take 4) = 0 ∨
          ofBeBytes (bytes.take 4) > maxProtocolFrameBytes ∨
          bytes.length ≠ ofBeBytes (bytes.take 4) + 4 then .error .invalidInput
      else match fromSlice (bytes.drop 4) with
        | some request => .ok request
        | none => .error .invalidInput := by
  unfold readRequest
  by_cases hshort : bytes.length < 4
  · rw [readExact_of_lt h hshort, if_pos (.inl hshort)]
  · have hle : 4 ≤ ([] ++ bytes).length := Nat.not_lt.mp hshort
    obtain ⟨input, hhead, later, hlater, hrest⟩ := readExact_of_le h hle
    simp only [List.nil_append] at hhead hrest
    simp only [hhead]
    by_cases hbound : ofBeBytes (bytes.take 4) = 0 ∨ ofBeBytes (bytes.take 4) > maxProtocolFrameBytes
    · rw [if_pos hbound, if_pos (.inr (hbound.imp_right .inl))]
    · rw [if_neg hbound]
      have hdrop : (bytes.drop 4).length = bytes.length - 4 := List.length_drop
      by_cases hmissing : (input.buffer ++ later).length < ofBeBytes (bytes.take 4)
      · rw [readExact_of_lt hlater hmissing]
        rw [hrest] at hmissing
        rw [if_pos (.inr (.inr (.inr (by omega))))]
      · obtain ⟨input', hpayload, hholds⟩ := readExact_of_le hlater (Nat.not_lt.mp hmissing)
        rw [hrest] at hpayload hholds hmissing
        simp only [hpayload, readByte_eq hholds]
        cases hend : (bytes.drop 4).drop (ofBeBytes (bytes.take 4)) with
        | nil =>
          have hall := List.drop_eq_nil_iff.mp hend
          rw [if_neg (by omega), List.take_of_length_le hall]
          rfl
        | cons b rest =>
          have hmore := congrArg List.length hend
          rw [List.length_drop, List.length_cons] at hmore
          rw [if_pos (.inr (.inr (.inr (by omega))))]
          rfl

/-- So does the launcher's. -/
theorem receive_eq {fromSlice : List UInt8 → Option WorkerResponse} {reads : Reads UInt8}
    {bytes : List UInt8} (h : Brings reads bytes) :
    receive fromSlice reads =
      if bytes.length ≤ maxResponseFrameBytes + 4 then decodeResponse fromSlice bytes
      else .error .outputExceededLimit := by
  have hcollect : collect (maxResponseFrameBytes + 4) reads [] =
      if bytes.length ≤ maxResponseFrameBytes + 4 then .ok bytes else .error .limitExceeded :=
    collect_eq h (Nat.zero_le _)
  by_cases hle : bytes.length ≤ maxResponseFrameBytes + 4
  · simp only [receive, readBounded, hcollect, if_pos hle]
  · simp only [receive, readBounded, hcollect, if_neg hle]

/-- The worker accepts frames only. -/
theorem readRequest_ok {fromSlice : List UInt8 → Option WorkerRequest} {reads : Reads UInt8}
    {bytes : List UInt8} {request : WorkerRequest} (h : Brings reads bytes)
    (hok : readRequest fromSlice reads = .ok request) : IsFrame bytes := by
  rw [readRequest_eq h] at hok
  split at hok
  · cases hok
  · rename_i hlengths
    simp only [not_or, Decidable.not_not] at hlengths
    exact .of_length hlengths.2.2.2

/-- So does the launcher. -/
theorem receive_ok {fromSlice : List UInt8 → Option WorkerResponse} {reads : Reads UInt8}
    {bytes : List UInt8} {response : WorkerResponse} (h : Brings reads bytes)
    (hok : receive fromSlice reads = .ok response) : IsFrame bytes := by
  rw [receive_eq h] at hok
  split at hok
  · simp only [decodeResponse] at hok
    split at hok
    · cases hok
    · split at hok
      · cases hok
      · rename_i hlengths
        simp only [not_or, Decidable.not_not] at hlengths
        exact .of_length hlengths.2
  · cases hok

/-- A frame that is not too long is read. -/
theorem readRequest_sized {fromSlice : List UInt8 → Option WorkerRequest} {request : WorkerRequest}
    {reads : Reads UInt8} (hparse : fromSlice request.toVec = some request)
    (hle : request.toVec.length ≤ maxProtocolFrameBytes)
    (h : Brings reads (sized 4 request.toVec)) : readRequest fromSlice reads = .ok request := by
  have hmax : maxProtocolFrameBytes = 8192 := rfl
  have hpos := List.length_pos_iff.mpr request.toVec_ne_nil
  have hlen : (sized 4 request.toVec).length = request.toVec.length + 4 := by
    simp [sized, Nat.add_comm]
  have hdrop : (sized 4 request.toVec).drop 4 = request.toVec := List.drop_left' (length_beBytes 4 _)
  rw [readRequest_eq h, take_sized (by omega), if_neg (by omega), hdrop, hparse]

theorem receive_sized {fromSlice : List UInt8 → Option WorkerResponse} {response : WorkerResponse}
    {reads : Reads UInt8} (hparse : fromSlice response.toVec = some response)
    (hle : response.toVec.length ≤ maxResponseFrameBytes)
    (h : Brings reads (sized 4 response.toVec)) : receive fromSlice reads = .ok response := by
  have hmax : maxResponseFrameBytes = 4096 := rfl
  have hlen : (sized 4 response.toVec).length = response.toVec.length + 4 := by
    simp [sized, Nat.add_comm]
  have hdrop : (sized 4 response.toVec).drop 4 = response.toVec :=
    List.drop_left' (length_beBytes 4 _)
  rw [receive_eq h, if_pos (by omega)]
  simp only [decodeResponse, take_sized (show response.toVec.length < 2 ^ 32 by omega), hdrop, hparse]
  rw [if_neg (by omega), if_neg (by omega)]

/-- What is not a frame is refused on both ends. -/
theorem refused_of_proper {frame bytes : List UInt8} {reads : Reads UInt8}
    (parseRequest : List UInt8 → Option WorkerRequest)
    (parseResponse : List UInt8 → Option WorkerResponse) (hframe : IsFrame frame)
    (hproper : bytes <+: frame ∨ frame <+: bytes) (hne : bytes ≠ frame) (h : Brings reads bytes) :
    (∃ e, readRequest parseRequest reads = .error e) ∧
      ∃ e, receive parseResponse reads = .error e := by
  constructor
  · cases hread : readRequest parseRequest reads with
    | error e => exact ⟨e, rfl⟩
    | ok request => exact absurd (hframe.eq (readRequest_ok h hread) hproper) hne
  · cases hread : receive parseResponse reads with
    | error e => exact ⟨e, rfl⟩
    | ok response => exact absurd (hframe.eq (receive_ok h hread) hproper) hne

/-- No more than a frame of the largest size is taken from the worker, whatever it sends and wherever
a read fails. -/
theorem length_of_readBounded {reads : Reads UInt8} {limit : Nat} {output : List UInt8}
    (h : readBounded reads limit = .ok output) : output.length ≤ limit := by
  unfold readBounded at h
  cases hcollect : collect limit reads [] with
  | ok all =>
    rw [hcollect] at h
    exact Except.ok.inj h ▸ length_of_collect (Nat.zero_le _) hcollect
  | error refusal =>
    rw [hcollect] at h
    cases refusal <;> cases h

/-- **Both ends of the pipes agree.** A request or a response that fits and that the JSON reader gives
back arrives, however it is split. What is shorter or longer than a frame is refused. -/
theorem framing_round_trips (parseRequest : List UInt8 → Option WorkerRequest)
    (parseResponse : List UInt8 → Option WorkerResponse) :
    (∀ request : WorkerRequest, parseRequest request.toVec = some request →
      request.toVec.length ≤ maxProtocolFrameBytes →
        ∃ framed, frameRequest request = .ok framed ∧ IsFrame framed ∧
          ∀ reads, Brings reads framed → readRequest parseRequest reads = .ok request) ∧
    (∀ response : WorkerResponse, parseResponse response.toVec = some response →
      response.toVec.length ≤ maxResponseFrameBytes →
        ∃ framed, writeResponse response = .ok framed ∧ IsFrame framed ∧
          ∀ reads, Brings reads framed → receive parseResponse reads = .ok response) ∧
    (∀ frame bytes reads, IsFrame frame → Brings reads bytes → bytes <+: frame ∨ frame <+: bytes →
      bytes ≠ frame → (∃ e, readRequest parseRequest reads = .error e) ∧
        ∃ e, receive parseResponse reads = .error e) ∧
    ∀ reads output, readBounded reads (maxResponseFrameBytes + 4) = .ok output →
      output.length ≤ maxResponseFrameBytes + 4 := by
  have hrequests : maxProtocolFrameBytes = 8192 := rfl
  have hresponses : maxResponseFrameBytes = 4096 := rfl
  refine ⟨fun request hparse hle => ?_, fun response hparse hle => ?_, ?_, ?_⟩
  · exact ⟨sized 4 request.toVec, frameRequest_of_le hle, ⟨_, by omega, rfl⟩,
      fun reads h => readRequest_sized hparse hle h⟩
  · exact ⟨sized 4 response.toVec, writeResponse_of_le hle, ⟨_, by omega, rfl⟩,
      fun reads h => receive_sized hparse hle h⟩
  · intro frame bytes reads hframe h hproper hne
    exact refused_of_proper parseRequest parseResponse hframe hproper hne h
  · intro reads output h
    exact length_of_readBounded h

/-- A write of one letter, and a reader of its JSON. -/
def smallRequest : WorkerRequest :=
  .workspaceWriteFile (ContainedWrite.request ⟨".", ⟨7⟩, "a.txt", "x"⟩)

def parseSmallRequest (bytes : List UInt8) : Option WorkerRequest :=
  if bytes = smallRequest.toVec then some smallRequest else none

/-- The small write, sent byte by byte, and with one byte too many. -/
theorem framing_round_trips_on_a_write :
    ∃ framed, frameRequest smallRequest = .ok framed ∧
      readRequest parseSmallRequest ((framed.map fun b => [b]).map some) = .ok smallRequest ∧
      ∃ e, readRequest parseSmallRequest ([framed, [0]].map some) = .error e := by
  obtain ⟨hrequests, -, hrefused, -⟩ := framing_round_trips parseSmallRequest fun _ => none
  have hname : escapedBytes "a.txt" = 5 := by decide +kernel
  have hcontent : escapedBytes "x" = 1 := by decide +kernel
  have hle : smallRequest.toVec.length ≤ maxProtocolFrameBytes := by
    have hbytes := ContainedWrite.request_bytes ⟨".", ⟨7⟩, "a.txt", "x"⟩
    rw [smallRequest, WorkerRequest.toVec, WorkerRequest.text, length_utf8Bytes, hbytes, hname,
      hcontent]
    decide
  obtain ⟨framed, hframed, hframe, hread⟩ := hrequests smallRequest (if_pos rfl) hle
  have hbytewise : Brings ((framed.map fun b => [b]).map some) framed := by
    have hpieces := Brings.of_pieces (framed.map fun b => [b]) (by simp)
    rwa [← List.flatMap_def, List.flatMap_singleton'] at hpieces
  have hne : framed ≠ [] := by
    obtain ⟨payload, -, rfl⟩ := hframe
    simp [sized, beBytes_succ]
  have hlonger : Brings ([framed, [0]].map some) (framed ++ [0]) :=
    Brings.of_pieces [framed, [0]] (by simpa using hne)
  exact ⟨framed, hframed, hread _ hbytewise, (hrefused framed (framed ++ [0]) _ hframe hlonger
    (.inr (List.prefix_append framed [0])) (by simp)).1⟩

end LocalAgent
