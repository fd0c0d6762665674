import LocalAgent.Core.Tool
import LocalAgent.Harness.Ports
import Mathlib.Data.List.Sort

/-!
# The MCP client (`agent-mcp-adapters/src/lib.rs`)

A managed tool starts a server process, asks it for its protocol revision and its tools, and calls
one of them. The server is not trusted: what it writes is an arbitrary list of chunks (`Peer`), it
may stop reading or writing at any point, and the caller may give up at any `await`. The client is
a program over the `Session`, which keeps what the client has sent and which responses it has
accepted (`transcript`); an error leaves the session as it is at that point.

Starting and killing the process, and its arguments and environment, are left out.
-/
namespace LocalAgent

/-! ## JSON -/

namespace Json

/-- `Value::get`. -/
def get (key : String) : Json → Option Json
  | .object entries => entries.lookup key
  | _ => none

/-- `Value::as_array`. -/
def asArray : Json → Option (List Json)
  | .array elements => some elements
  | _ => none

/-- `Value::as_u64`. -/
def asU64 : Json → Option Nat
  | .number (.posInt n) => some n
  | _ => none

/-- `Value::as_bool`. -/
def asBool : Json → Option Bool
  | .bool b => some b
  | _ => none

end Json

namespace Mcp

/-! ## Configuration -/

/-- `MCP_PROTOCOL_REVISION`. -/
def protocolRevision : String := "2025-06-18"

def defaultMaxMessageBytes : Nat := 256 * 1024
def defaultMaxResultBytes : Nat := 64 * 1024
def defaultMaxPages : Nat := 4
def defaultMaxTools : Nat := 64
def maxProtocolMessages : Nat := 128
def maxResultParts : Nat := 32

/-- `Ord::clamp` from one. -/
def clamp (value most : Nat) : Nat := max 1 (min value most)

/-- The limits of a `StdioServerConfig`: `new` takes the defaults, `with_limits` clamps to them. -/
structure StdioServerConfig where
  maxMessageBytes : Nat
  maxResultBytes : Nat
  maxPages : Nat
  maxTools : Nat
  maxPages_le : maxPages ≤ defaultMaxPages

def StdioServerConfig.new : StdioServerConfig :=
  ⟨defaultMaxMessageBytes, defaultMaxResultBytes, defaultMaxPages, defaultMaxTools, Nat.le_refl _⟩

/-- `with_limits` (lib.rs:154). -/
def StdioServerConfig.withLimits (maxMessageBytes maxResultBytes maxPages maxTools : Nat) :
    StdioServerConfig :=
  ⟨clamp maxMessageBytes defaultMaxMessageBytes, clamp maxResultBytes defaultMaxResultBytes,
    clamp maxPages defaultMaxPages, clamp maxTools defaultMaxTools, by
      simp only [clamp, defaultMaxPages]
      omega⟩

/-- `ToolMapping`. -/
structure ToolMapping where
  remoteName : String
  expectedFingerprint : Bytes32

inductive McpAdapterError where
  | invalidConfiguration | unavailable | protocolMismatch | malformedResponse | discoveryLimit
  | ambiguousDiscovery | unsupportedTool | definitionDrift | timedOut
deriving DecidableEq, Repr

/-- `serde_json` on messages, and `Sha256`. -/
structure Library where
  fromSlice : List UInt8 → Option Json
  toVec : Json → Option (List UInt8)
  sha256 : List UInt8 → Bytes32

/-! ## Remote tools (lib.rs:644-704) -/

structure RemoteTool where
  name : String
  inputSchema : Json
  definition : Json

/-- `RemoteTool::parse`. -/
def RemoteTool.parse (value : Json) : Except McpAdapterError RemoteTool :=
  if !value.isObject then .error .malformedResponse
  else match (value.get "name").bind Json.asStr with
    | none => .error .malformedResponse
    | some name =>
      if name.isEmpty || name.utf8ByteSize > 255 then .error .malformedResponse
      else match value.get "inputSchema" with
        | none => .error .malformedResponse
        | some schema =>
          if !schema.isObject then .error .malformedResponse
          else if (value.get "outputSchema").isSome then .error .unsupportedTool
          else .ok ⟨name, schema, value⟩

mutual

/-- `canonicalize`: the entries of every object in the order of a `BTreeMap`. -/
def canonicalize : Json → Json
  | .object entries =>
    .object ((canonicalizeEntries entries).insertionSort fun a b => a.1 ≤ b.1)
  | .array elements => .array (canonicalizeElements elements)
  | value => value

def canonicalizeEntries : List (String × Json) → List (String × Json)
  | [] => []
  | (key, value) :: rest => (key, canonicalize value) :: canonicalizeEntries rest

def canonicalizeElements : List Json → List Json
  | [] => []
  | value :: rest => canonicalize value :: canonicalizeElements rest

end

/-- `fingerprint`. -/
def fingerprint (lib : Library) (tool : RemoteTool) : Except McpAdapterError Bytes32 :=
  match lib.toVec (canonicalize tool.definition) with
  | none => .error .malformedResponse
  | some bytes => .ok (lib.sha256 bytes)

/-! ## Messages -/

def initializeMessage : Json :=
  .object [("jsonrpc", .string "2.0"), ("id", .number (.posInt 1)), ("method", .string "initialize"),
    ("params", .object [("protocolVersion", .string protocolRevision), ("capabilities", .object []),
      ("clientInfo", .object [("name", .string "enterprise-local-agent"),
        ("version", .string "0.1.0")])])]

def initializedMessage : Json :=
  .object [("jsonrpc", .string "2.0"), ("method", .string "notifications/initialized"),
    ("params", .object [])]

def listMessage (id : Nat) (cursor : Option String) : Json :=
  .object [("jsonrpc", .string "2.0"), ("id", .number (.posInt id)), ("method", .string "tools/list"),
    ("params", .object (cursor.toList.map fun cursor => ("cursor", .string cursor)))]

def callMessage (name : String) (input : Json) : Json :=
  .object [("jsonrpc", .string "2.0"), ("id", .number (.posInt 100)),
    ("method", .string "tools/call"),
    ("params", .object [("name", .string name), ("arguments", input)])]

/-! ## The session (lib.rs:392-642) -/

/-- What the client has put on the wire, and the responses it has taken from it. -/
inductive Exchange where
  | sent (message : Json)
  | received (response : Json)

/-- What the server and the caller will do: the chunks that the pipe will deliver (`none` for a
failing read, an empty chunk at its end), whether each write will succeed, and after how many
`await`s the caller gives up. -/
structure Peer where
  chunks : List (Option (List UInt8))
  writes : List Bool
  patience : Nat

structure Session where
  peer : Peer
  buffer : List UInt8
  bytesRead : Nat
  maxMessageBytes : Nat
  seenResponseIds : List Nat
  transcript : List Exchange

/-- `Session::spawn`. -/
def Session.spawn (config : StdioServerConfig) (peer : Peer) : Session :=
  ⟨peer, [], 0, config.maxMessageBytes, [], []⟩

abbrev SessionM := EStateM McpAdapterError Session

/-- One `await`: the caller may give up here. -/
def await : SessionM Unit := do
  match (← get).peer.patience with
  | 0 => throw .timedOut
  | n + 1 => modify fun s => { s with peer.patience := n }

/-- `write_all` and `flush`: once for the two, since nothing lies between them. -/
def write : SessionM Unit := do
  await
  match (← get).peer.writes with
  | true :: rest => modify fun s => { s with peer.writes := rest }
  | _ => throw .unavailable

/-- `Session::send` (lib.rs:529). The message counts as sent as soon as the write begins. -/
def send (lib : Library) (message : Json) : SessionM Unit := do
  match lib.toVec message with
  | none => throw .malformedResponse
  | some bytes =>
    if bytes.length ≥ (← get).maxMessageBytes then throw .malformedResponse
    else do
      modify fun s => { s with transcript := s.transcript ++ [.sent message] }
      write

/-- `BufReader::fill_buf`: what is buffered, or else the next chunk. -/
def fillBuf : SessionM (List UInt8) := do
  if (← get).buffer.isEmpty then do
    await
    match (← get).peer.chunks with
    | [] => throw .timedOut
    | none :: rest => do
      modify fun s => { s with peer.chunks := rest }
      throw .unavailable
    | some chunk :: rest => do
      modify fun s => { s with peer.chunks := rest, buffer := chunk }
      pure chunk
  else pure (← get).buffer

/-- The loop of `read_line` (lib.rs:575-594). Every turn takes a byte or stops, so a line that has
not ended after `max_message_bytes` turns is too long anyway. -/
def readLineLoop : Nat → List UInt8 → SessionM (List UInt8)
  | 0, _ => throw .malformedResponse
  | fuel + 1, line => do
    let available ← fillBuf
    if available.isEmpty then throw .malformedResponse
    else do
      let take := (available.findIdx? (· = 10)).elim available.length (· + 1)
      if line.length + take > (← get).maxMessageBytes then throw .malformedResponse
      else do
        modify fun s => { s with buffer := available.drop take }
        let line := line ++ available.take take
        if line.getLast? = some 10 then pure line else readLineLoop fuel line

/-- `Session::read_line` (lib.rs:572). -/
def readLine : SessionM (List UInt8) := do
  let line ← readLineLoop ((← get).maxMessageBytes + 1) []
  modify fun s => { s with bytesRead := s.bytesRead + line.length }
  let s ← get
  if s.bytesRead > s.maxMessageBytes * maxProtocolMessages then throw .malformedResponse
  else
    let line := line.dropLast
    if (ByteArray.mk line.toArray).validateUTF8 then pure line else throw .malformedResponse

/-- The loop of `response` (lib.rs:548-569), over the messages that are left. -/
def responseLoop (lib : Library) (expectedId : Nat) : Nat → SessionM Json
  | 0 => throw .malformedResponse
  | left + 1 => do
    let line ← readLine
    match lib.fromSlice line with
    | none => throw .malformedResponse
    | some value =>
      if (value.get "jsonrpc").bind Json.asStr ≠ some "2.0" then throw .malformedResponse
      else match (value.get "id").bind Json.asU64 with
        | none =>
          if ((value.get "method").bind Json.asStr).isSome then responseLoop lib expectedId left
          else throw .malformedResponse
        | some id => do
          let repeated := id ∈ (← get).seenResponseIds
          modify fun s => { s with seenResponseIds := id :: s.seenResponseIds }
          if repeated || id ≠ expectedId then throw .malformedResponse
          else if (value.get "error").isSome || (value.get "result").isNone then
            throw .malformedResponse
          else do
            modify fun s => { s with transcript := s.transcript ++ [.received value] }
            pure value

/-- `Session::response` (lib.rs:547). -/
def response (lib : Library) (expectedId : Nat) : SessionM Json :=
  responseLoop lib expectedId maxProtocolMessages

/-- The revision that a response to `initialize` names. -/
def negotiatedRevision (response : Json) : Option String :=
  ((response.get "result").bind (Json.get "protocolVersion")).bind Json.asStr

/-- `Session::initialize` (lib.rs:428). -/
def initializeSession (lib : Library) : SessionM Unit := do
  send lib initializeMessage
  let response ← response lib 1
  if negotiatedRevision response ≠ some protocolRevision then throw .protocolMismatch
  else send lib initializedMessage

/-! ### Discovery (lib.rs:452-499) -/

/-- What `find_tool` keeps from page to page. -/
structure Discovery where
  cursor : Option String
  cursors : List String
  names : List String
  found : Option RemoteTool
  total : Nat

/-- The tools of a page. -/
def pageTools (response : Json) : Option (List Json) :=
  ((response.get "result").bind (Json.get "tools")).bind Json.asArray

/-- `result.get("nextCursor")`. -/
def nextCursor (response : Json) : Option Json := (response.get "result").bind (Json.get "nextCursor")

/-- The inner loop: parse every tool, refuse a repeated name, remember the wanted one. -/
def scanTools (wanted : String) : List Json → Discovery → Except McpAdapterError Discovery
  | [], d => .ok d
  | value :: rest, d =>
    match RemoteTool.parse value with
    | .error e => .error e
    | .ok tool =>
      if tool.name ∈ d.names then .error .ambiguousDiscovery
      else scanTools wanted rest { d with
        names := tool.name :: d.names
        found := if tool.name = wanted then some tool else d.found }

/-- One page of `find_tool`: what is known after it, or the tool if it was the last. -/
def scanPage (config : StdioServerConfig) (wanted : String) (d : Discovery) (response : Json) :
    Except McpAdapterError (Discovery ⊕ RemoteTool) :=
  match pageTools response with
  | none => .error .malformedResponse
  | some tools =>
    let d := { d with total := d.total + tools.length }
    if d.total > config.maxTools then .error .discoveryLimit
    else match scanTools wanted tools d with
      | .error e => .error e
      | .ok d =>
        match nextCursor response with
        | none | some .null =>
          match d.found with
          | none => .error .unsupportedTool
          | some tool => .ok (.inr tool)
        | some (.string cursor) =>
          if cursor.isEmpty then .error .malformedResponse
          else if cursor ∈ d.cursors then .error .ambiguousDiscovery
          else .ok (.inl { d with cursor := some cursor, cursors := cursor :: d.cursors })
        | some _ => .error .malformedResponse

/-- A computed result inside a session. -/
def ofExcept {α : Type} : Except McpAdapterError α → SessionM α
  | .ok a => pure a
  | .error e => throw e

/-- The loop of `find_tool` over the pages that are left, from page `page` on. -/
def findToolLoop (lib : Library) (config : StdioServerConfig) (wanted : String) :
    Nat → Nat → Discovery → SessionM RemoteTool
  | 0, _, _ => throw .discoveryLimit
  | left + 1, page, d => do
    send lib (listMessage (2 + page) d.cursor)
    let response ← response lib (2 + page)
    match ← ofExcept (scanPage config wanted d response) with
    | .inr tool => pure tool
    | .inl d => findToolLoop lib config wanted left (page + 1) d

/-- `Session::find_tool` (lib.rs:452). -/
def findTool (lib : Library) (config : StdioServerConfig) (wanted : String) : SessionM RemoteTool :=
  findToolLoop lib config wanted config.maxPages 0 ⟨none, [], [], none, 0⟩

/-! ### The call (lib.rs:501-527, 711-747) -/

inductive RemoteCallResult where
  | success (output : Json)
  | domainFailure

/-- The texts of the content parts. -/
def contentTexts : List Json → Except McpAdapterError (List Json)
  | [] => .ok []
  | part :: rest =>
    if !part.isObject then .error .malformedResponse
    else if (part.get "type").bind Json.asStr ≠ some "text" then .error .unsupportedTool
    else match (part.get "text").bind Json.asStr with
      | none => .error .malformedResponse
      | some text => (contentTexts rest).map (.string text :: ·)

/-- `normalize_result`. -/
def normalizeResult (lib : Library) (result : Json) (maxBytes : Nat) : Except McpAdapterError Json :=
  let normalized : Except McpAdapterError Json :=
    match result.get "structuredContent" with
    | some structured =>
      if structured.isObject || structured.asArray.isSome then .ok structured
      else .error .malformedResponse
    | none =>
      match (result.get "content").bind Json.asArray with
      | none => .error .malformedResponse
      | some content =>
        if content.length > maxResultParts then .error .malformedResponse
        else (contentTexts content).map fun texts => .object [("text", .array texts)]
  match normalized with
  | .error e => .error e
  | .ok value =>
    match lib.toVec value with
    | none => .error .malformedResponse
    | some bytes => if bytes.length > maxBytes then .error .malformedResponse else .ok value

/-- What `call_tool` makes of the response. -/
def callResult (lib : Library) (response : Json) (maxResultBytes : Nat) :
    Except McpAdapterError RemoteCallResult :=
  match response.get "result" with
  | none => .error .malformedResponse
  | some result =>
    if (result.get "isError").any (·.asBool.isNone) then .error .malformedResponse
    else if (result.get "isError").bind Json.asBool = some true then .ok .domainFailure
    else (normalizeResult lib result maxResultBytes).map .success

/-- `Session::call_tool` (lib.rs:501). -/
def callTool (lib : Library) (name : String) (input : Json) (maxResultBytes : Nat) :
    SessionM RemoteCallResult := do
  send lib (callMessage name input)
  let response ← response lib 100
  ofExcept (callResult lib response maxResultBytes)

/-! ## Invocations (lib.rs:290-390) -/

/-- The body of `McpInvocation::wait`. -/
def exchangeCall (lib : Library) (config : StdioServerConfig) (mapping : ToolMapping) (input : Json) :
    SessionM RemoteCallResult := do
  initializeSession lib
  let remote ← findTool lib config mapping.remoteName
  let actual ← ofExcept (fingerprint lib remote)
  if actual ≠ mapping.expectedFingerprint then throw .definitionDrift
  else callTool lib mapping.remoteName input config.maxResultBytes

/-- `McpInvocation`. The transcript outlives the session that is reaped. -/
structure McpInvocation where
  session : Option Session
  config : StdioServerConfig
  mapping : ToolMapping
  call : Option ToolCall
  transcript : List Exchange

/-- `start_managed`, after the checks of the definition. -/
def McpInvocation.start (config : StdioServerConfig) (mapping : ToolMapping) (call : ToolCall)
    (peer : Peer) : McpInvocation :=
  ⟨some (.spawn config peer), config, mapping, some call, []⟩

/-- The methods of an invocation. A `wait` that is dropped half way is a `wait` whose `patience` ran
out, and `completes` says whether its cleanup ran. The process may not have been `reaped` in time. -/
inductive Method where
  | wait (completes reaped : Bool)
  | terminateAndReap (reaped : Bool)

/-- `map_result`: what the harness is told. -/
def mapResult (id : ToolCallId) : Except McpAdapterError RemoteCallResult → Except ToolPortError ToolResult
  | .ok (.success output) => .ok (.succeeded id output)
  | .ok .domainFailure => .ok (.domainFailure id .rejected)
  | .error .unavailable => .error .unavailable
  | .error _ => .error .adapterFailure

/-- The state after a run of the body, and its result. -/
def finish {α : Type} : EStateM.Result McpAdapterError Session α → Except McpAdapterError α × Session
  | .ok a s => (.ok a, s)
  | .error e s => (.error e, s)

/-- One method call. The call is taken out first, so that no second `wait` finds it. -/
def McpInvocation.step (lib : Library) (i : McpInvocation) :
    Method → Except ToolPortError (Option ToolResult) × McpInvocation
  | .wait completes reaped =>
    match i.call with
    | none => (.error .adapterFailure, i)
    | some call =>
      match i.session with
      | none => (.error .adapterFailure, { i with call := none })
      | some session =>
        let (result, session) := finish (exchangeCall lib i.config i.mapping call.input session)
        (if reaped then (mapResult call.id result).map some else .error .adapterFailure,
          { i with
            call := none
            session := if completes then none else some session
            transcript := session.transcript })
  | .terminateAndReap reaped =>
    (if i.session.isNone || reaped then .ok none else .error .adapterFailure, { i with session := none })

/-- The methods in their order. -/
def McpInvocation.run (lib : Library) (i : McpInvocation) (methods : List Method) : McpInvocation :=
  methods.foldl (fun i m => (i.step lib m).2) i

end Mcp
end LocalAgent
