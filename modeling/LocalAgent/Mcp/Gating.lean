import LocalAgent.Lib.Stateful
import LocalAgent.Mcp.Session

/-!
# When a tool is called

A transcript is *gated* if it calls a tool at most once, and only after the server has named the
pinned revision and has listed all its tools, among them exactly one with the wanted name and with
the configured fingerprint; and if every response answers the request before it, under ids that are
not used twice. Every transcript of an invocation is gated, whatever the server sends:
`invocation_gated`.
-/
namespace LocalAgent.Mcp

open Stateful

/-! ## Transcripts -/

/-- The id of a request or a response. -/
def messageId (message : Json) : Option Nat := (message.get "id").bind Json.asU64

def isToolCall (message : Json) : Bool := (message.get "method").bind Json.asStr = some "tools/call"

/-- The request in a message: a notification is none. -/
def Exchange.request? : Exchange → Option Nat
  | .sent message => messageId message
  | .received _ => none

def Exchange.isCall : Exchange → Bool
  | .sent message => isToolCall message
  | .received _ => false

/-- The ids of the requests, in their order. -/
def requestIds (t : List Exchange) : List Nat := t.filterMap Exchange.request?

/-- The session up to the listing. -/
def opening (hello : Json) : List Exchange :=
  [.sent initializeMessage, .received hello, .sent initializedMessage]

/-- The cursor that a page hands over to the next request. -/
def pageCursor (response : Json) : Option String := (nextCursor response).bind Json.asStr

/-- The requests and the responses of a listing from a page on. -/
def listing : Nat → Option String → List Json → List Exchange
  | _, _, [] => []
  | page, cursor, response :: rest =>
    .sent (listMessage (2 + page) cursor) :: .received response ::
      listing (page + 1) (pageCursor response) rest

/-- The tools of the pages, as the server sent them. -/
def rawTools (pages : List Json) : List Json := pages.flatMap fun r => (pageTools r).getD []

/-- The pages are the whole enumeration of `tools`. -/
structure Enumeration (config : StdioServerConfig) (pages : List Json) (tools : List RemoteTool) :
    Prop where
  paged : pages.length ≤ config.maxPages
  bounded : tools.length ≤ config.maxTools
  wellFormed : ∀ r ∈ pages, (pageTools r).isSome = true
  parsed : (rawTools pages).map RemoteTool.parse = tools.map .ok
  names : (tools.map RemoteTool.name).Nodup
  /-- Every page but the last names the next one, by a cursor of its own. -/
  cursors : ∃ cs : List String, pages.dropLast.map pageCursor = cs.map some ∧ cs.Nodup
  /-- The last page names none. -/
  complete : ∃ last, pages.getLast? = some last ∧
    (nextCursor last = none ∨ nextCursor last = some .null)

/-- What has to be on the transcript before the call. -/
def Admitted (lib : Library) (config : StdioServerConfig) (mapping : ToolMapping)
    (t : List Exchange) : Prop :=
  ∃ hello pages tools tool, t = opening hello ++ listing 0 none pages ∧
    negotiatedRevision hello = some protocolRevision ∧ Enumeration config pages tools ∧
    (∀ u ∈ tools, u.name = mapping.remoteName ↔ u = tool) ∧ tool ∈ tools ∧
    fingerprint lib tool = .ok mapping.expectedFingerprint

structure Gated (lib : Library) (config : StdioServerConfig) (mapping : ToolMapping)
    (t : List Exchange) : Prop where
  single : t.countP Exchange.isCall ≤ 1
  admitted : ∀ before message after, t = before ++ .sent message :: after →
    isToolCall message = true → Admitted lib config mapping before
  answered : ∀ before response after, t = before ++ .received response :: after →
    ∃ n, (requestIds before).getLast? = some n ∧ messageId response = some n
  fresh : (requestIds t).Nodup

/-! ## Well-behaved transcripts -/

variable {lib : Library} {config : StdioServerConfig} {mapping : ToolMapping}
  {t : List Exchange} {message : Json}

/-- The requests so far are `1, …, n`, every response answered its own, and nothing was called. -/
structure Orderly (n : Nat) (t : List Exchange) : Prop where
  ids : requestIds t = List.range' 1 n
  answered : ∀ before response after, t = before ++ .received response :: after →
    ∃ k, (requestIds before).getLast? = some k ∧ messageId response = some k
  quiet : ∀ e ∈ t, e.isCall = false

theorem Orderly.nil : Orderly 0 [] :=
  ⟨rfl, fun before response after h => by simp at h, nofun⟩

theorem append_singleton_eq {α : Type} {l before after : List α} {a b : α}
    (h : l ++ [a] = before ++ b :: after) :
    (after = [] ∧ l = before ∧ a = b) ∨ ∃ rest, l = before ++ b :: rest := by
  rcases List.eq_nil_or_concat after with rfl | ⟨rest, last, rfl⟩
  · obtain ⟨rfl, hab⟩ := List.append_inj' h rfl
    exact .inl ⟨rfl, rfl, by simpa using hab⟩
  · right
    refine ⟨rest, ?_⟩
    have hinj : l ++ [a] = (before ++ b :: rest) ++ [last] := by simpa using h
    exact (List.append_inj' hinj rfl).1

/-- The next request. -/
theorem Orderly.request {n : Nat} (h : Orderly n t) (hid : messageId message = some (n + 1))
    (hcall : isToolCall message = false) : Orderly (n + 1) (t ++ [.sent message]) := by
  refine ⟨?_, fun before response after heq => ?_, ?_⟩
  · simp [requestIds, List.filterMap_append, Exchange.request?, hid, List.range'_concat]
    exact ⟨h.ids, by omega⟩
  · rcases append_singleton_eq heq with ⟨-, -, hne⟩ | ⟨rest, hrest⟩
    · cases hne
    · exact h.answered before response rest hrest
  · intro e he
    rcases List.mem_append.mp he with he | he
    · exact h.quiet e he
    · rw [List.mem_singleton.mp he]
      exact hcall

/-- A message without an id. -/
theorem Orderly.notify {n : Nat} (h : Orderly n t) (hid : messageId message = none)
    (hcall : isToolCall message = false) : Orderly n (t ++ [.sent message]) := by
  refine ⟨?_, fun before response after heq => ?_, ?_⟩
  · simpa [requestIds, List.filterMap_append, Exchange.request?, hid] using h.ids
  · rcases append_singleton_eq heq with ⟨-, -, hne⟩ | ⟨rest, hrest⟩
    · cases hne
    · exact h.answered before response rest hrest
  · intro e he
    rcases List.mem_append.mp he with he | he
    · exact h.quiet e he
    · rw [List.mem_singleton.mp he]
      exact hcall

/-- The answer to the last request. -/
theorem Orderly.answer {n : Nat} {response : Json} (h : Orderly (n + 1) t)
    (hid : messageId response = some (n + 1)) : Orderly (n + 1) (t ++ [.received response]) := by
  refine ⟨?_, fun before response' after heq => ?_, ?_⟩
  · have hnone : List.filterMap Exchange.request? [.received response] = [] := rfl
    rw [requestIds, List.filterMap_append, hnone, List.append_nil]
    exact h.ids
  · rcases append_singleton_eq heq with ⟨-, rfl, hlast⟩ | ⟨rest, hrest⟩
    · cases hlast
      refine ⟨n + 1, ?_, hid⟩
      rw [h.ids, List.range'_concat, List.getLast?_concat]
      simp [Nat.add_comm]
    · exact h.answered before response' rest hrest
  · intro e he
    rcases List.mem_append.mp he with he | he
    · exact h.quiet e he
    · rw [List.mem_singleton.mp he]
      rfl

theorem Orderly.gated {n : Nat} (h : Orderly n t) : Gated lib config mapping t := by
  refine ⟨?_, fun before message after heq hcall => ?_, h.answered, ?_⟩
  · have hzero : t.countP Exchange.isCall = 0 := by
      rw [List.countP_eq_zero]
      intro e he
      simp [h.quiet e he]
    omega
  · have hquiet := h.quiet (.sent message) (by rw [heq]; simp)
    rw [Exchange.isCall, hcall] at hquiet
    cases hquiet
  · rw [h.ids]
    exact List.nodup_range'

/-! ## The call -/

theorem callMessage_id {name : String} {input : Json} :
    messageId (callMessage name input) = some 100 := rfl

/-- The call, and what may follow it. -/
theorem Orderly.called {n : Nat} {name : String} {input : Json} (h : Orderly n t) (hn : n < 99)
    (hadmitted : Admitted lib config mapping t) :
    Gated lib config mapping (t ++ [.sent (callMessage name input)]) := by
  have hids : requestIds (t ++ [.sent (callMessage name input)]) = List.range' 1 n ++ [100] := by
    have hlast : List.filterMap Exchange.request? [.sent (callMessage name input)] = [100] := rfl
    rw [requestIds, List.filterMap_append, hlast]
    exact congrArg (· ++ [100]) h.ids
  have hquiet : t.countP Exchange.isCall = 0 := by
    rw [List.countP_eq_zero]
    intro e he
    simp [h.quiet e he]
  refine ⟨?_, fun before message after heq hcall => ?_, fun before response after heq => ?_, ?_⟩
  · simp only [List.countP_append, hquiet, List.countP_singleton]
    split <;> omega
  · rcases append_singleton_eq heq with ⟨-, rfl, -⟩ | ⟨rest, hrest⟩
    · exact hadmitted
    · have hsilent := h.quiet (.sent message) (by rw [hrest]; simp)
      rw [Exchange.isCall, hcall] at hsilent
      cases hsilent
  · rcases append_singleton_eq heq with ⟨-, -, hne⟩ | ⟨rest, hrest⟩
    · cases hne
    · exact h.answered before response rest hrest
  · rw [hids, List.nodup_append]
    refine ⟨List.nodup_range', by simp, ?_⟩
    intro a ha b hb
    rw [List.mem_range'_1] at ha
    rw [List.mem_singleton] at hb
    omega

theorem Gated.answered_call {name : String} {input response : Json}
    (h : Gated lib config mapping (t ++ [.sent (callMessage name input)]))
    (hid : messageId response = some 100) :
    Gated lib config mapping (t ++ [.sent (callMessage name input)] ++ [.received response]) := by
  have hnone : List.filterMap Exchange.request? [.received response] = [] := rfl
  refine ⟨?_, fun before message after heq hcall => ?_, fun before response' after heq => ?_, ?_⟩
  · have hzero : [Exchange.received response].countP Exchange.isCall = 0 := rfl
    rw [List.countP_append, hzero]
    exact h.single
  · rcases append_singleton_eq heq with ⟨-, -, hne⟩ | ⟨rest, hrest⟩
    · cases hne
    · exact h.admitted before message rest hrest hcall
  · rcases append_singleton_eq heq with ⟨-, rfl, hlast⟩ | ⟨rest, hrest⟩
    · cases hlast
      refine ⟨100, ?_, hid⟩
      simp [requestIds, Exchange.request?, callMessage_id]
    · exact h.answered before response' rest hrest
  · rw [requestIds, List.filterMap_append, hnone, List.append_nil]
    exact h.fresh

/-! ## What the methods of a session send -/

/-- The method leaves the transcript alone. -/
def Silent {α : Type} (m : SessionM α) : Prop :=
  ∀ t, Spec m (fun s => s.transcript = t) (fun _ s => s.transcript = t) (fun s => s.transcript = t)

theorem await_silent : Silent await := by
  intro t
  refine Spec.get_bind fun s hs => ?_
  cases s.peer.patience with
  | zero => exact Spec.throw fun _ h => h ▸ hs
  | succ n => exact Spec.modify fun _ h => h ▸ hs

theorem write_silent : Silent write := by
  intro t
  refine Spec.bind (await_silent t) fun _ => Spec.get_bind fun s hs => ?_
  split
  · exact Spec.modify fun _ h => h ▸ hs
  · exact Spec.throw fun _ h => h ▸ hs

theorem fillBuf_silent : Silent fillBuf := by
  intro t
  refine Spec.get_bind fun s hs => ?_
  refine Spec.ite (fun _ => ?_) fun _ => ?_
  · refine Spec.bind ((await_silent t).mono (fun _ h => h ▸ hs) (fun _ _ h => h) fun _ h => h) ?_
    refine fun _ => Spec.get_bind fun s hs => ?_
    split
    · exact Spec.throw fun _ h => h ▸ hs
    · refine Spec.bind (Q := fun _ s => s.transcript = t) (Spec.modify fun _ h => h ▸ hs) fun _ => ?_
      exact Spec.throw fun _ h => h
    · refine Spec.bind (Q := fun _ s => s.transcript = t) (Spec.modify fun _ h => h ▸ hs) fun _ => ?_
      exact Spec.pure fun _ h => h
  · exact Spec.get_bind fun s h => Spec.pure fun _ h' => h' ▸ h ▸ hs

theorem readLineLoop_silent (fuel : Nat) (line : List UInt8) : Silent (readLineLoop fuel line) := by
  intro t
  induction fuel generalizing line with
  | zero => exact Spec.throw fun _ h => h
  | succ fuel ih =>
    refine Spec.bind (fillBuf_silent t) fun available => ?_
    refine Spec.ite (fun _ => Spec.throw fun _ h => h) fun _ => Spec.get_bind fun s hs => ?_
    refine Spec.ite (fun _ => Spec.throw fun _ h => h ▸ hs) fun _ => ?_
    refine Spec.bind (Q := fun _ s => s.transcript = t) (Spec.modify fun _ h => h ▸ hs) fun _ => ?_
    exact Spec.ite (fun _ => Spec.pure fun _ h => h) fun _ => ih _

theorem readLine_silent : Silent readLine := by
  intro t
  refine Spec.get_bind fun s hs => ?_
  refine Spec.bind ((readLineLoop_silent _ _ t).mono (fun _ h => h ▸ hs) (fun _ _ h => h) fun _ h => h)
    fun line => ?_
  refine Spec.bind (Q := fun _ s => s.transcript = t) (Spec.modify fun _ h => h) fun _ => ?_
  refine Spec.get_bind fun s hs => ?_
  refine Spec.ite (fun _ => Spec.throw fun _ h => h ▸ hs) fun _ => ?_
  exact Spec.ite (fun _ => Spec.pure fun _ h => h ▸ hs) fun _ => Spec.throw fun _ h => h ▸ hs

theorem send_spec (message : Json) (t : List Exchange) :
    Spec (send lib message) (fun s => s.transcript = t)
      (fun _ s => s.transcript = t ++ [.sent message])
      (fun s => s.transcript = t ∨ s.transcript = t ++ [.sent message]) := by
  unfold send
  split
  · exact Spec.throw fun _ h => .inl h
  · refine Spec.get_bind fun s hs => ?_
    refine Spec.ite (fun _ => Spec.throw fun _ h => .inl (h ▸ hs)) fun _ => ?_
    refine Spec.bind (Q := fun _ s => s.transcript = t ++ [.sent message])
      (Spec.modify fun _ h => by rw [h, hs]) fun _ => ?_
    exact (write_silent _).mono (fun _ h => h) (fun _ _ h => h) fun _ h => .inr h

/-- **A response is accepted only under the expected id.** -/
theorem response_spec (id : Nat) (t : List Exchange) :
    Spec (response lib id) (fun s => s.transcript = t)
      (fun r s => s.transcript = t ++ [.received r] ∧ messageId r = some id)
      (fun s => s.transcript = t) := by
  unfold response
  generalize maxProtocolMessages = left
  induction left with
  | zero => exact Spec.throw fun _ h => h
  | succ left ih =>
    refine Spec.bind (readLine_silent t) fun line => ?_
    cases lib.fromSlice line with
    | none => exact Spec.throw fun _ h => h
    | some value =>
      refine Spec.ite (fun _ => Spec.throw fun _ h => h) fun _ => ?_
      cases hid : (value.get "id").bind Json.asU64 with
      | none => exact Spec.ite (fun _ => ih) fun _ => Spec.throw fun _ h => h
      | some n =>
        refine Spec.get_bind fun s hs => ?_
        refine Spec.bind (Q := fun _ s => s.transcript = t) (Spec.modify fun _ h => h ▸ hs) fun _ => ?_
        refine Spec.ite (fun _ => Spec.throw fun _ h => h) fun hsame => ?_
        refine Spec.ite (fun _ => Spec.throw fun _ h => h) fun _ => ?_
        refine Spec.bind (Q := fun _ s => s.transcript = t ++ [.received value])
          (Spec.modify fun _ h => by rw [h]) fun _ => Spec.pure fun _ h => ⟨h, ?_⟩
        simp only [Bool.or_eq_true, decide_eq_true_eq, not_or, ne_eq, not_not] at hsame
        rw [messageId, hid, hsame.2]

/-- After `initialize` the server has named the pinned revision. -/
theorem initializeSession_spec :
    Spec (initializeSession lib) (fun s => s.transcript = [])
      (fun _ s => ∃ hello, s.transcript = opening hello ∧
        negotiatedRevision hello = some protocolRevision ∧ Orderly 1 s.transcript)
      (fun s => Gated lib config mapping s.transcript) := by
  have hsent : Orderly 1 [.sent initializeMessage] := Orderly.nil.request rfl rfl
  refine Spec.bind ((send_spec initializeMessage []).mono (fun _ h => h) (fun _ _ h => h) ?_)
    fun _ => ?_
  · rintro s (h | h) <;> rw [h]
    · exact Orderly.nil.gated
    · exact hsent.gated
  · refine Spec.bind ((response_spec 1 [.sent initializeMessage]).mono (fun _ h => h)
      (fun _ _ h => h) fun s h => h ▸ hsent.gated) fun hello => ?_
    refine Spec.ite (fun _ => Spec.throw ?_) fun hrevision => ?_
    · rintro s ⟨h, hid⟩
      rw [h]
      exact (hsent.answer hid).gated
    · intro s hs
      obtain ⟨htranscript, hid⟩ := hs
      have hanswered : Orderly 1 [.sent initializeMessage, .received hello] := hsent.answer hid
      have hopened : Orderly 1 (opening hello) := hanswered.notify rfl rfl
      refine (send_spec initializedMessage [.sent initializeMessage, .received hello]).mono
        (fun _ h => h) (fun _ s h => ?_) (fun s h => ?_) s htranscript
      · exact ⟨hello, h, by simpa using hrevision, h ▸ hopened⟩
      · rcases h with h | h <;> rw [h]
        · exact hanswered.gated
        · exact hopened.gated

/-! ## Discovery -/

/-- What `find_tool` knows after pages that all named a next one. -/
structure Scanned (config : StdioServerConfig) (wanted : String) (pages : List Json)
    (tools : List RemoteTool) (d : Discovery) : Prop where
  bounded : tools.length ≤ config.maxTools
  wellFormed : ∀ r ∈ pages, (pageTools r).isSome = true
  parsed : (rawTools pages).map RemoteTool.parse = tools.map .ok
  names : ∀ n, n ∈ d.names ↔ n ∈ tools.map RemoteTool.name
  distinct : (tools.map RemoteTool.name).Nodup
  found : ∀ tool, d.found = some tool ↔ tool ∈ tools ∧ tool.name = wanted
  total : d.total = tools.length
  cursors : ∃ cs : List String, pages.map pageCursor = cs.map some ∧ cs.Nodup ∧
    ∀ c, c ∈ d.cursors ↔ c ∈ cs
  cursor : d.cursor = pages.getLast?.bind pageCursor

theorem Scanned.start {wanted : String} : Scanned config wanted [] [] ⟨none, [], [], none, 0⟩ :=
  ⟨Nat.zero_le _, nofun, rfl, by simp, by simp, by simp, rfl, ⟨[], by simp⟩, rfl⟩

/-- The inner loop adds the tools of a page. -/
theorem scanTools_ok {wanted : String} {raw : List Json} {tools : List RemoteTool} {d d' : Discovery}
    (hnames : ∀ n, n ∈ d.names ↔ n ∈ tools.map RemoteTool.name)
    (hdistinct : (tools.map RemoteTool.name).Nodup)
    (hfound : ∀ tool, d.found = some tool ↔ tool ∈ tools ∧ tool.name = wanted)
    (h : scanTools wanted raw d = .ok d') :
    ∃ more, raw.map RemoteTool.parse = more.map .ok ∧
      (∀ n, n ∈ d'.names ↔ n ∈ (tools ++ more).map RemoteTool.name) ∧
      ((tools ++ more).map RemoteTool.name).Nodup ∧
      (∀ tool, d'.found = some tool ↔ tool ∈ tools ++ more ∧ tool.name = wanted) ∧
      d'.total = d.total ∧ d'.cursors = d.cursors ∧ d'.cursor = d.cursor := by
  induction raw generalizing tools d with
  | nil =>
    cases h
    exact ⟨[], rfl, by simpa using hnames, by simpa using hdistinct, by simpa using hfound, rfl, rfl,
      rfl⟩
  | cons value rest ih =>
    simp only [scanTools] at h
    cases hparse : RemoteTool.parse value with
    | error e =>
      rw [hparse] at h
      cases h
    | ok tool =>
      rw [hparse] at h
      by_cases hseen : tool.name ∈ d.names
      · simp [hseen] at h
      · simp only [hseen, if_false] at h
        have hnew : tool.name ∉ tools.map RemoteTool.name := fun hmem => hseen ((hnames _).mpr hmem)
        have hnames' : ∀ n, n ∈ tool.name :: d.names ↔ n ∈ (tools ++ [tool]).map RemoteTool.name := by
          intro n
          simp [hnames n, or_comm]
        have hdistinct' : ((tools ++ [tool]).map RemoteTool.name).Nodup := by
          rw [List.map_append, List.nodup_append]
          refine ⟨hdistinct, by simp, fun a ha b hb => ?_⟩
          simp only [List.map_cons, List.map_nil, List.mem_singleton] at hb
          rintro rfl
          exact hnew (hb ▸ ha)
        have hfound' : ∀ u, (if tool.name = wanted then some tool else d.found) = some u ↔
            u ∈ tools ++ [tool] ∧ u.name = wanted := by
          intro u
          by_cases hwanted : tool.name = wanted
          · simp only [hwanted, if_true, Option.some.injEq, List.mem_append, List.mem_singleton]
            constructor
            · rintro rfl
              exact ⟨.inr rfl, hwanted⟩
            · rintro ⟨hu | rfl, hname⟩
              · exact absurd (List.mem_map.mpr ⟨u, hu, hname.trans hwanted.symm⟩) hnew
              · rfl
          · simp only [hwanted, if_false, hfound u, List.mem_append, List.mem_singleton]
            constructor
            · rintro ⟨hu, hname⟩
              exact ⟨.inl hu, hname⟩
            · rintro ⟨hu | rfl, hname⟩
              · exact ⟨hu, hname⟩
              · exact absurd hname hwanted
        obtain ⟨more, hmore, hrest⟩ := ih hnames' hdistinct' hfound' h
        refine ⟨tool :: more, by simp [hparse, hmore], ?_⟩
        simpa using hrest

theorem rawTools_concat {pages : List Json} {r : Json} {raw : List Json} (h : pageTools r = some raw) :
    rawTools (pages ++ [r]) = rawTools pages ++ raw := by
  simp [rawTools, h]

/-- One page: the scan goes on, or it is complete. -/
theorem scanPage_ok {wanted : String} {pages : List Json} {tools : List RemoteTool}
    {d : Discovery} {r : Json} {next : Discovery ⊕ RemoteTool} (hd : Scanned config wanted pages tools d)
    (hpages : pages.length < config.maxPages) (h : scanPage config wanted d r = .ok next) :
    ∃ more, match next with
      | .inl d' => Scanned config wanted (pages ++ [r]) (tools ++ more) d'
      | .inr tool => Enumeration config (pages ++ [r]) (tools ++ more) ∧ tool ∈ tools ++ more ∧
        ∀ u ∈ tools ++ more, u.name = wanted ↔ u = tool := by
  unfold scanPage at h
  cases hraw : pageTools r with
  | none =>
    rw [hraw] at h
    cases h
  | some raw =>
    rw [hraw] at h
    simp only at h
    by_cases hmany : d.total + raw.length > config.maxTools
    · simp [hmany] at h
    simp only [hmany, if_false] at h
    cases hscan : scanTools wanted raw { d with total := d.total + raw.length } with
    | error e =>
      rw [hscan] at h
      cases h
    | ok d' =>
      rw [hscan] at h
      obtain ⟨more, hmore, hnames, hdistinct, hfound, htotal, hcursors, -⟩ :=
        scanTools_ok (d := { d with total := d.total + raw.length }) hd.names hd.distinct hd.found hscan
      have hlength : raw.length = more.length := by simpa using congrArg List.length hmore
      have hbounded : (tools ++ more).length ≤ config.maxTools := by
        have := hd.total
        simp only [List.length_append]
        omega
      have hwell : ∀ r' ∈ pages ++ [r], (pageTools r').isSome = true := by
        intro r' hr'
        rcases List.mem_append.mp hr' with hr' | hr'
        · exact hd.wellFormed r' hr'
        · rw [List.mem_singleton.mp hr', hraw]
          rfl
      have hparsed : (rawTools (pages ++ [r])).map RemoteTool.parse = (tools ++ more).map .ok := by
        rw [rawTools_concat hraw, List.map_append, List.map_append, hd.parsed, hmore]
      obtain ⟨cs, hcs, hnodup, hmem⟩ := hd.cursors
      -- the last page of an enumeration
      have hlast : ∀ tool, nextCursor r = none ∨ nextCursor r = some .null → d'.found = some tool →
          Enumeration config (pages ++ [r]) (tools ++ more) ∧ tool ∈ tools ++ more ∧
            ∀ u ∈ tools ++ more, u.name = wanted ↔ u = tool := by
        intro tool hnone htool
        obtain ⟨hin, hname⟩ := (hfound tool).mp htool
        refine ⟨⟨?_, hbounded, hwell, hparsed, hdistinct, ⟨cs, by simpa using hcs, hnodup⟩,
          ⟨r, by simp, hnone⟩⟩, hin, fun u hu => ⟨fun hu' => ?_, fun hu' => hu' ▸ hname⟩⟩
        · simp only [List.length_append, List.length_singleton]
          omega
        · exact Option.some.inj (((hfound u).mpr ⟨hu, hu'⟩).symm.trans htool)
      refine ⟨more, ?_⟩
      simp only at h
      split at h
      · rename_i hnone
        cases htool : d'.found with
        | none =>
          rw [htool] at h
          cases h
        | some tool =>
          rw [htool] at h
          cases h
          exact hlast tool (.inl hnone) htool
      · rename_i hnull
        cases htool : d'.found with
        | none =>
          rw [htool] at h
          cases h
        | some tool =>
          rw [htool] at h
          cases h
          exact hlast tool (.inr hnull) htool
      · rename_i cursor hcursor
        split at h
        · cases h
        split at h
        · cases h
        · rename_i hfresh
          cases h
          have hpage : pageCursor r = some cursor := by simp [pageCursor, hcursor, Json.asStr]
          have hnew : cursor ∉ cs := by
            rw [← hmem]
            simpa [hcursors] using hfresh
          refine ⟨hbounded, hwell, hparsed, hnames, hdistinct, hfound, ?_, ⟨cs ++ [cursor], ?_, ?_, ?_⟩,
            by simp [hpage]⟩
          · have := hd.total
            simp only [htotal, List.length_append]
            omega
          · simp [hcs, hpage]
          · rw [List.nodup_append]
            refine ⟨hnodup, by simp, fun a ha b hb => ?_⟩
            rw [List.mem_singleton] at hb
            rintro rfl
            exact hnew (hb ▸ ha)
          · intro c
            simp [hcursors, hmem c, or_comm]
      · cases h

/-- The listing grows at its end, with the cursor of the page before. -/
theorem listing_concat {page : Nat} {cursor : Option String} {pages : List Json} {r : Json} :
    listing page cursor (pages ++ [r]) = listing page cursor pages ++
      [.sent (listMessage (2 + page + pages.length) ((pages.getLast?.map pageCursor).getD cursor)),
        .received r] := by
  induction pages generalizing page cursor with
  | nil => rfl
  | cons p rest ih =>
    have hlast : (((p :: rest).getLast?).map pageCursor).getD cursor =
        (rest.getLast?.map pageCursor).getD (pageCursor p) := by
      cases rest with
      | nil => rfl
      | cons q rest => rw [List.getLast?_cons_cons, List.getLast?_cons]; rfl
    have hid : 2 + page + (rest.length + 1) = 2 + (page + 1) + rest.length := by omega
    simp only [List.cons_append, listing, ih, List.length_cons, hlast, hid]

/-- The transcript while tools are listed. -/
structure Listing (config : StdioServerConfig) (wanted : String) (page : Nat) (d : Discovery)
    (t : List Exchange) : Prop where
  orderly : Orderly (1 + page) t
  listed : ∃ hello pages tools, t = opening hello ++ listing 0 none pages ∧
    negotiatedRevision hello = some protocolRevision ∧ pages.length = page ∧
    Scanned config wanted pages tools d

/-- The transcript when the listing has named the tool. -/
structure Listed (config : StdioServerConfig) (wanted : String) (tool : RemoteTool)
    (t : List Exchange) : Prop where
  orderly : ∃ n, n < 99 ∧ Orderly n t
  listed : ∃ hello pages tools, t = opening hello ++ listing 0 none pages ∧
    negotiatedRevision hello = some protocolRevision ∧ Enumeration config pages tools ∧
    (∀ u ∈ tools, u.name = wanted ↔ u = tool) ∧ tool ∈ tools

theorem listMessage_id {n : Nat} {cursor : Option String} :
    messageId (listMessage n cursor) = some n := rfl

theorem listMessage_quiet {n : Nat} {cursor : Option String} :
    isToolCall (listMessage n cursor) = false := rfl

/-- A page on top of the listing. -/
theorem Listing.scanned {wanted : String} {page : Nat} {d : Discovery} {r : Json}
    {next : Discovery ⊕ RemoteTool} (h : Listing config wanted page d t) (hpage : page < config.maxPages)
    (hid : messageId r = some (2 + page)) (hscan : scanPage config wanted d r = .ok next) :
    match next with
    | .inl d' => Listing config wanted (page + 1) d'
        (t ++ [.sent (listMessage (2 + page) d.cursor)] ++ [.received r])
    | .inr tool => Listed config wanted tool
        (t ++ [.sent (listMessage (2 + page) d.cursor)] ++ [.received r]) := by
  obtain ⟨horderly, hello, pages, tools, rfl, hrevision, rfl, hd⟩ := h
  have hnext : Orderly (1 + (pages.length + 1)) (opening hello ++ listing 0 none pages ++
      [.sent (listMessage (2 + pages.length) d.cursor)] ++ [.received r]) := by
    rw [show 2 + pages.length = 1 + pages.length + 1 by omega] at hid ⊢
    exact (horderly.request listMessage_id listMessage_quiet).answer hid
  have hlist : opening hello ++ listing 0 none pages ++
      [.sent (listMessage (2 + pages.length) d.cursor)] ++ [.received r] =
        opening hello ++ listing 0 none (pages ++ [r]) := by
    have hcursor : d.cursor = (pages.getLast?.map pageCursor).getD none := by
      rw [hd.cursor]
      cases pages.getLast? <;> rfl
    rw [listing_concat, ← hcursor]
    simp
  rw [hlist] at hnext ⊢
  obtain ⟨more, hmore⟩ := scanPage_ok hd hpage hscan
  cases next with
  | inl d' => exact ⟨hnext, hello, pages ++ [r], tools ++ more, rfl, hrevision, by simp, hmore⟩
  | inr tool =>
    obtain ⟨henum, htool, honly⟩ := hmore
    refine ⟨⟨_, ?_, hnext⟩, hello, pages ++ [r], tools ++ more, rfl, hrevision, henum, honly, htool⟩
    have := config.maxPages_le
    simp only [defaultMaxPages] at this
    omega

theorem ofExcept_spec {α : Type} {x : Except McpAdapterError α} {P : Session → Prop} :
    Spec (ofExcept x) P (fun a s => P s ∧ x = .ok a) P := by
  intro s hs
  cases x with
  | ok a => exact ⟨hs, rfl⟩
  | error e => exact hs

/-- The loop of `find_tool` ends with the whole listing, or without a call. -/
theorem findToolLoop_spec {wanted : String} {left page : Nat} {d : Discovery}
    (hleft : page + left = config.maxPages) :
    Spec (findToolLoop lib config wanted left page d)
      (fun s => Listing config wanted page d s.transcript)
      (fun tool s => Listed config wanted tool s.transcript)
      (fun s => Gated lib config mapping s.transcript) := by
  induction left generalizing page d with
  | zero => exact Spec.throw fun s h => h.orderly.gated
  | succ left ih =>
    intro s hs
    have hlisting := hs
    generalize hstart : s.transcript = t at hlisting
    have hsent : Orderly (1 + page + 1) (t ++ [.sent (listMessage (2 + page) d.cursor)]) := by
      refine hlisting.orderly.request ?_ listMessage_quiet
      rw [listMessage_id]
      congr 1
      omega
    have hsend : Spec (send lib (listMessage (2 + page) d.cursor)) (fun s => s.transcript = t)
        (fun _ s => s.transcript = t ++ [.sent (listMessage (2 + page) d.cursor)])
        (fun s => Gated lib config mapping s.transcript) := by
      refine (send_spec _ t).mono (fun _ h => h) (fun _ _ h => h) ?_
      rintro s (h | h) <;> rw [h]
      · exact hlisting.orderly.gated
      · exact hsent.gated
    refine Spec.bind hsend (fun _ => ?_) s hstart
    refine Spec.bind ((response_spec (2 + page) _).mono (fun _ h => h) (fun _ _ h => h)
      fun s h => h ▸ hsent.gated) fun r => ?_
    refine Spec.bind (ofExcept_spec.mono (fun _ h => h) (fun _ _ h => h) ?_) fun next => ?_
    · rintro s ⟨h, hid⟩
      rw [h]
      refine (hsent.answer ?_).gated
      rw [hid]
      congr 1
      omega
    · rintro s ⟨⟨htranscript, hid⟩, hscan⟩
      have hnext := hlisting.scanned (by omega) hid hscan
      cases next with
      | inl d' =>
        refine ih (by omega) s ?_
        show Listing config wanted (page + 1) d' s.transcript
        rw [htranscript]
        exact hnext
      | inr tool =>
        show Listed config wanted tool s.transcript
        rw [htranscript]
        exact hnext

/-! ## The invocation -/

/-- The body of `wait` is gated at every exit. -/
theorem exchangeCall_spec {input : Json} :
    Spec (exchangeCall lib config mapping input) (fun s => s.transcript = [])
      (fun _ s => Gated lib config mapping s.transcript)
      (fun s => Gated lib config mapping s.transcript) := by
  refine Spec.bind initializeSession_spec fun _ => ?_
  refine Spec.bind ((findToolLoop_spec (by omega)).mono ?_ (fun _ _ h => h) fun _ h => h)
    fun remote => ?_
  · rintro s ⟨hello, htranscript, hrevision, horderly⟩
    exact ⟨horderly, hello, [], [], by simp [htranscript, listing], hrevision, rfl, Scanned.start⟩
  · refine Spec.bind (ofExcept_spec.mono (fun _ h => h) (fun _ _ h => h) ?_) fun actual => ?_
    · rintro s ⟨⟨n, -, horderly⟩, -⟩
      exact horderly.gated
    · refine Spec.ite (fun _ => Spec.throw ?_) fun hsame => ?_
      · rintro s ⟨⟨⟨n, -, horderly⟩, -⟩, -⟩
        exact horderly.gated
      · rintro s ⟨⟨⟨n, hn, horderly⟩, hlisted⟩, hfingerprint⟩
        generalize hstart : s.transcript = t at horderly hlisted
        have hadmitted : Admitted lib config mapping t := by
          obtain ⟨hello, pages, tools, rfl, hrevision, henum, honly, htool⟩ := hlisted
          refine ⟨hello, pages, tools, remote, rfl, hrevision, henum, honly, htool, ?_⟩
          rw [hfingerprint, not_not.mp hsame]
        have hcalled : Gated lib config mapping
            (t ++ [.sent (callMessage mapping.remoteName input)]) := horderly.called hn hadmitted
        refine Spec.bind (P := fun s => s.transcript = t) (Q := fun _ s => s.transcript =
          t ++ [.sent (callMessage mapping.remoteName input)]) ?_ (fun _ => ?_) s hstart
        · refine (send_spec _ t).mono (fun _ h => h) (fun _ _ h => h) ?_
          rintro s (h | h) <;> rw [h]
          · exact horderly.gated
          · exact hcalled
        · refine Spec.bind ((response_spec 100 _).mono (fun _ h => h) (fun _ _ h => h)
            fun s h => h ▸ hcalled) fun response => ?_
          refine ofExcept_spec.mono (fun _ h => h) ?_ ?_
          · rintro _ s ⟨⟨h, hid⟩, -⟩
            exact h ▸ hcalled.answered_call hid
          · rintro s ⟨h, hid⟩
            exact h ▸ hcalled.answered_call hid

/-- Nothing was sent yet, or the call is gone and the transcript is gated. -/
def McpInvocation.Sound (lib : Library) (i : McpInvocation) : Prop :=
  (i.transcript = [] ∧ ∀ s, i.session = some s → s.transcript = []) ∨
    (i.call = none ∧ Gated lib i.config i.mapping i.transcript)

theorem McpInvocation.Sound.step {i : McpInvocation} (h : i.Sound lib) (m : Method) :
    (i.step lib m).2.Sound lib := by
  cases m with
  | terminateAndReap reaped =>
    rcases h with ⟨hempty, -⟩ | hdone
    · exact .inl ⟨hempty, nofun⟩
    · exact .inr hdone
  | wait completes reaped =>
    simp only [McpInvocation.step]
    cases hcall : i.call with
    | none => exact h
    | some call =>
      rcases h with ⟨hempty, hfresh⟩ | ⟨hnone, -⟩
      · cases hsession : i.session with
        | none => exact .inr ⟨rfl, hempty ▸ Orderly.nil.gated⟩
        | some session =>
          right
          refine ⟨rfl, ?_⟩
          have hspec : Spec (exchangeCall lib i.config i.mapping call.input)
              (fun s => s.transcript = []) (fun _ s => Gated lib i.config i.mapping s.transcript)
              (fun s => Gated lib i.config i.mapping s.transcript) := exchangeCall_spec
          have hbody := hspec session (hfresh session hsession)
          simp only
          cases hrun : exchangeCall lib i.config i.mapping call.input session with
          | ok a s =>
            rw [hrun] at hbody
            exact hbody
          | error e s =>
            rw [hrun] at hbody
            exact hbody
      · rw [hcall] at hnone
        cases hnone

theorem McpInvocation.step_mapping {i : McpInvocation} (m : Method) :
    (i.step lib m).2.config = i.config ∧ (i.step lib m).2.mapping = i.mapping := by
  cases m with
  | terminateAndReap reaped => exact ⟨rfl, rfl⟩
  | wait completes reaped =>
    simp only [McpInvocation.step]
    split
    · exact ⟨rfl, rfl⟩
    · split <;> exact ⟨rfl, rfl⟩

/-- **A tool is called at most once, and only after the listing admitted it**, whatever bytes the
server sends, wherever it stops and whenever the caller gives up. -/
theorem invocation_gated (lib : Library) (config : StdioServerConfig) (mapping : ToolMapping)
    (call : ToolCall) (peer : Peer) (methods : List Method) :
    Gated lib config mapping
      ((McpInvocation.start config mapping call peer).run lib methods).transcript := by
  have hrun : ∀ (methods : List Method) (i : McpInvocation), i.Sound lib →
      (i.run lib methods).Sound lib ∧ (i.run lib methods).config = i.config ∧
        (i.run lib methods).mapping = i.mapping := by
    intro methods
    induction methods with
    | nil => exact fun i h => ⟨h, rfl, rfl⟩
    | cons m rest ih =>
      intro i h
      obtain ⟨hsound, hconfig, hmapping⟩ := ih (i.step lib m).2 (h.step m)
      have hkept : (i.step lib m).2.config = i.config ∧ (i.step lib m).2.mapping = i.mapping :=
        McpInvocation.step_mapping m
      obtain ⟨hc, hm⟩ := hkept
      exact ⟨hsound, hconfig.trans hc, hmapping.trans hm⟩
  obtain ⟨hsound, hconfig, hmapping⟩ := hrun methods (.start config mapping call peer)
    (.inl ⟨rfl, fun s hs => by cases hs; rfl⟩)
  rcases hsound with ⟨hempty, -⟩ | ⟨-, hgated⟩
  · rw [hempty]
    exact Orderly.nil.gated
  · rw [hconfig, hmapping] at hgated
    exact hgated

end LocalAgent.Mcp
