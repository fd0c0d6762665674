import LocalAgent.Harness.Client

/-!
# Clients of the harness

Any number of clients call the harness, each on a context of its own, in a world that answers
their requests. Which commands are called, what the world is and which answers it may give is the
`Setting`. The results of the files that follow are about every reachable state of such a machine,
so they hold for every order of the clients' requests and for a crash between any two of them.
-/
namespace LocalAgent

open Program

/-! ## What an answer does to a view -/

/-- The run that a client has read or created. -/
def Request.openedRun : (r : Request) → Answer r → Option KnownRun
  | .createRun record _, .ok _ => some ⟨record, []⟩
  | .loadRun .recovery _, .ok loaded => some ⟨loaded.record, loaded.events⟩
  | _, _ => none

namespace View

variable {lib : Library} {v : View lib} {r : Request} {a : Answer r}

/-- The ways in which a view moves. -/
inductive Moved (v : View lib) (r : Request) (a : Answer r) : View lib → Prop
  | opened {k} (run : r.openedRun a = some k) (silent : r.transition = none)
      (idle : r.portCall = none) : Moved v r a (v.opened k)
  | stored {t} (transition : r.transition = some t) (idle : r.portCall = none)
      (closed : r.openedRun a = none) : Moved v r a (v.stored t.event (r.accepted a))
  | called {run key} (call : r.portCall = some (run, key)) (silent : r.transition = none)
      (closed : r.openedRun a = none) : Moved v r a (v.calling key)
  | interrupted {run key} (call : r.portCall = some (run, key)) (silent : r.transition = none)
      (closed : r.openedRun a = none) : Moved v r a (v.calling key).interrupt
  | reaped (silent : r.transition = none) (idle : r.portCall = none)
      (closed : r.openedRun a = none) : Moved v r a v.interrupt
  | unaudited {site event} (silent : r.transition = none) (idle : r.portCall = none)
      (closed : r.openedRun a = none) : Moved v r a (v.auditRefused site event)
  | unmoved (silent : r.transition = none) (idle : r.portCall = none)
      (closed : r.openedRun a = none) : Moved v r a v

theorem step_moved : Moved v r a (v.step r a) := by
  cases r with
  | createRun record checkpoint =>
    cases a with
    | ok u => exact .opened rfl rfl rfl
    | error e => exact .unmoved rfl rfl rfl
  | loadRun purpose key =>
    cases purpose with
    | authorization => exact .unmoved rfl rfl rfl
    | recovery =>
      cases a with
      | ok loaded => exact .opened rfl rfl rfl
      | error e => exact .unmoved rfl rfl rfl
  | appendTransition t | createDurableApprovalWait t _ _ | recordDurableApprovalDecision t _ =>
    cases a <;> exact .stored rfl rfl rfl
  | transitionDurableApprovalStatus request =>
    simp only [step]
    split
    · rename_i t ht
      cases a <;> exact .stored ht rfl rfl
    · rename_i hnone
      exact .unmoved hnone rfl rfl
  | modelInvoke | knowledgeRetrieve | approvalDecide | startManaged | startContained =>
    exact .called rfl rfl rfl
  | toolInvoke run call =>
    simp only [step]
    split
    · exact .interrupted rfl rfl rfl
    · exact .called rfl rfl rfl
  | reapManaged | reapContained =>
    cases a with
    | ok u => exact .reaped rfl rfl rfl
    | error e => exact .unmoved rfl rfl rfl
  | audit site event =>
    simp only [step]
    split
    · exact .unaudited rfl rfl rfl
    · exact .unmoved rfl rfl rfl
  | _ => exact .unmoved rfl rfl rfl

theorem observe_command : (v.observe r a).command = v.command := by
  show (v.step r a).command = v.command
  have hmoved := step_moved (v := v) (a := a)
  generalize v.step r a = w at hmoved
  cases hmoved with
  | stored => cases r.accepted a <;> rfl
  | _ => rfl

theorem observe_volatile (h : v.volatile = false) : (v.observe r a).volatile = false := by
  show (v.step r a).volatile = false
  have hmoved := step_moved (v := v) (a := a)
  generalize v.step r a = w at hmoved
  cases hmoved with
  | opened => rfl
  | stored => cases r.accepted a <;> exact h
  | _ => exact h

end View

/-! ## The machine -/

structure Setting (lib : Library) where
  admits : Command lib → Prop
  World : Type
  exec : World → (r : Request) → Answer r → World → Prop
  /-- One command at a time. -/
  serial : Prop

namespace Setting

variable {lib : Library}

@[reducible] def clients (S : Setting lib) : Machine Answer where
  Cmd := Command lib
  Local := Holding
  blank := .nothing
  code := Command.code
  admits := S.admits
  World := S.World
  exec := S.exec
  serial := S.serial

/-- The monitor of one client, kept for each client. -/
@[reducible] def watch (S : Setting lib) : Watch S.clients where
  toMonitor := monitor lib
  init := ({} : View lib)
  begin v cmd _ := v.began cmd
  Rest := Holding.AtRest

/-- Every command keeps to the monitor. -/
theorem watch_sound (S : Setting lib) : S.watch.Sound where
  blank := trivial
  code _ _ _ _ h := Command.code_permitted h

/-- Every harness of the setting has a persistence port. -/
def Persists (S : Setting lib) : Prop := ∀ cmd, S.admits cmd → cmd.harness.persistence = true

section

variable {S : Setting lib} {h : S.clients.History} {i j : Nat}

/-- The view of one client after a history. -/
def view (S : Setting lib) (i : Nat) (h : S.clients.History) : View lib := S.watch.view i h

@[simp] theorem view_nil : S.view i [] = {} := rfl

@[simp] theorem view_began {cmd : Command lib} {l : Holding} :
    S.view i (h ++ [(i, .began cmd l)]) = (S.view i h).began cmd := Watch.view_self ..

@[simp] theorem view_did {r : Request} {a : Answer r} :
    S.view i (h ++ [(i, .did r a)]) = (S.view i h).observe r a := Watch.view_self ..

@[simp] theorem view_crashed : S.view i (h ++ [(i, .crashed)]) = {} := Watch.view_self ..

theorem view_other {e : S.clients.Act} (hij : i ≠ j) : S.view i (h ++ [(j, e)]) = S.view i h :=
  Watch.view_other _ hij

/-- The view knows the command the client runs. -/
theorem view_command : (S.view i h).command = S.clients.running i h := by
  induction h using List.reverseRecOn with
  | nil => rfl
  | append_singleton h act ih =>
    obtain ⟨j, e⟩ := act
    by_cases hij : i = j
    · subst hij
      cases e with
      | began cmd l =>
        rw [view_began, Machine.running_began]
        exact (during_began _ _).command
      | did r a => rw [view_did, View.observe_command, Machine.running_did, ih]
      | crashed =>
        rw [view_crashed, Machine.running_crashed]
    · rw [view_other hij, Machine.running_other hij, ih]

/-- What only answers put into a view was put there by one. -/
theorem view_set (flag : View lib → Prop) {sets : View lib → (r : Request) → Answer r → Prop}
    (hinit : ¬ flag {}) (hbegan : ∀ v cmd, flag (View.began v cmd) → flag v)
    (hdid : ∀ v r a, flag (View.observe v r a) → flag v ∨ sets v r a) (hflag : flag (S.view i h)) :
    ∃ p r a, h[p]? = some (i, .did r a) ∧ sets (S.view i (h.take p)) r a := by
  obtain ⟨p, e, hp, ⟨r, a, rfl, hset⟩, -⟩ := Machine.Watch.raised (W := S.watch) flag
    (A := fun v e => ∃ r a, e = .did r a ∧ sets v r a) (B := fun _ => False) hinit (fun v e hv => by
      cases e with
      | began cmd l => exact .inr ⟨hbegan v cmd hv, not_false⟩
      | did r a => exact (hdid v r a hv).symm.imp (fun hset => ⟨r, a, rfl, hset⟩) fun hold => ⟨hold, not_false⟩
      | crashed => exact absurd hv hinit) hflag
  exact ⟨p, r, a, hp, hset⟩

/-- What holds of the view in which a request was made. -/
theorem acted {w₀ : S.World} {s : S.clients.State} (hs : S.clients.Reachable w₀ s) {p : Nat}
    {r : Request} {a : Answer r} (hp : s.history[p]? = some (i, .did r a)) :
    (S.view i (s.history.take p)).permits r ∧
      ∃ cmd, (S.view i (s.history.take p)).command = some cmd ∧ S.admits cmd := by
  rw [view_command]
  exact hs.permitted S.watch_sound hp

/-- With persistence everywhere no context is used without it. -/
theorem view_volatile (hpersist : S.Persists) {w₀ : S.World} {s : S.clients.State}
    (hs : S.clients.Reachable w₀ s) : (S.view i s.history).volatile = false := by
  have hall : ∀ i, (S.view i s.history).volatile = false := by
    refine hs.induct (P := fun _ h => ∀ i, (S.view i h).volatile = false) S.watch_sound
      (fun _ => rfl) ?_ ?_ ?_
    · intro w h j cmd l ih hadmits i
      by_cases hij : i = j
      · subst hij
        rw [view_began]
        unfold View.began
        split <;> simp [hpersist cmd hadmits, ih i]
      · rw [view_other hij]
        exact ih i
    · intro w h j r a w' ih _ i
      by_cases hij : i = j
      · subst hij
        rw [view_did]
        exact View.observe_volatile (ih i)
      · rw [view_other hij]
        exact ih i
    · intro w h j ih i
      by_cases hij : i = j
      · subst hij
        rw [view_crashed]
      · rw [view_other hij]
        exact ih i
  exact hall i

end
end Setting

/-! ## A sample environment

Ports that answer every request at once and favourably, ids that are counted up. A scenario
replaces the answers it is about. -/

def plainLibrary : Library where
  codec := plainCodec
  decode _ := .error .emptyOutput
  validateArgumentLimits _ := .ok ()
  computeActionDigest _ _ _ := ⟨0⟩
  computeToolContractDigest _ := ⟨0⟩

/-- The tool of durable approvals, contained. -/
def writeBinding : ToolBinding where
  definition := ⟨durableLocalWriteToolName, "", .localWrite, .null⟩
  execution := .contained
  validator _ := true

/-- A tool that reads. -/
def readBinding : ToolBinding where
  definition := ⟨⟨"read"⟩, "", .readOnly, .null⟩
  execution := .direct
  validator _ := true

def sampleTools : ToolRegistry where
  get name :=
    if name = durableLocalWriteToolName then some writeBinding
    else if name = ⟨"read"⟩ then some readBinding
    else none
  name_of_get := by
    intro name binding h
    split_ifs at h with hwrite hread
    · cases h
      exact hwrite.symm
    · cases h
      exact hread.symm

def sampleHarness : ExecutionHarness where
  tools := sampleTools
  approval := true
  persistence := true
  knowledge := true
  actionSeal := true
  workspaceBindingId := some ⟨0⟩
  auditFailurePolicy := .failOpen

/-- The favourable answer; `n` is the next id. -/
def favourable (n : Nat) : (r : Request) → Answer r
  | .freshUuid => n
  | .instantNow => 0
  | .wallClock => some 1000
  | .isCancelled _ => false
  | .authorize .readOnly => .allowed
  | .authorize _ => .requiresApproval
  | .approvalPreview .. => .ok ⟨"", ""⟩
  | .sealLocalWrite .. => .ok ⟨localWriteCapsuleVersion, "key", [0], [0]⟩
  | .openLocalWrite .. => .ok ⟨"a", ""⟩
  | .modelInvoke .. => .ready (.ok ⟨[], none⟩)
  | .knowledgeRetrieve .. => .ready (.error .allBackendsFailed)
  | .approvalDecide _ request _ => .ready (.ok ⟨request.id, request.actionDigest, .granted⟩)
  | .toolInvoke _ call => .ready (.ok (.succeeded call.id .null))
  | .startManaged .. | .startContained .. => .ok ()
  | .waitManaged _ id | .waitContained _ id => .ready (.ok (.succeeded id .null))
  | .reapManaged .. | .reapContained .. => .ok ()
  | .audit .. => .ready (.ok ())
  | .createRun .. | .appendTransition _ | .createDurableApprovalWait ..
  | .recordDurableApprovalDecision .. | .transitionDurableApprovalStatus _ => .ok ()
  | .loadRun .. => .error .unavailable
  | .loadDurableApprovalWait .. => .error .unavailable

/-- The next id after a request. -/
def nextId (n : Nat) : Request → Nat
  | .freshUuid => n + 1
  | _ => n

/-- A validated write of the plain library. -/
def plainWrite (arguments : Json) : ValidatedAction plainLibrary :=
  ⟨⟨9⟩, durableLocalWriteToolName, arguments, .localWrite, ⟨0⟩, rfl⟩

def sampleCommand (operation : Operation plainLibrary) : Command plainLibrary :=
  ⟨sampleHarness, operation⟩

end LocalAgent
