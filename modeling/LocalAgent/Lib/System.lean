import LocalAgent.Lib.Position
import LocalAgent.Lib.Program
import Mathlib.Logic.Function.Basic
import Mathlib.Logic.Relation

/-!
# Clients of a shared world

Any number of clients run commands against one world. A client that is not running a command
keeps a local value; a command is a program that starts from that value and ends in a new one. A
step of the system is one request of one client, so commands interleave at every request, unless
the machine is `serial`. A client can crash at any point: its program and its local value are
gone, the world stays as it is.

The history is all an observer sees: the commands with what they began on, and the requests with
their answers. `Watch` is a monitor whose view is kept for each client by
folding the history; if every command conforms to it, then every request in every reachable
history was permitted in the view the client had at that point (`Reachable.permitted`), whatever
the other clients did. `Reachable.induct` is the induction rule that hands this fact to a proof
about the world and the history. `Watch.since`, `Watch.of_since`, `Watch.raised` and
`Watch.of_later` relate what a view remembers to positions of the history.
-/
namespace Program

variable {Req : Type} {Ans : Req → Type}

structure Machine (Ans : Req → Type) where
  Cmd : Type
  Local : Type
  blank : Local
  code : Cmd → Local → Prog Ans Local
  admits : Cmd → Prop
  World : Type
  exec : World → (r : Req) → Ans r → World → Prop
  /-- A command begins only while no other command runs. -/
  serial : Prop

namespace Machine

variable (S : Machine Ans)

/-- What an observer sees of one client. -/
inductive Act where
  /-- A command began on what the client held. -/
  | began (cmd : S.Cmd) (held : S.Local)
  | did (r : Req) (a : Ans r)
  | crashed

inductive Activity where
  | idle (l : S.Local)
  | busy (p : Prog Ans S.Local)

abbrev History := List (Nat × S.Act)

structure State where
  world : S.World
  client : Nat → S.Activity
  history : S.History

def start (w : S.World) : S.State := ⟨w, fun _ => .idle S.blank, []⟩

def AllIdle (s : S.State) : Prop := ∀ i, ∃ l, s.client i = .idle l

inductive Step : S.State → S.State → Prop where
  | begin {s : S.State} {i : Nat} {l : S.Local} {cmd : S.Cmd} (hidle : s.client i = .idle l)
      (hadmits : S.admits cmd) (hserial : S.serial → S.AllIdle s) :
      Step s { s with
        client := Function.update s.client i (.busy (S.code cmd l))
        history := s.history ++ [(i, .began cmd l)] }
  | act {s : S.State} {i : Nat} {r : Req} {k : Ans r → Prog Ans S.Local} {a : Ans r}
      {w : S.World} (hbusy : s.client i = .busy (.call r k)) (hexec : S.exec s.world r a w) :
      Step s { world := w
               client := Function.update s.client i (.busy (k a))
               history := s.history ++ [(i, .did r a)] }
  | finish {s : S.State} {i : Nat} {l : S.Local} (hbusy : s.client i = .busy (.pure l)) :
      Step s { s with client := Function.update s.client i (.idle l) }
  | crash {s : S.State} {i : Nat} :
      Step s { s with
        client := Function.update s.client i (.idle S.blank)
        history := s.history ++ [(i, .crashed)] }

inductive Reachable (w₀ : S.World) : S.State → Prop where
  | start : Reachable w₀ (S.start w₀)
  | step {s t : S.State} (hs : Reachable w₀ s) (ht : S.Step s t) : Reachable w₀ t

/-! ## Serial machines -/

/-- The client of the last command that began. -/
def lastBegan (h : S.History) : Option Nat :=
  h.foldl (fun last e => match e.2 with | .began .. => some e.1 | _ => last) none

/-- The command a client runs, or ran last since it crashed. -/
def running (i : Nat) (h : S.History) : Option S.Cmd :=
  h.foldl (fun last e => if e.1 = i then match e.2 with
    | .began cmd _ => some cmd
    | .did .. => last
    | .crashed => none else last) none

/-- What that command began on. -/
def held (i : Nat) (h : S.History) : Option S.Local :=
  h.foldl (fun last e => if e.1 = i then match e.2 with
    | .began _ l => some l
    | .did .. => last
    | .crashed => none else last) none

variable {S}

@[simp] theorem lastBegan_began {h : S.History} {i : Nat} {cmd : S.Cmd} {l : S.Local} :
    S.lastBegan (h ++ [(i, .began cmd l)]) = some i := by simp [lastBegan]

@[simp] theorem lastBegan_did {h : S.History} {i : Nat} {r : Req} {a : Ans r} :
    S.lastBegan (h ++ [(i, .did r a)]) = S.lastBegan h := by simp [lastBegan]

@[simp] theorem lastBegan_crashed {h : S.History} {i : Nat} :
    S.lastBegan (h ++ [(i, .crashed)]) = S.lastBegan h := by simp [lastBegan]

@[simp] theorem running_began {h : S.History} {i : Nat} {cmd : S.Cmd} {l : S.Local} :
    S.running i (h ++ [(i, .began cmd l)]) = some cmd := by simp [running]

@[simp] theorem running_did {h : S.History} {i j : Nat} {r : Req} {a : Ans r} :
    S.running i (h ++ [(j, .did r a)]) = S.running i h := by simp [running]

@[simp] theorem running_crashed {h : S.History} {i : Nat} :
    S.running i (h ++ [(i, .crashed)]) = none := by simp [running]

theorem running_other {h : S.History} {i j : Nat} {e : S.Act} (hij : i ≠ j) :
    S.running i (h ++ [(j, e)]) = S.running i h := by simp [running, Ne.symm hij]

@[simp] theorem held_began {h : S.History} {i : Nat} {cmd : S.Cmd} {l : S.Local} :
    S.held i (h ++ [(i, .began cmd l)]) = some l := by simp [held]

@[simp] theorem held_did {h : S.History} {i j : Nat} {r : Req} {a : Ans r} :
    S.held i (h ++ [(j, .did r a)]) = S.held i h := by simp [held]

@[simp] theorem held_crashed {h : S.History} {i : Nat} :
    S.held i (h ++ [(i, .crashed)]) = none := by simp [held]

theorem held_other {h : S.History} {i j : Nat} {e : S.Act} (hij : i ≠ j) :
    S.held i (h ++ [(j, e)]) = S.held i h := by simp [held, Ne.symm hij]

/-- A command that runs has begun. -/
theorem began_of_running {h : S.History} {i : Nat} {cmd : S.Cmd} (hrun : S.running i h = some cmd) :
    ∃ l, (i, .began cmd l) ∈ h := by
  induction h using List.reverseRecOn with
  | nil => cases hrun
  | append_singleton h act ih =>
    obtain ⟨j, e⟩ := act
    by_cases hij : i = j
    · subst hij
      cases e with
      | began cmd' l =>
        rw [running_began] at hrun
        cases hrun
        exact ⟨l, List.mem_append_right _ (List.mem_singleton.mpr rfl)⟩
      | did r a =>
        rw [running_did] at hrun
        exact (ih hrun).imp fun _ => List.mem_append_left _
      | crashed =>
        rw [running_crashed] at hrun
        cases hrun
    · rw [running_other hij] at hrun
      exact (ih hrun).imp fun _ => List.mem_append_left _

/-- A busy client runs a command. -/
theorem Reachable.busy_running {w₀ : S.World} {s : S.State} (hs : S.Reachable w₀ s) {i : Nat}
    {p : Prog Ans S.Local} (hbusy : s.client i = .busy p) :
    ∃ cmd, S.running i s.history = some cmd ∧ S.admits cmd := by
  induction hs generalizing i p with
  | start => cases hbusy
  | @step s t hs ht ih =>
    cases ht with
    | @begin j l cmd hidle hadmits _ =>
      by_cases hij : i = j
      · subst hij
        exact ⟨cmd, running_began, hadmits⟩
      · simp only [Function.update_of_ne hij] at hbusy
        simp only [running_other hij]
        exact ih hbusy
    | @act j r k a w hb _ =>
      simp only [running_did]
      by_cases hij : i = j
      · subst hij
        exact ih hb
      · simp only [Function.update_of_ne hij] at hbusy
        exact ih hbusy
    | @finish j l hb =>
      by_cases hij : i = j
      · subst hij
        simp only [Function.update_self] at hbusy
        cases hbusy
      · simp only [Function.update_of_ne hij] at hbusy
        exact ih hbusy
    | @crash j =>
      by_cases hij : i = j
      · subst hij
        simp only [Function.update_self] at hbusy
        cases hbusy
      · simp only [Function.update_of_ne hij] at hbusy
        simp only [running_other hij]
        exact ih hbusy

/-- In a serial machine only the client that began last is busy. -/
theorem Reachable.busy_lastBegan {w₀ : S.World} {s : S.State} (hs : S.Reachable w₀ s)
    (hserial : S.serial) {i : Nat} {p : Prog Ans S.Local} (hbusy : s.client i = .busy p) :
    S.lastBegan s.history = some i := by
  induction hs generalizing i p with
  | start => cases hbusy
  | @step s t hs ht ih =>
    cases ht with
    | @begin j l cmd hidle _ hall =>
      rw [lastBegan_began]
      by_cases hij : i = j
      · rw [hij]
      · simp only [Function.update_of_ne hij] at hbusy
        obtain ⟨l', hl'⟩ := hall hserial i
        rw [hl'] at hbusy
        cases hbusy
    | @act j r k a w hb _ =>
      rw [lastBegan_did]
      by_cases hij : i = j
      · rw [hij]
        exact ih hb
      · simp only [Function.update_of_ne hij] at hbusy
        exact ih hbusy
    | @finish j l hb =>
      by_cases hij : i = j
      · subst hij
        simp only [Function.update_self] at hbusy
        cases hbusy
      · simp only [Function.update_of_ne hij] at hbusy
        exact ih hbusy
    | @crash j =>
      rw [lastBegan_crashed]
      by_cases hij : i = j
      · subst hij
        simp only [Function.update_self] at hbusy
        cases hbusy
      · simp only [Function.update_of_ne hij] at hbusy
        exact ih hbusy

end Machine

/-! ## Watching clients -/

/-- A monitor together with the view a client starts with, what a new command does to the view,
and what the view says about the local value of a client between commands. -/
structure Watch (S : Machine Ans) extends Monitor Ans where
  init : View
  begin : View → S.Cmd → S.Local → View
  Rest : S.Local → View → Prop

namespace Watch

variable {S : Machine Ans} (W : Watch S)

def update (v : W.View) : S.Act → W.View
  | .began cmd l => W.begin v cmd l
  | .did r a => W.observe v r a
  | .crashed => W.init

/-- The view of one client after a history. -/
def view (i : Nat) (h : S.History) : W.View :=
  h.foldl (fun v e => if e.1 = i then W.update v e.2 else v) W.init

@[simp] theorem view_nil {i : Nat} : W.view i [] = W.init := rfl

@[simp] theorem view_self {h : S.History} {i : Nat} {e : S.Act} :
    W.view i (h ++ [(i, e)]) = W.update (W.view i h) e := by simp [view]

theorem view_other {h : S.History} {i j : Nat} {e : S.Act} (hij : i ≠ j) :
    W.view i (h ++ [(j, e)]) = W.view i h := by simp [view, Ne.symm hij]

/-- Every command keeps to the monitor, and leaves a local value that the view describes. -/
structure Sound : Prop where
  blank : W.Rest S.blank W.init
  code : ∀ cmd l v, S.admits cmd → W.Rest l v →
    (S.code cmd l).wp W.toMonitor W.Rest (W.begin v cmd l)

/-- What the view of a client says about its activity. -/
def Follows (v : W.View) : S.Activity → Prop
  | .idle l => W.Rest l v
  | .busy p => p.wp W.toMonitor W.Rest v

end Watch

namespace Machine

variable {S : Machine Ans} {W : Watch S} {w₀ : S.World} {s : S.State}

theorem Reachable.follows (hW : W.Sound) (hs : S.Reachable w₀ s) (i : Nat) :
    W.Follows (W.view i s.history) (s.client i) := by
  induction hs with
  | start => exact hW.blank
  | @step s t hs ht ih =>
    cases ht with
    | @begin j l cmd hidle hadmits _ =>
      by_cases hij : i = j
      · subst hij
        simp only [Watch.view_self, Function.update_self]
        have hrest : W.Rest l (W.view i s.history) := by
          simpa only [Watch.Follows, hidle] using ih
        exact hW.code cmd l _ hadmits hrest
      · simp only [Watch.view_other W hij, Function.update_of_ne hij]
        exact ih
    | @act j r k a w hbusy _ =>
      by_cases hij : i = j
      · subst hij
        simp only [Watch.view_self, Function.update_self]
        have hcall : (Prog.call r k).wp W.toMonitor W.Rest (W.view i s.history) := by
          simpa only [Watch.Follows, hbusy] using ih
        exact hcall.2 a
      · simp only [Watch.view_other W hij, Function.update_of_ne hij]
        exact ih
    | @finish j l hbusy =>
      by_cases hij : i = j
      · subst hij
        simp only [Function.update_self]
        simpa only [Watch.Follows, hbusy, Prog.wp] using ih
      · simp only [Function.update_of_ne hij]
        exact ih
    | @crash j =>
      by_cases hij : i = j
      · subst hij
        simp only [Watch.view_self, Function.update_self]
        exact hW.blank
      · simp only [Watch.view_other W hij, Function.update_of_ne hij]
        exact ih

/-- What is known when a client's request was answered. -/
structure Acts (W : Watch S) (w : S.World) (h : S.History) (i : Nat) (r : Req) (a : Ans r)
    (w' : S.World) : Prop where
  permitted : W.permits (W.view i h) r
  answered : S.exec w r a w'
  commanded : ∃ cmd, S.running i h = some cmd ∧ S.admits cmd
  alone : S.serial → S.lastBegan h = some i

/-- **Induction over runs.** A property of the world and the history holds in every reachable
state if it holds at the start and survives every act of a client. For a request the proof may
use that it was permitted in the client's view and how the world answered it, and everywhere what
is known of all reachable states already. -/
theorem Reachable.induct_with (hW : W.Sound) {I P : S.World → S.History → Prop}
    (hI : ∀ t, S.Reachable w₀ t → I t.world t.history) (hstart : P w₀ [])
    (hbegan : ∀ w h i cmd l, I w h → P w h → S.admits cmd → P w (h ++ [(i, .began cmd l)]))
    (hdid : ∀ w h i r a w', I w h → P w h → Acts W w h i r a w' → P w' (h ++ [(i, .did r a)]))
    (hcrashed : ∀ w h i, I w h → P w h → P w (h ++ [(i, .crashed)]))
    (hs : S.Reachable w₀ s) : P s.world s.history := by
  induction hs with
  | start => exact hstart
  | @step s t hs ht ih =>
    cases ht with
    | @begin i l cmd _ hadmits _ => exact hbegan _ _ i cmd l (hI _ hs) ih hadmits
    | @act i r k a w hbusy hexec =>
      have hcall : (Prog.call r k).wp W.toMonitor W.Rest (W.view i s.history) := by
        simpa only [Watch.Follows, hbusy] using hs.follows hW i
      exact hdid _ _ i r a w (hI _ hs) ih ⟨hcall.1, hexec, hs.busy_running hbusy,
        fun hserial => hs.busy_lastBegan hserial hbusy⟩
    | finish _ => exact ih
    | @crash i => exact hcrashed _ _ i (hI _ hs) ih

theorem Reachable.induct (hW : W.Sound) {P : S.World → S.History → Prop} (hstart : P w₀ [])
    (hbegan : ∀ w h i cmd l, P w h → S.admits cmd → P w (h ++ [(i, .began cmd l)]))
    (hdid : ∀ w h i r a w', P w h → Acts W w h i r a w' → P w' (h ++ [(i, .did r a)]))
    (hcrashed : ∀ w h i, P w h → P w (h ++ [(i, .crashed)]))
    (hs : S.Reachable w₀ s) : P s.world s.history :=
  hs.induct_with (I := fun _ _ => True) hW (fun _ _ => trivial) hstart
    (fun w h i cmd l _ => hbegan w h i cmd l) (fun w h i r a w' _ => hdid w h i r a w')
    (fun w h i _ => hcrashed w h i)

/-! ## Positions in a history -/

/-- The acts of one client that satisfy `A`. -/
def own (i : Nat) (A : S.Act → Bool) (e : Nat × S.Act) : Bool := decide (e.1 = i) && A e.2

theorem own_iff {i : Nat} {A : S.Act → Bool} {e : Nat × S.Act} :
    own i A e = true ↔ e.1 = i ∧ A e.2 = true := by simp [own]

/-- Later the history goes on, and the world is related to what it was by whatever every answer
keeps. -/
theorem later_of_steps {K : S.World → S.World → Prop} (hK : ∀ w, K w w)
    (hexec : ∀ w₁ w r a w', K w₁ w → S.exec w r a w' → K w₁ w') {t : S.State}
    (hst : Relation.ReflTransGen S.Step s t) : s.history <+: t.history ∧ K s.world t.world := by
  induction hst with
  | refl => exact ⟨List.prefix_refl _, hK _⟩
  | tail _ hstep ih =>
    obtain ⟨hgrown, hworld⟩ := ih
    cases hstep with
    | begin => exact ⟨hgrown.trans (List.prefix_append ..), hworld⟩
    | act _ hanswered =>
      exact ⟨hgrown.trans (List.prefix_append ..), hexec _ _ _ _ _ hworld hanswered⟩
    | finish => exact ⟨hgrown, hworld⟩
    | crash => exact ⟨hgrown.trans (List.prefix_append ..), hworld⟩

/-- Every prefix of a history was reached. -/
theorem Reachable.take (hs : S.Reachable w₀ s) (p : Nat) :
    ∃ t, S.Reachable w₀ t ∧ t.history = s.history.take p := by
  have hconcat : ∀ {s t : S.State} {e : Nat × S.Act}, S.Reachable w₀ t →
      t.history = s.history ++ [e] → (∃ t, S.Reachable w₀ t ∧ t.history = s.history.take p) →
      ∃ t', S.Reachable w₀ t' ∧ t'.history = t.history.take p := by
    intro s t e ht heq ⟨t', ht', hold⟩
    rcases Nat.lt_or_ge s.history.length p with hlt | hge
    · refine ⟨t, ht, (List.take_of_length_le ?_).symm⟩
      simp only [heq, List.length_append, List.length_singleton]
      omega
    · exact ⟨t', ht', by rw [hold, heq, List.take_append_of_le_length hge]⟩
  induction hs with
  | start => exact ⟨_, .start, List.take_nil.symm⟩
  | @step s t hs ht ih =>
    have hreach := hs.step ht
    cases ht with
    | begin => exact hconcat hreach rfl ih
    | act => exact hconcat hreach rfl ih
    | finish => exact ih
    | crash => exact hconcat hreach rfl ih

/-- Every answer of a reachable history was given in a reachable state. -/
theorem Reachable.acts (hW : W.Sound) (hs : S.Reachable w₀ s) {p i : Nat} {r : Req} {a : Ans r}
    (hp : s.history[p]? = some (i, .did r a)) :
    ∃ t w', S.Reachable w₀ t ∧ t.history = s.history.take p ∧ Acts W t.world t.history i r a w' := by
  have hold : ∀ {s t : S.State} {e : Nat × S.Act}, t.history = s.history ++ [e] →
      (s.history[p]? = some (i, .did r a) → ∃ u w', S.Reachable w₀ u ∧
        u.history = s.history.take p ∧ Acts W u.world u.history i r a w') →
      (e = (i, .did r a) → ∃ w', S.Reachable w₀ s ∧ Acts W s.world s.history i r a w') →
      t.history[p]? = some (i, .did r a) → ∃ u w', S.Reachable w₀ u ∧
        u.history = t.history.take p ∧ Acts W u.world u.history i r a w' := by
    intro s t e heq ih hlast hp
    rw [heq] at hp ⊢
    rcases Position.getElem?_concat.mp hp with hp | ⟨rfl, he⟩
    · have hlt := (List.getElem?_eq_some_iff.mp hp).1
      rw [List.take_append_of_le_length (Nat.le_of_lt hlt)]
      exact ih hp
    · rw [List.take_left]
      obtain ⟨w', hs, hacts⟩ := hlast he
      exact ⟨s, w', hs, rfl, hacts⟩
  induction hs with
  | start => cases hp
  | @step s t hs ht ih =>
    cases ht with
    | begin => exact hold rfl ih (fun he => by cases he) hp
    | @act j r' k a' w hbusy hexec =>
      refine hold rfl ih (fun he => ?_) hp
      cases he
      have hcall : (Prog.call r k).wp W.toMonitor W.Rest (W.view i s.history) := by
        simpa only [Watch.Follows, hbusy] using hs.follows hW i
      exact ⟨w, hs, hcall.1, hexec, hs.busy_running hbusy,
        fun hserial => hs.busy_lastBegan hserial hbusy⟩
    | finish => exact ih hp
    | crash => exact hold rfl ih (fun he => by cases he) hp

/-- Every request of a reachable history was permitted when it was made, and made for a command. -/
theorem Reachable.permitted (hW : W.Sound) (hs : S.Reachable w₀ s) {p i : Nat} {r : Req}
    {a : Ans r} (hp : s.history[p]? = some (i, .did r a)) :
    W.permits (W.view i (s.history.take p)) r ∧
      ∃ cmd, S.running i (s.history.take p) = some cmd ∧ S.admits cmd := by
  obtain ⟨t, w', -, heq, hacts⟩ := hs.acts hW hp
  rw [← heq]
  exact ⟨hacts.permitted, hacts.commanded⟩

section

variable {h : S.History} {i : Nat} {B : S.Act → Bool}

/-- What a view remembers was put there by an act, and nothing since has removed it. -/
theorem Watch.since {X : Type} (get : W.View → Option X) {A : X → S.Act → Bool}
    (hinit : get W.init = none)
    (hstep : ∀ v e x, get (W.update v e) = some x →
      A x e = true ∨ get v = some x ∧ B e = false) {x : X}
    (hx : get (W.view i h) = some x) : Position.Since h (own i (A x)) (own i B) := by
  induction h using List.reverseRecOn with
  | nil =>
    rw [Watch.view_nil, hinit] at hx
    cases hx
  | append_singleton h act ih =>
    obtain ⟨j, e⟩ := act
    by_cases hij : i = j
    · subst hij
      rw [Watch.view_self] at hx
      rcases hstep _ _ _ hx with hA | ⟨hold, hB⟩
      · exact Position.since_concat (own_iff.mpr ⟨rfl, hA⟩)
      · exact (ih hold).concat (by simp [own, hB])
    · rw [Watch.view_other W hij] at hx
      exact (ih hx).concat (by simp [own, Ne.symm hij])

/-- What an act puts into a view stays there until it is removed. -/
theorem Watch.of_since {A : S.Act → Bool} {P : W.View → Prop}
    (hset : ∀ v e, A e = true → P (W.update v e))
    (hkeep : ∀ v e, P v → B e = false → P (W.update v e))
    (hsince : Position.Since h (own i A) (own i B)) : P (W.view i h) := by
  induction h using List.reverseRecOn with
  | nil =>
    obtain ⟨q, hq, -⟩ := hsince
    exact absurd hq.lt (Nat.not_lt_zero q)
  | append_singleton h act ih =>
    obtain ⟨j, e⟩ := act
    obtain ⟨q, hq, hafter⟩ := hsince
    rcases Position.at_concat.mp hq with hold | ⟨rfl, hlast⟩
    · have hbefore : P (W.view i h) := ih ⟨q, hold, fun m hm hB => hafter m hm (hB.concat _)⟩
      by_cases hij : i = j
      · subst hij
        rw [Watch.view_self]
        refine hkeep _ _ hbefore (Bool.eq_false_iff.mpr fun hB => ?_)
        refine hafter h.length hold.lt (Position.at_concat.mpr (.inr ⟨rfl, ?_⟩))
        exact own_iff.mpr ⟨rfl, hB⟩
      · rw [Watch.view_other W hij]
        exact hbefore
    · obtain ⟨rfl, hA⟩ := own_iff.mp hlast
      rw [Watch.view_self]
      exact hset _ _ hA

/-- A flag that is up was raised by an act, and nothing since has lowered it. -/
theorem Watch.raised (flag : W.View → Prop) {A : W.View → S.Act → Prop} {B : S.Act → Prop}
    (hinit : ¬ flag W.init) (hstep : ∀ v e, flag (W.update v e) → A v e ∨ flag v ∧ ¬ B e)
    (hflag : flag (W.view i h)) :
    ∃ q e, h[q]? = some (i, e) ∧ A (W.view i (h.take q)) e ∧
      ∀ m e', q < m → h[m]? = some (i, e') → ¬ B e' := by
  induction h using List.reverseRecOn with
  | nil => exact absurd hflag hinit
  | append_singleton h act ih =>
    obtain ⟨j, e⟩ := act
    have hold : flag (W.view i h) → (j = i → ¬ B e) →
        ∃ q e', (h ++ [(j, e)])[q]? = some (i, e') ∧ A (W.view i ((h ++ [(j, e)]).take q)) e' ∧
          ∀ m e', q < m → (h ++ [(j, e)])[m]? = some (i, e') → ¬ B e' := by
      intro hbefore hlast
      obtain ⟨q, e', hq, hA, hafter⟩ := ih hbefore
      have hlt := (List.getElem?_eq_some_iff.mp hq).1
      refine ⟨q, e', Position.getElem?_concat.mpr (.inl hq), ?_, fun m e'' hm hat => ?_⟩
      · rwa [List.take_append_of_le_length (Nat.le_of_lt hlt)]
      · rcases Position.getElem?_concat.mp hat with hat | ⟨-, heq⟩
        · exact hafter m e'' hm hat
        · cases heq
          exact hlast rfl
    by_cases hij : i = j
    · subst hij
      rw [Watch.view_self] at hflag
      rcases hstep _ _ hflag with hA | ⟨hbefore, hB⟩
      · refine ⟨h.length, e, by simp, by rwa [List.take_left], fun m e' hm hat => ?_⟩
        rw [List.getElem?_eq_none (by simp; omega)] at hat
        cases hat
      · exact hold hbefore fun _ => hB
    · rw [Watch.view_other W hij] at hflag
      exact hold hflag fun hji => absurd hji.symm hij

/-- What a view has at a position it had before, if no act in between has put it there. -/
theorem Watch.of_later {P : W.View → Prop} {q p : Nat} (hqp : q ≤ p) (hp : p ≤ h.length)
    (hback : ∀ m e, q ≤ m → h[m]? = some (i, e) → P (W.update (W.view i (h.take m)) e) →
      P (W.view i (h.take m))) (hP : P (W.view i (h.take p))) : P (W.view i (h.take q)) := by
  induction p, hqp using Nat.le_induction with
  | base => exact hP
  | succ p hqp ih =>
    obtain ⟨⟨j, e⟩, hat⟩ : ∃ act, h[p]? = some act := ⟨_, List.getElem?_eq_getElem hp⟩
    refine ih (Nat.le_of_lt hp) ?_
    rw [List.take_add_one, hat, Option.toList_some] at hP
    by_cases hij : i = j
    · subst hij
      rw [Watch.view_self] at hP
      exact hback p e hqp hat hP
    · rwa [Watch.view_other W hij] at hP

end

/-! ## Running a scenario -/

/-- One client runs one command from beginning to end. -/
def State.perform (answer : S.World → (r : Req) → Ans r × S.World) (s : S.State) (i : Nat)
    (cmd : S.Cmd) : S.State :=
  match s.client i with
  | .busy _ => s
  | .idle l =>
    let out := (S.code cmd l).drive answer s.world
    { world := out.2.1
      client := Function.update s.client i (.idle out.2.2)
      history := s.history ++ (i, .began cmd l) :: out.1.map fun e => (i, .did e.1 e.2) }

/-- Run commands one after another. -/
def State.script (answer : S.World → (r : Req) → Ans r × S.World) (s : S.State)
    (cmds : List (Nat × S.Cmd)) : S.State :=
  cmds.foldl (fun s cmd => s.perform answer cmd.1 cmd.2) s

/-- Every request of the command passes the check. -/
def State.performPasses (answer : S.World → (r : Req) → Ans r × S.World)
    (check : S.World → Req → Bool) (s : S.State) (i : Nat) (cmd : S.Cmd) : Bool :=
  match s.client i with
  | .busy _ => false
  | .idle l => (S.code cmd l).passes answer check s.world

def State.scriptPasses (answer : S.World → (r : Req) → Ans r × S.World)
    (check : S.World → Req → Bool) : S.State → List (Nat × S.Cmd) → Bool
  | _, [] => true
  | s, cmd :: cmds => s.performPasses answer check cmd.1 cmd.2 &&
      scriptPasses answer check (s.perform answer cmd.1 cmd.2) cmds

section

variable {answer : S.World → (r : Req) → Ans r × S.World} (check : S.World → Req → Bool)

theorem scriptPasses_append {cmds more : List (Nat × S.Cmd)} :
    s.scriptPasses answer check (cmds ++ more) = (s.scriptPasses answer check cmds &&
      (s.script answer cmds).scriptPasses answer check more) := by
  induction cmds generalizing s with
  | nil => rfl
  | cons cmd cmds ih =>
    simp only [List.cons_append, State.scriptPasses, ih, Bool.and_assoc]
    rfl

theorem steps_drive
    (hanswer : ∀ w r, check w r = true → S.exec w r (answer w r).1 (answer w r).2) {i : Nat}
    (p : Prog Ans S.Local) {s : S.State} (hbusy : s.client i = .busy p)
    (hpasses : p.passes answer check s.world = true) :
    Relation.ReflTransGen S.Step s
      { world := (p.drive answer s.world).2.1
        client := Function.update s.client i (.idle (p.drive answer s.world).2.2)
        history := s.history ++ (p.drive answer s.world).1.map fun e => (i, .did e.1 e.2) } := by
  induction p generalizing s with
  | pure l =>
    have := Relation.ReflTransGen.single (Step.finish hbusy)
    simpa [Prog.drive] using this
  | call r k ih =>
    obtain ⟨hcheck, hrest⟩ := Bool.and_eq_true_iff.mp hpasses
    have hact := Step.act hbusy (hanswer s.world r hcheck)
    have := (ih (answer s.world r).1 (Function.update_self ..) hrest).head hact
    simpa [Prog.drive] using this

theorem steps_perform
    (hanswer : ∀ w r, check w r = true → S.exec w r (answer w r).1 (answer w r).2)
    (hidle : S.AllIdle s) {i : Nat} {cmd : S.Cmd} (hadmits : S.admits cmd)
    (hpasses : s.performPasses answer check i cmd = true) :
    Relation.ReflTransGen S.Step s (s.perform answer i cmd) ∧ S.AllIdle (s.perform answer i cmd) := by
  obtain ⟨l, hl⟩ := hidle i
  have hbegin : S.Step s { s with
      client := Function.update s.client i (.busy (S.code cmd l))
      history := s.history ++ [(i, .began cmd l)] } := .begin hl hadmits fun _ => hidle
  have hcode : (S.code cmd l).passes answer check s.world = true := by
    simpa only [State.performPasses, hl] using hpasses
  have hdrive := steps_drive check hanswer (S.code cmd l) (s := { s with
    client := Function.update s.client i (.busy (S.code cmd l))
    history := s.history ++ [(i, .began cmd l)] }) (Function.update_self ..) hcode
  have hend := hdrive.head hbegin
  have heq : s.perform answer i cmd =
      { world := ((S.code cmd l).drive answer s.world).2.1
        client := Function.update s.client i
          (.idle ((S.code cmd l).drive answer s.world).2.2)
        history := s.history ++ (i, .began cmd l) ::
          ((S.code cmd l).drive answer s.world).1.map fun e => (i, .did e.1 e.2) } := by
    simp only [State.perform, hl]
  refine ⟨?_, fun j => ?_⟩
  · rw [heq]
    simpa using hend
  · rw [heq]
    by_cases hij : j = i
    · subst hij
      exact ⟨_, Function.update_self ..⟩
    · obtain ⟨l', hl'⟩ := hidle j
      exact ⟨l', by simp only [Function.update_of_ne hij, hl']⟩

/-- A script whose requests all pass a check that makes the answers possible. -/
theorem steps_script
    (hanswer : ∀ w r, check w r = true → S.exec w r (answer w r).1 (answer w r).2)
    (hidle : S.AllIdle s) {cmds : List (Nat × S.Cmd)} (hadmits : ∀ cmd ∈ cmds, S.admits cmd.2)
    (hpasses : s.scriptPasses answer check cmds = true) :
    Relation.ReflTransGen S.Step s (s.script answer cmds) ∧ S.AllIdle (s.script answer cmds) := by
  induction cmds generalizing s with
  | nil => exact ⟨.refl, hidle⟩
  | cons cmd cmds ih =>
    obtain ⟨hfirst, hrest⟩ := Bool.and_eq_true_iff.mp hpasses
    obtain ⟨hnext, hidle'⟩ := steps_perform check hanswer hidle (hadmits cmd (List.mem_cons_self ..)) hfirst
    obtain ⟨hlast, hidle''⟩ := ih hidle' (fun c hc => hadmits c (List.mem_cons_of_mem _ hc)) hrest
    exact ⟨hnext.trans hlast, hidle''⟩

end

/-- What is reached from a reachable state is reachable. -/
theorem Reachable.trans {t : S.State} (hs : S.Reachable w₀ s)
    (hst : Relation.ReflTransGen S.Step s t) : S.Reachable w₀ t := by
  induction hst with
  | refl => exact hs
  | tail _ hstep ih => exact ih.step hstep

theorem allIdle_start : S.AllIdle (S.start w₀) := fun _ => ⟨S.blank, rfl⟩

end Machine
end Program
