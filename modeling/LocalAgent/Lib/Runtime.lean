import LocalAgent.Lib.Dialogue
import Mathlib.Logic.Function.Basic

/-!
# An asynchronous service

Calls arrive at any time; each is a program, and a step of the service is one request of one of
them, so that they interleave at every request. A request may spawn a job, which runs beside its
call and outlives it. A call whose client is gone is dropped at one of the requests it waits for, a
job may fail at any of its requests, and the whole service may be restarted between any two steps:
then all processes are gone and the world is what a restart leaves of it. Other parties may change
the world as well.

A `Discipline` is a monitor that keeps a view for every process. If every program keeps to it, then
an invariant of the state and the views need only be shown for steps that the monitor permits
(`Reachable.keeps`).
-/
namespace Program

variable {Req : Type} {Ans : Req → Type}

structure Runtime (Ans : Req → Type) where
  Call : Type
  Job : Type
  Outcome : Type
  code : Call → Prog Ans Outcome
  body : Job → Prog Ans Outcome
  /-- A call can be dropped while it waits for this request. -/
  awaits : Req → Bool
  spawns : Req → Option Job
  World : Type
  /-- `owner` is the call that acts, or whose job acts; `idle` says that no job runs. -/
  exec : World → (owner : Nat) → (idle : Prop) → (r : Req) → Ans r → World → Prop
  interferes : World → World → Prop
  restart : World → World

namespace Runtime

variable (S : Runtime Ans)

inductive Kind where
  | call (c : S.Call)
  | job (parent : Nat) (j : S.Job)

structure Proc where
  kind : S.Kind
  prog : Prog Ans S.Outcome

inductive Event where
  | called (pid : Nat) (c : S.Call)
  | did (pid : Nat) (r : Req) (a : Ans r)
  | returned (pid : Nat) (o : S.Outcome)
  | dropped (pid : Nat)
  | interfered
  | restarted

structure State where
  world : S.World
  procs : Nat → Option S.Proc
  /-- The first number that no process had yet. -/
  next : Nat
  history : List S.Event

def start (w : S.World) : S.State := ⟨w, fun _ => none, 0, []⟩

variable {S}

/-- The call for which a process acts. -/
def Kind.owner (pid : Nat) : S.Kind → Nat
  | .call _ => pid
  | .job parent _ => parent

def Kind.isCall : S.Kind → Bool
  | .call _ => true
  | .job .. => false

/-- No job runs. -/
def State.Idle (s : S.State) : Prop := ∀ pid proc, s.procs pid = some proc → proc.kind.isCall = true

variable (S)

inductive Step : S.State → S.Event → S.State → Prop where
  | call {s : S.State} (c : S.Call) :
      Step s (.called s.next c) { s with
        procs := Function.update s.procs s.next (some ⟨.call c, S.code c⟩)
        next := s.next + 1
        history := s.history ++ [.called s.next c] }
  | act {s : S.State} {pid : Nat} {kind : S.Kind} {r : Req} {k : Ans r → Prog Ans S.Outcome} {a : Ans r}
      {w : S.World} (hproc : s.procs pid = some ⟨kind, .call r k⟩) (hjob : S.spawns r = none)
      (hexec : S.exec s.world (kind.owner pid) s.Idle r a w) :
      Step s (.did pid r a) { s with
        world := w
        procs := Function.update s.procs pid (some ⟨kind, k a⟩)
        history := s.history ++ [.did pid r a] }
  | spawn {s : S.State} {pid : Nat} {kind : S.Kind} {r : Req} {k : Ans r → Prog Ans S.Outcome}
      {a : Ans r} {w : S.World} {j : S.Job} (hproc : s.procs pid = some ⟨kind, .call r k⟩)
      (hjob : S.spawns r = some j) (hexec : S.exec s.world (kind.owner pid) s.Idle r a w) :
      Step s (.did pid r a) { s with
        world := w
        procs := Function.update (Function.update s.procs pid (some ⟨kind, k a⟩)) s.next
          (some ⟨.job (kind.owner pid) j, S.body j⟩)
        next := s.next + 1
        history := s.history ++ [.did pid r a] }
  | return {s : S.State} {pid : Nat} {kind : S.Kind} {o : S.Outcome}
      (hproc : s.procs pid = some ⟨kind, .pure o⟩) :
      Step s (.returned pid o) { s with
        procs := Function.update s.procs pid none
        history := s.history ++ [.returned pid o] }
  | drop {s : S.State} {pid : Nat} {kind : S.Kind} {r : Req} {k : Ans r → Prog Ans S.Outcome}
      (hproc : s.procs pid = some ⟨kind, .call r k⟩) (hawaits : kind.isCall = true → S.awaits r = true) :
      Step s (.dropped pid) { s with
        procs := Function.update s.procs pid none
        history := s.history ++ [.dropped pid] }
  | interfere {s : S.State} {w : S.World} (hworld : S.interferes s.world w) :
      Step s .interfered { s with world := w, history := s.history ++ [.interfered] }
  | restart {s : S.State} :
      Step s .restarted { s with
        world := S.restart s.world
        procs := fun _ => none
        history := s.history ++ [.restarted] }

/-- The states of the runs whose steps all satisfy `ok`. -/
inductive Reachable (ok : S.State → S.Event → Prop) (w₀ : S.World) : S.State → Prop where
  | start : Reachable ok w₀ (S.start w₀)
  | step {s t : S.State} {e : S.Event} (hs : Reachable ok w₀ s) (ht : S.Step s e t) (hok : ok s e) :
      Reachable ok w₀ t

/-- A run leads from one state to the other. -/
inductive Goes (s : S.State) : S.State → Prop where
  | refl : Goes s s
  | step {t u : S.State} {e : S.Event} (ht : Goes s t) (hu : S.Step t e u) : Goes s u

variable {S}

theorem Step.history {s t : S.State} {e : S.Event} (h : S.Step s e t) :
    t.history = s.history ++ [e] := by
  cases h <;> rfl

theorem Reachable.mono {ok ok' : S.State → S.Event → Prop} {w₀ : S.World} {s : S.State}
    (h : S.Reachable ok w₀ s) (hok : ∀ s e, ok s e → ok' s e) : S.Reachable ok' w₀ s := by
  induction h with
  | start => exact .start
  | step _ ht he ih => exact ih.step ht (hok _ _ he)

/-- The calls that have come in, each under a number of its own. -/
structure Numbered (s : S.State) : Prop where
  mem : ∀ pid c prog, s.procs pid = some ⟨.call c, prog⟩ → .called pid c ∈ s.history
  lt : ∀ pid c, .called pid c ∈ s.history → pid < s.next
  once : ∀ pid c c', .called pid c ∈ s.history → .called pid c' ∈ s.history → c = c'

theorem Numbered.step {s t : S.State} {e : S.Event} (h : Numbered s) (ht : S.Step s e t) :
    Numbered t := by
  -- only a step that is no call leaves the numbers alone
  have hsame : ∀ {t : S.State} {e : S.Event}, t.history = s.history ++ [e] → s.next ≤ t.next →
      (∀ pid c, e ≠ .called pid c) → (∀ pid c prog, t.procs pid = some ⟨.call c, prog⟩ →
        ∃ prog', s.procs pid = some ⟨.call c, prog'⟩) → Numbered t := by
    intro t e hhistory hnext he hprocs
    have hold : ∀ {pid c}, .called pid c ∈ t.history → .called pid c ∈ s.history := by
      intro pid c hmem
      rw [hhistory] at hmem
      rcases List.mem_append.mp hmem with hmem | hmem
      · exact hmem
      · exact absurd (List.mem_singleton.mp hmem).symm (he pid c)
    refine ⟨fun pid c prog hproc => ?_, fun pid c hc => ?_, fun pid c c' hc hc' => ?_⟩
    · obtain ⟨prog', hproc'⟩ := hprocs pid c prog hproc
      rw [hhistory]
      exact List.mem_append_left _ (h.mem pid c prog' hproc')
    · exact Nat.lt_of_lt_of_le (h.lt pid c (hold hc)) hnext
    · exact h.once pid c c' (hold hc) (hold hc')
  cases ht with
  | call c =>
    refine ⟨fun pid c' prog hproc => ?_, fun pid c' hc => ?_, fun pid c₁ c₂ h₁ h₂ => ?_⟩
    · by_cases hpid : pid = s.next
      · subst hpid
        simp only [Function.update_self, Option.some.injEq, Proc.mk.injEq, Kind.call.injEq] at hproc
        rw [← hproc.1]
        exact List.mem_append_right _ List.mem_cons_self
      · simp only [Function.update_of_ne hpid] at hproc
        exact List.mem_append_left _ (h.mem pid c' prog hproc)
    · rcases List.mem_append.mp hc with hc | hc
      · exact Nat.lt_succ_of_lt (h.lt pid c' hc)
      · cases List.mem_singleton.mp hc
        exact Nat.lt_succ_self _
    · rcases List.mem_append.mp h₁ with h₁ | h₁ <;> rcases List.mem_append.mp h₂ with h₂ | h₂
      · exact h.once pid c₁ c₂ h₁ h₂
      · cases List.mem_singleton.mp h₂
        exact absurd (h.lt _ _ h₁) (Nat.lt_irrefl _)
      · cases List.mem_singleton.mp h₁
        exact absurd (h.lt _ _ h₂) (Nat.lt_irrefl _)
      · cases List.mem_singleton.mp h₁
        cases List.mem_singleton.mp h₂
        rfl
  | @act pid kind r k a w hproc hjob hexec =>
    refine hsame rfl (Nat.le_refl _) nofun fun other c prog hother => ?_
    by_cases hpid : other = pid
    · subst hpid
      simp only [Function.update_self, Option.some.injEq, Proc.mk.injEq] at hother
      exact ⟨_, by rw [hproc, hother.1]⟩
    · simp only [Function.update_of_ne hpid] at hother
      exact ⟨prog, hother⟩
  | @spawn pid kind r k a w j hproc hjob hexec =>
    refine hsame rfl (Nat.le_succ _) nofun fun other c prog hother => ?_
    by_cases hnext : other = s.next
    · subst hnext
      simp at hother
    · simp only [Function.update_of_ne hnext] at hother
      by_cases hpid : other = pid
      · subst hpid
        simp only [Function.update_self, Option.some.injEq, Proc.mk.injEq] at hother
        exact ⟨_, by rw [hproc, hother.1]⟩
      · simp only [Function.update_of_ne hpid] at hother
        exact ⟨prog, hother⟩
  | @«return» pid kind o hproc =>
    refine hsame rfl (Nat.le_refl _) nofun fun other c prog hother => ?_
    by_cases hpid : other = pid
    · subst hpid
      simp at hother
    · simp only [Function.update_of_ne hpid] at hother
      exact ⟨prog, hother⟩
  | @drop pid kind r k hproc _ =>
    refine hsame rfl (Nat.le_refl _) nofun fun other c prog hother => ?_
    by_cases hpid : other = pid
    · subst hpid
      simp at hother
    · simp only [Function.update_of_ne hpid] at hother
      exact ⟨prog, hother⟩
  | interfere hworld => exact hsame rfl (Nat.le_refl _) nofun fun _ _ prog hproc => ⟨prog, hproc⟩
  | restart => exact hsame rfl (Nat.le_refl _) nofun nofun

theorem Reachable.numbered {ok : S.State → S.Event → Prop} {w₀ : S.World} {s : S.State}
    (h : S.Reachable ok w₀ s) : Numbered s := by
  induction h with
  | start => exact ⟨nofun, nofun, nofun⟩
  | step _ ht _ ih => exact ih.step ht

/-- The numbers from `next` on are free. -/
theorem Reachable.fresh {ok : S.State → S.Event → Prop} {w₀ : S.World} {s : S.State}
    (h : S.Reachable ok w₀ s) : ∀ pid, s.next ≤ pid → s.procs pid = none := by
  induction h with
  | start => exact fun _ _ => rfl
  | @step s t e _ ht _ ih =>
    -- a process that moves has a number already
    have hmoved : ∀ {pid proc}, s.procs pid = some proc → ∀ q other, s.next ≤ other →
        Function.update s.procs pid q other = none := by
      intro pid proc hproc q other hother
      by_cases hpid : other = pid
      · rw [← hpid, ih other hother] at hproc
        cases hproc
      · rw [Function.update_of_ne hpid, ih other hother]
    cases ht with
    | call c =>
      intro pid hpid
      have hlt : s.next < pid := hpid
      simp only [Function.update_of_ne (Nat.ne_of_gt hlt), ih pid (Nat.le_of_lt hlt)]
    | act hproc _ _ => exact hmoved hproc _
    | spawn hproc _ _ =>
      intro pid hpid
      have hlt : s.next < pid := hpid
      simp only [Function.update_of_ne (Nat.ne_of_gt hlt)]
      exact hmoved hproc _ pid (Nat.le_of_lt hlt)
    | «return» hproc => exact hmoved hproc _
    | drop hproc _ => exact hmoved hproc _
    | interfere _ => exact ih
    | restart => exact fun _ _ => rfl

/-! ### Building a run -/

section Run

variable {ok : S.State → S.Event → Prop} {w₀ : S.World} {s : S.State}

theorem Reachable.called (h : S.Reachable ok w₀ s) (c : S.Call) (hok : ok s (.called s.next c)) :
    S.Reachable ok w₀ { s with
      procs := Function.update s.procs s.next (some ⟨.call c, S.code c⟩)
      next := s.next + 1
      history := s.history ++ [.called s.next c] } := h.step (.call c) hok

theorem Reachable.did (h : S.Reachable ok w₀ s) (pid : Nat) {kind : S.Kind} {r : Req}
    {k : Ans r → Prog Ans S.Outcome} (a : Ans r) {w : S.World}
    (hproc : s.procs pid = some ⟨kind, .call r k⟩) (hjob : S.spawns r = none)
    (hexec : S.exec s.world (kind.owner pid) s.Idle r a w) (hok : ok s (.did pid r a)) :
    S.Reachable ok w₀ { s with
      world := w
      procs := Function.update s.procs pid (some ⟨kind, k a⟩)
      history := s.history ++ [.did pid r a] } := h.step (.act hproc hjob hexec) hok

theorem Reachable.returned (h : S.Reachable ok w₀ s) (pid : Nat) {kind : S.Kind} {o : S.Outcome}
    (hproc : s.procs pid = some ⟨kind, .pure o⟩) (hok : ok s (.returned pid o)) :
    S.Reachable ok w₀ { s with
      procs := Function.update s.procs pid none
      history := s.history ++ [.returned pid o] } := h.step (.return hproc) hok

/-- A process goes on alone for a while. -/
theorem Reachable.runs (h : S.Reachable ok w₀ s) (pid : Nat) {kind : S.Kind} {p q : Prog Ans S.Outcome}
    {d : Dialogue Ans} {w : S.World} (hafter : p.After d q) (hproc : s.procs pid = some ⟨kind, p⟩)
    (hd : Follows (fun w r a w' => S.spawns r = none ∧ ∀ idle, S.exec w (kind.owner pid) idle r a w')
      s.world d w) (hok : ∀ t e, e ∈ d → ok t (.did pid e.1 e.2)) :
    S.Reachable ok w₀ { s with
      world := w
      procs := Function.update s.procs pid (some ⟨kind, q⟩)
      history := s.history ++ d.map fun e => .did pid e.1 e.2 } := by
  induction hafter generalizing s with
  | nil p =>
    cases hd
    rw [List.map_nil, List.append_nil, ← hproc, Function.update_eq_self]
    exact h
  | cons a rest ih =>
    cases hd with
    | cons step hrest =>
      have hnext := ih (h.did pid a hproc step.1 (step.2 _) (hok _ ⟨_, a⟩ List.mem_cons_self))
        (by simp) hrest fun t e he => hok t e (List.mem_cons_of_mem _ he)
      simpa using hnext

end Run

/-! ### Playing a scenario -/

/-- What a scenario lets happen. -/
inductive Move (S : Runtime Ans) where
  | call (c : S.Call)
  /-- The process makes its next request. -/
  | act (pid : Nat)
  | return (pid : Nat)

/-- How the requests of a scenario are answered, and which of them may be made. -/
structure Player (S : Runtime Ans) where
  answer : S.World → (owner : Nat) → (r : Req) → Ans r × S.World
  accepts : S.World → (idle : Bool) → Req → Bool
  sound : ∀ {w owner b idle r}, accepts w b r = true → (b = true → idle) →
    S.exec w owner idle r (answer w owner r).1 (answer w owner r).2

namespace State

variable (P : Player S) (s : S.State)

/-- No job runs, as far as the numbers were given. -/
def idle : Bool := (List.range s.next).all fun pid => (s.procs pid).all fun proc => proc.kind.isCall

def act (pid : Nat) : S.State :=
  match s.procs pid with
  | some ⟨kind, .call r k⟩ =>
    let out := P.answer s.world (kind.owner pid) r
    let procs := Function.update s.procs pid (some ⟨kind, k out.1⟩)
    match S.spawns r with
    | none => ⟨out.2, procs, s.next, s.history ++ [.did pid r out.1]⟩
    | some j => ⟨out.2, Function.update procs s.next (some ⟨.job (kind.owner pid) j, S.body j⟩), s.next + 1,
        s.history ++ [.did pid r out.1]⟩
  | _ => s

def play : Move S → S.State
  | .call c => ⟨s.world, Function.update s.procs s.next (some ⟨.call c, S.code c⟩), s.next + 1,
      s.history ++ [.called s.next c]⟩
  | .act pid => s.act P pid
  | .return pid =>
    match s.procs pid with
    | some ⟨_, .pure o⟩ => ⟨s.world, Function.update s.procs pid none, s.next, s.history ++ [.returned pid o]⟩
    | _ => s

/-- The move can be made. -/
def allows : Move S → Bool
  | .call _ => true
  | .act pid =>
    match s.procs pid with
    | some ⟨_, .call r _⟩ => P.accepts s.world s.idle r
    | _ => false
  | .return pid =>
    match s.procs pid with
    | some ⟨_, .pure _⟩ => true
    | _ => false

def script : S.State → List (Move S) → S.State
  | s, [] => s
  | s, m :: ms => script (s.play P m) ms

def allowsAll : S.State → List (Move S) → Bool
  | _, [] => true
  | s, m :: ms => s.allows P m && allowsAll (s.play P m) ms

end State

section Play

variable {ok : S.State → S.Event → Prop} {w₀ : S.World} {s : S.State} {P : Player S}

theorem Reachable.idle (h : S.Reachable ok w₀ s) (hidle : s.idle = true) : s.Idle := by
  intro pid proc hproc
  by_cases hlt : pid < s.next
  · have hat := List.all_eq_true.mp hidle pid (List.mem_range.mpr hlt)
    rwa [hproc] at hat
  · rw [h.fresh pid (by omega)] at hproc
    cases hproc

theorem Reachable.play (h : S.Reachable ok w₀ s) (hok : ∀ s e, ok s e) {m : Move S}
    (hallows : s.allows P m = true) : S.Reachable ok w₀ (s.play P m) := by
  cases m with
  | call c => exact h.called c (hok _ _)
  | act pid =>
    cases hproc : s.procs pid with
    | none => simp [State.allows, hproc] at hallows
    | some proc =>
      obtain ⟨kind, p⟩ := proc
      cases p with
      | pure o => simp [State.allows, hproc] at hallows
      | call r k =>
        simp only [State.allows, hproc] at hallows
        have hexec : S.exec s.world (kind.owner pid) s.Idle r (P.answer s.world (kind.owner pid) r).1
          (P.answer s.world (kind.owner pid) r).2 := P.sound hallows h.idle
        simp only [State.play, State.act, hproc]
        cases hjob : S.spawns r with
        | none => exact h.step (.act hproc hjob hexec) (hok _ _)
        | some j => exact h.step (.spawn hproc hjob hexec) (hok _ _)
  | «return» pid =>
    cases hproc : s.procs pid with
    | none => simp [State.allows, hproc] at hallows
    | some proc =>
      obtain ⟨kind, p⟩ := proc
      cases p with
      | call r k => simp [State.allows, hproc] at hallows
      | pure o =>
        simp only [State.play, hproc]
        exact h.step (.return hproc) (hok _ _)

/-- What a scenario leads to is reachable. -/
theorem Reachable.script (h : S.Reachable ok w₀ s) (hok : ∀ s e, ok s e) {ms : List (Move S)}
    (hallows : s.allowsAll P ms = true) : S.Reachable ok w₀ (s.script P ms) := by
  induction ms generalizing s with
  | nil => exact h
  | cons m ms ih =>
    obtain ⟨hmove, hrest⟩ := Bool.and_eq_true_iff.mp hallows
    exact ih (h.play hok hmove) hrest

end Play

/-! ## Disciplines -/

/-- A monitor, the views that calls and jobs begin with, and the views they may end with. -/
structure Discipline (S : Runtime Ans) extends Monitor Ans where
  fresh : S.Call → View
  heir : View → S.Job → View
  Returns : S.Outcome → View → Prop

namespace Discipline

variable (D : Discipline S)

/-- Every program keeps to the discipline. -/
structure Sound : Prop where
  code : ∀ c, (S.code c).wp D.toMonitor D.Returns (D.fresh c)
  body : ∀ v r j, S.spawns r = some j → D.permits v r → (S.body j).wp D.toMonitor D.Returns (D.heir v j)

/-- A step together with the views it changes; the monitor has permitted it. -/
inductive Moves (s : S.State) (views : Nat → D.View) : S.Event → S.State → (Nat → D.View) → Prop where
  | call (c : S.Call) :
      Moves s views (.called s.next c) { s with
        procs := Function.update s.procs s.next (some ⟨.call c, S.code c⟩)
        next := s.next + 1
        history := s.history ++ [.called s.next c] } (Function.update views s.next (D.fresh c))
  | act {pid : Nat} {kind : S.Kind} {r : Req} {k : Ans r → Prog Ans S.Outcome} {a : Ans r} {w : S.World}
      (hproc : s.procs pid = some ⟨kind, .call r k⟩) (hjob : S.spawns r = none)
      (hexec : S.exec s.world (kind.owner pid) s.Idle r a w) (hpermits : D.permits (views pid) r) :
      Moves s views (.did pid r a) { s with
        world := w
        procs := Function.update s.procs pid (some ⟨kind, k a⟩)
        history := s.history ++ [.did pid r a] }
        (Function.update views pid (D.observe (views pid) r a))
  | spawn {pid : Nat} {kind : S.Kind} {r : Req} {k : Ans r → Prog Ans S.Outcome} {a : Ans r}
      {w : S.World} {j : S.Job} (hproc : s.procs pid = some ⟨kind, .call r k⟩)
      (hjob : S.spawns r = some j) (hexec : S.exec s.world (kind.owner pid) s.Idle r a w)
      (hpermits : D.permits (views pid) r) :
      Moves s views (.did pid r a) { s with
        world := w
        procs := Function.update (Function.update s.procs pid (some ⟨kind, k a⟩)) s.next
          (some ⟨.job (kind.owner pid) j, S.body j⟩)
        next := s.next + 1
        history := s.history ++ [.did pid r a] }
        (Function.update (Function.update views pid (D.observe (views pid) r a)) s.next
          (D.heir (views pid) j))
  | return {pid : Nat} {kind : S.Kind} {o : S.Outcome} (hproc : s.procs pid = some ⟨kind, .pure o⟩)
      (hreturns : D.Returns o (views pid)) :
      Moves s views (.returned pid o) { s with
        procs := Function.update s.procs pid none
        history := s.history ++ [.returned pid o] } views
  | drop {pid : Nat} {kind : S.Kind} {r : Req} {k : Ans r → Prog Ans S.Outcome}
      (hproc : s.procs pid = some ⟨kind, .call r k⟩) (hpermits : D.permits (views pid) r) :
      Moves s views (.dropped pid) { s with
        procs := Function.update s.procs pid none
        history := s.history ++ [.dropped pid] } views
  | interfere {w : S.World} (hworld : S.interferes s.world w) :
      Moves s views .interfered { s with world := w, history := s.history ++ [.interfered] } views
  | restart :
      Moves s views .restarted { s with
        world := S.restart s.world
        procs := fun _ => none
        history := s.history ++ [.restarted] } views

theorem Moves.history {s t : S.State} {views views' : Nat → D.View} {e : S.Event}
    (h : D.Moves s views e t views') : t.history = s.history ++ [e] := by
  cases h <;> rfl

/-- What every process will do is described by its view, and the numbers from `next` on are free. -/
structure Follows (s : S.State) (views : Nat → D.View) : Prop where
  prog : ∀ pid proc, s.procs pid = some proc → proc.prog.wp D.toMonitor D.Returns (views pid)
  fresh : ∀ pid, s.next ≤ pid → s.procs pid = none

variable {D}

theorem Follows.lt_next {s : S.State} {views : Nat → D.View} {pid : Nat} {proc : S.Proc}
    (h : D.Follows s views) (hproc : s.procs pid = some proc) : pid < s.next := by
  by_contra hge
  rw [h.fresh pid (by omega)] at hproc
  cases hproc

/-- The processes other than the one that moved. -/
theorem Follows.update {s : S.State} {views : Nat → D.View} {pid : Nat} {v : D.View}
    (h : D.Follows s views) (hlt : pid < s.next) (proc : S.Proc)
    (hproc : proc.prog.wp D.toMonitor D.Returns v) (w : S.World) (history : List S.Event) :
    D.Follows { s with
      world := w
      procs := Function.update s.procs pid (some proc)
      history := history } (Function.update views pid v) := by
  constructor
  · intro other q hq
    by_cases hother : other = pid
    · subst hother
      simp only [Function.update_self, Option.some.injEq] at hq ⊢
      exact hq ▸ hproc
    · simp only [Function.update_of_ne hother] at hq ⊢
      exact h.prog other q hq
  · intro other hother
    have hne : other ≠ pid := by
      have : s.next ≤ other := hother
      omega
    simp only [Function.update_of_ne hne]
    exact h.fresh other hother

/-- A new process. -/
theorem Follows.insert {s : S.State} {views : Nat → D.View} {v : D.View} (h : D.Follows s views)
    (proc : S.Proc) (hproc : proc.prog.wp D.toMonitor D.Returns v) (history : List S.Event) :
    D.Follows { s with
      procs := Function.update s.procs s.next (some proc)
      next := s.next + 1
      history := history } (Function.update views s.next v) := by
  constructor
  · intro other q hq
    by_cases hother : other = s.next
    · subst hother
      simp only [Function.update_self, Option.some.injEq] at hq ⊢
      exact hq ▸ hproc
    · simp only [Function.update_of_ne hother] at hq ⊢
      exact h.prog other q hq
  · intro other hother
    have hle : s.next + 1 ≤ other := hother
    simp only [Function.update_of_ne (show other ≠ s.next by omega)]
    exact h.fresh other (by omega)

/-- A process that is gone. -/
theorem Follows.erase {s : S.State} {views : Nat → D.View} {pid : Nat} (h : D.Follows s views)
    (history : List S.Event) :
    D.Follows { s with procs := Function.update s.procs pid none, history := history } views := by
  constructor
  · intro other q hq
    by_cases hother : other = pid
    · subst hother
      simp at hq
    · simp only [Function.update_of_ne hother] at hq
      exact h.prog other q hq
  · intro other hother
    by_cases heq : other = pid
    · subst heq
      simp
    · simp only [Function.update_of_ne heq]
      exact h.fresh other hother

/-- What the world and each single process satisfy. -/
theorem Moves.each {P : S.World → S.Kind → D.View → Prop} {s t : S.State} {views views' : Nat → D.View}
    {e : S.Event} (hmove : D.Moves s views e t views')
    (h : ∀ pid proc, s.procs pid = some proc → P s.world proc.kind (views pid))
    (hfresh : ∀ c, P s.world (.call c) (D.fresh c))
    (hself : ∀ {pid kind r k} {a : Ans r} {w : S.World}, e = .did pid r a →
      s.procs pid = some ⟨kind, .call r k⟩ → D.permits (views pid) r →
        S.exec s.world (kind.owner pid) s.Idle r a w → P w kind (D.observe (views pid) r a))
    (hother : ∀ {kind v owner r} {a : Ans r} {w : S.World}, P s.world kind v →
      S.exec s.world owner s.Idle r a w → P w kind v)
    (hheir : ∀ {v owner r j} {a : Ans r} {w : S.World}, D.permits v r → S.spawns r = some j →
      S.exec s.world owner s.Idle r a w → P w (.job owner j) (D.heir v j))
    (hinterfere : ∀ {kind} {v : D.View} {w : S.World}, P s.world kind v → S.interferes s.world w →
      P w kind v) :
    ∀ pid proc, t.procs pid = some proc → P t.world proc.kind (views' pid) := by
  have hacted : ∀ {pid kind r k} {a : Ans r} {w : S.World}, e = .did pid r a →
      s.procs pid = some ⟨kind, .call r k⟩ → S.exec s.world (kind.owner pid) s.Idle r a w → D.permits (views pid) r →
        ∀ other proc, Function.update s.procs pid (some ⟨kind, k a⟩) other = some proc →
          P w proc.kind (Function.update views pid (D.observe (views pid) r a) other) := by
    intro pid kind r k a w he hproc hexec hpermits other proc hother'
    by_cases heq : other = pid
    · subst heq
      simp only [Function.update_self, Option.some.injEq] at hother' ⊢
      subst hother'
      exact hself he hproc hpermits hexec
    · simp only [Function.update_of_ne heq] at hother' ⊢
      exact hother (h other proc hother') hexec
  have herased : ∀ {pid other proc}, Function.update s.procs pid none other = some proc →
      P s.world proc.kind (views other) := by
    intro pid other proc hproc
    by_cases heq : other = pid
    · subst heq
      simp at hproc
    · simp only [Function.update_of_ne heq] at hproc
      exact h other proc hproc
  cases hmove with
  | call c =>
    intro other proc hproc
    by_cases heq : other = s.next
    · subst heq
      simp only [Function.update_self, Option.some.injEq] at hproc ⊢
      subst hproc
      exact hfresh c
    · simp only [Function.update_of_ne heq] at hproc ⊢
      exact h other proc hproc
  | act hproc hjob hexec hpermits => exact hacted rfl hproc hexec hpermits
  | spawn hproc hjob hexec hpermits =>
    intro other proc hother'
    by_cases heq : other = s.next
    · subst heq
      simp only [Function.update_self, Option.some.injEq] at hother' ⊢
      subst hother'
      exact hheir hpermits hjob hexec
    · simp only [Function.update_of_ne heq] at hother' ⊢
      exact hacted rfl hproc hexec hpermits other proc hother'
  | «return» hproc hreturns => exact fun _ _ => herased
  | drop hproc hpermits => exact fun _ _ => herased
  | interfere hworld => exact fun other proc hproc => hinterfere (h other proc hproc) hworld
  | restart => exact nofun

/-- A step of the service is a move of the discipline. -/
theorem Follows.step {s t : S.State} {views : Nat → D.View} {e : S.Event} (hD : D.Sound)
    (h : D.Follows s views) (ht : S.Step s e t) :
    ∃ views', D.Moves s views e t views' ∧ D.Follows t views' := by
  cases ht with
  | call c => exact ⟨_, .call c, h.insert ⟨.call c, S.code c⟩ (hD.code c) _⟩
  | @act pid kind r k a w hproc hjob hexec =>
    obtain ⟨hpermits, hk⟩ := h.prog pid _ hproc
    exact ⟨_, .act hproc hjob hexec hpermits,
      h.update (h.lt_next hproc) ⟨kind, k a⟩ (hk a) w _⟩
  | @spawn pid kind r k a w j hproc hjob hexec =>
    obtain ⟨hpermits, hk⟩ := h.prog pid _ hproc
    have hact := h.update (h.lt_next hproc) ⟨kind, k a⟩ (hk a) w s.history
    exact ⟨_, .spawn hproc hjob hexec hpermits,
      hact.insert ⟨.job (kind.owner pid) j, S.body j⟩ (hD.body _ r j hjob hpermits) _⟩
  | @«return» pid kind o hproc => exact ⟨_, .return hproc (h.prog pid _ hproc), h.erase _⟩
  | @drop pid kind r k hproc _ => exact ⟨_, .drop hproc (h.prog pid _ hproc).1, h.erase _⟩
  | interfere hworld => exact ⟨_, .interfere hworld, h.prog, h.fresh⟩
  | restart => exact ⟨_, .restart, nofun, fun _ _ => rfl⟩

end Discipline

/-- **What every permitted move keeps holds in every reachable state.** -/
theorem Reachable.keeps {D : Discipline S} {ok : S.State → S.Event → Prop} {w₀ : S.World}
    {s : S.State} (hs : S.Reachable ok w₀ s) (hD : D.Sound) [Inhabited D.View]
    {I : S.State → (Nat → D.View) → Prop} (hstart : ∀ views, I (S.start w₀) views)
    (hmove : ∀ s views e t views', S.Reachable ok w₀ s → I s views → D.Follows s views →
      D.Moves s views e t views' → ok s e → I t views') : ∃ views, D.Follows s views ∧ I s views := by
  induction hs with
  | start => exact ⟨fun _ => default, ⟨nofun, fun _ _ => rfl⟩, hstart _⟩
  | step hs ht hok ih =>
    obtain ⟨views, hfollows, hinv⟩ := ih
    obtain ⟨views', hmoves, hfollows'⟩ := hfollows.step hD ht
    exact ⟨views', hfollows', hmove _ _ _ _ _ hs hinv hfollows hmoves hok⟩

/-- What every permitted move keeps is kept from any state on whose processes the views describe. -/
theorem Goes.keeps {D : Discipline S} {s t : S.State} {views : Nat → D.View} (ht : S.Goes s t) (hD : D.Sound)
    {I : S.State → (Nat → D.View) → Prop} (hfollows : D.Follows s views) (hI : I s views)
    (hmove : ∀ s views e t views', I s views → D.Follows s views → D.Moves s views e t views' →
      I t views') : ∃ views', D.Follows t views' ∧ I t views' := by
  induction ht with
  | refl => exact ⟨views, hfollows, hI⟩
  | step _ hstep ih =>
    obtain ⟨views', hfollows', hI'⟩ := ih
    obtain ⟨views'', hmoves, hfollows''⟩ := hfollows'.step hD hstep
    exact ⟨views'', hfollows'', hmove _ _ _ _ _ hI' hfollows' hmoves⟩

end Runtime
end Program
