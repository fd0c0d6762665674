import LocalAgent.Deployment.Backup

/-!
# What a failed restore leaves behind (`agent-deployment/src/lib.rs:1197-1228`)

A path is followed through the calls by what lies under it and by three marks: whether the call has
created it, opened it as its lock, and failed to work on it. From these marks alone it can be read
off whether a failed restore has left the path as it was (`Safe`) or not (`Lost`).
-/
namespace LocalAgent.Deployment

open Program

/-! ## Marks -/

/-- What a call reports of itself. -/
def FsCall.done : (r : FsCall) → FsAnswer r → Bool
  | .read _, a => Option.isSome a
  | .inspectPath _, a => Option.isSome a
  | .createDirAll _, a | .ownedDirectory _, a | .setPermissions _, a | .openOrCreate _, a | .flock _, a
  | .exists _, a | .isDir _, a | .isFile _, a | .open _, a | .createNew _, a | .copy _ _, a | .syncAll _, a
  | .removeFile _, a => a

/-- The calls that work on a file once it is created. -/
def FsCall.worksOn : FsCall → PathBuf → Bool
  | .setPermissions path, p | .copy _ path, p | .syncAll path, p | .inspectPath path, p => path = p
  | _, _ => false

abbrev FsDialogue := Dialogue FsAnswer

/-- The call created a file under the path. -/
def Created (d : FsDialogue) (p : PathBuf) : Prop := ⟨.createNew p, true⟩ ∈ d

/-- The call opened the path as its lock. -/
def LockOpened (d : FsDialogue) (p : PathBuf) : Prop := ⟨.openOrCreate p, true⟩ ∈ d

/-- Some work on the path failed. -/
def WorkFailed (d : FsDialogue) (p : PathBuf) : Prop := ∃ e ∈ d, e.1.worksOn p = true ∧ e.1.done e.2 = false

/-- No work failed on the path if the call created it, and it is not a new lock file. -/
def Undisturbed (disk : Disk) (d : FsDialogue) (p : PathBuf) : Prop :=
  (Created d p → ¬ WorkFailed d p) ∧ (LockOpened d p → disk p ≠ none)

/-- A path, as far as it matters. -/
structure Trace where
  node : Option Node
  created : Prop
  opened : Prop
  failed : Prop

def trace (p : PathBuf) (w : Disk × FsDialogue) : Trace :=
  ⟨w.1 p, Created w.2 p, LockOpened w.2 p, WorkFailed w.2 p⟩

theorem created_concat_iff {d : FsDialogue} {e : (r : FsCall) × FsAnswer r} {p : PathBuf} :
    Created (d ++ [e]) p ↔ Created d p ∨ e = ⟨.createNew p, true⟩ := by
  simp [Created, eq_comm]

theorem lockOpened_concat_iff {d : FsDialogue} {e : (r : FsCall) × FsAnswer r} {p : PathBuf} :
    LockOpened (d ++ [e]) p ↔ LockOpened d p ∨ e = ⟨.openOrCreate p, true⟩ := by
  simp [LockOpened, eq_comm]

theorem workFailed_concat_iff {d : FsDialogue} {e : (r : FsCall) × FsAnswer r} {p : PathBuf} :
    WorkFailed (d ++ [e]) p ↔ WorkFailed d p ∨ (e.1.worksOn p = true ∧ e.1.done e.2 = false) := by
  simp only [WorkFailed, List.mem_append, List.mem_singleton]
  constructor
  · rintro ⟨x, hx | rfl, hwork⟩
    · exact Or.inl ⟨x, hx, hwork⟩
    · exact Or.inr hwork
  · rintro (⟨x, hx, hwork⟩ | hwork)
    · exact ⟨x, Or.inl hx, hwork⟩
    · exact ⟨e, Or.inr rfl, hwork⟩

/-- The file system, with removals that succeed. -/
def removing (readers : Readers) : Environment FsAnswer Disk := fun disk r a disk' =>
  fileSystem readers disk r a disk' ∧ ∀ path, r = .removeFile path → r.done a = true

/-- The call cannot change what lies under the path. -/
def FsCall.spares : FsCall → PathBuf → Prop
  | .createDirAll path, p => ¬ p <+: path
  | .openOrCreate path, p | .createNew path, p | .copy _ path, p | .removeFile path, p => path ≠ p
  | _, _ => True

variable {readers : Readers} {p : PathBuf} {n₀ : Option Node}

theorem fileSystem_spares {disk disk' : Disk} {r : FsCall} {a : FsAnswer r}
    (h : fileSystem readers disk r a disk') (hp : r.spares p) : disk' p = disk p := by
  cases r with
  | createDirAll path => exact h.1 p hp
  | openOrCreate path =>
    change if a then _ else _ at h
    split at h
    · rw [h]
      split
      · exact Function.update_of_ne (Ne.symm hp) _ _
      · rfl
    · rw [h]
  | createNew path =>
    change if a then _ else _ at h
    split at h
    · rw [h.2]
      exact Function.update_of_ne (Ne.symm hp) _ _
    · rw [h]
  | copy input output =>
    obtain ⟨bytes, written, -, -, hdisk⟩ := h
    rw [hdisk]
    exact Function.update_of_ne (Ne.symm hp) _ _
  | removeFile path =>
    change if a then _ else _ at h
    split at h
    · rw [h.2]
      exact Function.update_of_ne (Ne.symm hp) _ _
    · rw [h]
  | ownedDirectory path => rw [h.1]
  | isDir path => rw [h.1]
  | «exists» path => rw [h.1]
  | isFile path => rw [h.1]
  | «open» path => rw [h.1]
  | read path => rw [h.1]
  | inspectPath path => rw [h.1]
  | setPermissions path => rw [show disk' = disk from h]
  | flock path => rw [show disk' = disk from h]
  | syncAll path => rw [show disk' = disk from h]

theorem created_spared {w w' : Disk × FsDialogue} {r : FsCall} {a : FsAnswer r}
    (h : (removing readers).recorded w r a w') (hp : r.spares p) : Created w'.2 p ↔ Created w.2 p := by
  rw [h.2, created_concat_iff, or_iff_left]
  intro heq
  have hr : r = .createNew p := congrArg Sigma.fst heq
  subst hr
  exact hp rfl

theorem lockOpened_spared {w w' : Disk × FsDialogue} {r : FsCall} {a : FsAnswer r}
    (h : (removing readers).recorded w r a w') (hp : r.spares p) :
    LockOpened w'.2 p ↔ LockOpened w.2 p := by
  rw [h.2, lockOpened_concat_iff, or_iff_left]
  intro heq
  have hr : r = .openOrCreate p := congrArg Sigma.fst heq
  subst hr
  exact hp rfl

/-- A call that spares a path, and does not fail on it, leaves its trace alone. -/
theorem trace_spared {w w' : Disk × FsDialogue} {r : FsCall} {a : FsAnswer r}
    (h : (removing readers).recorded w r a w') (hp : r.spares p)
    (hwork : r.worksOn p = true → r.done a = true) : trace p w' = trace p w := by
  have hnode : w'.1 p = w.1 p := fileSystem_spares h.1.1 hp
  have hfailed : WorkFailed w'.2 p ↔ WorkFailed w.2 p := by
    rw [h.2, workFailed_concat_iff, or_iff_left]
    rintro ⟨hon, hnot⟩
    rw [hwork hon] at hnot
    cases hnot
  simp only [trace, hnode, created_spared h hp, lockOpened_spared h hp, hfailed]

/-! ## What a trace says -/

/-- Nothing was made under the path, other than a lock file. -/
structure Unmade (n₀ : Option Node) (t : Trace) : Prop where
  created : ¬ t.created
  locked : t.opened → n₀ = none → t.node ≠ none
  kept : (t.opened → n₀ ≠ none) → t.node = n₀

/-- The restore has made a file under the path, and no work on it has failed. -/
structure Made (n₀ : Option Node) (t : Trace) : Prop where
  created : t.created
  worked : ¬ t.failed
  before : n₀ = none
  after : t.node ≠ none
  opened : ¬ t.opened

/-- The path is as it was, and nothing went wrong with it. -/
structure Safe (n₀ : Option Node) (t : Trace) : Prop where
  kept : t.node = n₀
  undisturbed : (t.created → ¬ t.failed) ∧ (t.opened → n₀ ≠ none)

/-- The path is not as it was, and something went wrong with it. -/
structure Lost (n₀ : Option Node) (t : Trace) : Prop where
  changed : t.node ≠ n₀
  disturbed : ¬ ((t.created → ¬ t.failed) ∧ (t.opened → n₀ ≠ none))

theorem Unmade.settled {t : Trace} (h : Unmade n₀ t) : Safe n₀ t ∨ Lost n₀ t := by
  by_cases hlock : t.opened → n₀ ≠ none
  · exact Or.inl ⟨h.kept hlock, fun hc => absurd hc h.created, hlock⟩
  · refine Or.inr ⟨?_, fun hu => hlock hu.2⟩
    simp only [Classical.not_imp, not_not] at hlock
    rw [hlock.2]
    exact h.locked hlock.1 hlock.2

theorem Made.undisturbed {t : Trace} (h : Made n₀ t) :
    (t.created → ¬ t.failed) ∧ (t.opened → n₀ ≠ none) :=
  ⟨fun _ => h.worked, fun ho => absurd ho h.opened⟩

/-! ## Steps -/

theorem wlp_io_bind {W ε : Type} {env : Environment FsAnswer W} {r : FsCall} {f : FsAnswer r → FsM ε}
    {Q : Except DeploymentConfigError ε → Unit → W → Prop} {w : W} :
    Task.wlp env (io r >>= f) Q () w ↔ ∀ a w', env w r a w' → Task.wlp env (f a) Q () w' := Iff.rfl

theorem wlp_orFail_bind {W ε : Type} {env : Environment FsAnswer W} {b : Bool} {e : DeploymentConfigError}
    {f : Unit → FsM ε} {Q : Except DeploymentConfigError ε → Unit → W → Prop} {w : W} :
    Task.wlp env (orFail b e >>= f) Q () w ↔
      (b = true → Task.wlp env (f ()) Q () w) ∧ (b = false → Q (.error e) () w) := by
  cases b
  · exact ⟨fun h => ⟨nofun, fun _ => h⟩, fun h => h.2 rfl⟩
  · exact ⟨fun h => ⟨fun _ => h, nofun⟩, fun h => h.1 rfl⟩

theorem wlp_orFail {W : Type} {env : Environment FsAnswer W} {b : Bool} {e : DeploymentConfigError}
    {Q : Except DeploymentConfigError Unit → Unit → W → Prop} {w : W} :
    Task.wlp env (orFail b e) Q () w ↔ (b = true → Q (.ok ()) () w) ∧ (b = false → Q (.error e) () w) := by
  cases b
  · exact ⟨fun h => ⟨nofun, fun _ => h⟩, fun h => h.2 rfl⟩
  · exact ⟨fun h => ⟨fun _ => h, nofun⟩, fun h => h.1 rfl⟩

/-- The lock is opened. -/
theorem trace_openOrCreate {w w' : Disk × FsDialogue} {lock : PathBuf} {a : Bool}
    (h : (removing readers).recorded w (.openOrCreate lock) a w') (hw : Unmade n₀ (trace p w))
    (hfailed : ¬ (trace p w).failed) : Unmade n₀ (trace p w') ∧ ¬ (trace p w').failed := by
  by_cases hp : lock = p
  · subst hp
    have hf : ¬ (trace lock w').failed := by
      simp only [trace, h.2, workFailed_concat_iff, FsCall.worksOn]
      rintro (hf | ⟨hf, -⟩)
      · exact hfailed hf
      · cases hf
    refine ⟨⟨?_, ?_, ?_⟩, hf⟩
    · simp only [trace, h.2, created_concat_iff]
      rintro (hc | hc)
      · exact hw.created hc
      · cases hc
    · have hdisk := h.1.1
      intro ho hnone
      change if a then _ else _ at hdisk
      split at hdisk
      · simp only [trace, hdisk]
        split <;> simp_all
      · have ho' : (trace lock w).opened := by
          have := ho
          simp only [trace, h.2, lockOpened_concat_iff] at this
          rcases this with ho | ho
          · exact ho
          · cases ho
            simp_all
        have := hw.locked ho' hnone
        simpa only [trace, hdisk] using this
    · intro ho
      have hdisk := h.1.1
      change if a then _ else _ at hdisk
      have hprev : (trace lock w).node = n₀ := by
        refine hw.kept fun hopened => ho ?_
        simp only [trace, h.2, lockOpened_concat_iff]
        exact Or.inl hopened
      split at hdisk
      next ha =>
        have hn : n₀ ≠ none := by
          refine ho ?_
          simp only [trace, h.2, lockOpened_concat_iff, ha]
          exact Or.inr trivial
        simp only [trace] at hprev ⊢
        rw [hdisk]
        split
        next hnone => exact absurd (hprev.symm.trans hnone) hn
        next => exact hprev
      next =>
        simpa only [trace, hdisk] using hprev
  · have heq := trace_spared h (p := p) hp nofun
    rw [heq]
    exact ⟨hw, hfailed⟩

/-- A call that spares a path makes nothing there, also when it fails. -/
theorem Unmade.spared {w w' : Disk × FsDialogue} {r : FsCall} {a : FsAnswer r}
    (h : (removing readers).recorded w r a w') (hp : r.spares p) (hw : Unmade n₀ (trace p w)) :
    Unmade n₀ (trace p w') ∧ (r.done a = true → (trace p w').failed → (trace p w).failed) := by
  by_cases hdone : r.done a = true
  · rw [trace_spared h hp fun _ => hdone]
    exact ⟨hw, fun _ hf => hf⟩
  · have hnode : (trace p w').node = (trace p w).node := fileSystem_spares h.1.1 hp
    have hcreated : (trace p w').created ↔ (trace p w).created := created_spared h hp
    have hopened : (trace p w').opened ↔ (trace p w).opened := lockOpened_spared h hp
    refine ⟨⟨?_, ?_, ?_⟩, fun hd => absurd hd hdone⟩
    · rw [hcreated]
      exact hw.created
    · rw [hopened, hnode]
      exact hw.locked
    · rw [hopened, hnode]
      exact hw.kept

/-- Creating a file where nothing is makes it. -/
theorem Unmade.createNew {w w' : Disk × FsDialogue} {a : Bool}
    (h : (removing readers).recorded w (.createNew p) a w') (ha : a = true) (hw : Unmade n₀ (trace p w))
    (hfailed : ¬ (trace p w).failed) : Made n₀ (trace p w') := by
  have hdisk := h.1.1
  change if a then _ else _ at hdisk
  rw [if_pos ha] at hdisk
  obtain ⟨hnone, hdisk⟩ := hdisk
  have hlock : (trace p w).opened → n₀ ≠ none := fun ho hn => hw.locked ho hn hnone
  have hbefore : n₀ = none := (hw.kept hlock).symm.trans hnone
  refine ⟨?_, ?_, hbefore, ?_, ?_⟩
  · simp only [trace, h.2, created_concat_iff, ha]
    exact Or.inr trivial
  · simp only [trace, h.2, workFailed_concat_iff, FsCall.worksOn]
    rintro (hf | ⟨hf, -⟩)
    · exact hfailed hf
    · cases hf
  · simp [trace, hdisk]
  · simp only [trace, h.2, lockOpened_concat_iff]
    rintro (ho | ho)
    · exact hlock ho hbefore
    · cases congrArg Sigma.fst ho

theorem Unmade.notCreated {w w' : Disk × FsDialogue} {a : Bool}
    (h : (removing readers).recorded w (.createNew p) a w') (ha : a = false) (hw : Unmade n₀ (trace p w)) :
    Unmade n₀ (trace p w') := by
  have hdisk := h.1.1
  change if a then _ else _ at hdisk
  rw [ha, if_neg Bool.false_ne_true] at hdisk
  have hopened : LockOpened w'.2 p ↔ LockOpened w.2 p := by
    rw [h.2, lockOpened_concat_iff, or_iff_left]
    intro heq
    cases congrArg Sigma.fst heq
  refine ⟨?_, ?_, ?_⟩
  · simp only [trace, h.2, created_concat_iff, ha]
    rintro (hc | hc)
    · exact hw.created hc
    · cases hc
  · simp only [trace, hdisk, hopened]
    exact hw.locked
  · simp only [trace, hdisk, hopened]
    exact hw.kept

/-- Creating a file where one is fails. -/
theorem createNew_occupied {w w' : Disk × FsDialogue} {a : Bool}
    (h : (removing readers).recorded w (.createNew p) a w') (hw : w.1 p ≠ none) :
    a = false ∧ trace p w' = trace p w := by
  have hdisk := h.1.1
  change if a then _ else _ at hdisk
  cases ha : a with
  | true =>
    rw [if_pos ha] at hdisk
    exact absurd hdisk.1 hw
  | false =>
    rw [ha, if_neg Bool.false_ne_true] at hdisk
    have hcreated : Created w'.2 p ↔ Created w.2 p := by
      rw [h.2, created_concat_iff, ha, or_iff_left]
      intro heq
      cases heq
    have hopened : LockOpened w'.2 p ↔ LockOpened w.2 p := by
      rw [h.2, lockOpened_concat_iff, or_iff_left]
      intro heq
      cases congrArg Sigma.fst heq
    have hfailed : WorkFailed w'.2 p ↔ WorkFailed w.2 p := by
      rw [h.2, workFailed_concat_iff, or_iff_left]
      rintro ⟨hon, -⟩
      cases hon
    exact ⟨rfl, by simp only [trace, hdisk, hcreated, hopened, hfailed]⟩

/-- Work on a file that was made keeps it if it succeeds, and loses the path if not. -/
theorem Made.work {w w' : Disk × FsDialogue} {r : FsCall} {a : FsAnswer r}
    (h : (removing readers).recorded w r a w') (hr : r.worksOn p = true) (hw : Made n₀ (trace p w)) :
    (r.done a = true → Made n₀ (trace p w')) ∧ (r.done a = false → Lost n₀ (trace p w')) := by
  have hnode : (trace p w').node ≠ none := by
    have hdisk := h.1.1
    cases r with
    | setPermissions path =>
      simp only [trace, show w'.1 = w.1 from hdisk]
      exact hw.after
    | syncAll path =>
      simp only [trace, show w'.1 = w.1 from hdisk]
      exact hw.after
    | inspectPath path =>
      simp only [trace, hdisk.1]
      exact hw.after
    | copy input output =>
      have hp : output = p := of_decide_eq_true hr
      obtain ⟨bytes, written, -, -, hdisk⟩ := hdisk
      simp [trace, hdisk, hp]
    | _ => cases hr
  have hcreated : (trace p w').created := by
    simp only [trace, h.2, created_concat_iff]
    exact Or.inl hw.created
  have hopened : ¬ (trace p w').opened := by
    simp only [trace, h.2, lockOpened_concat_iff]
    rintro (ho | ho)
    · exact hw.opened ho
    · have hlock : r = .openOrCreate p := congrArg Sigma.fst ho
      subst hlock
      cases hr
  have hfailed : (trace p w').failed ↔ r.done a = false := by
    simp only [trace, h.2, workFailed_concat_iff]
    constructor
    · rintro (hf | ⟨-, hnot⟩)
      · exact absurd hf hw.worked
      · exact hnot
    · exact fun hnot => Or.inr ⟨hr, hnot⟩
  constructor
  · intro hdone
    refine ⟨hcreated, ?_, hw.before, hnode, hopened⟩
    rw [hfailed, hdone]
    exact Bool.noConfusion
  · intro hnot
    refine ⟨?_, fun hu => hu.1 hcreated (hfailed.mpr hnot)⟩
    rw [hw.before]
    exact hnode

/-- A file that was made is removed again. -/
theorem Made.remove {w w' : Disk × FsDialogue} {a : Bool}
    (h : (removing readers).recorded w (.removeFile p) a w') (hw : Made n₀ (trace p w)) :
    Safe n₀ (trace p w') := by
  have ha : a = true := h.1.2 p rfl
  have hdisk := h.1.1
  change if a then _ else _ at hdisk
  rw [if_pos ha] at hdisk
  have hopened : ¬ (trace p w').opened := by
    simp only [trace, h.2, lockOpened_concat_iff]
    rintro (ho | ho)
    · exact hw.opened ho
    · cases congrArg Sigma.fst ho
  have hfailed : ¬ (trace p w').failed := by
    simp only [trace, h.2, workFailed_concat_iff, FsCall.worksOn]
    rintro (hf | ⟨hf, -⟩)
    · exact hw.worked hf
    · cases hf
  refine ⟨?_, fun _ => hfailed, fun ho => absurd ho hopened⟩
  rw [hw.before]
  simp [trace, hdisk.2]

/-! ## The commands, path by path -/

/-- The lock makes nothing but its own file. -/
theorem acquireLock_trace {dir : PathBuf} {disk : Disk} (hp : ¬ p <+: dir) :
    Task.wlp (removing readers).recorded (acquireLock dir) (fun x _ w => Unmade (disk p) (trace p w) ∧
      (x = .ok () → ¬ (trace p w).failed)) () (disk, []) := by
  have hstart : Unmade (disk p) (trace p (disk, [])) ∧ ¬ (trace p (disk, [])).failed := by
    refine ⟨⟨?_, ?_, ?_⟩, ?_⟩
    · simp [trace, Created]
    · simp [trace, LockOpened]
    · intro _
      rfl
    · simp [trace, WorkFailed]
  unfold acquireLock
  split
  · exact ⟨hstart.1, nofun⟩
  · refine wlp_io_bind.mpr fun a₁ w₁ h₁ => ?_
    rw [← trace_spared h₁ hp nofun] at hstart
    refine wlp_orFail_bind.mpr ⟨fun _ => ?_, fun _ => ⟨hstart.1, nofun⟩⟩
    refine wlp_io_bind.mpr fun a₂ w₂ h₂ => ?_
    rw [← trace_spared h₂ trivial nofun] at hstart
    refine wlp_orFail_bind.mpr ⟨fun _ => ?_, fun _ => ⟨hstart.1, nofun⟩⟩
    refine wlp_io_bind.mpr fun a₃ w₃ h₃ => ?_
    obtain ⟨hmade₃, hfailed₃⟩ := Unmade.spared h₃ trivial hstart.1
    refine wlp_orFail_bind.mpr ⟨fun ha₃ => ?_, fun _ => ⟨hmade₃, nofun⟩⟩
    refine wlp_io_bind.mpr fun a₄ w₄ h₄ => ?_
    have hopen := trace_openOrCreate h₄ hmade₃ fun hf => hstart.2 (hfailed₃ ha₃ hf)
    refine wlp_orFail_bind.mpr ⟨fun _ => ?_, fun _ => ⟨hopen.1, nofun⟩⟩
    refine wlp_io_bind.mpr fun a₅ w₅ h₅ => ?_
    obtain ⟨hmade₅, hfailed₅⟩ := Unmade.spared h₅ trivial hopen.1
    refine wlp_orFail_bind.mpr ⟨fun ha₅ => ?_, fun _ => ⟨hmade₅, nofun⟩⟩
    refine wlp_io_bind.mpr fun a₆ w₆ h₆ => ?_
    rw [← trace_spared h₆ trivial nofun] at hmade₅ hfailed₅
    refine wlp_orFail.mpr ⟨fun _ => ?_, fun _ => ⟨hmade₅, nofun⟩⟩
    exact ⟨hmade₅, fun _ hf => hopen.2 (hfailed₅ ha₅ hf)⟩

/-- Reading calls make nothing; an inspection that fails is the last call. -/
theorem verifyBackup_trace {source : PathBuf} {expected : CompatibilityManifestV1} {w : Disk × FsDialogue}
    (hw : Unmade n₀ (trace p w) ∧ ¬ (trace p w).failed) :
    Task.wlp (removing readers).recorded (verifyBackup readers source expected) (fun x _ w =>
      Unmade n₀ (trace p w) ∧ ((∃ manifest, x = .ok manifest) → ¬ (trace p w).failed)) () w := by
  refine Task.wlp_bind.mpr (Task.wlp_mono (Q := fun _ _ w => Unmade n₀ (trace p w) ∧
    ¬ (trace p w).failed) ?_ ?_)
  · unfold readManifest
    split
    · exact hw
    · refine wlp_io_bind.mpr fun a₁ w₁ h₁ => ?_
      rw [← trace_spared h₁ trivial fun h => by cases h] at hw
      refine wlp_orFail_bind.mpr ⟨fun _ => ?_, fun _ => hw⟩
      refine wlp_io_bind.mpr fun a₂ w₂ h₂ => ?_
      rw [← trace_spared h₂ trivial fun h => by cases h] at hw
      split
      · exact hw
      · split
        · exact hw
        · split <;> exact hw
  · intro x _ w hw
    cases x with
    | error e => exact ⟨hw.1, by simp⟩
    | ok manifest =>
      dsimp only
      split
      · exact ⟨hw.1, by simp⟩
      · refine Task.wlp_bind.mpr ?_
        unfold inspectPath
        refine wlp_io_bind.mpr fun found w₁ h₁ => ?_
        have hmade : Unmade n₀ (trace p w₁) := (Unmade.spared h₁ trivial hw.1).1
        split
        next => exact ⟨hmade, by simp⟩
        next inspection =>
          have hfailed : ¬ (trace p w₁).failed := fun hf =>
            hw.2 ((Unmade.spared h₁ trivial hw.1).2 rfl hf)
          simp only [Task.wlp_pure]
          split
          · exact ⟨hmade, by simp⟩
          · refine Task.wlp_bind.mpr ?_
            unfold fileSha256
            refine wlp_io_bind.mpr fun bytes w₂ h₂ => ?_
            rw [← trace_spared h₂ trivial fun h => by cases h] at hmade hfailed
            split
            next => exact ⟨hmade, by simp⟩
            next bytes =>
              simp only [Task.wlp_pure]
              split
              · exact ⟨hmade, by simp⟩
              · refine Task.wlp_bind.mpr ?_
                cases hvalid : validateInspection inspection expected with
                | error e => exact ⟨hmade, by simp⟩
                | ok _ => exact ⟨hmade, fun _ => hfailed⟩

/-- A copy does nothing to any other path than its destination. -/
theorem copyQuiesced_elsewhere {source destination : PathBuf} {w : Disk × FsDialogue}
    (hp : destination ≠ p) : Task.wlp (removing readers).recorded (copyQuiesced source destination)
      (fun _ _ w' => trace p w' = trace p w) () w := by
  unfold copyQuiesced
  refine wlp_io_bind.mpr fun trusted w₁ h₁ => ?_
  rw [← trace_spared h₁ trivial nofun]
  refine wlp_io_bind.mpr fun existing w₂ h₂ => ?_
  rw [← trace_spared h₂ trivial nofun]
  split
  · rfl
  · refine wlp_io_bind.mpr fun a₃ w₃ h₃ => ?_
    rw [← trace_spared h₃ trivial nofun]
    refine wlp_orFail_bind.mpr ⟨fun _ => ?_, fun _ => rfl⟩
    refine wlp_io_bind.mpr fun a₄ w₄ h₄ => ?_
    rw [← trace_spared h₄ hp nofun]
    refine wlp_orFail_bind.mpr ⟨fun _ => ?_, fun _ => rfl⟩
    have hwork : ¬ decide (destination = p) = true := by simpa using hp
    refine wlp_io_bind.mpr fun a₅ w₅ h₅ => ?_
    rw [← trace_spared h₅ trivial fun h => absurd h hwork]
    refine wlp_orFail_bind.mpr ⟨fun _ => ?_, fun _ => rfl⟩
    refine wlp_io_bind.mpr fun a₆ w₆ h₆ => ?_
    rw [← trace_spared h₆ hp fun h => absurd h hwork]
    refine wlp_orFail_bind.mpr ⟨fun _ => ?_, fun _ => rfl⟩
    refine wlp_io_bind.mpr fun a₇ w₇ h₇ => ?_
    rw [← trace_spared h₇ trivial fun h => absurd h hwork]
    exact wlp_orFail.mpr ⟨fun _ => rfl, fun _ => rfl⟩

/-- A copy makes its destination, or leaves it unmade, or loses it half-way. -/
theorem copyQuiesced_destination {source : PathBuf} {w : Disk × FsDialogue}
    (hw : Unmade n₀ (trace p w) ∧ ¬ (trace p w).failed) :
    Task.wlp (removing readers).recorded (copyQuiesced source p) (fun x _ w =>
      match x with
      | .ok _ => Made n₀ (trace p w)
      | .error _ => Safe n₀ (trace p w) ∨ Lost n₀ (trace p w)) () w := by
  unfold copyQuiesced
  refine wlp_io_bind.mpr fun trusted w₁ h₁ => ?_
  rw [← trace_spared h₁ trivial nofun] at hw
  refine wlp_io_bind.mpr fun existing w₂ h₂ => ?_
  rw [← trace_spared h₂ trivial nofun] at hw
  split
  · exact hw.1.settled
  · refine wlp_io_bind.mpr fun a₃ w₃ h₃ => ?_
    rw [← trace_spared h₃ trivial nofun] at hw
    refine wlp_orFail_bind.mpr ⟨fun _ => ?_, fun _ => hw.1.settled⟩
    refine wlp_io_bind.mpr fun a₄ w₄ h₄ => ?_
    refine wlp_orFail_bind.mpr ⟨fun ha₄ => ?_, fun ha₄ => (hw.1.notCreated h₄ ha₄).settled⟩
    have hmade : Made n₀ (trace p w₄) := hw.1.createNew h₄ ha₄ hw.2
    have hwork : decide (p = p) = true := decide_eq_true rfl
    refine wlp_io_bind.mpr fun a₅ w₅ h₅ => ?_
    refine wlp_orFail_bind.mpr ⟨fun ha₅ => ?_, fun ha₅ => Or.inr ((hmade.work h₅ hwork).2 ha₅)⟩
    replace hmade := (hmade.work h₅ hwork).1 ha₅
    refine wlp_io_bind.mpr fun a₆ w₆ h₆ => ?_
    refine wlp_orFail_bind.mpr ⟨fun ha₆ => ?_, fun ha₆ => Or.inr ((hmade.work h₆ hwork).2 ha₆)⟩
    replace hmade := (hmade.work h₆ hwork).1 ha₆
    refine wlp_io_bind.mpr fun a₇ w₇ h₇ => ?_
    exact wlp_orFail.mpr ⟨fun ha₇ => (hmade.work h₇ hwork).1 ha₇,
      fun ha₇ => Or.inr ((hmade.work h₇ hwork).2 ha₇)⟩

/-- A copy to a file that was made fails before it does anything. -/
theorem copyQuiesced_occupied {source : PathBuf} {w : Disk × FsDialogue} (hw : w.1 p ≠ none) :
    Task.wlp (removing readers).recorded (copyQuiesced source p) (fun x _ w' =>
      (∃ e, x = .error e) ∧ trace p w' = trace p w) () w := by
  unfold copyQuiesced
  refine wlp_io_bind.mpr fun trusted w₁ h₁ => ?_
  refine wlp_io_bind.mpr fun existing w₂ h₂ => ?_
  have htrace : trace p w₂ = trace p w :=
    (trace_spared h₂ trivial nofun).trans (trace_spared h₁ trivial nofun)
  split
  · exact ⟨⟨_, rfl⟩, htrace⟩
  · refine wlp_io_bind.mpr fun a₃ w₃ h₃ => ?_
    have htrace := (trace_spared h₃ trivial nofun).trans htrace
    refine wlp_orFail_bind.mpr ⟨fun _ => ?_, fun _ => ⟨⟨_, rfl⟩, htrace⟩⟩
    refine wlp_io_bind.mpr fun a₄ w₄ h₄ => ?_
    have hnode : w₃.1 p ≠ none := by
      rw [show w₃.1 p = w.1 p from congrArg Trace.node htrace]
      exact hw
    obtain ⟨ha₄, htrace₄⟩ := createNew_occupied h₄ hnode
    refine wlp_orFail_bind.mpr ⟨fun ha => ?_, fun _ => ⟨⟨_, rfl⟩, htrace₄.trans htrace⟩⟩
    rw [ha₄] at ha
    cases ha

/-! ## The restore -/

def StorageConfigV1.targets (storage : StorageConfigV1) : List PathBuf :=
  [storage.databasePath, storage.auditPath]

theorem not_prefix_of_requireFileName {dir : PathBuf} {name : String}
    (h : requireFileName name = .ok ()) : ¬ dir.join name <+: dir := by
  intro hpre
  have hlen := hpre.length_le
  unfold requireFileName at h
  simp only [PathBuf.join, List.length_append] at hlen
  split at h
  · next hone =>
    rw [hone, List.length_singleton] at hlen
    omega
  · cases h

theorem DeploymentConfigV2.targets_not_prefix {config : DeploymentConfigV2} {u : Unit}
    (h : config.validate = .ok u) :
    ∀ p ∈ config.storage.targets, ¬ p <+: config.storage.dataDirectory := by
  unfold DeploymentConfigV2.validate StorageConfigV1.validate at h
  cases hothers : config.others
  · rw [hothers] at h
    cases h
  cases habs : config.storage.dataDirectory.isAbsolute
  · rw [hothers, habs] at h
    cases h
  cases hdb : requireFileName config.storage.databaseFile with
  | error e =>
    rw [hothers, habs, hdb] at h
    cases h
  | ok _ =>
    cases haudit : requireFileName config.storage.auditFile with
    | error e =>
      rw [hothers, habs, hdb, haudit] at h
      cases h
    | ok _ =>
      intro p hp
      simp only [StorageConfigV1.targets, List.mem_cons, List.not_mem_nil, or_false] at hp
      rcases hp with rfl | rfl
      · exact not_prefix_of_requireFileName hdb
      · exact not_prefix_of_requireFileName haudit

/-- How a restore may end: with both files made, with every target as it was and undisturbed, or with
a target changed and disturbed. -/
def Decided (targets : List PathBuf) (disk : Disk) (x : Except DeploymentConfigError Unit)
    (w : Disk × FsDialogue) : Prop :=
  match x with
  | .ok _ => ∀ p ∈ targets, Made (disk p) (trace p w)
  | .error _ => (∃ p ∈ targets, Lost (disk p) (trace p w)) ∨ ∀ p ∈ targets, Safe (disk p) (trace p w)

/-- Targets that are settled one by one are decided together. -/
theorem decided_of_settled {targets : List PathBuf} {disk : Disk} {e : DeploymentConfigError}
    {w : Disk × FsDialogue}
    (h : ∀ p ∈ targets, Safe (disk p) (trace p w) ∨ Lost (disk p) (trace p w)) :
    Decided targets disk (.error e) w := by
  by_cases hlost : ∃ p ∈ targets, Lost (disk p) (trace p w)
  · exact Or.inl hlost
  · refine Or.inr fun p hp => ?_
    rcases h p hp with hsafe | hl
    · exact hsafe
    · exact absurd ⟨p, hp, hl⟩ hlost

theorem forall_targets {storage : StorageConfigV1} {P : PathBuf → Prop}
    (hdb : P storage.databasePath) (haudit : P storage.auditPath) : ∀ p ∈ storage.targets, P p := by
  simpa [StorageConfigV1.targets] using ⟨hdb, haudit⟩

section Restore

variable {config : DeploymentConfigV2} {source : PathBuf} {expected : CompatibilityManifestV1}
  {disk : Disk} {w : Disk × FsDialogue} {manifest : BackupManifestV1}

/-- The end of a restore, when both files are made. -/
theorem restore_inspect (hmade : ∀ p ∈ config.storage.targets, Made (disk p) (trace p w))
    (hne : config.storage.databasePath ≠ config.storage.auditPath) :
    Task.wlp (removing readers).recorded (do
      let inspection ← inspectPath config.storage.databasePath
      match validateInspection inspection expected with
      | .error _ => do
        let _ ← io (.removeFile config.storage.databasePath)
        let _ ← io (.removeFile config.storage.auditPath)
        Task.fail .incompatibleBackup
      | .ok _ => pure ()) (fun x _ w => Decided config.storage.targets disk x w) () w := by
  have hdb := hmade config.storage.databasePath (by simp [StorageConfigV1.targets])
  have haudit := hmade config.storage.auditPath (by simp [StorageConfigV1.targets])
  refine Task.wlp_bind.mpr ?_
  unfold inspectPath
  refine wlp_io_bind.mpr fun found w₁ h₁ => ?_
  have hwork := hdb.work h₁ (decide_eq_true rfl)
  rw [← trace_spared h₁ trivial fun h => absurd (of_decide_eq_true h) hne] at haudit
  split
  next => exact Or.inl ⟨_, by simp [StorageConfigV1.targets], hwork.2 rfl⟩
  next inspection =>
    have hdb := hwork.1 rfl
    simp only [Task.wlp_pure]
    split
    · refine wlp_io_bind.mpr fun a₂ w₂ h₂ => wlp_io_bind.mpr fun a₃ w₃ h₃ => ?_
      rw [← trace_spared h₂ hne fun h => by cases h] at haudit
      refine decided_of_settled (e := .incompatibleBackup) (forall_targets (Or.inl ?_)
        (Or.inl (haudit.remove h₃)))
      rw [trace_spared h₃ (Ne.symm hne) fun h => by cases h]
      exact hdb.remove h₂
    · exact forall_targets hdb haudit

/-- The two copies of a restore and what follows them. -/
theorem restore_copies (hunmade : ∀ p ∈ config.storage.targets,
      Unmade (disk p) (trace p w) ∧ ¬ (trace p w).failed) :
    Task.wlp (removing readers).recorded (do
      copyQuiesced (source.join manifest.databaseFile) config.storage.databasePath
      match ← (copyQuiesced (source.join manifest.auditFile) config.storage.auditPath).attempt with
      | .error e => do
        let _ ← io (.removeFile config.storage.databasePath)
        Task.fail e
      | .ok _ => do
        let inspection ← inspectPath config.storage.databasePath
        match validateInspection inspection expected with
        | .error _ => do
          let _ ← io (.removeFile config.storage.databasePath)
          let _ ← io (.removeFile config.storage.auditPath)
          Task.fail .incompatibleBackup
        | .ok _ => pure ()) (fun x _ w => Decided config.storage.targets disk x w) () w := by
  have hdb := hunmade config.storage.databasePath (by simp [StorageConfigV1.targets])
  have haudit := hunmade config.storage.auditPath (by simp [StorageConfigV1.targets])
  refine Task.wlp_bind.mpr ?_
  by_cases hne : config.storage.databasePath = config.storage.auditPath
  · -- both files have one name: the second copy is refused
    refine Task.wlp_mono (copyQuiesced_destination hdb) fun x _ w₁ h₁ => ?_
    cases x with
    | error e =>
      refine decided_of_settled (forall_targets h₁ ?_)
      rw [← hne]
      exact h₁
    | ok _ =>
      refine Task.wlp_bind.mpr (Task.wlp_attempt.mpr ?_)
      rw [← hne]
      refine Task.wlp_mono (copyQuiesced_occupied h₁.after) fun x _ w₂ h₂ => ?_
      obtain ⟨⟨e, rfl⟩, htrace⟩ := h₂
      rw [← htrace] at h₁
      refine wlp_io_bind.mpr fun a₃ w₃ h₃ => ?_
      refine decided_of_settled (e := e) (forall_targets (Or.inl (h₁.remove h₃)) ?_)
      rw [← hne]
      exact Or.inl (h₁.remove h₃)
  · refine Task.wlp_mono (Task.wlp_and (copyQuiesced_destination hdb) (copyQuiesced_elsewhere hne))
      fun x _ w₁ h₁ => ?_
    obtain ⟨h₁, hframe₁⟩ := h₁
    rw [← hframe₁] at haudit
    cases x with
    | error e => exact decided_of_settled (forall_targets h₁ haudit.1.settled)
    | ok _ =>
      refine Task.wlp_bind.mpr (Task.wlp_attempt.mpr ?_)
      refine Task.wlp_mono (Task.wlp_and (copyQuiesced_destination haudit)
        (copyQuiesced_elsewhere (Ne.symm hne))) fun x _ w₂ h₂ => ?_
      obtain ⟨h₂, hframe₂⟩ := h₂
      replace h₁ : Made (disk config.storage.databasePath) (trace config.storage.databasePath w₂) := by
        rw [hframe₂]
        exact h₁
      cases x with
      | error e =>
        refine wlp_io_bind.mpr fun a₃ w₃ h₃ => ?_
        refine decided_of_settled (e := e) (forall_targets (Or.inl (h₁.remove h₃)) ?_)
        rw [trace_spared h₃ hne nofun]
        exact h₂
      | ok _ => exact restore_inspect (forall_targets h₁ h₂) hne

/-- **Every restore is decided.** -/
theorem restoreBackup_decided : Task.wlp (removing readers).recorded
    (restoreBackup readers config source expected)
    (fun x _ w => Decided config.storage.targets disk x w) () (disk, []) := by
  unfold restoreBackup
  refine Task.wlp_bind.mpr ?_
  have hstart : ∀ p, Safe (disk p) (trace p (disk, [])) := by
    intro p
    refine ⟨rfl, ?_, ?_⟩
    · simp [trace, Created]
    · simp [trace, LockOpened]
  cases hvalid : config.validate with
  | error e => exact Or.inr fun p _ => hstart p
  | ok _ =>
    have hbefore := config.targets_not_prefix hvalid
    simp only [Task.wlp_ofExcept]
    refine Task.wlp_bind.mpr ?_
    refine Task.wlp_mono (Task.wlp_and
      (acquireLock_trace (hbefore config.storage.databasePath (by simp [StorageConfigV1.targets])))
      (acquireLock_trace (hbefore config.storage.auditPath (by simp [StorageConfigV1.targets]))))
      fun x _ w₁ h₁ => ?_
    obtain ⟨hdb, haudit⟩ := h₁
    cases x with
    | error e => exact decided_of_settled (forall_targets hdb.1.settled haudit.1.settled)
    | ok _ =>
      have hdb := And.intro hdb.1 (hdb.2 rfl)
      have haudit := And.intro haudit.1 (haudit.2 rfl)
      refine wlp_io_bind.mpr fun a₂ w₂ h₂ => ?_
      rw [← trace_spared h₂ trivial fun h => by cases h] at hdb haudit
      split
      · exact decided_of_settled (e := .restoreTargetNotEmpty)
          (forall_targets hdb.1.settled haudit.1.settled)
      · refine wlp_io_bind.mpr fun a₃ w₃ h₃ => ?_
        rw [← trace_spared h₃ trivial fun h => by cases h] at hdb haudit
        split
        · exact decided_of_settled (e := .restoreTargetNotEmpty)
            (forall_targets hdb.1.settled haudit.1.settled)
        · refine Task.wlp_bind.mpr ?_
          refine Task.wlp_mono (Task.wlp_and (verifyBackup_trace hdb) (verifyBackup_trace haudit))
            fun x _ w₄ h₄ => ?_
          cases x with
          | error e => exact decided_of_settled (forall_targets h₄.1.1.settled h₄.2.1.settled)
          | ok manifest => exact restore_copies (forall_targets ⟨h₄.1.1, h₄.1.2 ⟨_, rfl⟩⟩
              ⟨h₄.2.1, h₄.2.2 ⟨_, rfl⟩⟩)

end Restore

/-! ## A disk with faults -/

def Disk.fileAt (disk : Disk) (path : PathBuf) : Option (List UInt8) :=
  match disk path with
  | some (.file bytes) => some bytes
  | _ => none

/-- A file system that fails at the calls in `faults`, before they do anything. -/
def faultyDisk (readers : Readers) (faults : FsCall → Bool) (disk : Disk) :
    (r : FsCall) → FsAnswer r × Disk
  | .createDirAll path => if faults (.createDirAll path) then (false, disk) else
      (true, fun p => if p.isPrefixOf path then (disk p).or (some .directory) else disk p)
  | .openOrCreate path => if faults (.openOrCreate path) then (false, disk) else
      (true, match disk path with
        | none => Function.update disk path (some (.file []))
        | some _ => disk)
  | .createNew path => if faults (.createNew path) || (disk path).isSome then (false, disk) else
      (true, Function.update disk path (some (.file [])))
  | .copy input output => if faults (.copy input output) then
      (false, Function.update disk output (some (.file []))) else
      (true, Function.update disk output (disk input))
  | .removeFile path => (true, Function.update disk path none)
  | .ownedDirectory path => (!faults (.ownedDirectory path) && (disk path).isSome, disk)
  | .isDir path => (!faults (.isDir path) && (disk path).isSome, disk)
  | .exists path => (!faults (.exists path) && (disk path).isSome, disk)
  | .isFile path => (!faults (.isFile path) && (disk.fileAt path).isSome, disk)
  | .open path => (!faults (.open path) && (disk.fileAt path).isSome, disk)
  | .read path => (if faults (.read path) then none else disk.fileAt path, disk)
  | .inspectPath path =>
    (if faults (.inspectPath path) then none else (disk.fileAt path).bind readers.inspect, disk)
  | .setPermissions path => (!faults (.setPermissions path), disk)
  | .flock path => (!faults (.flock path), disk)
  | .syncAll path => (!faults (.syncAll path), disk)

/-- A copy reads a file, and a removal finds something. -/
def orderly (disk : Disk) : FsCall → Bool
  | .copy input _ => (disk.fileAt input).isSome
  | .removeFile path => (disk path).isSome
  | _ => true

theorem Disk.fileAt_eq_some {disk : Disk} {path : PathBuf} {bytes : List UInt8}
    (h : disk.fileAt path = some bytes) : disk path = some (.file bytes) := by
  unfold Disk.fileAt at h
  split at h
  next hfile =>
    cases h
    exact hfile
  next => cases h

theorem present {disk : Disk} {path : PathBuf} {fault : Bool}
    (h : (!fault && (disk path).isSome) = true) : disk path ≠ none :=
  Option.isSome_iff_ne_none.mp (Bool.and_eq_true_iff.mp h).2

theorem fileAt_present {disk : Disk} {path : PathBuf} {fault : Bool}
    (h : (!fault && (disk.fileAt path).isSome) = true) : ∃ bytes, disk path = some (.file bytes) := by
  obtain ⟨bytes, hbytes⟩ := Option.isSome_iff_exists.mp (Bool.and_eq_true_iff.mp h).2
  exact ⟨bytes, Disk.fileAt_eq_some hbytes⟩

theorem faultyDisk_follows {faults : FsCall → Bool} {disk : Disk} {r : FsCall}
    (h : orderly disk r = true) :
    removing readers disk r (faultyDisk readers faults disk r).1 (faultyDisk readers faults disk r).2 := by
  refine ⟨?_, fun path hr => by subst hr; rfl⟩
  cases r with
  | createDirAll path =>
    simp only [faultyDisk, fileSystem]
    split
    · exact ⟨fun _ _ => rfl, fun _ _ => rfl, nofun⟩
    · refine ⟨fun p hp => ?_, fun p hp => ?_, fun _ => ?_⟩
      · have hnot : ¬ p.isPrefixOf path = true := by simpa using hp
        exact if_neg hnot
      · dsimp only
        split
        · obtain ⟨node, hnode⟩ := Option.ne_none_iff_exists'.mp hp
          rw [hnode, Option.some_or]
        · rfl
      · simp
  | openOrCreate path =>
    simp only [faultyDisk, fileSystem]
    by_cases hf : faults (.openOrCreate path) = true
    · simp [hf]
    · obtain hnone | ⟨node, hnode⟩ := Option.eq_none_or_eq_some (disk path)
      · simp [hf, hnone]
      · simp [hf, hnode]
  | createNew path =>
    simp only [faultyDisk, fileSystem]
    by_cases hf : (faults (.createNew path) || (disk path).isSome) = true
    · simp [hf]
    · simp only [Bool.not_eq_true, Bool.or_eq_false_iff] at hf
      simp [hf]
      simpa using hf.2
  | copy input output =>
    simp only [faultyDisk, fileSystem]
    obtain ⟨bytes, hbytes⟩ := Option.isSome_iff_exists.mp h
    have hfile := Disk.fileAt_eq_some hbytes
    split
    · exact ⟨bytes, [], hfile, by simp, rfl⟩
    · exact ⟨bytes, bytes, hfile, by simp, by rw [hfile]⟩
  | removeFile path =>
    exact ⟨Option.isSome_iff_ne_none.mp h, rfl⟩
  | ownedDirectory path => exact ⟨rfl, present⟩
  | isDir path => exact ⟨rfl, present⟩
  | «exists» path => exact ⟨rfl, present⟩
  | isFile path => exact ⟨rfl, fileAt_present⟩
  | «open» path => exact ⟨rfl, fileAt_present⟩
  | read path =>
    refine ⟨rfl, fun bytes hbytes => ?_⟩
    simp only [faultyDisk] at hbytes
    split at hbytes
    · cases hbytes
    · exact Disk.fileAt_eq_some hbytes
  | inspectPath path =>
    refine ⟨rfl, fun found hfound => ?_⟩
    simp only [faultyDisk] at hfound
    split at hfound
    · cases hfound
    · obtain ⟨bytes, hbytes, hinspect⟩ := Option.bind_eq_some_iff.mp hfound
      exact ⟨bytes, Disk.fileAt_eq_some hbytes, hinspect⟩
  | setPermissions path => rfl
  | flock path => rfl
  | syncAll path => rfl

/-- What a failed restore must leave: no target where there was none, and both targets as they were
where there was one. -/
def AllOrNothing (storage : StorageConfigV1) (disk disk' : Disk) : Prop :=
  ((∀ p ∈ storage.targets, disk p = none) → ∀ p ∈ storage.targets, disk' p = none) ∧
    ((∃ p ∈ storage.targets, disk p ≠ none) → ∀ p ∈ storage.targets, disk' p = disk p)

theorem allOrNothing_iff {storage : StorageConfigV1} {disk disk' : Disk} :
    AllOrNothing storage disk disk' ↔ ∀ p ∈ storage.targets, disk' p = disk p := by
  constructor
  · intro h p hp
    by_cases hex : ∃ p ∈ storage.targets, disk p ≠ none
    · exact h.2 hex p hp
    · have hnone : ∀ p ∈ storage.targets, disk p = none := by simpa using hex
      rw [h.1 hnone p hp, hnone p hp]
  · intro h
    exact ⟨fun hnone p hp => (h p hp).trans (hnone p hp), fun _ => h⟩

/-- **A failed restore leaves its targets as they were exactly when no work failed on a target that
it had created, and the new lock file is no target.** -/
theorem restore_all_or_nothing_iff {config : DeploymentConfigV2} {source : PathBuf}
    {expected : CompatibilityManifestV1} {disk disk' : Disk} {d : FsDialogue}
    {x : Except DeploymentConfigError Unit}
    (hret : (restoreBackup readers config source expected ()).Returns d (x, ()))
    (hd : Follows (removing readers) disk d disk') :
    ((∃ e, x = .error e) → AllOrNothing config.storage disk disk') ↔
      ∀ p ∈ config.storage.targets, Undisturbed disk d p := by
  have hend : Decided config.storage.targets disk x (disk', d) :=
    Task.wlp_returns (Q := fun x _ w => Decided config.storage.targets disk x w) restoreBackup_decided hret
      (hd.recorded [])
  rw [allOrNothing_iff]
  cases x with
  | ok _ => exact ⟨fun _ p hp => (hend p hp).undisturbed, fun _ he => by cases he; contradiction⟩
  | error e =>
    rcases hend with ⟨p, hp, hlost⟩ | hsafe
    · exact ⟨fun h => absurd (h ⟨e, rfl⟩ p hp) hlost.changed, fun h => absurd (h p hp) hlost.disturbed⟩
    · exact ⟨fun _ p hp => (hsafe p hp).undisturbed, fun _ _ p hp => (hsafe p hp).kept⟩

/-! ### A backup that does not fit on the disk -/

/-- A manifest that asks for nothing. -/
def sampleCompatibility : CompatibilityManifestV1 :=
  ⟨1, 1, 1, [], [], 1, [], [], [], [], 1, []⟩

def sampleReaders : Readers where
  inspect _ := some ⟨1, [], [], [], [], [], [], [], "d"⟩
  sha256 _ := "a"
  manifest _ := some ⟨1, "store.sqlite3", "d", "audit.jsonl", "a", sampleCompatibility⟩

def sampleRoot (name : String) : PathBuf := .rootDir :: Text.components name.toList

def sampleConfig : DeploymentConfigV2 := ⟨⟨sampleRoot "data", "store.sqlite3", "audit.jsonl"⟩, true⟩

/-- A disk with a backup on it. -/
def sampleDisk : Disk := fun path =>
  if path = sampleRoot "backup" then some .directory
  else if path = (sampleRoot "backup").join "manifest.json" then some (.file [1])
  else if path = (sampleRoot "backup").join "store.sqlite3" then some (.file [2])
  else if path = (sampleRoot "backup").join "audit.jsonl" then some (.file [3])
  else none

/-- The restore of the backup with faults: the dialogue, the disk at the end and the result. -/
def sampleRestore (faults : FsCall → Bool) :=
  (restoreBackup sampleReaders sampleConfig (sampleRoot "backup") sampleCompatibility ()).drive
    (faultyDisk sampleReaders faults) sampleDisk

theorem sampleRestore_follows {faults : FsCall → Bool}
    (h : (restoreBackup sampleReaders sampleConfig (sampleRoot "backup") sampleCompatibility ()).passes
      (faultyDisk sampleReaders faults) orderly sampleDisk = true) :
    Follows (removing sampleReaders) sampleDisk (sampleRestore faults).1 (sampleRestore faults).2.1 := by
  have hstep : ∀ disk r, orderly disk r = true → removing sampleReaders disk r
      (faultyDisk sampleReaders faults disk r).1 (faultyDisk sampleReaders faults disk r).2 :=
    fun _ _ hr => faultyDisk_follows hr
  exact Prog.drive_follows hstep _ h

/-- The disk is full when the database is copied. -/
def diskFull (r : FsCall) : Bool :=
  r = .copy ((sampleRoot "backup").join "store.sqlite3") sampleConfig.storage.databasePath

/-- The restore fails, and its empty database stays. -/
theorem half_restored :
    ∃ disk' d, (restoreBackup sampleReaders sampleConfig (sampleRoot "backup") sampleCompatibility
        ()).Returns d (.error .backupInvalid, ()) ∧
      Follows (removing sampleReaders) sampleDisk d disk' ∧
      (∀ p ∈ sampleConfig.storage.targets, sampleDisk p = none) ∧
      ¬ AllOrNothing sampleConfig.storage sampleDisk disk' := by
  have hresult : (sampleRestore diskFull).2.2 = (.error .backupInvalid, ()) := by decide +kernel
  have hempty : ∀ p ∈ sampleConfig.storage.targets, (sampleDisk p).isNone = true := by decide +kernel
  have hleft : ((sampleRestore diskFull).2.1 sampleConfig.storage.databasePath).isSome = true := by
    decide +kernel
  refine ⟨(sampleRestore diskFull).2.1, (sampleRestore diskFull).1, ?_, ?_, ?_, ?_⟩
  · rw [← hresult]
    exact Prog.drive_returns _ _ _
  · exact sampleRestore_follows (by decide +kernel)
  · exact fun p hp => Option.isNone_iff_eq_none.mp (hempty p hp)
  · intro h
    have hnone := h.1 (fun p hp => Option.isNone_iff_eq_none.mp (hempty p hp))
      sampleConfig.storage.databasePath (by simp [StorageConfigV1.targets])
    rw [hnone] at hleft
    cases hleft

/-- The audit log of the backup cannot be opened. -/
def auditUnreadable (r : FsCall) : Bool := r = .open ((sampleRoot "backup").join "audit.jsonl")

theorem audit_unreadable_decided :
    (sampleRestore auditUnreadable).2.2 = (.error .backupInvalid, ()) ∧
      (((∃ e, (sampleRestore auditUnreadable).2.2.1 = .error e) →
          AllOrNothing sampleConfig.storage sampleDisk (sampleRestore auditUnreadable).2.1) ↔
        ∀ p ∈ sampleConfig.storage.targets,
          Undisturbed sampleDisk (sampleRestore auditUnreadable).1 p) := by
  refine ⟨by decide +kernel, ?_⟩
  exact restore_all_or_nothing_iff (Prog.drive_returns _ _ _) (sampleRestore_follows (by decide +kernel))

end LocalAgent.Deployment
