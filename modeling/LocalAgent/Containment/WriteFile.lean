import LocalAgent.Containment.Framing
import LocalAgent.Containment.Paths

/-!
# The worker's write (`enterprise-local-write-worker.rs:205-279`, `:338-357`)

The worker writes a temporary file, renames it to the target and syncs the directory. Eight system
calls can fail. Up to the rename a failure leaves the directory as it was; after it the target is
written, and a directory that cannot be opened or synced is reported as a failure all the same:
nothing is rolled back after the rename. Either way no other name is touched
(`commitFile_spec`).
-/
namespace LocalAgent

open Text

/-! ## The directory and what can go wrong -/

/-- The errors that `map_errno` tells apart, and `EINVAL`. -/
inductive Errno
  | noent
  | exist
  | isdir
  | notdir
  | xdev
  | loop
  | access
  | inval
  | other (code : Nat)
deriving DecidableEq

/-- `map_errno` (enterprise-local-write-worker.rs:338). -/
def mapErrno : Errno → WorkerErrorCode
  | .noent => .notFound
  | .exist => .conflict
  | .isdir => .conflict
  | .notdir => .conflict
  | .xdev => .rejected
  | .loop => .rejected
  | .access => .rejected
  | .inval => .ioFailure
  | .other _ => .ioFailure

/-- `map_io_error` (enterprise-local-write-worker.rs:351), of an error that may have no number. -/
def mapIoError : Option Errno → WorkerErrorCode
  | some errno => mapErrno errno
  | none => .ioFailure

inductive WorkspaceEntry
  | file (content : List UInt8)
  | directory
deriving DecidableEq

/-- The names in `/workspace`. -/
def Workspace : Type := String → Option WorkspaceEntry

def Workspace.set (d : Workspace) (name : String) (entry : Option WorkspaceEntry) : Workspace :=
  fun other => if other = name then entry else d other

/-- Which of the system calls fail besides those that the directory makes fail. -/
structure Faults where
  openRoot : Option Errno
  openTemp : Option Errno
  /-- the bytes that were written before the failure, and its error -/
  write : Option (Nat × Option Errno)
  syncFile : Option Errno
  rename : Option Errno
  openDirectory : Option Errno
  syncDirectory : Option Errno
  unlink : Option Errno

/-- Every call succeeds that can. -/
def Faults.none : Faults := ⟨.none, .none, .none, .none, .none, .none, .none, .none⟩

/-- `openat2` with `CREATE | EXCL`. -/
def createTemp (faults : Faults) (name : String) (d : Workspace) : Except Errno Workspace :=
  match faults.openTemp with
  | some errno => .error errno
  | .none => if (d name).isSome then .error .exist else .ok (d.set name (some (.file [])))

/-- `renameat` of a file in one directory: onto itself it does nothing. -/
def renameat (faults : Faults) (old new : String) (d : Workspace) : Except Errno Workspace :=
  match faults.rename with
  | some errno => .error errno
  | .none =>
    if old = new then .ok d
    else if d new = some .directory then .error .isdir
    else .ok ((d.set new (d old)).set old .none)

def unlinkat (faults : Faults) (name : String) (d : Workspace) : Workspace :=
  match faults.unlink with
  | some _ => d
  | .none => d.set name .none

/-! ## The write -/

/-- The end of `commit_file` (enterprise-local-write-worker.rs:264), after the rename: the directory is
opened and synced. A directory that cannot be synced on this file system is not a failure. -/
def syncParent (faults : Faults) (length : Nat) : Except WorkerErrorCode UInt32 :=
  match faults.openDirectory with
  | some errno => .error (mapErrno errno)
  | .none =>
    match faults.syncDirectory.filter (· ≠ .inval) with
    | some errno => .error (mapErrno errno)
    | .none => if length < 2 ^ 32 then .ok (UInt32.ofNat length) else .error .ioFailure

/-- `commit_file` (enterprise-local-write-worker.rs:253). -/
def commitFile (faults : Faults) (tempName basename : String) (content : List UInt8) (d : Workspace) :
    Except WorkerErrorCode UInt32 × Workspace :=
  match faults.write with
  | some (n, error) =>
    (.error (mapIoError error), d.set tempName (some (.file (content.take n))))
  | .none =>
    let written := d.set tempName (some (.file content))
    match faults.syncFile with
    | some errno => (.error (mapErrno errno), written)
    | .none =>
      match renameat faults tempName basename written with
      | .error errno => (.error (mapErrno errno), written)
      | .ok renamed => (syncParent faults content.length, renamed)

/-- The name of the temporary file. -/
def tempName (id : ToolCallId) : String :=
  ".ela-write-" ++ uuidText id.uuid ++ "-tmp"

/-- `write_file_inner` (enterprise-local-write-worker.rs:227). -/
def writeFileInner (faults : Faults) (temp basename : String) (content : List UInt8) (d : Workspace) :
    Except WorkerErrorCode UInt32 × Workspace :=
  match faults.openRoot with
  | some errno => (.error (mapErrno errno), d)
  | .none =>
    match createTemp faults temp d with
    | .error errno => (.error (mapErrno errno), d)
    | .ok created =>
      match commitFile faults temp basename content created with
      | (.error code, after) => (.error code, unlinkat faults temp after)
      | (.ok length, after) => (.ok length, after)

/-- `str::as_bytes`. -/
def asBytes (text : String) : List UInt8 := text.toUTF8.data.toList

/-- `write_file` (enterprise-local-write-worker.rs:205). What Landlock answers is not looked at. -/
def writeFile (faults : Faults) (id : ToolCallId) (basename content : String) (d : Workspace) :
    WorkerWriteResult × Workspace :=
  if writeFileRejected basename content then (.failed .invalidInput, d)
  else match writeFileInner faults (tempName id) basename (asBytes content) d with
    | (.ok bytesWritten, after) => (.written bytesWritten, after)
    | (.error code, after) => (.failed code, after)

/-! ## Names that are set -/

section Set

variable {d : Workspace} {name other : String} {a b : Option WorkspaceEntry}

@[simp] theorem Workspace.set_self : d.set name a name = a := if_pos rfl

theorem Workspace.set_of_ne (h : other ≠ name) : d.set name a other = d other := if_neg h

@[simp] theorem Workspace.set_set : (d.set name a).set name b = d.set name b := by
  funext other
  by_cases h : other = name
  · simp [Workspace.set, h]
  · simp [Workspace.set, h]

theorem Workspace.set_of_eq (h : d name = a) : d.set name a = d := by
  funext other
  by_cases hname : other = name
  · rw [hname, Workspace.set_self, h]
  · exact Workspace.set_of_ne hname

theorem Workspace.set_comm (h : name ≠ other) : (d.set name a).set other b = (d.set other b).set name a := by
  funext n
  by_cases hname : n = name
  · subst hname
    rw [Workspace.set_of_ne h, Workspace.set_self, Workspace.set_self]
  · by_cases hother : n = other
    · subst hother
      rw [Workspace.set_self, Workspace.set_of_ne hname, Workspace.set_self]
    · rw [Workspace.set_of_ne hother, Workspace.set_of_ne hname, Workspace.set_of_ne hname,
        Workspace.set_of_ne hother]

end Set

/-! ## What each step does -/

section Steps

variable {faults : Faults} {temp basename : String} {content : List UInt8} {before after : Workspace}

/-- A new name is moved. -/
theorem renameat_ok {entry : WorkspaceEntry} (hnew : before temp = none)
    (h : renameat faults temp basename (before.set temp (some entry)) = .ok after) :
    after = before.set basename (some entry) := by
  unfold renameat at h
  split at h
  · cases h
  · split at h
    · rename_i hsame
      rw [← Except.ok.inj h, hsame]
    · rename_i hne
      split at h
      · cases h
      · rw [← Except.ok.inj h, Workspace.set_self, Workspace.set_comm hne, Workspace.set_set,
          Workspace.set_of_eq]
        rw [Workspace.set_of_ne hne, hnew]

/-- The directory cannot be opened, or not synced on a file system that would do so. -/
def Faults.FailsAfterRename (faults : Faults) : Prop :=
  faults.openDirectory.isSome ∨ ∃ errno ∈ faults.syncDirectory, errno ≠ .inval

theorem syncParent_ok {length : Nat} {n : UInt32} (h : syncParent faults length = .ok n) :
    n = UInt32.ofNat length := by
  unfold syncParent at h
  split at h
  · cases h
  · split at h
    · cases h
    · split at h
      · exact (Except.ok.inj h).symm
      · cases h

theorem syncParent_error {length : Nat} {code : WorkerErrorCode} (hlen : length < 2 ^ 32)
    (h : syncParent faults length = .error code) : faults.FailsAfterRename := by
  unfold syncParent at h
  split at h
  · rename_i errno hopen
    exact .inl (by rw [hopen]; rfl)
  · split at h
    · rename_i errno hsync
      obtain ⟨hmem, hne⟩ := Option.filter_eq_some_iff.mp hsync
      exact .inr ⟨errno, hmem, by simpa using hne⟩
    · rw [if_pos hlen] at h
      cases h

/-- **Up to the rename and after it.** A temporary file that did not exist before is all that changes,
or the target is written. -/
theorem commitFile_spec (hlen : content.length < 2 ^ 32) (hnew : before temp = none)
    {result : Except WorkerErrorCode UInt32}
    (h : commitFile faults temp basename content (before.set temp (some (.file []))) =
      (result, after)) :
    match result with
    | .ok n => n = UInt32.ofNat content.length ∧ after = before.set basename (some (.file content))
    | .error _ => (∃ entry, after = before.set temp (some entry)) ∨
        faults.FailsAfterRename ∧ after = before.set basename (some (.file content)) := by
  unfold commitFile at h
  simp only [Workspace.set_set] at h
  split at h
  · obtain ⟨rfl, rfl⟩ := Prod.mk.inj h
    exact .inl ⟨_, rfl⟩
  · split at h
    · obtain ⟨rfl, rfl⟩ := Prod.mk.inj h
      exact .inl ⟨_, rfl⟩
    · split at h
      · obtain ⟨rfl, rfl⟩ := Prod.mk.inj h
        exact .inl ⟨_, rfl⟩
      · rename_i renamed hrename
        obtain ⟨hresult, rfl⟩ := Prod.mk.inj h
        have htarget := renameat_ok hnew hrename
        cases result with
        | ok n => exact ⟨syncParent_ok hresult, htarget⟩
        | error code => exact .inr ⟨syncParent_error hlen hresult, htarget⟩

theorem unlinkat_eq (hunlink : faults.unlink = none) (d : Workspace) :
    unlinkat faults temp d = d.set temp none := by
  simp [unlinkat, hunlink]

/-- The clean-up takes the temporary file away. -/
theorem unlinkat_temp (hunlink : faults.unlink = none) (hnew : before temp = none)
    {entry : Option WorkspaceEntry} : unlinkat faults temp (before.set temp entry) = before := by
  rw [unlinkat_eq hunlink, Workspace.set_set, Workspace.set_of_eq hnew]

/-- After the rename it takes nothing away, unless the target has the temporary name. -/
theorem unlinkat_target (hunlink : faults.unlink = none) (hnew : before temp = none)
    {entry : Option WorkspaceEntry} :
    unlinkat faults temp (before.set basename entry) = before ∨
      unlinkat faults temp (before.set basename entry) = before.set basename entry := by
  by_cases hsame : temp = basename
  · subst hsame
    exact .inl (unlinkat_temp hunlink hnew)
  · right
    rw [unlinkat_eq hunlink, Workspace.set_of_eq]
    rw [Workspace.set_of_ne hsame, hnew]

theorem createTemp_ok {created : Workspace} (h : createTemp faults temp before = .ok created) :
    before temp = none ∧ created = before.set temp (some (.file [])) := by
  unfold createTemp at h
  split at h
  · cases h
  · split at h
    · cases h
    · rename_i hnone
      exact ⟨by simpa using hnone, (Except.ok.inj h).symm⟩

/-- What a write leaves behind. -/
theorem writeFileInner_spec (hunlink : faults.unlink = none) (hlen : content.length < 2 ^ 32)
    {result : Except WorkerErrorCode UInt32}
    (h : writeFileInner faults temp basename content before = (result, after)) :
    match result with
    | .ok n => n = UInt32.ofNat content.length ∧ after = before.set basename (some (.file content))
    | .error _ => after = before ∨
        faults.FailsAfterRename ∧ after = before.set basename (some (.file content)) := by
  unfold writeFileInner at h
  split at h
  · obtain ⟨rfl, rfl⟩ := Prod.mk.inj h
    exact .inl rfl
  · split at h
    · obtain ⟨rfl, rfl⟩ := Prod.mk.inj h
      exact .inl rfl
    · rename_i created hcreate
      obtain ⟨hnew, rfl⟩ := createTemp_ok hcreate
      split at h
      · rename_i code done hcommit
        obtain ⟨rfl, rfl⟩ := Prod.mk.inj h
        rcases commitFile_spec hlen hnew hcommit with ⟨entry, rfl⟩ | ⟨hlate, rfl⟩
        · exact .inl (unlinkat_temp hunlink hnew)
        · exact (unlinkat_target hunlink hnew).imp_right fun h => ⟨hlate, h⟩
      · rename_i length done hcommit
        obtain ⟨rfl, rfl⟩ := Prod.mk.inj h
        exact commitFile_spec hlen hnew hcommit

end Steps

/-! ## The write as a whole -/

theorem length_asBytes (text : String) : (asBytes text).length = text.utf8ByteSize := by
  rw [asBytes, Array.length_toList]
  rfl

/-- **All or nothing up to the rename.** A write that is reported touches the target only, and so does
one that fails after the rename; any other failure leaves the directory as it was. -/
theorem write_all_or_nothing {faults : Faults} (hunlink : faults.unlink = none) {basename content : String}
    (haccepted : writeFileRejected basename content = false) (id : ToolCallId) (before : Workspace) :
    match writeFile faults id basename content before with
    | (.written n, after) => n.toNat = content.utf8ByteSize ∧
        after = before.set basename (some (.file (asBytes content)))
    | (.failed _, after) => after = before ∨ faults.FailsAfterRename ∧
        after = before.set basename (some (.file (asBytes content))) := by
  have hbytes : content.utf8ByteSize ≤ maxContentBytes := by
    simp only [writeFileRejected, Bool.or_eq_false_iff, decide_eq_false_iff_not] at haccepted
    omega
  have hmax : maxContentBytes = 4096 := rfl
  have hlen : (asBytes content).length < 2 ^ 32 := by
    rw [length_asBytes]
    omega
  rcases hinner : writeFileInner faults (tempName id) basename (asBytes content) before with
    ⟨result, after⟩
  have hspec := writeFileInner_spec hunlink hlen hinner
  simp only [writeFile, haccepted, Bool.false_eq_true, if_false, hinner]
  cases result with
  | ok n =>
    obtain ⟨rfl, rfl⟩ := hspec
    refine ⟨?_, rfl⟩
    rw [UInt32.toNat_ofNat_of_lt' hlen, length_asBytes]
  | error code => exact hspec

/-- A directory on which `fsync` fails with `EIO`. -/
def unsyncable : Faults := { Faults.none with syncDirectory := some (.other 5) }

/-- A write there: reported as a failure, and done. -/
theorem write_all_or_nothing_unsyncable :
    (writeFile unsyncable ⟨7⟩ "a.txt" "x" fun _ => none).1 = .failed .ioFailure ∧
      (writeFile unsyncable ⟨7⟩ "a.txt" "x" fun _ => none).2 =
        Workspace.set (fun _ => none) "a.txt" (some (.file (asBytes "x"))) := by
  have hfailed : (writeFile unsyncable ⟨7⟩ "a.txt" "x" fun _ => none).1 = .failed .ioFailure := by
    decide +kernel
  have hwritten : (writeFile unsyncable ⟨7⟩ "a.txt" "x" fun _ => none).2 "a.txt" =
      some (.file [120]) := by decide +kernel
  have hspec := write_all_or_nothing (rfl : unsyncable.unlink = none)
    (by decide +kernel : writeFileRejected "a.txt" "x" = false) ⟨7⟩ fun _ => none
  rcases hwrite : writeFile unsyncable ⟨7⟩ "a.txt" "x" fun _ => none with ⟨result, after⟩
  rw [hwrite] at hfailed hwritten hspec
  obtain rfl : result = .failed .ioFailure := hfailed
  rcases hspec with rfl | ⟨-, hafter⟩
  · cases hwritten
  · exact ⟨rfl, hafter⟩

/-! ## What the reports do not say -/

/-- A report of a write says that the target is written, a report of a failure that it is not, and in
either case there is no temporary file. -/
def ReportsAll (faults : Faults) (id : ToolCallId) (basename content : String) (before : Workspace) :
    Prop :=
  (∀ n, (writeFile faults id basename content before).1 = .written n →
      (writeFile faults id basename content before).2 basename = some (.file (asBytes content))) ∧
    (∀ code, (writeFile faults id basename content before).1 = .failed code →
      (writeFile faults id basename content before).2 basename = before basename) ∧
    (writeFile faults id basename content before).2 (tempName id) = none

/-- The directory cannot be synced after the rename; a file has the temporary name already; the target
has it. -/
theorem write_not_all_or_nothing :
    ¬ ReportsAll unsyncable ⟨7⟩ "a.txt" "x" (fun _ => none) ∧
      ¬ ReportsAll Faults.none ⟨7⟩ "a.txt" "x"
        (fun name => if name = tempName ⟨7⟩ then some (.file []) else none) ∧
      ¬ ReportsAll Faults.none ⟨7⟩ (tempName ⟨7⟩) "x" (fun _ => none) ∧
      writeFileRejected "a.txt" "x" = false ∧ writeFileRejected (tempName ⟨7⟩) "x" = false := by
  refine ⟨fun h => ?_, fun h => ?_, fun h => ?_, by decide +kernel, by decide +kernel⟩
  · have hfailed : (writeFile unsyncable ⟨7⟩ "a.txt" "x" fun _ => none).1 = .failed .ioFailure := by
      decide +kernel
    have hwritten : (writeFile unsyncable ⟨7⟩ "a.txt" "x" fun _ => none).2 "a.txt" =
        some (.file [120]) := by decide +kernel
    have hsame := h.2.1 _ hfailed
    rw [hwritten] at hsame
    cases hsame
  · have hleft : (writeFile Faults.none ⟨7⟩ "a.txt" "x"
        (fun name => if name = tempName ⟨7⟩ then some (.file []) else none)).2 (tempName ⟨7⟩) =
          some (.file []) := by decide +kernel
    have hnone := h.2.2
    rw [hleft] at hnone
    cases hnone
  · have hleft : (writeFile Faults.none ⟨7⟩ (tempName ⟨7⟩) "x" fun _ => none).2 (tempName ⟨7⟩) =
        some (.file [120]) := by decide +kernel
    have hnone := h.2.2
    rw [hleft] at hnone
    cases hnone

end LocalAgent
