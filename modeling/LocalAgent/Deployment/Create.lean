import LocalAgent.Deployment.Restore
import LocalAgent.Lib.JsonText

/-!
# Creating a backup (`agent-deployment/src/lib.rs:1127-1168, 1340-1362`)

The online copy of SQLite is one call, which may fail half-way; what it leaves beside the two files
is not followed. The fingerprint of the configuration is a parameter.

Main theorem: `createBackup_elsewhere` (nothing but the backup and the lock is written).
-/
namespace LocalAgent.Deployment

open Program JsonText

/-! ## The manifest as it is written -/

/-- What a manifest says besides the fields that a restore reads. -/
structure ManifestIdentity where
  createdUnixSeconds : Nat
  deploymentFingerprint : String
  compatibilityVersion : Nat
  buildIdentity : String
  gitIdentity : Option String

def numberText (n : Nat) : List Char := (toString n).toList

def stringsText (depth : Nat) (values : List String) : List Char := prettyArray depth (values.map quote)

/-- `CompatibilityManifestV1` under `serde_json::to_vec_pretty`, as the value of a member. -/
def CompatibilityManifestV1.text (compatibility : CompatibilityManifestV1) (identity : ManifestIdentity) :
    List Char :=
  prettyObject 1 [
    ("version", numberText identity.compatibilityVersion),
    ("build_identity", quote identity.buildIdentity),
    ("git_identity", identity.gitIdentity.elim "null".toList quote),
    ("store_schema_version", numberText compatibility.storeSchemaVersion),
    ("event_schema_version", numberText compatibility.eventSchemaVersion),
    ("checkpoint_schema_version", numberText compatibility.checkpointSchemaVersion),
    ("workflow_contracts", stringsText 2 compatibility.workflowContracts),
    ("graph_digests", stringsText 2 compatibility.graphDigests),
    ("capsule_version", numberText compatibility.capsuleVersion),
    ("tool_contract_digests", stringsText 2 compatibility.toolContractDigests),
    ("seal_key_ids", stringsText 2 compatibility.sealKeyIds),
    ("workspace_bindings", stringsText 2 compatibility.workspaceBindings),
    ("mcp_fingerprints", stringsText 2 compatibility.mcpFingerprints),
    ("containment_protocol_version", numberText compatibility.containmentProtocolVersion),
    ("containment_artifacts", stringsText 2 compatibility.containmentArtifacts)]

/-- `serde_json::to_vec_pretty` of a `BackupManifestV1`. -/
def BackupManifestV1.text (manifest : BackupManifestV1) (identity : ManifestIdentity) : List Char :=
  prettyObject 0 [
    ("version", numberText manifest.version),
    ("created_unix_seconds", numberText identity.createdUnixSeconds),
    ("deployment_fingerprint", quote identity.deploymentFingerprint),
    ("database_file", quote manifest.databaseFile),
    ("database_sha256", quote manifest.databaseSha256),
    ("audit_file", quote manifest.auditFile),
    ("audit_sha256", quote manifest.auditSha256),
    ("compatibility", manifest.compatibility.text identity)]

/-- The manifest of a backup with these digests. -/
def backupManifest (databaseSha256 auditSha256 : String) (compatibility : CompatibilityManifestV1) :
    BackupManifestV1 :=
  ⟨backupManifestVersion, "store.sqlite3", databaseSha256, "audit.jsonl", auditSha256, compatibility⟩

/-! ## The calls -/

inductive BackupCall where
  | fs (call : FsCall)
  | createDir (path : PathBuf)
  /-- Both connections, the checks on the source and the online copy (`backup_store`). -/
  | backupInto (source temporary : PathBuf)
  | rename (path target : PathBuf)
  | writeAll (path : PathBuf) (bytes : List UInt8)
  | removeDirAll (path : PathBuf)
  | unixSeconds

@[reducible] def BackupAnswer : BackupCall → Type
  | .fs call => FsAnswer call
  | .unixSeconds => Nat
  | _ => Bool

/-- How the file system may answer. What is written half-way is a part, of a database any bytes. -/
def backupSystem (readers : Readers) : Environment BackupAnswer Disk := fun disk r a disk' =>
  match r, a with
  | .fs call, a => fileSystem readers disk call a disk'
  | .createDir path, (a : Bool) =>
    if a then disk path = none ∧ disk' = Function.update disk path (some .directory) else disk' = disk
  | .backupInto _ temporary, (a : Bool) =>
    (∀ p, p ≠ temporary → disk' p = disk p) ∧
      (a = true → ∃ bytes, disk' temporary = some (.file bytes))
  | .rename path target, (a : Bool) =>
    if a then disk' = Function.update (Function.update disk path none) target (disk path)
    else disk' = disk
  | .writeAll path bytes, (a : Bool) => ∃ written : List UInt8,
    (if a then written = bytes else written <+: bytes)
      ∧ disk' = Function.update disk path (some (.file written))
  | .removeDirAll path, _ => ∀ p, ¬ path <+: p → disk' p = disk p
  | .unixSeconds, _ => disk' = disk

/-! ## The command -/

abbrev BackupM := Task BackupAnswer DeploymentConfigError Unit

def call (r : BackupCall) : BackupM (BackupAnswer r) := Task.ask r

/-- A command on the file system. -/
def onFs {α : Type} (m : FsM α) : BackupM α := fun s => (m s).lift .fs fun _ a => a

section Commands

variable (readers : Readers)

/-- `SqliteStoreAdmin::backup_to` (agent-persistence-sqlite/src/lib.rs:87, 128). -/
def backupTo (source destination temporary parent : PathBuf) : BackupM StoreInspection := do
  if !destination.isAbsolute then Task.fail .backupInvalid
  else if ← call (.fs (.exists destination)) then Task.fail .backupInvalid
  else do
    onFs (orFail (← call (.fs (.isDir parent))) .backupInvalid)
    if ← call (.fs (.exists temporary)) then Task.fail .backupInvalid
    else do
      let copied : BackupM StoreInspection := do
        onFs (orFail (← call (.backupInto source temporary)) .backupInvalid)
        onFs (orFail (← call (.fs (.setPermissions temporary))) .backupInvalid)
        onFs (orFail (← call (.fs (.syncAll temporary))) .backupInvalid)
        onFs (orFail (← call (.rename temporary destination)) .backupInvalid)
        onFs (orFail (← call (.fs (.syncAll parent))) .backupInvalid)
        onFs (inspectPath destination)
      match ← copied.attempt with
      | .error e => do
        let _ ← call (.fs (.removeFile temporary))
        Task.fail e
      | .ok inspection => pure inspection

/-- `write_manifest` (lib.rs:1340). -/
def writeManifest (directory : PathBuf) (bytes : List UInt8) : BackupM Unit := do
  let path := directory.join "manifest.json"
  onFs (orFail (← call (.fs (.createNew path))) .backupInvalid)
  onFs (orFail (← call (.fs (.setPermissions path))) .backupInvalid)
  onFs (orFail (← call (.writeAll path bytes)) .backupInvalid)
  onFs (orFail (← call (.fs (.syncAll path))) .backupInvalid)
  onFs (orFail (← call (.fs (.open directory))) .backupInvalid)
  onFs (orFail (← call (.fs (.syncAll directory))) .backupInvalid)

/-- The `async` block of `create_backup` (lib.rs:1142-1163). -/
def fillBackup (fingerprint : Except DeploymentConfigError String) (config : DeploymentConfigV2)
    (destination : PathBuf) (compatibilityVersion : Nat) (buildIdentity : String)
    (gitIdentity : Option String) (compatibility : CompatibilityManifestV1) :
    BackupM (BackupManifestV1 × ManifestIdentity) := do
  let database := destination.join "store.sqlite3"
  let audit := destination.join "audit.jsonl"
  let trusted ← call (.fs (.isFile config.storage.databasePath))
  if !config.storage.databasePath.isAbsolute || !trusted then Task.fail .backupInvalid
  else do
    let inspection ← backupTo config.storage.databasePath database (destination.join "store.partial")
      destination
    Task.ofExcept (validateInspection inspection compatibility)
    onFs (copyQuiesced config.storage.auditPath audit)
    let seconds ← call .unixSeconds
    let fingerprint ← Task.ofExcept fingerprint
    let auditSha256 ← onFs (fileSha256 readers audit)
    let manifest := backupManifest inspection.sha256 auditSha256 compatibility
    let identity : ManifestIdentity :=
      ⟨seconds, fingerprint, compatibilityVersion, buildIdentity, gitIdentity⟩
    writeManifest destination (utf8Bytes (manifest.text identity))
    pure (manifest, identity)

/-- `create_backup` (lib.rs:1127). -/
def createBackup (fingerprint : Except DeploymentConfigError String) (config : DeploymentConfigV2)
    (destination : PathBuf) (compatibilityVersion : Nat) (buildIdentity : String)
    (gitIdentity : Option String) (compatibility : CompatibilityManifestV1) :
    BackupM (BackupManifestV1 × ManifestIdentity) := do
  Task.ofExcept config.validate
  if !destination.isAbsolute then Task.fail .backupInvalid
  else if ← call (.fs (.exists destination)) then Task.fail .backupInvalid
  else do
    onFs (acquireLock config.storage.dataDirectory)
    onFs (orFail (← call (.createDir destination)) .backupInvalid)
    onFs (orFail (← call (.fs (.setPermissions destination))) .backupInvalid)
    match ← (fillBackup readers fingerprint config destination compatibilityVersion buildIdentity
      gitIdentity compatibility).attempt with
    | .error e => do
      let _ ← call (.removeDirAll destination)
      Task.fail e
    | .ok backup => pure backup

end Commands

/-! ## What a backup leaves alone -/

/-- The call cannot change what lies under the path. -/
def BackupCall.spares : BackupCall → PathBuf → Prop
  | .fs call, p => call.spares p
  | .createDir path, p | .backupInto _ path, p | .writeAll path _, p => path ≠ p
  | .rename path target, p => path ≠ p ∧ target ≠ p
  | .removeDirAll path, p => ¬ path <+: p
  | .unixSeconds, _ => True

theorem backupSystem_spares {readers : Readers} {p : PathBuf} {disk disk' : Disk} {r : BackupCall}
    {a : BackupAnswer r} (h : backupSystem readers disk r a disk') (hp : r.spares p) :
    disk' p = disk p := by
  cases r with
  | fs call => exact fileSystem_spares h hp
  | createDir path =>
    change if a then _ else _ at h
    split at h
    · rw [h.2]
      exact Function.update_of_ne (Ne.symm hp) _ _
    · rw [h]
  | backupInto source temporary => exact h.1 p (Ne.symm hp)
  | rename path target =>
    change if a then _ else _ at h
    split at h
    · rw [h, Function.update_of_ne (Ne.symm hp.2), Function.update_of_ne (Ne.symm hp.1)]
    · rw [h]
  | writeAll path bytes =>
    obtain ⟨written, -, hdisk⟩ := h
    rw [hdisk]
    exact Function.update_of_ne (Ne.symm hp) _ _
  | removeDirAll path => exact h p hp
  | unixSeconds => rw [show disk' = disk from h]

section Elsewhere

variable {readers : Readers} {p : PathBuf}

theorem onFs_only {P : BackupCall → Prop} {α : Type} {m : FsM α} (h : m.Only fun r => P (.fs r)) :
    (onFs m).Only P := fun s => (h s).lift

theorem orFail_only {P : FsCall → Prop} {done : Bool} {e : DeploymentConfigError} :
    (orFail done e).Only P := .ite .pure .fail

/-- One call of the file system, and an error if it fails. -/
theorem io_only {P : FsCall → Prop} {α : Type} {r : FsCall} {done : FsAnswer r → Bool}
    {e : DeploymentConfigError} {m : FsM α} (hr : P r) (hm : m.Only P) :
    Task.Only P (do orFail (done (← io r)) e; m) :=
  .bind (.ask hr) fun _ => .bind orFail_only fun _ => hm

theorem acquireLock_spares {dir : PathBuf} (hdir : ¬ p <+: dir) (hlock : dir.join "service.lock" ≠ p) :
    (acquireLock dir).Only (·.spares p) := by
  refine .ite .fail ?_
  refine io_only hdir (io_only trivial (io_only trivial (io_only hlock (io_only trivial ?_))))
  exact .bind (.ask trivial) fun _ => orFail_only

theorem copyQuiesced_spares {source destination : PathBuf} (hp : destination ≠ p) :
    (copyQuiesced source destination).Only (·.spares p) := by
  refine .bind (.ask trivial) fun _ => .bind (.ask trivial) fun _ => .ite .fail ?_
  refine io_only trivial (io_only hp (io_only trivial (io_only hp ?_)))
  exact .bind (.ask trivial) fun _ => orFail_only

/-- The same in a backup. -/
theorem call_only {P : BackupCall → Prop} {α : Type} {r : BackupCall} {done : BackupAnswer r → Bool}
    {e : DeploymentConfigError} {m : BackupM α} (hr : P r) (hm : m.Only P) :
    Task.Only P (do onFs (orFail (done (← call r)) e); m) :=
  .bind (.ask hr) fun _ => .bind (onFs_only orFail_only) fun _ => hm

theorem backupTo_spares {source destination temporary parent : PathBuf} (hdestination : destination ≠ p)
    (htemporary : temporary ≠ p) : (backupTo source destination temporary parent).Only (·.spares p) := by
  refine .ite .fail (.bind (.ask trivial) fun _ => .ite .fail (call_only trivial ?_))
  refine .bind (.ask trivial) fun _ => .ite .fail (.bind (.attempt ?_) fun copied => ?_)
  · refine call_only htemporary (call_only trivial (call_only trivial ?_))
    refine call_only ⟨htemporary, hdestination⟩ (call_only trivial (onFs_only ?_))
    refine .bind (.ask trivial) fun found => ?_
    cases found with
    | none => exact .fail
    | some inspection => exact .pure
  · cases copied with
    | error e => exact .bind (.ask htemporary) fun _ => .fail
    | ok inspection => exact .pure

theorem writeManifest_spares {directory : PathBuf} {bytes : List UInt8}
    (hp : directory.join "manifest.json" ≠ p) : (writeManifest directory bytes).Only (·.spares p) := by
  refine call_only hp (call_only trivial (call_only hp (call_only trivial (call_only trivial ?_))))
  exact .bind (.ask trivial) fun _ => onFs_only orFail_only

variable {fingerprint : Except DeploymentConfigError String} {config : DeploymentConfigV2}
  {destination : PathBuf} {compatibilityVersion : Nat} {buildIdentity : String}
  {gitIdentity : Option String} {compatibility : CompatibilityManifestV1}

theorem join_ne_of_outside {name : String} (hout : ¬ destination <+: p) : destination.join name ≠ p := by
  rintro rfl
  exact hout (List.prefix_append _ _)

theorem fillBackup_spares (hout : ¬ destination <+: p) :
    (fillBackup readers fingerprint config destination compatibilityVersion buildIdentity gitIdentity
      compatibility).Only (·.spares p) := by
  refine .bind (.ask trivial) fun _ => .ite .fail ?_
  refine .bind (backupTo_spares (join_ne_of_outside hout) (join_ne_of_outside hout)) fun inspection => ?_
  refine .bind .ofExcept fun _ => ?_
  refine .bind (onFs_only (copyQuiesced_spares (join_ne_of_outside hout))) fun _ => ?_
  refine .bind (.ask trivial) fun seconds => .bind .ofExcept fun fingerprint => ?_
  refine .bind (onFs_only (.bind (.ask trivial) fun bytes => ?_)) fun digest => ?_
  · cases bytes with
    | none => exact .fail
    | some bytes => exact .pure
  · exact .bind (writeManifest_spares (join_ne_of_outside hout)) fun _ => .pure

theorem createBackup_spares (hout : ¬ destination <+: p) (hdata : ¬ p <+: config.storage.dataDirectory)
    (hlock : config.storage.dataDirectory.join "service.lock" ≠ p) :
    (createBackup readers fingerprint config destination compatibilityVersion buildIdentity gitIdentity
      compatibility).Only (·.spares p) := by
  refine .bind .ofExcept fun _ => .ite .fail (.bind (.ask trivial) fun _ => .ite .fail ?_)
  refine .bind (onFs_only (acquireLock_spares hdata hlock)) fun _ => ?_
  have hself : destination ≠ p := by
    rintro rfl
    exact hout (List.prefix_refl _)
  refine call_only hself (call_only trivial (.bind (.attempt (fillBackup_spares hout)) fun filled => ?_))
  cases filled with
  | error e => exact .bind (.ask hout) fun _ => .fail
  | ok backup => exact .pure

/-- **A backup leaves the deployment alone**: whatever the file system answers and wherever the command
stops, nothing changes outside its destination but the lock file and the directories that lead to it. -/
theorem createBackup_elsewhere (disk : Disk) (hout : ¬ destination <+: p)
    (hdata : ¬ p <+: config.storage.dataDirectory)
    (hlock : config.storage.dataDirectory.join "service.lock" ≠ p) :
    Task.wlp (backupSystem readers) (createBackup readers fingerprint config destination
      compatibilityVersion buildIdentity gitIdentity compatibility)
      (fun _ _ disk' => disk' p = disk p) () disk :=
  Prog.Only.wlp (createBackup_spares hout hdata hlock ())
    (fun _ _ _ _ hspares hstep hsame => (backupSystem_spares hstep hspares).trans hsame) rfl

end Elsewhere
end LocalAgent.Deployment
