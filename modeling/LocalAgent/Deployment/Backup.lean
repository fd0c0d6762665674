import LocalAgent.Lib.Dialogue
import LocalAgent.Lib.Text
import Mathlib.Logic.Function.Basic

/-!
# Backups (`agent-deployment/src/lib.rs:250-275, 960-1040, 1163-1390`)

Verifying a backup and restoring it, as programs over the calls to the file system. Each call may
fail, whatever the disk holds. `inspect_path` opens a copy of the database read-only: what it finds
in the bytes is a parameter, and so are the hash and the JSON decoder.

Of the configuration only the storage section is read; the other sections can make `validate` fail,
with the same error. File modes are left out.
-/
namespace LocalAgent.Deployment

open Program

inductive DeploymentConfigError where
  | invalidConfig | configurationUnavailable | secretUnavailable | operationalState | lockUnavailable
  | backupInvalid | incompatibleBackup | restoreTargetNotEmpty
deriving DecidableEq, Repr

/-! ## Paths -/

/-- `std::path::PathBuf`, by its components. -/
abbrev PathBuf := List Text.Component

def PathBuf.isAbsolute (path : PathBuf) : Bool := path.head? = some .rootDir

/-- `Path::join` of a relative path. -/
def PathBuf.join (path : PathBuf) (name : String) : PathBuf := path ++ Text.components name.toList

/-- `require_file_name` (lib.rs:1432). -/
def requireFileName (value : String) : Except DeploymentConfigError Unit :=
  match Text.components value.toList with
  | [.normal _] => if value.utf8ByteSize ≤ 128 then .ok () else .error .invalidConfig
  | _ => .error .invalidConfig

/-! ## Configuration -/

structure StorageConfigV1 where
  dataDirectory : PathBuf
  databaseFile : String
  auditFile : String

def StorageConfigV1.validate (storage : StorageConfigV1) : Except DeploymentConfigError Unit := do
  if !storage.dataDirectory.isAbsolute then .error .invalidConfig
  requireFileName storage.databaseFile
  requireFileName storage.auditFile

def StorageConfigV1.databasePath (storage : StorageConfigV1) : PathBuf :=
  storage.dataDirectory.join storage.databaseFile

def StorageConfigV1.auditPath (storage : StorageConfigV1) : PathBuf :=
  storage.dataDirectory.join storage.auditFile

structure DeploymentConfigV2 where
  storage : StorageConfigV1
  /-- The other sections are valid. -/
  others : Bool

def DeploymentConfigV2.validate (config : DeploymentConfigV2) : Except DeploymentConfigError Unit := do
  if !config.others then .error .invalidConfig
  config.storage.validate

/-! ## Manifests -/

/-- `MAX_DEPLOYMENT_CONFIG_BYTES`. -/
def maxDeploymentConfigBytes : Nat := 64 * 1024

/-- `BACKUP_MANIFEST_VERSION`. -/
def backupManifestVersion : Nat := 1

structure CompatibilityManifestV1 where
  storeSchemaVersion : Nat
  eventSchemaVersion : Nat
  checkpointSchemaVersion : Nat
  workflowContracts : List String
  graphDigests : List String
  capsuleVersion : Nat
  toolContractDigests : List String
  sealKeyIds : List String
  /-- As texts, which is how they are compared. -/
  workspaceBindings : List String
  mcpFingerprints : List String
  containmentProtocolVersion : Nat
  containmentArtifacts : List String
deriving DecidableEq, Repr

/-- `compatible_with` (lib.rs:985) reads every field that is kept here. -/
def CompatibilityManifestV1.compatibleWith (manifest other : CompatibilityManifestV1) : Bool :=
  manifest = other

structure BackupManifestV1 where
  version : Nat
  databaseFile : String
  databaseSha256 : String
  auditFile : String
  auditSha256 : String
  compatibility : CompatibilityManifestV1
deriving DecidableEq, Repr

structure StoreInspection where
  storeSchemaVersion : Nat
  eventSchemaVersions : List Nat
  checkpointSchemaVersions : List Nat
  recoveryContracts : List String
  capsuleVersions : List Nat
  sealKeyIds : List String
  workspaceBindings : List String
  toolContractDigests : List String
  sha256 : String
deriving DecidableEq, Repr

/-- `value.split_once(':').map(|(_, contract)| contract)`. -/
def afterColon (value : String) : Option String :=
  match value.toList.dropWhile (· ≠ ':') with
  | [] => none
  | _ :: rest => some (String.ofList rest)

/-- `validate_inspection` (lib.rs:1273). -/
def validateInspection (inspection : StoreInspection) (expected : CompatibilityManifestV1) :
    Except DeploymentConfigError Unit :=
  let supportedContracts := expected.workflowContracts.filterMap afterColon
  if inspection.storeSchemaVersion ≠ expected.storeSchemaVersion
      || inspection.eventSchemaVersions.any (· ≠ expected.eventSchemaVersion)
      || inspection.checkpointSchemaVersions.any (· ≠ expected.checkpointSchemaVersion)
      || inspection.recoveryContracts.any (!supportedContracts.contains ·)
      || inspection.capsuleVersions.any (· ≠ expected.capsuleVersion)
      || inspection.sealKeyIds.any (!expected.sealKeyIds.contains ·)
      || inspection.workspaceBindings.any (!expected.workspaceBindings.contains ·)
      || inspection.toolContractDigests.any (!expected.toolContractDigests.contains ·) then
    .error .incompatibleBackup
  else .ok ()

/-! ## The file system -/

inductive FsCall where
  | createDirAll (path : PathBuf)
  /-- `symlink_metadata` says that it is a directory of the effective user. -/
  | ownedDirectory (path : PathBuf)
  | setPermissions (path : PathBuf)
  /-- `OpenOptions` with `create(true).truncate(false)`. -/
  | openOrCreate (path : PathBuf)
  | flock (path : PathBuf)
  | exists (path : PathBuf)
  | isDir (path : PathBuf)
  /-- `symlink_metadata(..).is_ok_and(|metadata| metadata.file_type().is_file())`. -/
  | isFile (path : PathBuf)
  | read (path : PathBuf)
  | open (path : PathBuf)
  | createNew (path : PathBuf)
  /-- `std::io::copy` between two open files. -/
  | copy (input output : PathBuf)
  | syncAll (path : PathBuf)
  | removeFile (path : PathBuf)
  /-- `SqliteStoreAdmin::inspect_path`. -/
  | inspectPath (path : PathBuf)
deriving DecidableEq

/-- A call says whether it was done, the two that read also what they found. -/
@[reducible] def FsAnswer : FsCall → Type
  | .read _ => Option (List UInt8)
  | .inspectPath _ => Option StoreInspection
  | _ => Bool

/-- What is under a path. Links and devices are neither files nor directories. -/
inductive Node where
  | file (bytes : List UInt8)
  | directory
  | other

abbrev Disk := PathBuf → Option Node

/-- Foreign code that reads bytes. -/
structure Readers where
  inspect : List UInt8 → Option StoreInspection
  /-- The digest in hexadecimal digits. -/
  sha256 : List UInt8 → String
  manifest : List UInt8 → Option BackupManifestV1

/-- How the file system may answer. A copy that fails has written a part. -/
def fileSystem (readers : Readers) : Environment FsAnswer Disk := fun disk r a disk' =>
  match r, a with
  | .createDirAll path, (a : Bool) =>
    (∀ p, ¬ p <+: path → disk' p = disk p) ∧ (∀ p, disk p ≠ none → disk' p = disk p)
      ∧ (a = true → disk' path ≠ none)
  | .openOrCreate path, (a : Bool) =>
    if a then disk' = (match disk path with
      | none => Function.update disk path (some (.file []))
      | some _ => disk)
    else disk' = disk
  | .createNew path, (a : Bool) =>
    if a then disk path = none ∧ disk' = Function.update disk path (some (.file [])) else disk' = disk
  | .copy input output, (a : Bool) => ∃ bytes written : List UInt8,
    disk input = some (.file bytes) ∧ (if a then written = bytes else written <+: bytes)
      ∧ disk' = Function.update disk output (some (.file written))
  | .removeFile path, (a : Bool) =>
    if a then disk path ≠ none ∧ disk' = Function.update disk path none else disk' = disk
  | .ownedDirectory path, (a : Bool) | .isDir path, (a : Bool) =>
    disk' = disk ∧ (a = true → disk path ≠ none)
  | .exists path, (a : Bool) => disk' = disk ∧ (a = true → disk path ≠ none)
  | .isFile path, (a : Bool) | .open path, (a : Bool) =>
    disk' = disk ∧ (a = true → ∃ bytes, disk path = some (.file bytes))
  | .read path, (a : Option (List UInt8)) =>
    disk' = disk ∧ ∀ bytes ∈ a, disk path = some (.file bytes)
  | .inspectPath path, (a : Option StoreInspection) =>
    disk' = disk ∧ ∀ found ∈ a, ∃ bytes, disk path = some (.file bytes) ∧ readers.inspect bytes = some found
  | .setPermissions _, _ | .flock _, _ | .syncAll _, _ => disk' = disk

/-! ## The commands -/

abbrev FsM := Task FsAnswer DeploymentConfigError Unit

/-- One call. -/
def io (r : FsCall) : FsM (FsAnswer r) := Task.ask r

/-- `map_err(..)?` after a call. -/
def orFail (done : Bool) (e : DeploymentConfigError) : FsM Unit :=
  if done then pure () else Task.fail e

section Commands

variable (readers : Readers)

/-- `DeploymentLock::acquire` (lib.rs:1019). -/
def acquireLock (dataDirectory : PathBuf) : FsM Unit :=
  if !dataDirectory.isAbsolute then Task.fail .invalidConfig
  else do
    let lock := dataDirectory.join "service.lock"
    orFail (← io (.createDirAll dataDirectory)) .configurationUnavailable
    orFail (← io (.ownedDirectory dataDirectory)) .configurationUnavailable
    orFail (← io (.setPermissions dataDirectory)) .configurationUnavailable
    orFail (← io (.openOrCreate lock)) .configurationUnavailable
    orFail (← io (.setPermissions lock)) .configurationUnavailable
    orFail (← io (.flock lock)) .lockUnavailable

/-- `read_manifest` (lib.rs:1364). -/
def readManifest (directory : PathBuf) : FsM BackupManifestV1 :=
  if !directory.isAbsolute then Task.fail .backupInvalid
  else do
    orFail (← io (.isDir directory)) .backupInvalid
    match ← io (.read (directory.join "manifest.json")) with
    | none => Task.fail .backupInvalid
    | some bytes =>
      if bytes.length > maxDeploymentConfigBytes then Task.fail .backupInvalid
      else match readers.manifest bytes with
        | none => Task.fail .backupInvalid
        | some manifest => pure manifest

/-- `file_sha256` (lib.rs:1376). -/
def fileSha256 (path : PathBuf) : FsM String := do
  match ← io (.read path) with
  | none => Task.fail .backupInvalid
  | some bytes => pure (readers.sha256 bytes)

/-- `SqliteStoreAdmin::inspect_path(..).await.map_err(..)?`. -/
def inspectPath (path : PathBuf) : FsM StoreInspection := do
  match ← io (.inspectPath path) with
  | none => Task.fail .backupInvalid
  | some inspection => pure inspection

/-- `verify_backup` (lib.rs:1170). -/
def verifyBackup (source : PathBuf) (expected : CompatibilityManifestV1) : FsM BackupManifestV1 := do
  let manifest ← readManifest readers source
  if manifest.version ≠ backupManifestVersion || !manifest.compatibility.compatibleWith expected
      || !(requireFileName manifest.databaseFile).isOk || !(requireFileName manifest.auditFile).isOk then
    Task.fail .incompatibleBackup
  else do
    let inspection ← inspectPath (source.join manifest.databaseFile)
    if inspection.sha256 ≠ manifest.databaseSha256 then Task.fail .backupInvalid
    else do
      let digest ← fileSha256 readers (source.join manifest.auditFile)
      if digest ≠ manifest.auditSha256 then Task.fail .backupInvalid
      else do
        Task.ofExcept (validateInspection inspection expected)
        pure manifest

/-- `copy_quiesced` (lib.rs:1319). -/
def copyQuiesced (source destination : PathBuf) : FsM Unit := do
  let trusted ← io (.isFile source)
  let existing ← io (.exists destination)
  if existing || !trusted then Task.fail .backupInvalid
  else do
    orFail (← io (.open source)) .backupInvalid
    orFail (← io (.createNew destination)) .backupInvalid
    orFail (← io (.setPermissions destination)) .backupInvalid
    orFail (← io (.copy source destination)) .backupInvalid
    orFail (← io (.syncAll destination)) .backupInvalid

/-- `restore_backup` (lib.rs:1197). -/
def restoreBackup (config : DeploymentConfigV2) (source : PathBuf) (expected : CompatibilityManifestV1) :
    FsM Unit := do
  Task.ofExcept config.validate
  acquireLock config.storage.dataDirectory
  if ← io (.exists config.storage.databasePath) then Task.fail .restoreTargetNotEmpty
  else if ← io (.exists config.storage.auditPath) then Task.fail .restoreTargetNotEmpty
  else do
    let manifest ← verifyBackup readers source expected
    copyQuiesced (source.join manifest.databaseFile) config.storage.databasePath
    match ← (copyQuiesced (source.join manifest.auditFile) config.storage.auditPath).attempt with
    | .error e => do
      let _ ← io (.removeFile config.storage.databasePath)
      Task.fail e
    | .ok _ => do
      let inspection ← inspectPath config.storage.databasePath
      match validateInspection inspection expected with
      | .error _ => do
        let _ ← io (.removeFile config.storage.databasePath)
        let _ ← io (.removeFile config.storage.auditPath)
        Task.fail .incompatibleBackup
      | .ok _ => pure ()

end Commands
end LocalAgent.Deployment
