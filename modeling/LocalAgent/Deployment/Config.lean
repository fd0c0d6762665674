import LocalAgent.Deployment.Backup
import LocalAgent.Harness.Seal

/-!
# The configuration and its consumers (`agent-deployment/src/lib.rs:95-545`, `:1399-1469`)

`validate` looks at every section of the configuration. What it accepts is handed to constructors that
have rules of their own: the sealer of approved actions, the principals and the Unix peers. For the
principals the two agree. A key id of the sealer is checked as any text, and the names of the two files are
checked one by one, so that one file can be the other, or the lock (`usable_iff`).

`Backup.lean` reads the storage section only. Parsing of URLs and addresses is a parameter; fields that
nothing here reads are left out.
-/
namespace LocalAgent.Deployment.Config

/-! ## Checks on values -/

/-- `MAX_TEXT_BYTES`. -/
def maxTextBytes : Nat := 1024

/-- `MAX_LIST_ITEMS`. -/
def maxListItems : Nat := 32

/-- `MAX_MCP_SERVERS`. -/
def maxMcpServers : Nat := 16

/-- `DEPLOYMENT_CONFIG_SCHEMA_VERSION`. -/
def deploymentConfigSchemaVersion : Nat := 2

/-- `LOCAL_WRITE_PROTOCOL_VERSION`. -/
def localWriteProtocolVersion : Nat := 1

/-- `then_some(()).ok_or(DeploymentConfigError::InvalidConfig)`. -/
def require (accepted : Bool) : Except DeploymentConfigError Unit :=
  if accepted then .ok () else .error .invalidConfig

def requireAbsolute (path : PathBuf) : Except DeploymentConfigError Unit := require path.isAbsolute

def requireSha256 (value : String) : Except DeploymentConfigError Unit :=
  require (value.utf8ByteSize = 64 && value.toList.all fun c => c.isDigit
    || ('a' ≤ c && c ≤ 'f') || ('A' ≤ c && c ≤ 'F'))

/-- `bounded_text` (lib.rs:1449). -/
def boundedText (value : String) : Except DeploymentConfigError Unit :=
  require (!value.isEmpty && value.utf8ByteSize ≤ maxTextBytes && !value.toList.any Text.isControl)

def boundedDuration (value : Nat) : Except DeploymentConfigError Unit :=
  require (value > 0 && value ≤ 120000)

def validNonemptyList (values : List String) : Bool :=
  !values.isEmpty && values.length ≤ maxListItems && values.all fun value => (boundedText value).isOk

/-- `valid_environment_name`: a digit is not the first. -/
def validEnvironmentName (value : String) : Bool :=
  !value.isEmpty && value.utf8ByteSize ≤ 128
    && value.toList.zipIdx.all fun c => c.1 = '_' || c.1.isAlpha || (c.2 > 0 && c.1.isDigit)

/-- `Url::parse` with its scheme and host, and the two address parsers with `is_loopback`. -/
structure Parsers where
  url : String → Option (String × Option String)
  socketAddr : String → Option Bool
  ipAddr : String → Option Bool

def validateHttpUrl (parsers : Parsers) (value : String) : Except DeploymentConfigError Unit :=
  match parsers.url value with
  | none => .error .invalidConfig
  | some (scheme, _) => require (scheme = "http" || scheme = "https")

/-! ## Sections -/

structure SecretReferenceV1 where
  file : PathBuf

def SecretReferenceV1.validate (secret : SecretReferenceV1) : Except DeploymentConfigError Unit :=
  requireAbsolute secret.file

structure EnvironmentEntryV1 where
  name : String
  literal : Option String
  secret : Option SecretReferenceV1

def EnvironmentEntryV1.validate (entry : EnvironmentEntryV1) : Except DeploymentConfigError Unit := do
  require (validEnvironmentName entry.name && entry.literal.isSome ≠ entry.secret.isSome)
  entry.literal.forM boundedText
  entry.secret.forM SecretReferenceV1.validate

/-- `validate_process` (lib.rs:1399). -/
def validateProcess (executable : PathBuf) (arguments : List String) (environment : List EnvironmentEntryV1) :
    Except DeploymentConfigError Unit := do
  requireAbsolute executable
  require (arguments.length ≤ maxListItems && environment.length ≤ maxListItems)
  arguments.forM boundedText
  environment.forM EnvironmentEntryV1.validate

inductive ListenerConfigV1 where
  | unix (socketPath : PathBuf)
  | loopbackTcp (address : String) (bearer : SecretReferenceV1) (allowedHosts allowedOrigins : List String)

def ListenerConfigV1.validate (parsers : Parsers) : ListenerConfigV1 → Except DeploymentConfigError Unit
  | .unix socketPath => requireAbsolute socketPath
  | .loopbackTcp address bearer allowedHosts allowedOrigins => do
    require (parsers.socketAddr address = some true && validNonemptyList allowedHosts
      && validNonemptyList allowedOrigins && !(allowedHosts ++ allowedOrigins).any (· = "*"))
    bearer.validate

inductive PrincipalKind where
  | human | service | localProcess
deriving DecidableEq, Repr

inductive PrincipalRole where
  | user | approver | operator
deriving DecidableEq, Repr

/-- `MAX_PRINCIPAL_ROLES`. -/
def maxPrincipalRoles : Nat := 3

structure PrincipalConfigV1 where
  principalId : PrincipalId
  kind : PrincipalKind
  roles : List PrincipalRole
  unixUid : Option UInt32
  unixGid : Option UInt32
  loopbackBearer : Bool

/-- `unix_uid.zip(unix_gid)`. -/
def PrincipalConfigV1.unixPeer (principal : PrincipalConfigV1) : Option (UInt32 × UInt32) :=
  principal.unixUid.bind fun uid => principal.unixGid.map fun gid => (uid, gid)

/-- `items.iter().enumerate().any(|(index, item)| items[..index]...any(..))`, after the earlier items. -/
def repeats {α : Type} (same : α → α → Bool) : List α → List α → Bool
  | _, [] => false
  | earlier, item :: rest => earlier.any (same · item) || repeats same (earlier ++ [item]) rest

def PrincipalConfigV1.validate (principal : PrincipalConfigV1) : Except DeploymentConfigError Unit :=
  if principal.roles.isEmpty || principal.roles.length > maxPrincipalRoles
      || repeats (fun a b => a = b) [] principal.roles
      || principal.unixUid.isSome ≠ principal.unixGid.isSome then .error .invalidConfig
  else .ok ()

structure IdentityConfigV1 where
  policyVersion : Nat
  principals : List PrincipalConfigV1

/-- Two entries that may not both be there. -/
def PrincipalConfigV1.clashes (existing principal : PrincipalConfigV1) : Bool :=
  existing.principalId = principal.principalId
    || (principal.unixPeer.isSome && existing.unixPeer = principal.unixPeer)

/-- The loop over the principals (lib.rs:144-155), after the earlier ones. -/
def validatePrincipals : List PrincipalConfigV1 → List PrincipalConfigV1 → Except DeploymentConfigError Unit
  | _, [] => .ok ()
  | earlier, principal :: rest => do
    principal.validate
    require !earlier.any (·.clashes principal)
    validatePrincipals (earlier ++ [principal]) rest

def IdentityConfigV1.validate (identity : IdentityConfigV1) (listener : ListenerConfigV1) :
    Except DeploymentConfigError Unit := do
  require !(identity.policyVersion = 0 || identity.principals.isEmpty || identity.principals.length > 32)
  validatePrincipals [] identity.principals
  match listener with
  | .unix _ => require (identity.principals.any fun p => p.unixUid.isSome && p.unixGid.isSome)
  | .loopbackTcp .. => require ((identity.principals.filter (·.loopbackBearer)).length = 1)

structure WorkflowConfigV1 where
  readonlyEnabled : Bool
  localWriteEnabled : Bool

inductive ModelAuthConfigV1 where
  | bearer (credential : SecretReferenceV1)
  | noAuthLoopback

structure ModelConfigV1 where
  baseUrl : String
  modelId : String
  providerLabel : String
  auth : ModelAuthConfigV1
  readinessTimeoutMs : Nat

def ModelConfigV1.validate (parsers : Parsers) (model : ModelConfigV1) :
    Except DeploymentConfigError Unit := do
  boundedText model.modelId
  boundedText model.providerLabel
  boundedDuration model.readinessTimeoutMs
  validateHttpUrl parsers model.baseUrl
  match model.auth with
  | .bearer credential => credential.validate
  | .noAuthLoopback =>
    require (((parsers.url model.baseUrl).bind Prod.snd).any fun host =>
      host = "localhost" || parsers.ipAddr host = some true)

inductive KnowledgeConfigV1 where
  | ocpp (baseUrl readinessQuery : String)
  | standards (executable : PathBuf) (arguments : List String) (environment : List EnvironmentEntryV1)
      (readinessQuery : String)
  | federated (ocppBaseUrl : String) (standardsExecutable : PathBuf) (standardsArguments : List String)
      (standardsEnvironment : List EnvironmentEntryV1) (readinessQuery : String)

def KnowledgeConfigV1.validate (parsers : Parsers) : KnowledgeConfigV1 → Except DeploymentConfigError Unit
  | .ocpp baseUrl readinessQuery => do
    validateHttpUrl parsers baseUrl
    boundedText readinessQuery
  | .standards executable arguments environment readinessQuery => do
    validateProcess executable arguments environment
    boundedText readinessQuery
  | .federated ocppBaseUrl executable arguments environment readinessQuery => do
    validateHttpUrl parsers ocppBaseUrl
    validateProcess executable arguments environment
    boundedText readinessQuery

structure McpServerConfigV1 where
  serverId : String
  executable : PathBuf
  arguments : List String
  environment : List EnvironmentEntryV1
  protocolRevision : String
  definitionFingerprint : String

def McpServerConfigV1.validate (server : McpServerConfigV1) : Except DeploymentConfigError Unit := do
  boundedText server.serverId
  boundedText server.protocolRevision
  requireSha256 server.definitionFingerprint
  validateProcess server.executable server.arguments server.environment

structure LocalWriteConfigV1 where
  workspace : PathBuf
  sealKeyId : String
  sealKey : SecretReferenceV1
  bwrapPath : PathBuf
  bwrapSha256 : String
  workerPath : PathBuf
  workerSha256 : String
  workerProtocolVersion : Nat
  toolContractSha256 : String

def LocalWriteConfigV1.validate (localWrite : LocalWriteConfigV1) : Except DeploymentConfigError Unit := do
  requireAbsolute localWrite.workspace
  requireAbsolute localWrite.bwrapPath
  requireAbsolute localWrite.workerPath
  boundedText localWrite.sealKeyId
  localWrite.sealKey.validate
  requireSha256 localWrite.bwrapSha256
  requireSha256 localWrite.workerSha256
  require (localWrite.workerProtocolVersion = localWriteProtocolVersion)
  requireSha256 localWrite.toolContractSha256

structure OperationalLimitsV1 where
  maxActiveRuns : Nat
  maxConnections : Nat
  shutdownGraceSeconds : Nat
  readinessCacheSeconds : Nat

def OperationalLimitsV1.validate (limits : OperationalLimitsV1) : Except DeploymentConfigError Unit :=
  if limits.maxActiveRuns = 0 || limits.maxActiveRuns > 32 || limits.maxConnections = 0
      || limits.maxConnections > 64 || limits.shutdownGraceSeconds = 0
      || limits.shutdownGraceSeconds > 300 || limits.readinessCacheSeconds = 0
      || limits.readinessCacheSeconds > 300 then .error .invalidConfig
  else .ok ()

/-- All sections, where `Deployment.DeploymentConfigV2` has what a backup reads. -/
structure DeploymentConfigV2 where
  schemaVersion : Nat
  listener : ListenerConfigV1
  identity : IdentityConfigV1
  storage : StorageConfigV1
  workflows : WorkflowConfigV1
  model : ModelConfigV1
  knowledge : KnowledgeConfigV1
  mcp : List McpServerConfigV1
  localWrite : Option LocalWriteConfigV1
  limits : OperationalLimitsV1

/-- `DeploymentConfigV2::validate` (lib.rs:95). -/
def DeploymentConfigV2.validate (parsers : Parsers) (config : DeploymentConfigV2) : Except DeploymentConfigError Unit := do
  require !(config.schemaVersion ≠ deploymentConfigSchemaVersion || config.mcp.length > maxMcpServers
    || !config.workflows.readonlyEnabled
    || config.workflows.localWriteEnabled ≠ config.localWrite.isSome)
  config.listener.validate parsers
  config.identity.validate config.listener
  config.storage.validate
  config.model.validate parsers
  config.knowledge.validate parsers
  config.limits.validate
  config.mcp.forM McpServerConfigV1.validate
  config.localWrite.forM LocalWriteConfigV1.validate

/-! ## Consumers -/

inductive AuthenticationClass where
  | unixPeer | loopbackBearer
deriving DecidableEq, Repr

/-- `IdentityError::InvalidPrincipal`. -/
inductive IdentityError where
  | invalidPrincipal
deriving DecidableEq, Repr

structure VerifiedPrincipal where
  id : PrincipalId
  kind : PrincipalKind
  roles : List PrincipalRole
  authenticationClass : AuthenticationClass
deriving DecidableEq, Repr

/-- `VerifiedPrincipal::new` (agent-identity/src/lib.rs:47). The roles are collected into a set. -/
def VerifiedPrincipal.new (id : PrincipalId) (kind : PrincipalKind) (roles : List PrincipalRole)
    (authenticationClass : AuthenticationClass) : Except IdentityError VerifiedPrincipal :=
  if roles.dedup.isEmpty || roles.dedup.length > maxPrincipalRoles then .error .invalidPrincipal
  else .ok ⟨id, kind, roles.dedup, authenticationClass⟩

/-- `verified_principal` (agent-service-daemon/src/main.rs:59). -/
def verifiedPrincipal (config : PrincipalConfigV1) (authenticationClass : AuthenticationClass) :
    Except IdentityError VerifiedPrincipal :=
  VerifiedPrincipal.new config.principalId config.kind config.roles authenticationClass

structure UnixPrincipalMapping where
  uid : UInt32
  gid : UInt32
  principal : VerifiedPrincipal

/-- The mappings that start-up collects (main.rs:620-635). -/
def unixMappings : List PrincipalConfigV1 → Except IdentityError (List UnixPrincipalMapping)
  | [] => .ok []
  | principal :: rest =>
    match principal.unixPeer with
    | none => unixMappings rest
    | some (uid, gid) =>
      match verifiedPrincipal principal .unixPeer with
      | .error e => .error e
      | .ok verified => (unixMappings rest).map (⟨uid, gid, verified⟩ :: ·)

/-- `HttpConfigurationError`. -/
inductive HttpConfigurationError where
  | invalid
deriving DecidableEq, Repr

/-- `HttpSecurity`, for Unix peers. -/
structure HttpSecurity where
  mappings : List UnixPrincipalMapping

/-- `HttpSecurity::unix_socket` (agent-service-http/src/lib.rs:111). -/
def HttpSecurity.unixSocket (mappings : List UnixPrincipalMapping) :
    Except HttpConfigurationError HttpSecurity :=
  if mappings.isEmpty || repeats (fun item mapping => item.uid = mapping.uid && item.gid = mapping.gid) []
      mappings then .error .invalid
  else .ok ⟨mappings⟩

/-- `LocalActionSealer::new` (agent-action-seal-local/src/lib.rs:20). -/
def localActionSealerNew (keyId : String) (key : List UInt8) : Except ActionSealError LocalActionSealer :=
  if h : keyIdRejected keyId = true then .error .keyUnavailable
  else .ok ⟨keyId, key, by simpa using h⟩

/-- The file that `DeploymentLock::acquire` opens (lib.rs:1035). -/
def lockPath (storage : StorageConfigV1) : PathBuf := storage.dataDirectory.join "service.lock"

/-! ## What is meant -/

/-- A configuration that start-up can use. -/
structure Usable (config : DeploymentConfigV2) : Prop where
  files : [config.storage.databasePath, config.storage.auditPath, lockPath config.storage].Nodup
  sealer : ∀ localWrite ∈ config.localWrite, ∀ key,
    (localActionSealerNew localWrite.sealKeyId key).isOk = true
  principals : ∀ principal ∈ config.identity.principals, ∀ authenticationClass,
    (verifiedPrincipal principal authenticationClass).isOk = true
  unix : ∀ socketPath, config.listener = .unix socketPath →
    ∃ mappings, unixMappings config.identity.principals = .ok mappings ∧
      (HttpSecurity.unixSocket mappings).isOk = true

/-- The names of the two files and of the lock are three names. -/
def NamesDiffer (storage : StorageConfigV1) : Prop :=
  Text.components storage.databaseFile.toList ≠ Text.components storage.auditFile.toList ∧
    Text.components storage.databaseFile.toList ≠ [.normal "service.lock".toList] ∧
    Text.components storage.auditFile.toList ≠ [.normal "service.lock".toList]

/-- A short key id of letters, digits, `-` and `_`. -/
def PlainKeyId (keyId : String) : Prop :=
  keyId.utf8ByteSize ≤ maxSealKeyIdBytes ∧
    ∀ c ∈ keyId.toList, c.isAlphanum = true ∨ c = '-' ∨ c = '_'

/-! ## Accepted values -/

variable {parsers : Parsers} {config : DeploymentConfigV2}

theorem require_ok {accepted : Bool} : require accepted = .ok () ↔ accepted = true := by
  cases accepted <;> simp [require]

/-- A step of a validator that succeeds, and the steps after it. -/
theorem bind_ok {first second : Except DeploymentConfigError Unit} :
    (first >>= fun _ => second) = .ok () ↔ first = .ok () ∧ second = .ok () := by
  cases first with
  | error e => exact ⟨nofun, fun h => nomatch h.1⟩
  | ok u => exact ⟨fun h => ⟨rfl, h⟩, fun h => h.2⟩

theorem repeats_eq_false {α : Type} {same : α → α → Bool} {earlier items : List α} :
    repeats same earlier items = false ↔
      (∀ a ∈ earlier, ∀ b ∈ items, same a b = false) ∧ items.Pairwise fun a b => same a b = false := by
  induction items generalizing earlier with
  | nil => simp [repeats]
  | cons item rest ih =>
    rw [repeats, Bool.or_eq_false_iff, ih, List.pairwise_cons, List.any_eq_false]
    constructor
    · rintro ⟨hitem, hrest, hpairs⟩
      refine ⟨fun a ha b hb => ?_, fun b hb => ?_, hpairs⟩
      · rcases List.mem_cons.mp hb with rfl | hb
        · simpa using hitem a ha
        · exact hrest a (List.mem_append_left _ ha) b hb
      · exact hrest item (List.mem_append_right _ (List.mem_singleton_self item)) b hb
    · rintro ⟨hearlier, hitem, hpairs⟩
      refine ⟨fun a ha => ?_, fun a ha b hb => ?_, hpairs⟩
      · simpa using hearlier a ha item List.mem_cons_self
      · rcases List.mem_append.mp ha with ha | ha
        · exact hearlier a ha b (List.mem_cons_of_mem item hb)
        · rw [List.mem_singleton.mp ha]
          exact hitem b hb

/-! ## Principals -/

variable {principal : PrincipalConfigV1} {principals earlier : List PrincipalConfigV1}

/-- **An accepted principal can be made.** -/
theorem verifiedPrincipal_isOk (h : principal.validate = .ok ()) (authenticationClass : AuthenticationClass) :
    (verifiedPrincipal principal authenticationClass).isOk = true := by
  unfold PrincipalConfigV1.validate at h
  split at h
  · cases h
  · rename_i haccepted
    simp only [Bool.or_eq_true, not_or, decide_eq_true_eq, gt_iff_lt, Nat.not_lt,
      List.isEmpty_iff] at haccepted
    obtain ⟨⟨⟨hne, hlen⟩, -⟩, -⟩ := haccepted
    obtain ⟨role, hrole⟩ := List.exists_mem_of_ne_nil _ hne
    have hdedup : principal.roles.dedup ≠ [] := List.ne_nil_of_mem (List.mem_dedup.mpr hrole)
    have hle := Nat.le_trans (List.dedup_sublist principal.roles).length_le hlen
    unfold verifiedPrincipal VerifiedPrincipal.new
    have hempty : principal.roles.dedup.isEmpty = false := by simpa using hdedup
    rw [hempty, Bool.false_or, if_neg (by simpa using hle)]
    rfl

theorem validatePrincipals_ok (h : validatePrincipals earlier principals = .ok ()) :
    (∀ p ∈ principals, p.validate = .ok ()) ∧ (∀ e ∈ earlier, ∀ p ∈ principals, e.clashes p = false) ∧
      principals.Pairwise fun a b => a.clashes b = false := by
  induction principals generalizing earlier with
  | nil => simp
  | cons principal rest ih =>
    rw [validatePrincipals, bind_ok, bind_ok, require_ok] at h
    obtain ⟨hvalid, hnone, hrest⟩ := h
    obtain ⟨hall, hearlier, hpairs⟩ := ih hrest
    simp only [Bool.not_eq_true', List.any_eq_false, Bool.not_eq_true] at hnone
    refine ⟨List.forall_mem_cons.mpr ⟨hvalid, hall⟩, fun e he p hp => ?_,
      List.pairwise_cons.mpr ⟨fun p hp => ?_, hpairs⟩⟩
    · rcases List.mem_cons.mp hp with rfl | hp
      · exact hnone e he
      · exact hearlier e (List.mem_append_left _ he) p hp
    · exact hearlier principal (List.mem_append_right _ (List.mem_singleton_self principal)) p hp

/-- Principals that do not clash have different peers. -/
theorem unixPeers_nodup (h : principals.Pairwise fun a b => a.clashes b = false) :
    (principals.filterMap PrincipalConfigV1.unixPeer).Nodup := by
  rw [List.Nodup, List.pairwise_filterMap]
  refine h.imp fun {a b} hclash peer ha peer' hb heq => ?_
  simp only [PrincipalConfigV1.clashes, Bool.or_eq_false_iff, Bool.and_eq_false_iff,
    decide_eq_false_iff_not] at hclash
  subst heq
  rcases hclash.2 with hnone | hne
  · rw [hb] at hnone
    cases hnone
  · exact hne (ha.trans hb.symm)

/-- **The mappings of accepted principals** are made, one for each peer. -/
theorem unixMappings_ok (h : ∀ p ∈ principals, p.validate = .ok ()) :
    ∃ mappings, unixMappings principals = .ok mappings ∧
      mappings.map (fun m => (m.uid, m.gid)) = principals.filterMap PrincipalConfigV1.unixPeer := by
  induction principals with
  | nil => exact ⟨[], rfl, rfl⟩
  | cons principal rest ih =>
    rw [List.forall_mem_cons] at h
    obtain ⟨mappings, hmappings, hpeers⟩ := ih h.2
    rw [unixMappings, List.filterMap_cons]
    cases hpeer : principal.unixPeer with
    | none => exact ⟨mappings, hmappings, hpeers⟩
    | some peer =>
      have hok := verifiedPrincipal_isOk h.1 .unixPeer
      cases hverified : verifiedPrincipal principal .unixPeer with
      | error e =>
        rw [hverified] at hok
        cases hok
      | ok verified =>
        refine ⟨⟨peer.1, peer.2, verified⟩ :: mappings, ?_, by rw [List.map_cons, hpeers]⟩
        simp only [hmappings]
        rfl

theorem unixSocket_isOk {mappings : List UnixPrincipalMapping} (hne : mappings ≠ [])
    (hpeers : (mappings.map fun m => (m.uid, m.gid)).Nodup) :
    (HttpSecurity.unixSocket mappings).isOk = true := by
  have hrepeats : repeats (fun (item mapping : UnixPrincipalMapping) =>
      item.uid = mapping.uid && item.gid = mapping.gid) [] mappings = false := by
    rw [repeats_eq_false]
    refine ⟨fun a ha => absurd ha List.not_mem_nil, ?_⟩
    rw [List.Nodup, List.pairwise_map] at hpeers
    refine hpeers.imp fun {a b} hab => ?_
    simpa [Prod.ext_iff] using hab
  have hempty : mappings.isEmpty = false := by simpa using hne
  unfold HttpSecurity.unixSocket
  rw [hempty, hrepeats]
  rfl

/-! ## Files and key ids -/

theorem files_nodup_iff {storage : StorageConfigV1} :
    [storage.databasePath, storage.auditPath, lockPath storage].Nodup ↔ NamesDiffer storage := by
  have hlock : Text.components "service.lock".toList = [.normal "service.lock".toList] := by decide +kernel
  simp only [List.nodup_cons, List.mem_cons, List.not_mem_nil, or_false, not_or, List.nodup_nil, and_true,
    not_false_eq_true, StorageConfigV1.databasePath, StorageConfigV1.auditPath, lockPath, PathBuf.join,
    List.append_cancel_left_eq, hlock, NamesDiffer, and_assoc]

theorem keyIdRejected_eq_false {keyId : String} (hne : keyId ≠ "") :
    keyIdRejected keyId = false ↔ PlainKeyId keyId := by
  have hempty : keyId.isEmpty = false := by simpa using hne
  simp only [keyIdRejected, hempty, Bool.false_or, Bool.or_eq_false_iff, decide_eq_false_iff_not,
    Nat.not_lt, List.any_eq_false, PlainKeyId]
  refine and_congr_right fun _ => forall_congr' fun c => forall_congr' fun _ => ?_
  by_cases halpha : c.isAlphanum = true
  · simp [halpha]
  · by_cases hdash : c = '-'
    · simp [hdash]
    · simp [halpha, hdash]

/-! ## The configuration -/

/-- What `validate` has checked of the sections that the consumers read. -/
structure Accepted (config : DeploymentConfigV2) : Prop where
  principals : ∀ p ∈ config.identity.principals, p.validate = .ok ()
  differ : config.identity.principals.Pairwise fun a b => a.clashes b = false
  peer : ∀ socketPath, config.listener = .unix socketPath →
    ∃ p ∈ config.identity.principals, p.unixUid.isSome = true ∧ p.unixGid.isSome = true
  keyId : ∀ localWrite ∈ config.localWrite, localWrite.sealKeyId ≠ ""

theorem accepted_of_validate (h : config.validate parsers = .ok ()) : Accepted config := by
  simp only [DeploymentConfigV2.validate, bind_ok] at h
  obtain ⟨-, -, hidentity, -, -, -, -, -, hlocalWrite⟩ := h
  simp only [IdentityConfigV1.validate, bind_ok] at hidentity
  obtain ⟨-, hprincipals, hlistener⟩ := hidentity
  obtain ⟨hall, -, hdiffer⟩ := validatePrincipals_ok hprincipals
  refine ⟨hall, hdiffer, fun socketPath hunix => ?_, fun localWrite hmem => ?_⟩
  · rw [hunix] at hlistener
    simpa [require_ok] using hlistener
  · rw [Option.mem_def.mp hmem] at hlocalWrite
    have hvalid : localWrite.validate = .ok () := hlocalWrite
    simp only [LocalWriteConfigV1.validate, bind_ok, boundedText, require_ok] at hvalid
    obtain ⟨-, -, -, htext, -⟩ := hvalid
    simp only [Bool.and_eq_true, Bool.not_eq_true'] at htext
    simpa using htext.1.1

/-- What a backup reads of an accepted configuration is accepted there. -/
theorem backup_accepts (h : config.validate parsers = .ok ()) :
    Deployment.DeploymentConfigV2.validate ⟨config.storage, true⟩ = .ok () := by
  simp only [DeploymentConfigV2.validate, bind_ok] at h
  obtain ⟨-, -, -, hstorage, -⟩ := h
  exact hstorage

/-- **An accepted configuration can be used** if and only if the files have names of their own and the key
id, if there is one, is plain. -/
theorem usable_iff (parsers : Parsers) (config : DeploymentConfigV2)
    (h : config.validate parsers = .ok ()) :
    Usable config ↔ NamesDiffer config.storage ∧
      ∀ localWrite ∈ config.localWrite, PlainKeyId localWrite.sealKeyId := by
  obtain ⟨hprincipals, hdiffer, hpeer, hkeyId⟩ := accepted_of_validate h
  have hsealer : ∀ localWrite ∈ config.localWrite,
      (∀ key, (localActionSealerNew localWrite.sealKeyId key).isOk = true) ↔
        PlainKeyId localWrite.sealKeyId := by
    intro localWrite hmem
    rw [← keyIdRejected_eq_false (hkeyId localWrite hmem)]
    constructor
    · intro hok
      have hempty := hok []
      unfold localActionSealerNew at hempty
      split at hempty
      · cases hempty
      · rename_i haccepted
        simpa using haccepted
    · intro haccepted key
      unfold localActionSealerNew
      rw [dif_neg (by simp [haccepted])]
      rfl
  constructor
  · rintro ⟨hfiles, hseal, -, -⟩
    exact ⟨files_nodup_iff.mp hfiles, fun localWrite hmem =>
      (hsealer localWrite hmem).mp (hseal localWrite hmem)⟩
  · rintro ⟨hnames, hplain⟩
    refine ⟨files_nodup_iff.mpr hnames, fun localWrite hmem =>
      (hsealer localWrite hmem).mpr (hplain localWrite hmem), fun principal hmem =>
      verifiedPrincipal_isOk (hprincipals principal hmem), fun socketPath hunix => ?_⟩
    obtain ⟨mappings, hmappings, hpeers⟩ := unixMappings_ok hprincipals
    refine ⟨mappings, hmappings, unixSocket_isOk ?_ (hpeers ▸ unixPeers_nodup hdiffer)⟩
    rintro rfl
    obtain ⟨p, hmem, huid, hgid⟩ := hpeer socketPath hunix
    obtain ⟨uid, huid⟩ := Option.isSome_iff_exists.mp huid
    obtain ⟨gid, hgid⟩ := Option.isSome_iff_exists.mp hgid
    have hnone := List.filterMap_eq_nil_iff.mp hpeers.symm p hmem
    simp [PrincipalConfigV1.unixPeer, huid, hgid] at hnone

/-! ## One configuration -/

/-- A digest of zeros. -/
def zeros : String := String.ofList (List.replicate 64 '0')

/-- A configuration with a Unix listener, one user and LocalWrite. -/
def unixConfig (auditFile sealKeyId : String) : DeploymentConfigV2 :=
  let file : PathBuf := [.rootDir, .normal "f".toList]
  { schemaVersion := 2
    listener := .unix file
    identity := ⟨1, [⟨⟨"local"⟩, .human, [.user, .approver], some 1000, some 1000, false⟩]⟩
    storage := ⟨[.rootDir, .normal "data".toList], "agent.sqlite3", auditFile⟩
    workflows := ⟨true, true⟩
    model := ⟨"http://localhost:8000", "model", "local", .noAuthLoopback, 1000⟩
    knowledge := .ocpp "http://localhost:9000" "BootNotification"
    mcp := []
    localWrite := some ⟨file, sealKeyId, ⟨file⟩, file, zeros, file, zeros, 1, zeros⟩
    limits := ⟨1, 1, 30, 5⟩ }

/-- Parsers that know `localhost`. -/
def localhostOnly : Parsers := ⟨fun _ => some ("http", some "localhost"), fun _ => none, fun _ => none⟩

theorem zeros_sha256 : requireSha256 zeros = .ok () := by
  rw [requireSha256, require_ok]
  decide +kernel

theorem unixConfig_valid {auditFile sealKeyId : String} (hfile : requireFileName auditFile = .ok ())
    (hkey : boundedText sealKeyId = .ok ()) :
    (unixConfig auditFile sealKeyId).validate localhostOnly = .ok () := by
  have hdatabase : requireFileName "agent.sqlite3" = .ok () := by rfl
  have hstorage : (unixConfig auditFile sealKeyId).storage.validate = .ok () := by
    simp only [StorageConfigV1.validate, unixConfig, hdatabase, hfile]
    rfl
  have hmodel : ModelConfigV1.validate localhostOnly
      ⟨"http://localhost:8000", "model", "local", .noAuthLoopback, 1000⟩ = .ok () := by rfl
  have hlocalWrite : (unixConfig auditFile sealKeyId).localWrite.forM LocalWriteConfigV1.validate = .ok () := by
    show LocalWriteConfigV1.validate _ = .ok ()
    simp only [LocalWriteConfigV1.validate, bind_ok]
    exact ⟨rfl, rfl, rfl, hkey, rfl, zeros_sha256, zeros_sha256, rfl, zeros_sha256⟩
  simp only [DeploymentConfigV2.validate, bind_ok]
  exact ⟨rfl, rfl, rfl, hstorage, hmodel, rfl, rfl, rfl, hlocalWrite⟩

theorem unixConfig_usable :
    (unixConfig "audit.jsonl" "key-1").validate localhostOnly = .ok () ∧
      Usable (unixConfig "audit.jsonl" "key-1") := by
  have h : (unixConfig "audit.jsonl" "key-1").validate localhostOnly = .ok () := unixConfig_valid rfl rfl
  refine ⟨h, (usable_iff localhostOnly _ h).mpr ⟨⟨by decide +kernel, by decide +kernel, by decide +kernel⟩, ?_⟩⟩
  intro localWrite hmem
  cases Option.mem_some.mp hmem
  exact (keyIdRejected_eq_false (by decide)).mp (by decide +kernel)

/-- The database is taken as the audit file, and a key id with a dot is accepted. -/
theorem accepted_and_unusable :
    ((unixConfig "agent.sqlite3" "key-1").validate localhostOnly = .ok () ∧
      (unixConfig "agent.sqlite3" "key-1").storage.databasePath
        = (unixConfig "agent.sqlite3" "key-1").storage.auditPath) ∧
    ((unixConfig "audit.jsonl" "key.1").validate localhostOnly = .ok () ∧
      (localActionSealerNew "key.1" []).isOk = false) ∧
    ¬ ∀ config : DeploymentConfigV2, config.validate localhostOnly = .ok () → Usable config := by
  have hfile : (unixConfig "agent.sqlite3" "key-1").validate localhostOnly = .ok () := unixConfig_valid rfl rfl
  refine ⟨⟨hfile, rfl⟩, ⟨unixConfig_valid rfl rfl, by decide +kernel⟩, fun hall => ?_⟩
  exact (files_nodup_iff.mp (hall _ hfile).files).1 rfl

end LocalAgent.Deployment.Config
