import LocalAgent.Core.Tool
import LocalAgent.Lib.Encoding
import LocalAgent.Lib.Utf8

/-!
# Evidence (`agent-knowledge/src/lib.rs`)

What backends return and what the model is grounded on, with the checks of the constructors: an
`Evidence`, an `EvidenceId` or a `RetrievalLimits` exists only as accepted. SHA-256 is a parameter.
-/
namespace LocalAgent.Knowledge

open Encoding

/-- `MAX_RESULTS`. -/
def maxResults : Nat := 8

/-- `MAX_EVIDENCE_ITEM_BYTES`. -/
def maxEvidenceItemBytes : Nat := 4 * 1024

/-- `MAX_TOTAL_EVIDENCE_BYTES`. -/
def maxTotalEvidenceBytes : Nat := 16 * 1024

/-- `MAX_SAFE_METADATA_BYTES`. -/
def maxSafeMetadataBytes : Nat := 512

def usizeMax : Nat := 2 ^ 64 - 1

/-! ## Requests -/

/-- `RetrievalLimits`: `new` (lib.rs:72) has checked them. -/
structure RetrievalLimits where
  maxResults : Nat
  maxItemBytes : Nat
  maxTotalBytes : Nat
  accepted : !(maxResults = 0 || maxResults > Knowledge.maxResults || maxItemBytes = 0
    || maxItemBytes > maxEvidenceItemBytes || maxTotalBytes = 0 || maxTotalBytes > maxTotalEvidenceBytes)

/-- `FederatedFailurePolicy`. -/
inductive FederatedFailurePolicy where
  | requireAll | allowPartial
deriving DecidableEq, Repr

/-- `KnowledgeRoute`. -/
inductive KnowledgeRoute where
  | single (backend : KnowledgeBackendId)
  | federated (backends : List KnowledgeBackendId) (failurePolicy : FederatedFailurePolicy)
deriving DecidableEq, Repr

/-- `KnowledgeRoute::backends` (lib.rs:156). -/
def KnowledgeRoute.backends : KnowledgeRoute → List KnowledgeBackendId
  | .single backend => [backend]
  | .federated backends _ => backends

/-- `KnowledgeRoute::metadata` (lib.rs:164). -/
def KnowledgeRoute.metadata : KnowledgeRoute → KnowledgeRouteMetadata
  | .single backend => .single backend
  | .federated backends failurePolicy => .federated backends (failurePolicy = .allowPartial)

/-- `KnowledgeRoute::failure_policy` (lib.rs:178). -/
def KnowledgeRoute.failurePolicy : KnowledgeRoute → FederatedFailurePolicy
  | .single _ => .requireAll
  | .federated _ failurePolicy => failurePolicy

/-- `KnowledgeRequest`: what merging reads of it. Routes come from `KnowledgeRoute::single` and
`KnowledgeRoute::federated` (lib.rs:134), which are valid. -/
structure KnowledgeRequest where
  route : KnowledgeRoute
  limits : RetrievalLimits
  route_valid : route.metadata.isValid = true

/-! ## Evidence -/

/-- `bounded_safe` (lib.rs:934). -/
def boundedSafe (value : String) (max : Nat) : Bool :=
  !value.isEmpty && value.utf8ByteSize ≤ max && !value.toList.any Text.isControl

/-- `optional_bounded` (lib.rs:939). -/
def optionalBounded (value : Option String) : Bool :=
  value.all fun value => boundedSafe value maxSafeMetadataBytes

/-- `EvidenceId`. -/
structure EvidenceId where
  value : String
  accepted : boundedSafe value 256 = true
deriving DecidableEq

/-- `EvidenceSource`. -/
structure EvidenceSource where
  backend : KnowledgeBackendId
  sourceId : String
  accepted : boundedSafe sourceId maxSafeMetadataBytes = true
deriving DecidableEq

inductive NativeScoreSystem where
  | ocppHybridRetrieval | standardsKagCombined
deriving DecidableEq, Repr

/-- `NativeScore`: the bits of a finite `f64`. -/
structure NativeScore where
  value : UInt64
  system : NativeScoreSystem
  accepted : value.toNat / 2 ^ 52 % 2 ^ 11 ≠ 2 ^ 11 - 1
deriving DecidableEq

inductive EvidenceMetadata where
  | ocpp (strategy : String) (sectionTitle : Option String) (pageStart pageEnd : Option Nat)
      (evidenceLayer sourceType : Option String)
  | standards (sourceTitle : String) (section_ heading pageRange : Option String) (chunkType : String)
deriving DecidableEq, Repr

/-- `EvidenceMetadata::is_bounded` (lib.rs:398). -/
def EvidenceMetadata.isBounded (metadata : EvidenceMetadata) : Bool :=
  let strings : List String := match metadata with
    | .ocpp strategy sectionTitle _ _ evidenceLayer sourceType =>
      [some strategy, sectionTitle, evidenceLayer, sourceType].reduceOption
    | .standards sourceTitle section_ heading pageRange chunkType =>
      [some sourceTitle, section_, heading, pageRange, some chunkType].reduceOption
  strings.all fun value => boundedSafe value maxSafeMetadataBytes

inductive EvidenceError where
  | invalidContent | invalidRank | invalidScore | invalidMetadata | invalidSet
deriving DecidableEq, Repr

/-- The checks of `Evidence::new` (lib.rs:471-488). -/
def evidenceError (content : String) (backendRank : Nat) (documentId chunkId canonicalReference
    versionReference : Option String) (referenceId : String) (metadata : EvidenceMetadata) :
    Option EvidenceError :=
  if content.isEmpty || content.utf8ByteSize > maxEvidenceItemBytes then some .invalidContent
  else if !(backendRank > 0 && backendRank ≤ maxResults) then some .invalidRank
  else if !metadata.isBounded || !optionalBounded documentId || !optionalBounded chunkId
      || !optionalBounded canonicalReference || !optionalBounded versionReference
      || !boundedSafe referenceId 256 then some .invalidMetadata
  else none

/-- `Evidence`. -/
structure Evidence where
  id : EvidenceId
  source : EvidenceSource
  content : String
  backendRank : Nat
  nativeScore : Option NativeScore
  documentId : Option String
  chunkId : Option String
  referenceId : String
  canonicalReference : Option String
  versionReference : Option String
  metadata : EvidenceMetadata
  accepted : evidenceError content backendRank documentId chunkId canonicalReference versionReference
    referenceId metadata = none
deriving DecidableEq

/-- `Evidence::new` (lib.rs:458). -/
def Evidence.new (id : EvidenceId) (source : EvidenceSource) (content : String) (backendRank : Nat)
    (nativeScore : Option NativeScore) (documentId chunkId : Option String) (referenceId : String)
    (canonicalReference versionReference : Option String) (metadata : EvidenceMetadata) :
    Except EvidenceError Evidence :=
  match h : evidenceError content backendRank documentId chunkId canonicalReference versionReference
      referenceId metadata with
  | some e => .error e
  | none => .ok ⟨id, source, content, backendRank, nativeScore, documentId, chunkId, referenceId,
      canonicalReference, versionReference, metadata, h⟩

/-- An item with a content and a canonical reference, and nothing else that is optional. -/
def Evidence.plain (backend : KnowledgeBackendId) (rank : Nat) (id content reference : String)
    (canonicalReference : Option String) (hid : boundedSafe id 256 = true)
    (h : evidenceError content rank none none canonicalReference none reference
      (.ocpp "hybrid" none none none none none) = none) : Evidence :=
  ⟨⟨id, hid⟩, ⟨backend, "corpus", by decide +kernel⟩, content, rank, none, none, none, reference,
    canonicalReference, none, .ocpp "hybrid" none none none none none, h⟩

theorem boundedSafe_a : boundedSafe "a" 256 = true := by decide +kernel

theorem text_accepted : evidenceError "text" 1 none none none none "r"
    (.ocpp "hybrid" none none none none none) = none := by decide +kernel

theorem boundedSafe_b : boundedSafe "b" 256 = true := by decide +kernel

/-- The bytes of the content. -/
def Evidence.bytes (item : Evidence) : Nat := item.content.utf8ByteSize

/-! ## Sets -/

/-- `BackendEvidenceSet`: `new` (lib.rs:575) has checked it. -/
structure BackendEvidenceSet where
  backend : KnowledgeBackendId
  evidence : List Evidence
  snapshot : Option KnowledgeSnapshotMetadata
  truncated : Bool
  accepted : !(evidence.length > maxResults || evidence.any (·.source.backend ≠ backend)
    || snapshot.any fun value => value.backend ≠ backend || !value.isValid)

/-- `EvidenceSet`. -/
structure EvidenceSet where
  evidence : List Evidence
  snapshots : List KnowledgeSnapshotMetadata
  failedBackends : List KnowledgeBackendId
  truncated : Bool
  degraded : Bool
  manifestDigest : Bytes32
deriving DecidableEq

/-- The byte of a backend (`as u8`). -/
def backendByte : KnowledgeBackendId → UInt8
  | .ocppRagKag => 0
  | .standardsMcp => 1

/-- The part of an item (lib.rs:920-925). -/
def itemBytes (sha256 : List UInt8 → Bytes32) (item : Evidence) : List UInt8 :=
  [backendByte item.source.backend] ++ beBytes 8 item.referenceId.utf8ByteSize ++
    item.referenceId.toUTF8.toList ++ beBytes 32 (sha256 item.content.toUTF8.toList).toNat

/-- The part of a snapshot (lib.rs:926-929). -/
def snapshotBytes (snapshot : KnowledgeSnapshotMetadata) : List UInt8 :=
  [backendByte snapshot.backend] ++ snapshot.version.toUTF8.toList

def boolByte (value : Bool) : UInt8 := if value then 1 else 0

/-- What `manifest_digest` (lib.rs:913) feeds to the hash. -/
def manifestInput (sha256 : List UInt8 → Bytes32) (evidence : List Evidence)
    (snapshots : List KnowledgeSnapshotMetadata) (truncated degraded : Bool) : List UInt8 :=
  [boolByte truncated, boolByte degraded] ++ evidence.flatMap (itemBytes sha256) ++
    snapshots.flatMap snapshotBytes

/-- `EvidenceSet::build` (lib.rs:631). -/
def EvidenceSet.build (sha256 : List UInt8 → Bytes32) (evidence : List Evidence)
    (snapshots : List KnowledgeSnapshotMetadata) (failedBackends : List KnowledgeBackendId)
    (truncated degraded : Bool) : Except EvidenceError EvidenceSet :=
  if evidence.length > maxResults || (evidence.map Evidence.bytes).sum > maxTotalEvidenceBytes then
    .error .invalidSet
  else .ok ⟨evidence, snapshots, failedBackends, truncated, degraded,
    sha256 (manifestInput sha256 evidence snapshots truncated degraded)⟩

/-- What the harness sees of a set. -/
def EvidenceSet.view (set : EvidenceSet) : LocalAgent.EvidenceSet where
  durableReferences := set.evidence.map fun item =>
    if validKnowledgeId item.referenceId then some ⟨item.source.backend, item.referenceId⟩ else none
  snapshots := set.snapshots
  truncated := set.truncated
  degraded := set.degraded
  manifestDigest := set.manifestDigest

end LocalAgent.Knowledge
