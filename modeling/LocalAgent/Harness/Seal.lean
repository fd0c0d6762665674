import LocalAgent.Harness.Arguments
import LocalAgent.Harness.Clients
import LocalAgent.Harness.Housekeeping

/-!
# Sealing a local write (`agent-action-seal-local/src/lib.rs`, `durable_approval.rs:233-256`)

`suspend_durable_local_write` has the arguments checked in full before it reserves an approval and
persists `DurableApprovalPrepared`; only then it seals. The sealed text is as long as the text of
the arguments, the cipher adds a tag of 16 bytes, and the limit on the ciphertext is the number that
already limits the arguments: arguments within 16 bytes of their limit are refused where it is too
late (`sealed_iff`).
-/
namespace LocalAgent

open JsonText Program String

/-- `MAX_SEALED_CAPSULE_BYTES`. -/
def maxSealedCapsuleBytes : Nat := 8 * 1024

/-- `MAX_SEAL_KEY_ID_BYTES`. -/
def maxSealKeyIdBytes : Nat := 64

/-- The bytes that the cipher appends. -/
def tagBytes : Nat := 16

/-- The check on a key id, in `LocalActionSealer::new` and `SealedLocalWriteAction::new`. -/
def keyIdRejected (keyId : String) : Bool :=
  keyId.isEmpty || keyId.utf8ByteSize > maxSealKeyIdBytes
    || keyId.toList.any fun c => !c.isAlphanum && c ≠ '-' && c ≠ '_'

/-- `SealedLocalWriteAction::new` (durable_approval.rs:234). -/
def SealedLocalWriteAction.new (keyId : String) (nonce ciphertext : List UInt8) :
    Except ActionSealError SealedLocalWriteAction :=
  if keyIdRejected keyId || nonce.isEmpty || ciphertext.isEmpty
      || ciphertext.length > maxSealedCapsuleBytes then .error .invalidCapsule
  else .ok ⟨localWriteCapsuleVersion, keyId, nonce, ciphertext⟩

/-- `serde_json::to_vec` of the capsule: the fields in the order of their declaration. -/
def LocalWriteActionCapsule.encode (capsule : LocalWriteActionCapsule) : List UInt8 :=
  utf8Bytes (JsonText.object [("relative_path", quote capsule.relativePath),
    ("content", quote capsule.content)])

/-- What the sealer uses from elsewhere: XChaCha20-Poly1305 on key, nonce, message and associated
data, and `serde_json` for the binding. -/
structure SealLibrary where
  encrypt : List UInt8 → Vector UInt8 24 → List UInt8 → List UInt8 → Option (List UInt8)
  encodeBinding : ActionSealBinding → List UInt8

/-- The cipher succeeds and appends its tag. -/
def SealLibrary.AppendsTag (seals : SealLibrary) : Prop :=
  ∀ key nonce message associated, ∃ ciphertext,
    seals.encrypt key nonce message associated = some ciphertext ∧
      ciphertext.length = message.length + tagBytes

/-- `LocalActionSealer`: `new` has checked the key id. -/
structure LocalActionSealer where
  keyId : String
  key : List UInt8
  keyId_accepted : keyIdRejected keyId = false

/-- `seal_local_write` (lib.rs:47) under the nonce that was drawn. -/
def LocalActionSealer.sealLocalWrite (seals : SealLibrary) (sealer : LocalActionSealer)
    (nonce : Vector UInt8 24) (binding : ActionSealBinding) (action : LocalWriteActionCapsule) :
    Except ActionSealError SealedLocalWriteAction :=
  match seals.encrypt sealer.key nonce action.encode (seals.encodeBinding binding) with
  | none => .error .authenticationFailed
  | some ciphertext => SealedLocalWriteAction.new sealer.keyId nonce.toList ciphertext

/-! ## Sizes -/

/-- The plaintext is as long as the arguments. -/
theorem length_encode {capsule : LocalWriteActionCapsule} {arguments : Json}
    {formatFloat : UInt64 → List Char}
    (h : WritesTo capsule.relativePath capsule.content arguments) :
    capsule.encode.length = utf8Len (arguments.text formatFloat) := by
  have hsame : WritesTo capsule.relativePath capsule.content (localWriteArguments capsule) := .inl rfl
  have hplain : utf8Len ((localWriteArguments capsule).text formatFloat) = _ := writeArguments_bytes hsame
  rw [writeArguments_bytes h, ← hplain]
  exact length_utf8Bytes _

/-- Of a sealer's ciphertext only the length is in question. -/
theorem SealedLocalWriteAction.new_eq {keyId : String} {nonce : Vector UInt8 24}
    {ciphertext : List UInt8} (hkey : keyIdRejected keyId = false) (hne : 0 < ciphertext.length) :
    SealedLocalWriteAction.new keyId nonce.toList ciphertext =
      if ciphertext.length > maxSealedCapsuleBytes then .error .invalidCapsule
      else .ok ⟨localWriteCapsuleVersion, keyId, nonce.toList, ciphertext⟩ := by
  have hnonce : nonce.toList.isEmpty = false := by
    rw [List.isEmpty_eq_false_iff, ← List.length_pos_iff]
    simp
  have hbytes : ciphertext.isEmpty = false := by
    rwa [List.isEmpty_eq_false_iff, ← List.length_pos_iff]
  simp [SealedLocalWriteAction.new, hkey, hnonce, hbytes]

/-- What `new` accepts is valid. -/
theorem SealedLocalWriteAction.new_isValid {keyId : String} {nonce ciphertext : List UInt8}
    {s : SealedLocalWriteAction} (h : SealedLocalWriteAction.new keyId nonce ciphertext = .ok s) :
    s.isValid = true := by
  unfold SealedLocalWriteAction.new at h
  split at h
  · cases h
  · rename_i haccepted
    cases h
    simpa [SealedLocalWriteAction.isValid, keyIdRejected, maxSealKeyIdBytes, maxSealedCapsuleBytes,
      and_assoc] using haccepted

/-! ## What is sealed -/

/-- The request seals nothing but the capsule of the arguments. -/
def SealsOnly (arguments : Json) (r : Request) : Prop :=
  ∀ binding capsule, r = .sealLocalWrite binding capsule → localWriteCapsule arguments = .ok capsule

theorem sealsOnly_of_housekeeping {arguments : Json} {r : Request} (h : r.housekeeping = true) :
    SealsOnly arguments r := by
  rintro binding capsule rfl
  cases h

variable {lib : Library} {h : ExecutionHarness} {action : ValidatedAction lib}
  {durable : DurableActionContext}

theorem sealAndSuspend_seals {workspace : WorkspaceBindingId} {capsule : LocalWriteActionCapsule}
    {digest : ToolContractDigest} {ids : SuspensionIds}
    (hcapsule : localWriteCapsule action.arguments = .ok capsule) :
    (sealAndSuspend lib h action durable workspace capsule digest ids).Only
      (SealsOnly action.arguments) := by
  have keeping {α : Type} {m : HarnessM α} (hm : Housekeeping m) : m.Only (SealsOnly action.arguments) :=
    hm.mono fun _ => sealsOnly_of_housekeeping
  refine .bind (keeping recordRequired_housekeeping) fun _ => .bind (keeping reserve_housekeeping)
    fun _ => .bind .look fun c => .bind (.ask nofun) fun loaded => ?_
  cases loaded with
  | error e => exact .fail
  | ok loaded =>
    have hseal (binding) : SealsOnly action.arguments (.sealLocalWrite binding capsule) := by
      rintro _ _ ⟨⟩
      exact hcapsule
    refine .bind (keeping recordRequired_housekeeping) fun _ => .bind (.ask (hseal _)) fun _ =>
      .bind .ofExcept fun _ => .bind (keeping trustedUnixMillis_housekeeping) fun suspendedAt =>
      .bind .look fun c => .bind .ofExcept fun startedAt => ?_
    cases checkedSub suspendedAt startedAt with
    | none => exact .fail
    | some elapsed =>
      refine .bind (keeping nextEvent_housekeeping) fun _ => .bind .look fun c => .bind (.ask nofun)
        fun created => ?_
      cases created with
      | error e => exact .bind (keeping markPersistenceFailed_housekeeping) fun _ => .fail
      | ok u => exact keeping auditAlreadyPersisted_housekeeping

theorem suspendDurableLocalWrite_seals :
    (suspendDurableLocalWrite lib h action durable).Only (SealsOnly action.arguments) := by
  have keeping {α : Type} {m : HarnessM α} (hm : Housekeeping m) : m.Only (SealsOnly action.arguments) :=
    hm.mono fun _ => sealsOnly_of_housekeeping
  refine .bind (keeping preflight_housekeeping) fun _ => .ite .fail (.ite .fail ?_)
  cases h.workspaceBindingId with
  | none => exact .fail
  | some workspace =>
    refine .bind .look fun c => .ite .fail (.ite .fail (.bind (.ask nofun) fun _ => .ite .fail ?_))
    cases h.tools.get action.toolName with
    | none => exact .fail
    | some binding =>
      exact .ite .fail (.ite .fail (.bind (.ask nofun) fun _ => .bind .ofExcept fun _ =>
        .ofExcept_bind fun capsule hcapsule => .bind (.ask nofun) fun _ => .bind (.ask nofun) fun _ =>
          .bind (.ask nofun) fun _ => sealAndSuspend_seals hcapsule))

/-! ## Sealing succeeds -/

/-- Arguments that come to a human: within the limits, of the schema, with a preview and a
capsule. -/
structure Approvable (formatFloat : UInt64 → List Char) (arguments : Json)
    (capsule : LocalWriteActionCapsule) : Prop where
  limits : validateArgumentLimits formatFloat arguments = .ok ()
  schema : workspaceWriteSchema arguments = true
  preview : ∃ preview, approvalPreview arguments = .ok preview
  capsule : localWriteCapsule arguments = .ok capsule

variable {formatFloat : UInt64 → List Char} {capsule : LocalWriteActionCapsule}
  {seals : SealLibrary} {arguments : Json}

/-- What the sealer answers. -/
theorem sealLocalWrite_eq {path content : String} (formatFloat : UInt64 → List Char)
    (sealer : LocalActionSealer) (htag : seals.AppendsTag) (hwrites : WritesTo path content arguments)
    (nonce : Vector UInt8 24) (binding : ActionSealBinding) :
    ∃ ciphertext, sealer.sealLocalWrite seals nonce binding ⟨path, content⟩ =
      if utf8Len (arguments.text formatFloat) + tagBytes > maxSealedCapsuleBytes then
        .error .invalidCapsule
      else .ok ⟨localWriteCapsuleVersion, sealer.keyId, nonce.toList, ciphertext⟩ := by
  obtain ⟨ciphertext, hencrypt, hlen⟩ :=
    htag sealer.key nonce (LocalWriteActionCapsule.mk path content).encode
      (seals.encodeBinding binding)
  have hpos : 0 < ciphertext.length := by
    rw [hlen]
    exact Nat.succ_pos _
  refine ⟨ciphertext, ?_⟩
  simp only [LocalActionSealer.sealLocalWrite, hencrypt]
  rw [SealedLocalWriteAction.new_eq sealer.keyId_accepted hpos, hlen, length_encode hwrites]

/-- A plain path and a content of at most 4096 bytes whose text fits come to approval. -/
theorem approvable_writeInput {path content : String} (hpath : pathRejected path = false)
    (hcontent : content.utf8ByteSize ≤ maxContentBytes)
    (hshown : ∃ preview, ApprovalPreview.new
      ("workspace_write_file (" ++ toString content.utf8ByteSize ++ " bytes)") path = .ok preview)
    (htext : escapedBytes path + escapedBytes content + 33 ≤ maxActionArgumentBytes) :
    Approvable formatFloat (writeInput path content) ⟨path, content⟩ where
  limits := writeInput_limits htext
  schema := writeInput_schema hpath hcontent
  preview := by
    obtain ⟨parent, last, -, hsplit⟩ := validateRelativePath_of_accepted hpath
    obtain ⟨preview, hpreview⟩ := hshown
    refine ⟨preview, ?_⟩
    simp only [approvalPreview, parseInput_writeInput hcontent hsplit, hpreview]
    rfl
  capsule := by
    obtain ⟨capsule, hcapsule⟩ := capsule_ok_iff.mpr ⟨hpath, hcontent⟩
    obtain rfl := LocalWriteActionCapsule.new_ok hcapsule
    have hread : localWriteCapsule (writeInput path content) =
        (LocalWriteActionCapsule.new path content).mapError .actionSeal := rfl
    rw [hread, hcapsule]
    rfl

/-- **What can be approved can be sealed** exactly when the text of the arguments leaves room for the
tag below the limit on the ciphertext. A suspension asks for nothing else to be sealed. -/
theorem sealed_iff (h : ExecutionHarness) (durable : DurableActionContext)
    (sealer : LocalActionSealer) (htag : seals.AppendsTag)
    (happrovable : Approvable formatFloat action.arguments capsule) :
    (∀ nonce binding,
      (∃ s, sealer.sealLocalWrite seals nonce binding capsule = .ok s ∧ s.isValid = true) ↔
        utf8Len (action.arguments.text formatFloat) + tagBytes ≤ maxSealedCapsuleBytes) ∧
    (suspendDurableLocalWrite lib h action durable).Only fun r => ∀ binding capsule',
      r = .sealLocalWrite binding capsule' → capsule' = capsule := by
  refine ⟨fun nonce binding => ?_, suspendDurableLocalWrite_seals.mono fun r hr => ?_⟩
  · obtain ⟨ciphertext, hsealed⟩ := sealLocalWrite_eq formatFloat sealer htag
      (localWriteCapsule_ok happrovable.capsule).1 nonce binding
    constructor
    · rintro ⟨s, hs, -⟩
      rw [hsealed] at hs
      by_contra hlong
      rw [if_pos (by omega)] at hs
      cases hs
    · intro hshort
      rw [if_neg (by omega)] at hsealed
      refine ⟨_, hsealed, ?_⟩
      unfold LocalActionSealer.sealLocalWrite at hsealed
      split at hsealed
      · cases hsealed
      · exact SealedLocalWriteAction.new_isValid hsealed
  · intro binding capsule' hrequest
    exact Except.ok.inj ((hr binding capsule' hrequest).symm.trans happrovable.capsule)

/-! ## Close to the limit -/

/-- A cipher that hides nothing. -/
def openSeals : SealLibrary where
  encrypt _ _ message _ := some (message ++ List.replicate tagBytes 0)
  encodeBinding _ := []

theorem openSeals_appendsTag : openSeals.AppendsTag :=
  fun _ _ message _ => ⟨_, rfl, by simp⟩

def sampleSealer : LocalActionSealer := ⟨"key-1", List.replicate 32 7, by decide +kernel⟩

def sampleSealBinding : ActionSealBinding where
  key := ⟨⟨1⟩, ⟨2⟩⟩
  programVersion := 1
  graphDigest := 7#256
  nodeId := ⟨"write"⟩
  attemptId := ⟨3⟩
  waitId := ⟨4⟩
  approvalRequestId := ⟨5⟩
  actionProposalId := ⟨6⟩
  toolCallId := ⟨7⟩
  actionDigest := ⟨8#256⟩
  workspaceBindingId := ⟨9⟩
  toolContractDigest := ⟨10#256⟩
  requester := none
  capsuleVersion := localWriteCapsuleVersion

/-- An approved write whose sealing is refused. -/
theorem approved_write_not_sealed :
    Approvable (fun _ => []) (writeInput "a.txt" (controls 1357)) ⟨"a.txt", controls 1357⟩ ∧
      openSeals.AppendsTag ∧
      sampleSealer.sealLocalWrite openSeals (Vector.replicate 24 0) sampleSealBinding
        ⟨"a.txt", controls 1357⟩ = .error .invalidCapsule := by
  have hpath : escapedBytes "a.txt" = 5 := by decide +kernel
  have hcontent : escapedBytes (controls 1357) = 8142 := escapedBytes_controls
  have happrovable : Approvable (fun _ => []) (writeInput "a.txt" (controls 1357))
      ⟨"a.txt", controls 1357⟩ := by
    refine approvable_writeInput (by decide +kernel) ?_
      ⟨⟨"workspace_write_file (1357 bytes)", "a.txt"⟩, ?_⟩ ?_
    · rw [utf8ByteSize_controls]
      decide
    · rw [utf8ByteSize_controls]
      decide +kernel
    · rw [hpath, hcontent]
      decide
  have hwrites : WritesTo "a.txt" (controls 1357) (writeInput "a.txt" (controls 1357)) :=
    writeInput_writes
  have htext : utf8Len ((writeInput "a.txt" (controls 1357)).text fun _ => []) = 8180 := by
    rw [writeArguments_bytes hwrites, hpath, hcontent]
  have hlong : 8180 + tagBytes > maxSealedCapsuleBytes := by decide
  obtain ⟨ciphertext, hsealed⟩ := sealLocalWrite_eq (fun _ => []) sampleSealer openSeals_appendsTag
    hwrites (Vector.replicate 24 0) sampleSealBinding
  rw [htext, if_pos hlong] at hsealed
  exact ⟨happrovable, openSeals_appendsTag, hsealed⟩

/-- A write whose text leaves just the room for the tag, 1356 control characters for a path of seven, is
sealed. With one more byte in its path it is not. -/
theorem full_write_sealed :
    (∃ s, sampleSealer.sealLocalWrite openSeals (Vector.replicate 24 0) sampleSealBinding
      ⟨"abc.txt", controls 1356⟩ = .ok s ∧ s.isValid = true) ∧
    ¬ ∃ s, sampleSealer.sealLocalWrite openSeals (Vector.replicate 24 0) sampleSealBinding
      ⟨"abcd.txt", controls 1356⟩ = .ok s ∧ s.isValid = true := by
  have hcontent : escapedBytes (controls 1356) = 8136 := escapedBytes_controls
  have happrovable : ∀ {path : String} {n : Nat}, pathRejected path = false → escapedBytes path = n →
      n ≤ 8 → (∃ preview, ApprovalPreview.new
        ("workspace_write_file (" ++ toString (controls 1356).utf8ByteSize ++ " bytes)") path = .ok preview) →
      Approvable (fun _ => []) (plainWrite (writeInput path (controls 1356))).arguments ⟨path, controls 1356⟩ := by
    intro path n hpath hbytes hn hshown
    refine approvable_writeInput hpath ?_ hshown ?_
    · rw [utf8ByteSize_controls]
      decide
    · rw [hbytes, hcontent]
      have hlimit : maxActionArgumentBytes = 8192 := rfl
      omega
  have htext : ∀ {path : String} {n : Nat}, escapedBytes path = n →
      utf8Len ((plainWrite (writeInput path (controls 1356))).arguments.text fun _ => []) = n + 8169 := by
    intro path n hbytes
    have hwrites : WritesTo path (controls 1356) (writeInput path (controls 1356)) := writeInput_writes
    change utf8Len ((writeInput path (controls 1356)).text fun _ => []) = n + 8169
    rw [writeArguments_bytes hwrites, hbytes, hcontent]
  have hpath : escapedBytes "abc.txt" = 7 := by decide +kernel
  have hpath' : escapedBytes "abcd.txt" = 8 := by decide +kernel
  constructor
  · refine ((sealed_iff sampleHarness ⟨1, 7#256, ⟨"write"⟩, ⟨3⟩⟩ sampleSealer openSeals_appendsTag
      (happrovable (by decide +kernel) hpath (by decide)
        ⟨⟨"workspace_write_file (1356 bytes)", "abc.txt"⟩, ?_⟩)).1 _ _).mpr ?_
    · rw [utf8ByteSize_controls]
      decide +kernel
    · rw [htext hpath]
      decide
  · refine mt ((sealed_iff sampleHarness ⟨1, 7#256, ⟨"write"⟩, ⟨3⟩⟩ sampleSealer openSeals_appendsTag
      (happrovable (by decide +kernel) hpath' (by decide)
        ⟨⟨"workspace_write_file (1356 bytes)", "abcd.txt"⟩, ?_⟩)).1 _ _).mp ?_
    · rw [utf8ByteSize_controls]
      decide +kernel
    · rw [htext hpath']
      decide

end LocalAgent
