import LocalAgent.Knowledge.Evidence
import LocalAgent.Lib.Sorted

/-!
# What the manifest digest binds (`agent-knowledge/src/lib.rs:913-931`)

Items and snapshots follow each other without a count, and the version of a snapshot has no length
before it. Two facts about bytes make up for it. A reference of at most 256 bytes has a length that
begins with a zero, where a version has a character that is no control character, so the second byte
of a part tells an item from a snapshot. And no byte of a version is the byte of a backend, so a
version ends where the next byte is below 32.

Main theorem: `manifestInput_eq_iff`.
-/
namespace LocalAgent.Knowledge

open Encoding Utf8

/-- What the digest takes from an item. -/
def manifestEntry (sha256 : List UInt8 → Bytes32) (item : Evidence) : KnowledgeBackendId × String × Bytes32 :=
  (item.source.backend, item.referenceId, sha256 item.content.toUTF8.toList)

theorem backendByte_inj {b b' : KnowledgeBackendId} (h : backendByte b = backendByte b') : b = b' := by
  cases b <;> cases b' <;> first | rfl | cases h

theorem boolByte_inj {b b' : Bool} (h : boolByte b = boolByte b') : b = b' := by
  cases b <;> cases b' <;> first | rfl | cases h

theorem splits_backendByte (b b' : KnowledgeBackendId) : Splits [backendByte b] [backendByte b'] :=
  .of_length rfl

/-! ## Items -/

section Items

variable {sha256 : List UInt8 → Bytes32} {item item' : Evidence}

theorem Evidence.reference_short (item : Evidence) : item.referenceId.utf8ByteSize < 256 ^ 7 := by
  have haccepted := item.accepted
  unfold evidenceError at haccepted
  split_ifs at haccepted with _ _ hmetadata
  simp only [boundedSafe, Bool.or_eq_true, Bool.not_eq_true', not_or, Bool.not_eq_false, Bool.and_eq_true,
    decide_eq_true_eq] at hmetadata
  omega

/-- The length and the bytes of the reference. -/
theorem itemBytes_eq (sha256 : List UInt8 → Bytes32) (item : Evidence) : itemBytes sha256 item =
    [backendByte item.source.backend] ++ sized 8 item.referenceId.toUTF8.toList ++
      beBytes 32 (sha256 item.content.toUTF8.toList).toNat := by
  simp only [itemBytes, sized, length_utf8, List.append_assoc]

theorem splits_reference (item item' : Evidence) :
    Splits (sized 8 item.referenceId.toUTF8.toList) (sized 8 item'.referenceId.toUTF8.toList) := by
  have hle : 256 ^ 7 ≤ 256 ^ 8 := by decide
  exact splits_sized (by rw [length_utf8]; exact item.reference_short.trans_le hle)
    (by rw [length_utf8]; exact item'.reference_short.trans_le hle)

theorem splits_itemHead (item item' : Evidence) :
    Splits ([backendByte item.source.backend] ++ sized 8 item.referenceId.toUTF8.toList)
      ([backendByte item'.source.backend] ++ sized 8 item'.referenceId.toUTF8.toList) :=
  (splits_backendByte _ _).append (splits_reference item item')

theorem splits_itemBytes (sha256 : List UInt8 → Bytes32) (item item' : Evidence) :
    Splits (itemBytes sha256 item) (itemBytes sha256 item') := by
  rw [itemBytes_eq, itemBytes_eq]
  exact (splits_itemHead item item').append (splits_beBytes 32 _ _)

theorem itemBytes_eq_iff : itemBytes sha256 item = itemBytes sha256 item' ↔
    manifestEntry sha256 item = manifestEntry sha256 item' := by
  rw [itemBytes_eq, itemBytes_eq]
  simp only [manifestEntry, Prod.mk.injEq]
  constructor
  · intro h
    obtain ⟨hhead, hhash⟩ := splits_itemHead item item' h
    obtain ⟨hbackend, hreference⟩ := List.cons.inj hhead
    have hdigest := beBytes_inj (n := 32) (sha256 item.content.toUTF8.toList).isLt
      (sha256 item'.content.toUTF8.toList).isLt hhash
    exact ⟨backendByte_inj hbackend, utf8_inj (sized_inj hreference), BitVec.eq_of_toNat_eq hdigest⟩
  · rintro ⟨hbackend, hreference, hhash⟩
    rw [hbackend, hreference, hhash]

/-- A part whose second byte is zero. -/
def ItemSign (part : List UInt8) : Prop := ∃ b rest, part = b :: 0 :: rest

theorem itemSign_itemBytes (sha256 : List UInt8 → Bytes32) (item : Evidence) :
    ItemSign (itemBytes sha256 item) := by
  have hlen : item.referenceId.toUTF8.toList.length < 256 ^ 7 := by
    rw [length_utf8]
    exact item.reference_short
  rw [itemBytes_eq, sized, beBytes_of_lt hlen]
  exact ⟨_, _, rfl⟩

theorem ItemSign.append {part : List UInt8} (h : ItemSign part) (rest : List UInt8) :
    ItemSign (part ++ rest) := by
  obtain ⟨b, tail, rfl⟩ := h
  exact ⟨b, tail ++ rest, rfl⟩

end Items

/-! ## Snapshots -/

section Snapshots

variable {snapshot snapshot' : KnowledgeSnapshotMetadata}

/-- A byte that a version may have. -/
def VersionByte (b : UInt8) : Prop := 32 ≤ b.toNat

theorem version_bytes (h : snapshot.isValid = true) : ∀ b ∈ snapshot.version.toUTF8.toList, VersionByte b := by
  intro b hb
  refine utf8_ge (fun c hc => ?_) hb
  simp only [KnowledgeSnapshotMetadata.isValid, validKnowledgeId, Bool.and_eq_true, Bool.not_eq_true',
    List.any_eq_false] at h
  have hcontrol := h.2 c hc
  simp only [Text.isControl, Bool.or_eq_true, decide_eq_true_eq, not_or] at hcontrol
  omega

theorem version_ne_nil (h : snapshot.isValid = true) : snapshot.version.toUTF8.toList ≠ [] := by
  simp only [KnowledgeSnapshotMetadata.isValid, validKnowledgeId, Bool.and_eq_true, Bool.not_eq_true',
    String.isEmpty_eq_false_iff] at h
  rw [← List.length_pos_iff, length_utf8]
  exact Nat.pos_of_ne_zero fun hzero => h.1.1 (String.utf8ByteSize_eq_zero_iff.mp hzero)

theorem backendByte_lt (b : KnowledgeBackendId) : ¬ VersionByte (backendByte b) := by
  cases b <;> simp [VersionByte, backendByte]

theorem splits_snapshotBytes (h : snapshot.isValid = true) (h' : snapshot'.isValid = true) :
    SplitsBefore (Marked VersionByte) (snapshotBytes snapshot) (snapshotBytes snapshot') :=
  (splits_backendByte _ _).append_before fun _ => splitsBefore_of_all (version_bytes h) (version_bytes h')

theorem snapshotBytes_inj (h : snapshotBytes snapshot = snapshotBytes snapshot') : snapshot = snapshot' := by
  obtain ⟨hbackend, hversion⟩ := List.cons.inj h
  cases snapshot
  cases snapshot'
  exact KnowledgeSnapshotMetadata.mk.injEq .. ▸ ⟨backendByte_inj hbackend, utf8_inj hversion⟩

/-- A part that begins with the byte of a backend. -/
theorem marked_snapshotBytes (snapshot : KnowledgeSnapshotMetadata) :
    Marked (fun b => ¬ VersionByte b) (snapshotBytes snapshot) :=
  marked_cons.mpr (backendByte_lt snapshot.backend)

/-- No snapshot looks like an item. -/
theorem not_itemSign_snapshots {snapshots : List KnowledgeSnapshotMetadata}
    (h : ∀ s ∈ snapshots, s.isValid = true) : ¬ ItemSign (snapshots.flatMap snapshotBytes) := by
  rintro ⟨b, rest, heq⟩
  cases snapshots with
  | nil => cases heq
  | cons s snapshots =>
    have hvalid := h s List.mem_cons_self
    obtain ⟨c, version, hversion⟩ := List.exists_cons_of_ne_nil (version_ne_nil hvalid)
    have hbyte := version_bytes hvalid c (by rw [hversion]; exact List.mem_cons_self)
    rw [List.flatMap_cons, snapshotBytes, hversion] at heq
    simp only [List.cons_append, List.nil_append, List.cons.injEq] at heq
    rw [heq.2.1] at hbyte
    exact absurd hbyte (by simp [VersionByte])

/-- Snapshots are told from the bytes of all of them. -/
theorem snapshots_inj {snapshots snapshots' : List KnowledgeSnapshotMetadata}
    (h : ∀ s ∈ snapshots, s.isValid = true) (h' : ∀ s ∈ snapshots', s.isValid = true)
    (heq : snapshots.flatMap snapshotBytes = snapshots'.flatMap snapshotBytes) : snapshots = snapshots' := by
  have hmarked : ∀ (ss : List KnowledgeSnapshotMetadata), ∀ p ∈ ss.map snapshotBytes,
      Marked (fun b => ¬ VersionByte b) p := by
    intro ss p hp
    obtain ⟨s, -, rfl⟩ := List.mem_map.mp hp
    exact marked_snapshotBytes s
  have hends : ∀ p : List UInt8, Marked (fun b => ¬ VersionByte b) p → ¬ Marked VersionByte p := by
    rintro p ⟨b, hb, hlow⟩ ⟨c, hc, hhigh⟩
    obtain rfl := Option.mem_unique hb hc
    exact hlow hhigh
  have hsplit : ∀ p ∈ snapshots.map snapshotBytes, ∀ q ∈ snapshots'.map snapshotBytes,
      SplitsBefore (Marked VersionByte) p q := by
    intro p hp q hq
    obtain ⟨s, hs, rfl⟩ := List.mem_map.mp hp
    obtain ⟨s', hs', rfl⟩ := List.mem_map.mp hq
    exact splits_snapshotBytes (h s hs) (h' s' hs')
  rw [List.flatMap_def, List.flatMap_def] at heq
  obtain ⟨hwords, -⟩ := flatten_signed (fun _ r hp => hp.append r) hends (hmarked snapshots)
    (hmarked snapshots') ⟨not_marked_nil, not_marked_nil⟩ ⟨not_marked_nil, not_marked_nil⟩ hsplit
    (congrArg (· ++ []) heq)
  exact List.map_injective_iff.mpr (fun _ _ => snapshotBytes_inj) hwords

end Snapshots

/-! ## The whole manifest -/

/-- What is fed to the hash for a set. -/
def EvidenceSet.manifestInput (sha256 : List UInt8 → Bytes32) (set : EvidenceSet) : List UInt8 :=
  Knowledge.manifestInput sha256 set.evidence set.snapshots set.truncated set.degraded

/-- **The manifest digest binds the evidence.** What is fed to the hash is equal exactly if the flags,
the backends, references and content hashes of the items in their order, and the snapshots in theirs
are equal. -/
theorem manifestInput_eq_iff (sha256 : List UInt8 → Bytes32) (set set' : EvidenceSet)
    (h : ∀ s ∈ set.snapshots, s.isValid = true) (h' : ∀ s ∈ set'.snapshots, s.isValid = true) :
    set.manifestInput sha256 = set'.manifestInput sha256 ↔
      set.truncated = set'.truncated ∧ set.degraded = set'.degraded ∧
        set.evidence.map (manifestEntry sha256) = set'.evidence.map (manifestEntry sha256) ∧
        set.snapshots.map (fun s => (s.backend, s.version)) =
          set'.snapshots.map (fun s => (s.backend, s.version)) := by
  unfold EvidenceSet.manifestInput manifestInput
  constructor
  · intro heq
    simp only [List.cons_append, List.nil_append, List.cons.injEq] at heq
    obtain ⟨htruncated, hdegraded, hparts⟩ := heq
    have hsigned : ∀ (items : List Evidence), ∀ p ∈ items.map (itemBytes sha256), ItemSign p := by
      intro items p hp
      obtain ⟨item, -, rfl⟩ := List.mem_map.mp hp
      exact itemSign_itemBytes sha256 item
    have hsplit : ∀ p ∈ set.evidence.map (itemBytes sha256), ∀ q ∈ set'.evidence.map (itemBytes sha256),
        SplitsBefore (fun _ => False) p q := by
      intro p hp q hq
      obtain ⟨item, -, rfl⟩ := List.mem_map.mp hp
      obtain ⟨item', -, rfl⟩ := List.mem_map.mp hq
      exact (splits_itemBytes sha256 item item').before
    rw [List.flatMap_def, List.flatMap_def] at hparts
    obtain ⟨hitems, hsnapshots⟩ := flatten_signed (fun _ r hp => hp.append r) (fun _ _ => id)
      (hsigned set.evidence) (hsigned set'.evidence) ⟨not_itemSign_snapshots h, id⟩
      ⟨not_itemSign_snapshots h', id⟩ hsplit hparts
    refine ⟨boolByte_inj htruncated, boolByte_inj hdegraded, ?_, ?_⟩
    · exact Sorted.map_eq_of_map_eq (fun _ _ _ _ => itemBytes_eq_iff.mp) hitems
    · rw [snapshots_inj h h' hsnapshots]
  · rintro ⟨htruncated, hdegraded, hitems, hsnapshots⟩
    have hbytes := Sorted.map_eq_of_map_eq (g := itemBytes sha256) (fun _ _ _ _ => itemBytes_eq_iff.mpr) hitems
    have hsnapshotBytes := Sorted.map_eq_of_map_eq (g := snapshotBytes) (fun s _ s' _ hss => by
      simp only [Prod.mk.injEq] at hss
      rw [snapshotBytes, snapshotBytes, hss.1, hss.2]) hsnapshots
    rw [htruncated, hdegraded, List.flatMap_def, hbytes, List.flatMap_def, hsnapshotBytes,
      ← List.flatMap_def, ← List.flatMap_def]

/-- Sets that differ in a flag. -/
theorem manifestInput_ne_of_truncated :
    let item := Evidence.plain .ocppRagKag 1 "a" "text" "r" none (by decide +kernel) (by decide +kernel)
    let set : EvidenceSet := ⟨[item], [⟨.ocppRagKag, "v1"⟩], [], false, false, 0⟩
    let set' : EvidenceSet := ⟨[item], [⟨.ocppRagKag, "v1"⟩], [], true, false, 0⟩
    set.manifestInput (fun _ => 0) ≠ set'.manifestInput (fun _ => 0) := by
  intro item set set' heq
  have hvalid : ∀ s ∈ [(⟨.ocppRagKag, "v1"⟩ : KnowledgeSnapshotMetadata)], s.isValid = true := by decide +kernel
  exact Bool.false_ne_true ((manifestInput_eq_iff (fun _ => 0) set set' hvalid hvalid).mp heq).1

end LocalAgent.Knowledge
