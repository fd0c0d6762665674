import LocalAgent.Knowledge.Evidence
import LocalAgent.Lib.Fold
import LocalAgent.Lib.Sorted
import Mathlib.Data.String.Basic
import Mathlib.Data.Prod.Lex

/-!
# Merging the results of backends (`agent-knowledge/src/lib.rs:808-890`)

The items of all results are sorted by rank, priority of the backend and id, and taken in this order
as long as they are new and fit. What is new is decided by a key, the canonical reference of an item
or the hash of its content. Items with one sort key are of one backend, so the order in which the
results arrived is forgotten.

Main theorem: `merge_ok_spec`.
-/
namespace LocalAgent.Knowledge

open Encoding FailingFold

/-- What backends returned. -/
abbrev Results := List (KnowledgeBackendId × Except KnowledgeError BackendEvidenceSet)

/-! ## The merge -/

/-- The loop over the results (lib.rs:817-827): the sets, and the backends that failed. -/
def partitionResults (policy : FederatedFailurePolicy) :
    Results → Except KnowledgeError (List BackendEvidenceSet × List KnowledgeBackendId)
  | [] => .ok ([], [])
  | (_, .ok set) :: rest => do
    let (successful, failed) ← partitionResults policy rest
    .ok (set :: successful, failed)
  | (backend, .error e) :: rest =>
    if policy = .requireAll then .error e
    else do
      let (successful, failed) ← partitionResults policy rest
      .ok (successful, backend :: failed)

/-- The place of a backend in the route (lib.rs:832-838). -/
def priority (route : KnowledgeRoute) (backend : KnowledgeBackendId) : Nat :=
  (route.backends.idxOf? backend).getD usizeMax

/-- What items are sorted by (lib.rs:843-852). -/
def sortKey (route : KnowledgeRoute) (item : Evidence) : ℕ ×ₗ ℕ ×ₗ String :=
  toLex (item.backendRank, toLex (priority route item.source.backend, item.id.value))

/-- `hex` (lib.rs:945). -/
def hex (bytes : List UInt8) : String :=
  String.ofList (bytes.flatMap fun b => [Nat.digitChar (b.toNat / 16), Nat.digitChar (b.toNat % 16)])

/-- What an item is known by (lib.rs:860-863). -/
def dedupKey (sha256 : List UInt8 → Bytes32) (item : Evidence) : String :=
  item.canonicalReference.getD ("content:" ++ hex (beBytes 32 (sha256 item.content.toUTF8.toList).toNat))

/-- The variables of the selection loop. -/
structure Selection where
  selected : List Evidence
  dedup : List String
  totalBytes : Nat
  truncated : Bool

/-- There is no room for the item (lib.rs:868-870). -/
def Selection.full (limits : RetrievalLimits) (s : Selection) (item : Evidence) : Bool :=
  s.selected.length ≥ limits.maxResults || item.bytes > limits.maxItemBytes
    || min (s.totalBytes + item.bytes) usizeMax > limits.maxTotalBytes

/-- One round of the selection loop (lib.rs:859-877). -/
def Selection.step (sha256 : List UInt8 → Bytes32) (limits : RetrievalLimits) (s : Selection)
    (item : Evidence) : Selection :=
  let key := dedupKey sha256 item
  if key ∈ s.dedup then { s with truncated := true }
  else if s.full limits item then { s with dedup := key :: s.dedup, truncated := true }
  else { s with
    selected := s.selected ++ [item]
    dedup := key :: s.dedup
    totalBytes := s.totalBytes + item.bytes }

/-- The items in the order in which they are considered. -/
def ordered (route : KnowledgeRoute) (successful : List BackendEvidenceSet) : List Evidence :=
  (successful.flatMap (·.evidence)).insertionSort (Sorted.Before (sortKey route))

/-- The selection before its first round (lib.rs:854-858). -/
def Selection.start (successful : List BackendEvidenceSet) : Selection :=
  ⟨[], [], 0, successful.any (·.truncated)⟩

/-- `merge_backend_results` (lib.rs:808). -/
def mergeBackendResults (sha256 : List UInt8 → Bytes32) (request : KnowledgeRequest) (results : Results) :
    Except KnowledgeError EvidenceSet := do
  let (successful, failed) ← partitionResults request.route.failurePolicy results
  if successful.isEmpty && !failed.isEmpty then .error .allBackendsFailed
  else
    let s := (ordered request.route successful).foldl (Selection.step sha256 request.limits)
      (.start successful)
    match EvidenceSet.build sha256 s.selected (successful.filterMap (·.snapshot)) failed s.truncated
        (!failed.isEmpty) with
    | .ok set => .ok set
    | .error _ => .error .malformedResponse

/-! ## The results -/

/-- The sets that were returned. -/
def successes (results : Results) : List BackendEvidenceSet := results.filterMap fun r => r.2.toOption

/-- The backends that failed. -/
def failures (results : Results) : List KnowledgeBackendId :=
  results.filterMap fun r => match r.2 with
    | .ok _ => none
    | .error _ => some r.1

/-- All items that were returned. -/
def candidates (results : Results) : List Evidence := (successes results).flatMap (·.evidence)

section Results

variable {policy : FederatedFailurePolicy} {results results' : Results}
  {p : List BackendEvidenceSet × List KnowledgeBackendId}

theorem partitionResults_ok : partitionResults policy results = .ok p ↔
    (policy = .requireAll → failures results = []) ∧ p = (successes results, failures results) := by
  induction results generalizing p with
  | nil => simp [partitionResults, successes, failures, eq_comm]
  | cons r rest ih =>
    obtain ⟨backend, outcome⟩ := r
    cases outcome with
    | ok set =>
      have hfail : failures ((backend, .ok set) :: rest) = failures rest := rfl
      have hsucc : successes ((backend, .ok set) :: rest) = set :: successes rest := rfl
      rw [partitionResults, bind_eq_ok, hfail, hsucc]
      constructor
      · rintro ⟨⟨s, f⟩, hrest, hp⟩
        obtain ⟨hpolicy, hsf⟩ := ih.mp hrest
        obtain ⟨rfl, rfl⟩ := Prod.mk.inj hsf
        exact ⟨hpolicy, (Except.ok.inj hp).symm⟩
      · rintro ⟨hpolicy, rfl⟩
        exact ⟨_, ih.mpr ⟨hpolicy, rfl⟩, rfl⟩
    | error e =>
      have hfail : failures ((backend, .error e) :: rest) = backend :: failures rest := rfl
      have hsucc : successes ((backend, .error e) :: rest) = successes rest := rfl
      rw [partitionResults, hfail, hsucc]
      by_cases hpolicy : policy = .requireAll
      · simp [hpolicy]
      · rw [if_neg hpolicy, bind_eq_ok]
        constructor
        · rintro ⟨⟨s, f⟩, hrest, hp⟩
          obtain ⟨-, hsf⟩ := ih.mp hrest
          obtain ⟨rfl, rfl⟩ := Prod.mk.inj hsf
          exact ⟨fun h => absurd h hpolicy, (Except.ok.inj hp).symm⟩
        · rintro ⟨-, rfl⟩
          exact ⟨_, ih.mpr ⟨fun h => absurd h hpolicy, rfl⟩, rfl⟩

theorem failures_eq_nil_iff : failures results = [] ↔ ∀ r ∈ results, ∃ set, r.2 = .ok set := by
  unfold failures
  rw [List.filterMap_eq_nil_iff]
  refine forall₂_congr fun r _ => ?_
  cases r.2 <;> simp

/-- The order of the results decides neither success nor which sets there are. -/
theorem successes_perm (h : results.Perm results') : (successes results).Perm (successes results') :=
  h.filterMap _

theorem failures_perm (h : results.Perm results') : (failures results).Perm (failures results') :=
  h.filterMap _

end Results

/-! ## The selection loop -/

namespace Selection

section Loop

variable {sha256 : List UInt8 → Bytes32} {limits : RetrievalLimits} {s : Selection} {item : Evidence}
  {items : List Evidence}

/-- There is room for the item. -/
def Admits (limits : RetrievalLimits) (s : Selection) (item : Evidence) : Prop :=
  s.selected.length < limits.maxResults ∧ item.bytes ≤ limits.maxItemBytes ∧
    s.totalBytes + item.bytes ≤ limits.maxTotalBytes

theorem maxTotalBytes_le (limits : RetrievalLimits) : limits.maxTotalBytes ≤ maxTotalEvidenceBytes := by
  have h := limits.accepted
  simp only [Bool.not_eq_true', Bool.or_eq_false_iff, decide_eq_false_iff_not, Nat.not_lt] at h
  exact h.2

theorem maxResults_le (limits : RetrievalLimits) : limits.maxResults ≤ Knowledge.maxResults := by
  have h := limits.accepted
  simp only [Bool.not_eq_true', Bool.or_eq_false_iff, decide_eq_false_iff_not, Nat.not_lt] at h
  exact h.1.1.1.1.2

/-- The sum that saturates is over the limit as the sum is. -/
theorem full_eq_false_iff : s.full limits item = false ↔ s.Admits limits item := by
  have hlimit := maxTotalBytes_le limits
  have hmax : maxTotalEvidenceBytes < usizeMax := by decide
  simp only [full, Admits, Bool.or_eq_false_iff, decide_eq_false_iff_not, Nat.not_le, Nat.not_lt, and_assoc]
  omega

/-- One round: a key that was seen, no room, or the item is taken. -/
theorem step_cases (sha256 : List UInt8 → Bytes32) (limits : RetrievalLimits) (s : Selection) (item : Evidence) :
    (dedupKey sha256 item ∈ s.dedup ∧ s.step sha256 limits item = { s with truncated := true }) ∨
    (dedupKey sha256 item ∉ s.dedup ∧ ¬ s.Admits limits item ∧ s.step sha256 limits item =
      { s with dedup := dedupKey sha256 item :: s.dedup, truncated := true }) ∨
    (dedupKey sha256 item ∉ s.dedup ∧ s.Admits limits item ∧ s.step sha256 limits item =
      ⟨s.selected ++ [item], dedupKey sha256 item :: s.dedup, s.totalBytes + item.bytes, s.truncated⟩) := by
  by_cases hkey : dedupKey sha256 item ∈ s.dedup
  · exact .inl ⟨hkey, by simp [step, hkey]⟩
  · cases hfull : s.full limits item with
    | true =>
      have hroom : ¬ s.Admits limits item := by
        rw [← full_eq_false_iff, hfull]
        simp
      exact .inr (.inl ⟨hkey, hroom, by simp [step, hkey, hfull]⟩)
    | false => exact .inr (.inr ⟨hkey, full_eq_false_iff.mp hfull, by simp [step, hkey, hfull]⟩)

/-- What has been selected is within the limits. -/
structure Within (limits : RetrievalLimits) (s : Selection) : Prop where
  results : s.selected.length ≤ limits.maxResults
  items : ∀ item ∈ s.selected, item.bytes ≤ limits.maxItemBytes
  sum : s.totalBytes = (s.selected.map Evidence.bytes).sum
  total : s.totalBytes ≤ limits.maxTotalBytes

theorem step_within (h : s.Within limits) : (s.step sha256 limits item).Within limits := by
  rcases step_cases sha256 limits s item with ⟨-, heq⟩ | ⟨-, -, heq⟩ | ⟨-, hroom, heq⟩
  · rw [heq]
    exact ⟨h.results, h.items, h.sum, h.total⟩
  · rw [heq]
    exact ⟨h.results, h.items, h.sum, h.total⟩
  · rw [heq]
    obtain ⟨hlen, hitem, htotal⟩ := hroom
    refine ⟨?_, ?_, ?_, htotal⟩
    · simp only [List.length_append, List.length_singleton]
      omega
    · intro other hother
      rcases List.mem_append.mp hother with hother | hother
      · exact h.items other hother
      · rwa [List.mem_singleton.mp hother]
    · simp [h.sum]

theorem foldl_within (h : s.Within limits) : (items.foldl (step sha256 limits) s).Within limits := by
  induction items generalizing s with
  | nil => exact h
  | cons item items ih => exact ih (step_within h)

theorem start_within (successful : List BackendEvidenceSet) : (start successful).Within limits where
  results := Nat.zero_le _
  items := fun _ h => absurd h List.not_mem_nil
  sum := rfl
  total := Nat.zero_le _

/-- The loop takes some of the items in their order, and notes it when it leaves one out. -/
theorem foldl_selected (sha256 : List UInt8 → Bytes32) (limits : RetrievalLimits) (s : Selection)
    (items : List Evidence) : ∃ chosen : List Evidence, chosen.Sublist items ∧
    (items.foldl (step sha256 limits) s).selected = s.selected ++ chosen ∧
    ((items.foldl (step sha256 limits) s).truncated = true ↔
      s.truncated = true ∨ chosen.length < items.length) := by
  induction items generalizing s with
  | nil => exact ⟨[], .slnil, by simp, by simp⟩
  | cons item items ih =>
    obtain ⟨chosen, hsub, hselected, htruncated⟩ := ih (s.step sha256 limits item)
    have hlen := hsub.length_le
    rw [List.foldl_cons]
    rcases step_cases sha256 limits s item with ⟨-, heq⟩ | ⟨-, -, heq⟩ | ⟨-, -, heq⟩
    · rw [heq] at hselected htruncated ⊢
      refine ⟨chosen, hsub.cons item, hselected, ?_⟩
      simp only [htruncated, List.length_cons, true_or, true_iff]
      exact .inr (by omega)
    · rw [heq] at hselected htruncated ⊢
      refine ⟨chosen, hsub.cons item, hselected, ?_⟩
      simp only [htruncated, List.length_cons, true_or, true_iff]
      exact .inr (by omega)
    · rw [heq] at hselected htruncated ⊢
      refine ⟨item :: chosen, hsub.cons_cons item, by rw [hselected, List.append_assoc]; rfl, ?_⟩
      simp only [htruncated, List.length_cons, Nat.add_lt_add_iff_right]

end Loop

end Selection

/-! ## The merged set -/

section Merged

variable {sha256 : List UInt8 → Bytes32} {request : KnowledgeRequest} {results results' : Results}
  {set : EvidenceSet}

/-- The selection at its end. -/
def selection (sha256 : List UInt8 → Bytes32) (request : KnowledgeRequest) (results : Results) : Selection :=
  (ordered request.route (successes results)).foldl (Selection.step sha256 request.limits)
    (.start (successes results))

theorem selection_within : (selection sha256 request results).Within request.limits :=
  Selection.foldl_within (Selection.start_within _)

theorem ordered_perm (route : KnowledgeRoute) (successful : List BackendEvidenceSet) :
    (ordered route successful).Perm (successful.flatMap (·.evidence)) := List.perm_insertionSort _ _

/-- The set that is built from it. -/
def merged (sha256 : List UInt8 → Bytes32) (request : KnowledgeRequest) (results : Results) : EvidenceSet :=
  let s := selection sha256 request results
  let snapshots := (successes results).filterMap (·.snapshot)
  let degraded := !(failures results).isEmpty
  ⟨s.selected, snapshots, failures results, s.truncated, degraded,
    sha256 (manifestInput sha256 s.selected snapshots s.truncated degraded)⟩

/-- What was selected is within the bounds of a set. -/
theorem build_selection (sha256 : List UInt8 → Bytes32) (request : KnowledgeRequest) (results : Results) :
    EvidenceSet.build sha256 (selection sha256 request results).selected
    ((successes results).filterMap (·.snapshot)) (failures results)
    (selection sha256 request results).truncated (!(failures results).isEmpty) =
      .ok (merged sha256 request results) := by
  have hwithin : (selection sha256 request results).Within request.limits := selection_within
  have hlen := hwithin.results.trans (Selection.maxResults_le request.limits)
  have htotal := hwithin.total.trans (Selection.maxTotalBytes_le request.limits)
  rw [hwithin.sum] at htotal
  simp only [EvidenceSet.build, Bool.or_eq_true, decide_eq_true_eq]
  rw [if_neg (by omega)]
  rfl

/-- A merge succeeds if no failure counts, and some backend did not fail. -/
theorem mergeBackendResults_ok : mergeBackendResults sha256 request results = .ok set ↔
    (request.route.failurePolicy = .requireAll → failures results = []) ∧
    (successes results = [] → failures results = []) ∧ set = merged sha256 request results := by
  have hempty : ((successes results).isEmpty && !(failures results).isEmpty) = true ↔
      ¬ (successes results = [] → failures results = []) := by simp
  have hbuild := build_selection sha256 request results
  unfold selection at hbuild
  unfold mergeBackendResults
  rw [bind_eq_ok]
  constructor
  · rintro ⟨p, hp, hmerge⟩
    obtain ⟨hpolicy, rfl⟩ := partitionResults_ok.mp hp
    simp only [hempty] at hmerge
    split at hmerge
    · cases hmerge
    · rename_i hsome
      rw [hbuild] at hmerge
      exact ⟨hpolicy, not_not.mp hsome, (Except.ok.inj hmerge).symm⟩
  · rintro ⟨hpolicy, hsome, rfl⟩
    refine ⟨_, partitionResults_ok.mpr ⟨hpolicy, rfl⟩, ?_⟩
    simp only [hempty]
    rw [if_neg (not_not.mpr hsome), hbuild]

/-! ## The order of the results -/

/-- Backends have different places in a valid route, one of them possibly none. -/
theorem priority_inj (request : KnowledgeRequest) {b b' : KnowledgeBackendId}
    (h : priority request.route b = priority request.route b') : b = b' := by
  have hvalid := request.route_valid
  have hbackends : request.route.metadata.backends = request.route.backends := by
    cases request.route <;> rfl
  rw [KnowledgeRouteMetadata.isValid, hbackends] at hvalid
  unfold priority at h
  generalize request.route.backends = backends at h hvalid
  rcases backends with _ | ⟨x, _ | ⟨y, _ | ⟨z, rest⟩⟩⟩
  · cases hvalid
  · cases x <;> cases b <;> cases b' <;> first | rfl | exact absurd h (by decide)
  · cases x <;> cases y <;> cases b <;> cases b' <;> first | rfl | exact absurd h (by decide)
  · simp [maxDurableKnowledgeBackends] at hvalid

/-- The items of a set are of its backend. -/
theorem BackendEvidenceSet.source_backend {set : BackendEvidenceSet} {item : Evidence}
    (h : item ∈ set.evidence) : item.source.backend = set.backend := by
  have haccepted := set.accepted
  simp only [Bool.not_eq_true', Bool.or_eq_false_iff, List.any_eq_false, decide_eq_true_eq, ne_eq,
    decide_not, Bool.not_eq_false] at haccepted
  exact haccepted.1.2 item h

/-- Sets of different backends have no items with one key. -/
theorem filter_key_eq_nil (request : KnowledgeRequest) {set set' : BackendEvidenceSet}
    (h : set.backend ≠ set'.backend) (k : ℕ ×ₗ ℕ ×ₗ String) :
    set.evidence.filter (sortKey request.route · = k) = [] ∨
      set'.evidence.filter (sortKey request.route · = k) = [] := by
  by_contra hboth
  obtain ⟨hset, hset'⟩ := not_or.mp hboth
  obtain ⟨item, hitem⟩ := List.exists_mem_of_ne_nil _ hset
  obtain ⟨item', hitem'⟩ := List.exists_mem_of_ne_nil _ hset'
  simp only [List.mem_filter, decide_eq_true_eq] at hitem hitem'
  have hkeys := hitem.2.trans hitem'.2.symm
  simp only [sortKey, toLex_inj, Prod.mk.injEq] at hkeys
  have hbackends := priority_inj request hkeys.2.1
  rw [BackendEvidenceSet.source_backend hitem.1, BackendEvidenceSet.source_backend hitem'.1] at hbackends
  exact h hbackends

/-- The items come in the same order, whatever the order of the results. -/
theorem ordered_of_perm (request : KnowledgeRequest) (h : results.Perm results')
    (hone : ((successes results).map (·.backend)).Nodup) :
    ordered request.route (successes results) = ordered request.route (successes results') := by
  refine Sorted.insertionSort_of_filter fun k => ?_
  rw [List.filter_flatMap, List.filter_flatMap]
  refine Sorted.flatMap_of_perm (successes_perm h) ?_
  exact (List.pairwise_map.mp hone).imp fun hne => filter_key_eq_nil request hne k

/-- The merge is the same, whatever the order of the results. -/
theorem selection_of_perm (h : results.Perm results')
    (hone : ((successes results).map (·.backend)).Nodup) :
    selection sha256 request results = selection sha256 request results' := by
  have hstart : Selection.start (successes results) = Selection.start (successes results') := by
    unfold Selection.start
    rw [(successes_perm h).any_eq]
  unfold selection
  rw [ordered_of_perm request h hone, hstart]

/-! ## The turns of the items -/

/-- The selection before the turn of the item that follows these. -/
def before (sha256 : List UInt8 → Bytes32) (request : KnowledgeRequest) (results : Results)
    (front : List Evidence) : Selection :=
  front.foldl (Selection.step sha256 request.limits) (.start (successes results))

/-- The item is left out at its turn. -/
def LeftOut (sha256 : List UInt8 → Bytes32) (request : KnowledgeRequest) (results : Results)
    (front : List Evidence) (item : Evidence) : Prop :=
  ((before sha256 request results front).step sha256 request.limits item).selected =
    (before sha256 request results front).selected

theorem before_concat (front : List Evidence) (item : Evidence) :
    before sha256 request results (front ++ [item]) =
      (before sha256 request results front).step sha256 request.limits item := by
  simp [before, List.foldl_append]

/-- The keys that count as seen are those of all items before. -/
theorem mem_dedup_iff {front : List Evidence} {key : String} :
    key ∈ (before sha256 request results front).dedup ↔ ∃ item ∈ front, dedupKey sha256 item = key := by
  induction front using List.reverseRecOn with
  | nil => simp [before, Selection.start]
  | append_singleton front item ih =>
    have hconcat : (∃ other ∈ front ++ [item], dedupKey sha256 other = key) ↔
        (∃ other ∈ front, dedupKey sha256 other = key) ∨ dedupKey sha256 item = key := by
      simp [or_and_right, exists_or]
    rw [before_concat, hconcat, ← ih]
    rcases Selection.step_cases sha256 request.limits (before sha256 request results front) item with
      ⟨hseen, heq⟩ | ⟨-, -, heq⟩ | ⟨-, -, heq⟩
    · rw [heq]
      exact ⟨.inl, fun h => h.elim id fun hkey => hkey ▸ hseen⟩
    all_goals
      rw [heq, List.mem_cons, or_comm, eq_comm]

/-- The item is the first of its key after these, and fits. -/
def Chosen (sha256 : List UInt8 → Bytes32) (request : KnowledgeRequest) (results : Results)
    (front : List Evidence) (item : Evidence) : Prop :=
  (∀ other ∈ front, dedupKey sha256 other ≠ dedupKey sha256 item) ∧
    (before sha256 request results front).Admits request.limits item

/-- Such an item is selected, and all others are left out. -/
theorem chosen_or_leftOut (sha256 : List UInt8 → Bytes32) (request : KnowledgeRequest) (results : Results)
    (front : List Evidence) (item : Evidence) :
    (Chosen sha256 request results front item ∧ (before sha256 request results (front ++ [item])).selected =
        (before sha256 request results front).selected ++ [item]) ∨
      (¬ Chosen sha256 request results front item ∧ LeftOut sha256 request results front item) := by
  have hseen : dedupKey sha256 item ∈ (before sha256 request results front).dedup ↔
      ¬ ∀ other ∈ front, dedupKey sha256 other ≠ dedupKey sha256 item := by
    rw [mem_dedup_iff]
    simp
  rw [before_concat]
  unfold LeftOut
  rcases Selection.step_cases sha256 request.limits (before sha256 request results front) item with
    ⟨hmem, heq⟩ | ⟨-, hroom, heq⟩ | ⟨hmem, hroom, heq⟩
  · exact .inr ⟨fun h => hseen.mp hmem h.1, by rw [heq]⟩
  · exact .inr ⟨fun h => hroom h.2, by rw [heq]⟩
  · exact .inl ⟨⟨not_not.mp (hseen.not.mp hmem), hroom⟩, by rw [heq]⟩

/-- The splits of a list that has grown by one entry. -/
theorem exists_split_concat {α : Type} {P : List α → Prop} {l : List α} {a x : α} :
    (∃ front back, l ++ [x] = front ++ a :: back ∧ P front) ↔
      (∃ front back, l = front ++ a :: back ∧ P front) ∨ (a = x ∧ P l) := by
  constructor
  · rintro ⟨front, back, heq, hP⟩
    rcases List.eq_nil_or_concat back with rfl | ⟨back, y, rfl⟩
    · obtain ⟨rfl, hx⟩ := List.append_inj' heq rfl
      exact .inr ⟨(List.singleton_inj.mp hx).symm, hP⟩
    · rw [List.concat_eq_append, ← List.cons_append, ← List.append_assoc] at heq
      obtain ⟨rfl, -⟩ := List.append_inj' heq rfl
      exact .inl ⟨front, back, rfl, hP⟩
  · rintro (⟨front, back, rfl, hP⟩ | ⟨rfl, hP⟩)
    · exact ⟨front, back ++ [x], by simp, hP⟩
    · exact ⟨l, [], rfl, hP⟩

/-- What has been selected is what was chosen at its turn. -/
theorem mem_selected_iff {items : List Evidence} {item : Evidence} :
    item ∈ (before sha256 request results items).selected ↔
      ∃ front back, items = front ++ item :: back ∧ Chosen sha256 request results front item := by
  induction items using List.reverseRecOn with
  | nil => simp [before, Selection.start]
  | append_singleton items x ih =>
    rw [exists_split_concat, ← ih]
    rcases chosen_or_leftOut sha256 request results items x with
      ⟨hchosen, heq⟩ | ⟨hout, heq⟩
    · rw [heq, List.mem_append, List.mem_singleton]
      constructor
      · rintro (h | rfl)
        · exact .inl h
        · exact .inr ⟨rfl, hchosen⟩
      · rintro (h | ⟨rfl, -⟩)
        · exact .inl h
        · exact .inr rfl
    · rw [before_concat, heq]
      constructor
      · exact .inl
      · rintro (h | ⟨rfl, h⟩)
        · exact h
        · exact absurd h hout

/-! ## The result of a merge -/

/-- **Merged evidence is bounded, ordered and independent of arrival.** One result per backend is asked of
the sets that were returned, and of their own backends, which the loop sorts by. An item is kept if at
its turn it is the first of its key and there is room for it, and no other item is. -/
theorem merge_ok_spec (sha256 : List UInt8 → Bytes32) (request : KnowledgeRequest) (results : Results)
    (hone : ((successes results).map (·.backend)).Nodup)
    (h : mergeBackendResults sha256 request results = .ok set) :
    set.evidence.Subperm (candidates results) ∧
    (∀ item, item ∈ set.evidence ↔ ∃ front back,
      ordered request.route (successes results) = front ++ item :: back ∧
        Chosen sha256 request results front item) ∧
    set.evidence.Pairwise (fun a b => sortKey request.route a ≤ sortKey request.route b) ∧
    set.evidence.length ≤ request.limits.maxResults ∧
    (∀ item ∈ set.evidence, item.bytes ≤ request.limits.maxItemBytes) ∧
    (set.evidence.map Evidence.bytes).sum ≤ request.limits.maxTotalBytes ∧
    (set.truncated = true ↔
      set.evidence.length < (candidates results).length ∨ ∃ s ∈ successes results, s.truncated = true) ∧
    (set.degraded = true ↔ ∃ r ∈ results, ∃ e, r.2 = .error e) ∧
    ∀ results', results.Perm results' → ∃ set', mergeBackendResults sha256 request results' = .ok set' ∧
      set'.evidence = set.evidence ∧ set'.truncated = set.truncated ∧ set'.degraded = set.degraded := by
  obtain ⟨hpolicy, hsome, rfl⟩ := mergeBackendResults_ok.mp h
  have hwithin : (selection sha256 request results).Within request.limits := selection_within
  obtain ⟨chosen, hsub, hselected, htruncated⟩ := Selection.foldl_selected sha256 request.limits
    (.start (successes results)) (ordered request.route (successes results))
  have hevidence : (merged sha256 request results).evidence = chosen := hselected
  have hperm : (ordered request.route (successes results)).Perm (candidates results) := ordered_perm _ _
  refine ⟨?_, fun item => mem_selected_iff, ?_, hwithin.results, hwithin.items,
    hwithin.sum ▸ hwithin.total, ?_, ?_, ?_⟩
  · rw [hevidence]
    exact hsub.subperm.trans hperm.subperm
  · rw [hevidence]
    exact (List.pairwise_insertionSort (Sorted.Before (sortKey request.route)) _).sublist hsub
  · rw [hevidence, ← hperm.length_eq, or_comm]
    exact htruncated.trans (or_congr_left (by simp [Selection.start]))
  · have hfailed : (merged sha256 request results).degraded = true ↔ failures results ≠ [] := by
      simp [merged]
    rw [hfailed, ne_eq, failures_eq_nil_iff]
    simp only [not_forall, not_exists]
    refine exists_congr fun r => ?_
    cases r.2 <;> simp
  · intro results' hresults
    have hfailures := failures_perm hresults
    have hnil : failures results' = [] ↔ failures results = [] := by
      rw [← List.length_eq_zero_iff, ← List.length_eq_zero_iff, hfailures.length_eq]
    have hnil' : successes results' = [] ↔ successes results = [] := by
      rw [← List.length_eq_zero_iff, ← List.length_eq_zero_iff, (successes_perm hresults).length_eq]
    refine ⟨_, mergeBackendResults_ok.mpr ⟨?_, ?_, rfl⟩, ?_, ?_, ?_⟩
    · rwa [hnil]
    · rwa [hnil, hnil']
    · simp only [merged, selection_of_perm hresults hone]
    · simp only [merged, selection_of_perm hresults hone]
    · have hempty : (failures results').isEmpty = (failures results).isEmpty := by
        rw [Bool.eq_iff_iff, List.isEmpty_iff, List.isEmpty_iff, hnil]
      simp only [merged, hempty]

end Merged

/-! ### Two backends -/

def standardsFirst : KnowledgeRequest where
  route := .federated [.standardsMcp, .ocppRagKag] .allowPartial
  limits := ⟨8, 4096, 16384, by decide⟩
  route_valid := by decide

def oneItem (backend : KnowledgeBackendId) : BackendEvidenceSet where
  backend := backend
  evidence := [.plain backend 1 "a" "text" "r" none boundedSafe_a text_accepted]
  snapshot := none
  truncated := false
  accepted := by cases backend <;> decide

/-- The same item from both of them, in either order. -/
theorem merge_ok_spec_two_backends : ∃ set set' : EvidenceSet,
    mergeBackendResults (fun _ => 0) standardsFirst
      [(.ocppRagKag, .ok (oneItem .ocppRagKag)), (.standardsMcp, .ok (oneItem .standardsMcp))] = .ok set ∧
    mergeBackendResults (fun _ => 0) standardsFirst
      [(.standardsMcp, .ok (oneItem .standardsMcp)), (.ocppRagKag, .ok (oneItem .ocppRagKag))] = .ok set' ∧
    set'.evidence = set.evidence := by
  have hmerge : mergeBackendResults (fun _ => 0) standardsFirst
      [(.ocppRagKag, .ok (oneItem .ocppRagKag)), (.standardsMcp, .ok (oneItem .standardsMcp))] = .ok
        (merged (fun _ => 0) standardsFirst
          [(.ocppRagKag, .ok (oneItem .ocppRagKag)), (.standardsMcp, .ok (oneItem .standardsMcp))]) :=
    mergeBackendResults_ok.mpr ⟨fun _ => rfl, fun _ => rfl, rfl⟩
  obtain ⟨set', hset', hevidence, -⟩ :=
    (merge_ok_spec (fun _ => 0) standardsFirst _ (by decide) hmerge).2.2.2.2.2.2.2.2 _ (.swap _ _ _)
  exact ⟨_, set', hmerge, hset', hevidence⟩

end LocalAgent.Knowledge
