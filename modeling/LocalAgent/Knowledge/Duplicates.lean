import LocalAgent.Knowledge.Merge

/-!
# Duplicates of items that were dropped (`agent-knowledge/src/lib.rs:854-877`)

The selection loop notes the key of an item before it looks whether the item fits. An item that does
not fit is dropped, but its key counts as seen, and a later item with the same key that would fit is
dropped as its duplicate: neither of the two is selected.

Main theorem: `none_lost_iff` (exactly when this loses nothing).
-/
namespace LocalAgent.Knowledge

variable {sha256 : List UInt8 → Bytes32} {request : KnowledgeRequest} {results : Results}
  {set : EvidenceSet}

/-- What was left out did not fit at its turn, or an item with its key was selected. -/
def NoneLost (sha256 : List UInt8 → Bytes32) (request : KnowledgeRequest) (results : Results)
    (set : EvidenceSet) : Prop :=
  ∀ front item back, ordered request.route (successes results) = front ++ item :: back →
    LeftOut sha256 request results front item →
      ¬ (before sha256 request results front).Admits request.limits item ∨
        ∃ other ∈ set.evidence, dedupKey sha256 other = dedupKey sha256 item

/-- Where the first item of a key does not fit at its turn, no later item of this key fits at its own. -/
def Unshadowed (sha256 : List UInt8 → Bytes32) (request : KnowledgeRequest) (results : Results) : Prop :=
  ∀ front first middle item back,
    ordered request.route (successes results) = front ++ first :: (middle ++ item :: back) →
    (∀ other ∈ front, dedupKey sha256 other ≠ dedupKey sha256 first) →
    dedupKey sha256 item = dedupKey sha256 first →
    ¬ (before sha256 request results front).Admits request.limits first →
      ¬ (before sha256 request results (front ++ first :: middle)).Admits request.limits item

/-- A key has one first item. -/
theorem first_unique {α κ : Type} (key : α → κ) {front front' back back' : List α} {a b : α}
    (h : front ++ a :: back = front' ++ b :: back') (hkey : key a = key b)
    (hfront : ∀ x ∈ front, key x ≠ key a) (hfront' : ∀ x ∈ front', key x ≠ key b) :
    front = front' ∧ a = b := by
  induction front generalizing front' with
  | nil =>
    cases front' with
    | nil => exact ⟨rfl, (List.cons.inj h).1⟩
    | cons x front' =>
      obtain ⟨rfl, -⟩ := List.cons.inj h
      exact absurd hkey (hfront' a List.mem_cons_self)
  | cons x front ih =>
    cases front' with
    | nil =>
      obtain ⟨rfl, -⟩ := List.cons.inj h
      exact absurd hkey.symm (hfront x List.mem_cons_self)
    | cons y front' =>
      obtain ⟨rfl, hrest⟩ := List.cons.inj h
      obtain ⟨rfl, rfl⟩ := ih hrest (fun z hz => hfront z (List.mem_cons_of_mem x hz))
        fun z hz => hfront' z (List.mem_cons_of_mem x hz)
      exact ⟨rfl, rfl⟩

theorem exists_first {α κ : Type} [DecidableEq κ] {key : α → κ} {l : List α} {k : κ}
    (h : ∃ a ∈ l, key a = k) :
    ∃ front a back, l = front ++ a :: back ∧ key a = k ∧ ∀ x ∈ front, key x ≠ k := by
  obtain ⟨a, ha, hka⟩ := h
  have hsome : (l.find? fun a => key a = k).isSome = true := by
    rw [List.find?_isSome]
    exact ⟨a, ha, by simpa using hka⟩
  obtain ⟨b, hb⟩ := Option.isSome_iff_exists.mp hsome
  obtain ⟨hkb, front, back, rfl, hfront⟩ := List.find?_eq_some_iff_append.mp hb
  exact ⟨front, b, back, rfl, by simpa using hkb, fun x hx => by simpa using hfront x hx⟩

/-- **What is lost to a dropped duplicate.** Each item that a merge leaves out did not fit at its turn or
has the key of an item that was selected, exactly if no first item of a key that did not fit is followed
by an item of this key that would fit. -/
theorem none_lost_iff (h : mergeBackendResults sha256 request results = .ok set) :
    NoneLost sha256 request results set ↔ Unshadowed sha256 request results := by
  obtain ⟨-, -, rfl⟩ := mergeBackendResults_ok.mp h
  have hevidence : ∀ item, item ∈ (merged sha256 request results).evidence ↔
      ∃ front back, ordered request.route (successes results) = front ++ item :: back ∧
        Chosen sha256 request results front item := fun item => mem_selected_iff
  constructor
  · intro hnone front first middle item back hsplit hfirst hkey hroom hfits
    have hsplit' : ordered request.route (successes results) = (front ++ first :: middle) ++ item :: back := by
      rw [hsplit]
      simp
    rcases chosen_or_leftOut sha256 request results
      (front ++ first :: middle) item with ⟨⟨hnew, -⟩, -⟩ | ⟨-, hout⟩
    · exact hnew first (by simp) hkey.symm
    · rcases hnone _ item back hsplit' hout with hfull | ⟨other, hother, hotherKey⟩
      · exact hfull hfits
      · -- the selected item would be the first of the key, which did not fit
        obtain ⟨front', back', hsplit'', hnew, hfit⟩ := (hevidence other).mp hother
        obtain ⟨rfl, rfl⟩ := first_unique (dedupKey sha256) (hsplit.symm.trans hsplit'')
          (hkey.symm.trans hotherKey.symm) hfirst hnew
        exact hroom hfit
  · intro hunshadowed front item back hsplit hout
    by_cases hfits : (before sha256 request results front).Admits request.limits item
    · right
      have hseen : ∃ other ∈ front, dedupKey sha256 other = dedupKey sha256 item := by
        by_contra hnew
        rcases chosen_or_leftOut sha256 request results front item with
          ⟨-, heq⟩ | ⟨hnot, -⟩
        · rw [before_concat, hout] at heq
          simp at heq
        · exact hnot ⟨by simpa using hnew, hfits⟩
      obtain ⟨front', first, middle, rfl, hkey, hfirst⟩ := exists_first hseen
      have hsplit' : ordered request.route (successes results) =
          front' ++ first :: (middle ++ item :: back) := by
        rw [hsplit]
        simp
      have hfit : (before sha256 request results front').Admits request.limits first := by
        by_contra hroom
        exact hunshadowed front' first middle item back hsplit' (by rwa [hkey]) hkey.symm hroom hfits
      exact ⟨first, (hevidence first).mpr ⟨front', _, hsplit', by rwa [hkey], hfit⟩, hkey⟩
    · exact .inl hfits

/-! ### Two items of one document -/

/-- Items of more than four bytes do not fit. -/
def fourBytes : KnowledgeRequest where
  route := .single .ocppRagKag
  limits := ⟨8, 4, 16384, by decide⟩
  route_valid := by decide

def longPassage : Evidence :=
  .plain .ocppRagKag 1 "a" "passage" "r1" (some "document") boundedSafe_a (by decide +kernel)

def shortPassage : Evidence :=
  .plain .ocppRagKag 2 "b" "text" "r2" (some "document") boundedSafe_b (by decide +kernel)

def passages (evidence : List Evidence) (h : !(evidence.length > maxResults
    || evidence.any (·.source.backend ≠ .ocppRagKag) || (none : Option KnowledgeSnapshotMetadata).any
      fun value => value.backend ≠ .ocppRagKag || !value.isValid)) : Results :=
  [(.ocppRagKag, .ok ⟨.ocppRagKag, evidence, none, false, h⟩)]

/-- The first item is too long, and the second one, which fits, is dropped as its duplicate. -/
theorem short_passage_lost : ∃ set : EvidenceSet,
    mergeBackendResults (fun _ => 0) fourBytes (passages [longPassage, shortPassage] (by decide)) = .ok set ∧
      set.evidence = [] ∧
      ¬ NoneLost (fun _ => 0) fourBytes (passages [longPassage, shortPassage] (by decide)) set := by
  refine ⟨_, mergeBackendResults_ok.mpr ⟨fun _ => rfl, fun _ => rfl, rfl⟩, by decide +kernel, fun hnone => ?_⟩
  have hordered : ordered fourBytes.route (successes (passages [longPassage, shortPassage] (by decide))) =
      [longPassage] ++ shortPassage :: [] := by decide +kernel
  have hselected : (merged (fun _ => 0) fourBytes
      (passages [longPassage, shortPassage] (by decide))).evidence = [] := by decide +kernel
  have hleft : LeftOut (fun _ => 0) fourBytes (passages [longPassage, shortPassage] (by decide))
      [longPassage] shortPassage := by
    unfold LeftOut
    decide +kernel
  rcases hnone _ _ _ hordered hleft with hroom | ⟨other, hother, -⟩
  · refine hroom ?_
    unfold Selection.Admits
    decide +kernel
  · rw [hselected] at hother
    cases hother

/-- Another item of the document, which fits and is found first. -/
def firstPassage : Evidence :=
  .plain .ocppRagKag 1 "a" "word" "r1" (some "document") boundedSafe_a (by decide +kernel)

/-- Both items fit. The second is left out, as the duplicate of the first, which is selected. -/
theorem none_lost_duplicate :
    (merged (fun _ => 0) fourBytes (passages [firstPassage, shortPassage] (by decide))).evidence =
        [firstPassage] ∧
      (before (fun _ => 0) fourBytes (passages [firstPassage, shortPassage] (by decide)) [firstPassage]).Admits
        fourBytes.limits shortPassage ∧
      NoneLost (fun _ => 0) fourBytes (passages [firstPassage, shortPassage] (by decide))
        (merged (fun _ => 0) fourBytes (passages [firstPassage, shortPassage] (by decide))) := by
  refine ⟨by decide +kernel, by unfold Selection.Admits; decide +kernel, ?_⟩
  refine (none_lost_iff (mergeBackendResults_ok.mpr ⟨fun _ => rfl, fun _ => rfl, rfl⟩)).mpr ?_
  intro front first middle item back hsplit _ _ hroom
  have hordered : ordered fourBytes.route (successes (passages [firstPassage, shortPassage] (by decide))) =
      [firstPassage, shortPassage] := by decide +kernel
  rw [hordered] at hsplit
  have hlen := congrArg List.length hsplit
  simp only [List.length_append, List.length_cons, List.length_nil] at hlen
  obtain rfl : front = [] := List.eq_nil_of_length_eq_zero (by omega)
  obtain rfl : firstPassage = first := (List.cons.inj hsplit).1
  refine absurd ?_ hroom
  unfold Selection.Admits
  decide +kernel

end LocalAgent.Knowledge
