import LocalAgent.Service.Deployed
import Mathlib.Data.List.SplitBy

/-!
# The title of a conversation (`agent-service/src/lib.rs:1641-1662`)

The first prompt of a conversation becomes its title: decoded with replacements, without the control
characters that are no white space, the words joined by blanks, and cut where the next character does
not fit. The store has its own rules for titles. A title that it refused would end the start after the
slot was taken; there is none (`title_storable`).
-/
namespace LocalAgent

/-! ## Cutting -/

section Fitting

variable {limit : Nat} {text : List Char}

theorem fitting_begins : fitting limit text <+: text := by
  induction text generalizing limit with
  | nil => exact List.prefix_refl _
  | cons c rest ih =>
    rw [fitting]
    by_cases hlong : c.utf8Size > limit
    · rw [if_pos hlong]
      exact List.nil_prefix
    · rw [if_neg hlong]
      exact List.cons_prefix_cons.mpr ⟨rfl, ih⟩

theorem fitting_bytes : String.utf8Len (fitting limit text) ≤ limit := by
  induction text generalizing limit with
  | nil => simp [fitting]
  | cons c rest ih =>
    rw [fitting]
    by_cases hlong : c.utf8Size > limit
    · simp [hlong]
    · rw [if_neg hlong, String.utf8Len_cons]
      have hrest := @ih (limit - c.utf8Size)
      omega

end Fitting

/-! ## Joining -/

/-- The words have none of the white space between them. -/
theorem mem_words {text : List Char} {word : List Char} {c : Char}
    (hword : word ∈ (text.splitBy fun a b => Text.isWhitespace a = Text.isWhitespace b).filter
      fun word => !word.any Text.isWhitespace) (hc : c ∈ word) :
    c ∈ text ∧ Text.isWhitespace c = false := by
  obtain ⟨hsplit, hplain⟩ := List.mem_filter.mp hword
  constructor
  · rw [← List.flatten_splitBy (fun a b => Text.isWhitespace a = Text.isWhitespace b) text]
    exact List.mem_flatten.mpr ⟨word, hsplit, hc⟩
  · simp only [Bool.not_eq_true', List.any_eq_false] at hplain
    simpa using hplain c hc

theorem mem_intercalate {α : Type} {sep : List α} {parts : List (List α)} {c : α}
    (h : c ∈ sep.intercalate parts) : c ∈ sep ∨ ∃ part ∈ parts, c ∈ part := by
  induction parts with
  | nil => simp at h
  | cons part rest ih =>
    cases rest with
    | nil =>
      rw [List.intercalate_singleton] at h
      exact .inr ⟨part, List.mem_cons_self, h⟩
    | cons next rest =>
      rw [List.intercalate_cons_cons, List.mem_append, List.mem_append] at h
      rcases h with (h | h) | h
      · exact .inr ⟨part, List.mem_cons_self, h⟩
      · exact .inl h
      · exact (ih h).imp_right fun ⟨p, hp, hc⟩ => ⟨p, List.mem_cons_of_mem part hp, hc⟩

/-! ## The title -/

section Title

variable (svc : AgentService) (input : List UInt8)

theorem conversationTitle_ne_empty : svc.conversationTitle input ≠ "" := by
  unfold AgentService.conversationTitle
  simp only
  split
  · decide
  · rename_i hne
    intro hempty
    apply hne
    rw [← String.toList_inj, String.toList_ofList] at hempty
    simp [hempty]

theorem conversationTitle_bytes :
    (svc.conversationTitle input).utf8ByteSize ≤ maxConversationTitleBytes := by
  unfold AgentService.conversationTitle
  simp only
  split
  · decide
  · rw [String.utf8ByteSize_ofList]
    exact fitting_bytes

theorem conversationTitle_plain :
    ∀ c ∈ (svc.conversationTitle input).toList, Text.isControl c = false := by
  unfold AgentService.conversationTitle
  simp only
  split
  · intro c hc
    have hplain : ("New conversation".toList.all fun c => !Text.isControl c) = true := by decide +kernel
    simpa using List.all_eq_true.mp hplain c hc
  · intro c hc
    rw [String.toList_ofList] at hc
    rcases mem_intercalate (fitting_begins.subset hc) with hblank | ⟨word, hword, hmem⟩
    · rw [List.mem_singleton.mp hblank]
      decide
    · obtain ⟨htext, hspace⟩ := mem_words hword hmem
      have hkept := (List.mem_filter.mp htext).2
      simpa [hspace] using hkept

end Title

/-- **Every title can be stored**: it is not empty, short enough and without control characters, so that
the store refuses it for the owner of the session only. -/
theorem title_storable (svc : AgentService) (input : List UInt8) :
    svc.conversationTitle input ≠ "" ∧
      (svc.conversationTitle input).utf8ByteSize ≤ maxConversationTitleBytes ∧
      (∀ c ∈ (svc.conversationTitle input).toList, Text.isControl c = false) ∧
      ∀ (s : SessionStore) session owner e,
        s.setTitleIfAbsent session owner (svc.conversationTitle input) = .error e →
          s.requireSessionOwner session owner = .error e := by
  have hne := conversationTitle_ne_empty svc input
  have hbytes := conversationTitle_bytes svc input
  have hplain := conversationTitle_plain svc input
  refine ⟨hne, hbytes, hplain, fun s session owner e h => ?_⟩
  have haccepted : ((svc.conversationTitle input).isEmpty ||
      (svc.conversationTitle input).utf8ByteSize > maxConversationTitleBytes ||
      (svc.conversationTitle input).toList.any Text.isControl) = false := by
    simp only [Bool.or_eq_false_iff, decide_eq_false_iff_not, Nat.not_lt, List.any_eq_false,
      Bool.not_eq_true]
    exact ⟨⟨by simpa using hne, hbytes⟩, hplain⟩
  unfold SessionStore.setTitleIfAbsent at h
  rw [if_neg (by simp [haccepted])] at h
  cases howner : s.requireSessionOwner session owner with
  | error e' =>
    rw [howner] at h
    exact congrArg Except.error (Except.error.inj h)
  | ok u =>
    rw [howner] at h
    cases h

end LocalAgent
