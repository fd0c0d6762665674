import Mathlib.Algebra.Group.Nat.Defs

/-!
# Bytes that arrive in pieces

An input is read piece by piece: each read brings some bytes or fails, and there are no more reads
after the end of the input. A reader that asks for a number of bytes (`readExact`) and one that collects
everything up to a limit (`collect`) depend on the bytes only, not on how they are split into reads.
-/
namespace Chunks

variable {β : Type}

/-- What successive reads bring, `none` for a read that fails. -/
abbrev Reads (β : Type) := List (Option (List β))

/-- Reads that bring these bytes, none of them fails. -/
inductive Brings : Reads β → List β → Prop
  | done : Brings [] []
  | read {piece bytes : List β} {reads : Reads β} :
      piece ≠ [] → Brings reads bytes → Brings (some piece :: reads) (piece ++ bytes)

/-- Any split into pieces. -/
theorem Brings.of_pieces (pieces : List (List β)) (h : ∀ p ∈ pieces, p ≠ []) :
    Brings (pieces.map some) pieces.flatten := by
  induction pieces with
  | nil => exact .done
  | cons p pieces ih =>
    exact .read (h p List.mem_cons_self) (ih fun q hq => h q (List.mem_cons_of_mem p hq))

/-! ## A buffered reader -/

/-- The bytes that were read and not used, and the reads to come. -/
structure Buffered (β : Type) where
  buffer : List β
  reads : Reads β

/-- The bytes that are still to be had. -/
def Buffered.Holds (input : Buffered β) (bytes : List β) : Prop :=
  ∃ later, Brings input.reads later ∧ input.buffer ++ later = bytes

/-- Exactly `n` bytes, `none` at the end of the input or where a read fails. -/
def readExact (n : Nat) (buffer : List β) : Reads β → Option (List β × Buffered β)
  | [] => if n ≤ buffer.length then some (buffer.take n, ⟨buffer.drop n, []⟩) else none
  | read :: reads =>
    if n ≤ buffer.length then some (buffer.take n, ⟨buffer.drop n, read :: reads⟩)
    else match read with
      | none => none
      | some [] => none
      | some piece => (readExact (n - buffer.length) piece reads).map fun r => (buffer ++ r.1, r.2)

/-- A read of at most one byte, without one at the end of the input. -/
def readByte (input : Buffered β) : Option (Option β) :=
  match input.buffer, input.reads with
  | b :: _, _ => some (some b)
  | [], [] => some none
  | [], none :: _ => none
  | [], some piece :: _ => some piece.head?

theorem readExact_of_le {n : Nat} {buffer later : List β} {reads : Reads β} (h : Brings reads later)
    (hle : n ≤ (buffer ++ later).length) :
    ∃ rest, readExact n buffer reads = some ((buffer ++ later).take n, rest) ∧
      rest.Holds ((buffer ++ later).drop n) := by
  induction h generalizing n buffer with
  | done =>
    simp only [List.append_nil] at hle ⊢
    exact ⟨⟨buffer.drop n, []⟩, by simp [readExact, hle], [], .done, by simp⟩
  | @read piece bytes reads hne hreads ih =>
    by_cases hn : n ≤ buffer.length
    · refine ⟨⟨buffer.drop n, some piece :: reads⟩, ?_, piece ++ bytes, .read hne hreads, ?_⟩
      · simp [readExact, hn, List.take_append_of_le_length hn]
      · rw [List.drop_append_of_le_length hn]
    · have hlen : n - buffer.length ≤ (piece ++ bytes).length := by
        rw [List.length_append] at hle
        omega
      obtain ⟨rest, hrest, hholds⟩ := ih hlen
      refine ⟨rest, ?_, ?_⟩
      · cases piece with
        | nil => exact absurd rfl hne
        | cons b piece =>
          have htake : (buffer ++ (b :: piece ++ bytes)).take n =
              buffer ++ (b :: piece ++ bytes).take (n - buffer.length) := by
            rw [List.take_append, List.take_of_length_le (by omega)]
          simp only [readExact, if_neg hn, hrest, Option.map_some, htake]
      · rwa [List.drop_append, List.drop_of_length_le (by omega), List.nil_append]

theorem readExact_of_lt {n : Nat} {buffer later : List β} {reads : Reads β} (h : Brings reads later)
    (hlt : (buffer ++ later).length < n) : readExact n buffer reads = none := by
  induction h generalizing n buffer with
  | done =>
    rw [List.append_nil] at hlt
    simp [readExact, Nat.not_le.mpr hlt]
  | @read piece bytes reads hne hreads ih =>
    rw [List.length_append] at hlt
    have hn : ¬ n ≤ buffer.length := by omega
    cases piece with
    | nil => exact absurd rfl hne
    | cons b piece =>
      have hlater : (b :: piece ++ bytes).length < n - buffer.length := by omega
      simp only [readExact, if_neg hn, ih hlater, Option.map_none]

theorem readByte_eq {input : Buffered β} {bytes : List β} (h : input.Holds bytes) :
    readByte input = some bytes.head? := by
  obtain ⟨later, hreads, rfl⟩ := h
  obtain ⟨buffer, reads⟩ := input
  cases buffer with
  | cons b buffer => rfl
  | nil =>
    cases hreads with
    | done => rfl
    | @read piece bytes reads hne _ =>
      cases piece with
      | nil => exact absurd rfl hne
      | cons b piece => rfl

/-! ## Collecting -/

/-- Why bytes are not collected. -/
inductive Refusal
  | readFailed
  | limitExceeded

/-- Everything up to the end of the input, if no more than `limit` bytes come. -/
def collect (limit : Nat) : Reads β → List β → Except Refusal (List β)
  | [], output => .ok output
  | none :: _, _ => .error .readFailed
  | some piece :: reads, output =>
    if piece.isEmpty then .ok output
    else if output.length + piece.length > limit then .error .limitExceeded
    else collect limit reads (output ++ piece)

theorem collect_eq {limit : Nat} {reads : Reads β} {bytes output : List β} (h : Brings reads bytes)
    (houtput : output.length ≤ limit) :
    collect limit reads output =
      if (output ++ bytes).length ≤ limit then .ok (output ++ bytes) else .error .limitExceeded := by
  induction h generalizing output with
  | done => simp [collect, houtput]
  | @read piece bytes reads hne hreads ih =>
    have hlen : (output ++ (piece ++ bytes)).length =
        output.length + (piece.length + bytes.length) := by simp
    rw [collect, if_neg (by simpa using hne)]
    split
    · rw [if_neg (by omega)]
    · have hle : (output ++ piece).length ≤ limit := by
        rw [List.length_append]
        omega
      rw [ih hle, List.append_assoc]

/-- Never more than the limit, however the reads end. -/
theorem length_of_collect {limit : Nat} {reads : Reads β} {output all : List β}
    (houtput : output.length ≤ limit) (h : collect limit reads output = .ok all) :
    all.length ≤ limit := by
  fun_induction collect limit reads output with
  | case1 output => exact Except.ok.inj h ▸ houtput
  | case2 => cases h
  | case3 => exact Except.ok.inj h ▸ houtput
  | case4 => cases h
  | case5 output piece reads hne hle ih =>
    refine ih ?_ h
    rw [List.length_append]
    omega

end Chunks
