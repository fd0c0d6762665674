import LocalAgent.Lib.Slice

/-!
# The seal key (`agent-service-daemon/src/main.rs:794-804`, `:845-853`)

The key that seals approved actions is configured as 64 hexadecimal digits. `decode_key` checks the
number of bytes, cuts the text into slices of two bytes and leaves each to `u8::from_str_radix`. That
reads a sign before a digit as well, and a slice that ends inside of a character panics. Which texts
are decoded as they should be says `decodeKey_exact_iff`.
-/
namespace LocalAgent

/-! ## The source -/

/-- `char::to_digit` for the radix 16. -/
def toDigit (c : Char) : Option Nat :=
  if '0' ≤ c ∧ c ≤ '9' then some (c.toNat - 48)
  else if 'a' ≤ c ∧ c ≤ 'f' then some (c.toNat - 87)
  else if 'A' ≤ c ∧ c ≤ 'F' then some (c.toNat - 55)
  else none

/-- The loop of `u8::from_str_radix`. -/
def readDigits : Nat → List Char → Option UInt8
  | value, [] => some (UInt8.ofNat value)
  | value, c :: rest =>
    match toDigit c with
    | none => none
    | some digit => if value * 16 + digit > 255 then none else readDigits (value * 16 + digit) rest

/-- `u8::from_str_radix` for the radix 16: a `+` may come before the digits. -/
def fromStrRadix : List Char → Option UInt8
  | [] => none
  | [c] => if c = '+' ∨ c = '-' then none else readDigits 0 [c]
  | c :: rest => if c = '+' then readDigits 0 rest else readDigits 0 (c :: rest)

/-- The loop of `decode_key` over the indices that are left, `none` for a panic. -/
def decodeKeyLoop (value : List Char) : List Nat → Option (Except String (List UInt8))
  | [] => some (.ok [])
  | index :: rest =>
    match Text.slice (index * 2) (index * 2 + 2) value with
    | none => none
    | some digits =>
      match fromStrRadix digits with
      | none => some (.error "action seal key must be hexadecimal")
      | some byte => (decodeKeyLoop value rest).map fun key => key.map (byte :: ·)

/-- `decode_key` (main.rs:794). -/
def decodeKey (value : String) : Option (Except String (List UInt8)) :=
  if value.utf8ByteSize ≠ 64 then some (.error "action seal key must be 32-byte hexadecimal")
  else decodeKeyLoop value.toList (List.range 32)

/-- `bytes_to_hex` (main.rs:845). -/
def bytesToHex (bytes : List UInt8) : List Char :=
  bytes.flatMap fun (byte : UInt8) => [Nat.digitChar (byte >>> 4).toNat, Nat.digitChar (byte &&& 0x0f).toNat]

/-! ## What is meant -/

/-- A hexadecimal digit. -/
def isHexDigit (c : Char) : Bool := (toDigit c).isSome

/-- The text is decoded without a panic, if and only if it consists of 64 hexadecimal digits, to the 32
bytes that they stand for. -/
def DecodesExactly (value : String) : Prop :=
  ∃ outcome, decodeKey value = some outcome ∧
    ((∃ key, outcome = .ok key) ↔ value.toList.length = 64 ∧ ∀ c ∈ value.toList, isHexDigit c = true) ∧
    ∀ key, outcome = .ok key → key.length = 32 ∧ bytesToHex key = value.toList.map Char.toLower

/-- Two characters that are read as a byte. -/
def Readable (a b : Char) : Prop := (a = '+' ∨ isHexDigit a = true) ∧ isHexDigit b = true

instance (a b : Char) : Decidable (Readable a b) :=
  inferInstanceAs (Decidable ((a = '+' ∨ isHexDigit a = true) ∧ isHexDigit b = true))

/-- The characters of pairs. -/
def flat (pairs : List (Char × Char)) : List Char := pairs.flatMap fun p => [p.1, p.2]

/-- After some pairs that are read come two bytes that are not read and end between two characters. -/
def StopsBetween (text : List Char) : Prop :=
  ∃ pairs stop rest, text = flat pairs ++ (stop ++ rest) ∧ (∀ p ∈ pairs, Readable p.1 p.2) ∧
    String.utf8Len stop = 2 ∧ ∀ a b, stop = [a, b] → ¬ Readable a b

variable {a b c : Char} {text rest : List Char} {pairs : List (Char × Char)} {n d : Nat}

/-! ## Digits -/

/-- The digits are among the ASCII characters. -/
theorem toNat_lt_of_toDigit (h : toDigit c = some d) : c.toNat < 128 := by
  unfold toDigit at h
  simp only [Char.le_def, UInt32.le_iff_toNat_le, Char.reduceVal, UInt32.reduceToNat] at h
  by_cases h9 : 48 ≤ c.val.toNat ∧ c.val.toNat ≤ 57
  · exact Nat.lt_of_le_of_lt h9.2 (by decide)
  · rw [if_neg h9] at h
    by_cases hf : 97 ≤ c.val.toNat ∧ c.val.toNat ≤ 102
    · exact Nat.lt_of_le_of_lt hf.2 (by decide)
    · rw [if_neg hf] at h
      by_cases hF : 65 ≤ c.val.toNat ∧ c.val.toNat ≤ 70
      · exact Nat.lt_of_le_of_lt hF.2 (by decide)
      · rw [if_neg hF] at h
        cases h

/-- A digit is below 16 and written by its lower-case character, in one byte. -/
theorem toDigit_spec (h : toDigit c = some d) : d < 16 ∧ Nat.digitChar d = c.toLower ∧ c.utf8Size = 1 := by
  have hascii : ∀ n < 128, ∀ d ∈ toDigit (Char.ofNat n), d < 16 ∧
      Nat.digitChar d = (Char.ofNat n).toLower ∧ (Char.ofNat n).utf8Size = 1 := by decide +kernel
  have hc := hascii c.toNat (toNat_lt_of_toDigit h) d
  rw [Char.ofNat_toNat] at hc
  exact hc h

theorem readDigits_one : readDigits 0 [c] = (toDigit c).map UInt8.ofNat := by
  simp only [readDigits]
  cases h : toDigit c with
  | none => rfl
  | some d =>
    have hlt := (toDigit_spec h).1
    simp only [Option.map_some]
    rw [if_neg (by omega), Nat.zero_mul, Nat.zero_add]

/-! ## Pairs -/

theorem Readable.utf8Size (h : Readable a b) : a.utf8Size = 1 ∧ b.utf8Size = 1 := by
  obtain ⟨ha, hb⟩ := h
  obtain ⟨d, hd⟩ := Option.isSome_iff_exists.mp hb
  refine ⟨?_, (toDigit_spec hd).2.2⟩
  rcases ha with rfl | ha
  · rfl
  · obtain ⟨d', hd'⟩ := Option.isSome_iff_exists.mp ha
    exact (toDigit_spec hd').2.2

/-- **What a pair is read as.** -/
theorem fromStrRadix_pair : (fromStrRadix [a, b]).isSome = true ↔ Readable a b := by
  unfold Readable isHexDigit
  by_cases hplus : a = '+'
  · subst hplus
    simp only [fromStrRadix, if_pos, readDigits_one, Option.isSome_map, true_or, true_and]
  · simp only [fromStrRadix, readDigits, hplus, if_false, false_or]
    cases ha : toDigit a with
    | none => simp
    | some da =>
      have hda := (toDigit_spec ha).1
      simp only [Option.isSome_some, true_and]
      rw [if_neg (show ¬ 0 * 16 + da > 255 by omega)]
      cases hb : toDigit b with
      | none => simp
      | some db =>
        have hdb := (toDigit_spec hb).1
        simp only [Option.isSome_some, iff_true]
        rw [if_neg (show ¬ (0 * 16 + da) * 16 + db > 255 by omega)]
        rfl

/-- Two digits give the byte that is written by them. -/
theorem bytesToHex_pair {byte : UInt8} (ha : isHexDigit a = true) (h : fromStrRadix [a, b] = some byte) :
    bytesToHex [byte] = [a.toLower, b.toLower] := by
  obtain ⟨da, hda⟩ := Option.isSome_iff_exists.mp ha
  have hplus : a ≠ '+' := by
    rintro rfl
    exact absurd ha (by decide)
  simp only [fromStrRadix, if_neg hplus, readDigits, hda] at h
  obtain ⟨hda', hca, -⟩ := toDigit_spec hda
  rw [if_neg (show ¬ 0 * 16 + da > 255 by omega)] at h
  cases hdb : toDigit b with
  | none =>
    rw [hdb] at h
    cases h
  | some db =>
    obtain ⟨hdb', hcb, -⟩ := toDigit_spec hdb
    rw [hdb] at h
    simp only at h
    rw [if_neg (show ¬ (0 * 16 + da) * 16 + db > 255 by omega)] at h
    obtain rfl := Option.some.inj h
    have hdigits : ∀ x < 16, ∀ y < 16, ((UInt8.ofNat ((0 * 16 + x) * 16 + y)) >>> 4).toNat = x ∧
        ((UInt8.ofNat ((0 * 16 + x) * 16 + y)) &&& 0x0f).toNat = y := by decide +kernel
    obtain ⟨hhigh, hlow⟩ := hdigits da hda' db hdb'
    rw [bytesToHex, List.flatMap_singleton, hhigh, hlow, hca, hcb]

/-- Two bytes that are read are two characters. -/
theorem pair_of_fromStrRadix {piece : List Char} {byte : UInt8} (hlen : String.utf8Len piece = 2)
    (h : fromStrRadix piece = some byte) : ∃ a b, piece = [a, b] ∧ Readable a b := by
  match piece, hlen, h with
  | [], _, h => cases h
  | [c], hlen, h =>
    by_cases hsign : c = '+' ∨ c = '-'
    · rw [fromStrRadix, if_pos hsign] at h
      cases h
    · rw [fromStrRadix, if_neg hsign, readDigits_one] at h
      obtain ⟨d, hd, -⟩ := Option.map_eq_some_iff.mp h
      have hone := (toDigit_spec hd).2.2
      simp only [String.utf8Len_cons, String.utf8Len_nil] at hlen
      omega
  | [a, b], _, h => exact ⟨a, b, rfl, fromStrRadix_pair.mp (by rw [h]; rfl)⟩
  | a :: b :: c :: rest, hlen, _ =>
    have ha := a.utf8Size_pos
    have hb := b.utf8Size_pos
    have hc := c.utf8Size_pos
    simp only [String.utf8Len_cons] at hlen
    omega

theorem utf8Len_flat (h : ∀ p ∈ pairs, Readable p.1 p.2) : String.utf8Len (flat pairs) = pairs.length * 2 := by
  induction pairs with
  | nil => rfl
  | cons p pairs ih =>
    rw [List.forall_mem_cons] at h
    obtain ⟨ha, hb⟩ := h.1.utf8Size
    have hrest := ih h.2
    simp only [flat, List.flatMap_cons, String.utf8Len_append, String.utf8Len_cons, String.utf8Len_nil,
      List.length_cons] at hrest ⊢
    omega

theorem flat_concat : flat (pairs ++ [(a, b)]) ++ rest = flat pairs ++ (a :: b :: rest) := by
  simp [flat]

/-! ## Where reading stops -/

/-- Two bytes at the front of a text that stops between two characters, if they are no pair. -/
theorem stopsBetween_of_piece {piece : List Char} (hlen : String.utf8Len piece = 2)
    (h : ∀ a b, piece = [a, b] → ¬ Readable a b) : StopsBetween (piece ++ rest) :=
  ⟨[], piece, rest, rfl, fun _ hp => absurd hp List.not_mem_nil, hlen, h⟩

theorem stopsBetween_cons (h : Readable a b) : StopsBetween (a :: b :: rest) ↔ StopsBetween rest := by
  obtain ⟨ha, hb⟩ := h.utf8Size
  constructor
  · rintro ⟨pairs, stop, more, htext, hpairs, hlen, hstop⟩
    cases pairs with
    | nil =>
      -- the two bytes that are not read would be this pair
      have hcut := Text.splitAtByte_append stop more
      have hfront : Text.splitAtByte 2 ([a, b] ++ rest) = some ([a, b], rest) :=
        Text.splitAtByte_eq_some.mpr ⟨rfl, by simp [ha, hb]⟩
      rw [hlen, show stop ++ more = [a, b] ++ rest from htext.symm, hfront] at hcut
      obtain ⟨rfl, -⟩ := Prod.mk.inj (Option.some.inj hcut)
      exact absurd h (hstop a b rfl)
    | cons p pairs =>
      rw [List.forall_mem_cons] at hpairs
      simp only [flat, List.flatMap_cons, List.cons_append, List.nil_append, List.cons.injEq] at htext
      exact ⟨pairs, stop, more, htext.2.2, hpairs.2, hlen, hstop⟩
  · rintro ⟨pairs, stop, more, rfl, hpairs, hlen, hstop⟩
    exact ⟨(a, b) :: pairs, stop, more, rfl, List.forall_mem_cons.mpr ⟨h, hpairs⟩, hlen, hstop⟩

theorem splitAtByte_two (h : isHexDigit a = true) (h' : isHexDigit b = true) :
    Text.splitAtByte 2 (a :: b :: rest) = some ([a, b], rest) := by
  obtain ⟨ha, hb⟩ := Readable.utf8Size ⟨.inr h, h'⟩
  exact Text.splitAtByte_eq_some.mpr ⟨rfl, by simp [ha, hb]⟩

/-! ## The loop -/

/-- One turn, after some pairs that were read. -/
theorem decodeKeyLoop_step (h : ∀ p ∈ pairs, Readable p.1 p.2) :
    decodeKeyLoop (flat pairs ++ rest) (List.range' pairs.length (n + 1)) =
      match Text.splitAtByte 2 rest with
      | none => none
      | some (piece, _) =>
        match fromStrRadix piece with
        | none => some (.error "action seal key must be hexadecimal")
        | some byte =>
          (decodeKeyLoop (flat pairs ++ rest) (List.range' (pairs.length + 1) n)).map fun key =>
            key.map (byte :: ·) := by
  rw [List.range'_succ, decodeKeyLoop, ← utf8Len_flat h, Text.slice_append]
  cases Text.splitAtByte 2 rest with
  | none => rfl
  | some cut => rfl

/-- **What the loop makes of the rest of a text**: the bytes of its pairs, or the error where reading
stops between two characters, or else a panic. -/
theorem decodeKeyLoop_spec (h : ∀ p ∈ pairs, Readable p.1 p.2) (hlen : String.utf8Len rest = n * 2) :
    (¬ StopsBetween rest ∧ ∃ key,
      decodeKeyLoop (flat pairs ++ rest) (List.range' pairs.length n) = some (.ok key) ∧ key.length = n ∧
        ((∀ c ∈ rest, isHexDigit c = true) → bytesToHex key = rest.map Char.toLower)) ∨
    (StopsBetween rest ∧ ∃ e,
      decodeKeyLoop (flat pairs ++ rest) (List.range' pairs.length n) = some (.error e)) ∨
    ((¬ StopsBetween rest ∧ ¬ ∀ c ∈ rest, isHexDigit c = true) ∧
      decodeKeyLoop (flat pairs ++ rest) (List.range' pairs.length n) = none) := by
  induction n generalizing pairs rest with
  | zero =>
    obtain rfl := String.utf8Len_eq_zero.mp (hlen.trans (Nat.zero_mul 2))
    refine .inl ⟨?_, [], rfl, rfl, fun _ => rfl⟩
    rintro ⟨before, stop, more, htext, -, hstop, -⟩
    have hlength := congrArg String.utf8Len htext
    simp only [String.utf8Len_append, String.utf8Len_nil] at hlength
    omega
  | succ n ih =>
    rw [decodeKeyLoop_step h]
    cases hcut : Text.splitAtByte 2 rest with
    | none =>
      -- the slice ends inside of a character
      refine .inr (.inr ⟨⟨?_, ?_⟩, rfl⟩)
      · rintro ⟨before, stop, more, rfl, hbefore, hstop, -⟩
        cases before with
        | nil =>
          have hfound := Text.splitAtByte_append stop more
          rw [hstop] at hfound
          exact absurd (hcut.symm.trans hfound) nofun
        | cons p before =>
          obtain ⟨ha, hb⟩ := (hbefore p List.mem_cons_self).utf8Size
          have hfound : Text.splitAtByte 2 (flat (p :: before) ++ (stop ++ more)) =
              some ([p.1, p.2], flat before ++ (stop ++ more)) :=
            Text.splitAtByte_eq_some.mpr ⟨by simp [flat], by simp [ha, hb]⟩
          exact absurd (hcut.symm.trans hfound) nofun
      · intro hhex
        match rest, hlen, hhex, hcut with
        | [], hlen, _, _ =>
          rw [String.utf8Len_nil] at hlen
          omega
        | [a], hlen, hhex, _ =>
          have hone := (Readable.utf8Size ⟨.inr (hhex a List.mem_cons_self), hhex a List.mem_cons_self⟩).1
          rw [String.utf8Len_cons, String.utf8Len_nil] at hlen
          omega
        | a :: b :: rest, _, hhex, hcut =>
          have hfound := @splitAtByte_two a b rest (hhex a List.mem_cons_self)
            (hhex b (List.mem_cons_of_mem a List.mem_cons_self))
          exact absurd (hcut.symm.trans hfound) nofun
    | some cut =>
      obtain ⟨piece, more⟩ := cut
      obtain ⟨rfl, hpiece⟩ := Text.splitAtByte_eq_some.mp hcut
      cases hread : fromStrRadix piece with
      | none =>
        refine .inr (.inl ⟨stopsBetween_of_piece hpiece ?_, "action seal key must be hexadecimal",
          by simp only [hread]⟩)
        rintro a b rfl hpair
        rw [← fromStrRadix_pair, hread] at hpair
        cases hpair
      | some byte =>
        obtain ⟨a, b, rfl, hpair⟩ := pair_of_fromStrRadix hpiece hread
        obtain ⟨ha, hb⟩ := hpair.utf8Size
        have hpairs : ∀ p ∈ pairs ++ [(a, b)], Readable p.1 p.2 := by
          intro p hp
          rcases List.mem_append.mp hp with hp | hp
          · exact h p hp
          · rw [List.mem_singleton.mp hp]
            exact hpair
        have hmore : String.utf8Len more = n * 2 := by
          simp only [String.utf8Len_append, String.utf8Len_cons, String.utf8Len_nil] at hlen
          omega
        have hrec := ih hpairs hmore
        rw [flat_concat, List.length_append, List.length_singleton] at hrec
        simp only [List.cons_append, List.nil_append, stopsBetween_cons hpair, List.forall_mem_cons, hread]
        rcases hrec with ⟨hstop, key, hkey, hlength, hhex⟩ | ⟨hstop, e, he⟩ | ⟨⟨hstop, hnot⟩, hnone⟩
        · refine .inl ⟨hstop, byte :: key, by rw [hkey]; rfl, by rw [List.length_cons, hlength], ?_⟩
          rintro ⟨hdigit, -, hdigits⟩
          have hfirst := bytesToHex_pair hdigit hread
          rw [bytesToHex, List.flatMap_singleton] at hfirst
          rw [bytesToHex, List.flatMap_cons, hfirst, ← bytesToHex, hhex hdigits]
          rfl
        · exact .inr (.inl ⟨hstop, e, by rw [he]; rfl⟩)
        · exact .inr (.inr ⟨⟨hstop, fun hall => hnot hall.2.2⟩, by rw [hnone]; rfl⟩)

/-! ## Decoding -/

theorem decodeKey_of_bytes {value : String} (h : value.utf8ByteSize = 64) :
    decodeKey value = decodeKeyLoop value.toList (List.range 32) := by
  rw [decodeKey, if_neg (not_not.mpr h)]

theorem utf8Len_of_digits (h : ∀ c ∈ text, isHexDigit c = true) : String.utf8Len text = text.length := by
  induction text with
  | nil => rfl
  | cons c rest ih =>
    rw [List.forall_mem_cons] at h
    have hone := (Readable.utf8Size ⟨.inr h.1, h.1⟩).1
    rw [String.utf8Len_cons, ih h.2, hone, List.length_cons]

/-- A text of digits is read to its end. -/
theorem not_stopsBetween_of_digits (h : ∀ c ∈ text, isHexDigit c = true) : ¬ StopsBetween text := by
  rintro ⟨pairs, stop, rest, rfl, -, hlen, hstop⟩
  have hdigits : ∀ c ∈ stop, isHexDigit c = true := fun c hc =>
    h c (List.mem_append_right _ (List.mem_append_left _ hc))
  rw [utf8Len_of_digits hdigits, List.length_eq_two] at hlen
  obtain ⟨a, b, rfl⟩ := hlen
  exact hstop a b rfl ⟨.inr (hdigits a (by simp)), hdigits b (by simp)⟩

/-- **Which texts are decoded exactly**: those of another length; those of digits only; and those where
the first two bytes that are neither two digits nor `+` and a digit end between two characters. -/
theorem decodeKey_exact_iff (value : String) :
    DecodesExactly value ↔ value.utf8ByteSize ≠ 64 ∨ (∀ c ∈ value.toList, isHexDigit c = true) ∨
      StopsBetween value.toList := by
  by_cases hbytes : value.utf8ByteSize = 64
  · have hlen : String.utf8Len value.toList = 32 * 2 := by
      rw [String.utf8Len_toList, hbytes]
    have hspec := @decodeKeyLoop_spec value.toList [] 32 (fun p hp => absurd hp List.not_mem_nil) hlen
    simp only [flat, List.flatMap_nil, List.nil_append, List.length_nil, ← List.range_eq_range',
      ← decodeKey_of_bytes hbytes] at hspec
    simp only [hbytes, ne_eq, not_true_eq_false, false_or]
    rcases hspec with ⟨hstop, key, hkey, hlength, hhex⟩ | ⟨hstop, e, he⟩ | ⟨⟨hstop, hnot⟩, hnone⟩
    · constructor
      · rintro ⟨outcome, houtcome, hiff, -⟩
        rw [hkey] at houtcome
        obtain rfl := Option.some.inj houtcome
        exact .inl (hiff.mp ⟨key, rfl⟩).2
      · rintro (hdigits | hbetween)
        · refine ⟨.ok key, hkey, ⟨fun _ => ⟨?_, hdigits⟩, fun _ => ⟨key, rfl⟩⟩, fun other hother => ?_⟩
          · rw [← utf8Len_of_digits hdigits, hlen]
          · obtain rfl := Except.ok.inj hother
            exact ⟨hlength, hhex hdigits⟩
        · exact absurd hbetween hstop
    · refine ⟨fun _ => .inr hstop, fun _ => ⟨.error e, he, ⟨nofun, fun hdigits => ?_⟩, nofun⟩⟩
      exact absurd hstop (not_stopsBetween_of_digits hdigits.2)
    · constructor
      · rintro ⟨outcome, houtcome, -⟩
        rw [hnone] at houtcome
        cases houtcome
      · rintro (hdigits | hbetween)
        · exact absurd hdigits hnot
        · exact absurd hbetween hstop
  · refine ⟨fun _ => .inl hbytes, fun _ => ⟨_, if_pos hbytes, ⟨nofun, fun hdigits => ?_⟩, nofun⟩⟩
    rw [← String.utf8Len_toList, utf8Len_of_digits hdigits.2] at hbytes
    exact absurd hdigits.1 hbytes

/-- **A sign is read in place of a digit**, and a character of three bytes panics. -/
theorem sign_and_panic :
    ¬ DecodesExactly (String.ofList ('+' :: List.replicate 63 'f')) ∧
      ¬ DecodesExactly (String.ofList ('€' :: List.replicate 61 '0')) := by
  constructor
  · rintro ⟨outcome, houtcome, hiff, -⟩
    have hkey : decodeKey (String.ofList ('+' :: List.replicate 63 'f')) =
        some (.ok (15 :: List.replicate 31 255)) := by decide +kernel
    rw [hkey] at houtcome
    obtain rfl := Option.some.inj houtcome
    exact absurd ((hiff.mp ⟨_, rfl⟩).2 '+' (by simp)) (by decide)
  · rintro ⟨outcome, houtcome, -⟩
    have hpanic : decodeKey (String.ofList ('€' :: List.replicate 61 '0')) = none := by decide +kernel
    rw [hpanic] at houtcome
    cases houtcome

end LocalAgent
