import Mathlib.Algebra.Group.Nat.Defs
import Mathlib.Data.Nat.Digits.Defs

/-!
# Encodings that are put one after the other

Two words *split* if neither is a proper beginning of the other: whatever follows them, the place
where they end can be found (`Splits`). Words of the same length split, words with different first
letters split, and splitting is kept by concatenation. A sequence of words is recovered from its
concatenation if their number is known (`flatten_counted`), or if each begins with a sign that does
not begin what comes after the sequence (`flatten_signed`, `flatten_marked`). Words behind their length
split.
-/
namespace Encoding

/-! ## Splitting -/

section Splits

variable {β : Type} {x y x' y' s t : List β}

/-- Neither word is a proper beginning of the other. -/
def Splits (x y : List β) : Prop := ∀ ⦃s t : List β⦄, x ++ s = y ++ t → x = y ∧ s = t

theorem Splits.refl (x : List β) : Splits x x := by
  intro s t h
  exact ⟨rfl, List.append_cancel_left h⟩

theorem Splits.of_length (h : x.length = y.length) : Splits x y := by
  intro s t happ
  exact List.append_inj happ h

theorem Splits.append (h : Splits x y) (h' : Splits x' y') : Splits (x ++ x') (y ++ y') := by
  intro s t happ
  rw [List.append_assoc, List.append_assoc] at happ
  obtain ⟨rfl, hrest⟩ := h happ
  obtain ⟨rfl, rfl⟩ := h' hrest
  exact ⟨rfl, rfl⟩

/-- It is enough that the second parts split where the first parts are equal. -/
theorem Splits.append_of_eq (h : Splits x y) (h' : x = y → Splits x' y') :
    Splits (x ++ x') (y ++ y') := by
  intro s t happ
  rw [List.append_assoc, List.append_assoc] at happ
  obtain ⟨heq, hrest⟩ := h happ
  obtain ⟨rfl, rfl⟩ := h' heq hrest
  exact ⟨by rw [heq], rfl⟩

theorem Splits.of_ne {a b : β} (h : a ≠ b) : Splits (a :: x) (b :: y) := by
  intro s t happ
  exact absurd (List.cons.inj happ).1 h

theorem Splits.cons {a b : β} (h : a = b → Splits x y) : Splits (a :: x) (b :: y) := by
  intro s t happ
  simp only [List.cons_append, List.cons.injEq] at happ
  obtain ⟨rfl, hrest⟩ := happ
  obtain ⟨rfl, rfl⟩ := h rfl hrest
  exact ⟨rfl, rfl⟩

end Splits

/-! ## Sequences -/

section Flatten

variable {β : Type} {ps qs : List (List β)} {s t : List β}

/-- A known number of words. -/
theorem flatten_counted (hlen : ps.length = qs.length) (h : ∀ p ∈ ps, ∀ q ∈ qs, Splits p q)
    (happ : ps.flatten ++ s = qs.flatten ++ t) : ps = qs ∧ s = t := by
  induction ps generalizing qs with
  | nil =>
    obtain rfl := List.length_eq_zero_iff.mp hlen.symm
    exact ⟨rfl, happ⟩
  | cons p ps ih =>
    cases qs with
    | nil => cases hlen
    | cons q qs =>
      simp only [List.flatten_cons, List.append_assoc] at happ
      obtain ⟨rfl, hrest⟩ := h p List.mem_cons_self q List.mem_cons_self happ
      obtain ⟨rfl, rfl⟩ := ih (Nat.succ.inj hlen)
        (fun p' hp q' hq => h p' (List.mem_cons_of_mem p hp) q' (List.mem_cons_of_mem p hq)) hrest
      exact ⟨rfl, rfl⟩

/-- A word that begins with a marked letter. -/
def Marked (mark : β → Prop) (p : List β) : Prop := ∃ b ∈ p.head?, mark b

theorem Marked.append {mark : β → Prop} {p : List β} (h : Marked mark p) (r : List β) :
    Marked mark (p ++ r) := by
  obtain ⟨b, hb, hmark⟩ := h
  cases p with
  | nil => cases hb
  | cons a p => exact ⟨b, hb, hmark⟩

theorem marked_cons {mark : β → Prop} {b : β} {p : List β} : Marked mark (b :: p) ↔ mark b := by
  simp [Marked]

theorem not_marked_nil {mark : β → Prop} : ¬ Marked mark [] := by simp [Marked]

/-- Two words split where what follows goes on with neither of them. -/
def SplitsBefore (goesOn : List β → Prop) (x y : List β) : Prop :=
  ∀ ⦃s t : List β⦄, ¬ goesOn s → ¬ goesOn t → x ++ s = y ++ t → x = y ∧ s = t

theorem Splits.before {goesOn : List β → Prop} {x y : List β} (h : Splits x y) :
    SplitsBefore goesOn x y :=
  fun _ _ _ _ happ => h happ

theorem Splits.append_before {goesOn : List β → Prop} {x y x' y' : List β} (h : Splits x y)
    (h' : x = y → SplitsBefore goesOn x' y') : SplitsBefore goesOn (x ++ x') (y ++ y') := by
  intro s t hs ht happ
  rw [List.append_assoc, List.append_assoc] at happ
  obtain ⟨heq, hrest⟩ := h happ
  obtain ⟨rfl, rfl⟩ := h' heq hs ht hrest
  exact ⟨by rw [heq], rfl⟩

/-- Words of marked letters only. -/
theorem splitsBefore_of_all {mark : β → Prop} {x y : List β} (hx : ∀ b ∈ x, mark b)
    (hy : ∀ b ∈ y, mark b) : SplitsBefore (Marked mark) x y := by
  intro s t hs ht happ
  induction x generalizing y with
  | nil =>
    cases y with
    | nil => exact ⟨rfl, happ⟩
    | cons b y =>
      rw [List.nil_append] at happ
      rw [happ, List.cons_append, marked_cons] at hs
      exact absurd (hy b List.mem_cons_self) hs
  | cons a x ih =>
    cases y with
    | nil =>
      rw [List.nil_append] at happ
      rw [← happ, List.cons_append, marked_cons] at ht
      exact absurd (hx a List.mem_cons_self) ht
    | cons b y =>
      simp only [List.cons_append, List.cons.injEq] at happ
      obtain ⟨rfl, hrest⟩ := happ
      obtain ⟨rfl, rfl⟩ := ih (fun c hc => hx c (List.mem_cons_of_mem a hc))
        (fun c hc => hy c (List.mem_cons_of_mem a hc)) hrest
      exact ⟨rfl, rfl⟩

/-- Words that begin with a sign, before something that does not. The sign also ends the word before
it. -/
theorem flatten_signed {sign goesOn : List β → Prop} (hsign : ∀ p r, sign p → sign (p ++ r))
    (hends : ∀ p, sign p → ¬ goesOn p) (hps : ∀ p ∈ ps, sign p) (hqs : ∀ q ∈ qs, sign q)
    (hs : ¬ sign s ∧ ¬ goesOn s) (ht : ¬ sign t ∧ ¬ goesOn t)
    (h : ∀ p ∈ ps, ∀ q ∈ qs, SplitsBefore goesOn p q) (happ : ps.flatten ++ s = qs.flatten ++ t) :
    ps = qs ∧ s = t := by
  -- what follows a word is the next word or what comes after all of them
  have hrest : ∀ {ws : List (List β)} {u : List β}, (∀ w ∈ ws, sign w) → ¬ goesOn u →
      ¬ goesOn (ws.flatten ++ u) := by
    intro ws u hws hu
    cases ws with
    | nil => exact hu
    | cons w ws =>
      rw [List.flatten_cons, List.append_assoc]
      exact hends _ (hsign w _ (hws w List.mem_cons_self))
  induction ps generalizing qs with
  | nil =>
    cases qs with
    | nil => exact ⟨rfl, happ⟩
    | cons q qs =>
      refine absurd ?_ hs.1
      rw [List.flatten_nil, List.nil_append] at happ
      rw [happ, List.flatten_cons, List.append_assoc]
      exact hsign q _ (hqs q List.mem_cons_self)
  | cons p ps ih =>
    cases qs with
    | nil =>
      refine absurd ?_ ht.1
      rw [List.flatten_nil, List.nil_append] at happ
      rw [← happ, List.flatten_cons, List.append_assoc]
      exact hsign p _ (hps p List.mem_cons_self)
    | cons q qs =>
      rw [List.forall_mem_cons] at hps hqs
      simp only [List.flatten_cons, List.append_assoc] at happ
      obtain ⟨rfl, htail⟩ := h p List.mem_cons_self q List.mem_cons_self (hrest hps.2 hs.2)
        (hrest hqs.2 ht.2) happ
      obtain ⟨rfl, rfl⟩ := ih hps.2 hqs.2 (fun p' hp q' hq =>
        h p' (List.mem_cons_of_mem p hp) q' (List.mem_cons_of_mem p hq)) htail
      exact ⟨rfl, rfl⟩

/-- Words that begin with a marked letter and split, before something that does not begin so. -/
theorem flatten_marked {mark : β → Prop} (hps : ∀ p ∈ ps, Marked mark p)
    (hqs : ∀ q ∈ qs, Marked mark q) (hs : ¬ Marked mark s) (ht : ¬ Marked mark t)
    (h : ∀ p ∈ ps, ∀ q ∈ qs, Splits p q) (happ : ps.flatten ++ s = qs.flatten ++ t) :
    ps = qs ∧ s = t := by
  have hends : ∀ p, Marked mark p → ¬ (fun _ : List β => False) p := fun _ _ hfalse => hfalse
  exact flatten_signed (fun _ r hp => hp.append r) hends hps hqs ⟨hs, id⟩ ⟨ht, id⟩
    (fun p hp q hq => (h p hp q hq).before) happ

end Flatten

/-! ## Numbers -/

/-- The `n` big-endian bytes of a number (`to_be_bytes`, `as_bytes`). -/
def beBytes (n value : Nat) : List UInt8 :=
  (List.range n).map fun i => UInt8.ofNat (value / 256 ^ (n - 1 - i))

@[simp] theorem length_beBytes (n value : Nat) : (beBytes n value).length = n := by
  simp [beBytes]

theorem beBytes_succ (n value : Nat) :
    beBytes (n + 1) value = UInt8.ofNat (value / 256 ^ n) :: beBytes n value := by
  simp only [beBytes, List.range_succ_eq_map, List.map_cons, List.map_map, List.cons.injEq]
  refine ⟨by simp, List.map_congr_left fun i hi => ?_⟩
  have hlt := List.mem_range.mp hi
  have hexp : n + 1 - 1 - (i + 1) = n - 1 - i := by omega
  simp only [Function.comp_apply, Nat.succ_eq_add_one, hexp]

theorem beBytes_mod (n value : Nat) : beBytes n (value % 256 ^ n) = beBytes n value := by
  refine List.map_congr_left fun i hi => ?_
  have hlt := List.mem_range.mp hi
  have hsplit : 256 ^ n = 256 ^ (n - 1 - i) * (256 * 256 ^ i) := by
    rw [← pow_succ', ← pow_add]
    congr 1
    omega
  rw [hsplit, Nat.mod_mul_right_div_self]
  apply UInt8.toNat_inj.mp
  simp only [UInt8.toNat_ofNat', Nat.reducePow]
  exact Nat.mod_mul_right_mod _ _ _

/-- A number is known by its bytes. -/
theorem beBytes_inj {n a b : Nat} (ha : a < 256 ^ n) (hb : b < 256 ^ n)
    (h : beBytes n a = beBytes n b) : a = b := by
  induction n generalizing a b with
  | zero => omega
  | succ n ih =>
    have hpos : 0 < 256 ^ n := by positivity
    rw [beBytes_succ, beBytes_succ, List.cons.injEq, ← beBytes_mod n a, ← beBytes_mod n b] at h
    obtain ⟨hhead, htail⟩ := h
    have hlow := ih (Nat.mod_lt a hpos) (Nat.mod_lt b hpos) htail
    have hbyte {m : Nat} (hm : m < 256 ^ (n + 1)) : m / 256 ^ n < 256 :=
      Nat.div_lt_of_lt_mul (by rwa [pow_succ] at hm)
    have hhigh : a / 256 ^ n = b / 256 ^ n := by
      have hnat := congrArg UInt8.toNat hhead
      simp only [UInt8.toNat_ofNat', Nat.reducePow, Nat.mod_eq_of_lt (hbyte ha),
        Nat.mod_eq_of_lt (hbyte hb)] at hnat
      exact hnat
    rw [← Nat.div_add_mod a (256 ^ n), ← Nat.div_add_mod b (256 ^ n), hhigh, hlow]

/-- A number with room to spare begins with a zero. -/
theorem beBytes_of_lt {n value : Nat} (h : value < 256 ^ n) :
    beBytes (n + 1) value = 0 :: beBytes n value := by
  rw [beBytes_succ, Nat.div_eq_of_lt h]
  rfl

theorem splits_beBytes (n a b : Nat) : Splits (beBytes n a) (beBytes n b) :=
  .of_length (by simp)

/-- The number that has these big-endian bytes (`from_be_bytes`). -/
def ofBeBytes : List UInt8 → Nat
  | [] => 0
  | b :: bytes => b.toNat * 256 ^ bytes.length + ofBeBytes bytes

theorem ofBeBytes_lt (bytes : List UInt8) : ofBeBytes bytes < 256 ^ bytes.length := by
  induction bytes with
  | nil => simp [ofBeBytes]
  | cons b bytes ih =>
    have hle : (b.toNat + 1) * 256 ^ bytes.length ≤ 256 * 256 ^ bytes.length :=
      Nat.mul_le_mul_right _ b.toNat_lt
    rw [add_mul, one_mul] at hle
    rw [ofBeBytes, List.length_cons, pow_succ']
    omega

theorem beBytes_ofBeBytes (bytes : List UInt8) : beBytes bytes.length (ofBeBytes bytes) = bytes := by
  induction bytes with
  | nil => rfl
  | cons b bytes ih =>
    have hlt := ofBeBytes_lt bytes
    have hdiv : (b.toNat * 256 ^ bytes.length + ofBeBytes bytes) / 256 ^ bytes.length = b.toNat := by
      rw [mul_comm, Nat.mul_add_div (by positivity), Nat.div_eq_of_lt hlt, add_zero]
    have hmod : (b.toNat * 256 ^ bytes.length + ofBeBytes bytes) % 256 ^ bytes.length =
        ofBeBytes bytes := by
      rw [mul_comm, Nat.mul_add_mod, Nat.mod_eq_of_lt hlt]
    rw [ofBeBytes, List.length_cons, beBytes_succ, hdiv, ← beBytes_mod, hmod, ih, UInt8.ofNat_toNat]

theorem ofBeBytes_beBytes {n value : Nat} (h : value < 256 ^ n) : ofBeBytes (beBytes n value) = value := by
  have hlt := ofBeBytes_lt (beBytes n value)
  have hbytes := beBytes_ofBeBytes (beBytes n value)
  rw [length_beBytes] at hlt hbytes
  exact beBytes_inj hlt h hbytes

/-! ## Words behind their length -/

/-- A word behind its length. -/
def sized (n : Nat) (bytes : List UInt8) : List UInt8 := beBytes n bytes.length ++ bytes

theorem splits_sized {n : Nat} {x y : List UInt8} (hx : x.length < 256 ^ n)
    (hy : y.length < 256 ^ n) : Splits (sized n x) (sized n y) :=
  (splits_beBytes n _ _).append_of_eq fun h => .of_length (beBytes_inj hx hy h)

theorem sized_inj {n : Nat} {x y : List UInt8} (h : sized n x = sized n y) : x = y :=
  (List.append_inj h (by simp)).2

/-- A length with room to spare begins with a zero. -/
theorem marked_sized {n : Nat} {x : List UInt8} (hx : x.length < 256 ^ n) (s : List UInt8) :
    Marked (· = 0) (sized (n + 1) x ++ s) := by
  rw [sized, beBytes_of_lt hx]
  exact ⟨0, rfl, rfl⟩

end Encoding
