import Mathlib.Algebra.Group.Nat.Defs
import Mathlib.Data.List.Basic

/-!
# The bytes of a text

The bytes of a text as a list: how many there are, that they determine the text, and that a text
without control characters has none of their bytes.
-/
namespace Utf8

theorem toList_loop (bytes : ByteArray) (i : Nat) (acc : List UInt8) :
    ByteArray.toList.loop bytes i acc = acc.reverse ++ bytes.data.toList.drop i := by
  fun_induction ByteArray.toList.loop bytes i acc with
  | case1 i acc hlt ih =>
    have hdata : i < bytes.data.toList.length := hlt
    have hget : bytes.get! i = bytes.data.toList[i] := by
      rw [Array.getElem_toList]
      exact getElem!_pos bytes.data i hlt
    rw [ih, List.drop_eq_getElem_cons hdata, hget, List.reverse_cons, List.append_assoc,
      List.singleton_append]
  | case2 i acc hge =>
    have hdata : bytes.data.toList.length ≤ i := Nat.not_lt.mp hge
    rw [List.drop_eq_nil_of_le hdata, List.append_nil]

theorem toList_eq (bytes : ByteArray) : bytes.toList = bytes.data.toList :=
  toList_loop bytes 0 []

theorem length_utf8 (text : String) : text.toUTF8.toList.length = text.utf8ByteSize := by
  rw [toList_eq]
  rfl

theorem utf8_inj {a b : String} (h : a.toUTF8.toList = b.toUTF8.toList) : a = b := by
  rw [toList_eq, toList_eq] at h
  exact String.toByteArray_inj.mp (ByteArray.ext (Array.ext' h))

/-- A byte of a text is a byte of one of its characters. -/
theorem mem_utf8 {text : String} {b : UInt8} (h : b ∈ text.toUTF8.toList) :
    ∃ c ∈ text.toList, b ∈ String.utf8EncodeChar c := by
  have hbytes : text.toUTF8.data.toList = text.toList.flatMap String.utf8EncodeChar := by
    conv_lhs => rw [← String.ofList_toList (s := text), String.toUTF8, String.toByteArray_ofList]
    simp [List.utf8Encode]
  rw [toList_eq, hbytes] at h
  exact List.mem_flatMap.mp h

/-- Bytes below 32 encode the characters below 32 only. -/
theorem utf8EncodeChar_ge {c : Char} (h : 32 ≤ c.toNat) {b : UInt8} (hb : b ∈ String.utf8EncodeChar c) :
    32 ≤ b.toNat := by
  have hbyte : ∀ n : Nat, 32 ≤ n % 256 → b = UInt8.ofNat n → 32 ≤ b.toNat := by
    rintro n hn rfl
    simpa using hn
  have hval : c.val.toNat = c.toNat := rfl
  simp only [String.utf8EncodeChar, hval] at hb
  split_ifs at hb <;> simp only [List.mem_cons, List.not_mem_nil, or_false] at hb
  · exact hbyte _ (by omega) hb
  · rcases hb with hb | hb <;> exact hbyte _ (by omega) hb
  · rcases hb with hb | hb | hb <;> exact hbyte _ (by omega) hb
  · rcases hb with hb | hb | hb | hb <;> exact hbyte _ (by omega) hb

theorem utf8_ge {text : String} (h : ∀ c ∈ text.toList, 32 ≤ c.toNat) {b : UInt8}
    (hb : b ∈ text.toUTF8.toList) : 32 ≤ b.toNat := by
  obtain ⟨c, hc, hbyte⟩ := mem_utf8 hb
  exact utf8EncodeChar_ge (h c hc) hbyte

end Utf8
