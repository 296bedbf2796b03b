import Mathlib
import ContentStream.Text.Utf8

set_option autoImplicit false

namespace ContentStream.Utf8

theorem toList_loop_eq (bytes : ByteArray) (i : Nat) (before : List UInt8) :
    ByteArray.toList.loop bytes i before = before.reverse ++ bytes.data.toList.drop i := by
  fun_induction ByteArray.toList.loop bytes i before with
  | case1 i before h ih =>
    have hi : i < bytes.data.toList.length := by simpa using h
    rw [ih, List.drop_eq_getElem_cons (l := bytes.data.toList) hi]
    simp [ByteArray.get!, h]
  | case2 i before h =>
    have hi : bytes.data.toList.length ≤ i := by simpa using Nat.le_of_not_lt h
    rw [List.drop_eq_nil_of_le hi, List.append_nil]

theorem encode_eq (text : String) : encode text = text.toList.flatMap String.utf8EncodeChar := by
  have hbytes : text.toUTF8 = (text.toList.flatMap String.utf8EncodeChar).toByteArray :=
    String.utf8Encode_toList.symm
  unfold encode ByteArray.toList
  rw [hbytes, toList_loop_eq]
  exact List.toList_data_toByteArray

section Character
variable {v : Nat}

theorem step_none (b : Nat) : step none b = begin b := rfl

theorem step_continues {p : Pending} {b : Nat} (hlow : p.low ≤ b) (hhigh : b ≤ p.high)
    (howed : 1 < p.owed) :
    step (some p) b = ([], some ⟨p.value * 64 + (b - 0x80), p.owed - 1, 0x80, 0xBF⟩) := by
  simp only [step, hlow, hhigh, and_self, if_true]
  rw [if_neg (Nat.not_le.2 howed)]

theorem step_completes {p : Pending} {b : Nat} (hlow : p.low ≤ b) (hhigh : b ≤ p.high)
    (howed : p.owed = 1) :
    step (some p) b = ([Char.ofNat (p.value * 64 + (b - 0x80))], none) := by
  simp only [step, hlow, hhigh, and_self, if_true]
  rw [if_pos howed.le]

theorem begin_one (h : v ≤ 0x7F) : begin v = ([Char.ofNat v], none) := if_pos h

theorem begin_two (hlow : 0x7F < v) (hhigh : v ≤ 0x7FF) :
    begin (v / 64 + 0xC0) = ([], some ⟨v / 64, 1, 0x80, 0xBF⟩) := by
  unfold begin
  rw [if_neg (by omega), if_pos (by omega), Nat.add_sub_cancel]

theorem begin_three (hlow : 0x7FF < v) (hhigh : v ≤ 0xFFFF) (hvalid : v.isValidChar) :
    ∃ low high, begin (v / 4096 + 0xE0) = ([], some ⟨v / 4096, 2, low, high⟩) ∧
      low ≤ v / 64 % 64 + 0x80 ∧ v / 64 % 64 + 0x80 ≤ high := by
  have hsurrogate : v < 0xD800 ∨ 0xDFFF < v := hvalid.imp_right And.left
  unfold begin
  rw [if_neg (by omega), if_neg (by omega)]
  by_cases hfirst : v / 4096 = 0
  · exact ⟨0xA0, 0xBF, by rw [hfirst]; rfl, by omega, by omega⟩
  by_cases hlast : v / 4096 = 0xD
  · exact ⟨0x80, 0x9F, by rw [hlast]; rfl, by omega, by omega⟩
  rw [if_neg (by omega), if_neg (by omega), if_pos (by omega), Nat.add_sub_cancel]
  exact ⟨0x80, 0xBF, rfl, by omega, by omega⟩

theorem begin_four (hlow : 0xFFFF < v) (hvalid : v.isValidChar) :
    ∃ low high, begin (v / 262144 + 0xF0) = ([], some ⟨v / 262144, 3, low, high⟩) ∧
      low ≤ v / 4096 % 64 + 0x80 ∧ v / 4096 % 64 + 0x80 ≤ high := by
  have hbound : v < 0x110000 := hvalid.elim (by omega) And.right
  unfold begin
  rw [if_neg (by omega), if_neg (by omega), if_neg (by omega), if_neg (by omega), if_neg (by omega)]
  by_cases hfirst : v / 262144 = 0
  · exact ⟨0x90, 0xBF, by rw [hfirst]; rfl, by omega, by omega⟩
  by_cases hlast : v / 262144 = 4
  · exact ⟨0x80, 0x8F, by rw [hlast]; rfl, by omega, by omega⟩
  rw [if_neg (by omega), if_pos (by omega), Nat.add_sub_cancel]
  exact ⟨0x80, 0xBF, rfl, by omega, by omega⟩

end Character

theorem decodeFrom_cons (acc : List Char) (p : Option Pending) (b : UInt8) (bytes : List UInt8) :
    decodeFrom acc p (b :: bytes) =
      decodeFrom ((step p b.toNat).1.reverse ++ acc) (step p b.toNat).2 bytes := rfl

theorem toNat_ofNat_add {n low : Nat} (h : n + low < 256) :
    (UInt8.ofNat (n + low)).toNat = n + low := by
  rw [UInt8.toNat_ofNat', Nat.mod_eq_of_lt h]

theorem decodeFrom_encodeChar (acc : List Char) (c : Char) (bytes : List UInt8) :
    decodeFrom acc none (String.utf8EncodeChar c ++ bytes) = decodeFrom (c :: acc) none bytes := by
  have hvalid : c.val.toNat.isValidChar := c.valid
  have hofNat : Char.ofNat c.val.toNat = c := Char.ofNat_toNat c
  unfold String.utf8EncodeChar
  dsimp only
  generalize c.val.toNat = v at hvalid hofNat
  have hmax : v < 0x110000 := hvalid.elim (by omega) And.right
  have hthird : (UInt8.ofNat (v / 4096 % 64 + 0x80)).toNat = v / 4096 % 64 + 0x80 :=
    toNat_ofNat_add (by omega)
  have hsecond : (UInt8.ofNat (v / 64 % 64 + 0x80)).toNat = v / 64 % 64 + 0x80 :=
    toNat_ofNat_add (by omega)
  have hlast : (UInt8.ofNat (v % 64 + 0x80)).toNat = v % 64 + 0x80 := toNat_ofNat_add (by omega)
  have hlow : 0x80 ≤ v % 64 + 0x80 := by omega
  have hhigh : v % 64 + 0x80 ≤ 0xBF := by omega
  split_ifs with hone htwo hthree
  · have hfirst : (UInt8.ofNat v).toNat = v := by
      rw [UInt8.toNat_ofNat', Nat.mod_eq_of_lt (by omega)]
    rw [List.singleton_append, decodeFrom_cons, hfirst, step_none, begin_one hone, hofNat]
    rfl
  · have hfirst : (UInt8.ofNat (v / 64 % 0x20 + 0xC0)).toNat = v / 64 + 0xC0 := by
      rw [Nat.mod_eq_of_lt (by omega), toNat_ofNat_add (by omega)]
    have hvalue : v / 64 * 64 + (v % 64 + 0x80 - 0x80) = v := by omega
    simp only [List.cons_append, List.nil_append, decodeFrom_cons, hfirst, hlast, step_none]
    rw [begin_two (by omega) htwo, step_completes hlow hhigh rfl, hvalue, hofNat]
    rfl
  · have hfirst : (UInt8.ofNat (v / 4096 % 0x10 + 0xE0)).toNat = v / 4096 + 0xE0 := by
      rw [Nat.mod_eq_of_lt (by omega), toNat_ofNat_add (by omega)]
    have hvalue : (v / 4096 * 64 + (v / 64 % 64 + 0x80 - 0x80)) * 64 +
        (v % 64 + 0x80 - 0x80) = v := by
      omega
    obtain ⟨low, high, hbegin, hfrom, hto⟩ := begin_three (by omega) hthree hvalid
    simp only [List.cons_append, List.nil_append, decodeFrom_cons, hfirst, hsecond, hlast,
      step_none]
    rw [hbegin, step_continues hfrom hto Nat.one_lt_two, step_completes hlow hhigh rfl, hvalue,
      hofNat]
    rfl
  · have hfirst : (UInt8.ofNat (v / 262144 % 0x08 + 0xF0)).toNat = v / 262144 + 0xF0 := by
      rw [Nat.mod_eq_of_lt (by omega), toNat_ofNat_add (by omega)]
    have hvalue : ((v / 262144 * 64 + (v / 4096 % 64 + 0x80 - 0x80)) * 64 +
        (v / 64 % 64 + 0x80 - 0x80)) * 64 + (v % 64 + 0x80 - 0x80) = v := by
      omega
    obtain ⟨low, high, hbegin, hfrom, hto⟩ := begin_four (by omega) hvalid
    simp only [List.cons_append, List.nil_append, decodeFrom_cons, hfirst, hthird, hsecond, hlast,
      step_none]
    have hsecondLow : 0x80 ≤ v / 64 % 64 + 0x80 := by omega
    have hsecondHigh : v / 64 % 64 + 0x80 ≤ 0xBF := by omega
    rw [hbegin, step_continues hfrom hto (Nat.one_lt_succ_succ 1),
      step_continues hsecondLow hsecondHigh Nat.one_lt_two, step_completes hlow hhigh rfl,
      hvalue, hofNat]
    rfl

/-- Decoding undoes encoding. -/
@[simp] theorem decode_encode (text : String) : decode (encode text) = text := by
  have hdecode : ∀ (cs acc : List Char),
      decodeFrom acc none (cs.flatMap String.utf8EncodeChar) = acc.reverse ++ cs := by
    intro cs
    induction cs with
    | nil => intro acc; simp [decodeFrom]
    | cons c cs ih =>
      intro acc
      rw [List.flatMap_cons, decodeFrom_encodeChar, ih]
      simp
  rw [decode, encode_eq, hdecode]
  exact String.ofList_toList

end ContentStream.Utf8
