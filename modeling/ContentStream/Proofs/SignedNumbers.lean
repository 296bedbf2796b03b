import Mathlib
import ContentStream.Proofs.LexerProgress
import ContentStream.Proofs.Spellings

set_option autoImplicit false

namespace ContentStream
variable {K : Type}

namespace Utf8

theorem decodeFrom_eq_append (acc : List Char) (p : Option Pending) (bytes : List UInt8) :
    decodeFrom acc p bytes = acc.reverse ++ decodeFrom [] p bytes := by
  induction bytes generalizing acc p with
  | nil => cases p <;> simp [decodeFrom]
  | cons b bytes ih =>
    rw [decodeFrom_cons, decodeFrom_cons, ih, ih (_ ++ [])]
    simp

theorem toList_decode_cons {b : UInt8} (hb : b.toNat ≤ 0x7F) (bytes : List UInt8) :
    (decode (b :: bytes)).toList = Char.ofNat b.toNat :: (decode bytes).toList := by
  unfold decode
  rw [decodeFrom_cons, step_none, begin_one hb, decodeFrom_eq_append]
  simp

end Utf8

def digitsValue (digits : List UInt8) : Nat := Nat.ofDigits 10 (digits.reverse.map digitValue)

theorem digitsValue_nil : digitsValue [] = 0 := rfl

theorem digitsValue_concat (digits : List UInt8) (d : UInt8) :
    digitsValue (digits ++ [d]) = digitValue d + 10 * digitsValue digits := by
  unfold digitsValue
  rw [List.reverse_append, List.reverse_singleton, List.singleton_append, List.map_cons,
    Nat.ofDigits_cons]

theorem digitsValue_append (v w : List UInt8) :
    digitsValue (v ++ w) = digitsValue w + 10 ^ w.length * digitsValue v := by
  unfold digitsValue
  rw [List.reverse_append, List.map_append, Nat.ofDigits_append, List.length_map,
    List.length_reverse]

theorem digitsValue_cons (d : UInt8) (digits : List UInt8) :
    digitsValue (d :: digits) = digitsValue digits + 10 ^ digits.length * digitValue d := by
  have hone : digitsValue [d] = digitValue d := by simp [digitsValue]
  rw [← List.singleton_append, digitsValue_append, hone]

section Exact
variable [ExactField K]

/-- Decimal numerals without a sign, and the numbers that they stand for: digits, and at most one
point before, among or after them. -/
inductive DecimalNumeral : List UInt8 → K → Prop
  | whole {w : List UInt8} (hw : ∀ d ∈ w, isDigit d = true) (hne : w ≠ []) :
      DecimalNumeral w (digitsValue w : K)
  | pointed {w f : List UInt8} (hw : ∀ d ∈ w, isDigit d = true) (hf : ∀ d ∈ f, isDigit d = true)
      (hne : w ++ f ≠ []) :
      DecimalNumeral (w ++ byte '.' :: f) ((digitsValue (w ++ f) : K) / 10 ^ f.length)

namespace Lexeme

theorem integral_eq (digits : List UInt8) : integral digits = (digitsValue digits : K) := by
  induction digits using List.reverseRecOn with
  | nil => simp [integral, digitsValue_nil]
  | append_singleton digits d ih =>
    unfold integral at ih ⊢
    rw [List.foldl_append, ih, digitsValue_concat]
    simp only [List.foldl_cons, List.foldl_nil]
    push_cast
    ring

theorem addFraction_eq (value scale : K) (digits : List UInt8) :
    addFraction value scale digits =
      value + scale * 10 * (digitsValue digits : K) / 10 ^ digits.length := by
  induction digits generalizing value scale with
  | nil => simp [addFraction, digitsValue_nil]
  | cons d digits ih =>
    have hpower : (10 : K) ^ digits.length ≠ 0 := pow_ne_zero _ (by norm_num)
    have htenth : (0.1 : K) = 1 / 10 := by norm_num
    rw [addFraction, ih, digitsValue_cons, List.length_cons, pow_succ, htenth]
    push_cast
    field_simp
    ring

theorem addFraction_integral (w f : List UInt8) :
    addFraction (integral w) 0.1 f = (digitsValue (w ++ f) : K) / 10 ^ f.length := by
  have hpower : (10 : K) ^ f.length ≠ 0 := pow_ne_zero _ (by norm_num)
  have htenth : (0.1 : K) = 1 / 10 := by norm_num
  rw [addFraction_eq, integral_eq, digitsValue_append, htenth]
  push_cast
  field_simp
  ring

theorem numeral_decimal {s : List UInt8} {value : K} (h : DecimalNumeral s value) :
    numeral s = (some value, []) := by
  rw [numeral_eq]
  cases h with
  | whole hw hne =>
    rw [List.takeWhile_eq_self_iff.2 hw, List.dropWhile_eq_nil_iff.2 hw]
    simp [fraction, hne, addFraction, integral_eq]
  | @pointed w f hw hf hne =>
    have hpoint : isDigit (byte '.') = false := rfl
    have htake : (w ++ byte '.' :: f).takeWhile isDigit = w := by
      rw [takeWhile_append_stop hpoint, List.takeWhile_eq_self_iff.2 hw]
    have hdrop : (w ++ byte '.' :: f).dropWhile isDigit = byte '.' :: f := by
      rw [dropWhile_append_stop hpoint, List.dropWhile_eq_nil_iff.2 hw, List.nil_append]
    have hfraction : fraction (byte '.' :: f) = (f, []) := by
      rw [fraction, if_pos (beq_self_eq_true _), List.takeWhile_eq_self_iff.2 hf,
        List.dropWhile_eq_nil_iff.2 hf]
    have hempty : (w.isEmpty && f.isEmpty) = false := by
      rw [Bool.eq_false_iff]
      simpa using hne
    rw [htake, hdrop, hfraction, hempty, addFraction_integral]
    rfl

theorem startsNumeral_decimal {s : List UInt8} {value : K} (h : DecimalNumeral s value) :
    startsNumeral s = true := by
  cases h with
  | whole hw hne =>
    obtain ⟨d, w, rfl⟩ := List.exists_cons_of_ne_nil hne
    simp [startsNumeral, hw d List.mem_cons_self]
  | @pointed w f hw hf hne =>
    cases w with
    | nil => rfl
    | cons d w => simp [startsNumeral, hw d List.mem_cons_self]

theorem isRegular_decimal {s : List UInt8} {value : K} (h : DecimalNumeral s value) :
    ∀ b ∈ s, isRegular b = true := by
  have hdigit : ∀ b, isDigit b = true → isRegular b = true := by decide +kernel
  cases h with
  | whole hw _ => exact fun b hb => hdigit b (hw b hb)
  | pointed hw hf _ =>
    intro b hb
    rcases List.mem_append.1 hb with hb | hb
    · exact hdigit b (hw b hb)
    rcases List.mem_cons.1 hb with rfl | hb
    · decide
    · exact hdigit b (hf b hb)

def IsSign (b : UInt8) : Prop := b = byte '+' ∨ b = byte '-'

theorem isRegular_sign {b : UInt8} (h : IsSign b) : isRegular b = true := by
  rcases h with rfl | rfl <;> decide

/-- A word that begins with a sign is an operator without image data behind it. -/
theorem decode_sign_not_mem {sign : UInt8} (h : IsSign sign) (s : List UInt8) :
    Utf8.decode (sign :: s) ∉ reservedWords := by
  have hascii : sign.toNat ≤ 0x7F := by rcases h with rfl | rfl <;> decide
  have hfirst : (Utf8.decode (sign :: s)).toList.head? = some (Char.ofNat sign.toNat) := by
    rw [Utf8.toList_decode_cons hascii]
    rfl
  intro hmem
  have hreserved : ∀ text ∈ reservedWords,
      text.toList.head? ≠ some '+' ∧ text.toList.head? ≠ some '-' := by decide
  rcases h with rfl | rfl
  · exact (hreserved _ hmem).1 hfirst
  · exact (hreserved _ hmem).2 hfirst

theorem scan_signed {sign : UInt8} (hsign : IsSign sign) {s : List UInt8} {value : K}
    (h : DecimalNumeral s value) :
    scan (sign :: s) =
      some (.token (.number (if sign == byte '-' then -value else value)), []) := by
  have hopening : opening sign s = .signed (sign == byte '-') := by
    have hstarts := startsNumeral_decimal h
    rcases hsign with rfl | rfl
    · exact if_pos hstarts
    · exact if_pos hstarts
  change some (scanFrom sign s) = _
  unfold scanFrom
  rw [hopening]
  dsimp only
  rw [number, numeral_decimal h]

/-- Behind a sign that another one follows everything up to a blank belongs to one word. -/
theorem scan_signs {sign sign' : UInt8} (hsign : IsSign sign) (hsign' : IsSign sign')
    {s : List UInt8} (hs : ∀ b ∈ s, isRegular b = true) :
    scan (K := K) (sign :: sign' :: s) =
      some (.token (.operator (Utf8.decode (sign :: sign' :: s))), []) := by
  have hregular : ∀ b ∈ sign' :: s, isRegular b = true :=
    List.forall_mem_cons.2 ⟨isRegular_sign hsign', hs⟩
  have hopening : opening sign (sign' :: s) = .word := by
    refine opening_word (isRegular_sign hsign) ?_
    rcases hsign with rfl | rfl <;> rcases hsign' with rfl | rfl <;> rfl
  have hunlike := decode_sign_not_mem hsign (sign' :: s)
  change some (scanFrom sign (sign' :: s)) = _
  unfold scanFrom
  rw [hopening]
  dsimp only
  rw [List.takeWhile_eq_self_iff.2 hregular, List.dropWhile_eq_nil_iff.2 hregular]
  simp only [reservedWords, List.mem_cons, List.not_mem_nil, or_false, not_or] at hunlike
  simp [ofWord, hunlike]

end Lexeme

namespace Lexer
open Lexeme

theorem next_of_scan {n : Nat} {s rest : List UInt8} {t : Token K}
    (h : scan s = some (.token t, rest)) :
    next ⟨n, s, false⟩ = some (.ok t, ⟨n, rest, t.opensImageData⟩) := by
  have hskip := skipBlanks_of_ne_blank h (by simp)
  simp only [next, hskip]
  rfl

/-- A literal that is one lexeme by itself is read in full before a blank or the end. -/
theorem next_literal {n : Nat} {sign : UInt8} (hsign : IsSign sign) {s rest : List UInt8}
    {t : Token K} (h : scan (sign :: s) = some (.token t, []))
    (hrest : rest.head?.all isBlank = true) :
    next ⟨n, sign :: s ++ rest, false⟩ = some (.ok t, ⟨n, rest, t.opensImageData⟩) := by
  refine next_of_scan ?_
  cases rest with
  | nil => rwa [List.append_nil]
  | cons c rest =>
    have hopen : isOpenComment (sign :: s) = false := by
      rcases hsign with rfl | rfl <;> rfl
    exact scan_append (separates_of_isBlank hrest) h (by simp) hopen rest

theorem next_signed {n : Nat} {sign : UInt8} (hsign : IsSign sign) {numeral rest : List UInt8}
    {value : K} (hnumeral : DecimalNumeral numeral value)
    (hrest : rest.head?.all isBlank = true) :
    next ⟨n, sign :: numeral ++ rest, false⟩ =
      some (.ok (.number (if sign == byte '-' then -value else value)), ⟨n, rest, false⟩) :=
  next_literal hsign (scan_signed hsign hnumeral) hrest

theorem next_signs {n : Nat} {sign sign' : UInt8} (hsign : IsSign sign) (hsign' : IsSign sign')
    {s rest : List UInt8} (hs : ∀ b ∈ s, isRegular b = true)
    (hrest : rest.head?.all isBlank = true) :
    next (K := K) ⟨n, sign :: sign' :: s ++ rest, false⟩ =
      some (.ok (.operator (Utf8.decode (sign :: sign' :: s))), ⟨n, rest, false⟩) := by
  have hword : Token.opensImageData (.operator (Utf8.decode (sign :: sign' :: s)) : Token K) =
      false := by
    refine opensImageData_eq_false fun heq => decode_sign_not_mem hsign (sign' :: s) ?_
    rw [Token.operator.inj heq]
    decide
  have hnext := next_literal (n := n) hsign (scan_signs (K := K) hsign hsign' hs) hrest
  rwa [hword] at hnext

/-- A decimal numeral behind signs is read in full up to a blank or the end. It is read as its value,
negated by a first sign that is a minus, exactly where there is one sign only, and as an operator
otherwise. -/
theorem next_signedLiteral {signs numeral rest : List UInt8} {value : K}
    (hsigns : ∀ b ∈ signs, IsSign b) (hne : signs ≠ []) (hnumeral : DecimalNumeral numeral value)
    (hrest : rest.head?.all isBlank = true) (n : Nat) :
    let l : Lexer := ⟨n, signs ++ numeral ++ rest, false⟩
    let after : Lexer := ⟨n, rest, false⟩
    (l.next = some (.ok (.number (if signs.head? = some (byte '-') then -value else value)), after) ↔
      signs.length = 1) ∧
    (signs.length ≠ 1 →
      l.next = some (.ok (.operator (Utf8.decode (signs ++ numeral)) : Token K), after)) := by
  match signs, hne with
  | [sign], _ =>
    intro l after
    have hnext := next_signed (n := n) (hsigns sign List.mem_cons_self) hnumeral hrest
    have hvalue : (if sign == byte '-' then -value else value) =
        if [sign].head? = some (byte '-') then -value else value := by simp
    rw [hvalue] at hnext
    exact ⟨iff_of_true hnext rfl, fun h => absurd rfl h⟩
  | sign :: sign' :: signs, _ =>
    intro l after
    obtain ⟨hsign, hmore⟩ := List.forall_mem_cons.1 hsigns
    obtain ⟨hsign', hmore⟩ := List.forall_mem_cons.1 hmore
    have hregular : ∀ b ∈ signs ++ numeral, isRegular b = true :=
      List.forall_mem_append.2 ⟨fun b hb => isRegular_sign (hmore b hb), isRegular_decimal hnumeral⟩
    have hword : l.next = some (.ok (.operator (Utf8.decode (sign :: sign' :: signs ++ numeral))),
        after) :=
      next_signs (K := K) hsign hsign' hregular hrest
    refine ⟨iff_of_false (fun hnumber => ?_) (by simp), fun _ => hword⟩
    have htoken := hword.symm.trans hnumber
    simp at htoken

/-- A point before the digits, and a line end behind them. -/
theorem next_signedLiteral_pointed :
    let numeral := [byte '.', byte '2', byte '5']
    DecimalNumeral numeral (1 / 4 : ℚ) ∧
      next ⟨6, [byte '-'] ++ numeral ++ [10, byte 'w'], false⟩ =
        some (.ok (.number (-(1 / 4) : ℚ)), ⟨6, [10, byte 'w'], false⟩) := by
  intro numeral
  have hnumeral : DecimalNumeral numeral (1 / 4 : ℚ) := by
    have hpointed : DecimalNumeral numeral
        ((digitsValue [byte '2', byte '5'] : ℚ) / 10 ^ 2) :=
      .pointed (w := []) (f := [byte '2', byte '5']) (by simp) (by decide +kernel) (by simp)
    have hvalue : ((digitsValue [byte '2', byte '5'] : ℚ) / 10 ^ 2) = 1 / 4 := by
      have hdigits : digitsValue [byte '2', byte '5'] = 25 := by decide +kernel
      rw [hdigits]
      norm_num
    exact hvalue ▸ hpointed
  have hsigns : ∀ b ∈ [byte '-'], IsSign b := by simp [IsSign]
  have hrest : [10, byte 'w'].head?.all isBlank = true := by decide
  obtain ⟨hread, -⟩ := next_signedLiteral hsigns (by simp) hnumeral hrest 6
  exact ⟨hnumeral, hread.2 rfl⟩

/-- A doubled sign begins an operator. -/
theorem next_doubledSign :
    DecimalNumeral [byte '5'] (5 : ℚ) ∧
      tokenize (Utf8.encode "--5") = [(.operator "--5" : Token ℚ)] ∧
      next (ofBytes (Utf8.encode "--5")) ≠ some (.ok (.number (-5 : ℚ)), ⟨3, [], false⟩) := by
  refine ⟨?_, by decide +kernel, by decide +kernel⟩
  have hwhole : DecimalNumeral [byte '5'] (digitsValue [byte '5'] : ℚ) :=
    .whole (by decide +kernel) (by simp)
  have hvalue : (digitsValue [byte '5'] : ℚ) = 5 := by
    have hdigits : digitsValue [byte '5'] = 5 := by decide +kernel
    rw [hdigits]
    norm_num
  exact hvalue ▸ hwhole

end Lexer
end Exact
end ContentStream
