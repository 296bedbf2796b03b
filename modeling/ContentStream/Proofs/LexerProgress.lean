import Mathlib
import ContentStream.Proofs.Concatenation
import ContentStream.Proofs.Utf8

set_option autoImplicit false

namespace ContentStream
variable {K : Type}

namespace Utf8

theorem length_begin (b : Nat) : (begin b).1.length + (begin b).2.toList.length = 1 := by
  unfold begin
  split_ifs <;> rfl

theorem length_step_le (p : Option Pending) (b : Nat) :
    (step p b).1.length + (step p b).2.toList.length ≤ 1 + p.toList.length := by
  have hbegin := length_begin b
  cases p with
  | none => exact hbegin.le
  | some p =>
    unfold step
    dsimp only
    split_ifs
    · exact Nat.le_succ 1
    · exact Nat.le_succ 1
    · simp only [List.length_cons, Option.toList_some, List.length_nil]
      omega

theorem length_decodeFrom_le (acc : List Char) (p : Option Pending) (bytes : List UInt8) :
    (decodeFrom acc p bytes).length ≤ acc.length + p.toList.length + bytes.length := by
  induction bytes generalizing acc p with
  | nil => cases p <;> simp [decodeFrom]
  | cons b bytes ih =>
    have hstep := length_step_le p b.toNat
    have hrest := ih ((step p b.toNat).1.reverse ++ acc) (step p b.toNat).2
    rw [List.length_append, List.length_reverse] at hrest
    rw [decodeFrom_cons, List.length_cons]
    omega

theorem length_decode_le (bytes : List UInt8) : (decode bytes).length ≤ bytes.length := by
  have hdecode := length_decodeFrom_le [] none bytes
  simpa [decode] using hdecode

end Utf8

namespace Lexeme

section Openings
variable {b : UInt8} {s : List UInt8}

theorem of_opening_signed {negative : Bool} (h : opening b s = .signed negative) :
    (b = byte '+' ∨ b = byte '-') ∧ startsNumeral s = true := by
  simp only [opening, ite_eq_iff, reduceCtorEq, and_false, false_or, or_false,
    Bool.or_eq_true, beq_iff_eq] at h
  tauto

theorem of_opening_point (h : opening b s = .unsigned) (hdigit : isDigit b = false) :
    b = byte '.' ∧ s.head?.any isDigit = true := by
  simp only [opening, hdigit, ite_eq_iff, reduceCtorEq, and_false, false_or, or_false,
    Bool.or_eq_true, beq_iff_eq, Bool.and_eq_true, Bool.false_eq_true] at h
  tauto

/-- A word begins with a regular byte, so it is never empty. -/
theorem isRegular_of_opening_word (h : opening b s = .word) : isRegular b = true := by
  have hblank : isBlank b = false := by
    by_contra hblank
    rw [Bool.not_eq_false] at hblank
    simp [opening, hblank] at h
  have hdelimiter : isDelimiter b = false := by
    simp only [opening, ite_eq_iff, reduceCtorEq, and_false, false_or] at h
    grind
  simp [isRegular, hblank, hdelimiter]

end Openings

section Suffixes

theorem afterComment_suffix (s : List UInt8) : afterComment s <:+ s := by
  induction s with
  | nil => exact List.suffix_refl _
  | cons b s ih =>
    rw [afterComment]
    split
    · exact List.suffix_cons b s
    · exact ih.trans (List.suffix_cons b s)

theorem name_suffix (acc s : List UInt8) : (name acc s).2 <:+ s := by
  fun_induction name acc s <;> grind [List.IsSuffix.trans, List.suffix_cons, List.suffix_refl]

theorem literal_suffix {depth : Nat} {acc s v rest : List UInt8}
    (h : literal depth acc s = some (v, rest)) : rest <:+ s := by
  fun_induction literal depth acc s <;>
    grind [List.IsSuffix.trans, List.suffix_cons, List.suffix_refl]

theorem hexadecimal_suffix {acc s v rest : List UInt8} {high : Option Nat}
    (h : hexadecimal acc high s = some (v, rest)) : rest <:+ s := by
  fun_induction hexadecimal acc high s <;>
    grind [List.IsSuffix.trans, List.suffix_cons, List.suffix_refl]

theorem fraction_suffix (s : List UInt8) : (fraction s).2 <:+ s := by
  cases s with
  | nil => exact List.suffix_refl _
  | cons b s =>
    rw [fraction]
    split
    · exact (List.dropWhile_suffix isDigit).trans (List.suffix_cons b s)
    · exact List.suffix_refl _

theorem string_suffix {s : List UInt8} {scanned : Option (List UInt8 × List UInt8)}
    (h : ∀ v rest, scanned = some (v, rest) → rest <:+ s) :
    (string (K := K) scanned).2 <:+ s := by
  cases scanned with
  | none => exact List.nil_suffix
  | some p => exact h p.1 p.2 rfl

variable [Scalar K]

theorem numeral_eq (s : List UInt8) :
    numeral (K := K) s =
      (if (s.takeWhile isDigit).isEmpty && (fraction (s.dropWhile isDigit)).1.isEmpty then none
        else some (addFraction (integral (s.takeWhile isDigit)) 0.1
          (fraction (s.dropWhile isDigit)).1), (fraction (s.dropWhile isDigit)).2) := by
  unfold numeral
  dsimp only
  split_ifs <;> rfl

theorem number_suffix (negative : Bool) (s : List UInt8) :
    (number (K := K) negative s).2 <:+ s := by
  have hrest : (number (K := K) negative s).2 = (fraction (s.dropWhile isDigit)).2 := by
    unfold number
    rw [numeral_eq]
    split_ifs <;> rfl
  rw [hrest]
  exact (fraction_suffix _).trans (List.dropWhile_suffix isDigit)

theorem scanFrom_suffix (b : UInt8) (s : List UInt8) : (scanFrom (K := K) b s).2 <:+ b :: s := by
  have hcons : s <:+ b :: s := List.suffix_cons b s
  unfold scanFrom
  cases opening b s <;> dsimp only
  case comment => exact (afterComment_suffix s).trans hcons
  case name => exact (name_suffix [] s).trans hcons
  case literal => exact (string_suffix fun _ _ => literal_suffix).trans hcons
  case angle =>
    split
    · exact (List.tail_suffix s).trans hcons
    · exact (string_suffix fun _ _ => hexadecimal_suffix).trans hcons
  case closingAngle =>
    split
    · exact (List.tail_suffix s).trans hcons
    · exact hcons
  case signed negative => exact (number_suffix negative s).trans hcons
  case unsigned => exact number_suffix false (b :: s)
  case word => exact (List.dropWhile_suffix isRegular).trans hcons
  all_goals exact hcons

theorem suffix_of_scan {s rest : List UInt8} {x : Lexeme K} (h : scan s = some (x, rest)) :
    rest <:+ s := by
  cases s with
  | nil => exact absurd h (by simp [scan])
  | cons b s =>
    have hsuffix := scanFrom_suffix (K := K) b s
    rwa [Option.some.inj h] at hsuffix

end Suffixes

section Cases
variable [Scalar K] {s rest : List UInt8}

theorem ofWord_cases (word : List UInt8) :
    ofWord (K := K) word = .blank ∨ (∃ v, ofWord (K := K) word = .token (.number v)) ∨
      ofWord (K := K) word = .token (.operator (Utf8.decode word)) := by
  unfold ofWord
  dsimp only
  split_ifs <;> simp

theorem numeral_cases (hstarts : startsNumeral s = true) :
    (∃ v rest, numeral (K := K) s = (some v, rest)) ∨
      ∃ rest, numeral (K := K) s = (none, rest) ∧ s = byte '.' :: rest ∧
        rest.head?.any isDigit = false := by
  obtain _ | ⟨b, t⟩ := s
  · exact absurd hstarts (by simp [startsNumeral])
  rw [numeral_eq]
  cases hdigit : isDigit b with
  | true => exact .inl ⟨_, _, Prod.ext (if_neg (by simp [hdigit])) rfl⟩
  | false =>
    obtain rfl : b = byte '.' := by simpa [startsNumeral, hdigit] using hstarts
    have hfraction : fraction ((byte '.' :: t).dropWhile isDigit) =
        (t.takeWhile isDigit, t.dropWhile isDigit) := rfl
    rw [hfraction]
    obtain _ | ⟨d, u⟩ := t
    · exact .inr ⟨[], rfl, rfl, rfl⟩
    cases hd : isDigit d with
    | true => exact .inl ⟨_, _, Prod.ext (if_neg (by simp [hd])) rfl⟩
    | false =>
      refine .inr ⟨d :: u, Prod.ext (if_pos ?_) ?_, rfl, by simp [hd]⟩
      · simp [hdigit, hd]
      · simp [hd]

theorem number_cases (negative : Bool) (hstarts : startsNumeral s = true) :
    (∃ v, (number (K := K) negative s).1 = .token (.number v)) ∨
      ∃ rest, number (K := K) negative s = (.badNumber, rest) ∧ s = byte '.' :: rest ∧
        rest.head?.any isDigit = false := by
  unfold number
  rcases numeral_cases (K := K) hstarts with ⟨v, rest, hnumeral⟩ | ⟨rest, hnumeral, hpoint⟩
  · rw [hnumeral]
    exact .inl ⟨_, rfl⟩
  · rw [hnumeral]
    exact .inr ⟨rest, rfl, hpoint⟩

inductive Scanned (K : Type) : List UInt8 → Lexeme K → List UInt8 → Prop
  | blank {s rest : List UInt8} : Scanned K s .blank rest
  | operand {s rest : List UInt8} {t : Token K} (h : t.isOperator = false) :
      Scanned K s (.token t) rest
  | operator {word rest : List UInt8} :
      Scanned K (word ++ rest) (.token (.operator (Utf8.decode word))) rest
  | unterminated {s : List UInt8} : Scanned K s .unterminated []
  | badNumber {sign : UInt8} {rest : List UInt8} (hsign : sign = byte '+' ∨ sign = byte '-')
      (h : rest.head?.any isDigit = false) :
      Scanned K (sign :: byte '.' :: rest) .badNumber rest

namespace Scanned
variable {b : UInt8} {x : Lexeme K}

omit [Scalar K] in
theorem of_string (scanned : Option (List UInt8 × List UInt8)) (s : List UInt8) :
    Scanned K s (string scanned).1 (string (K := K) scanned).2 := by
  cases scanned with
  | none => exact .unterminated
  | some p => exact .operand rfl

theorem of_word (b : UInt8) (s : List UInt8) :
    Scanned K (b :: s) (ofWord (b :: s.takeWhile isRegular)) (s.dropWhile isRegular) := by
  have hword := ofWord_cases (K := K) (b :: s.takeWhile isRegular)
  generalize ofWord (K := K) (b :: s.takeWhile isRegular) = x at hword ⊢
  rcases hword with rfl | ⟨v, rfl⟩ | rfl
  · exact .blank
  · exact .operand rfl
  · have hsplit : b :: s = (b :: s.takeWhile isRegular) ++ s.dropWhile isRegular := by simp
    exact hsplit ▸ .operator

theorem of_number (negative : Bool) (hstarts : startsNumeral s = true)
    {u : List UInt8} (hpoint : ∀ rest, s = byte '.' :: rest → rest.head?.any isDigit = false →
      ∃ sign, (sign = byte '+' ∨ sign = byte '-') ∧ u = sign :: s) :
    Scanned K u (number negative s).1 (number (K := K) negative s).2 := by
  rcases number_cases (K := K) negative hstarts with ⟨v, hnumber⟩ | ⟨rest, hnumber, rfl, hhead⟩
  · rw [hnumber]
    exact .operand rfl
  · obtain ⟨sign, hsign, rfl⟩ := hpoint rest rfl hhead
    rw [hnumber]
    exact .badNumber hsign hhead

end Scanned

theorem scanned_scanFrom (b : UInt8) (s : List UInt8) :
    Scanned K (b :: s) (scanFrom b s).1 (scanFrom (K := K) b s).2 := by
  unfold scanFrom
  cases hopening : opening b s <;> dsimp only
  case blank | comment | stray => exact .blank
  case name | arrayStart | arrayEnd => exact .operand rfl
  case literal => exact .of_string _ _
  case angle =>
    split
    · exact .blank
    · exact .of_string _ _
  case closingAngle => split <;> exact .blank
  case signed negative =>
    obtain ⟨hsign, hstarts⟩ := of_opening_signed hopening
    exact .of_number negative hstarts fun _ _ _ => ⟨b, hsign, rfl⟩
  case unsigned =>
    refine .of_number false (by simpa [startsNumeral] using of_opening_unsigned hopening) ?_
    -- A point opens a number only before a digit.
    intro rest hpoint hhead
    obtain ⟨rfl, rfl⟩ := List.cons.inj hpoint
    exact absurd ((of_opening_point hopening rfl).2.symm.trans hhead) (by simp)
  case word => exact .of_word b s

theorem scanned_of_scan {x : Lexeme K} (h : scan s = some (x, rest)) : Scanned K s x rest := by
  cases s with
  | nil => exact absurd h (by simp [scan])
  | cons b s =>
    have hscanned := scanned_scanFrom (K := K) b s
    rwa [Option.some.inj h] at hscanned

theorem length_of_imageData (h : scan (K := K) s = some (.token (.operator "ID"), rest)) :
    rest.length + 2 ≤ s.length := by
  have hscanned := scanned_of_scan h
  generalize hname : "ID" = name at hscanned
  cases hscanned with
  | operand hoperand => exact absurd hoperand (by simp [Token.isOperator])
  | @operator word =>
    have hlength := Utf8.length_decode_le word
    rw [← hname] at hlength
    have htwo : "ID".length = 2 := rfl
    rw [List.length_append]
    omega

end Cases

inductive Blanks (K : Type) [Scalar K] : List UInt8 → List UInt8 → Prop
  | refl (s : List UInt8) : Blanks K s s
  | next {s t u : List UInt8} (h : scan (K := K) s = some (.blank, t)) (h' : Blanks K t u) :
      Blanks K s u

namespace Blanks
variable [Scalar K] {s t : List UInt8}

theorem suffix (h : Blanks K s t) : t <:+ s := by
  induction h with
  | refl s => exact List.suffix_refl s
  | next h _ ih => exact ih.trans (suffix_of_scan h)

/-- The lexeme behind blank ones takes bytes. -/
theorem length_lt {rest : List UInt8} {x : Lexeme K} (h : Blanks K s t)
    (hscan : scan t = some (x, rest)) : rest.length < s.length :=
  (length_lt_of_scan hscan).trans_le h.suffix.length_le

theorem of_end (h : Blanks K s []) (h' : Blanks K s t) : Blanks K t [] := by
  induction h' with
  | refl s => exact h
  | next hscan _ ih =>
    cases h with
    | refl => exact absurd hscan (by simp [scan])
    | next hscan' h =>
      obtain ⟨-, rfl⟩ := Prod.mk.inj (Option.some.inj (hscan.symm.trans hscan'))
      exact ih h

end Blanks
end Lexeme

namespace Lexer
open Lexeme
variable [Scalar K]

theorem of_skipBlanks {s start rest : List UInt8} {x : Lexeme K}
    (h : skipBlanks s = some (start, x, rest)) :
    Blanks K s start ∧ scan start = some (x, rest) ∧ x ≠ .blank := by
  fun_induction skipBlanks (K := K) s with
  | case1 => exact absurd h (by simp)
  | case2 s t hscan ih =>
    obtain ⟨hblanks, hrest⟩ := ih h
    exact ⟨.next hscan hblanks, hrest⟩
  | case3 s y rest' hne hscan =>
    obtain ⟨rfl, hpair⟩ := Prod.mk.inj (Option.some.inj h)
    obtain ⟨rfl, rfl⟩ := Prod.mk.inj hpair
    exact ⟨.refl s, hscan, hne⟩

theorem skipBlanks_eq_none_iff (s : List UInt8) :
    skipBlanks (K := K) s = none ↔ Blanks K s [] := by
  fun_induction skipBlanks (K := K) s with
  | case1 s hscan =>
    cases s with
    | nil => exact ⟨fun _ => .refl [], fun _ => rfl⟩
    | cons b s => exact absurd hscan (by simp [scan])
  | case2 s t hscan ih =>
    rw [ih]
    exact ⟨.next hscan, fun h => h.of_end (.next hscan (.refl t))⟩
  | case3 s y rest hne hscan =>
    refine iff_of_false (by simp) fun h => ?_
    cases h with
    | refl => exact absurd hscan (by simp [scan])
    | next hscan' _ => exact hne (Prod.mk.inj (Option.some.inj (hscan.symm.trans hscan'))).1

/-- Everything that a call of the lexer can return, with the place that it leaves the lexer at. -/
inductive Reads (l : Lexer) : Except (Fault K) (Token K) → Lexer → Prop
  | imageEnd (h : l.inImageData = true) :
      Reads l (.ok (.operator "EI")) ⟨l.size, afterImageData l.rest, false⟩
  | token {start rest : List UInt8} {t : Token K} (h : l.inImageData = false)
      (hblanks : Blanks K l.rest start) (hscan : scan start = some (.token t, rest)) :
      Reads l (.ok t) ⟨l.size, rest, t.opensImageData⟩
  | badNumber {start rest : List UInt8} (h : l.inImageData = false)
      (hblanks : Blanks K l.rest start) (hscan : scan (K := K) start = some (.badNumber, rest)) :
      Reads l (.error (.invalidNumber (l.size - start.length))) ⟨l.size, rest, false⟩
  | unterminated {start rest : List UInt8} (h : l.inImageData = false)
      (hblanks : Blanks K l.rest start)
      (hscan : scan (K := K) start = some (.unterminated, rest)) :
      Reads l (.error .unexpectedEnd) ⟨l.size, rest, false⟩

theorem reads_of_next {l l' : Lexer} {r : Except (Fault K) (Token K)}
    (h : l.next = some (r, l')) : Reads l r l' := by
  unfold next at h
  split at h
  · rename_i himage
    obtain ⟨rfl, rfl⟩ := Prod.mk.inj (Option.some.inj h)
    exact .imageEnd himage
  · rename_i himage
    rw [Bool.not_eq_true] at himage
    split at h
    · rename_i t rest hskip
      obtain ⟨hblanks, hscan, -⟩ := of_skipBlanks hskip
      obtain ⟨rfl, rfl⟩ := Prod.mk.inj (Option.some.inj h)
      exact .token himage hblanks hscan
    · rename_i hskip
      obtain ⟨hblanks, hscan, -⟩ := of_skipBlanks hskip
      obtain ⟨rfl, rfl⟩ := Prod.mk.inj (Option.some.inj h)
      rw [himage]
      exact .badNumber himage hblanks hscan
    · rename_i hskip
      obtain ⟨hblanks, hscan, -⟩ := of_skipBlanks hskip
      obtain ⟨rfl, rfl⟩ := Prod.mk.inj (Option.some.inj h)
      rw [himage]
      exact .unterminated himage hblanks hscan
    · exact absurd h (by simp)
    · exact absurd h (by simp)

theorem next_eq_none_iff (l : Lexer) :
    l.next (K := K) = none ↔ l.inImageData = false ∧ Blanks K l.rest [] := by
  rw [← skipBlanks_eq_none_iff]
  unfold next
  cases l.inImageData with
  | true => simp
  | false =>
    cases hskip : skipBlanks (K := K) l.rest with
    | none => simp
    | some p =>
      obtain ⟨start, x, rest⟩ := p
      cases x with
      | blank => exact absurd rfl (of_skipBlanks hskip).2.2
      | _ => simp

structure IsIn (bytes : List UInt8) (l : Lexer) : Prop where
  size : l.size = bytes.length
  rest : l.rest <:+ bytes

theorem isIn_ofBytes (bytes : List UInt8) : IsIn bytes (ofBytes bytes) :=
  ⟨rfl, List.suffix_refl bytes⟩

theorem findImageEnd_suffix (afterBlank : Bool) (s : List UInt8) :
    findImageEnd afterBlank s <:+ s := by
  fun_induction findImageEnd afterBlank s <;>
    grind [List.IsSuffix.trans, List.suffix_cons, List.suffix_refl]

theorem afterImageData_suffix (s : List UInt8) : afterImageData s <:+ s := by
  cases s with
  | nil => exact List.suffix_refl _
  | cons b s =>
    rw [afterImageData]
    split
    · exact (findImageEnd_suffix true s).trans (List.suffix_cons b s)
    · exact findImageEnd_suffix false (b :: s)

namespace Reads
variable {l l' : Lexer} {r : Except (Fault K) (Token K)} {bytes : List UInt8}

theorem size (h : Reads l r l') : l'.size = l.size := by
  cases h <;> rfl

theorem suffix (h : Reads l r l') : l'.rest <:+ l.rest := by
  cases h with
  | imageEnd _ => exact afterImageData_suffix _
  | token _ hblanks hscan | badNumber _ hblanks hscan | unterminated _ hblanks hscan =>
    exact (suffix_of_scan hscan).trans hblanks.suffix

theorem isIn (h : Reads l r l') (hl : IsIn bytes l) : IsIn bytes l' :=
  ⟨h.size.trans hl.size, h.suffix.trans hl.rest⟩

theorem inImageData_iff (h : Reads l r l') :
    l'.inImageData = true ↔ r = .ok (.operator "ID") := by
  cases h with
  | imageEnd _ => simp
  | @token start rest t _ _ _ =>
    cases t with
    | operator name => simp [Token.opensImageData]
    | _ => simp [Token.opensImageData]
  | badNumber _ _ _ | unterminated _ _ _ => simp

/-- Only the end of image data that holds nothing leaves as much as was left before. -/
theorem length_lt (h : Reads l r l') : l'.rest.length < l.rest.length ∨
    l'.rest = l.rest ∧ l.inImageData = true ∧ r = .ok (.operator "EI") := by
  cases h with
  | imageEnd himage =>
    have hsuffix := afterImageData_suffix l.rest
    rcases hsuffix.length_le.lt_or_eq with hlt | heq
    · exact .inl hlt
    · exact .inr ⟨hsuffix.eq_of_length heq, himage, rfl⟩
  | token _ hblanks hscan | badNumber _ hblanks hscan | unterminated _ hblanks hscan =>
    exact .inl (hblanks.length_lt hscan)

theorem owed_lt (h : Reads l r l') :
    l'.rest.length + l'.inImageData.toNat < l.rest.length + l.inImageData.toNat := by
  cases h with
  | imageEnd himage =>
    have hle := (afterImageData_suffix l.rest).length_le
    rw [himage]
    exact Nat.lt_succ_of_le hle
  | @token start rest t himage hblanks hscan =>
    rw [himage]
    cases hopens : t.opensImageData with
    | false => exact hblanks.length_lt hscan
    | true =>
      have ht : t = .operator "ID" := by
        by_contra hne
        exact absurd (hopens.symm.trans (opensImageData_eq_false hne)) (by simp)
      have htwo := length_of_imageData (ht ▸ hscan)
      have hblank := hblanks.suffix.length_le
      dsimp only [Bool.toNat_true, Bool.toNat_false]
      omega
  | badNumber himage hblanks hscan | unterminated himage hblanks hscan =>
    rw [himage]
    exact hblanks.length_lt hscan

end Reads

theorem IsIn.position {bytes : List UInt8} {l : Lexer} (h : IsIn bytes l) :
    l.position ≤ bytes.length ∧ l.rest = bytes.drop l.position := by
  unfold Lexer.position
  rw [h.size]
  exact ⟨Nat.sub_le _ _, List.suffix_iff_eq_drop.1 h.rest⟩

/-- What holds at the end of the input and at each place before one where it holds, holds at every
place. -/
theorem steps_induction {P : Lexer → Prop} (last : ∀ l, l.next (K := K) = none → P l)
    (next : ∀ (l l' : Lexer) (r : Except (Fault K) (Token K)), l.next = some (r, l') → P l' → P l)
    (l : Lexer) : P l := by
  induction hn : l.remaining using Nat.strong_induction_on generalizing l with
  | _ n ih =>
    cases hnext : l.next (K := K) with
    | none => exact last l hnext
    | some p => exact next l p.2 p.1 hnext (ih _ (hn ▸ remaining_lt_of_next hnext) _ rfl)

theorem steps_of_none {l : Lexer} (h : l.next (K := K) = none) : l.steps (K := K) = [] := by
  rw [steps_eq, h]

theorem steps_of_some {l l' : Lexer} {r : Except (Fault K) (Token K)}
    (h : l.next = some (r, l')) : l.steps = (r, l') :: l'.steps := by
  rw [steps_eq, h]

theorem length_steps_le (l : Lexer) :
    (l.steps (K := K)).length ≤ l.rest.length + l.inImageData.toNat := by
  induction l using steps_induction (K := K) with
  | last l h =>
    rw [steps_of_none h]
    exact Nat.zero_le _
  | next l l' r h ih =>
    rw [steps_of_some h]
    exact (Nat.succ_le_succ ih).trans (reads_of_next h).owed_lt

/-- How many of the steps, taken one after another, leave the lexer at the same position. -/
def resting (l : Lexer) : List (Except (Fault K) (Token K) × Lexer) → Nat
  | [] => 0
  | (_, l') :: steps => (if l'.position = l.position then 1 else 0) + resting l' steps

inductive Reached (K : Type) [Scalar K] (bytes : List UInt8) : Lexer → Prop
  | start : Reached K bytes (ofBytes bytes)
  | next {l l' : Lexer} {r : Except (Fault K) (Token K)} (h : Reached K bytes l)
      (hnext : l.next = some (r, l')) : Reached K bytes l'

theorem Reached.isIn {bytes : List UInt8} {l : Lexer} (h : Reached K bytes l) : IsIn bytes l := by
  induction h with
  | start => exact isIn_ofBytes bytes
  | next _ hnext ih => exact (reads_of_next hnext).isIn ih

/-- A call that returns a token or a fault goes forward, unless it closes image data. Two faults
there are: a string without an end, which takes all of the input, and a number without digits, which
is reported at its sign. -/
structure Advances (bytes : List UInt8) (l : Lexer) (r : Except (Fault K) (Token K))
    (l' : Lexer) : Prop where
  forward : l.position < l'.position ∨
    l'.position = l.position ∧ l.inImageData = true ∧ r = .ok (.operator "EI")
  imageData : l'.inImageData = true ↔ r = .ok (.operator "ID")
  fault : ∀ fault, r = .error fault → fault = .unexpectedEnd ∧ l'.position = bytes.length ∨
    ∃ position sign, fault = .invalidNumber position ∧ Blanks K l.rest (bytes.drop position) ∧
      (sign = byte '+' ∨ sign = byte '-') ∧
      bytes.drop position = sign :: byte '.' :: l'.rest ∧ l'.rest.head?.any isDigit = false

theorem Reads.advances {bytes : List UInt8} {l l' : Lexer} {r : Except (Fault K) (Token K)}
    (h : Reads l r l') (hl : IsIn bytes l) : Advances bytes l r l' where
  forward := by
    have hle := hl.rest.length_le
    unfold Lexer.position
    rw [h.size, hl.size]
    rcases h.length_lt with hlt | ⟨hrest, himage⟩
    · exact .inl (by omega)
    · exact .inr ⟨by rw [hrest], himage⟩
  imageData := h.inImageData_iff
  fault := by
    intro fault hfault
    cases h with
    | imageEnd | token => exact absurd hfault (by simp)
    | @badNumber start rest _ hblanks hscan =>
      obtain rfl := Except.error.inj hfault
      have hstart : bytes.drop (l.size - start.length) = start := by
        rw [hl.size]
        exact (List.suffix_iff_eq_drop.1 (hblanks.suffix.trans hl.rest)).symm
      obtain ⟨sign, hsign, hspelled, hhead⟩ : ∃ sign, (sign = byte '+' ∨ sign = byte '-') ∧
          start = sign :: byte '.' :: rest ∧ rest.head?.any isDigit = false := by
        cases scanned_of_scan hscan with
        | @badNumber sign _ hsign hhead => exact ⟨sign, hsign, rfl, hhead⟩
      refine .inr ⟨_, sign, rfl, ?_, hsign, ?_, hhead⟩
      · rw [hstart]
        exact hblanks
      · rw [hstart]
        exact hspelled
    | unterminated _ _ hscan =>
      obtain rfl := Except.error.inj hfault
      refine .inl ⟨rfl, ?_⟩
      cases scanned_of_scan hscan
      exact hl.size

theorem countP_tokens {l l' : Lexer} {r : Except (Fault K) (Token K)}
    (h : l.next = some (r, l')) : (l.tokens (K := K)).countP Token.opensImageData =
      (l'.tokens (K := K)).countP Token.opensImageData + l'.inImageData.toNat := by
  unfold tokens
  rw [steps_of_some h]
  cases reads_of_next h with
  | imageEnd _ => rfl
  | @token start rest t _ _ _ =>
    cases hopens : t.opensImageData <;> simp [hopens, Except.toOption]
  | badNumber _ _ _ | unterminated _ _ _ => rfl

theorem resting_le {bytes : List UInt8} (l : Lexer) (hl : IsIn bytes l) :
    resting l (l.steps (K := K)) ≤
      (l.tokens (K := K)).countP Token.opensImageData + l.inImageData.toNat := by
  induction l using steps_induction (K := K) with
  | last l h =>
    rw [steps_of_none h]
    exact Nat.zero_le _
  | next l l' r h ih =>
    have hreads := reads_of_next h
    have hrest := ih (hreads.isIn hl)
    rw [steps_of_some h, countP_tokens h, resting]
    rcases (hreads.advances hl).forward with hlt | ⟨heq, himage, rfl⟩
    · rw [if_neg hlt.ne']
      omega
    · have hclosed : l'.inImageData = false := by
        rw [← Bool.not_eq_true, hreads.inImageData_iff]
        simp
      rw [if_pos heq, himage]
      rw [hclosed] at hrest ⊢
      simp only [Bool.toNat_false, Bool.toNat_true] at hrest ⊢
      omega

/-- Reading comes to an end. There are no more tokens and faults than bytes, and no more steps in
place than there are inline images. Every place that is come to lies in the input. Nothing is
returned exactly where only blank lexemes are left, and then behind any of these as well. -/
theorem reading_advances (bytes : List UInt8) :
    ((ofBytes bytes).steps (K := K)).length ≤ bytes.length ∧
    resting (ofBytes bytes) ((ofBytes bytes).steps (K := K)) ≤
      (tokenize (K := K) bytes).countP Token.opensImageData ∧
    (∀ b s, opening b s = .word → isRegular b = true) ∧
    ∀ l, Reached K bytes l →
      (l.position ≤ bytes.length ∧ l.rest = bytes.drop l.position) ∧
      (l.next (K := K) = none ↔ l.inImageData = false ∧ Blanks K l.rest []) ∧
      (l.next (K := K) = none →
        ∀ rest, Blanks K l.rest rest → next (K := K) { l with rest } = none) ∧
      ∀ (r : Except (Fault K) (Token K)) l', l.next = some (r, l') → Advances bytes l r l' := by
  refine ⟨length_steps_le _, resting_le _ (isIn_ofBytes bytes),
    fun b s => isRegular_of_opening_word, ?_⟩
  intro l hreached
  refine ⟨hreached.isIn.position, next_eq_none_iff l, ?_, ?_⟩
  · intro hnone rest hblanks
    obtain ⟨himage, hend⟩ := (next_eq_none_iff l).1 hnone
    exact (next_eq_none_iff _).2 ⟨himage, hend.of_end hblanks⟩
  · intro r l' hnext
    exact (reads_of_next hnext).advances hreached.isIn

/-- A sign before a point without digits, and an operator that begins image data at the end of the
input. -/
theorem reading_advances_malformed :
    let bytes := Utf8.encode "1 +. ID"
    let l : Lexer := ⟨7, Utf8.encode " +. ID", false⟩
    let fault : Except (Fault ℚ) (Token ℚ) := .error (.invalidNumber 2)
    let l' : Lexer := ⟨7, Utf8.encode " ID", false⟩
    Reached ℚ bytes l ∧ l.next = some (fault, l') ∧ Advances bytes l fault l' ∧
      ((ofBytes bytes).steps (K := ℚ)).length = 4 ∧
      resting (ofBytes bytes) ((ofBytes bytes).steps (K := ℚ)) = 1 := by
  intro bytes l fault l'
  have hfirst : (ofBytes bytes).next = some (.ok (.number (1 : ℚ)), l) := by decide +kernel
  have hreached : Reached ℚ bytes l := .next .start hfirst
  have hnext : l.next = some (fault, l') := by decide +kernel
  obtain ⟨-, -, -, hplaces⟩ := reading_advances (K := ℚ) bytes
  obtain ⟨-, -, -, hadvances⟩ := hplaces l hreached
  exact ⟨hreached, hnext, hadvances fault l' hnext, by decide +kernel, by decide +kernel⟩

end Lexer
end ContentStream
