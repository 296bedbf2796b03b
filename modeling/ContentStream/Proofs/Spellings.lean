import Mathlib
import ContentStream.Proofs.Concatenation
import ContentStream.Proofs.Utf8

set_option autoImplicit false

/-!
# Spellings of tokens

How tokens can be written, as relations between what is meant and the bytes that stand for it.
Tokens written one after another, parted by blanks, are read back as they were
(`tokenize_of_written`).
-/
namespace ContentStream
variable {K : Type}

inductive HexDigit : UInt8 → Nat → Prop
  | decimal {n : Nat} (h : n < 10) : HexDigit (byte '0' + UInt8.ofNat n) n
  | lower {n : Nat} (h : n < 6) : HexDigit (byte 'a' + UInt8.ofNat n) (10 + n)
  | upper {n : Nat} (h : n < 6) : HexDigit (byte 'A' + UInt8.ofNat n) (10 + n)

inductive OctalDigit : UInt8 → Nat → Prop
  | digit {n : Nat} (h : n < 8) : OctalDigit (byte '0' + UInt8.ofNat n) n

def namedEscapes : List (Char × UInt8) := [('n', 10), ('r', 13), ('t', 9), ('b', 8), ('f', 12)]

/-- The bytes of a string and what can stand for them between parentheses. -/
inductive LiteralBody : List UInt8 → List UInt8 → Prop
  | nil : LiteralBody [] []
  | raw {b : UInt8} {v w : List UInt8} (h : Lexeme.isStructural b = false) (hv : LiteralBody v w) :
      LiteralBody (b :: v) (b :: w)
  | group {u v x w : List UInt8} (hu : LiteralBody u x) (hv : LiteralBody v w) :
      LiteralBody (byte '(' :: (u ++ byte ')' :: v)) (byte '(' :: (x ++ byte ')' :: w))
  | escaped {b : UInt8} {v w : List UInt8} (h : Lexeme.isStructural b = true)
      (hv : LiteralBody v w) : LiteralBody (b :: v) (byte '\\' :: b :: w)
  | named {c : Char} {b : UInt8} {v w : List UInt8} (h : (c, b) ∈ namedEscapes)
      (hv : LiteralBody v w) : LiteralBody (b :: v) (byte '\\' :: byte c :: w)
  | octal {c d e : UInt8} {l m n : Nat} {v w : List UInt8} (hc : OctalDigit c l)
      (hd : OctalDigit d m) (he : OctalDigit e n) (hv : LiteralBody v w) :
      LiteralBody (UInt8.ofNat (64 * l + 8 * m + n) :: v) (byte '\\' :: c :: d :: e :: w)

inductive HexDigits : List UInt8 → List UInt8 → Prop
  | nil : HexDigits [] []
  | pair {d e : UInt8} {m n : Nat} {v w : List UInt8} (hd : HexDigit d m) (he : HexDigit e n)
      (hv : HexDigits v w) : HexDigits (UInt8.ofNat (16 * m + n) :: v) (d :: e :: w)
  | dropped {d : UInt8} {m : Nat} (hd : HexDigit d m) : HexDigits [UInt8.ofNat (16 * m)] [d]

inductive NameBody : List UInt8 → List UInt8 → Prop
  | nil : NameBody [] []
  | raw {b : UInt8} {v w : List UInt8} (hregular : isRegular b = true) (hb : b ≠ byte '#')
      (hv : NameBody v w) : NameBody (b :: v) (b :: w)
  | hex {d e : UInt8} {m n : Nat} {v w : List UInt8} (hd : HexDigit d m) (he : HexDigit e n)
      (hv : NameBody v w) : NameBody (UInt8.ofNat (16 * m + n) :: v) (byte '#' :: d :: e :: w)

def beginsNumber : List UInt8 → Bool
  | [] => false
  | b :: s =>
    isDigit b ||
      ((b == byte '+' || b == byte '-') && s.head?.any fun c => isDigit c || c == byte '.') ||
      (b == byte '.' && s.head?.any isDigit)

def reservedWords : List String := ["true", "false", "null", "ID"]

/-- The token that some bytes stand for. Whatever is read as one number alone spells that number. -/
inductive Spells [Scalar K] : Token K → List UInt8 → Prop
  | literal {v w : List UInt8} (h : LiteralBody v w) :
      Spells (.string v) (byte '(' :: (w ++ [byte ')']))
  | hexadecimal {v w : List UInt8} (h : HexDigits v (w.filter fun b => !isBlank b)) :
      Spells (.string v) (byte '<' :: (w ++ [byte '>']))
  | name {text : String} {w : List UInt8} (h : NameBody (Utf8.encode text) w) :
      Spells (.name text) (byte '/' :: w)
  | arrayStart : Spells .arrayStart [byte '[']
  | arrayEnd : Spells .arrayEnd [byte ']']
  | operator {text : String} (hne : text ≠ "") (hreserved : text ∉ reservedWords)
      (hregular : ∀ b ∈ Utf8.encode text, isRegular b = true)
      (hnumber : beginsNumber (Utf8.encode text) = false) :
      Spells (.operator text) (Utf8.encode text)
  | number {x : K} {w : List UInt8} (h : tokenize w = [.number x]) : Spells (.number x) w

/-- Tokens one after another with a blank between each and the next. A number that has another token
behind it leaves no string open, and a comment only before a line end. -/
inductive Written [Scalar K] : List (Token K) → List UInt8 → Prop
  | nil : Written [] []
  | last {t : Token K} {w : List UInt8} (h : Spells t w) : Written [t] w
  | cons {t t' : Token K} {ts : List (Token K)} {w s : List UInt8} {c : UInt8} (h : Spells t w)
      (hc : isBlank c = true)
      (hnumber : ∀ x, t = .number x →
        (Lexer.ofBytes w).Uncut (K := K) ∧ (EndsInComment K w → isLineEnd c = true))
      (hts : Written (t' :: ts) s) : Written (t :: t' :: ts) (w ++ c :: s)

theorem HexDigit.hexValue?_eq {d : UInt8} {n : Nat} (h : HexDigit d n) :
    hexValue? d = some n := by
  cases h with
  | @decimal n h => interval_cases n <;> decide
  | @lower n h => interval_cases n <;> decide
  | @upper n h => interval_cases n <;> decide

theorem OctalDigit.plain {d : UInt8} {n : Nat} (h : OctalDigit d n) :
    isOctalDigit d = true ∧ digitValue d = n ∧ Lexeme.escape? d = none ∧ (d == 10) = false ∧
      (d == 13) = false := by
  obtain @⟨n, h⟩ := h
  interval_cases n <;> decide

namespace Lexeme

theorem escapeAt?_structural {b : UInt8} (h : isStructural b = true) (s : List UInt8) :
    escapeAt? (b :: s) = some ([b], s) := by
  simp only [isStructural, Bool.or_eq_true, beq_iff_eq] at h
  rcases h with (rfl | rfl) | rfl <;> rfl

theorem escapeAt?_named {c : Char} {b : UInt8} (h : (c, b) ∈ namedEscapes) (s : List UInt8) :
    escapeAt? (byte c :: s) = some ([b], s) := by
  simp only [namedEscapes, List.mem_cons, Prod.mk.injEq, List.not_mem_nil, or_false] at h
  rcases h with ⟨rfl, rfl⟩ | ⟨rfl, rfl⟩ | ⟨rfl, rfl⟩ | ⟨rfl, rfl⟩ | ⟨rfl, rfl⟩ <;> rfl

theorem escapeAt?_octal {c d e : UInt8} {l m n : Nat} (hc : OctalDigit c l)
    (hd : OctalDigit d m) (he : OctalDigit e n) (s : List UInt8) :
    escapeAt? (c :: d :: e :: s) = some ([UInt8.ofNat (64 * l + 8 * m + n)], s) := by
  obtain ⟨hoct, hl, hesc, hlf, hcr⟩ := hc.plain
  obtain ⟨hoct', hm, -⟩ := hd.plain
  obtain ⟨hoct'', hn, -⟩ := he.plain
  have hvalue : ((0 * 8 + l) * 8 + m) * 8 + n = 64 * l + 8 * m + n := by omega
  have hbyte : octal [c, d, e] = UInt8.ofNat (64 * l + 8 * m + n) := by
    simp only [octal, List.foldl_cons, List.foldl_nil, hl, hm, hn, hvalue]
  simp [escapeAt?, octalAt?, hesc, hlf, hcr, hoct, hoct', hoct'', hbyte]

theorem literal_escape {depth : Nat} {acc s e t : List UInt8} (h : escapeAt? s = some (e, t)) :
    literal depth acc (byte '\\' :: s) = literal depth (e ++ acc) t := by
  rw [literal_backslash, h]
  rfl

/-- The body of a string is read in full, and what follows it at the same depth. -/
theorem literal_body {v w : List UInt8} (h : LiteralBody v w) (depth : Nat)
    (acc rest : List UInt8) :
    literal depth acc (w ++ rest) = literal depth (v.reverse ++ acc) rest := by
  induction h generalizing depth acc rest with
  | nil => rfl
  | raw h _ ih => rw [List.cons_append, literal_raw h, ih]; simp
  | group _ _ ihu ihv =>
    rw [List.cons_append, literal_open, List.append_assoc, ihu, List.cons_append,
      literal_close_succ, ihv]
    simp
  | escaped h _ ih =>
    rw [List.cons_append, List.cons_append, literal_escape (escapeAt?_structural h _), ih]
    simp
  | named h _ ih =>
    rw [List.cons_append, List.cons_append, literal_escape (escapeAt?_named h _), ih]
    simp
  | octal hc hd he _ ih =>
    simp only [List.cons_append]
    rw [literal_escape (escapeAt?_octal hc hd he _), ih]
    simp

theorem name_body {v w : List UInt8} (h : NameBody v w) (acc : List UInt8) :
    name acc w = (acc.reverse ++ v, []) := by
  induction h generalizing acc with
  | nil => simp [name]
  | raw hregular hb _ ih =>
    have hnum := beq_false_of_ne hb
    rw [name_cons, if_pos hregular, hnum, if_neg Bool.false_ne_true, ih]
    simp
  | @hex d e m n v w hd he _ ih =>
    have hpair : hexPair? (d :: e :: w) = some (UInt8.ofNat (16 * m + n), w) := by
      simp [hexPair?, hd.hexValue?_eq, he.hexValue?_eq, Nat.mul_comm]
    have hregular : isRegular (byte '#') = true := by decide
    rw [name_cons, if_pos hregular, if_pos (beq_self_eq_true _), hpair,
      Option.elim_some, ih]
    simp

section Hexadecimal
variable {acc s : List UInt8} {high : Option Nat} {b : UInt8}

theorem ne_of_hexValue? {n : Nat} (h : hexValue? b = some n) {c : UInt8}
    (hc : hexValue? c = none) : (b == c) = false := by
  refine beq_false_of_ne ?_
  rintro rfl
  exact absurd (hc.symm.trans h) (by simp)

theorem hexadecimal_blank (h : isBlank b = true) :
    hexadecimal acc high (b :: s) = hexadecimal acc high s := by
  have hsep := separates_of_isBlank h
  rw [hexadecimal, hsep.ne_greater, hsep.notHex, h]
  rfl

theorem hexadecimal_high {n : Nat} (h : hexValue? b = some n) :
    hexadecimal acc none (b :: s) = hexadecimal acc (some n) s := by
  rw [hexadecimal, ne_of_hexValue? h (by decide), h]
  rfl

theorem hexadecimal_low {m n : Nat} (h : hexValue? b = some n) :
    hexadecimal acc (some m) (b :: s) = hexadecimal (UInt8.ofNat (m * 16 + n) :: acc) none s := by
  rw [hexadecimal, ne_of_hexValue? h (by decide), h]
  rfl

theorem hexadecimal_close :
    hexadecimal acc high (byte '>' :: s) = some (closeHex acc high, s) := by
  rw [hexadecimal]
  rfl

theorem hexadecimal_filter {w : List UInt8}
    (h : ∀ b ∈ w, isBlank b = false → (hexValue? b).isSome = true) (rest : List UInt8) :
    hexadecimal acc high (w ++ rest) =
      hexadecimal acc high ((w.filter fun b => !isBlank b) ++ rest) := by
  induction w generalizing acc high with
  | nil => rfl
  | cons b w ih =>
    have hw := fun d hd => h d (List.mem_cons_of_mem _ hd)
    cases hb : isBlank b with
    | true =>
      rw [List.cons_append, hexadecimal_blank hb, List.filter_cons_of_neg (by simp [hb]), ih hw]
    | false =>
      obtain ⟨n, hn⟩ := Option.isSome_iff_exists.mp (h b List.mem_cons_self hb)
      rw [List.filter_cons_of_pos (by simp [hb]), List.cons_append, List.cons_append]
      cases high with
      | none => rw [hexadecimal_high hn, hexadecimal_high hn, ih hw]
      | some m => rw [hexadecimal_low hn, hexadecimal_low hn, ih hw]

theorem hexadecimal_digits {v w : List UInt8} (h : HexDigits v w) (acc rest : List UInt8) :
    hexadecimal acc none (w ++ byte '>' :: rest) = some (acc.reverse ++ v, rest) := by
  induction h generalizing acc with
  | nil => rw [List.nil_append, hexadecimal_close, closeHex, List.append_nil]
  | pair hd he _ ih =>
    rw [List.cons_append, List.cons_append, hexadecimal_high hd.hexValue?_eq,
      hexadecimal_low he.hexValue?_eq, ih, Nat.mul_comm]
    simp
  | dropped hd =>
    rw [List.singleton_append, hexadecimal_high hd.hexValue?_eq, hexadecimal_close, closeHex,
      Nat.mul_comm]
    simp

end Hexadecimal

theorem isSome_hexValue?_of_mem {v w : List UInt8} (h : HexDigits v w) :
    ∀ b ∈ w, (hexValue? b).isSome = true := by
  induction h with
  | nil => simp
  | pair hd he _ ih =>
    intro b hb
    rcases List.mem_cons.mp hb with rfl | hb
    · rw [hd.hexValue?_eq]; rfl
    rcases List.mem_cons.mp hb with rfl | hb
    · rw [he.hexValue?_eq]; rfl
    · exact ih b hb
  | dropped hd =>
    intro b hb
    rw [List.mem_singleton.mp hb, hd.hexValue?_eq]
    rfl

theorem opening_word {b : UInt8} {s : List UInt8} (hregular : isRegular b = true)
    (hnumber : beginsNumber (b :: s) = false) : opening b s = .word := by
  simp only [isRegular, Bool.and_eq_true, Bool.not_eq_true'] at hregular
  obtain ⟨hblank, hdelimiter⟩ := hregular
  have hnone := hdelimiter
  simp only [isDelimiter, Bool.or_eq_false_iff] at hnone
  obtain ⟨⟨⟨⟨⟨⟨⟨⟨⟨hopen, -⟩, hless⟩, hgreater⟩, hstart⟩, hend⟩, -⟩, -⟩, hslash⟩, hpercent⟩ := hnone
  simp only [beginsNumber, Bool.or_eq_false_iff] at hnumber
  obtain ⟨⟨hdigit, hsigned⟩, hpoint⟩ := hnumber
  have hstarts : startsNumeral s = s.head?.any fun c => isDigit c || c == byte '.' := by
    cases s <;> rfl
  unfold opening
  simp only [hblank, hpercent, hslash, hopen, hless, hgreater, hstart, hend, hdelimiter, hdigit,
    hpoint, hstarts, Bool.false_eq_true, if_false]
  cases hsign : b == byte '+' || b == byte '-' with
  | false => rfl
  | true =>
    rw [hsign, Bool.true_and] at hsigned
    rw [hsigned]
    rfl

variable [Scalar K]

theorem scan_literal {v w : List UInt8} (h : LiteralBody v w) :
    scan (K := K) (byte '(' :: (w ++ [byte ')'])) = some (.token (.string v), []) := by
  have hread : literal 0 [] (w ++ [byte ')']) = some (v, []) := by
    rw [literal_body h, literal_close_zero]
    simp
  change some (string (literal 0 [] (w ++ [byte ')']))) = _
  rw [hread]
  rfl

theorem scan_hexadecimal {v w : List UInt8} (h : HexDigits v (w.filter fun b => !isBlank b)) :
    scan (K := K) (byte '<' :: (w ++ [byte '>'])) = some (.token (.string v), []) := by
  have hdigit : ∀ b ∈ w, isBlank b = false → (hexValue? b).isSome = true := fun b hb hblank =>
    isSome_hexValue?_of_mem h b (List.mem_filter.mpr ⟨hb, by simp [hblank]⟩)
  have hhead : ((w ++ [byte '>']).head? == some (byte '<')) = false := by
    cases w with
    | nil => decide
    | cons b w =>
      refine beq_false_of_ne fun heq => ?_
      obtain rfl : b = byte '<' := by simpa using heq
      exact absurd (hdigit _ List.mem_cons_self (by decide)) (by decide)
  have hread : hexadecimal [] none (w ++ [byte '>']) = some (v, []) := by
    rw [hexadecimal_filter hdigit, hexadecimal_digits h]
    rfl
  change some (if (w ++ [byte '>']).head? == some (byte '<') then
    (blank, (w ++ [byte '>']).tail) else string (hexadecimal [] none (w ++ [byte '>']))) = _
  rw [hhead, hread]
  rfl

theorem scan_name {text : String} {w : List UInt8} (h : NameBody (Utf8.encode text) w) :
    scan (K := K) (byte '/' :: w) = some (.token (.name text), []) := by
  change some (token (.name (Utf8.decode (name [] w).1)), (name [] w).2) = _
  rw [name_body h, List.reverse_nil, List.nil_append, Utf8.decode_encode]

theorem scan_operator {text : String} (hne : text ≠ "") (hreserved : text ∉ reservedWords)
    (hregular : ∀ b ∈ Utf8.encode text, isRegular b = true)
    (hnumber : beginsNumber (Utf8.encode text) = false) :
    scan (K := K) (Utf8.encode text) = some (.token (.operator text), []) := by
  have hdecode := Utf8.decode_encode text
  cases hbytes : Utf8.encode text with
  | nil =>
    rw [hbytes] at hdecode
    exact absurd hdecode.symm hne
  | cons b s =>
    rw [hbytes] at hregular hnumber hdecode
    have hs : ∀ d ∈ s, isRegular d = true := fun d hd => hregular d (List.mem_cons_of_mem _ hd)
    have htake : s.takeWhile isRegular = s := List.takeWhile_eq_self_iff.mpr hs
    have hdrop : s.dropWhile isRegular = [] := List.dropWhile_eq_nil_iff.mpr hs
    simp only [reservedWords, List.mem_cons, List.not_mem_nil, or_false, not_or] at hreserved
    obtain ⟨htrue, hfalse, hnull, -⟩ := hreserved
    have hword : ofWord (K := K) (b :: s) = .token (.operator text) := by
      simp [ofWord, hdecode, htrue, hfalse, hnull]
    change some (scanFrom b s) = _
    unfold scanFrom
    rw [opening_word (hregular b List.mem_cons_self) hnumber]
    dsimp only
    rw [htake, hdrop, hword]

end Lexeme

variable [Scalar K]

/-- Bytes that are one lexeme, a token other than `ID`, are read as that token alone and hide
nothing that comes behind a blank. -/
theorem tokenize_of_scan {t : Token K} {w : List UInt8}
    (h : Lexeme.scan w = some (.token t, [])) (ht : t ≠ .operator "ID") :
    tokenize w = [t] ∧ (Lexer.ofBytes w).Uncut (K := K) ∧ ¬ EndsInComment K w := by
  have hsteps := Lexer.steps_token (n := w.length) h
  rw [Lexer.opensImageData_eq_false ht, Lexer.steps_nil] at hsteps
  refine ⟨?_, ?_, ?_⟩
  · change ((Lexer.mk w.length w false).steps (K := K)).filterMap _ = _
    rw [hsteps]
    rfl
  · intro step hstep
    change step ∈ (Lexer.mk w.length w false).steps (K := K) at hstep
    rw [hsteps, List.mem_singleton] at hstep
    rw [hstep]
    exact ⟨by simp, by simpa using ht⟩
  · intro hcomment
    cases hcomment with
    | here hopen =>
      have hscan := Lexeme.scan_append_of_isOpenComment (K := K) hopen []
      rw [List.append_nil, h] at hscan
      simp at hscan
    | later hscan hrest =>
      rw [h] at hscan
      obtain ⟨-, rfl⟩ := Prod.mk.inj (Option.some.inj hscan)
      cases hrest with
      | here hopen => simp [Lexeme.isOpenComment] at hopen
      | later hscan _ => simp [Lexeme.scan] at hscan

/-- A spelling is read as its token, and only a number's can leave anything open. -/
theorem Spells.tokenize_eq {t : Token K} {w : List UInt8} (h : Spells t w) :
    tokenize w = [t] ∧ ((∀ x, t ≠ .number x) →
      (Lexer.ofBytes w).Uncut (K := K) ∧ ¬ EndsInComment K w) := by
  have hlexeme : ∀ {t : Token K} {w : List UInt8}, Lexeme.scan w = some (.token t, []) →
      t ≠ .operator "ID" → tokenize w = [t] ∧ ((∀ x, t ≠ .number x) →
        (Lexer.ofBytes w).Uncut (K := K) ∧ ¬ EndsInComment K w) := by
    intro t w hscan ht
    obtain ⟨htokens, huncut, hcomment⟩ := tokenize_of_scan hscan ht
    exact ⟨htokens, fun _ => ⟨huncut, hcomment⟩⟩
  cases h with
  | literal h => exact hlexeme (Lexeme.scan_literal h) (by simp)
  | hexadecimal h => exact hlexeme (Lexeme.scan_hexadecimal h) (by simp)
  | name h => exact hlexeme (Lexeme.scan_name h) (by simp)
  | arrayStart => exact hlexeme rfl (by simp)
  | arrayEnd => exact hlexeme rfl (by simp)
  | operator hne hreserved hregular hnumber =>
    refine hlexeme (Lexeme.scan_operator hne hreserved hregular hnumber) ?_
    rintro ⟨rfl⟩
    exact hreserved (by decide)
  | number h => exact ⟨h, fun hx => absurd rfl (hx _)⟩

theorem tokenize_of_written {ts : List (Token K)} {s : List UInt8} (h : Written ts s) :
    tokenize s = ts := by
  induction h with
  | nil => exact tokenize_nil
  | last h => exact h.tokenize_eq.1
  | @cons t _ _ w _ c h hc hnumber _ ih =>
    obtain ⟨htokens, hclosed⟩ := h.tokenize_eq
    have hbefore : (Lexer.ofBytes w).Uncut (K := K) ∧
        (EndsInComment K w → isLineEnd c = true) := by
      by_cases hx : ∃ x, t = .number x
      · obtain ⟨x, hx⟩ := hx
        exact hnumber x hx
      · obtain ⟨huncut, hcomment⟩ := hclosed fun x heq => hx ⟨x, heq⟩
        exact ⟨huncut, fun hend => absurd hend hcomment⟩
    rw [tokenize_append_blank hc hbefore.1 hbefore.2, htokens, ih]
    rfl

theorem tokenize_of_written_mixed :
    let string := byte '(' :: (byte '(' :: ([byte 'A'] ++ byte ')' :: byte '\\' :: byte 'n' ::
      byte '\\' :: byte '3' :: byte '0' :: byte '1' :: []) ++ [byte ')'])
    let name := byte '/' :: byte '#' :: byte 'c' :: byte '3' :: byte '#' :: byte 'A' :: byte '9' ::
      [byte 'x']
    let number := Utf8.encode "+5.%x"
    let hexadecimal := byte '<' :: ([byte '4', 32, byte 'a', byte '5'] ++ [byte '>'])
    let s := string ++ 32 :: (name ++ 9 :: (number ++ 10 :: hexadecimal))
    let ts : List (Token ℚ) :=
      [.string [byte '(', byte 'A', byte ')', 10, 193], .name "éx", .number 5, .string [0x4A, 0x50]]
    Written ts s ∧ tokenize s = ts := by
  intro string name number hexadecimal s ts
  have hstring : Spells (K := ℚ) (.string [byte '(', byte 'A', byte ')', 10, 193]) string :=
    .literal (.group (.raw rfl .nil) (.named (by decide) (.octal (.digit (n := 3) (by decide))
      (.digit (n := 0) (by decide)) (.digit (n := 1) (by decide)) .nil)))
  have hname : Spells (K := ℚ) (.name "éx") name := by
    refine .name ?_
    have hencode : Utf8.encode "éx" = [0xC3, 0xA9, byte 'x'] := by decide +kernel
    rw [hencode]
    exact .hex (.lower (n := 2) (by decide)) (.decimal (n := 3) (by decide))
      (.hex (.upper (n := 0) (by decide)) (.decimal (n := 9) (by decide))
        (.raw (by decide) (by decide) .nil))
  have hnumber : Spells (K := ℚ) (.number 5) number := .number (by decide +kernel)
  have huncut : (Lexer.ofBytes number).Uncut (K := ℚ) := by
    unfold Lexer.Uncut
    decide +kernel
  have hhexadecimal : Spells (K := ℚ) (.string [0x4A, 0x50]) hexadecimal :=
    .hexadecimal (.pair (.decimal (n := 4) (by decide)) (.lower (n := 0) (by decide))
      (.dropped (.decimal (n := 5) (by decide))))
  have hwritten : Written ts s :=
    .cons hstring (by decide) (fun _ h => by simp at h)
      (.cons hname (by decide) (fun _ h => by simp at h)
        (.cons hnumber (by decide) (fun _ _ => ⟨huncut, fun _ => rfl⟩) (.last hhexadecimal)))
  exact ⟨hwritten, tokenize_of_written hwritten⟩

/-- A comment or a string that a number leaves open takes up what comes behind the blank. -/
theorem tokenize_openSpelling :
    tokenize (K := ℚ) (Utf8.encode "5%") = [.number 5] ∧
      tokenize (K := ℚ) (Utf8.encode "5(") = [.number 5] ∧
      tokenize (K := ℚ) (Utf8.encode "7") = [.number 7] ∧
      tokenize (K := ℚ) (Utf8.encode "5% 7") = [.number 5] ∧
      tokenize (K := ℚ) (Utf8.encode "5( 7") = [.number 5] := by
  decide +kernel

end ContentStream
