import ContentStream.Token
import ContentStream.Text.Utf8

set_option autoImplicit false

namespace ContentStream
variable {K : Type} [Scalar K]

inductive Lexeme (K : Type)
  /-- Blanks, comments, dictionary brackets, stray closing brackets and `null`. -/
  | blank
  | token (t : Token K)
  /-- A sign or a point that no digit follows. -/
  | badNumber
  /-- A string that the end of the input cuts off. -/
  | unterminated
  deriving DecidableEq

namespace Lexeme

def afterComment : List UInt8 → List UInt8
  | [] => []
  | b :: s => if b == 10 || b == 13 then s else afterComment s

/-- The bytes of a name and what follows it; `acc` holds the bytes before, last first. A number
sign and two hexadecimal digits stand for one byte. -/
def name (acc : List UInt8) : List UInt8 → List UInt8 × List UInt8
  | [] => (acc.reverse, [])
  | b :: s =>
    if !isRegular b then (acc.reverse, b :: s)
    else if b == byte '#' then
      match s with
      | h :: l :: t =>
        match hexValue? h, hexValue? l with
        | some high, some low => name (UInt8.ofNat (high * 16 + low) :: acc) t
        | _, _ => name (b :: acc) (h :: l :: t)
      | [h] => name (b :: acc) [h]
      | [] => name (b :: acc) []
    else name (b :: acc) s

def integral (digits : List UInt8) : K :=
  digits.foldl (fun v d => v * ((10 : Nat) : K) + (digitValue d : K)) 0

/-- Adds the digits after a point to `value`, the first of which counts `scale`. -/
def addFraction (value scale : K) : List UInt8 → K
  | [] => value
  | d :: ds => addFraction (value + (digitValue d : K) * scale) (scale * 0.1) ds

def fraction : List UInt8 → List UInt8 × List UInt8
  | [] => ([], [])
  | b :: s => if b == byte '.' then (s.takeWhile isDigit, s.dropWhile isDigit) else ([], b :: s)

/-- A numeral without its sign and what follows it; no number where no digit stands. -/
def numeral (s : List UInt8) : Option K × List UInt8 :=
  let whole := s.takeWhile isDigit
  let (digits, rest) := fraction (s.dropWhile isDigit)
  if whole.isEmpty && digits.isEmpty then (none, rest)
  else (some (addFraction (integral whole) 0.1 digits), rest)

def escape? (b : UInt8) : Option UInt8 :=
  if b == byte 'n' then some 10
  else if b == byte 'r' then some 13
  else if b == byte 't' then some 9
  else if b == byte 'b' then some 8
  else if b == byte 'f' then some 12
  else none

def octal (digits : List UInt8) : UInt8 :=
  UInt8.ofNat (digits.foldl (fun v d => v * 8 + digitValue d) 0)

/-- The rest of a parenthesised string inside `depth` further parentheses, and what follows it;
`acc` holds the bytes before, last first. -/
def literal (depth : Nat) (acc : List UInt8) : List UInt8 → Option (List UInt8 × List UInt8)
  | [] => none
  | b :: s =>
    if b == byte '(' then literal (depth + 1) (b :: acc) s
    else if b == byte ')' then
      match depth with
      | 0 => some (acc.reverse, s)
      | depth + 1 => literal depth (b :: acc) s
    else if b == byte '\\' then
      match s with
      | [] => none
      | c :: t =>
        match escape? c with
        | some e => literal depth (e :: acc) t
        | none =>
          if c == 10 then literal depth acc t
          else if c == 13 then
            match t with
            | [] => none
            | d :: u => if d == 10 then literal depth acc u else literal depth acc (d :: u)
          else if isOctalDigit c then
            match t with
            | [] => none
            | d :: u =>
              if isOctalDigit d then
                match u with
                | [] => none
                | e :: v =>
                  if isOctalDigit e then literal depth (octal [c, d, e] :: acc) v
                  else literal depth (octal [c, d] :: acc) (e :: v)
              else literal depth (octal [c] :: acc) (d :: u)
          else literal depth (c :: acc) t
    else literal depth (b :: acc) s

/-- The bytes of a hexadecimal string before the present place, last first, when `high` is a
digit that still lacks its partner. -/
def closeHex (acc : List UInt8) (high : Option Nat) : List UInt8 :=
  match high with
  | none => acc.reverse
  | some h => (UInt8.ofNat (h * 16) :: acc).reverse

/-- The rest of a hexadecimal string and what follows it. A byte that is neither a digit nor
blank ends the string and is left in the input. -/
def hexadecimal (acc : List UInt8) (high : Option Nat) :
    List UInt8 → Option (List UInt8 × List UInt8)
  | [] => none
  | b :: s =>
    if b == byte '>' then some (closeHex acc high, s)
    else match hexValue? b with
      | some d =>
        match high with
        | none => hexadecimal acc (some d) s
        | some h => hexadecimal (UInt8.ofNat (h * 16 + d) :: acc) none s
      | none => if isBlank b then hexadecimal acc high s else some (closeHex acc high, b :: s)

def ofWord (word : List UInt8) : Lexeme K :=
  let text := Utf8.decode word
  if text == "true" then token (.number 1)
  else if text == "false" then token (.number 0)
  else if text == "null" then blank
  else token (.operator text)

def string (scanned : Option (List UInt8 × List UInt8)) : Lexeme K × List UInt8 :=
  match scanned with
  | some (bytes, rest) => (token (.string bytes), rest)
  | none => (unterminated, [])

def number (negative : Bool) (s : List UInt8) : Lexeme K × List UInt8 :=
  match numeral (K := K) s with
  | (some v, rest) => (token (.number (if negative then -v else v)), rest)
  | (none, rest) => (badNumber, rest)

inductive Opening
  | blank
  | comment
  | name
  | literal
  /-- A hexadecimal string or a dictionary. -/
  | angle
  | closingAngle
  | arrayStart
  | arrayEnd
  | stray
  | signed (negative : Bool)
  | unsigned
  | word
  deriving DecidableEq

def startsNumeral : List UInt8 → Bool
  | [] => false
  | b :: _ => isDigit b || b == byte '.'

/-- The opening at byte `b` before the bytes `s`. A sign opens a number before a digit or a
point, and a point opens one before a digit. -/
def opening (b : UInt8) (s : List UInt8) : Opening :=
  if isBlank b then .blank
  else if b == byte '%' then .comment
  else if b == byte '/' then .name
  else if b == byte '(' then .literal
  else if b == byte '<' then .angle
  else if b == byte '>' then .closingAngle
  else if b == byte '[' then .arrayStart
  else if b == byte ']' then .arrayEnd
  else if isDelimiter b then .stray
  else if b == byte '+' || b == byte '-' then
    if startsNumeral s then .signed (b == byte '-') else .word
  else if isDigit b then .unsigned
  else if b == byte '.' && s.head?.any isDigit then .unsigned
  else .word

/-- The first lexeme of a non-empty input and what follows it. -/
def scanFrom (b : UInt8) (s : List UInt8) : Lexeme K × List UInt8 :=
  match opening b s with
  | .blank => (blank, s)
  | .comment => (blank, afterComment s)
  | .name => (token (.name (Utf8.decode (name [] s).1)), (name [] s).2)
  | .literal => string (literal 0 [] s)
  | .angle =>
    if s.head? == some (byte '<') then (blank, s.tail) else string (hexadecimal [] none s)
  | .closingAngle => if s.head? == some (byte '>') then (blank, s.tail) else (blank, s)
  | .arrayStart => (token .arrayStart, s)
  | .arrayEnd => (token .arrayEnd, s)
  | .stray => (blank, s)
  | .signed negative => number negative s
  | .unsigned => number false (b :: s)
  | .word => (ofWord (b :: s.takeWhile isRegular), s.dropWhile isRegular)

def scan : List UInt8 → Option (Lexeme K × List UInt8)
  | [] => none
  | b :: s => some (scanFrom b s)

theorem length_afterComment_le (s : List UInt8) : (afterComment s).length ≤ s.length := by
  induction s with
  | nil => simp [afterComment]
  | cons b s ih =>
    rw [afterComment]
    split
    · simp
    · simp only [List.length_cons]; omega

theorem length_name_le (acc s : List UInt8) : (name acc s).2.length ≤ s.length := by
  fun_induction name acc s <;> simp_all <;> omega

theorem length_fraction_le (s : List UInt8) : (fraction s).2.length ≤ s.length := by
  cases s with
  | nil => simp [fraction]
  | cons b s =>
    rw [fraction]
    split
    · exact Nat.le_succ_of_le (List.dropWhile_sublist isDigit).length_le
    · exact Nat.le_refl _

theorem length_numeral_le (s : List UInt8) : (numeral (K := K) s).2.length ≤ s.length := by
  have h : (fraction (s.dropWhile isDigit)).2.length ≤ s.length :=
    Nat.le_trans (length_fraction_le _) (List.dropWhile_sublist isDigit).length_le
  simp only [numeral]
  split <;> exact h

theorem length_literal_le (depth : Nat) (acc s : List UInt8) {v rest : List UInt8}
    (h : literal depth acc s = some (v, rest)) : rest.length ≤ s.length := by
  fun_induction literal depth acc s <;> grind

theorem length_hexadecimal_le (acc : List UInt8) (high : Option Nat) (s : List UInt8)
    {v rest : List UInt8} (h : hexadecimal acc high s = some (v, rest)) :
    rest.length ≤ s.length := by
  fun_induction hexadecimal acc high s <;> grind

theorem length_number_le (negative : Bool) (s : List UInt8) :
    (number (K := K) negative s).2.length ≤ s.length := by
  have h := length_numeral_le (K := K) s
  unfold number
  split <;> simp_all

omit [Scalar K] in
theorem length_string_le (s : List UInt8) (scanned : Option (List UInt8 × List UInt8))
    (h : ∀ v rest, scanned = some (v, rest) → rest.length ≤ s.length) :
    (string (K := K) scanned).2.length ≤ s.length := by
  unfold string
  split
  · exact h _ _ rfl
  · exact Nat.zero_le _

/-- A numeral that begins with a digit or a point takes that byte. -/
theorem length_number_cons_le (b : UInt8) (s : List UInt8)
    (h : isDigit b = true ∨ b == byte '.') :
    (number (K := K) false (b :: s)).2.length ≤ s.length := by
  have key : (numeral (K := K) (b :: s)).2.length ≤ s.length := by
    have drop_le : (fraction ((b :: s).dropWhile isDigit)).2.length ≤ s.length := by
      by_cases hd : isDigit b = true
      · rw [List.dropWhile_cons_of_pos hd]
        exact Nat.le_trans (length_fraction_le _) (List.dropWhile_sublist isDigit).length_le
      · have hb : (b == byte '.') = true := by
          rcases h with h | h
          · exact absurd h hd
          · exact h
        rw [List.dropWhile_cons_of_neg hd, fraction, if_pos hb]
        exact (List.dropWhile_sublist isDigit).length_le
    simp only [numeral]
    split <;> exact drop_le
  unfold number
  split <;> simp_all

theorem of_opening_unsigned {b : UInt8} {s : List UInt8} (h : opening b s = .unsigned) :
    isDigit b = true ∨ b == byte '.' := by
  unfold opening at h
  by_cases hd : isDigit b = true
  · exact Or.inl hd
  · by_cases hp : (b == byte '.') = true
    · exact Or.inr hp
    · simp only [hd, hp, Bool.false_and, Bool.false_eq_true, if_false] at h
      repeat' split at h
      all_goals simp at h

theorem length_scanFrom_le (b : UInt8) (s : List UInt8) :
    (scanFrom (K := K) b s).2.length ≤ s.length := by
  unfold scanFrom
  split
  case h_2 => exact length_afterComment_le s
  case h_3 => exact length_name_le [] s
  case h_4 => exact length_string_le s _ fun _ _ h => length_literal_le _ _ _ h
  case h_5 =>
    split
    · simp
    · exact length_string_le _ _ fun _ _ h => length_hexadecimal_le _ _ _ h
  case h_6 => split <;> simp
  case h_10 => exact length_number_le _ _
  case h_11 => exact length_number_cons_le b s (of_opening_unsigned ‹_›)
  case h_12 => exact (List.dropWhile_sublist isRegular).length_le
  all_goals exact Nat.le_refl _

theorem length_lt_of_scan {s rest : List UInt8} {x : Lexeme K} (h : scan s = some (x, rest)) :
    rest.length < s.length := by
  cases s with
  | nil => simp [scan] at h
  | cons b s =>
    have hle := length_scanFrom_le (K := K) b s
    simp only [scan, Option.some.injEq] at h
    rw [h] at hle
    exact Nat.lt_succ_of_le hle

end Lexeme
end ContentStream
