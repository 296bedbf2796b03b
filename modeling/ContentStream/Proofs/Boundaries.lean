import Mathlib
import ContentStream.Proofs.Execution

set_option autoImplicit false

namespace ContentStream
variable {K : Type}

def isLineEnd (b : UInt8) : Bool := b == 10 || b == 13

/-- What is known of a blank: it begins and continues no lexeme. -/
structure Separates (c : UInt8) : Prop where
  blank : isBlank c = true
  notRegular : isRegular c = false
  notDigit : isDigit c = false
  notHex : hexValue? c = none
  ne_point : (c == byte '.') = false
  ne_less : (c == byte '<') = false
  ne_greater : (c == byte '>') = false

theorem separates_of_isBlank {c : UInt8} (h : isBlank c = true) : Separates c := by
  simp only [isBlank, Bool.or_eq_true, beq_iff_eq] at h
  rcases h with ((((rfl | rfl) | rfl) | rfl) | rfl) | rfl <;> constructor <;> decide

theorem isBlank_of_isLineEnd {c : UInt8} (h : isLineEnd c = true) : isBlank c = true := by
  simp only [isLineEnd, Bool.or_eq_true, beq_iff_eq] at h
  rcases h with rfl | rfl <;> decide

section Lists
variable {α : Type} {p : α → Bool} {c : α}

theorem takeWhile_append_stop (h : p c = false) (s t : List α) :
    (s ++ c :: t).takeWhile p = s.takeWhile p := by
  induction s with
  | nil => simp [h]
  | cons b s ih => by_cases hb : p b = true <;> simp [hb, ih]

theorem dropWhile_append_stop (h : p c = false) (s t : List α) :
    (s ++ c :: t).dropWhile p = s.dropWhile p ++ c :: t := by
  induction s with
  | nil => simp [h]
  | cons b s ih => by_cases hb : p b = true <;> simp [hb, ih]

end Lists

namespace Lexeme

def hexPair? : List UInt8 → Option (UInt8 × List UInt8)
  | h :: l :: t =>
    match hexValue? h, hexValue? l with
    | some high, some low => some (UInt8.ofNat (high * 16 + low), t)
    | _, _ => none
  | _ => none

theorem name_cons (acc : List UInt8) (b : UInt8) (s : List UInt8) :
    name acc (b :: s) =
      if isRegular b then
        if b == byte '#' then
          (hexPair? s).elim (name (b :: acc) s) fun p => name (p.1 :: acc) p.2
        else name (b :: acc) s
      else (acc.reverse, b :: s) := by
  cases hregular : isRegular b with
  | false =>
    rw [name.eq_def]
    simp [hregular]
  | true =>
    by_cases hnum : (b == byte '#') = true
    · obtain _ | ⟨h, _ | ⟨l, t⟩⟩ := s
      · simp [name, hexPair?, hregular, hnum]
      · simp [name, hexPair?, hregular, hnum]
      · cases hh : hexValue? h <;> cases hl : hexValue? l <;>
          simp [name, hexPair?, hregular, hnum, hh, hl]
    · rw [name.eq_def]
      simp [hregular, hnum]

theorem length_of_hexPair? {s t : List UInt8} {e : UInt8} (h : hexPair? s = some (e, t)) :
    t.length < s.length := by
  unfold hexPair? at h
  split at h
  · split at h
    · obtain ⟨-, rfl⟩ := Prod.mk.inj (Option.some.inj h)
      simp only [List.length_cons]
      omega
    · exact absurd h (by simp)
  · exact absurd h (by simp)

/-- The byte that the octal digit `c` and at most two more at the front stand for, and what follows
them. Digits that the end of the input cuts off stand for none. -/
def octalAt? (c : UInt8) : List UInt8 → Option (UInt8 × List UInt8)
  | [] => none
  | d :: u =>
    if isOctalDigit d then
      match u with
      | [] => none
      | e :: v =>
        if isOctalDigit e then some (octal [c, d, e], v) else some (octal [c, d], e :: v)
    else some (octal [c], d :: u)

def escapeAt? : List UInt8 → Option (List UInt8 × List UInt8)
  | [] => none
  | c :: t =>
    match escape? c with
    | some e => some ([e], t)
    | none =>
      if c == 10 then some ([], t)
      else if c == 13 then
        match t with
        | [] => none
        | d :: u => some ([], if d == 10 then u else d :: u)
      else if isOctalDigit c then (octalAt? c t).map fun p => ([p.1], p.2)
      else some ([c], t)

def isStructural (b : UInt8) : Bool := b == byte '(' || b == byte ')' || b == byte '\\'

section Literal
variable {depth : Nat} {acc s : List UInt8}

theorem literal_open :
    literal depth acc (byte '(' :: s) = literal (depth + 1) (byte '(' :: acc) s := by
  rw [literal.eq_def]
  rfl

theorem literal_close_zero : literal 0 acc (byte ')' :: s) = some (acc.reverse, s) := by
  rw [literal.eq_def]
  rfl

theorem literal_close_succ :
    literal (depth + 1) acc (byte ')' :: s) = literal depth (byte ')' :: acc) s := by
  rw [literal.eq_def]
  rfl

theorem literal_raw {b : UInt8} (h : isStructural b = false) :
    literal depth acc (b :: s) = literal depth (b :: acc) s := by
  simp only [isStructural, Bool.or_eq_false_iff] at h
  obtain ⟨⟨hopen, hclose⟩, hescape⟩ := h
  rw [literal.eq_def]
  simp only [hopen, hclose, hescape, Bool.false_eq_true, if_false]

theorem literal_backslash : literal depth acc (byte '\\' :: s) =
    (escapeAt? s).bind fun p => literal depth (p.1 ++ acc) p.2 := by
  have hopen : (byte '\\' == byte '(') = false := rfl
  have hclose : (byte '\\' == byte ')') = false := rfl
  rw [literal.eq_def]
  simp only [hopen, hclose, beq_self_eq_true, Bool.false_eq_true, if_false, if_true]
  cases s with
  | nil => rfl
  | cons c t =>
    simp only [escapeAt?]
    cases escape? c with
    | some e => rfl
    | none =>
      obtain _ | ⟨d, _ | ⟨e, v⟩⟩ := t
      · grind [octalAt?]
      · grind [octalAt?]
      · grind [octalAt?]

end Literal

theorem octalAt?_reads {c d : UInt8} {s rest : List UInt8} (h : octalAt? c s = some (d, rest)) :
    rest.length ≤ s.length ∧ ∀ u, octalAt? c (s ++ u) = some (d, rest ++ u) := by
  cases s with
  | nil => exact absurd h (by simp [octalAt?])
  | cons b s =>
    simp only [octalAt?] at h
    split_ifs at h with hb
    · cases s with
      | nil => exact absurd h (by simp)
      | cons e s =>
        dsimp only at h
        split_ifs at h with he
        · cases h
          exact ⟨by simp only [List.length_cons]; omega, fun u => by simp [octalAt?, hb, he]⟩
        · cases h
          exact ⟨Nat.le_succ _, fun u => by simp [octalAt?, hb, he]⟩
    · cases h
      exact ⟨Nat.le_refl _, fun u => by simp [octalAt?, hb]⟩

theorem escapeAt?_reads {s e rest : List UInt8} (h : escapeAt? s = some (e, rest)) :
    rest.length < s.length ∧ ∀ u, escapeAt? (s ++ u) = some (e, rest ++ u) := by
  cases s with
  | nil => exact absurd h (by simp [escapeAt?])
  | cons c s =>
    rw [List.length_cons, Nat.lt_succ_iff]
    simp only [List.cons_append, escapeAt?] at h ⊢
    cases hesc : escape? c with
    | some b =>
      cases hesc ▸ h
      exact ⟨Nat.le_refl _, fun _ => rfl⟩
    | none =>
      simp only [hesc] at h ⊢
      split_ifs at h ⊢ with hlf hcr hoct
      · cases h
        exact ⟨Nat.le_refl _, fun _ => rfl⟩
      · cases s with
        | nil => exact absurd h (by simp)
        | cons d s =>
          cases h
          cases hd : d == 10 <;> simp [hd]
      · obtain ⟨⟨b, r⟩, hat, hp⟩ := Option.map_eq_some_iff.mp h
        cases hp
        obtain ⟨hle, happend⟩ := octalAt?_reads hat
        refine ⟨hle, fun u => ?_⟩
        rw [happend]
        rfl
      · cases h
        exact ⟨Nat.le_refl _, fun _ => rfl⟩

section Scanners
variable {c : UInt8} (hc : Separates c) (t : List UInt8)

theorem afterComment_append (s u : List UInt8) :
    afterComment (s ++ u) =
      if s.any isLineEnd then afterComment s ++ u else afterComment u := by
  induction s with
  | nil => rfl
  | cons b s ih =>
    rw [List.cons_append, afterComment, afterComment, List.any_cons, ih]
    by_cases hb : isLineEnd b = true
    · have hend : (b == 10 || b == 13) = true := hb
      simp [hb, hend]
    · have hend : ¬ (b == 10 || b == 13) = true := hb
      simp only [hb, Bool.false_or, if_neg hend]

include hc

theorem hexPair?_append (s : List UInt8) :
    hexPair? (s ++ c :: t) = (hexPair? s).map fun p => (p.1, p.2 ++ c :: t) := by
  obtain _ | ⟨h, _ | ⟨l, s⟩⟩ := s
  · cases t with
    | nil => rfl
    | cons d t => simp [hexPair?, hc.notHex]
  · cases hh : hexValue? h <;> simp [hexPair?, hc.notHex, hh]
  · cases hh : hexValue? h <;> cases hl : hexValue? l <;> simp [hexPair?, hh, hl]

theorem name_append (acc s : List UInt8) :
    name acc (s ++ c :: t) = ((name acc s).1, (name acc s).2 ++ c :: t) := by
  -- A number sign can take two digits along, so the induction is on the length.
  induction hn : s.length using Nat.strong_induction_on generalizing acc s with
  | _ n ih =>
    cases s with
    | nil => simp [name_cons, hc.notRegular, name]
    | cons b s =>
      have hs : s.length < n := by simp [← hn]
      rw [List.cons_append, name_cons, name_cons]
      split
      · split
        · rw [hexPair?_append hc]
          cases hpair : hexPair? s with
          | none => exact ih _ hs _ _ rfl
          | some p => exact ih _ ((length_of_hexPair? hpair).trans hs) _ _ rfl
        · exact ih _ hs _ _ rfl
      · rfl

theorem fraction_append (s : List UInt8) :
    fraction (s ++ c :: t) = ((fraction s).1, (fraction s).2 ++ c :: t) := by
  cases s with
  | nil => simp [fraction, hc.ne_point]
  | cons b s =>
    simp only [List.cons_append, fraction]
    split
    · rw [takeWhile_append_stop hc.notDigit, dropWhile_append_stop hc.notDigit]
    · rfl

variable [Scalar K]

theorem numeral_append (s : List UInt8) :
    numeral (K := K) (s ++ c :: t) = ((numeral s).1, (numeral (K := K) s).2 ++ c :: t) := by
  unfold numeral
  rw [takeWhile_append_stop hc.notDigit, dropWhile_append_stop hc.notDigit, fraction_append hc]
  dsimp only
  split <;> rfl

theorem number_append (negative : Bool) (s : List UInt8) :
    number (K := K) negative (s ++ c :: t) =
      ((number negative s).1, (number (K := K) negative s).2 ++ c :: t) := by
  unfold number
  rw [numeral_append hc]
  generalize numeral (K := K) s = n
  obtain ⟨value, rest⟩ := n
  cases value <;> rfl

omit hc [Scalar K]

theorem literal_append {depth : Nat} {acc s v rest : List UInt8}
    (h : literal depth acc s = some (v, rest)) (u : List UInt8) :
    literal depth acc (s ++ u) = some (v, rest ++ u) := by
  -- On the length again: an escape takes up to four bytes.
  induction hn : s.length using Nat.strong_induction_on generalizing depth acc s with
  | _ n ih =>
    cases s with
    | nil => exact absurd h (by simp [literal])
    | cons b s =>
      have hs : s.length < n := by simp [← hn]
      cases hb : isStructural b with
      | false =>
        rw [literal_raw hb] at h
        rw [List.cons_append, literal_raw hb]
        exact ih _ hs h rfl
      | true =>
        simp only [isStructural, Bool.or_eq_true, beq_iff_eq] at hb
        obtain (rfl | rfl) | rfl := hb
        · rw [literal_open] at h
          rw [List.cons_append, literal_open]
          exact ih _ hs h rfl
        · cases depth with
          | zero =>
            rw [literal_close_zero] at h
            cases h
            rw [List.cons_append, literal_close_zero]
          | succ depth =>
            rw [literal_close_succ] at h
            rw [List.cons_append, literal_close_succ]
            exact ih _ hs h rfl
        · rw [literal_backslash] at h
          obtain ⟨p, hat, hrest⟩ := Option.bind_eq_some_iff.mp h
          obtain ⟨hlt, happend⟩ := escapeAt?_reads hat
          rw [List.cons_append, literal_backslash, happend]
          exact ih _ (hlt.trans hs) hrest rfl

theorem hexadecimal_append {acc s v rest : List UInt8} {high : Option Nat}
    (h : hexadecimal acc high s = some (v, rest)) (u : List UInt8) :
    hexadecimal acc high (s ++ u) = some (v, rest ++ u) := by
  fun_induction hexadecimal acc high s <;> grind [hexadecimal]

end Scanners

def isOpenComment : List UInt8 → Bool
  | [] => false
  | b :: s => b == byte '%' && !s.any isLineEnd

section Scan
variable {c : UInt8}

theorem startsNumeral_append (hc : Separates c) (s t : List UInt8) :
    startsNumeral (s ++ c :: t) = startsNumeral s := by
  cases s with
  | nil => simp [startsNumeral, hc.notDigit, hc.ne_point]
  | cons b s => rfl

theorem opening_append (hc : Separates c) (b : UInt8) (s t : List UInt8) :
    opening b (s ++ c :: t) = opening b s := by
  have hhead : (s ++ c :: t).head?.any isDigit = s.head?.any isDigit := by
    cases s <;> simp [hc.notDigit]
  unfold opening
  rw [startsNumeral_append hc, hhead]

theorem head?_append_ne {s : List UInt8} {d : UInt8} (hd : (c == d) = false) (t : List UInt8) :
    ((s ++ c :: t).head? == some d) = (s.head? == some d) := by
  cases s with
  | nil => simpa using hd
  | cons b s => rfl

theorem opening_percent (s : List UInt8) : opening (byte '%') s = .comment := rfl

theorem eq_percent_of_opening {b : UInt8} {s : List UInt8} (h : opening b s = .comment) :
    b = byte '%' := by
  by_contra hb
  have hne : (b == byte '%') = false := beq_false_of_ne hb
  simp only [opening, hne, Bool.false_eq_true, if_false, ite_eq_iff, reduceCtorEq, and_false,
    or_false] at h

variable [Scalar K]

omit [Scalar K] in
theorem string_append {scanned : Option (List UInt8 × List UInt8)} {x : Lexeme K}
    {rest : List UInt8} (h : string scanned = (x, rest)) (hx : x ≠ .unterminated)
    {scanned' : Option (List UInt8 × List UInt8)} {u : List UInt8}
    (happend : ∀ v r, scanned = some (v, r) → scanned' = some (v, r ++ u)) :
    string scanned' = (x, rest ++ u) := by
  cases scanned with
  | none => exact absurd (congrArg Prod.fst h).symm hx
  | some p =>
    obtain ⟨v, r⟩ := p
    obtain ⟨rfl, rfl⟩ := Prod.mk.inj h
    rw [happend v r rfl]
    rfl

/-- A blank behind a lexeme leaves it what it is. -/
theorem scanFrom_append (hc : Separates c) {b : UInt8} {s rest : List UInt8} {x : Lexeme K}
    (h : scanFrom b s = (x, rest)) (hx : x ≠ .unterminated)
    (hopen : isOpenComment (b :: s) = false) (t : List UInt8) :
    scanFrom b (s ++ c :: t) = (x, rest ++ c :: t) := by
  unfold scanFrom at h ⊢
  rw [opening_append hc]
  cases hopening : opening b s <;> simp only [hopening] at h ⊢
  case comment =>
    obtain rfl := eq_percent_of_opening hopening
    have hany : s.any isLineEnd = true := by simpa [isOpenComment] using hopen
    rw [afterComment_append, if_pos hany]
    cases h
    rfl
  case name => rw [name_append hc]; cases h; rfl
  case literal => exact string_append h hx fun v r hr => literal_append hr _
  case angle =>
    rw [head?_append_ne hc.ne_less]
    cases s with
    | nil => exact absurd (congrArg Prod.fst h).symm hx
    | cons d s =>
      split_ifs at h ⊢ with hdict
      · cases h; rfl
      · exact string_append h hx fun v r hr => hexadecimal_append hr _
  case closingAngle =>
    rw [head?_append_ne hc.ne_greater]
    cases s with
    | nil => cases h; rfl
    | cons d s => split_ifs at h ⊢ with hdict <;> cases h <;> rfl
  case signed negative => rw [number_append hc, h]
  case unsigned => rw [← List.cons_append, number_append hc, h]
  case word =>
    rw [takeWhile_append_stop hc.notRegular, dropWhile_append_stop hc.notRegular]
    cases h
    rfl
  all_goals cases h; rfl

theorem scan_append (hc : Separates c) {a rest : List UInt8} {x : Lexeme K}
    (h : scan a = some (x, rest)) (hx : x ≠ .unterminated) (hopen : isOpenComment a = false)
    (t : List UInt8) : scan (a ++ c :: t) = some (x, rest ++ c :: t) := by
  cases a with
  | nil => exact absurd h (by simp [scan])
  | cons b s =>
    have hfrom : scanFrom b s = (x, rest) := Option.some.inj h
    exact congrArg some (scanFrom_append hc hfrom hx hopen t)

/-- What comes after a comment that is still open belongs to it up to a line end. -/
theorem scan_append_of_isOpenComment {a : List UInt8} (h : isOpenComment a = true)
    (u : List UInt8) : scan (K := K) (a ++ u) = some (.blank, afterComment u) := by
  cases a with
  | nil => exact absurd h (by simp [isOpenComment])
  | cons b s =>
    simp only [isOpenComment, Bool.and_eq_true, beq_iff_eq, Bool.not_eq_true'] at h
    obtain ⟨rfl, hany⟩ := h
    change some (scanFrom (byte '%') (s ++ u)) = _
    unfold scanFrom
    rw [opening_percent, afterComment_append, if_neg (by simp [hany])]

theorem scan_blank (hc : Separates c) (s : List UInt8) :
    scan (K := K) (c :: s) = some (.blank, s) := by
  have hopening : opening c s = .blank := by simp [opening, hc.blank]
  change some (scanFrom c s) = _
  unfold scanFrom
  rw [hopening]

end Scan

end Lexeme
end ContentStream
