import Mathlib
import ContentStream.Proofs.Boundaries
import ContentStream.Proofs.Execution
import ContentStream.Proofs.ExactArithmetic

set_option autoImplicit false

namespace ContentStream
variable {K : Type} [Scalar K]

def Token.opensImageData : Token K → Bool
  | .operator word => word == "ID"
  | _ => false

namespace Lexer

def tokens (l : Lexer) : List (Token K) := (l.steps (K := K)).filterMap fun step => step.1.toOption

/-- Nothing that is still to be read is a string without an end or opens inline image data. -/
def Uncut (l : Lexer) : Prop :=
  ∀ step ∈ l.steps (K := K), step.1 ≠ .error .unexpectedEnd ∧ step.1 ≠ .ok (.operator "ID")

section Steps
variable {n : Nat} {s rest : List UInt8}

theorem skipBlanks_nil : skipBlanks (K := K) [] = none := by
  rw [skipBlanks]
  rfl

theorem skipBlanks_of_ne_blank {x : Lexeme K} (h : Lexeme.scan s = some (x, rest))
    (hx : x ≠ .blank) : skipBlanks s = some (s, x, rest) := by
  rw [skipBlanks]
  split <;> simp_all

theorem steps_nil : steps (K := K) ⟨n, [], false⟩ = [] := by
  rw [steps_eq]
  simp [next, skipBlanks_nil]

theorem steps_blank (h : Lexeme.scan (K := K) s = some (.blank, rest)) :
    steps (K := K) ⟨n, s, false⟩ = steps ⟨n, rest, false⟩ := by
  have hskip : skipBlanks (K := K) s = skipBlanks rest := by
    rw [skipBlanks]
    split <;> simp_all
  have hnext : next (K := K) ⟨n, s, false⟩ = next ⟨n, rest, false⟩ := by
    simp [next, hskip]
  rw [steps_eq, hnext, ← steps_eq]

theorem steps_badNumber (h : Lexeme.scan (K := K) s = some (.badNumber, rest)) :
    steps (K := K) ⟨n, s, false⟩ =
      (.error (.invalidNumber (n - s.length)), ⟨n, rest, false⟩) :: steps ⟨n, rest, false⟩ := by
  have hskip := skipBlanks_of_ne_blank h (by simp)
  rw [steps_eq]
  simp [next, hskip]

theorem steps_unterminated (h : Lexeme.scan (K := K) s = some (.unterminated, rest)) :
    steps (K := K) ⟨n, s, false⟩ =
      (.error .unexpectedEnd, ⟨n, rest, false⟩) :: steps ⟨n, rest, false⟩ := by
  have hskip := skipBlanks_of_ne_blank h (by simp)
  rw [steps_eq]
  simp [next, hskip]

theorem steps_token {t : Token K} (h : Lexeme.scan s = some (.token t, rest)) :
    steps ⟨n, s, false⟩ =
      (.ok t, ⟨n, rest, t.opensImageData⟩) :: steps ⟨n, rest, t.opensImageData⟩ := by
  have hskip := skipBlanks_of_ne_blank h (by simp)
  rw [steps_eq]
  simp only [next, hskip]
  rfl

end Steps

theorem next_resize (n m : Nat) (s : List UInt8) (inImageData : Bool) :
    (next (K := K) ⟨n, s, inImageData⟩ = none ∧ next (K := K) ⟨m, s, inImageData⟩ = none) ∨
      ∃ r r' rest inImageData',
        next (K := K) ⟨n, s, inImageData⟩ = some (r, ⟨n, rest, inImageData'⟩) ∧
        next (K := K) ⟨m, s, inImageData⟩ = some (r', ⟨m, rest, inImageData'⟩) ∧
        r.toOption = r'.toOption := by
  cases inImageData with
  | true => exact .inr ⟨_, _, _, _, rfl, rfl, rfl⟩
  | false =>
    unfold next
    simp only [Bool.false_eq_true, if_false]
    split
    · exact .inr ⟨_, _, _, _, rfl, rfl, rfl⟩
    · exact .inr ⟨_, _, _, _, rfl, rfl, rfl⟩
    · exact .inr ⟨_, _, _, _, rfl, rfl, rfl⟩
    · exact .inl ⟨rfl, rfl⟩
    · exact .inl ⟨rfl, rfl⟩

/-- The size of the input shows in the places that faults report, but in no token. -/
theorem tokens_resize (n m : Nat) (s : List UInt8) (inImageData : Bool) :
    tokens (K := K) ⟨n, s, inImageData⟩ = tokens ⟨m, s, inImageData⟩ := by
  generalize hb : (Lexer.mk n s inImageData).remaining = b
  induction b using Nat.strong_induction_on generalizing s inImageData with
  | _ b ih =>
    unfold tokens
    rw [steps_eq ⟨n, s, inImageData⟩, steps_eq ⟨m, s, inImageData⟩]
    rcases next_resize (K := K) n m s inImageData with
      ⟨hn, hm⟩ | ⟨r, r', rest, inImageData', hn, hm, hr⟩
    · rw [hn, hm]
    · have hlt := remaining_lt_of_next hn
      have hrest := ih _ (hb ▸ hlt) rest inImageData' rfl
      rw [hn, hm]
      simp only [List.filterMap_cons, hr]
      unfold tokens at hrest
      rw [hrest]

section Tokens
variable {n : Nat} {s rest : List UInt8} {x : Lexeme K}

theorem tokens_skip (h : Lexeme.scan (K := K) s = some (x, rest)) (hx : ∀ t, x ≠ .token t) :
    tokens (K := K) ⟨n, s, false⟩ = tokens ⟨n, rest, false⟩ := by
  unfold tokens
  cases x with
  | blank => rw [steps_blank h]
  | token t => exact absurd rfl (hx t)
  | badNumber => rw [steps_badNumber h]; rfl
  | unterminated => rw [steps_unterminated h]; rfl

theorem tokens_token {t : Token K} (h : Lexeme.scan s = some (.token t, rest)) :
    tokens ⟨n, s, false⟩ = t :: tokens ⟨n, rest, t.opensImageData⟩ := by
  unfold tokens
  rw [steps_token h]
  rfl

omit [Scalar K] in
theorem opensImageData_eq_false {t : Token K} (h : t ≠ .operator "ID") :
    t.opensImageData = false := by
  cases t with
  | operator word => simpa [Token.opensImageData] using h
  | _ => rfl

/-- What is left to read after a lexeme is uncut too, and the lexeme is not what cuts it. -/
theorem Uncut.after (hs : Uncut (K := K) ⟨n, s, false⟩)
    (h : Lexeme.scan (K := K) s = some (x, rest)) :
    Uncut (K := K) ⟨n, rest, false⟩ ∧ x ≠ .unterminated ∧ x ≠ .token (.operator "ID") := by
  unfold Uncut at hs ⊢
  cases x with
  | blank =>
    rw [steps_blank h] at hs
    exact ⟨hs, by simp, by simp⟩
  | token t =>
    rw [steps_token h] at hs
    have ht : t ≠ .operator "ID" := fun heq => (hs _ List.mem_cons_self).2 (congrArg _ heq)
    rw [opensImageData_eq_false ht] at hs
    exact ⟨fun step hmem => hs step (List.mem_cons_of_mem _ hmem), by simp, by simpa using ht⟩
  | badNumber =>
    rw [steps_badNumber h] at hs
    exact ⟨fun step hmem => hs step (List.mem_cons_of_mem _ hmem), by simp, by simp⟩
  | unterminated =>
    rw [steps_unterminated h] at hs
    exact absurd rfl (hs _ List.mem_cons_self).1

end Tokens

end Lexer

inductive EndsInComment (K : Type) [Scalar K] : List UInt8 → Prop
  | here {s : List UInt8} (h : Lexeme.isOpenComment s = true) : EndsInComment K s
  | later {s rest : List UInt8} {x : Lexeme K} (h : Lexeme.scan s = some (x, rest))
      (hrest : EndsInComment K rest) : EndsInComment K s

open Lexer

theorem afterComment_lineEnd {c : UInt8} (hc : isLineEnd c = true) (s : List UInt8) :
    Lexeme.afterComment (c :: s) = s := if_pos hc

/-- A blank parts what comes before it from what comes after it. -/
theorem tokens_append_blank {c : UInt8} (hc : isBlank c = true) {n : Nat} {a : List UInt8}
    (ha : Uncut (K := K) ⟨n, a, false⟩) (hcomment : EndsInComment K a → isLineEnd c = true)
    (b : List UInt8) :
    tokens (K := K) ⟨n, a ++ c :: b, false⟩ = tokens ⟨n, a, false⟩ ++ tokens ⟨n, b, false⟩ := by
  have hsep := separates_of_isBlank hc
  -- Lexeme after lexeme of `a`. The blank shows only behind the last one, where `a` has come to
  -- its end or an open comment runs on.
  induction hlen : a.length using Nat.strong_induction_on generalizing a with
  | _ len ih =>
    cases hscan : Lexeme.scan (K := K) a with
    | none =>
      obtain rfl : a = [] := by cases a <;> simp_all [Lexeme.scan]
      rw [List.nil_append, tokens_skip (Lexeme.scan_blank hsep b) (by simp)]
      simp [tokens, steps_nil]
    | some p =>
      obtain ⟨x, rest⟩ := p
      cases hopen : Lexeme.isOpenComment a with
      | true =>
        have hend : isLineEnd c = true := hcomment (.here hopen)
        have hall := Lexeme.scan_append_of_isOpenComment (K := K) hopen (c :: b)
        have halone := Lexeme.scan_append_of_isOpenComment (K := K) hopen []
        rw [List.append_nil] at halone
        rw [afterComment_lineEnd hend] at hall
        rw [tokens_skip hall (by simp), tokens_skip halone (by simp)]
        simp [tokens, Lexeme.afterComment, steps_nil]
      | false =>
        obtain ⟨hrest, hcut, hdata⟩ := ha.after hscan
        have hall := Lexeme.scan_append hsep hscan hcut hopen b
        have hlt : rest.length < len := hlen ▸ Lexeme.length_lt_of_scan hscan
        have hrec := ih _ hlt hrest (fun h => hcomment (.later hscan h)) rfl
        cases x with
        | token t =>
          have hfalse := opensImageData_eq_false (t := t) fun heq => hdata (congrArg _ heq)
          rw [tokens_token hall, tokens_token hscan, hfalse, hrec]
          rfl
        | _ =>
          rw [tokens_skip hall (by simp), tokens_skip hscan (by simp), hrec]

theorem tokenize_eq_tokens (n : Nat) (s : List UInt8) :
    tokenize (K := K) s = tokens ⟨n, s, false⟩ := tokens_resize _ _ _ _

theorem tokenize_nil : tokenize (K := K) [] = [] := by
  rw [tokenize_eq_tokens 0, tokens, steps_nil]
  rfl

theorem tokenize_append_blank {c : UInt8} (hc : isBlank c = true) {a : List UInt8}
    (ha : Uncut (K := K) (ofBytes a)) (hcomment : EndsInComment K a → isLineEnd c = true)
    (b : List UInt8) : tokenize (K := K) (a ++ c :: b) = tokenize a ++ tokenize b := by
  rw [tokenize_eq_tokens a.length, tokenize_eq_tokens a.length, tokenize_eq_tokens a.length]
  exact tokens_append_blank hc ha hcomment b

/-- Contents joined by a line end are read and executed one after the other. -/
theorem tokenize_append_lineEnd {a : List UInt8} {c : UInt8} (hc : c = 10 ∨ c = 13)
    (ha : Uncut (K := K) (ofBytes a)) (b : List UInt8) :
    tokenize (K := K) (a ++ c :: b) = tokenize a ++ tokenize b ∧
      ∀ (options : Options K) (s : Interpreter K),
        (Interpreter.execute options (tokenize a) s).fault = none →
        Interpreter.execute options (tokenize (a ++ c :: b)) s =
          Interpreter.execute options (tokenize b)
            (Interpreter.execute options (tokenize a) s).state := by
  have hend : isLineEnd c = true := by simpa [isLineEnd] using hc
  have happend : tokenize (K := K) (a ++ c :: b) = tokenize a ++ tokenize b :=
    tokenize_append_blank (isBlank_of_isLineEnd hend) ha (fun _ => hend) b
  refine ⟨happend, fun options s hfault => ?_⟩
  rw [happend, Interpreter.execute_append]
  dsimp only
  rw [hfault]
  rfl

theorem tokenize_append_lineEnd_openComment :
    let a := Utf8.encode "q 3 w % wide"
    let page : Interpreter ℚ := .ofPage .empty .standard
    Uncut (K := ℚ) (ofBytes a) ∧
      tokenize (K := ℚ) (a ++ 13 :: Utf8.encode "Q") =
        [.operator "q", .number 3, .operator "w", .operator "Q"] ∧
      (Interpreter.execute .standard (tokenize (a ++ 13 :: Utf8.encode "Q")) page).state.stack =
        page.stack := by
  intro a page
  have ha : Uncut (K := ℚ) (ofBytes a) := by
    unfold Uncut
    decide +kernel
  have hfault : (Interpreter.execute .standard (tokenize a) page).fault = none := by decide +kernel
  obtain ⟨htokens, hrun⟩ := tokenize_append_lineEnd (.inr rfl) ha (Utf8.encode "Q")
  refine ⟨ha, htokens.trans (by decide +kernel), ?_⟩
  rw [hrun .standard page hfault]
  decide +kernel

end ContentStream
