import ContentStream.Fault
import ContentStream.Token.Lexeme

set_option autoImplicit false

/-!
# The lexer

Reads tokens one by one and knows the byte offset it has come to. The data of an inline image,
between the operators `ID` and `EI`, is passed over and not read as tokens.
-/
namespace ContentStream
variable {K : Type} [Scalar K]

/-- A place in a content stream of `size` bytes. -/
structure Lexer where
  size : Nat
  rest : List UInt8
  /-- Whether inline image data comes next. -/
  inImageData : Bool
  deriving DecidableEq

namespace Lexer

def ofBytes (bytes : List UInt8) : Lexer := ⟨bytes.length, bytes, false⟩

def position (l : Lexer) : Nat := l.size - l.rest.length

/-- What follows the first `EI` that stands after a blank and before a blank, a delimiter or the
end; `afterBlank` tells whether a blank comes before `s`. -/
def findImageEnd (afterBlank : Bool) : List UInt8 → List UInt8
  | [] => []
  | b :: s =>
    if afterBlank && b == byte 'E' then
      match s with
      | [] => []
      | c :: t =>
        if c == byte 'I' && t.head?.all (fun d => !isRegular d) then t
        else findImageEnd (isBlank b) (c :: t)
    else findImageEnd (isBlank b) s

/-- What follows inline image data, from after the operator `ID`. One blank separates the data
from the operator. -/
def afterImageData : List UInt8 → List UInt8
  | [] => []
  | b :: s => if isBlank b then findImageEnd true s else findImageEnd false (b :: s)

theorem length_findImageEnd_le (afterBlank : Bool) (s : List UInt8) :
    (findImageEnd afterBlank s).length ≤ s.length := by
  fun_induction findImageEnd afterBlank s <;> simp_all <;> omega

theorem length_afterImageData_le (s : List UInt8) : (afterImageData s).length ≤ s.length := by
  cases s with
  | nil => simp [afterImageData]
  | cons b s =>
    rw [afterImageData]
    split
    · exact Nat.le_succ_of_le (length_findImageEnd_le _ _)
    · exact length_findImageEnd_le _ _

/-- The first lexeme that is not blank, between the bytes from its beginning and the bytes after
its end. -/
def skipBlanks (s : List UInt8) : Option (List UInt8 × Lexeme K × List UInt8) :=
  match _h : Lexeme.scan (K := K) s with
  | none => none
  | some (.blank, rest) => skipBlanks rest
  | some (x, rest) => some (s, x, rest)
termination_by s.length
decreasing_by exact Lexeme.length_lt_of_scan _h

/-- The next token or fault, and the place after it. -/
def next (l : Lexer) : Option (Except (Fault K) (Token K) × Lexer) :=
  if l.inImageData then
    some (.ok (.operator "EI"), { l with rest := afterImageData l.rest, inImageData := false })
  else
    match skipBlanks (K := K) l.rest with
    | some (_, .token t, rest) =>
      let imageData := match t with
        | .operator name => name == "ID"
        | _ => false
      some (.ok t, { l with rest := rest, inImageData := imageData })
    | some (start, .badNumber, rest) =>
      some (.error (.invalidNumber (l.size - start.length)), { l with rest := rest })
    | some (_, .unterminated, rest) => some (.error .unexpectedEnd, { l with rest := rest })
    | some (_, .blank, _) => none
    | none => none

def remaining (l : Lexer) : Nat := 2 * l.rest.length + if l.inImageData then 1 else 0

theorem length_lt_of_skipBlanks {s start rest : List UInt8} {x : Lexeme K}
    (h : skipBlanks s = some (start, x, rest)) : rest.length < s.length := by
  fun_induction skipBlanks (K := K) s with
  | case1 => simp at h
  | case2 s rest' hscan ih => exact Nat.lt_trans (ih h) (Lexeme.length_lt_of_scan hscan)
  | case3 s y rest' _ hscan =>
    simp only [Option.some.injEq, Prod.mk.injEq] at h
    obtain ⟨_, _, rfl⟩ := h
    exact Lexeme.length_lt_of_scan hscan

theorem remaining_lt_of_next {l l' : Lexer} {r : Except (Fault K) (Token K)}
    (h : l.next = some (r, l')) : l'.remaining < l.remaining := by
  unfold next at h
  unfold remaining
  split at h
  · rename_i himage
    simp only [Option.some.injEq, Prod.mk.injEq] at h
    obtain ⟨_, rfl⟩ := h
    have := length_afterImageData_le l.rest
    simp only [himage, if_true, Bool.false_eq_true, if_false]
    omega
  · rename_i himage
    have bound : ∀ {start rest : List UInt8} {x : Lexeme K} (b : Bool),
        skipBlanks l.rest = some (start, x, rest) →
        2 * rest.length + (if b then 1 else 0) < 2 * l.rest.length + 0 := by
      intro start rest x b hskip
      have := length_lt_of_skipBlanks hskip
      split <;> omega
    simp only [himage, Bool.false_eq_true, if_false]
    split at h
    all_goals first
      | (simp only [Option.some.injEq, Prod.mk.injEq] at h
         obtain ⟨_, rfl⟩ := h
         exact bound _ ‹_›)
      | simp at h

def stepsFrom (acc : Array (Except (Fault K) (Token K) × Lexer)) (l : Lexer) :
    Array (Except (Fault K) (Token K) × Lexer) :=
  match _h : l.next (K := K) with
  | none => acc
  | some (r, l') => stepsFrom (acc.push (r, l')) l'
termination_by l.remaining
decreasing_by exact remaining_lt_of_next _h

def steps (l : Lexer) : List (Except (Fault K) (Token K) × Lexer) := (stepsFrom #[] l).toList

theorem stepsFrom_toList (acc : Array (Except (Fault K) (Token K) × Lexer)) (l : Lexer) :
    (stepsFrom acc l).toList = acc.toList ++ steps l := by
  generalize hn : l.remaining = n
  induction n using Nat.strongRecOn generalizing acc l with
  | _ n ih =>
    unfold steps
    rw [stepsFrom.eq_def acc l, stepsFrom.eq_def #[] l]
    split
    · simp
    · rename_i r l' h
      have hlt : l'.remaining < n := hn ▸ remaining_lt_of_next h
      rw [ih _ hlt _ _ rfl, ih _ hlt _ _ rfl]
      simp

theorem steps_eq (l : Lexer) :
    steps (K := K) l = match l.next (K := K) with
      | none => []
      | some (r, l') => (r, l') :: steps l' := by
  rw [steps, stepsFrom]
  split
  · simp [*]
  · rename_i r l' h
    simp [h, stepsFrom_toList]

end Lexer

/-- The well-formed tokens of a content stream; malformed ones are passed over. -/
def tokenize (bytes : List UInt8) : List (Token K) :=
  ((Lexer.ofBytes bytes).steps (K := K)).filterMap fun step => step.1.toOption

end ContentStream
