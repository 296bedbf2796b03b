import Mathlib
import ContentStream.Proofs.LexerProgress

set_option autoImplicit false

namespace ContentStream
variable {K : Type}

namespace Lexer

def startsWithMarker : List UInt8 → Bool
  | b :: e :: i :: s =>
    isBlank b && e == byte 'E' && i == byte 'I' && s.head?.all fun d => !isRegular d
  | _ => false

/-- No end marker comes before the last three bytes. -/
def EndsAtFirstMarker (s : List UInt8) : Prop :=
  ∀ t ∈ s.tails, startsWithMarker t = true → t.length = 3

instance (s : List UInt8) : Decidable (EndsAtFirstMarker s) :=
  inferInstanceAs (Decidable (∀ t ∈ s.tails, startsWithMarker t = true → t.length = 3))

theorem startsWithMarker_append {s : List UInt8} (h : 3 < s.length) (t : List UInt8) :
    startsWithMarker (s ++ t) = startsWithMarker s := by
  match s, h with
  | _ :: _ :: _ :: _ :: _, _ => rfl

theorem findImageEnd_eq (b : UInt8) (s : List UInt8) :
    findImageEnd (isBlank b) s =
      if startsWithMarker (b :: s) then s.drop 2
      else match s with
        | [] => []
        | c :: t => findImageEnd (isBlank c) t := by
  match s with
  | [] => rfl
  | [c] =>
    rw [findImageEnd.eq_def]
    simp [startsWithMarker, findImageEnd]
  | c :: d :: t =>
    rw [findImageEnd.eq_def]
    grind [startsWithMarker]

theorem findImageEnd_append {b c : UInt8} (hc : isBlank c = true) {data rest : List UInt8}
    (hfirst : EndsAtFirstMarker (b :: (data ++ [c, byte 'E', byte 'I'])))
    (hrest : rest.head?.all (fun d => !isRegular d) = true) :
    findImageEnd (isBlank b) (data ++ c :: byte 'E' :: byte 'I' :: rest) = rest := by
  induction data generalizing b with
  | nil =>
    have hne : (c == byte 'E') = false := by
      refine beq_false_of_ne ?_
      rintro rfl
      exact absurd hc (by decide)
    have hbefore : startsWithMarker (b :: c :: byte 'E' :: byte 'I' :: rest) = false := by
      simp [startsWithMarker, hne]
    have hmarker : startsWithMarker (c :: byte 'E' :: byte 'I' :: rest) = true := by
      simp [startsWithMarker, hc, hrest]
    rw [List.nil_append, findImageEnd_eq, if_neg (by simp [hbefore])]
    dsimp only
    rw [findImageEnd_eq, if_pos hmarker]
    rfl
  | cons x data ih =>
    have hlonger : 3 < (b :: (x :: data ++ [c, byte 'E', byte 'I'])).length := by
      simp only [List.length_cons, List.length_append]
      omega
    -- A marker here would be one among the data already, and not the last one.
    have hbefore : startsWithMarker (b :: (x :: data ++ c :: byte 'E' :: byte 'I' :: rest)) =
        false := by
      have hsame := startsWithMarker_append hlonger rest
      rw [List.cons_append, List.append_assoc] at hsame
      by_contra hmarker
      rw [Bool.not_eq_false] at hmarker
      have hthree := hfirst _ ((List.mem_tails _ _).2 (List.suffix_refl _)) (hsame.symm.trans hmarker)
      exact absurd hthree hlonger.ne'
    rw [List.cons_append] at hbefore ⊢
    rw [findImageEnd_eq, if_neg (by simp [hbefore])]
    refine ih fun t ht => hfirst t ?_
    exact (List.mem_tails _ _).2 (((List.mem_tails _ _).1 ht).trans (List.suffix_cons _ _))

variable [Scalar K]

theorem tokens_of_none {l : Lexer} (h : l.next (K := K) = none) : l.tokens (K := K) = [] := by
  rw [tokens, steps_of_none h]
  rfl

theorem tokens_of_some {l l' : Lexer} {r : Except (Fault K) (Token K)}
    (h : l.next = some (r, l')) : l.tokens = r.toOption.toList ++ l'.tokens := by
  unfold tokens
  rw [steps_of_some h]
  cases r <;> rfl

theorem tokens_imageData (n : Nat) (s : List UInt8) :
    tokens (K := K) ⟨n, s, true⟩ = .operator "EI" :: tokens ⟨n, afterImageData s, false⟩ := by
  have hnext : next (K := K) ⟨n, s, true⟩ =
      some (.ok (.operator "EI"), ⟨n, afterImageData s, false⟩) := rfl
  rw [tokens_of_some hnext]
  rfl

/-- The operator that begins image data is followed by the one that ends them. -/
theorem tokens_paired (l : Lexer) :
    (l.inImageData = true → ∃ after, l.tokens (K := K) = .operator "EI" :: after) ∧
      ∀ before after, l.tokens (K := K) = before ++ .operator "ID" :: after →
        ∃ rest, after = .operator "EI" :: rest := by
  induction l using steps_induction (K := K) with
  | last l h =>
    refine ⟨fun himage => ?_, fun before after hsplit => ?_⟩
    · exact absurd (himage.symm.trans ((next_eq_none_iff l).1 h).1) (by simp)
    · rw [tokens_of_none h] at hsplit
      exact absurd hsplit (by simp)
  | next l l' r h ih =>
    have hreads := reads_of_next h
    rw [tokens_of_some h]
    constructor
    · intro himage
      cases hreads with
      | imageEnd _ => exact ⟨_, rfl⟩
      | token hout | badNumber hout | unterminated hout =>
        exact absurd (himage.symm.trans hout) (by simp)
    · intro before after hsplit
      cases r with
      | error fault => exact ih.2 before after hsplit
      | ok t =>
        cases before with
        | nil =>
          obtain ⟨rfl, rfl⟩ := List.cons.inj hsplit
          exact ih.1 (hreads.inImageData_iff.2 rfl)
        | cons t' before => exact ih.2 before after (List.cons.inj hsplit).2

theorem scan_imageData {c : UInt8} (hc : isBlank c = true) (s : List UInt8) :
    Lexeme.scan (K := K) (byte 'I' :: byte 'D' :: c :: s) =
      some (.token (.operator "ID"), c :: s) := by
  have hword : Lexeme.scan (K := K) [byte 'I', byte 'D'] =
      some (.token (.operator "ID"), []) := rfl
  exact Lexeme.scan_append (separates_of_isBlank hc) hword (by simp) rfl s

end Lexer

open Lexer
variable [Scalar K]

/-- Image data never show. Every `ID` has its `EI` right behind it, and where `ID` and a space, some
data without a marker, a line end and `EI` stand between two contents, the pair is all that comes
between the tokens of the two. -/
theorem tokenize_inlineImage :
    (∀ (bytes : List UInt8) (before after : List (Token K)),
      tokenize bytes = before ++ .operator "ID" :: after →
        ∃ rest, after = .operator "EI" :: rest) ∧
    ∀ (pre data post : List UInt8) (c₁ c₂ c₃ : UInt8), isLineEnd c₁ = true → isLineEnd c₂ = true →
      isLineEnd c₃ = true → Uncut (K := K) (ofBytes pre) →
      EndsAtFirstMarker (32 :: (data ++ [c₂, byte 'E', byte 'I'])) →
      tokenize (K := K) (pre ++ c₁ :: byte 'I' :: byte 'D' :: 32 ::
          (data ++ c₂ :: byte 'E' :: byte 'I' :: c₃ :: post)) =
        tokenize pre ++ [.operator "ID", .operator "EI"] ++ tokenize post := by
  refine ⟨fun bytes => (tokens_paired (ofBytes bytes)).2, ?_⟩
  intro pre data post c₁ c₂ c₃ hc₁ hc₂ hc₃ hpre hfirst
  have hblank := isBlank_of_isLineEnd hc₁
  have hsep := separates_of_isBlank (isBlank_of_isLineEnd hc₃)
  have hafter : afterImageData (32 :: (data ++ c₂ :: byte 'E' :: byte 'I' :: c₃ :: post)) =
      c₃ :: post :=
    findImageEnd_append (b := 32) (isBlank_of_isLineEnd hc₂) hfirst (by simp [hsep.notRegular])
  have himage : tokenize (K := K) (byte 'I' :: byte 'D' :: 32 ::
      (data ++ c₂ :: byte 'E' :: byte 'I' :: c₃ :: post)) =
        .operator "ID" :: .operator "EI" :: tokenize post := by
    rw [tokenize_eq_tokens 0, tokens_token (scan_imageData rfl _)]
    change .operator "ID" :: tokens ⟨0, _, true⟩ = _
    rw [tokens_imageData, hafter, tokens_skip (Lexeme.scan_blank hsep post) (by simp),
      ← tokenize_eq_tokens]
  rw [tokenize_append_blank hblank hpre (fun _ => hc₁), himage, List.append_assoc]
  rfl

/-- Data with an open parenthesis, a comment, an `EI` before a regular byte and one after. -/
theorem tokenize_inlineImage_nearMarkers :
    let pre := Utf8.encode "q % BI"
    let data := [byte '(', 0, byte 'E', byte 'I', 255, byte 'E', byte 'I', 32, byte '%']
    EndsAtFirstMarker (32 :: (data ++ [10, byte 'E', byte 'I'])) ∧
      tokenize (K := ℚ) (pre ++ 13 :: byte 'I' :: byte 'D' :: 32 ::
          (data ++ 10 :: byte 'E' :: byte 'I' :: 13 :: Utf8.encode "Q")) =
        [.operator "q", .operator "ID", .operator "EI", .operator "Q"] ∧
      ∃ rest, [.operator "EI", .operator "Q"] = (.operator "EI" : Token ℚ) :: rest := by
  intro pre data
  have hpre : Uncut (K := ℚ) (ofBytes pre) := by
    unfold Uncut
    decide +kernel
  have hfirst : EndsAtFirstMarker (32 :: (data ++ [10, byte 'E', byte 'I'])) := by decide +kernel
  obtain ⟨hpaired, hthrough⟩ := tokenize_inlineImage (K := ℚ)
  have htokens := hthrough pre data (Utf8.encode "Q") 13 10 13 rfl rfl rfl hpre hfirst
  have hread : tokenize (K := ℚ) pre ++ [.operator "ID", .operator "EI"] ++
      tokenize (Utf8.encode "Q") =
        [.operator "q", .operator "ID", .operator "EI", .operator "Q"] := by
    decide +kernel
  exact ⟨hfirst, htokens.trans hread, hpaired _ [.operator "q"] _ (htokens.trans hread)⟩

end ContentStream
