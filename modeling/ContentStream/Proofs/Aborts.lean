import Mathlib
import ContentStream.Interpreter.Abort
import ContentStream.Proofs.Encounters

set_option autoImplicit false

namespace ContentStream
variable {K : Type}

namespace Interpreter
variable {options : Options K}

theorem maskGroup?_eq_some_iff {s : Interpreter K} {g : SoftMaskGroup K} :
    s.maskGroup? options = some g ↔ SetsMask options s g := by
  unfold maskGroup?
  split
  · rename_i hdeep
    refine ⟨fun h => absurd h (by simp), fun h => absurd h.shallow (Nat.not_lt.2 hdeep)⟩
  · rename_i hshallow
    constructor
    · intro h
      split at h
      · rename_i e hentry
        obtain ⟨name, hname, he⟩ := Option.bind_eq_some_iff.1 hentry
        obtain rfl := Option.some.inj h
        exact ⟨⟨name, _, hname, he, rfl⟩, Nat.not_le.1 hshallow⟩
      · exact absurd h (by simp)
    · rintro ⟨⟨name, e, hname, he, hg⟩, -⟩
      obtain ⟨_, _, _, _, _, _, _, _, mask⟩ := e
      obtain rfl := hg
      simp only [hname, Option.bind_some, he]

theorem drawnForm?_eq_some_iff {s : Interpreter K} {name : String} {form : FormXObject K} :
    s.drawnForm? options = some (name, form) ↔ DrawsForm options s name form := by
  unfold drawnForm?
  rw [Option.bind_eq_some_iff]
  constructor
  · rintro ⟨name', hname, h⟩
    split at h
    · rename_i form' hentry
      split at h
      · exact absurd h (by simp)
      · rename_i hdraws
        simp only [Bool.or_eq_true, List.contains_iff_mem, decide_eq_true_eq, not_or] at hdraws
        obtain ⟨rfl, rfl⟩ := Prod.mk.inj (Option.some.inj h)
        exact ⟨hname, hentry, hdraws.1, Nat.not_le.1 hdraws.2⟩
    · exact absurd h (by simp)
  · intro h
    refine ⟨name, h.operand, ?_⟩
    have hdraws : ¬ (s.formStack.contains name ||
        decide (options.maxFormDepth ≤ s.formStack.length)) = true := by
      simp only [Bool.or_eq_true, List.contains_iff_mem, decide_eq_true_eq, not_or]
      exact ⟨h.fresh, Nat.not_le.2 h.shallow⟩
    simp only [h.entry]
    rw [if_neg hdraws]

variable [Scalar K]

section Steps
variable {inside : List (Token K) → Interpreter K → Bool} {s : Interpreter K} {t : Token K}

theorem stepAborts_extGState :
    s.stepAborts inside options (.operator "gs") = true ↔ ∃ g, SetsMask options s g ∧
      (inside (tokenize g.content) (ofGroup g.resources (s.maskDepth + 1)) = true ∨
        g.evaluationAborts options (s.maskDepth + 1) = true) := by
  have hop : Operator.ofName? "gs" = some .extGState := rfl
  simp only [stepAborts, hop, Option.any_eq_true, maskGroup?_eq_some_iff, Bool.or_eq_true]

theorem stepAborts_paintXObject :
    s.stepAborts inside options (.operator "Do") = true ↔ ∃ name form,
      DrawsForm options s name form ∧
        inside (tokenize form.content) (s.cleared.enterForm name form) = true := by
  have hop : Operator.ofName? "Do" = some .paintXObject := rfl
  simp only [stepAborts, hop, Option.any_eq_true, Prod.exists, drawnForm?_eq_some_iff]
  rfl

theorem stepAborts_other (hgs : t ≠ .operator "gs") (hdo : t ≠ .operator "Do") :
    s.stepAborts inside options t = true ↔ ∃ name op, t = .operator name ∧
      Operator.ofName? name = some op ∧ s.cleared.applyAborts options op s.operands = true := by
  cases t with
  | operator name =>
    simp only [Token.operator.injEq, exists_and_left, exists_eq_left']
    cases hop : Operator.ofName? name with
    | none => simp [stepAborts, hop]
    | some op =>
      have hext : op ≠ .extGState := by
        rintro rfl
        exact hgs (congrArg _ (Operator.ofName?_inj hop rfl))
      have hpaint : op ≠ .paintXObject := by
        rintro rfl
        exact hdo (congrArg _ (Operator.ofName?_inj hop rfl))
      simp only [stepAborts, hop, Option.some.injEq, exists_eq_left']
      rfl
  | _ => simp [stepAborts]

theorem enters_extGState_iff {us : List (Token K)} {v : Interpreter K} :
    Enters options s (.operator "gs") us v ↔ ∃ g, SetsMask options s g ∧
      us = tokenize g.content ∧ v = ofGroup g.resources (s.maskDepth + 1) := by
  constructor
  · intro h
    generalize ht : (.operator "gs" : Token K) = t at h
    cases h with
    | form => exact absurd (Token.operator.inj ht) (by decide)
    | group hsets => exact ⟨_, hsets, rfl, rfl⟩
  · rintro ⟨g, hsets, rfl, rfl⟩
    exact .group hsets

theorem enters_paintXObject_iff {us : List (Token K)} {v : Interpreter K} :
    Enters options s (.operator "Do") us v ↔ ∃ name form, DrawsForm options s name form ∧
      us = tokenize form.content ∧ v = s.cleared.enterForm name form := by
  constructor
  · intro h
    generalize ht : (.operator "Do" : Token K) = t at h
    cases h with
    | form hdraws => exact ⟨_, _, hdraws, rfl, rfl⟩
    | group => exact absurd (Token.operator.inj ht) (by decide)
  · rintro ⟨name, form, hdraws, rfl, rfl⟩
    exact .form hdraws

/-- The token aborts and no nested content does. -/
inductive AbortsAt (options : Options K) (s : Interpreter K) : Token K → Prop
  | mask {g : SoftMaskGroup K} (hsets : SetsMask options s g)
      (h : g.evaluationAborts options (s.maskDepth + 1) = true) :
      AbortsAt options s (.operator "gs")
  | apply {name : String} {op : Operator} (hop : Operator.ofName? name = some op)
      (h : s.cleared.applyAborts options op s.operands = true) :
      AbortsAt options s (.operator name)

theorem stepAborts_iff :
    s.stepAborts inside options t = true ↔
      AbortsAt options s t ∨ ∃ us v, Enters options s t us v ∧ inside us v = true := by
  by_cases hgs : t = .operator "gs"
  · subst hgs
    rw [stepAborts_extGState]
    constructor
    · rintro ⟨g, hsets, h | h⟩
      · exact .inr ⟨_, _, .group hsets, h⟩
      · exact .inl (.mask hsets h)
    · rintro (haborts | ⟨us, v, henters, h⟩)
      · cases haborts with
        | mask hsets h => exact ⟨_, hsets, .inr h⟩
        | apply hop h =>
          obtain rfl := Option.some.inj hop
          exact absurd h Bool.false_ne_true
      · obtain ⟨g, hsets, rfl, rfl⟩ := enters_extGState_iff.1 henters
        exact ⟨g, hsets, .inl h⟩
  by_cases hdo : t = .operator "Do"
  · subst hdo
    rw [stepAborts_paintXObject]
    constructor
    · rintro ⟨name, form, hdraws, h⟩
      exact .inr ⟨_, _, .form hdraws, h⟩
    · rintro (haborts | ⟨us, v, henters, h⟩)
      · generalize ht : (.operator "Do" : Token K) = t at haborts
        cases haborts with
        | mask => exact absurd (Token.operator.inj ht) (by decide)
        | apply hop h =>
          obtain rfl := Token.operator.inj ht
          obtain rfl := Option.some.inj hop
          exact absurd h Bool.false_ne_true
      · obtain ⟨name, form, hdraws, rfl, rfl⟩ := enters_paintXObject_iff.1 henters
        exact ⟨name, form, hdraws, h⟩
  have hnone : ¬ ∃ us v, Enters options s t us v ∧ inside us v = true := by
    rintro ⟨us, v, henters, -⟩
    cases henters with
    | form => exact hdo rfl
    | group => exact hgs rfl
  rw [or_iff_left hnone, stepAborts_other hgs hdo]
  constructor
  · rintro ⟨name, op, rfl, hop, h⟩
    exact .apply hop h
  · intro haborts
    cases haborts with
    | mask => exact absurd rfl hgs
    | apply hop h => exact ⟨_, _, rfl, hop, h⟩

end Steps

theorem not_meets_nil {s u : Interpreter K} {t : Token K} : ¬ Meets options [] s t u := by
  intro h
  cases h with
  | content h => cases h
  | group h _ _ => cases h

theorem meets_cons_iff {t t' : Token K} {ts : List (Token K)} {s u : Interpreter K} :
    Meets options (t :: ts) s t' u ↔ (t' = t ∧ u = s) ∨
      (∃ us v, Enters options s t us v ∧ Meets options us v t' u) ∨
      (s.step (execute options) options t).fault = none ∧
        Meets options ts (s.step (execute options) options t).state t' u := by
  constructor
  · intro h
    cases h with
    | content h =>
      cases h with
      | here => exact .inl ⟨rfl, rfl⟩
      | next hok h => exact .inr (.inr ⟨hok, .content h⟩)
      | form hdraws h => exact .inr (.inl ⟨_, _, .form hdraws, .content h⟩)
    | group h hsets h' =>
      cases h with
      | here => exact .inr (.inl ⟨_, _, .group hsets, h'⟩)
      | next hok h => exact .inr (.inr ⟨hok, .group h hsets h'⟩)
      | form hdraws h => exact .inr (.inl ⟨_, _, .form hdraws, .group h hsets h'⟩)
  · rintro (⟨rfl, rfl⟩ | ⟨us, v, henters, h⟩ | ⟨hok, h⟩)
    · exact .here t' ts u
    · exact .inside henters h
    · exact .next hok h

def MeetsAbort (options : Options K) (ts : List (Token K)) (s : Interpreter K) : Prop :=
  ∃ t u, Meets options ts s t u ∧ AbortsAt options u t

theorem meetsAbort_cons_iff {t : Token K} {ts : List (Token K)} {s : Interpreter K} :
    MeetsAbort options (t :: ts) s ↔ AbortsAt options s t ∨
      (∃ us v, Enters options s t us v ∧ MeetsAbort options us v) ∨
      (s.step (execute options) options t).fault = none ∧
        MeetsAbort options ts (s.step (execute options) options t).state := by
  unfold MeetsAbort
  simp only [meets_cons_iff]
  constructor
  · rintro ⟨t', u, ⟨rfl, rfl⟩ | ⟨us, v, henters, h⟩ | ⟨hok, h⟩, haborts⟩
    · exact .inl haborts
    · exact .inr (.inl ⟨us, v, henters, t', u, h, haborts⟩)
    · exact .inr (.inr ⟨hok, t', u, h, haborts⟩)
  · rintro (haborts | ⟨us, v, henters, t', u, h, haborts⟩ | ⟨hok, t', u, h, haborts⟩)
    · exact ⟨t, s, .inl ⟨rfl, rfl⟩, haborts⟩
    · exact ⟨t', u, .inr (.inl ⟨us, v, henters, h⟩), haborts⟩
    · exact ⟨t', u, .inr (.inr ⟨hok, h⟩), haborts⟩

theorem abortsWith_iff {inside : List (Token K) → Interpreter K → Bool} (bound : Nat)
    (hinside : ∀ us v, v.nestingBound options < bound →
      (inside us v = true ↔ MeetsAbort options us v))
    (ts : List (Token K)) (s : Interpreter K) (hs : s.nestingBound options ≤ bound) :
    abortsWith inside options ts s = true ↔ MeetsAbort options ts s := by
  induction ts generalizing s with
  | nil =>
    refine ⟨fun h => absurd h Bool.false_ne_true, ?_⟩
    rintro ⟨t, u, h, -⟩
    exact absurd h not_meets_nil
  | cons t ts ih =>
    have hnext := (step_sameContext options t s).levelsBelow options.maxMaskDepth
      options.maxFormDepth
    have hentered : (∃ us v, Enters options s t us v ∧ inside us v = true) ↔
        ∃ us v, Enters options s t us v ∧ MeetsAbort options us v := by
      refine exists_congr fun us => exists_congr fun v => and_congr_right fun henters => ?_
      exact hinside us v (henters.nestingBound_lt.trans_le hs)
    simp only [abortsWith, Bool.or_eq_true, Bool.and_eq_true, Option.isNone_iff_eq_none]
    rw [meetsAbort_cons_iff, stepAborts_iff, hentered, ih _ (hnext.trans_le hs), or_assoc]

theorem abortsWithin_iff (levels : Nat) (ts : List (Token K)) (s : Interpreter K)
    (hs : s.nestingBound options ≤ levels) :
    abortsWithin options levels ts s = true ↔ MeetsAbort options ts s := by
  induction levels generalizing ts s with
  | zero => exact abortsWith_iff 0 (fun _ _ h => absurd h (Nat.not_lt_zero _)) ts s hs
  | succ levels ih =>
    exact abortsWith_iff (levels + 1) (fun us v h => ih us v (Nat.le_of_lt_succ h)) ts s hs

theorem aborts_iff (options : Options K) (ts : List (Token K)) (s : Interpreter K) :
    aborts options ts s = true ↔ MeetsAbort options ts s :=
  abortsWithin_iff _ ts s le_rfl

theorem execute?_eq_none_iff {ts : List (Token K)} {s : Interpreter K} :
    execute? options ts s = none ↔ MeetsAbort options ts s := by
  rw [← aborts_iff]
  simp [execute?]

theorem execute?_eq_some_iff {ts : List (Token K)} {s : Interpreter K} {r : Outcome K} :
    execute? options ts s = some r ↔ ¬ MeetsAbort options ts s ∧ execute options ts s = r := by
  rw [← aborts_iff]
  simp [execute?]

end Interpreter
end ContentStream
