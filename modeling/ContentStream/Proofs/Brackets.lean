import Mathlib
import ContentStream.Proofs.InlinedForms

set_option autoImplicit false

namespace ContentStream
variable {K : Type}

def Token.saves : Token K → Bool
  | .operator text => text == "q"
  | _ => false

def Token.restores : Token K → Bool
  | .operator text => text == "Q"
  | _ => false

/-- No beginning of the content restores more often than it saves, and all of it restores as often
as it saves. -/
structure Balanced (ts : List (Token K)) : Prop where
  covered : ∀ us, us <+: ts → us.countP Token.restores ≤ us.countP Token.saves
  even : ts.countP Token.restores = ts.countP Token.saves

instance (ts : List (Token K)) : Decidable (Balanced ts) :=
  decidable_of_iff
    ((∀ us ∈ ts.inits, us.countP Token.restores ≤ us.countP Token.saves) ∧
      ts.countP Token.restores = ts.countP Token.saves)
    ⟨fun ⟨hcovered, heven⟩ => ⟨fun us hus => hcovered us ((List.mem_inits us ts).2 hus), heven⟩,
      fun h => ⟨fun us hus => h.covered us ((List.mem_inits us ts).1 hus), h.even⟩⟩

theorem ownSaves?_eq_some_iff {n m : ℕ} {t : Token K} : ownSaves? n t = some m ↔
    m + [t].countP Token.restores = n + [t].countP Token.saves := by
  rw [List.countP_singleton, List.countP_singleton]
  cases t with
  | operator name =>
    by_cases hsave : name = "q"
    · subst hsave
      simp [ownSaves?, Token.saves, Token.restores, eq_comm (a := m)]
    by_cases hrestore : name = "Q"
    · subst hrestore
      cases n <;> simp [ownSaves?, Token.saves, Token.restores, eq_comm (a := m)]
    simp [ownSaves?, Token.saves, Token.restores, hsave, hrestore, eq_comm (a := m)]
  | _ => simp [ownSaves?, Token.saves, Token.restores, eq_comm (a := m)]

theorem foldlM_ownSaves?_of_covered {ts : List (Token K)} {n m : ℕ}
    (hcovered : ∀ us, us <+: ts → us.countP Token.restores ≤ n + us.countP Token.saves)
    (hend : m + ts.countP Token.restores = n + ts.countP Token.saves) :
    ts.foldlM ownSaves? n = some m := by
  induction ts generalizing n with
  | nil =>
    obtain rfl : m = n := hend
    rfl
  | cons t ts ih =>
    -- The first token alone is a beginning, so it restores only what has been saved.
    have hfirst := hcovered [t] ⟨ts, rfl⟩
    obtain ⟨k, hk⟩ := Nat.exists_eq_add_of_le' hfirst
    have hstep : ownSaves? n t = some k := ownSaves?_eq_some_iff.2 hk.symm
    rw [List.foldlM_cons, hstep]
    rw [← List.singleton_append, List.countP_append, List.countP_append] at hend
    refine ih ?_ (by omega)
    intro us hus
    have hmore := hcovered (t :: us) (List.prefix_cons_inj t |>.2 hus)
    rw [← List.singleton_append, List.countP_append, List.countP_append] at hmore
    omega

theorem Balanced.ownSaves {ts : List (Token K)} (h : Balanced ts) :
    ts.foldlM ownSaves? 0 = some 0 :=
  foldlM_ownSaves?_of_covered (by simpa using h.covered) (by simpa using h.even)

namespace Interpreter
variable [Scalar K] {options : Options K}

theorem saved_of_balanced {ts : List (Token K)} (hplain : ∀ t ∈ ts, t ≠ .operator "Do")
    (hbalanced : Balanced ts) {s : Interpreter K} (hok : (execute options ts s).fault = none) :
    (execute options ts s).state.stack.saved = s.stack.saved :=
  saved_of_ownSaves hplain hbalanced.ownSaves hok

/-- Between a save and a restore content runs on the state that it would run on without them. -/
theorem execute_bracket (ts : List (Token K)) (s : Interpreter K) :
    execute options (.operator "q" :: ts ++ [.operator "Q"]) s =
      let inside := execute options ts { s.cleared with stack := s.stack.push }
      if inside.fault.isSome then inside
      else .ok { inside.state.cleared with stack := inside.state.stack.pop } := by
  have hsave : Operator.ofName? "q" = some .save := rfl
  have hrestore : Operator.ofName? "Q" = some .restore := rfl
  rw [List.cons_append, execute_operator hsave (by decide) (by decide), execute_append]
  dsimp only
  rw [execute_operator hrestore (by decide) (by decide), execute_nil]
  rfl

/-- Balanced content that draws no entry leaves the saved states as they are, from every state.
Between a save and a restore it leaves the whole stack as it is, the current state included. The
bracket ends in a fault only if the content does. -/
theorem execute_balanced_stack (options : Options K) {ts : List (Token K)}
    (hplain : ∀ t ∈ ts, t ≠ .operator "Do") (hbalanced : Balanced ts) (s : Interpreter K) :
    ((execute options ts s).fault = none →
      (execute options ts s).state.stack.saved = s.stack.saved) ∧
    (let inside := execute options ts { s.cleared with stack := s.stack.push }
     let bracket := execute options (.operator "q" :: ts ++ [.operator "Q"]) s
     bracket.fault = inside.fault ∧ (inside.fault = none → bracket.state.stack = s.stack)) := by
  refine ⟨saved_of_balanced hplain hbalanced, ?_⟩
  intro inside bracket
  have hbracket : bracket = if inside.fault.isSome then inside
      else .ok { inside.state.cleared with stack := inside.state.stack.pop } :=
    execute_bracket ts s
  cases hfault : inside.fault with
  | some fault =>
    rw [hbracket, hfault]
    exact ⟨hfault, nofun⟩
  | none =>
    have hsaved : inside.state.stack.saved = s.stack.states :=
      saved_of_balanced hplain hbalanced hfault
    rw [hbracket, hfault]
    exact ⟨rfl, fun _ => StateStack.pop_of_saved hsaved⟩

def thickLines : ExtGState ℚ :=
  { ExtGState.empty with lineWidth := some 9, dash := some ([2, 1], 0), fillAlpha := some (1 / 2) }

/-- Content that restores once within a saved state and once to its own beginning, and that changes
the state in every way in between. -/
theorem execute_balanced_stack_nested :
    let resources : Resources ℚ := { Resources.empty with extGStates := [("G", thickLines)] }
    let s := (execute .standard [.operator "q", .number 3, .operator "w", .name "left"]
      (.ofPage resources .standard)).state
    let ts := tokenize (Utf8.encode
      "7 w q 2 0 0 2 1 1 cm 0 0 4 4 re W n q /G gs 1 0 0 rg Q 5 Tc Q BT /Pattern cs ET 0 0 m S")
    let bracket := execute .standard (.operator "q" :: ts ++ [.operator "Q"]) s
    Balanced ts ∧ (execute .standard ts s).state.state ≠ s.state ∧
      (execute .standard ts s).state.stack.saved = s.stack.saved ∧
      bracket.fault = none ∧ bracket.state.stack = s.stack := by
  intro resources s ts bracket
  have hplain : ∀ t ∈ ts, t ≠ .operator "Do" := by decide +kernel
  have hbalanced : Balanced ts := by decide +kernel
  obtain ⟨hsaved, hfault, hstack⟩ := execute_balanced_stack .standard hplain hbalanced s
  have hinside : (execute .standard ts { s.cleared with stack := s.stack.push }).fault = none :=
    Option.isNone_iff_eq_none.1 (by decide +kernel)
  refine ⟨hbalanced, by decide +kernel, hsaved ?_, hfault.trans hinside, hstack hinside⟩
  exact Option.isNone_iff_eq_none.1 (by decide +kernel)

end Interpreter
end ContentStream
