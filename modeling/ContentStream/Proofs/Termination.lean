import Mathlib
import ContentStream.Proofs.FormIdentity
import ContentStream.Proofs.Invariants
import ContentStream.Proofs.NestedMasks

set_option autoImplicit false

/-!
# Nesting comes to an end

Content that is entered is not smaller than the content around it: a form may use the table that is
in force and draw itself under another spelling of its name. What becomes less is what can still be
entered. The names of forms that are being drawn are distinct, and the tree of tables spells only so
many. A soft mask group lies deeper in the tree than the group around it. So content nests to a
depth that the tree gives, even where the options set no limit that is reached.
-/
namespace ContentStream
variable {K : Type}

def Token.name? : Token K → Option String
  | .name text => some text
  | _ => none

namespace Resources

def forms (r : Resources K) : List (String × FormXObject K) :=
  r.xObjects.filterMap fun
    | (key, .form form) => some (key, form)
    | _ => none

def groups (r : Resources K) : List (SoftMaskGroup K) :=
  r.extGStates.filterMap fun (_, e) =>
    match e.softMask with
    | some (.group g) => some g
    | _ => none

def contents (r : Resources K) : List (List UInt8) :=
  (r.tables 0).flatMap fun t =>
    t.2.forms.map (fun f => f.2.content) ++ t.2.groups.map SoftMaskGroup.content

def formKeys (r : Resources K) : List String :=
  (r.tables 0).flatMap fun t => t.2.forms.map Prod.fst

def spelledNames [Scalar K] (r : Resources K) (ts : List (Token K)) : List String :=
  (ts ++ r.contents.flatMap tokenize).filterMap Token.name?

def formSpellings [Scalar K] (r : Resources K) (ts : List (Token K)) : List String :=
  ((r.spelledNames ts).filter fun name => key name ∈ r.formKeys).dedup

theorem mem_forms {r : Resources K} {name : String} {form : FormXObject K}
    (h : r.xObject? name = some (.form form)) : (key name, form) ∈ r.forms :=
  List.mem_filterMap.2 ⟨_, mem_of_find? h, rfl⟩

theorem mem_groups {r : Resources K} {name : String} {e : ExtGState K} {g : SoftMaskGroup K}
    (h : r.extGState? name = some e) (hgroup : e.softMask = some (.group g)) : g ∈ r.groups := by
  refine List.mem_filterMap.2 ⟨_, mem_of_find? h, ?_⟩
  dsimp only
  rw [hgroup]

end Resources

namespace Interpreter
variable [Scalar K]

/-- The tokens come to an end with the outcome, if `Inner` says to what outcomes content comes that
they enter. -/
inductive Evaluates (options : Options K)
    (Inner : List (Token K) → Interpreter K → Outcome K → Prop) :
    List (Token K) → Interpreter K → Outcome K → Prop
  | nil (s : Interpreter K) : Evaluates options Inner [] s (.ok s)
  | stop {run : Run K} {t : Token K} {s : Interpreter K}
      (hinside : ∀ us u, Enters options s t us u → Inner us u (run us u))
      (hfault : (s.step run options t).fault.isSome) (ts : List (Token K)) :
      Evaluates options Inner (t :: ts) s (s.step run options t)
  | next {run : Run K} {t : Token K} {ts : List (Token K)} {s : Interpreter K} {r : Outcome K}
      (hinside : ∀ us u, Enters options s t us u → Inner us u (run us u))
      (hok : (s.step run options t).fault = none)
      (hrest : Evaluates options Inner ts (s.step run options t).state r) :
      Evaluates options Inner (t :: ts) s r

/-- The tokens come to an end with the outcome, and the content that they enter nests no deeper than
the number of levels. -/
def Completes (options : Options K) : Nat → List (Token K) → Interpreter K → Outcome K → Prop
  | 0 => Evaluates options fun _ _ _ => False
  | levels + 1 => Evaluates options (Completes options levels)

variable {options : Options K} {root : Resources K} {page : List (Token K)}

theorem Evaluates.eq_execute {Inner : List (Token K) → Interpreter K → Outcome K → Prop}
    (hinner : ∀ us u r, Inner us u r → r = execute options us u) {ts : List (Token K)}
    {s : Interpreter K} {r : Outcome K} (h : Evaluates options Inner ts s r) :
    r = execute options ts s := by
  have hstep : ∀ {run : Run K} {t : Token K} {s : Interpreter K},
      (∀ us u, Enters options s t us u → Inner us u (run us u)) →
        s.step run options t = s.step (execute options) options t := by
    intro run t s hinside
    exact step_congr t s fun us u henters => hinner _ _ _ (hinside us u henters)
  induction h with
  | nil s => exact (execute_nil options s).symm
  | stop hinside hfault ts =>
    rw [hstep hinside] at hfault ⊢
    exact (execute_cons_fault hfault ts).symm
  | @next _ _ ts _ _ hinside hok _ ih =>
    rw [hstep hinside] at hok ih
    rw [execute_cons_ok (Outcome.eq_ok hok) ts]
    exact ih

theorem Completes.eq_execute {levels : Nat} {ts : List (Token K)} {s : Interpreter K}
    {r : Outcome K} (h : Completes options levels ts s r) : r = execute options ts s := by
  induction levels generalizing ts s r with
  | zero => exact Evaluates.eq_execute (fun _ _ _ => False.elim) h
  | succ levels ih => exact Evaluates.eq_execute (fun _ _ _ => ih) h

/-- How deep content can nest from here, by the options and by the tree. -/
def levelsLeft (options : Options K) (root : Resources K) (page : List (Token K))
    (s : Interpreter K) : Nat :=
  s.levelsBelow (min options.maxMaskDepth root.groupDepth)
    (min options.maxFormDepth (root.formSpellings page).length)

structure Confined (options : Options K) (root : Resources K) (page : List (Token K))
    (s : Interpreter K) : Prop where
  tables : s.resources.tables s.maskDepth ⊆ root.tables 0
  nodup : s.formStack.Nodup
  spelled : s.formStack ⊆ root.formSpellings page
  forms : s.formStack.length ≤ options.maxFormDepth
  masks : s.maskDepth ≤ options.maxMaskDepth

structure Spelled (root : Resources K) (page ts : List (Token K)) (s : Interpreter K) : Prop where
  tokens : ts.filterMap Token.name? ⊆ root.spelledNames page
  operands : ∀ name, Operand.name name ∈ s.operands → name ∈ root.spelledNames page

theorem Spelled.of_content {c : List UInt8} (hc : c ∈ root.contents) {s : Interpreter K}
    (hs : s.operands = []) : Spelled root page (tokenize c) s where
  tokens := by
    refine List.filterMap_subset _ fun t ht => List.mem_append_right _ ?_
    exact List.mem_flatMap.2 ⟨c, hc, ht⟩
  operands := by simp [hs]

theorem Spelled.next {t : Token K} {ts : List (Token K)} {s : Interpreter K}
    (h : Spelled root page (t :: ts) s) (hok : (s.step (execute options) options t).fault = none) :
    Spelled root page ts (s.step (execute options) options t).state where
  tokens := by
    refine List.Subset.trans ?_ h.tokens
    exact List.filterMap_subset _ (List.subset_cons_self t ts)
  operands := by
    intro name hname
    rcases step_names hok hname with hname | rfl
    · exact h.operands name hname
    · exact h.tokens List.mem_cons_self

namespace Confined
variable {s t u : Interpreter K}

theorem congr (h : Confined options root page s) (hsame : SameContext s t) :
    Confined options root page t where
  tables := by rw [hsame.resources, hsame.maskDepth]; exact h.tables
  nodup := by rw [hsame.formStack]; exact h.nodup
  spelled := by rw [hsame.formStack]; exact h.spelled
  forms := by rw [hsame.formStack]; exact h.forms
  masks := by rw [hsame.maskDepth]; exact h.masks

theorem step (h : Confined options root page s) (t : Token K) :
    Confined options root page (s.step (execute options) options t).state :=
  h.congr (step_sameContext options t s)

theorem formStack_length (h : Confined options root page s) :
    s.formStack.length ≤ min options.maxFormDepth (root.formSpellings page).length :=
  le_min h.forms (h.nodup.subperm h.spelled).length_le

theorem maskDepth (h : Confined options root page s) :
    s.maskDepth ≤ min options.maxMaskDepth root.groupDepth :=
  le_min h.masks (Resources.level_le_groupDepth (h.tables (Resources.mem_tables_self _ _)))

theorem enterForm (h : Confined options root page s) {name : String} {form : FormXObject K}
    (hdraws : DrawsForm options s name form) (hname : name ∈ root.spelledNames page) :
    Confined options root page (s.cleared.enterForm name form) ∧ form.content ∈ root.contents := by
  have htable : (s.maskDepth, s.resources) ∈ root.tables 0 :=
    h.tables (Resources.mem_tables_self _ _)
  have hform := Resources.mem_forms hdraws.entry
  have hkey : Resources.key name ∈ root.formKeys :=
    List.mem_flatMap.2 ⟨_, htable, List.mem_map.2 ⟨_, hform, rfl⟩⟩
  have hspelling : name ∈ root.formSpellings page :=
    List.mem_dedup.2 (List.mem_filter.2 ⟨hname, decide_eq_true hkey⟩)
  refine ⟨⟨?_, ?_, ?_, hdraws.shallow, h.masks⟩, ?_⟩
  · exact List.Subset.trans (Enters.form hdraws).tables_subset h.tables
  · exact List.nodup_cons.2 ⟨hdraws.fresh, h.nodup⟩
  · exact List.cons_subset.2 ⟨hspelling, h.spelled⟩
  · refine List.mem_flatMap.2 ⟨_, htable, List.mem_append_left _ ?_⟩
    exact List.mem_map.2 ⟨_, hform, rfl⟩

theorem enterGroup (h : Confined options root page s) {g : SoftMaskGroup K}
    (hsets : SetsMask options s g) :
    Confined options root page (ofGroup g.resources (s.maskDepth + 1)) ∧
      g.content ∈ root.contents := by
  obtain ⟨name, e, -, hentry, hgroup⟩ := hsets.entry
  have htable : (s.maskDepth, s.resources) ∈ root.tables 0 :=
    h.tables (Resources.mem_tables_self _ _)
  refine ⟨⟨?_, List.nodup_nil, List.nil_subset _, Nat.zero_le _, hsets.shallow⟩, ?_⟩
  · exact List.Subset.trans (Enters.group hsets).tables_subset h.tables
  · refine List.mem_flatMap.2 ⟨_, htable, List.mem_append_right _ ?_⟩
    exact List.mem_map.2 ⟨_, Resources.mem_groups hentry hgroup, rfl⟩

theorem enters (h : Confined options root page s) {t : Token K} {ts us : List (Token K)}
    (hspelled : Spelled root page ts s) (henters : Enters options s t us u) :
    Confined options root page u ∧ Spelled root page us u := by
  cases henters with
  | form hdraws =>
    have hname := hspelled.operands _ (mem_of_popName hdraws.operand)
    obtain ⟨hconfined, hcontent⟩ := h.enterForm hdraws hname
    exact ⟨hconfined, .of_content hcontent rfl⟩
  | group hsets =>
    obtain ⟨hconfined, hcontent⟩ := h.enterGroup hsets
    exact ⟨hconfined, .of_content hcontent rfl⟩

theorem comesTo {ts : List (Token K)} (hcomes : ComesTo options ts s u)
    (h : Confined options root page s) (hspelled : Spelled root page ts s) :
    Confined options root page u := by
  induction hcomes with
  | start => exact h
  | after t _ _ => exact h.step t
  | next hok _ ih => exact ih (h.step _) (hspelled.next hok)
  | form hdraws _ ih =>
    obtain ⟨hconfined, hspelled'⟩ := h.enters hspelled (.form hdraws)
    exact ih hconfined hspelled'
  | group hsets _ ih =>
    obtain ⟨hconfined, hspelled'⟩ := h.enters hspelled (.group hsets)
    exact ih hconfined hspelled'

theorem levelsLeft_lt (h : Confined options root page u) {t : Token K} {us : List (Token K)}
    (henters : Enters options s t us u) :
    u.levelsLeft options root page < s.levelsLeft options root page :=
  henters.levelsBelow_lt (.inr h.maskDepth) h.formStack_length

theorem evaluates {Inner : List (Token K) → Interpreter K → Outcome K → Prop} {bound : Nat}
    (hinner : ∀ us u, Confined options root page u → Spelled root page us u →
      u.levelsLeft options root page < bound → Inner us u (execute options us u))
    {ts : List (Token K)} (h : Confined options root page s) (hspelled : Spelled root page ts s)
    (hbound : s.levelsLeft options root page ≤ bound) :
    Evaluates options Inner ts s (execute options ts s) := by
  induction ts generalizing s with
  | nil =>
    rw [execute_nil]
    exact .nil s
  | cons t ts ih =>
    -- Fewer levels are left inside, while the tokens that follow have as many as this one.
    have hinside : ∀ us u, Enters options s t us u → Inner us u (execute options us u) := by
      intro us u henters
      obtain ⟨hconfined, hspelled'⟩ := h.enters hspelled henters
      exact hinner us u hconfined hspelled' ((hconfined.levelsLeft_lt henters).trans_le hbound)
    cases hfault : (s.step (execute options) options t).fault with
    | some fault =>
      have hstop : (s.step (execute options) options t).fault.isSome := by rw [hfault]; rfl
      rw [execute_cons_fault hstop]
      exact .stop hinside hstop ts
    | none =>
      have hsame := step_sameContext options t s
      rw [execute_cons_ok (Outcome.eq_ok hfault)]
      refine .next hinside hfault (ih (h.step t) (hspelled.next hfault) ?_)
      exact (hsame.levelsBelow _ _).trans_le hbound

theorem completes {levels : Nat} {ts : List (Token K)} (h : Confined options root page s)
    (hspelled : Spelled root page ts s) (hlevels : s.levelsLeft options root page ≤ levels) :
    Completes options levels ts s (execute options ts s) := by
  induction levels generalizing ts s with
  | zero =>
    refine evaluates ?_ h hspelled hlevels
    exact fun _ _ _ _ hless => absurd hless (Nat.not_lt_zero _)
  | succ levels ih =>
    refine evaluates ?_ h hspelled hlevels
    exact fun _ _ h' hspelled' hless => ih h' hspelled' (Nat.le_of_lt_succ hless)

end Confined

/-- A form that is being drawn has been drawn from the entry that its name had there. -/
theorem ComesTo.drawn {ts : List (Token K)} {s u : Interpreter K} (h : ComesTo options ts s u)
    {name : String} {rest : List String} (hname : name :: rest <:+ u.formStack) :
    name :: rest <:+ s.formStack ∨ ∃ v form, ComesTo options ts s v ∧ v.formStack = rest ∧
      DrawsForm options v name form ∧
      ComesTo options (tokenize form.content) (v.cleared.enterForm name form) u := by
  induction h with
  | start => exact .inl hname
  | after t _ s =>
    have hsame := step_sameContext options t s
    exact .inl (hsame.formStack ▸ hname)
  | @next t _ s _ hok _ ih =>
    have hsame := step_sameContext options t s
    rcases ih hname with hs | ⟨v, form, hcomes, hv⟩
    · exact .inl (hsame.formStack ▸ hs)
    · exact .inr ⟨v, form, .next hok hcomes, hv⟩
  | @form name' form ts s u hdraws h ih =>
    rcases ih hname with hs | ⟨v, form', hcomes, hv⟩
    -- Either this very form pushes the name, or it has been on the stack before.
    · rcases List.suffix_cons_iff.1 hs with heq | hs
      · obtain ⟨rfl, rfl⟩ := List.cons.inj heq
        exact .inr ⟨s, form, .start _ s, rfl, hdraws, h⟩
      · exact .inl hs
    · exact .inr ⟨v, form', .form hdraws hcomes, hv⟩
  | group hsets _ ih =>
    rcases ih hname with hs | ⟨v, form, hcomes, hv⟩
    · exact absurd (List.suffix_nil.1 hs) (List.cons_ne_nil _ _)
    · exact .inr ⟨v, form, .group hsets hcomes, hv⟩

/-- Every interpretation comes to an end, with one outcome. Content nests no deeper than the limits
of the options and the tree of tables allow, whichever is less: so many soft mask groups around each
other and, in each of them and on the page, so many forms. Wherever the interpretation comes
through, the names of the forms that are being drawn are distinct, and each of them has been drawn
from a form that it stood for. -/
theorem execute_completes (options : Options K) (resources : Resources K) (ts : List (Token K)) :
    let s := ofPage resources options
    let masks := min options.maxMaskDepth resources.groupDepth
    let forms := min options.maxFormDepth (resources.formSpellings ts).length
    Completes options (masks * (forms + 1) + forms) ts s (execute options ts s) ∧
    (∀ levels r, Completes options levels ts s r → r = execute options ts s) ∧
    ∀ u, ComesTo options ts s u →
      u.formStack.Nodup ∧ u.formStack ⊆ resources.formSpellings ts ∧
      u.formStack.length ≤ forms ∧ u.maskDepth ≤ masks ∧
      ∀ name rest, name :: rest <:+ u.formStack → ∃ v form, ComesTo options ts s v ∧
        v.formStack = rest ∧ DrawsForm options v name form ∧
        ComesTo options (tokenize form.content) (v.cleared.enterForm name form) u := by
  intro s masks forms
  have hconfined : Confined options resources ts s :=
    ⟨List.Subset.refl _, List.nodup_nil, List.nil_subset _, Nat.zero_le _, Nat.zero_le _⟩
  have hspelled : Spelled resources ts ts s := by
    refine ⟨List.filterMap_subset _ (List.subset_append_left _ _), ?_⟩
    intro name hname
    exact absurd hname List.not_mem_nil
  refine ⟨?_, fun _ _ => Completes.eq_execute, ?_⟩
  · exact hconfined.completes hspelled le_rfl
  · intro u hcomes
    have hu : Confined options resources ts u := .comesTo hcomes hconfined hspelled
    refine ⟨hu.nodup, hu.spelled, hu.formStack_length, hu.maskDepth, ?_⟩
    intro name rest hname
    refine (hcomes.drawn hname).resolve_left fun hs => ?_
    exact absurd (List.suffix_nil.1 hs) (List.cons_ne_nil _ _)

/-- A form that draws itself once more, under its name with a slash, and a mask that asks for
another one. The limits are far away. -/
theorem execute_completes_respelled :
    let form := formWith "/#2FF Do"
    let mask := (SoftMaskGroup.squareGroup "0 0 1 2 re f").withNested "/N gs 0 0 2 2 re f"
    let root : Resources ℚ := { Resources.empty with
      extGStates := [("M", { ExtGState.empty with softMask := some (.group mask) })]
      xObjects := [("F", .form form)] }
    let options : Options ℚ := { Options.standard with maxMaskDepth := 1000, maxFormDepth := 1000 }
    let ts := [Token.name "F", .operator "Do"]
    let s := ofPage root options
    let inside := (s.pushOperand (.name "F")).cleared.enterForm "F" form
    let u := (inside.pushOperand (.name "/F")).cleared.enterForm "/F" form
    root.groupDepth = 2 ∧ root.formSpellings ts = ["F", "/F"] ∧
      Completes options 8 ts s (execute options ts s) ∧
      ComesTo options ts s u ∧ u.formStack = ["/F", "F"] ∧
      u.formStack.length ≤ (root.formSpellings ts).length := by
  intro form mask root options ts s inside u
  have hcontent : tokenize (K := ℚ) form.content = [.name "/F", .operator "Do"] := by
    decide +kernel
  have hdepth : root.groupDepth = 2 := by decide +kernel
  have hspellings : root.formSpellings ts = ["F", "/F"] := by decide +kernel
  have houter : DrawsForm options (s.pushOperand (.name "F")) "F" form :=
    ⟨rfl, rfl, List.not_mem_nil, by decide⟩
  have hinner : DrawsForm options (inside.pushOperand (.name "/F")) "/F" form :=
    ⟨rfl, rfl, by decide, by decide⟩
  have hcomes : ComesTo options ts s u := by
    refine .next rfl (.form houter ?_)
    rw [hcontent]
    exact .next rfl (.form hinner (.start _ _))
  obtain ⟨hcompletes, -, hconfigurations⟩ := execute_completes options root ts
  rw [hdepth, hspellings] at hcompletes
  obtain ⟨-, -, hlength, -⟩ := hconfigurations u hcomes
  exact ⟨hdepth, hspellings, hcompletes, hcomes, rfl, hlength.trans (min_le_right _ _)⟩

end Interpreter
end ContentStream
