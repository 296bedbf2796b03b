import Mathlib
import ContentStream.Proofs.ParameterRules

set_option autoImplicit false

namespace ContentStream
variable {K : Type}

namespace ColorSpace

/-- All profiles in the space declare as many components as their alternates have. -/
def alternatesFit : ColorSpace → Bool
  | iccVia n s => s.componentCount == n && s.alternatesFit
  | patternOver s => s.alternatesFit
  | _ => true

theorem length_initialComponents [Scalar K] {s : ColorSpace} (h : s.alternatesFit = true) :
    (s.initialComponents : List K).length = s.componentCount := by
  induction s with
  | gray | rgb | cmyk | pattern => rfl
  | icc n =>
    by_cases hn : n = 4
    · subst hn
      rfl
    · simp [initialComponents, componentCount, hn]
  | iccVia n s ih =>
    simp only [alternatesFit, Bool.and_eq_true, beq_iff_eq] at h
    exact (ih h.2).trans h.1
  | patternOver s _ => exact List.length_replicate

theorem componentCount_ofComponentCount? {n : ℕ} {s : ColorSpace}
    (h : ofComponentCount? n = some s) : s.componentCount = n ∧ s.isPattern = false := by
  unfold ofComponentCount? at h
  split at h
  case h_4 => exact absurd h (by simp)
  all_goals
    obtain rfl := Option.some.inj h
    exact ⟨rfl, rfl⟩

end ColorSpace

namespace Color

def Admits (c : Color K) (pattern : Option String) : Prop :=
  pattern.isSome = true → c.space.isPattern = true

/-- A colour that is no pattern has as many components as its space. -/
def Fits (c : Color K) : Prop :=
  c.space.isPattern = false → c.components.length = c.space.componentCount

theorem admits_none (c : Color K) : c.Admits none := nofun

theorem Admits.withComponents {c : Color K} {p : Option String} (h : c.Admits p)
    (args : Operand.Stack K) :
    (c.withComponents p args).1.Admits (c.withComponents p args).2 := by
  unfold Color.withComponents
  cases hpattern : c.space.isPattern with
  | true =>
    rcases Operand.popName args with ⟨_ | name, rest⟩
    · exact h
    · exact fun _ => hpattern
  | false =>
    -- Without a pattern space there is no pattern, whichever space is chosen next.
    have hnone : p = none := by
      cases p with
      | none => rfl
      | some name => exact absurd (h rfl) (by simp [hpattern])
    subst hnone
    simp only [Bool.false_eq_true, if_false]
    split
    · exact admits_none c
    · split
      · exact admits_none _
      · split
        · exact admits_none _
        · exact admits_none c

theorem Fits.withComponents {c : Color K} (h : c.Fits) (p : Option String)
    (args : Operand.Stack K) : (c.withComponents p args).1.Fits := by
  unfold Color.withComponents
  cases hpattern : c.space.isPattern with
  | true =>
    rcases Operand.popName args with ⟨_ | name, rest⟩
    · exact h
    · exact fun hspace => absurd hpattern (by simpa using hspace)
  | false =>
    simp only [Bool.false_eq_true, if_false]
    split
    · exact h
    · split
      · exact fun _ => ‹_›
      · split
        · exact fun _ => (ColorSpace.componentCount_ofComponentCount? ‹_›).1.symm
        · exact h

end Color

theorem Resources.alternatesFit_resolveColorSpace {r : Resources K}
    (hspaces : ∀ name space, r.colorSpace? name = some space → space.alternatesFit = true)
    (name : String) : (r.resolveColorSpace name).alternatesFit = true := by
  unfold Resources.resolveColorSpace
  split
  · rename_i space hdevice
    unfold ColorSpace.ofDeviceName? at hdevice
    split_ifs at hdevice <;> obtain rfl := Option.some.inj hdevice <;> rfl
  · cases hentry : r.colorSpace? name with
    | none => rfl
    | some space => exact hspaces name space hentry

section Recolors
variable [Scalar K] {r : Resources K} {args : Operand.Stack K} {taken : List K}
  {c c' : Color K} {p p' : Option String}

theorem Recolors.admits (h : Recolors r args taken c p c' p') (hc : c.Admits p) :
    c'.Admits p' := by
  cases h with
  | keep => exact hc
  | device | select => exact Color.admits_none _
  | components => exact hc.withComponents args

theorem Recolors.fits
    (hspaces : ∀ name space, r.colorSpace? name = some space → space.alternatesFit = true)
    (h : Recolors r args taken c p c' p') (hc : c.Fits) : c'.Fits := by
  cases h with
  | keep => exact hc
  | device _ hcount _ => exact fun _ => hcount
  | select name =>
    intro _
    have hfit := Resources.alternatesFit_resolveColorSpace hspaces name
    exact ColorSpace.length_initialComponents hfit
  | components => exact hc.withComponents p args

end Recolors

namespace GraphicsState

structure PatternsAdmitted (g : GraphicsState K) : Prop where
  fill : g.fillColor.Admits g.fillPattern
  stroke : g.strokeColor.Admits g.strokePattern

structure ColorsFit (g : GraphicsState K) : Prop where
  fill : g.fillColor.Fits
  stroke : g.strokeColor.Fits

variable [Scalar K]

theorem length_resize (components : List K) (n : ℕ) : (resize components n).length = n := by
  simp only [resize, List.length_append, List.length_take, List.length_replicate]
  omega

theorem fits_clearFillPattern {g : GraphicsState K} (h : g.fillColor.Fits) :
    g.clearFillPattern.fillColor.Fits := by
  unfold clearFillPattern
  dsimp only
  split
  · exact fun _ => length_resize _ _
  · exact fun _ => length_resize _ _
  · exact h

theorem patternsAdmitted_respected (root : Resources K) :
    Respected root (fun _ _ _ => True) (fun _ => True) (PatternsAdmitted (K := K)) where
  initial := ⟨Color.admits_none _, Color.admits_none _⟩
  same hsame hg := by
    refine ⟨?_, ?_⟩
    · rw [hsame.fillColor, hsame.fillPattern]
      exact hg.fill
    · rw [hsame.strokeColor, hsame.strokePattern]
      exact hg.stroke
  clear hg := ⟨Color.admits_none _, hg.stroke⟩
  write _ _ hwrites hg := ⟨hwrites.fill.admits hg.fill, hwrites.stroke.admits hg.stroke⟩
  extGState _ hg := ⟨hg.fill, hg.stroke⟩

theorem colorsFit_respected {root : Resources K}
    (hspaces : ∀ r name space, root.Nests r → r.colorSpace? name = some space →
      space.alternatesFit = true) :
    Respected root (fun _ _ _ => True) (fun _ => True) (ColorsFit (K := K)) where
  initial := ⟨fun _ => rfl, fun _ => rfl⟩
  same hsame hg := by
    refine ⟨?_, ?_⟩
    · rw [hsame.fillColor]
      exact hg.fill
    · rw [hsame.strokeColor]
      exact hg.stroke
  clear hg := ⟨fits_clearFillPattern hg.fill, hg.stroke⟩
  write hnests _ hwrites hg :=
    ⟨hwrites.fill.fits (fun name space => hspaces _ name space hnests) hg.fill,
      hwrites.stroke.fits (fun name space => hspaces _ name space hnests) hg.stroke⟩
  extGState _ hg := ⟨hg.fill, hg.stroke⟩

end GraphicsState

namespace Interpreter
variable [Scalar K]

/-- Wherever a run comes, inside forms and soft mask groups too, each state on the stack and the
state of each element has a pattern only where the colour is one of a pattern space. Where the
alternates of all colour spaces in the resources fit, every other colour has as many components as
its space. -/
theorem comesTo_colors (options : Options K) {resources : Resources K}
    {start u : Interpreter K} (hstart : Starts options resources start) {ts : List (Token K)}
    (h : ComesTo options ts start u) :
    ((∀ g ∈ u.stack.states, g.PatternsAdmitted) ∧
      (∀ e ∈ u.elements.toList, e.state.PatternsAdmitted) ∧
      ∀ e ∈ u.finish, e.state.PatternsAdmitted) ∧
    ((∀ r name space, resources.Nests r → r.colorSpace? name = some space →
        space.alternatesFit = true) →
      (∀ g ∈ u.stack.states, g.ColorsFit) ∧ (∀ e ∈ u.elements.toList, e.state.ColorsFit) ∧
      ∀ e ∈ u.finish, e.state.ColorsFit) := by
  refine ⟨?_, fun hspaces => ?_⟩
  · exact (GraphicsState.patternsAdmitted_respected resources).always (fun _ _ _ _ _ => trivial)
      hstart h
  · exact (GraphicsState.colorsFit_respected hspaces).always (fun _ _ _ _ _ => trivial) hstart h

/-- The first colour of a space has the components of the alternate. -/
example : (Color.initial (.iccVia 3 .cmyk) : Color ℚ).components.length = 4 := rfl

def profiledTable : Resources ℚ :=
  let form : FormXObject ℚ :=
    ⟨⟨0, 0, 9, 9⟩, .identity,
      some { Resources.empty with colorSpaces := [("Ink", .iccVia 1 .gray)] },
      Utf8.encode "/Ink cs 0 0 1 1 re f"⟩
  { Resources.empty with
    colorSpaces := [("Ink", .iccVia 4 .cmyk), ("Spot", .patternOver (.iccVia 3 .rgb))]
    xObjects := [("F", .form form)] }

theorem comesTo_colors_profiledTable :
    let ts := tokenize (Utf8.encode
      "q /Spot CS 1 0 1 /P SCN q /Spot cs /P sc /Ink cs 1 0 sc q 0.5 sc 0 0 2 2 re B /F Do Q Q")
    let u := (execute .standard ts (.ofPage profiledTable .standard)).state
    u.stack.depth = 2 ∧ u.state.strokePattern = some "P" ∧ u.state.fillColor.space = .gray ∧
      u.elements.toList.map (fun e => e.state.fillColor) =
        [⟨.gray, [1 / 2]⟩, ⟨.iccVia 1 .gray, [0]⟩] ∧
      (∀ g ∈ u.stack.states, g.PatternsAdmitted ∧ g.ColorsFit) ∧
      ∀ e ∈ u.finish, e.state.PatternsAdmitted ∧ e.state.ColorsFit := by
  intro ts u
  have htables : ∀ t ∈ profiledTable.tables 0, ∀ entry ∈ t.2.colorSpaces,
      entry.2.alternatesFit = true := by
    decide +kernel
  have hspaces : ∀ r name space, profiledTable.Nests r → r.colorSpace? name = some space →
      space.alternatesFit = true := by
    intro r name space hr hspace
    exact hr.of_tables (P := fun space => space.alternatesFit = true) (·.colorSpaces) htables hspace
  obtain ⟨⟨hpatterns, -, hpatterns'⟩, hfit⟩ :=
    comesTo_colors .standard .page (comesTo_execute .standard ts (.ofPage profiledTable .standard))
  obtain ⟨hfit, -, hfit'⟩ := hfit hspaces
  refine ⟨by decide +kernel, by decide +kernel, by decide +kernel, by decide +kernel, ?_, ?_⟩
  · exact fun g hg => ⟨hpatterns g hg, hfit g hg⟩
  · exact fun e he => ⟨hpatterns' e he, hfit' e he⟩

end Interpreter
end ContentStream
