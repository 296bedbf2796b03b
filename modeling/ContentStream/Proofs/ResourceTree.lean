import Mathlib
import ContentStream.Resources

set_option autoImplicit false

/-!
# Nested resource tables

The tables that the forms of a table bring into force, and the forms found on the way. All tables of
the tree are listed with the number of soft mask groups that they lie in.
-/
namespace ContentStream
variable {K : Type}

mutual

/-- The table and all tables inside it, those of forms and of soft mask groups. Each is listed with
its level, which is that of the table around it for a form and one more for a group. -/
def Resources.tables (level : Nat) : Resources K → List (Nat × Resources K)
  | r@⟨_, extGStates, _, _, _, xObjects⟩ =>
    (level, r) :: (tablesOfEntries level extGStates ++ tablesOfXObjects level xObjects)

def ExtGState.tables (level : Nat) : ExtGState K → List (Nat × Resources K)
  | ⟨_, _, _, _, _, _, _, _, some (.group ⟨_, _, _, own, _, _, _, _, _⟩)⟩ => own.tables (level + 1)
  | _ => []

def XObject.tables (level : Nat) : XObject K → List (Nat × Resources K)
  | .form ⟨_, _, some own, _⟩ => own.tables level
  | _ => []

def tablesOfEntries (level : Nat) : List (String × ExtGState K) → List (Nat × Resources K)
  | [] => []
  | (_, e) :: rest => e.tables level ++ tablesOfEntries level rest

def tablesOfXObjects (level : Nat) : List (String × XObject K) → List (Nat × Resources K)
  | [] => []
  | (_, x) :: rest => x.tables level ++ tablesOfXObjects level rest

end

theorem tablesOfEntries_eq (level : Nat) (l : List (String × ExtGState K)) :
    tablesOfEntries level l = l.flatMap fun e => e.2.tables level := by
  induction l with
  | nil => rfl
  | cons e rest ih => rw [tablesOfEntries, ih, List.flatMap_cons]

theorem tablesOfXObjects_eq (level : Nat) (l : List (String × XObject K)) :
    tablesOfXObjects level l = l.flatMap fun x => x.2.tables level := by
  induction l with
  | nil => rfl
  | cons x rest ih => rw [tablesOfXObjects, ih, List.flatMap_cons]

namespace Resources

theorem tables_eq (level : Nat) (r : Resources K) :
    r.tables level = (level, r) :: (r.extGStates.flatMap (fun e => e.2.tables level) ++
      r.xObjects.flatMap fun x => x.2.tables level) := by
  rw [← tablesOfEntries_eq, ← tablesOfXObjects_eq]
  cases r
  rfl

theorem mem_tables_self (level : Nat) (r : Resources K) : (level, r) ∈ r.tables level := by
  rw [tables_eq]
  exact List.mem_cons_self

def groupDepth (r : Resources K) : Nat := (r.tables 0).foldr (fun t depth => max t.1 depth) 0

theorem level_le_groupDepth {r t : Resources K} {level : Nat} (h : (level, t) ∈ r.tables 0) :
    level ≤ r.groupDepth := by
  unfold groupDepth
  generalize r.tables 0 = tables at h
  induction tables with
  | nil => exact absurd h List.not_mem_nil
  | cons t' rest ih =>
    rw [List.foldr_cons]
    rcases List.mem_cons.1 h with rfl | h
    · exact le_max_left _ _
    · exact (ih h).trans (le_max_right _ _)

theorem mem_of_find? {α : Type} {table : List (String × α)} {name : String} {x : α}
    (h : find? table name = some x) : (key name, x) ∈ table := by
  obtain ⟨before, after, htable, -⟩ := List.lookup_eq_some_iff.1 h
  rw [htable]
  exact List.mem_append_right _ List.mem_cons_self

theorem tables_subset_of_form {r own : Resources K} {name : String} {form : FormXObject K}
    (h : r.xObject? name = some (.form form)) (hown : form.resources = some own) (level : Nat) :
    own.tables level ⊆ r.tables level := by
  have hform : own.tables level = (XObject.form form).tables level := by
    cases form
    subst hown
    rfl
  intro t ht
  rw [hform] at ht
  rw [tables_eq]
  refine List.mem_cons_of_mem _ (List.mem_append_right _ (List.mem_flatMap.2 ?_))
  exact ⟨_, mem_of_find? h, ht⟩

theorem tables_subset_of_group {r : Resources K} {name : String} {e : ExtGState K}
    {g : SoftMaskGroup K} (h : r.extGState? name = some e) (hgroup : e.softMask = some (.group g))
    (level : Nat) : g.resources.tables (level + 1) ⊆ r.tables level := by
  have hentry : g.resources.tables (level + 1) = e.tables level := by
    cases e
    cases g
    subst hgroup
    rfl
  intro t ht
  rw [hentry] at ht
  rw [tables_eq]
  refine List.mem_cons_of_mem _ (List.mem_append_left _ (List.mem_flatMap.2 ?_))
  exact ⟨_, mem_of_find? h, ht⟩

inductive Reaches : Resources K → Resources K → Prop
  | refl (r : Resources K) : Reaches r r
  | own {r s t : Resources K} {name : String} {form : FormXObject K} (h : Reaches r s)
      (hform : s.xObject? name = some (.form form)) (hown : form.resources = some t) : Reaches r t

theorem Reaches.trans {r s t : Resources K} (h : Reaches r s) (h' : Reaches s t) :
    Reaches r t := by
  induction h' with
  | refl => exact h
  | own _ hform hown ih => exact .own ih hform hown

theorem reaches_inside {r : Resources K} {name : String} {form : FormXObject K}
    (h : r.xObject? name = some (.form form)) : Reaches r (form.resources.getD r) := by
  cases hown : form.resources with
  | none => exact .refl r
  | some t => exact .own (.refl r) h hown

/-- Every form that can be drawn from a table has the property. -/
def AllForms (P : FormXObject K → Prop) (r : Resources K) : Prop :=
  ∀ s name form, Reaches r s → s.xObject? name = some (.form form) → P form

namespace AllForms
variable {P : FormXObject K → Prop} {r : Resources K} {name : String} {form : FormXObject K}

theorem entry (h : AllForms P r) (hform : r.xObject? name = some (.form form)) : P form :=
  h r name form (.refl r) hform

theorem inside (h : AllForms P r) (hform : r.xObject? name = some (.form form)) :
    AllForms P (form.resources.getD r) := by
  intro s name' form' hs hform'
  exact h s name' form' ((reaches_inside hform).trans hs) hform'

end AllForms
end Resources
end ContentStream
