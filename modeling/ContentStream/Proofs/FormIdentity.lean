import Mathlib
import ContentStream.Proofs.OperandScope
import ContentStream.Proofs.Visits

set_option autoImplicit false

/-!
# Which forms are being drawn

An interpreter remembers the forms that it is drawing by the names they were drawn under. In the
tree of resource tables a form is a key at a place, the place being the keys of the forms whose
own tables lead to it. Names and places agree as long as no table reuses a key of a table around it
and no name is written with a slash of its own.
-/
namespace ContentStream
variable {K : Type}

/-- A table with the keys of the forms, innermost first, whose own tables lead to it. -/
structure PlacedTable (K : Type) where
  place : List String
  table : Resources K

namespace PlacedTable

def entry (t : PlacedTable K) (name : String) : List String × String :=
  (t.place, Resources.key name)

def inside (t : PlacedTable K) (name : String) : PlacedTable K :=
  match t.table.xObject? name with
  | some (.form form) =>
    match form.resources with
    | some own => ⟨Resources.key name :: t.place, own⟩
    | none => t
  | _ => t

theorem table_inside {t : PlacedTable K} {name : String} {form : FormXObject K}
    (h : t.table.xObject? name = some (.form form)) :
    (t.inside name).table = form.resources.getD t.table := by
  unfold inside
  simp only [h]
  cases form.resources with
  | none => rfl
  | some own => rfl

end PlacedTable

namespace Resources

def tableInside (root : Resources K) (names : List String) : PlacedTable K :=
  names.foldr (fun name t => t.inside name) ⟨[], root⟩

def formsDrawn (root : Resources K) : List String → List (List String × String)
  | [] => []
  | name :: names => (root.tableInside names).entry name :: formsDrawn root names

/-- No table lists a form under the key of a form in a table around it. -/
def KeysApart (root : Resources K) : Prop :=
  ∀ outer inner name form form', outer <:+ inner →
    (root.tableInside outer).table.xObject? name = some (.form form) →
    (root.tableInside inner).table.xObject? name = some (.form form') →
    (root.tableInside outer).place = (root.tableInside inner).place

theorem length_formsDrawn (root : Resources K) (names : List String) :
    (root.formsDrawn names).length = names.length := by
  induction names with
  | nil => rfl
  | cons name names ih => simp only [formsDrawn, List.length_cons, ih]

theorem mem_formsDrawn {root : Resources K} {names : List String} {e : List String × String} :
    e ∈ root.formsDrawn names ↔
      ∃ name rest, name :: rest <:+ names ∧ (root.tableInside rest).entry name = e := by
  induction names with
  | nil => simp [formsDrawn]
  | cons name names ih =>
    simp only [formsDrawn, List.mem_cons, ih, List.suffix_cons_iff]
    constructor
    · rintro (rfl | ⟨name', rest, hrest, he⟩)
      · exact ⟨name, names, .inl rfl, rfl⟩
      · exact ⟨name', rest, .inr hrest, he⟩
    · rintro ⟨name', rest, hrest | hrest, he⟩
      · obtain ⟨rfl, rfl⟩ := List.cons.inj hrest
        exact .inl he.symm
      · exact .inr ⟨name', rest, hrest, he⟩

theorem mem_iff_exists_suffix {name : String} {names : List String} :
    name ∈ names ↔ ∃ rest, name :: rest <:+ names := by
  constructor
  · intro h
    obtain ⟨before, rest, rfl⟩ := List.append_of_mem h
    exact ⟨rest, List.suffix_append before _⟩
  · rintro ⟨rest, h⟩
    exact h.subset List.mem_cons_self

end Resources

/-- Whether the token, if it is a name, is written without a slash of its own. -/
def Token.isPlain : Token K → Bool
  | .name text => Resources.key text == text
  | _ => true

def NamesPlainly (ts : List (Token K)) : Prop := ∀ t ∈ ts, t.isPlain = true

theorem NamesPlainly.key_eq {ts : List (Token K)} (h : NamesPlainly ts) {name : String}
    (hname : Token.name name ∈ ts) : Resources.key name = name :=
  beq_iff_eq.1 (h _ hname)

def Resources.FormsNamePlainly [Scalar K] (root : Resources K) : Prop :=
  ∀ names name form, (root.tableInside names).table.xObject? name = some (.form form) →
    NamesPlainly (tokenize (K := K) form.content)

namespace Interpreter

structure DrawnFrom (root : Resources K) (s : Interpreter K) : Prop where
  table : (root.tableInside s.formStack).table = s.resources
  form : ∀ name rest, name :: rest <:+ s.formStack →
    ∃ form, (root.tableInside rest).table.xObject? name = some (.form form)
  nodup : s.formStack.Nodup

namespace DrawnFrom
variable {root : Resources K} {s t : Interpreter K}

theorem of_idle (h : s.formStack = []) : DrawnFrom s.resources s where
  table := by rw [h]; rfl
  form := by simp [h]
  nodup := by rw [h]; exact List.nodup_nil

theorem congr (h : DrawnFrom root s) (hsame : SameContext s t) : DrawnFrom root t where
  table := by rw [hsame.formStack, hsame.resources]; exact h.table
  form := by rw [hsame.formStack]; exact h.form
  nodup := by rw [hsame.formStack]; exact h.nodup

/-- The names agree with the entries they stand for, where keys are not reused and the name and
those of the forms being drawn are keys. -/
theorem mem_formStack_iff (h : DrawnFrom root s) (happart : root.KeysApart)
    (hplain : ∀ n ∈ s.formStack, Resources.key n = n) {name : String} {form : FormXObject K}
    (hname : Resources.key name = name) (hform : s.resources.xObject? name = some (.form form)) :
    name ∈ s.formStack ↔
      (root.tableInside s.formStack).entry name ∈ root.formsDrawn s.formStack := by
  rw [Resources.mem_formsDrawn, Resources.mem_iff_exists_suffix]
  constructor
  · rintro ⟨rest, hrest⟩
    obtain ⟨outer, houter⟩ := h.form name rest hrest
    have hinner : (root.tableInside s.formStack).table.xObject? name = some (.form form) := by
      rw [h.table]
      exact hform
    have hplace := happart rest s.formStack name outer form
      ((List.suffix_cons name rest).trans hrest) houter hinner
    refine ⟨name, rest, hrest, ?_⟩
    unfold PlacedTable.entry
    rw [hplace]
  · rintro ⟨name', rest, hrest, hentry⟩
    have hkey : Resources.key name' = Resources.key name := congrArg Prod.snd hentry
    have hname' : Resources.key name' = name' := hplain name' (hrest.subset List.mem_cons_self)
    obtain rfl : name' = name := by rw [← hname', hkey, hname]
    exact ⟨rest, hrest⟩

end DrawnFrom

theorem read_names {t : Token K} {s : Interpreter K} {name : String}
    (h : Operand.name name ∈ (s.read t).operands) :
    Operand.name name ∈ s.operands ∨ t = .name name := by
  have hpush : ∀ (x : Operand K) (u : Interpreter K),
      Operand.name name ∈ (u.pushOperand x).operands →
        Operand.name name ∈ u.operands ∨ x = .name name := by
    intro x u hx
    unfold pushOperand at hx
    split at hx
    · exact .inl hx
    · rcases List.mem_cons.1 hx with hx | hx
      · exact .inr hx.symm
      · exact .inl hx
  cases t with
  | operator | arrayStart => exact .inl h
  | number v => exact (hpush (.number v) s h).imp_right (by simp)
  | string bytes => exact (hpush (.string bytes) s h).imp_right (by simp)
  | name text =>
    refine (hpush (.name text) s h).imp_right ?_
    intro he
    rw [Operand.name.inj he]
  | arrayEnd =>
    change Operand.name name ∈ s.closeArray.operands at h
    unfold closeArray at h
    split at h
    · exact (hpush _ _ h).imp_right (by simp)
    · exact .inl h

theorem mem_of_popName {args : Operand.Stack K} {name : String}
    (h : (Operand.popName args).1 = some name) : Operand.name name ∈ args := by
  cases args with
  | nil => exact absurd h (by simp [Operand.popName, Operand.popAs])
  | cons x args =>
    cases x with
    | name text =>
      obtain rfl : text = name := by simpa [Operand.popName, Operand.popAs] using h
      exact List.mem_cons_self
    | _ => exact absurd h (by simp [Operand.popName, Operand.popAs])

variable [Scalar K] {options : Options K}

theorem step_names {run : Run K} {t : Token K} {s : Interpreter K} {name : String}
    (hok : (s.step run options t).fault = none)
    (h : Operand.name name ∈ (s.step run options t).state.operands) :
    Operand.name name ∈ s.operands ∨ t = .name name := by
  cases ht : t.isOperator with
  | false =>
    rw [step_operand _ options ht] at h
    exact read_names h
  | true =>
    cases t with
    | operator op =>
      rw [(stepped run options _ s).operands hok] at h
      exact absurd h List.not_mem_nil
    | _ => exact absurd ht (by simp [Token.isOperator])

theorem DrawnFrom.enterForm {root : Resources K} {s : Interpreter K} {name : String}
    {form : FormXObject K} (h : DrawnFrom root s) (hdraws : DrawsForm options s name form) :
    DrawnFrom root (s.cleared.enterForm name form) where
  table := by
    have hentry : (root.tableInside s.formStack).table.xObject? name = some (.form form) := by
      rw [h.table]
      exact hdraws.entry
    change ((root.tableInside s.formStack).inside name).table = form.resources.getD s.resources
    rw [PlacedTable.table_inside hentry, h.table]
  form := by
    intro name' rest hrest
    rcases List.suffix_cons_iff.1 hrest with hrest | hrest
    · obtain ⟨rfl, rfl⟩ := List.cons.inj hrest
      change ∃ form, (root.tableInside s.formStack).table.xObject? name' = some (.form form)
      rw [h.table]
      exact ⟨form, hdraws.entry⟩
    · exact h.form name' rest hrest
  nodup := List.nodup_cons.2 ⟨hdraws.fresh, h.nodup⟩

theorem Visits.drawnFrom {ts : List (Token K)} {s u : Interpreter K} {t : Token K}
    (h : Visits options ts s t u) {root : Resources K} (hs : DrawnFrom root s) :
    DrawnFrom root u := by
  induction h with
  | here => exact hs
  | @next t t' ts s u hok h ih =>
    have hsame := step_sameContext options t s
    exact ih (hs.congr hsame)
  | form hdraws h ih => exact ih (hs.enterForm hdraws)

theorem Visits.formStack_length {ts : List (Token K)} {s u : Interpreter K} {t : Token K}
    (h : Visits options ts s t u) (hs : s.formStack.length ≤ options.maxFormDepth) :
    u.formStack.length ≤ options.maxFormDepth := by
  induction h with
  | here => exact hs
  | @next t t' ts s u hok h ih =>
    have hsame := step_sameContext options t s
    rw [← hsame.formStack] at hs
    exact ih hs
  | form hdraws h ih => exact ih hdraws.shallow

/-- Names written as keys are all that is taken as an operand or kept as a form being drawn. -/
theorem Visits.plainNames {ts : List (Token K)} {s u : Interpreter K} {t : Token K}
    (h : Visits options ts s t u) {root : Resources K} (hs : DrawnFrom root s)
    (hforms : root.FormsNamePlainly) (hts : NamesPlainly ts)
    (hoperands : ∀ name, Operand.name name ∈ s.operands → Resources.key name = name)
    (hstack : ∀ name ∈ s.formStack, Resources.key name = name) :
    (∀ name, Operand.name name ∈ u.operands → Resources.key name = name) ∧
      ∀ name ∈ u.formStack, Resources.key name = name := by
  induction h with
  | here => exact ⟨hoperands, hstack⟩
  | @next t t' ts s u hok h ih =>
    have hsame := step_sameContext options t s
    rw [← hsame.formStack] at hstack
    refine ih (hs.congr hsame) (fun t ht => hts t (List.mem_cons_of_mem _ ht)) ?_ hstack
    intro name hname
    rcases step_names hok hname with hname | rfl
    · exact hoperands name hname
    · exact hts.key_eq List.mem_cons_self
  | @form name form t' ts s u hdraws h ih =>
    have hentry : (root.tableInside s.formStack).table.xObject? name = some (.form form) := by
      rw [hs.table]
      exact hdraws.entry
    refine ih (hs.enterForm hdraws) (hforms _ _ _ hentry) ?_ ?_
    · intro name' hname'
      exact absurd hname' List.not_mem_nil
    · intro name' hname'
      rcases List.mem_cons.1 hname' with rfl | hname'
      · exact hoperands _ (mem_of_popName hdraws.operand)
      · exact hstack name' hname'

theorem visits_append {before : List (Token K)} {s : Interpreter K}
    (h : (execute options before s).fault = none) (t : Token K) (after : List (Token K)) :
    Visits options (before ++ t :: after) s t (execute options before s).state := by
  induction before generalizing s with
  | nil =>
    rw [execute_nil]
    exact .here t after s
  | cons t' before ih =>
    cases hok : (s.step (execute options) options t').fault with
    | some fault =>
      rw [execute_cons_fault (by rw [hok]; rfl), hok] at h
      exact absurd h (by simp)
    | none =>
      rw [execute_cons_ok (Outcome.eq_ok hok)] at h ⊢
      exact .next hok (ih h)

/-- Wherever a run from a page or a group comes to a form, the content of the form runs exactly if
no form is being drawn under the same name and the limit is not reached. Below the limit this is
what the entry demands exactly if the name and the entry are both among those being drawn or both
not, as they are if all contents write names plainly and the keys of nested tables lie apart. -/
theorem execute_form_iff_not_drawn (options : Options K) {ts : List (Token K)}
    {s u : Interpreter K} {name : String} {form : FormXObject K} (hs : s.formStack = [])
    (hvisits : Visits options ts s (.operator "Do") u)
    (hname : (Operand.popName u.operands).1 = some name)
    (hform : u.resources.xObject? name = some (.form form)) :
    let here := s.resources.tableInside u.formStack
    let drawn := s.resources.formsDrawn u.formStack
    let shallow := drawn.length < options.maxFormDepth
    here.table = u.resources ∧ u.formStack.Nodup ∧ drawn.length ≤ options.maxFormDepth ∧
    (execute options [.operator "Do"] u =
      if name ∉ u.formStack ∧ shallow then
        u.cleared.afterForm
          (execute options (tokenize form.content) (u.cleared.enterForm name form))
      else .ok u.cleared) ∧
    ((name ∉ u.formStack ∧ shallow ↔ here.entry name ∉ drawn ∧ shallow) ↔
      (shallow → (name ∈ u.formStack ↔ here.entry name ∈ drawn))) ∧
    (s.operands = [] → NamesPlainly ts → s.resources.FormsNamePlainly → s.resources.KeysApart →
      (name ∈ u.formStack ↔ here.entry name ∈ drawn)) := by
  intro here drawn shallow
  have hdrawn : DrawnFrom s.resources u := hvisits.drawnFrom (.of_idle hs)
  have hlength : drawn.length = u.formStack.length := Resources.length_formsDrawn _ _
  have hdepth : u.formStack.length ≤ options.maxFormDepth := by
    refine hvisits.formStack_length ?_
    rw [hs]
    exact Nat.zero_le _
  refine ⟨hdrawn.table, hdrawn.nodup, hlength.trans_le hdepth, ?_, ?_, ?_⟩
  · have hdraws : DrawsForm options u name form ↔ name ∉ u.formStack ∧ shallow := by
      change _ ↔ _ ∧ drawn.length < _
      rw [hlength]
      exact ⟨fun h => ⟨h.fresh, h.shallow⟩, fun h => ⟨hname, hform, h.1, h.2⟩⟩
    rw [execute_singleton]
    split
    · rename_i h
      exact step_form (hdraws.2 h)
    · rename_i h
      exact step_form_skipped hname hform fun hd => h (hdraws.1 hd)
  · tauto
  · intro hoperands hts hforms happart
    have hnone : ∀ n, Operand.name n ∈ s.operands → Resources.key n = n := by simp [hoperands]
    obtain ⟨hplain, hstack⟩ := hvisits.plainNames (.of_idle hs) hforms hts hnone (by simp [hs])
    exact hdrawn.mem_formStack_iff happart hstack (hplain name (mem_of_popName hname)) hform

def callingForm (name : String) (key : Option String) : FormXObject ℚ where
  bbox := ⟨0, 0, 10, 10⟩
  matrix := .identity
  resources := key.map fun key =>
    { Resources.empty with xObjects := [(key, .form (formWith "0 0 1 1 re f"))] }
  content := Utf8.encode ("0 0 2 2 re f " ++ name ++ " Do")

def callingTable (name : String) (key : Option String) : Resources ℚ :=
  { Resources.empty with xObjects := [("F", .form (callingForm name key))] }

def callOnPage (name : String) (key : Option String) : Interpreter ℚ :=
  (Interpreter.ofPage (callingTable name key) .standard).pushOperand (.name "F")

def beforeCall (name : String) (key : Option String) : Interpreter ℚ :=
  (execute .standard (tokenize (Utf8.encode ("0 0 2 2 re f " ++ name)))
    ((callOnPage name key).cleared.enterForm "F" (callingForm name key))).state

theorem visits_beforeCall (name : String) (key : Option String)
    (hcontent : tokenize (K := ℚ) (callingForm name key).content =
      tokenize (Utf8.encode ("0 0 2 2 re f " ++ name)) ++ [.operator "Do"])
    (hfault : (execute .standard (tokenize (Utf8.encode ("0 0 2 2 re f " ++ name)))
      ((callOnPage name key).cleared.enterForm "F" (callingForm name key))).fault = none) :
    Visits .standard [.name "F", .operator "Do"] (.ofPage (callingTable name key) .standard)
      (.operator "Do") (beforeCall name key) := by
  have hdraws : DrawsForm .standard (callOnPage name key) "F" (callingForm name key) :=
    ⟨rfl, rfl, List.not_mem_nil, Nat.zero_lt_succ 15⟩
  refine .next rfl (.form hdraws ?_)
  rw [hcontent]
  exact visits_append hfault _ _

theorem xObject?_singleton (key name : String) (x : XObject ℚ) :
    ({ Resources.empty with xObjects := [(key, x)] } : Resources ℚ).xObject? name =
      if Resources.key name = key then some x else none := by
  change List.lookup (Resources.key name) [(key, x)] = _
  by_cases h : Resources.key name = key
  · rw [h, if_pos rfl, List.lookup_cons_self]
  · rw [if_neg h, List.lookup_cons, beq_eq_false_iff_ne.2 h]
    rfl

section Nested

def squareTable : PlacedTable ℚ :=
  ⟨["F"], { Resources.empty with xObjects := [("G", .form (formWith "0 0 1 1 re f"))] }⟩

theorem form_callingTable {names : List String} {name : String} {form : FormXObject ℚ}
    (h : ((callingTable "/G" (some "G")).tableInside names).table.xObject? name =
      some (.form form)) :
    (((callingTable "/G" (some "G")).tableInside names).place = [] ∧ Resources.key name = "F" ∧
      form = callingForm "/G" (some "G")) ∨
    (((callingTable "/G" (some "G")).tableInside names).place = ["F"] ∧ Resources.key name = "G" ∧
      form = formWith "0 0 1 1 re f") := by
  have htable : ∀ names, (callingTable "/G" (some "G")).tableInside names =
        ⟨[], callingTable "/G" (some "G")⟩ ∨
      (callingTable "/G" (some "G")).tableInside names = squareTable := by
    intro names
    induction names with
    | nil => exact .inl rfl
    | cons name names ih =>
      change ((callingTable "/G" (some "G")).tableInside names).inside name = _ ∨
        ((callingTable "/G" (some "G")).tableInside names).inside name = _
      rcases ih with ih | ih
      · rw [ih]
        simp only [PlacedTable.inside, callingTable, xObject?_singleton]
        split_ifs with hname
        · exact .inr (by simp [callingForm, squareTable, hname])
        · exact .inl rfl
      · rw [ih]
        simp only [PlacedTable.inside, squareTable, xObject?_singleton]
        split_ifs
        · exact .inr rfl
        · exact .inr rfl
  rcases htable names with hnames | hnames
  · rw [hnames] at h ⊢
    simp only [callingTable, xObject?_singleton] at h
    split_ifs at h with hname
    exact .inl ⟨rfl, hname, by simpa using h.symm⟩
  · rw [hnames] at h ⊢
    simp only [squareTable, xObject?_singleton] at h
    split_ifs at h with hname
    exact .inr ⟨rfl, hname, by simpa using h.symm⟩

theorem keysApart_callingTable : (callingTable "/G" (some "G")).KeysApart := by
  intro outer inner name form form' _ houter hinner
  rcases form_callingTable houter with ⟨ho, hkey, -⟩ | ⟨ho, hkey, -⟩
  · rcases form_callingTable hinner with ⟨hi, -⟩ | ⟨-, hkey', -⟩
    · rw [ho, hi]
    · exact absurd (hkey.symm.trans hkey') (by decide)
  · rcases form_callingTable hinner with ⟨-, hkey', -⟩ | ⟨hi, -⟩
    · exact absurd (hkey.symm.trans hkey') (by decide)
    · rw [ho, hi]

theorem formsNamePlainly_callingTable : (callingTable "/G" (some "G")).FormsNamePlainly := by
  intro names name form h
  rcases form_callingTable h with ⟨-, -, rfl⟩ | ⟨-, -, rfl⟩
  · unfold NamesPlainly
    decide +kernel
  · unfold NamesPlainly
    decide +kernel

end Nested

/-- A form of a nested table is drawn inside the form that brings the table. -/
theorem execute_form_iff_not_drawn_nested :
    let u := beforeCall "/G" (some "G")
    let square := formWith "0 0 1 1 re f"
    execute .standard [.operator "Do"] u =
        u.cleared.afterForm
          (execute .standard (tokenize square.content) (u.cleared.enterForm "G" square)) ∧
      ("G" ∈ u.formStack ↔ (["F"], "G") ∈ [(([] : List String), "F")]) := by
  intro u square
  have hvisits := visits_beforeCall "/G" (some "G") (by decide +kernel)
    (by decide +kernel)
  have hstack : u.formStack = ["F"] := by decide +kernel
  have hform : u.resources.xObject? "G" = some (.form square) := by
    rw [← (hvisits.drawnFrom (.of_idle rfl)).table, hstack]
    rfl
  have h := execute_form_iff_not_drawn .standard rfl hvisits (by decide +kernel) hform
  obtain ⟨-, -, -, hexecute, -, hiff⟩ := h
  rw [hstack] at hexecute hiff ⊢
  refine ⟨hexecute.trans (if_pos ⟨by decide, by decide⟩), ?_⟩
  have hpage : NamesPlainly [Token.name "F", Token.operator (K := ℚ) "Do"] := by
    unfold NamesPlainly
    decide
  exact hiff rfl hpage formsNamePlainly_callingTable keysApart_callingTable

/-- A form of a nested table is passed over for its name, and a form that is being drawn is drawn
again under another name. -/
theorem execute_form_by_name :
    (let u := beforeCall "/F" (some "F")
     let root := callingTable "/F" (some "F")
     Visits .standard [.name "F", .operator "Do"] (.ofPage root .standard) (.operator "Do") u ∧
     (Operand.popName u.operands).1 = some "F" ∧
     u.resources.xObject? "F" = some (.form (formWith "0 0 1 1 re f")) ∧
     (root.tableInside u.formStack).entry "F" ∉ root.formsDrawn u.formStack ∧
     u.formStack.length < (Options.standard (K := ℚ)).maxFormDepth ∧
     execute .standard [.operator "Do"] u = .ok u.cleared) ∧
    (let u := beforeCall "/#2FF" none
     let root := callingTable "/#2FF" none
     Visits .standard [.name "F", .operator "Do"] (.ofPage root .standard) (.operator "Do") u ∧
     (Operand.popName u.operands).1 = some "/F" ∧
     u.resources.xObject? "/F" = some (.form (callingForm "/#2FF" none)) ∧
     (root.tableInside u.formStack).entry "/F" ∈ root.formsDrawn u.formStack ∧
     (execute .standard [.operator "Do"] u).state.elements.size = u.elements.size + 1) := by
  have hskipped := visits_beforeCall "/F" (some "F") (by decide +kernel)
    (by decide +kernel)
  have hrepeated := visits_beforeCall "/#2FF" none (by decide +kernel)
    (by decide +kernel)
  have hstack : (beforeCall "/F" (some "F")).formStack = ["F"] := by decide +kernel
  have hstack' : (beforeCall "/#2FF" none).formStack = ["F"] := by decide +kernel
  have hform : (beforeCall "/F" (some "F")).resources.xObject? "F" =
      some (.form (formWith "0 0 1 1 re f")) := by
    rw [← (hskipped.drawnFrom (.of_idle rfl)).table, hstack]
    rfl
  have hform' : (beforeCall "/#2FF" none).resources.xObject? "/F" =
      some (.form (callingForm "/#2FF" none)) := by
    rw [← (hrepeated.drawnFrom (.of_idle rfl)).table, hstack']
    rfl
  have hname : (Operand.popName (beforeCall "/F" (some "F")).operands).1 = some "F" := by
    decide +kernel
  refine ⟨⟨hskipped, hname, hform, ?_, ?_, ?_⟩, hrepeated, ?_, hform', ?_, ?_⟩
  · rw [hstack]
    decide
  · rw [hstack]
    decide
  · rw [execute_singleton]
    refine step_form_skipped hname hform fun hdraws => hdraws.fresh ?_
    rw [hstack]
    exact List.mem_cons_self
  · decide +kernel
  · rw [hstack']
    decide
  · decide +kernel

end Interpreter
end ContentStream
