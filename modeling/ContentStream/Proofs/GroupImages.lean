import Mathlib
import ContentStream.Proofs.ExactArithmetic
import ContentStream.Proofs.ResourceTree
import ContentStream.Proofs.Visits

set_option autoImplicit false

namespace ContentStream
variable {K : Type}

def Resources.image? (r : Resources K) (name : String) : Option ImageXObject :=
  match r.xObject? name with
  | some (.image i) => some i
  | _ => none

/-- The entry whose pixels compositing takes for an element. -/
def SoftMaskGroup.source? (g : SoftMaskGroup K) : Element K → Option ImageXObject
  | .image e => g.resources.image? e.name
  | _ => none

theorem key_withoutSlashes (name : String) :
    Resources.key (Interpreter.withoutSlashes name) = Interpreter.withoutSlashes name := by
  unfold Resources.key Interpreter.withoutSlashes
  split
  · rename_i cs hcs
    rw [String.toList_ofList] at hcs
    have hslash := List.head?_dropWhile_not (· == '/') name.toList
    rw [hcs] at hslash
    simp at hslash
  · rfl

theorem Interpreter.DrawsImage.image? {u : Interpreter K} {name : String} {i : ImageXObject}
    (h : Interpreter.DrawsImage u name i)
    (hname : Resources.key name = Interpreter.withoutSlashes name) :
    u.resources.image? (Interpreter.withoutSlashes name) = some i := by
  have hfind :
      u.resources.xObject? (Interpreter.withoutSlashes name) = u.resources.xObject? name := by
    unfold Resources.xObject? Resources.find?
    rw [key_withoutSlashes, hname]
  unfold Resources.image?
  rw [hfind, h.entry]

theorem Interpreter.Resolved.sources_eq_iff {Drawn : Element K → ImageXObject → Prop}
    {l : List (Element K × Option ImageXObject)} (g : SoftMaskGroup K)
    (h : Resolved Drawn l) :
    (l.map Prod.fst).map (fun e => (e, g.source? e)) = l ↔
      ∀ e i, Drawn e i → g.source? e = some i := by
  rw [List.map_map]
  constructor
  · intro heq e i hdrawn
    have hmem : (e, some i) ∈ l := (h.image e i).2 hdrawn
    rw [← heq] at hmem
    obtain ⟨p, -, hp⟩ := List.mem_map.1 hmem
    obtain ⟨he, hi⟩ := Prod.mk.inj hp
    rw [← he]
    exact hi
  · intro hsource
    refine (List.map_congr_left ?_).trans (List.map_id l)
    rintro ⟨e, o⟩ hmem
    cases o with
    | some i =>
      have hi : g.source? e = some i := hsource e i ((h.image e i).1 hmem)
      exact congrArg (e, ·) hi
    | none =>
      have hnone : g.source? e = none := by
        cases e with
        | image e => exact absurd rfl (h.other _ hmem e)
        | _ => rfl
      exact congrArg (e, ·) hnone

def Element.mapState (f : GraphicsState K → GraphicsState K) : Element K → Element K
  | path e => path { e with state := f e.state }
  | text e => text { e with state := f e.state }
  | image e => image { e with state := f e.state }
  | raster e => raster { e with state := f e.state }

theorem Element.state_mapState (f : GraphicsState K → GraphicsState K) (e : Element K) :
    (e.mapState f).state = f e.state := by
  cases e <;> rfl

variable [Scalar K]

namespace Layer

def ofSource? (options : Options K) :
    Element K × Option ImageXObject → Except (Fault K) (Option (Layer K))
  | (.image e, some i) =>
    match i.decode options.jpx with
    | .error fault => .error fault
    | .ok image => (ofImage image e.state.ctm e.state.fillAlpha).map some
  | (e, _) => ofElement? .empty options e

def cons (layer : Except (Fault K) (Option (Layer K))) (state : GraphicsState K)
    (layers : Except (Fault K) (List (Layer K × GraphicsState K))) :
    Except (Fault K) (List (Layer K × GraphicsState K)) :=
  match layer with
  | .error fault => .error fault
  | .ok layer =>
    match layers with
    | .error fault => .error fault
    | .ok layers =>
      match layer with
      | none => .ok layers
      | some l => .ok ((l, state) :: layers)

def ofSources (options : Options K) (es : List (Element K × Option ImageXObject)) :
    Except (Fault K) (List (Layer K × GraphicsState K)) :=
  es.foldr (fun e layers => cons (ofSource? options e) e.1.state layers) (.ok [])

theorem ofElements_cons (resources : Resources K) (options : Options K) (e : Element K)
    (es : List (Element K)) :
    ofElements resources options (e :: es) =
      cons (ofElement? resources options e) e.state (ofElements resources options es) := rfl

section Elements
variable {resources : Resources K} {options : Options K}

theorem ofElements_cons_eq_ok_iff {e : Element K} {es : List (Element K)}
    {layers : List (Layer K × GraphicsState K)} :
    ofElements resources options (e :: es) = .ok layers ↔
      ∃ layer rest, ofElement? resources options e = .ok layer ∧
        ofElements resources options es = .ok rest ∧
        layers = (layer.map fun l => (l, e.state)).toList ++ rest := by
  rw [ofElements_cons]
  unfold cons
  cases ofElement? resources options e with
  | error fault => simp
  | ok layer =>
    cases ofElements resources options es with
    | error fault => simp
    | ok rest => cases layer <;> simp [eq_comm]

theorem mem_ofElements {es : List (Element K)} {layers : List (Layer K × GraphicsState K)}
    (h : ofElements resources options es = .ok layers) {l : Layer K × GraphicsState K}
    (hl : l ∈ layers) : ∃ e ∈ es, ofElement? resources options e = .ok (some l.1) ∧
      l.2 = e.state := by
  induction es generalizing layers with
  | nil =>
    obtain rfl := Except.ok.inj h
    exact absurd hl List.not_mem_nil
  | cons e es ih =>
    obtain ⟨layer, rest, hlayer, hrest, rfl⟩ := ofElements_cons_eq_ok_iff.1 h
    rcases List.mem_append.1 hl with hfirst | hl
    · obtain ⟨first, rfl, rfl⟩ := Option.map_eq_some_iff.1 (Option.mem_toList.1 hfirst)
      exact ⟨e, List.mem_cons_self, hlayer, rfl⟩
    · obtain ⟨e', he', hfrom⟩ := ih hrest hl
      exact ⟨e', List.mem_cons_of_mem _ he', hfrom⟩

theorem ofElements_mapState {f : GraphicsState K → GraphicsState K}
    {F : GraphicsState K → Layer K → Layer K} {es : List (Element K)}
    (h : ∀ e ∈ es, ofElement? resources options (e.mapState f) =
      (ofElement? resources options e).map (Option.map (F e.state))) :
    ofElements resources options (es.map (Element.mapState f)) =
      (ofElements resources options es).map (List.map fun l => (F l.2 l.1, f l.2)) := by
  induction es with
  | nil => rfl
  | cons e es ih =>
    rw [List.map_cons, ofElements_cons, ofElements_cons, h e List.mem_cons_self,
      ih fun e' he' => h e' (List.mem_cons_of_mem _ he'), Element.state_mapState]
    unfold cons
    cases ofElement? resources options e with
    | error fault => rfl
    | ok layer =>
      cases ofElements resources options es with
      | error fault => rfl
      | ok layers => cases layer <;> rfl

end Elements

theorem ofElement?_eq_ofSource? (g : SoftMaskGroup K) (options : Options K) (e : Element K) :
    ofElement? g.resources options e = ofSource? options (e, g.source? e) := by
  cases e with
  | image e =>
    change (match g.resources.xObject? e.name with
      | some (.image i) => _
      | _ => _) = ofSource? options (.image e, g.resources.image? e.name)
    unfold Resources.image?
    split
    · rfl
    · rfl
  | path | text | raster => rfl

/-- What compositing takes from the resources of the group is the entries of its images. -/
theorem ofElements_eq_ofSources (g : SoftMaskGroup K) (options : Options K)
    (es : List (Element K)) :
    ofElements g.resources options es =
      ofSources options (es.map fun e => (e, g.source? e)) := by
  induction es with
  | nil => rfl
  | cons e es ih =>
    rw [ofElements_cons, ofElement?_eq_ofSource?, ih, List.map_cons]
    exact List.foldr_cons.symm

end Layer

namespace Interpreter
variable {options : Options K}

theorem Visits.resources {ts : List (Token K)} {s u : Interpreter K} {t : Token K}
    (h : Visits options ts s t u)
    (hforms : s.resources.AllForms fun f => f.resources = none) : u.resources = s.resources := by
  induction h with
  | here => rfl
  | @next t t' ts s u hok h ih =>
    have hsame := step_sameContext options t s
    rw [← hsame.resources] at hforms ⊢
    exact ih hforms
  | @form name form t' ts s u hdraws h ih =>
    have hnone : form.resources = none := hforms.entry hdraws.entry
    have hinside : (s.cleared.enterForm name form).resources = s.resources := by
      change form.resources.getD s.resources = s.resources
      rw [hnone]
      rfl
    rw [hinside] at ih
    exact ih hforms

end Interpreter

/-- Compositing takes each image of a group from the entry that was in force where it was drawn,
exactly if the group lists that entry under the name of the element. It does if no form has
resources of its own, and no name more slashes before it than one. -/
theorem SoftMaskGroup.sources_eq_resolved_iff (options : Options K) (g : SoftMaskGroup K)
    (depth : Nat) :
    let start := Interpreter.ofGroup g.resources depth
    let ts := tokenize g.content
    let drawn := (Interpreter.execute options ts start).state.finish
    let sources := drawn.map fun e => (e, g.source? e)
    Layer.ofElements g.resources options drawn = Layer.ofSources options sources ∧
    ∃ resolved, Interpreter.Resolved (Interpreter.Draws options ts start) resolved ∧
      resolved.map Prod.fst = drawn ∧
      (sources = resolved ↔ ∀ u name i, Interpreter.Visits options ts start (.operator "Do") u →
        Interpreter.DrawsImage u name i →
          g.resources.image? (Interpreter.withoutSlashes name) = some i) ∧
      ((g.resources.AllForms fun f => f.resources = none) →
        (∀ u name i, Interpreter.Visits options ts start (.operator "Do") u →
          Interpreter.DrawsImage u name i →
            Resources.key name = Interpreter.withoutSlashes name) →
        sources = resolved) := by
  intro start ts drawn sources
  refine ⟨Layer.ofElements_eq_ofSources g options drawn, ?_⟩
  obtain ⟨l, hl, helements⟩ := Interpreter.execute_resolved options ts start
  obtain ⟨es, hes, htext⟩ :=
    (Interpreter.endOpenText_changes (Interpreter.execute options ts start).state).elements
  have hresolved : Interpreter.Resolved (Interpreter.Draws options ts start)
      (l ++ es.map fun e => (e, none)) :=
    (hl.append (.of_elements hes)).congr (by simp)
  have hdrawn : (l ++ es.map fun e => (e, none)).map Prod.fst = drawn := by
    change _ = (Interpreter.execute options ts start).state.endOpenText.elements.toList
    rw [htext, helements, List.map_append, List.map_map]
    change l.map Prod.fst ++ es.map id = [] ++ l.map Prod.fst ++ es
    rw [List.map_id, List.nil_append]
  have hiff : sources = (l ++ es.map fun e => (e, none)) ↔
      ∀ u name i, Interpreter.Visits options ts start (.operator "Do") u →
        Interpreter.DrawsImage u name i →
          g.resources.image? (Interpreter.withoutSlashes name) = some i := by
    change drawn.map _ = _ ↔ _
    rw [← hdrawn, hresolved.sources_eq_iff g]
    constructor
    · intro h u name i hvisits himage
      exact h _ i ⟨u, name, hvisits, himage, rfl⟩
    · rintro h e i ⟨u, name, hvisits, himage, rfl⟩
      exact h u name i hvisits himage
  refine ⟨_, hresolved, hdrawn, hiff, ?_⟩
  intro hforms hnames
  refine hiff.2 ?_
  intro u name i hvisits himage
  have hsame : u.resources = g.resources := hvisits.resources hforms
  rw [← hsame]
  exact himage.image? (hnames u name i hvisits himage)

def imageForm (i : ImageXObject) : FormXObject ℚ where
  bbox := ⟨0, 0, 10, 10⟩
  matrix := .identity
  resources := some { Resources.empty with xObjects := [("I", .image i)] }
  content := Utf8.encode "/I Do"

def imageFormGroup (i : ImageXObject) : SoftMaskGroup ℚ where
  kind := .alpha
  bbox := ⟨0, 0, 10, 10⟩
  matrix := .identity
  resources := { Resources.empty with xObjects := [("F", .form (imageForm i))] }
  content := Utf8.encode "/F Do"
  knockout := false
  isolated := false
  backdrop := none
  colorSpace := none

deriving instance DecidableEq for MaskValue

/-- The image can be decoded and is found where it is drawn, but not when it is composited. -/
theorem imageFormGroup_missingKey :
    let i : ImageXObject := ⟨1, 1, 8, .gray, .none, #[128], none⟩
    let g := imageFormGroup i
    (∃ u, Interpreter.Visits .standard (tokenize g.content) (.ofGroup g.resources 1)
      (.operator "Do") u ∧ Interpreter.DrawsImage u "I" i) ∧
    (i.decode (K := ℚ) none).toOption.isSome ∧
    g.evaluate .standard .identity 1 = .error (.missingKey "I") := by
  intro i g
  refine ⟨?_, by decide +kernel, by decide +kernel⟩
  let before := (Interpreter.ofGroup g.resources 1).pushOperand (.name "F")
  let inside := before.cleared.enterForm "F" (imageForm i)
  have hdraws : Interpreter.DrawsForm .standard before "F" (imageForm i) :=
    ⟨rfl, rfl, List.not_mem_nil, by decide⟩
  have hinside : Interpreter.Visits .standard (tokenize (imageForm i).content) inside
      (.operator "Do") (inside.pushOperand (.name "I")) := by
    have hcontent : tokenize (K := ℚ) (imageForm i).content = [.name "I", .operator "Do"] := by
      decide +kernel
    rw [hcontent]
    exact .next rfl (.here _ _ _)
  have hcontent : tokenize (K := ℚ) g.content = [.name "F", .operator "Do"] := by
    decide +kernel
  rw [hcontent]
  exact ⟨_, .next rfl (.form hdraws hinside), rfl, rfl⟩

end ContentStream
