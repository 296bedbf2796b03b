import Mathlib
import ContentStream.Proofs.GroupImages
import ContentStream.Proofs.Invariants

set_option autoImplicit false

namespace ContentStream
variable {K : Type}

theorem Fault.isFatal_iff (fault : Fault K) :
    fault.isFatal = true ↔ ∃ name, fault = .missingDecoder name := by
  cases fault <;> simp [isFatal]

inductive ImageXObject.UsesJpx : ImageXObject → Prop
  | own {i : ImageXObject} (h : i.filter = .jpx) : UsesJpx i
  | smask {i mask : ImageXObject} (h : i.smask = some mask) (hmask : UsesJpx mask) : UsesJpx i

namespace Resources

def ListsJpx (r : Resources K) : Prop := ∃ name i, r.xObject? name = some (.image i) ∧ i.UsesJpx

/-- Some table that comes into force for content under the given one, inside forms and soft mask
groups too, lists an image that is left to a decoder from outside. -/
def NeedsDecoder (r : Resources K) : Prop := ∃ t, r.Nests t ∧ t.ListsJpx

theorem NeedsDecoder.of_nests {r s : Resources K} (h : r.Nests s) (hs : s.NeedsDecoder) :
    r.NeedsDecoder := by
  obtain ⟨t, ht, hjpx⟩ := hs
  exact ⟨t, h.trans ht, hjpx⟩

end Resources

def Recoverable {α : Type} (r : Except (Fault K) α) : Prop :=
  ∀ fault, r = .error fault → fault.isFatal = false

@[simp] theorem recoverable_ok {α : Type} (x : α) :
    Recoverable (.ok x : Except (Fault K) α) :=
  fun _ h => absurd h (by simp)

@[simp] theorem recoverable_error {α : Type} {fault : Fault K} :
    Recoverable (.error fault : Except (Fault K) α) ↔ fault.isFatal = false :=
  ⟨fun h => h fault rfl, fun h _ h' => Except.error.inj h' ▸ h⟩

variable [Scalar K] {fault : Fault K}

namespace ImageXObject
variable {jpx : Option (JpxDecoder K)} {i : ImageXObject}

theorem recoverable_decodeRaw (i : ImageXObject) : Recoverable (decodeRaw (K := K) i) := by
  unfold decodeRaw
  dsimp only
  split_ifs <;> simp [Fault.isFatal]

theorem recoverable_decodeSamples (h : i.filter ≠ .jpx) : Recoverable (decodeSamples jpx i) := by
  unfold decodeSamples
  split
  · exact recoverable_decodeRaw i
  · exact absurd ‹_› h
  · exact recoverable_error.2 rfl

theorem recoverable_decode (h : ¬ i.UsesJpx) : Recoverable (decode jpx i) := by
  unfold decode
  split
  · have hown : i.filter ≠ .jpx := fun hjpx => h (.own hjpx)
    exact recoverable_error.2 (recoverable_decodeSamples hown _ ‹_›)
  · split
    · exact recoverable_ok _
    · rename_i mask hmask
      have hown : mask.filter ≠ .jpx := fun hjpx => h (.smask hmask (.own hjpx))
      split
      · exact recoverable_error.2 (recoverable_decodeSamples hown _ ‹_›)
      · split_ifs <;> simp [Fault.isFatal]

end ImageXObject

namespace Layer
variable {resources : Resources K}

theorem recoverable_ofImage (image : DecodedImage) (placement : Transform K) (alpha : K) :
    Recoverable ((ofImage image placement alpha).map some) := by
  unfold ofImage
  split
  · exact recoverable_error.2 rfl
  · split
    · exact recoverable_error.2 rfl
    · exact recoverable_ok _

theorem recoverable_ofElement? (h : ¬ resources.ListsJpx) (options : Options K) (e : Element K) :
    Recoverable (ofElement? resources options e) := by
  cases e with
  | path e =>
    simp only [ofElement?]
    split
    · exact recoverable_error.2 rfl
    · exact recoverable_ok _
  | text e => exact recoverable_ok _
  | image e =>
    simp only [ofElement?]
    split
    · rename_i i hi
      have hdecode : Recoverable (i.decode options.jpx) :=
        ImageXObject.recoverable_decode fun hjpx => h ⟨e.name, i, hi, hjpx⟩
      split
      · exact recoverable_error.2 (hdecode _ ‹_›)
      · exact recoverable_ofImage _ _ _
    · exact recoverable_error.2 rfl
  | raster e =>
    simp only [ofElement?]
    split
    · exact recoverable_error.2 rfl
    · exact recoverable_ofImage _ _ _

theorem recoverable_ofElements (h : ¬ resources.ListsJpx) (options : Options K)
    (es : List (Element K)) : Recoverable (ofElements resources options es) := by
  induction es with
  | nil => exact recoverable_ok _
  | cons e es ih =>
    unfold ofElements
    split
    · exact recoverable_error.2 (recoverable_ofElement? h options e _ ‹_›)
    · split
      · exact recoverable_error.2 (ih _ ‹_›)
      · split <;> exact recoverable_ok _

end Layer

namespace SoftMaskGroup
variable {options : Options K} {g : SoftMaskGroup K} {ctm : Transform K}

theorem recoverable_backdropColor? (g : SoftMaskGroup K) : Recoverable g.backdropColor? := by
  unfold backdropColor?
  dsimp only
  repeat' split
  all_goals simp [Fault.isFatal]

theorem recoverable_composite (h : ¬ g.resources.ListsJpx) (bbox : Rect K) (es : List (Element K)) :
    Recoverable (g.composite bbox es options) := by
  unfold composite
  split
  · exact recoverable_error.2 rfl
  split
  · exact recoverable_error.2 (Layer.recoverable_ofElements h options es _ ‹_›)
  split
  · exact recoverable_error.2 (g.recoverable_backdropColor? _ ‹_›)
  · exact recoverable_ok _

theorem recoverable_valueOf (h : ¬ g.resources.ListsJpx) (es : List (Element K)) :
    Recoverable (g.valueOf ctm options es) := by
  unfold valueOf
  dsimp only
  split
  · exact recoverable_ok _
  split
  · exact recoverable_error.2 (recoverable_composite h _ es _ ‹_›)
  · exact recoverable_ok _

theorem evaluate_error {depth : Nat} (h : g.evaluate options ctm depth = .error fault) :
    (Interpreter.execute options (tokenize g.content) (.ofGroup g.resources depth)).fault =
        some fault ∨
      ∃ es, g.valueOf ctm options es = .error fault := by
  unfold evaluate evaluateWith at h
  dsimp only at h
  split at h
  · rename_i hfault
    obtain rfl := Except.error.inj h
    exact .inl hfault
  · exact .inr ⟨_, h⟩

end SoftMaskGroup

namespace Interpreter
variable {options : Options K}

theorem setSoftMask_fault_iff (g : SoftMaskGroup K) (s : Interpreter K) :
    (s.setSoftMask (execute options) options g).fault = some fault ↔
      fault.isFatal = true ∧ s.maskDepth < options.maxMaskDepth ∧
        g.evaluate options s.state.ctm (s.maskDepth + 1) = .error fault := by
  unfold setSoftMask
  split
  · rename_i hdeep
    simp [Outcome.ok, Nat.not_lt.2 hdeep]
  · rename_i hshallow
    cases hvalue : g.evaluate options s.state.ctm (s.maskDepth + 1) with
    | ok value =>
      have hwith : g.evaluateWith (execute options) options s.state.ctm (s.maskDepth + 1) =
          .ok value := hvalue
      rw [hwith]
      simp [Outcome.ok]
    | error fault' =>
      have hwith : g.evaluateWith (execute options) options s.state.ctm (s.maskDepth + 1) =
          .error fault' := hvalue
      rw [hwith]
      dsimp only
      split
      · rename_i hfatal
        simp only [Option.some.injEq, Except.error.injEq]
        constructor
        · rintro rfl
          exact ⟨hfatal, Nat.not_le.1 hshallow, rfl⟩
        · exact fun h => h.2.2
      · rename_i habsorbed
        simp only [Outcome.ok, reduceCtorEq, Except.error.injEq, false_iff]
        rintro ⟨hfatal, -, rfl⟩
        exact habsorbed hfatal

structure MaskFails (options : Options K) (s : Interpreter K) (fault : Fault K) : Prop where
  group : ∃ g, SetsMask options s g ∧
    g.evaluate options s.state.ctm (s.maskDepth + 1) = .error fault

theorem MaskFails.elim {s : Interpreter K} {name : String} (h : MaskFails options s fault)
    (hname : (Operand.popName s.operands).1 = some name) :
    ∃ e g, s.resources.extGState? name = some e ∧ e.softMask = some (.group g) ∧
      s.maskDepth < options.maxMaskDepth ∧
        g.evaluate options s.state.ctm (s.maskDepth + 1) = .error fault := by
  obtain ⟨g, hsets, hfails⟩ := h
  obtain ⟨name', e, hname', he, hg⟩ := hsets.entry
  obtain rfl := Option.some.inj (hname.symm.trans hname')
  exact ⟨e, g, he, hg, hsets.shallow, hfails⟩

theorem setExtGState_fault_iff {s : Interpreter K} {name : String}
    (hname : (Operand.popName s.operands).1 = some name) :
    (s.cleared.setExtGState (execute options) options name).fault = some fault ↔
      fault.isFatal = true ∧ MaskFails options s fault := by
  have hresources : s.cleared.resources = s.resources := rfl
  have hidle : ∀ u : Interpreter K, ¬ MaskFails options s fault →
      ((Outcome.ok u).fault = some fault ↔ fault.isFatal = true ∧ MaskFails options s fault) := by
    intro u hnone
    simp [Outcome.ok, hnone]
  unfold setExtGState
  rw [hresources]
  cases he : s.resources.extGState? name with
  | none =>
    refine hidle _ fun h => ?_
    obtain ⟨e, g, he', -⟩ := h.elim hname
    exact absurd (he.symm.trans he') (by simp)
  | some e =>
    -- The parameters of the entry leave the transform as it is.
    have hgroup : ∀ g, e.softMask = some (.group g) →
        (((s.cleared.modifyState (.applyExtGState e)).setSoftMask (execute options) options
          g).fault = some fault ↔ fault.isFatal = true ∧ MaskFails options s fault) := by
      intro g hg
      refine (setSoftMask_fault_iff g _).trans (and_congr_right fun _ => ⟨?_, ?_⟩)
      · rintro ⟨hshallow, hfails⟩
        exact ⟨g, ⟨⟨name, e, hname, he, hg⟩, hshallow⟩, hfails⟩
      · intro h
        obtain ⟨e', g', he', hg', hshallow, hfails⟩ := h.elim hname
        obtain rfl := Option.some.inj (he.symm.trans he')
        obtain rfl := SoftMaskRef.group.inj (Option.some.inj (hg.symm.trans hg'))
        exact ⟨hshallow, hfails⟩
    have hother : (∀ g, e.softMask ≠ some (.group g)) → ¬ MaskFails options s fault := by
      intro hmask h
      obtain ⟨e', g, he', hg, -⟩ := h.elim hname
      obtain rfl := Option.some.inj (he.symm.trans he')
      exact hmask g hg
    dsimp only
    split
    · exact hidle _ (hother (by simp [*]))
    · exact hidle _ (hother (by simp [*]))
    · exact hgroup _ ‹_›

theorem dispatch_extGState {s : Interpreter K} {name : String}
    (hname : (Operand.popName s.operands).1 = some name) :
    s.cleared.dispatch (execute options) options .extGState s.operands =
      s.cleared.setExtGState (execute options) options name := by
  change (Operand.popName s.operands).1.elim _ _ = _
  rw [hname]
  rfl

theorem step_extGState_fault_iff (s : Interpreter K) :
    (s.step (execute options) options (.operator "gs")).fault = some fault ↔
      fault.isFatal = true ∧ MaskFails options s fault := by
  rw [step_operator_some _ options (show Operator.ofName? "gs" = some .extGState from rfl)]
  cases hname : (Operand.popName s.operands).1 with
  | none =>
    have hdispatch : s.cleared.dispatch (execute options) options .extGState s.operands =
        .ok s.cleared := by
      change (Operand.popName s.operands).1.elim _ _ = _
      rw [hname]
      rfl
    have hnone : ¬ MaskFails options s fault := by
      rintro ⟨g, hsets, -⟩
      obtain ⟨name, e, hname', -⟩ := hsets.entry
      rw [hname] at hname'
      exact absurd hname' (by simp)
    rw [hdispatch]
    simp [Outcome.ok, hnone]
  | some name =>
    rw [dispatch_extGState hname, ← setExtGState_fault_iff hname]
    have haffected := setExtGState_affected (execute options) options name s.cleared
    dsimp only
    rw [haffected.settled]

theorem afterForm_execute_fault (s u : Interpreter K) (ts : List (Token K)) :
    (s.afterForm (execute options ts u)).fault = (execute options ts u).fault := by
  cases hr : (execute options ts u).fault with
  | none => simp [afterForm, hr, Outcome.ok]
  | some fault => simp [afterForm, hr, execute_isFatal hr]

theorem step_form_fault {s : Interpreter K} {name : String} {form : FormXObject K}
    (h : DrawsForm options s name form) :
    (s.step (execute options) options (.operator "Do")).fault =
      (execute options (tokenize form.content) (s.cleared.enterForm name form)).fault := by
  rw [step_form h]
  exact afterForm_execute_fault _ _ _

theorem step_fault_none {t : Token K} {s : Interpreter K} (hgs : t ≠ .operator "gs")
    (hform : ∀ name form, t = .operator "Do" → ¬ DrawsForm options s name form) :
    (s.step (execute options) options t).fault = none := by
  have hstepped := stepped (execute options) options t s
  generalize s.step (execute options) options t = r at hstepped
  cases hstepped with
  | fatal => exact absurd rfl hgs
  | form h => exact absurd h (hform _ _ rfl)
  | _ => rfl

/-- An execution ends with a fault exactly if it comes to a soft mask group, in the content itself
or in that of a form, whose evaluation fails with that fault, and the fault is fatal. -/
theorem execute_fault_iff (options : Options K) (ts : List (Token K)) (s : Interpreter K) :
    (execute options ts s).fault = some fault ↔ fault.isFatal = true ∧
      ∃ u, Visits options ts s (.operator "gs") u ∧ MaskFails options u fault := by
  induction ts, s using execute_induction options with
  | nil s =>
    rw [execute_nil]
    refine ⟨fun h => absurd h (by simp [Outcome.ok]), ?_⟩
    rintro ⟨-, u, hvisits, -⟩
    cases hvisits
  | cons t ts s ihform ihnext =>
    rw [execute_cons]
    dsimp only
    constructor
    · intro h
      cases hstep : (s.step (execute options) options t).fault with
      | none =>
        rw [if_neg (by simp [hstep])] at h
        obtain ⟨hfatal, u, hvisits, hfails⟩ := ihnext.1 h
        exact ⟨hfatal, u, .next hstep hvisits, hfails⟩
      | some fault' =>
        rw [if_pos (by simp [hstep]), hstep] at h
        obtain rfl := Option.some.inj h
        by_cases hgs : t = .operator "gs"
        · subst hgs
          obtain ⟨hfatal, hfails⟩ := (step_extGState_fault_iff s).1 hstep
          exact ⟨hfatal, s, .here _ _ _, hfails⟩
        by_cases hdraws : ∃ name form, t = .operator "Do" ∧ DrawsForm options s name form
        · obtain ⟨name, form, rfl, hdraws⟩ := hdraws
          rw [step_form_fault hdraws] at hstep
          obtain ⟨hfatal, u, hvisits, hfails⟩ := (ihform name form hdraws).1 hstep
          exact ⟨hfatal, u, .form hdraws hvisits, hfails⟩
        · rw [step_fault_none hgs fun name form ht h => hdraws ⟨name, form, ht, h⟩] at hstep
          exact absurd hstep (by simp)
    · rintro ⟨hfatal, u, hvisits, hfails⟩
      cases hvisits with
      | here =>
        have hstep := (step_extGState_fault_iff s).2 ⟨hfatal, hfails⟩
        rw [if_pos (by simp [hstep]), hstep]
      | next hok h =>
        rw [if_neg (by simp [hok])]
        exact ihnext.2 ⟨hfatal, u, h, hfails⟩
      | form hdraws h =>
        have hstep := (step_form_fault hdraws).trans
          ((ihform _ _ hdraws).2 ⟨hfatal, u, h, hfails⟩)
        rw [if_pos (by simp [hstep]), hstep]

theorem Visits.nests {ts : List (Token K)} {s u : Interpreter K} {t : Token K}
    (h : Visits options ts s t u) :
    s.resources.Nests u.resources ∧ u.maskDepth = s.maskDepth := by
  induction h with
  | here t ts s => exact ⟨.refl _, rfl⟩
  | @next t t' ts s u _ _ ih =>
    have hsame := step_sameContext options t s
    rw [hsame.resources, hsame.maskDepth] at ih
    exact ih
  | form hdraws _ ih =>
    exact ⟨(Resources.nests_inside hdraws.entry).trans ih.1, ih.2⟩

/-- A fault takes an image that asks for a decoder, somewhere under the resources in force. -/
theorem needsDecoder_of_fault {ts : List (Token K)} {s : Interpreter K}
    (h : (execute options ts s).fault = some fault) : s.resources.NeedsDecoder := by
  induction hlevels : options.maxMaskDepth - s.maskDepth using Nat.strong_induction_on
    generalizing ts s with
  | _ levels ih =>
    obtain ⟨hfatal, u, hvisits, g, hsets, hfails⟩ := (execute_fault_iff options ts s).1 h
    obtain ⟨hnests, hdepth⟩ := hvisits.nests
    obtain ⟨name, e, -, hentry, hgroup⟩ := hsets.entry
    have hinside : s.resources.Nests g.resources := .group hnests hentry hgroup
    refine .of_nests hinside ?_
    rcases SoftMaskGroup.evaluate_error hfails with hcontent | ⟨es, hvalue⟩
    · have hshallow := hsets.shallow
      have hlt : options.maxMaskDepth - (u.maskDepth + 1) < levels := by omega
      exact ih _ hlt hcontent rfl
    · refine ⟨g.resources, .refl _, ?_⟩
      by_contra hnone
      rw [SoftMaskGroup.recoverable_valueOf hnone es fault hvalue] at hfatal
      exact absurd hfatal (by simp)

/-- Where the evaluation of a group fails and the run can go on, it goes on without a mask. -/
theorem MaskFails.absorbed {s : Interpreter K} (h : MaskFails options s fault)
    (hfault : fault.isFatal = false) :
    ∃ u, s.step (execute options) options (.operator "gs") = .ok u ∧
      u.state.softMask = none ∧ u.state.softMaskAlpha = 1 := by
  obtain ⟨g, hsets, -⟩ := id h
  obtain ⟨name, -, hname, -⟩ := hsets.entry
  obtain ⟨e, g, he, hg, hshallow, hfails⟩ := h.elim hname
  let t := s.cleared.modifyState (.applyExtGState e)
  have hmask : t.setSoftMask (execute options) options g = .ok (t.modifyState .clearSoftMask) := by
    have hdeep : ¬ options.maxMaskDepth ≤ t.maskDepth := Nat.not_le.2 hshallow
    have hevaluate : g.evaluateWith (execute options) options t.state.ctm (t.maskDepth + 1) =
        .error fault := hfails
    unfold setSoftMask
    rw [if_neg hdeep, hevaluate]
    dsimp only
    rw [if_neg (by simp [hfault])]
  have hset : s.cleared.setExtGState (execute options) options name =
      .ok (t.modifyState .clearSoftMask) := by
    have hentry : s.cleared.resources.extGState? name = some e := he
    unfold setExtGState
    simp only [hentry, hg]
    exact hmask
  rw [step_operator_some _ options (show Operator.ofName? "gs" = some .extGState from rfl),
    dispatch_extGState hname, hset]
  exact ⟨_, rfl, rfl, rfl⟩

/-- An execution can only fail for a missing decoder, and does exactly if the evaluation of a group
that it comes to fails for one. Any other failure of a group leaves the run without a mask. Unless
some image in the tree of resources asks for a decoder, nothing fails. -/
theorem execute_missingDecoder (options : Options K) (ts : List (Token K)) (s : Interpreter K) :
    (∀ fault, (execute options ts s).fault = some fault ↔
      (∃ name, fault = .missingDecoder name) ∧
        ∃ u, Visits options ts s (.operator "gs") u ∧ MaskFails options u fault) ∧
    (∀ u fault, MaskFails options u fault → (¬ ∃ name, fault = .missingDecoder name) →
      ∃ v, u.step (execute options) options (.operator "gs") = .ok v ∧
        v.state.softMask = none ∧ v.state.softMaskAlpha = 1) ∧
    (¬ s.resources.NeedsDecoder → (execute options ts s).fault = none) ∧
    ∀ resources : Resources K, ¬ resources.NeedsDecoder →
      ∃ elements, interpret resources options ts = .ok elements := by
  have hok : ∀ s : Interpreter K, ¬ s.resources.NeedsDecoder →
      (execute options ts s).fault = none := by
    intro s hnone
    cases hfault : (execute options ts s).fault with
    | none => rfl
    | some fault => exact absurd (needsDecoder_of_fault hfault) hnone
  refine ⟨?_, ?_, hok s, ?_⟩
  · intro fault
    rw [← fault.isFatal_iff]
    exact execute_fault_iff options ts s
  · intro u fault hfails hfault
    rw [← fault.isFatal_iff, Bool.not_eq_true] at hfault
    exact hfails.absorbed hfault
  · intro resources hnone
    have hfault : (execute options ts (.ofPage resources options)).fault = none := hok _ hnone
    unfold interpret
    dsimp only
    rw [hfault]
    exact ⟨_, rfl⟩

end Interpreter

section Witness
variable (filter : ImageFilter)

def filteredImage : ImageXObject := ⟨1, 1, 8, .gray, filter, #[128], none⟩

def imageTable : Resources ℚ :=
  { Resources.empty with xObjects := [("I", .image (filteredImage filter))] }

def imageMask : ExtGState ℚ :=
  { ExtGState.empty with
    softMask := some (.group {
      kind := .alpha
      bbox := ⟨0, 0, 2, 2⟩
      matrix := .identity
      resources := imageTable filter
      content := Utf8.encode "/I Do"
      knockout := false
      isolated := false
      backdrop := none
      colorSpace := none }) }

def imageMaskTable : Resources ℚ :=
  { Resources.empty with extGStates := [("N", imageMask filter)] }

theorem tables_imageMaskTable : (imageMaskTable filter).tables 0 =
    [(0, imageMaskTable filter), (1, imageTable filter)] := rfl

theorem xObject_imageMaskTable {t : Resources ℚ} {name : String} {x : XObject ℚ}
    (ht : (imageMaskTable filter).Nests t) (hx : t.xObject? name = some x) :
    x = .image (filteredImage filter) := by
  refine ht.of_tables (P := (· = .image (filteredImage filter))) Resources.xObjects ?_ hx
  rw [tables_imageMaskTable]
  simp [imageMaskTable, imageTable, Resources.empty]

theorem not_needsDecoder_imageMaskTable (h : filter ≠ .jpx) :
    ¬ (imageMaskTable filter).NeedsDecoder := by
  rintro ⟨t, ht, name, i, hi, hjpx⟩
  obtain rfl := XObject.image.inj (xObject_imageMaskTable filter ht hi)
  cases hjpx with
  | own hfilter => exact h hfilter
  | smask hsmask _ => exact absurd hsmask (by simp [filteredImage, ImageXObject.smask])

end Witness
end ContentStream
