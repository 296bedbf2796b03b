import Mathlib
import ContentStream.Proofs.Aborts
import ContentStream.Proofs.ColorFunctions
import ContentStream.Proofs.Parameters

set_option autoImplicit false

namespace ContentStream
variable {K : Type}

theorem exists_of_searchAborts {α : Type} {aborts holds : α → Bool} {xs : List α}
    (h : searchAborts aborts holds xs = true) : ∃ x ∈ xs, aborts x = true := by
  induction xs with
  | nil => exact absurd h Bool.false_ne_true
  | cons x xs ih =>
    simp only [searchAborts, Bool.or_eq_true, Bool.and_eq_true] at h
    rcases h with h | ⟨-, h⟩
    · exact ⟨x, List.mem_cons_self, h⟩
    · obtain ⟨y, hy, haborts⟩ := ih h
      exact ⟨y, List.mem_cons_of_mem x hy, haborts⟩

namespace Interpreter

theorem Outcome.exists_eq_iff {r : Outcome K} {fault : Option (Fault K)} :
    (∃ v, r = ⟨v, fault⟩) ↔ r.fault = fault := by
  constructor
  · rintro ⟨v, rfl⟩
    rfl
  · rintro rfl
    exact ⟨_, rfl⟩

end Interpreter

variable [Scalar K]

inductive ColorFunction.Restrictable : ColorFunction K → Prop
  | exponential {d0 d1 exponent : K} {c0 c1 : List K} (h : Scalar.min d0 d1 ≤ Scalar.max d0 d1) :
      Restrictable (.exponential d0 d1 c0 c1 exponent)
  | stitching {d0 d1 : K} {functions : List (ColorFunction K)} {bounds : List K}
      {encode : List (K × K)} (h : Scalar.min d0 d1 ≤ Scalar.max d0 d1)
      (hparts : ∀ f ∈ functions, f.Restrictable) :
      Restrictable (.stitching d0 d1 functions bounds encode)
  | sampled {d0 d1 : K} {samples : List (List K)} (h : Scalar.min d0 d1 ≤ Scalar.max d0 d1) :
      Restrictable (.sampled d0 d1 samples)

theorem Scalar.clampAborts_eq_false {lo hi : K} (h : lo ≤ hi) :
    Scalar.clampAborts lo hi = false := by
  simp [Scalar.clampAborts, h]

namespace ColorFunction

theorem Restrictable.aborts_eq_false {f : ColorFunction K} (h : f.Restrictable) (t : K) :
    f.aborts t = false := by
  induction f generalizing t with
  | exponential =>
    cases h with
    | exponential h => exact Scalar.clampAborts_eq_false h
  | sampled =>
    cases h with
    | sampled h => exact Scalar.clampAborts_eq_false h
  | stitching d0 d1 functions bounds encode ih =>
    cases h with
    | stitching h hparts =>
      have hat : ∀ k x, abortsAt functions k x = false := by
        intro k x
        induction functions generalizing k with
        | nil => rfl
        | cons f fs ihfs =>
          obtain ⟨hf, hfs⟩ := List.forall_mem_cons.1 hparts
          cases k with
          | zero => exact ih f List.mem_cons_self hf x
          | succ k => exact ihfs (fun g hg => ih g (List.mem_cons_of_mem f hg)) hfs k
      have hrestrict : restrictAborts d0 d1 = false := Scalar.clampAborts_eq_false h
      simp only [aborts, hrestrict, hat, Bool.or_self]

end ColorFunction

/-- Lines get round ends only where all lengths compare. -/
def GraphicsState.Measures (g : GraphicsState K) : Prop :=
  g.lineCap = .round → ∀ x y : K, 0 ≤ Scalar.hypot x y

def Element.Measurable (e : Element K) : Prop :=
  ∀ sampler, Sampler.ofElement? e = some sampler → ∀ p, sampler.aborts p = false

theorem Stroke.aborts_eq_false (line : Stroke K)
    (h : line.cap = .round → ∀ x y : K, 0 ≤ Scalar.hypot x y) (p : Point K) :
    line.aborts p = false := by
  rw [Bool.eq_false_iff]
  intro haborts
  obtain ⟨hcap, hsearch⟩ := Bool.and_eq_true_iff.1 haborts
  have hline : ∀ a b : Point K, roundLineAborts a b ≠ true := by
    intro a b
    simp [roundLineAborts, Scalar.clampAborts, h (eq_of_beq hcap)]
  obtain ⟨sub, -, hsub⟩ := exists_of_searchAborts hsearch
  unfold Subpath.roundStrokeAborts at hsub
  split at hsub
  · exact hline _ _ hsub
  · obtain ⟨edge, -, hedge⟩ := exists_of_searchAborts hsub
    exact hline _ _ hedge

namespace Element

theorem measurable_path {e : PathElement K} (h : e.state.Measures) :
    (Element.path e).Measurable := by
  intro sampler hsampler p
  change Sampler.ofPath? e = some sampler at hsampler
  unfold Sampler.ofPath? at hsampler
  split at hsampler
  · obtain rfl := Option.some.inj hsampler
    unfold Sampler.aborts
    dsimp only
    split
    · exact Stroke.aborts_eq_false ⟨_, _, e.state.lineCap⟩ h p
    · rfl
  · exact absurd hsampler (by simp)

/-- Texts are filled even where their outlines count as stroked. -/
theorem measurable_text (e : TextElement K) : (Element.text e).Measurable := by
  intro sampler hsampler p
  obtain ⟨ink, -, rfl⟩ := Option.map_eq_some_iff.1 hsampler
  rfl

theorem measurable_raster (r : RasterImage K) : (Element.raster r).Measurable := nofun

theorem Measurable.maskingAborts_eq_false {e : Element K} (h : e.Measurable) :
    e.maskingAborts = false := by
  rw [Bool.eq_false_iff]
  intro haborts
  obtain ⟨mask, -, hmask⟩ := (Option.any_eq_true _ _).1 haborts
  obtain ⟨sampler, hsampler, hpixels⟩ :=
    (Option.any_eq_true _ _).1 (Bool.and_eq_true_iff.1 hmask).2
  obtain ⟨p, -, hp⟩ := List.any_eq_true.1 hpixels
  exact absurd hp (by simp [h sampler hsampler])

theorem Measurable.drawn {e : Element K} (h : e.Measurable) :
    (Interpreter.drawn e).Measurable :=
  Interpreter.drawn_induction Measurable h fun r _ => measurable_raster r

end Element

theorem Painted.measurable {options : Options K} {g : GraphicsState K} {e : Element K}
    (h : Painted options g e) (hg : g.Measures) : e.Measurable := by
  cases h with
  | path e hstate =>
    refine Element.measurable_path ?_
    rcases hstate with hstate | hstate <;> rw [hstate] <;> exact hg
  | text e => exact Element.measurable_text e
  | image => exact nofun
  | shading | pattern => exact Element.measurable_raster _

theorem exceedsMemory_eq_false {n : Nat} (h : n < 2 ^ 63) : exceedsMemory n = false :=
  decide_eq_false (Nat.not_le.2 h)

theorem Grid.Fits.area_le {budget width height : Nat} (h : Grid.Fits budget width height) :
    width * height ≤ budget * budget :=
  Nat.mul_le_mul ((le_max_left _ _).trans_eq h.longer) ((le_max_right _ _).trans_eq h.longer)

/-- Nothing in the tree of resources, and no budget, asks for a buffer beyond the address space or
for a domain whose ends do not compare. -/
structure Feasible (options : Options K) (r : Resources K) : Prop where
  clip : options.clipBudget * options.clipBudget < 2 ^ 63
  shading : options.shadingBudget * options.shadingBudget * 4 < 2 ^ 63
  space {t : Resources K} {name : String} {space : ColorSpace} (ht : r.Nests t)
    (hspace : t.colorSpace? name = some space) : space.initialAborts = false
  image {t : Resources K} {name : String} {i : ImageXObject} (ht : r.Nests t)
    (hi : t.xObject? name = some (.image i)) : i.decodeAborts options.jpx = false
  function {t : Resources K} {name : String} {d : Shading K} (ht : r.Nests t)
    (hd : t.shading? name = some d ∨ ∃ m, t.pattern? name = some (.shading m d)) :
    d.function.Restrictable

namespace Feasible
variable {options : Options K} {r t : Resources K}

theorem of_nests (h : Feasible options r) (ht : r.Nests t) : Feasible options t where
  clip := h.clip
  shading := h.shading
  space hu := h.space (ht.trans hu)
  image hu := h.image (ht.trans hu)
  function hu := h.function (ht.trans hu)

theorem initialAborts_resolveColorSpace (h : Feasible options r) (name : String) :
    (r.resolveColorSpace name).initialAborts = false := by
  unfold Resources.resolveColorSpace
  cases hdevice : ColorSpace.ofDeviceName? name with
  | some space =>
    unfold ColorSpace.ofDeviceName? at hdevice
    split_ifs at hdevice <;> obtain rfl := Option.some.inj hdevice <;> rfl
  | none =>
    cases hspace : r.colorSpace? name with
    | some space => exact h.space (.refl r) hspace
    | none => rfl

theorem clipAborts_eq_false (h : Feasible options r) (bbox : Rect K) :
    Mask.clipAborts bbox options.clipBudget = false := by
  rw [Bool.eq_false_iff]
  intro haborts
  obtain ⟨⟨width, height⟩, hsize, hexceeds⟩ :=
    (Option.any_eq_true _ _).1 (Bool.and_eq_true_iff.1 haborts).2
  dsimp only at hexceeds
  have harea := (Grid.fits_of_size? hsize).area_le
  rw [exceedsMemory_eq_false (harea.trans_lt h.clip)] at hexceeds
  exact Bool.false_ne_true hexceeds

theorem rasterizeAborts_eq_false (h : Feasible options r) {d : Shading K}
    (hd : d.function.Restrictable) (toPage : Transform K) (region : Rect K)
    (path : Option (List (Subpath K) × FillRule)) (state : GraphicsState K) :
    d.rasterizeAborts toPage region path options.shadingBudget state = false := by
  rw [Bool.eq_false_iff]
  intro haborts
  obtain ⟨-, hmatch⟩ := Bool.and_eq_true_iff.1 haborts
  split at hmatch
  · rename_i width height toShading hsize hinverse
    have harea := Nat.mul_le_mul_right 4 (Grid.fits_of_size? hsize).area_le
    simp only [exceedsMemory_eq_false (harea.trans_lt h.shading), Bool.false_or] at hmatch
    obtain ⟨p, -, hp⟩ := List.any_eq_true.1 hmatch
    simp only [Bool.and_eq_true] at hp
    obtain ⟨x, -, hx⟩ := (Option.any_eq_true _ _).1 hp.1.1
    rw [Shading.colorAborts, hd.aborts_eq_false] at hx
    exact Bool.false_ne_true hx
  · exact Bool.false_ne_true hmatch

theorem elementsAbort_eq_false (h : Feasible options r) (es : List (Element K)) :
    Layer.elementsAbort r options es = false := by
  rw [Bool.eq_false_iff]
  intro haborts
  obtain ⟨e, -, he⟩ := exists_of_searchAborts haborts
  unfold Layer.elementAborts at he
  split at he
  · split at he
    · rw [h.image (.refl r) ‹_›] at he
      exact Bool.false_ne_true he
    · exact Bool.false_ne_true he
  · exact Bool.false_ne_true he

end Feasible

theorem Layer.aborts_eq_false {resources : Resources K} {options : Options K} {e : Element K}
    {l : Layer K} (h : ofElement? resources options e = .ok (some l)) (he : e.Measurable)
    (p : Point K) : l.aborts p = false := by
  have himage : ∀ image placement alpha,
      (ofImage image placement alpha).map some = .ok (some l) → l.aborts p = false := by
    intro image placement alpha hl
    unfold ofImage at hl
    split at hl
    · exact absurd hl (by simp [Except.map])
    split at hl
    · exact absurd hl (by simp [Except.map])
    · obtain rfl := Option.some.inj (Except.ok.inj hl)
      rfl
  cases e with
  | path e =>
    simp only [ofElement?] at h
    split at h
    · exact absurd h (by simp)
    · obtain ⟨sampler, hsampler, rfl⟩ := Option.map_eq_some_iff.1 (Except.ok.inj h)
      exact he sampler hsampler p
  | text e =>
    obtain ⟨sampler, hsampler, rfl⟩ := Option.map_eq_some_iff.1 (Except.ok.inj h)
    exact he sampler hsampler p
  | image e =>
    simp only [ofElement?] at h
    split at h
    · split at h
      · exact absurd h (by simp)
      · exact himage _ _ _ h
    · exact absurd h (by simp)
  | raster e =>
    simp only [ofElement?] at h
    split at h
    · exact absurd h (by simp)
    · exact himage _ _ _ h

theorem Feasible.valueAborts_eq_false {options : Options K} {g : SoftMaskGroup K}
    (h : Feasible options g.resources) {es : List (Element K)} (hes : ∀ e ∈ es, e.Measurable) :
    g.valueAborts options es = false := by
  rw [Bool.eq_false_iff]
  intro haborts
  obtain ⟨-, hcomposite⟩ := Bool.and_eq_true_iff.1 haborts
  unfold SoftMaskGroup.compositeAborts at hcomposite
  split at hcomposite
  · exact Bool.false_ne_true hcomposite
  rw [h.elementsAbort_eq_false, Bool.false_or] at hcomposite
  split at hcomposite
  · rename_i layers _ hlayers _
    obtain ⟨p, -, hp⟩ := List.any_eq_true.1 hcomposite
    obtain ⟨l, hl, haborts⟩ := List.any_eq_true.1 hp
    obtain ⟨e, he, hlayer, -⟩ := Layer.mem_ofElements hlayers hl
    rw [Layer.aborts_eq_false hlayer (hes e he)] at haborts
    exact Bool.false_ne_true haborts
  · exact Bool.false_ne_true hcomposite

namespace Interpreter
variable {options : Options K}

section Token
variable {s : Interpreter K} {t : Token K}

theorem emitAborts_eq_false {e : Element K} (he : e.Measurable) : emitAborts e = false := by
  simp [emitAborts, he.maskingAborts_eq_false]

theorem paintAborts_eq_false (h : Feasible options s.resources) (hs : s.state.Measures)
    (paint : Paint) (rule : FillRule) (close : Bool) :
    s.paintAborts options paint rule close = false := by
  have hpattern : ∀ segments state, s.patternAborts options segments rule state = false := by
    intro segments state
    unfold patternAborts
    split
    · rename_i matrix shading hentry
      obtain ⟨name, -, hname⟩ := Option.bind_eq_some_iff.1 hentry
      exact h.rasterizeAborts_eq_false (h.function (.refl _) (.inr ⟨matrix, hname⟩)) _ _ _ _
    · rfl
  have hdraw : ∀ segments, s.drawAborts options segments paint rule = false := by
    intro segments
    unfold drawAborts
    dsimp only
    rw [hpattern, Bool.and_false, Bool.false_or]
    split
    · rw [emitAborts_eq_false (Element.measurable_path hs), Bool.and_false]
    · exact emitAborts_eq_false (Element.measurable_path hs)
  simp only [paintAborts, hdraw, Bool.and_false]

theorem shadingAborts_eq_false (h : Feasible options s.resources) (name : String) :
    s.shadingAborts options name = false := by
  rw [Bool.eq_false_iff]
  intro haborts
  obtain ⟨shading, hentry, hshading⟩ := (Option.any_eq_true _ _).1 haborts
  rw [h.rasterizeAborts_eq_false (h.function (.refl _) (.inl hentry))] at hshading
  exact Bool.false_ne_true hshading

theorem applyAborts_eq_false (h : Feasible options s.resources) (hs : s.state.Measures)
    (op : Operator) (args : Operand.Stack K) : s.applyAborts options op args = false := by
  have hspace : ((Operand.popName args).1.any fun name =>
      (s.resources.resolveColorSpace name).initialAborts) = false := by
    cases (Operand.popName args).1 <;> simp [h.initialAborts_resolveColorSpace]
  have hshading : ((Operand.popName args).1.any fun name => s.shadingAborts options name) =
      false := by
    cases (Operand.popName args).1 <;> simp [shadingAborts_eq_false h]
  have hclip : s.clipAborts options = false := by
    simp [clipAborts, h.clipAborts_eq_false]
  cases op with
  | stroke | closeStroke | fill | fillObsolete | fillEvenOdd | fillStroke | fillStrokeEvenOdd
  | closeFillStroke | closeFillStrokeEvenOdd => exact paintAborts_eq_false h hs _ _ _
  | clip | clipEvenOdd => exact hclip
  | strokeColorSpace | fillColorSpace => exact hspace
  | paintShading => exact hshading
  | _ => rfl

theorem measurable_endOpenText (hs : ∀ e ∈ s.elements.toList, e.Measurable) :
    ∀ e ∈ s.endOpenText.elements.toList, e.Measurable := by
  unfold endOpenText endText
  dsimp only
  split
  · split
    · exact hs
    · exact forall_mem_emit hs (Element.measurable_text _).drawn
  · exact hs

/-- Where the states at all tokens of a run measure, what it draws can be sampled. -/
theorem preserves_measurable (options : Options K) :
    Preserves options (fun _ s => s.state.Measures)
      (fun s => ∀ e ∈ s.elements.toList, e.Measurable) where
  enter henters hs := by
    cases henters with
    | form => exact hs
    | group => exact fun e he => absurd he (by simp [ofGroup, ofBaseState])
  step := by
    intro s t hmet hinside hs
    have hpaints : ∀ u : Interpreter K, Paints options s.cleared u →
        ∀ e ∈ u.elements.toList, e.Measurable := by
      rintro u ⟨es, helements, hpainted⟩ e he
      rw [helements] at he
      rcases List.mem_append.1 he with he | he
      · exact hs e he
      · obtain ⟨e', he', rfl⟩ := List.mem_map.1 he
        exact ((hpainted e' he').measurable hmet).drawn
    have hperformed := performed (execute options) options t s
    generalize s.step (execute options) options t = r at hperformed
    cases hperformed with
    | operand =>
      change ∀ e ∈ (s.read t).elements.toList, e.Measurable
      rw [read_frame]
      exact hs
    | unknown | idle => exact hs
    | @apply _ op =>
      by_cases hsave : op = .save
      · subst hsave
        exact hs
      by_cases hrestore : op = .restore
      · subst hrestore
        exact hs
      exact hpaints _ (apply_updates options op _ s.cleared hsave hrestore).elements
    | extGState _ hframe =>
      rw [hframe]
      exact hs
    | image => exact hpaints _ (.emit (.image _ rfl))
    | form hdraws =>
      have hend := measurable_endOpenText (hinside _ _ (.form hdraws))
      unfold afterForm
      split <;> exact hend

end Token

theorem Meets.nests {ts : List (Token K)} {s u : Interpreter K} {t : Token K}
    (h : Meets options ts s t u) : s.resources.Nests u.resources := by
  induction h with
  | content h => exact h.nests.1
  | group h hsets _ ih =>
    obtain ⟨name, e, -, hentry, hgroup⟩ := hsets.entry
    exact (Resources.Nests.group h.nests.1 hentry hgroup).trans ih

theorem Meets.group_of_meets {ts : List (Token K)} {s u v : Interpreter K} {t : Token K}
    {g : SoftMaskGroup K} (h : Meets options ts s (.operator "gs") v) (hsets : SetsMask options v g)
    (h' : Meets options (tokenize g.content) (ofGroup g.resources (v.maskDepth + 1)) t u) :
    Meets options ts s t u := by
  generalize ht : (.operator "gs" : Token K) = t' at h
  induction h with
  | content h =>
    subst ht
    exact .group h hsets h'
  | group h hsets' _ ih => exact .group h hsets' (ih hsets h' ht)

/-- No token of a run aborts where what it is given is feasible and its states measure. -/
theorem not_meetsAbort {ts : List (Token K)} {s : Interpreter K} (h : Feasible options s.resources)
    (hmet : ∀ t u, Meets options ts s t u → u.state.Measures) : ¬ MeetsAbort options ts s := by
  rintro ⟨t, u, hmeets, haborts⟩
  have hfeasible : Feasible options u.resources := h.of_nests hmeets.nests
  cases haborts with
  | mask hsets hvalue =>
    rename_i g
    obtain ⟨name, e, -, hentry, hgroup⟩ := hsets.entry
    have hinside : Feasible options g.resources :=
      hfeasible.of_nests (.group (.refl _) hentry hgroup)
    let start : Interpreter K := ofGroup g.resources (u.maskDepth + 1)
    have hstart : ∀ e ∈ start.elements.toList, e.Measurable :=
      fun e he => absurd he (by simp [start, ofGroup, ofBaseState])
    have hdrawn := (preserves_measurable options).comesTo
      (comesTo_execute options (tokenize g.content) start)
      (fun t' u' h' => hmet t' u' (hmeets.group_of_meets hsets h')) hstart
    have hvalue' := hinside.valueAborts_eq_false (measurable_endOpenText hdrawn)
    obtain ⟨-, haborts⟩ := Bool.and_eq_true_iff.1 hvalue
    exact Bool.false_ne_true (hvalue'.symm.trans haborts)
  | @apply _ op _ hop =>
    have hmeasures : u.state.Measures := hmet _ u hmeets
    have hfalse : u.cleared.applyAborts options op u.operands = false :=
      applyAborts_eq_false hfeasible hmeasures op _
    exact Bool.false_ne_true (hfalse.symm.trans hop)

theorem interpret?_eq_some_iff {resources : Resources K} {ts : List (Token K)}
    {r : Except (Fault K) (List (Element K))} :
    interpret? resources options ts = some r ↔
      ¬ MeetsAbort options ts (.ofPage resources options) ∧ interpret resources options ts = r := by
  rw [← aborts_iff]
  simp [interpret?]

/-- A run has an outcome exactly if it meets no token that aborts. It can then only fail for a
missing decoder, and does exactly if the evaluation of a group that it comes to fails for one. Any
other failure of a group leaves it without a mask. Unless some image in the tree of resources asks
for a decoder, nothing fails. No token aborts where all numbers that are clamped compare and all
buffers fit in memory. -/
theorem execute?_outcome (options : Options K) (ts : List (Token K)) (s : Interpreter K) :
    (∀ fault, (∃ v, execute? options ts s = some ⟨v, some fault⟩) ↔
      ¬ MeetsAbort options ts s ∧ (∃ name, fault = .missingDecoder name) ∧
        ∃ u, Visits options ts s (.operator "gs") u ∧ MaskFails options u fault) ∧
    (∀ u fault, MaskFails options u fault → (¬ ∃ name, fault = .missingDecoder name) →
      ((∃ v, execute? options [.operator "gs"] u = some (.ok v) ∧
        v.state.softMask = none ∧ v.state.softMaskAlpha = 1) ↔
          ¬ MeetsAbort options [.operator "gs"] u)) ∧
    (¬ s.resources.NeedsDecoder →
      ((∃ v, execute? options ts s = some (.ok v)) ↔ ¬ MeetsAbort options ts s)) ∧
    (∀ resources : Resources K, ¬ resources.NeedsDecoder →
      ((∃ elements, interpret? resources options ts = some (.ok elements)) ↔
        ¬ MeetsAbort options ts (.ofPage resources options))) ∧
    (Feasible options s.resources → (∀ t u, Meets options ts s t u → u.state.Measures) →
      ¬ MeetsAbort options ts s) := by
  obtain ⟨hfault, habsorbed, hok, hinterpret⟩ := execute_missingDecoder options ts s
  refine ⟨?_, ?_, ?_, ?_, fun h hmet => not_meetsAbort h hmet⟩
  · intro fault
    rw [← hfault]
    simp only [execute?_eq_some_iff, exists_and_left, Outcome.exists_eq_iff]
  · intro u fault hfails hother
    obtain ⟨v, hstep, hmask⟩ := habsorbed u fault hfails hother
    rw [← execute_singleton] at hstep
    constructor
    · rintro ⟨v', hv', -⟩
      exact (execute?_eq_some_iff.1 hv').1
    · intro hmeets
      exact ⟨v, execute?_eq_some_iff.2 ⟨hmeets, hstep⟩, hmask⟩
  · intro hnone
    simp only [execute?_eq_some_iff, exists_and_left]
    exact and_iff_left (Outcome.exists_eq_iff.2 (hok hnone))
  · intro resources hnone
    simp only [interpret?_eq_some_iff, exists_and_left]
    exact and_iff_left (hinterpret resources hnone)

theorem feasible_imageMaskTable {filter : ImageFilter} (hfilter : filter ≠ .none) :
    Feasible .standard (imageMaskTable filter) := by
  refine ⟨by decide, by decide, ?_, ?_, ?_⟩
  · intro t name space ht hspace
    refine ht.of_tables (P := (·.initialAborts = false)) Resources.colorSpaces ?_ hspace
    rw [tables_imageMaskTable]
    simp [imageMaskTable, imageTable, Resources.empty]
  · intro t name i ht hi
    obtain rfl := XObject.image.inj (xObject_imageMaskTable filter ht hi)
    cases filter with
    | none => exact absurd rfl hfilter
    | jpx | other => rfl
  · rintro t name d ht (hd | ⟨m, hd⟩)
    · refine ht.of_tables (P := (·.function.Restrictable)) Resources.shadings ?_ hd
      rw [tables_imageMaskTable]
      simp [imageMaskTable, imageTable, Resources.empty]
    · exfalso
      refine ht.of_tables (P := fun _ => False) Resources.patterns ?_ hd
      rw [tables_imageMaskTable]
      simp [imageMaskTable, imageTable, Resources.empty]

/-- An image under an unknown filter costs the mask, and one that asks for a decoder the run. -/
theorem execute?_outcome_unknownFilter :
    let ts : List (Token ℚ) := [.name "N", .operator "gs"]
    let unknown := imageMaskTable (.other "DCTDecode")
    let s := (ofPage unknown .standard).pushOperand (.name "N")
    MaskFails .standard s (.undecodable (.filter "DCTDecode")) ∧
    (∃ v, execute? .standard [.operator "gs"] s = some (.ok v) ∧ v.state.softMask = none) ∧
    (¬ unknown.NeedsDecoder ∧ ∃ elements, interpret? unknown .standard ts = some (.ok elements)) ∧
    ∃ v, execute? .standard ts (ofPage (imageMaskTable .jpx) .standard) =
      some ⟨v, some (.missingDecoder "JPXDecode")⟩ := by
  intro ts unknown s
  have hfails : MaskFails .standard s (.undecodable (.filter "DCTDecode")) :=
    ⟨_, ⟨⟨"N", imageMask (.other "DCTDecode"), rfl, rfl, rfl⟩, by decide⟩, by decide +kernel⟩
  have hnone : ¬ unknown.NeedsDecoder := not_needsDecoder_imageMaskTable _ (by decide)
  have hmeasures : ∀ g : GraphicsState ℚ, g.Measures := by
    intro g _ x y
    exact div_nonneg (Nat.cast_nonneg _) (Nat.cast_nonneg _)
  have hidle : ∀ filter us (u : Interpreter ℚ), filter ≠ .none →
      u.resources = imageMaskTable filter → ¬ MeetsAbort .standard us u := by
    intro filter us u hfilter hresources
    obtain ⟨-, -, -, -, hidle⟩ := execute?_outcome .standard us u
    exact hidle (hresources ▸ feasible_imageMaskTable hfilter) fun _ v _ => hmeasures v.state
  obtain ⟨-, habsorbed, -, hok, -⟩ := execute?_outcome .standard ts s
  obtain ⟨hfault, -⟩ := execute?_outcome .standard ts (ofPage (imageMaskTable .jpx) .standard)
  obtain ⟨v, hv, hmask, -⟩ :=
    (habsorbed s _ hfails (by simp)).2 (hidle (.other "DCTDecode") _ s (by decide) rfl)
  refine ⟨hfails, ⟨v, hv, hmask⟩, ⟨hnone, ?_⟩, ?_⟩
  · exact (hok unknown hnone).2 (hidle (.other "DCTDecode") ts _ (by decide) rfl)
  · refine (hfault _).2 ⟨hidle .jpx ts _ (by decide) rfl, ⟨_, rfl⟩, ?_⟩
    let u : Interpreter ℚ := (ofPage (imageMaskTable .jpx) .standard).pushOperand (.name "N")
    refine ⟨u, .next rfl (.here _ _ u), _, ⟨⟨"N", imageMask .jpx, rfl, rfl, rfl⟩, by decide⟩, ?_⟩
    decide +kernel

end Interpreter

section RoundLine

/-- A line that the form takes to an infinity, so that there is no telling how long it is. -/
def stretchedForm : FormXObject Float :=
  ⟨⟨0, 0, 10, 10⟩, ⟨1e308, 0, 0, 1, 0, 0⟩, none, Utf8.encode "100 0 m 100 1 l S"⟩

def stretchedLines : Resources Float :=
  { Resources.empty with xObjects := [("F", .form stretchedForm)] }

def roundLineMask : ExtGState Float :=
  { ExtGState.empty with
    softMask := some (.group {
      kind := .alpha
      bbox := ⟨0, 0, 10, 10⟩
      matrix := .identity
      resources := stretchedLines
      content := Utf8.encode "1 J /F Do"
      knockout := false
      isolated := false
      backdrop := none
      colorSpace := none }) }

def roundLineTable : Resources Float :=
  { Resources.empty with extGStates := [("M", roundLineMask)] }

/-- Without any image, a run aborts in sampling a line with round ends whose length is not a
number. -/
theorem interpretContent?_stretchedLine :
    ¬ roundLineTable.NeedsDecoder ∧
      ¬ ∃ elements,
        interpretContent? roundLineTable .standard (Utf8.encode "/M gs") = some (.ok elements) := by
  constructor
  · rintro ⟨t, ht, name, i, hi, -⟩
    have htables : roundLineTable.tables 0 = [(0, roundLineTable), (1, stretchedLines)] := rfl
    have hform : XObject.image i = .form stretchedForm := by
      refine ht.of_tables (P := (· = .form stretchedForm)) Resources.xObjects ?_ hi
      rw [htables]
      simp [roundLineTable, stretchedLines, Resources.empty]
    exact absurd hform (by simp)
  · have hnone :
        (interpretContent? roundLineTable .standard (Utf8.encode "/M gs")).isNone = true := by
      decide +kernel
    rintro ⟨elements, h⟩
    rw [h] at hnone
    exact Bool.false_ne_true hnone

end RoundLine
end ContentStream
