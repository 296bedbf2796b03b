import Mathlib
import ContentStream.Proofs.ColorCoherence
import ContentStream.Proofs.Faults
import ContentStream.Proofs.NestedMasks

set_option autoImplicit false

namespace ContentStream
variable {K : Type}

def Element.PaintsPattern : Element K → Prop
  | .path e =>
    e.paint.fills = true ∧ e.state.fillPattern.isSome = true ∨
      e.paint.strokes = true ∧ e.state.strokePattern.isSome = true
  | .text e =>
    e.state.text.renderMode ∈ [0, 2, 4, 6] ∧ e.state.fillPattern.isSome = true ∨
      e.state.text.renderMode ∈ [1, 2, 5, 6] ∧ e.state.strokePattern.isSome = true
  | _ => False

instance (e : Element K) : Decidable e.PaintsPattern :=
  match e with
  | .path _ => inferInstanceAs (Decidable (_ ∧ _ ∨ _ ∧ _))
  | .text _ => inferInstanceAs (Decidable (_ ∧ _ ∨ _ ∧ _))
  | .image _ | .raster _ => inferInstanceAs (Decidable False)

def GraphicsState.dropPatterns (g : GraphicsState K) : GraphicsState K :=
  { g with fillPattern := none, strokePattern := none }

theorem Layer.usesPattern_iff {e : PathElement K} (h : e.state.PatternsAdmitted) :
    usesPattern e = true ↔ (Element.path e).PaintsPattern := by
  have hfill : e.state.fillsWithPattern = e.state.fillPattern.isSome := by
    unfold GraphicsState.fillsWithPattern
    cases hpattern : e.state.fillPattern.isSome with
    | false => exact Bool.and_false _
    | true => rw [h.fill hpattern, Bool.and_true]
  unfold usesPattern Element.PaintsPattern
  rw [hfill]
  simp only [Bool.or_eq_true, Bool.and_eq_true]

variable [Scalar K]

section Layers
variable {resources : Resources K} {options : Options K} {fault : Fault K}

namespace Layer

theorem ofElement?_path {e : PathElement K} (h : e.state.PatternsAdmitted) :
    ((Element.path e).PaintsPattern →
      ofElement? resources options (.path e) = .error (.unsupportedMask .patternPaint)) ∧
    (¬ (Element.path e).PaintsPattern →
      ofElement? resources options (.path e) =
        .ok ((Sampler.ofElement? (.path e)).map vector)) := by
  rw [← usesPattern_iff h]
  exact ⟨fun huses => if_pos huses, fun hplain => if_neg hplain⟩

theorem ofElement?_dropPatterns {e : Element K} (h : e.state.PatternsAdmitted)
    (hpath : ∀ p, e = .path p → ¬ e.PaintsPattern) :
    ofElement? resources options (e.mapState .dropPatterns) = ofElement? resources options e := by
  cases e with
  | path e =>
    have hplain : ¬ ((Element.path e).mapState .dropPatterns).PaintsPattern := by
      rintro (⟨-, hsome⟩ | ⟨-, hsome⟩) <;> exact absurd hsome Bool.false_ne_true
    have hadmitted : (e.state.dropPatterns).PatternsAdmitted :=
      ⟨Color.admits_none _, Color.admits_none _⟩
    exact ((ofElement?_path hadmitted).2 hplain).trans ((ofElement?_path h).2 (hpath e rfl)).symm
  | text | image | raster => rfl

/-- A list is refused exactly if some element of it is, with the fault of the first such one. -/
theorem ofElements_eq_error_iff {es : List (Element K)} :
    ofElements resources options es = .error fault ↔
      ∃ before e after, es = before ++ e :: after ∧
        (∀ x ∈ before, ∃ layer, ofElement? resources options x = .ok layer) ∧
        ofElement? resources options e = .error fault := by
  induction es with
  | nil => simp [ofElements]
  | cons x es ih =>
    rw [ofElements_cons]
    unfold cons
    cases hx : ofElement? resources options x with
    | error fault' =>
      constructor
      · rintro h
        obtain rfl := Except.error.inj h
        exact ⟨[], x, es, rfl, List.forall_mem_nil _, hx⟩
      · rintro ⟨_ | ⟨y, before⟩, e, after, heq, hbefore, he⟩
        · obtain ⟨rfl, -⟩ := List.cons.inj heq
          rw [← hx, he]
        · obtain ⟨rfl, -⟩ := List.cons.inj heq
          obtain ⟨layer, hlayer⟩ := hbefore x List.mem_cons_self
          cases hx.symm.trans hlayer
    | ok layer =>
      have hrest : ofElements resources options es = .error fault ↔
          ∃ before e after, x :: es = before ++ e :: after ∧
            (∀ y ∈ before, ∃ layer, ofElement? resources options y = .ok layer) ∧
            ofElement? resources options e = .error fault := by
        rw [ih]
        constructor
        · rintro ⟨before, e, after, rfl, hbefore, he⟩
          exact ⟨x :: before, e, after, rfl, List.forall_mem_cons.2 ⟨⟨layer, hx⟩, hbefore⟩, he⟩
        · rintro ⟨_ | ⟨y, before⟩, e, after, heq, hbefore, he⟩
          · obtain ⟨rfl, -⟩ := List.cons.inj heq
            cases hx.symm.trans he
          · obtain ⟨rfl, rfl⟩ := List.cons.inj heq
            exact ⟨before, e, after, rfl, (List.forall_mem_cons.1 hbefore).2, he⟩
      rw [← hrest]
      cases ofElements resources options es with
      | error fault' => rfl
      | ok layers => cases layer <;> simp

theorem exists_layer_of_ofElements {es : List (Element K)}
    {layers : List (Layer K × GraphicsState K)} (h : ofElements resources options es = .ok layers) :
    ∀ e ∈ es, ∃ layer, ofElement? resources options e = .ok layer := by
  induction es generalizing layers with
  | nil => exact List.forall_mem_nil _
  | cons e es ih =>
    obtain ⟨layer, rest, hlayer, hrest, -⟩ := ofElements_cons_eq_ok_iff.1 h
    exact List.forall_mem_cons.2 ⟨⟨layer, hlayer⟩, ih hrest⟩

end Layer

theorem Element.rasterizeMasked?_dropPatterns (e : Element K) :
    (e.mapState .dropPatterns).rasterizeMasked? =
      e.rasterizeMasked?.map fun r =>
        { r with state := { r.state with strokePattern := none } } := by
  have hsampler : Sampler.ofElement? (e.mapState .dropPatterns) = Sampler.ofElement? e := by
    cases e <;> rfl
  unfold rasterizeMasked?
  rw [hsampler, state_mapState]
  change e.state.softMask.bind _ = _
  cases e.state.softMask with
  | none => rfl
  | some m =>
    rw [Option.bind_some, Option.bind_some]
    split
    · cases Sampler.ofElement? e <;> rfl
    · rfl

theorem Interpreter.layer_drawn_dropPatterns {e : Element K} {r : RasterImage K}
    (hmasked : isMasked e = true) (hr : e.rasterizeMasked? = some r) :
    drawn e = .raster r ∧
      Layer.ofElement? resources options (drawn (e.mapState .dropPatterns)) =
        Layer.ofElement? resources options (drawn e) := by
  have hmasked' : isMasked (e.mapState .dropPatterns) = true := by
    rw [← hmasked]
    cases e <;> rfl
  have hdrawn : drawn e = .raster r := by
    rw [drawn, if_pos hmasked, hr]
    rfl
  have hdrawn' : drawn (e.mapState .dropPatterns) =
      .raster { r with state := { r.state with strokePattern := none } } := by
    rw [drawn, if_pos hmasked', Element.rasterizeMasked?_dropPatterns, hr]
    rfl
  rw [hdrawn, hdrawn']
  exact ⟨rfl, rfl⟩

theorem Painted.layer_raster {g : GraphicsState K} {r : RasterImage K}
    (h : Painted options g (.raster r)) :
    Interpreter.drawn (.raster r) = .raster r ∧
      Layer.ofElement? resources options (.raster r) =
        (Layer.ofImage ⟨r.width, r.height, r.pixels⟩ r.state.ctm r.state.fillAlpha).map some := by
  have hsize : r.pixels.size = r.width * r.height * 4 := by
    cases h with
    | shading _ _ _ _ _ hr =>
      obtain ⟨-, -, _, -, -, hholds⟩ := Shading.rasterize?_spec hr
      exact hholds.size
    | pattern _ _ _ _ _ hr =>
      obtain ⟨-, -, _, -, -, hholds⟩ := Shading.rasterize?_spec hr
      exact hholds.size
  exact ⟨rfl, if_neg (not_not.2 hsize)⟩

namespace SoftMaskGroup

theorem constantValue?_dropPatterns (kind : MaskKind) (bbox : Rect K) {es : List (Element K)}
    (hadmitted : ∀ e ∈ es, e.state.PatternsAdmitted)
    (hpaths : ∀ p, .path p ∈ es → ¬ (Element.path p).PaintsPattern) :
    constantValue? kind bbox (es.map (Element.mapState .dropPatterns)) =
      constantValue? kind bbox es := by
  rcases constantValue?_cases kind bbox es with
    ⟨x, y, w, h, rule, state, rfl⟩ | ⟨hnone, hmapped⟩
  · have hmem := List.mem_singleton_self
      (Element.path ⟨[Segment.rect x y w h], .fill, rule, state⟩)
    have hplain := mt (Layer.usesPattern_iff (hadmitted _ hmem)).1 (hpaths _ hmem)
    have hfills : state.fillsWithPattern = false := by
      simpa [Layer.usesPattern, Paint.fills, Paint.strokes] using hplain
    have hfills' : state.dropPatterns.fillsWithPattern = false := Bool.and_false _
    simp only [constantValue?, List.map_cons, List.map_nil, Element.mapState, hfills, hfills']
    rfl
  · rw [hnone, hmapped]

variable (g : SoftMaskGroup K)

/-- Where no path paints a pattern, the patterns that are selected make no difference. -/
theorem valueOf_dropPatterns (ctm : Transform K) {es : List (Element K)}
    (hadmitted : ∀ e ∈ es, e.state.PatternsAdmitted)
    (hpaths : ∀ p, .path p ∈ es → ¬ (Element.path p).PaintsPattern) :
    g.valueOf ctm options (es.map (Element.mapState .dropPatterns)) =
      g.valueOf ctm options es := by
  have hlayers : Layer.ofElements g.resources options (es.map (Element.mapState .dropPatterns)) =
      (Layer.ofElements g.resources options es).map
        (List.map fun l => (l.1, l.2.dropPatterns)) := by
    refine Layer.ofElements_mapState (F := fun _ l => l) fun e he => ?_
    rw [Layer.ofElement?_dropPatterns (hadmitted e he) fun p hp => hp ▸ hpaths p (hp ▸ he)]
    rcases Layer.ofElement? g.resources options e with fault | _ | l <;> rfl
  have hcomposite : g.composite g.bbox.normalize (es.map (Element.mapState .dropPatterns)) options =
      g.composite g.bbox.normalize es options := by
    unfold composite
    rw [hlayers]
    cases Layer.ofElements g.resources options es with
    | error fault => rfl
    | ok layers =>
      simp only [Except.map, alphaBytes, List.foldl_map]
      rfl
  unfold valueOf
  dsimp only
  rw [constantValue?_dropPatterns g.kind g.bbox.normalize hadmitted hpaths, hcomposite]

/-- The failures of compositing a path that paints a pattern: the pattern itself, a bounding box
that has no grid, or something that is no path and is drawn earlier. -/
inductive Refusal (options : Options K) (g : SoftMaskGroup K) (p : PathElement K)
    (es : List (Element K)) : Fault K → Prop
  | pattern : Refusal options g p es (.unsupportedMask .patternPaint)
  | noGrid (h : Grid.size? (g.bbox.normalize.x1 - g.bbox.normalize.x0)
      (g.bbox.normalize.y1 - g.bbox.normalize.y0) options.softMaskBudget = none) :
      Refusal options g p es (.unsupportedMask (.unrasterizable g.bbox.normalize))
  | earlier {before after : List (Element K)} {e : Element K} {fault : Fault K}
      (h : es = before ++ e :: after) (hp : .path p ∈ after) (hother : ∀ q, e ≠ .path q)
      (hfault : Layer.ofElement? g.resources options e = .error fault) :
      Refusal options g p es fault

variable {g} {es : List (Element K)} {p : PathElement K}

theorem ofElements_of_pattern (hadmitted : ∀ e ∈ es, e.state.PatternsAdmitted)
    (hp : .path p ∈ es) (hpattern : (Element.path p).PaintsPattern) :
    ∃ fault, Layer.ofElements g.resources options es = .error fault ∧
      g.Refusal options p es fault := by
  have hrefused : Layer.ofElement? g.resources options (.path p) =
      .error (.unsupportedMask .patternPaint) :=
    (Layer.ofElement?_path (hadmitted _ hp)).1 hpattern
  cases hlayers : Layer.ofElements g.resources options es with
  | ok layers =>
    obtain ⟨layer, hlayer⟩ := Layer.exists_layer_of_ofElements hlayers _ hp
    cases hrefused.symm.trans hlayer
  | error fault =>
    refine ⟨fault, rfl, ?_⟩
    obtain ⟨before, e, after, rfl, hbefore, he⟩ := Layer.ofElements_eq_error_iff.1 hlayers
    by_cases hpath : ∃ q, e = .path q
    · -- Nothing but a pattern is wrong with a path.
      obtain ⟨q, rfl⟩ := hpath
      have hq := hadmitted _ (List.mem_append_right before List.mem_cons_self)
      by_cases hplain : (Element.path q).PaintsPattern
      · obtain rfl := Except.error.inj (((Layer.ofElement?_path hq).1 hplain).symm.trans he)
        exact .pattern
      · cases ((Layer.ofElement?_path hq).2 hplain).symm.trans he
    · have hother : ∀ q, e ≠ .path q := fun q hq => hpath ⟨q, hq⟩
      rcases List.mem_append.1 hp with hp | hp
      · obtain ⟨layer, hlayer⟩ := hbefore _ hp
        cases hrefused.symm.trans hlayer
      · have hafter := (List.mem_cons.1 hp).resolve_left (hother p).symm
        exact .earlier rfl hafter hother he

theorem valueOf_of_pattern (hadmitted : ∀ e ∈ es, e.state.PatternsAdmitted)
    (hp : .path p ∈ es) (hpattern : (Element.path p).PaintsPattern) (ctm : Transform K) :
    ∃ fault, g.valueOf ctm options es = .error fault ∧ g.Refusal options p es fault := by
  have hconstant : constantValue? g.kind g.bbox.normalize es = none := by
    rcases constantValue?_cases g.kind g.bbox.normalize es with
      ⟨x, y, w, h, rule, state, rfl⟩ | ⟨hnone, -⟩
    · obtain rfl := Element.path.inj (List.mem_singleton.1 hp)
      have huses := (Layer.usesPattern_iff (hadmitted _ hp)).2 hpattern
      have hfills : state.fillsWithPattern = true := by
        simpa [Layer.usesPattern, Paint.fills, Paint.strokes] using huses
      simp [constantValue?, hfills]
    · exact hnone
  obtain ⟨fault, hlayers, hrefusal⟩ := ofElements_of_pattern (g := g) hadmitted hp hpattern
  unfold valueOf composite
  dsimp only
  rw [hconstant, hlayers]
  cases hsize : Grid.size? (g.bbox.normalize.x1 - g.bbox.normalize.x0)
      (g.bbox.normalize.y1 - g.bbox.normalize.y0) options.softMaskBudget with
  | none => exact ⟨_, rfl, .noGrid hsize⟩
  | some size => exact ⟨fault, rfl, hrefusal⟩

end SoftMaskGroup
end Layers

def emission (options : Options K) : Discipline K where
  entry _ := True
  state _ := True
  element e := ∃ painted g, Painted options g painted ∧ e = Interpreter.drawn painted

theorem emission_kept (options : Options K) : (emission options).Kept options where
  initial _ _ := trivial
  update _ _ := trivial
  clip _ _ _ _ := trivial
  bound _ _ _ _ := trivial
  extGState _ _ := trivial
  unmask _ := trivial
  mask _ _ _ := trivial
  paint {g e} hpainted _ := ⟨e, g, hpainted, rfl⟩

namespace SoftMaskGroup

theorem evaluate_eq_elim (options : Options K) (g : SoftMaskGroup K) (ctm : Transform K)
    (depth : Nat) : g.evaluate options ctm depth =
      (Interpreter.execute options (tokenize g.content) (.ofGroup g.resources depth)).fault.elim
        (g.valueOf ctm options
          (Interpreter.execute options (tokenize g.content)
            (.ofGroup g.resources depth)).state.finish) .error := by
  unfold evaluate evaluateWith
  dsimp only
  cases (Interpreter.execute options (tokenize g.content) (.ofGroup g.resources depth)).fault <;>
    rfl

theorem patternsAdmitted_drawn (options : Options K) (g : SoftMaskGroup K) (depth : Nat) :
    ∀ e ∈ (Interpreter.execute options (tokenize g.content)
      (.ofGroup g.resources depth)).state.finish, e.state.PatternsAdmitted :=
  (Interpreter.comesTo_colors options (.group depth)
    (Interpreter.comesTo_execute options _ _)).1.2.2

theorem evaluate_of_pattern (options : Options K) {g : SoftMaskGroup K} {depth : Nat}
    {p : PathElement K} (hpattern : (Element.path p).PaintsPattern) (ctm : Transform K) :
    let run := Interpreter.execute options (tokenize g.content) (.ofGroup g.resources depth)
    .path p ∈ run.state.finish → ∃ fault, g.evaluate options ctm depth = .error fault ∧
      (run.fault = some fault ∨
        run.fault = none ∧ g.Refusal options p run.state.finish fault) := by
  intro run hp
  rw [evaluate_eq_elim]
  cases hfault : run.fault with
  | some fault => exact ⟨fault, rfl, .inl rfl⟩
  | none =>
    obtain ⟨fault, hvalue, hrefusal⟩ :=
      valueOf_of_pattern (g := g) (patternsAdmitted_drawn options g depth) hp hpattern ctm
    exact ⟨fault, hvalue, .inr ⟨rfl, hrefusal⟩⟩

/-- A group whose content emits a path that paints a pattern has no value: `gs` goes on without a
mask, or stops at a fatal fault. Where nothing but texts paint patterns, the value is the one that
the flat colours of their states give. What a nested mask has made pixels of is composited as if no
pattern had been selected either, and a shading as the pixels that it was emitted as. -/
theorem evaluate_patterned (options : Options K) (g : SoftMaskGroup K) (depth : Nat) :
    let run := Interpreter.execute options (tokenize g.content) (.ofGroup g.resources depth)
    let drawn := run.state.finish
    (∀ p, .path p ∈ drawn → (Element.path p).PaintsPattern →
      (∀ ctm, ∃ fault, g.evaluate options ctm depth = .error fault ∧
        (run.fault = some fault ∨ run.fault = none ∧ g.Refusal options p drawn fault)) ∧
      ∀ s, Interpreter.SetsMask options s g → s.maskDepth + 1 = depth →
        (∃ u, s.step (Interpreter.execute options) options (.operator "gs") = .ok u ∧
          u.state.softMask = none ∧ u.state.softMaskAlpha = 1) ∨
        ∃ fault, fault.isFatal = true ∧
          (s.step (Interpreter.execute options) options (.operator "gs")).fault = some fault) ∧
    ((∀ p, .path p ∈ drawn → ¬ (Element.path p).PaintsPattern) → run.fault = none → ∀ ctm,
      g.evaluate options ctm depth =
        g.valueOf ctm options (drawn.map (Element.mapState .dropPatterns))) ∧
    (∀ e ∈ drawn, ∃ painted state, Painted options state painted ∧
      e = Interpreter.drawn painted) ∧
    (∀ e r, Interpreter.isMasked e = true → e.rasterizeMasked? = some r →
      Interpreter.drawn e = .raster r ∧
        Layer.ofElement? g.resources options (Interpreter.drawn (e.mapState .dropPatterns)) =
          Layer.ofElement? g.resources options (Interpreter.drawn e)) ∧
    ∀ state r, Painted options state (.raster r) → Interpreter.drawn (.raster r) = .raster r ∧
      Layer.ofElement? g.resources options (.raster r) =
        (Layer.ofImage ⟨r.width, r.height, r.pixels⟩ r.state.ctm r.state.fillAlpha).map some := by
  intro run drawn
  have hadmitted := patternsAdmitted_drawn options g depth
  refine ⟨fun p hp hpattern => ⟨fun ctm => evaluate_of_pattern options hpattern ctm hp, ?_⟩, ?_,
    ?_, ?_, ?_⟩
  · rintro s hsets rfl
    obtain ⟨fault, hvalue, -⟩ := evaluate_of_pattern options hpattern s.state.ctm hp
    have hmask : Interpreter.MaskFails options s fault := ⟨g, hsets, hvalue⟩
    cases hfatal : fault.isFatal with
    | false => exact .inl (hmask.absorbed hfatal)
    | true => exact .inr ⟨fault, hfatal, (s.step_extGState_fault_iff).2 ⟨hfatal, hmask⟩⟩
  · intro hpaths hfault ctm
    rw [evaluate_eq_elim, hfault, g.valueOf_dropPatterns ctm hadmitted hpaths]
    rfl
  · have hkept := emission_kept options
    have hstart : Interpreter.Starts options g.resources (.ofGroup g.resources depth) :=
      .group depth
    exact hkept.finish (hkept.execute _ _ (hkept.of_starts (fun _ _ _ _ _ => trivial) hstart))
  · exact fun e r hmasked hr => Interpreter.layer_drawn_dropPatterns hmasked hr
  · exact fun state r hpainted => hpainted.layer_raster

/-- A line that is stroked with a pattern costs the group its value. -/
theorem evaluate_patterned_stroke :
    let g := squareGroup "/Pattern CS /P SCN 0 0 m 2 2 l S"
    let run := Interpreter.execute coarse (tokenize g.content) (.ofGroup g.resources 1)
    let line : PathElement ℚ := ⟨[.moveTo ⟨0, 0⟩, .lineTo ⟨2, 2⟩], .stroke, none,
      { GraphicsState.initial with strokeColor := ⟨.pattern, []⟩, strokePattern := some "P" }⟩
    .path line ∈ run.state.finish ∧ (Element.path line).PaintsPattern ∧
      ∃ fault, g.evaluate coarse .identity 1 = .error fault ∧
        (run.fault = some fault ∨
          run.fault = none ∧ g.Refusal coarse line run.state.finish fault) := by
  intro g run line
  have hdrawn : .path line ∈ run.state.finish := by decide +kernel
  have hpattern : (Element.path line).PaintsPattern := by decide
  obtain ⟨hfails, -⟩ := evaluate_patterned coarse g 1
  exact ⟨hdrawn, hpattern, (hfails line hdrawn hpattern).1 .identity⟩

/-- A text that is filled with a pattern is composited in full, and so is a fill with a pattern
through the nested mask `N`. -/
theorem evaluate_patterned_text :
    (let g := squareGroup "/Pattern cs /P scn BT /F 4 Tf (x) Tj ET"
     let run := Interpreter.execute coarse (tokenize g.content) (.ofGroup g.resources 1)
     run.state.finish ≠ [] ∧ (∀ e ∈ run.state.finish, e.PaintsPattern) ∧
     g.evaluate coarse .identity 1 =
       .ok (.grid ⟨.alpha, 2, 2, #[255, 255, 255, 255], ⟨0, 0, 2, 2⟩, ⟨2, 0, 0, 2, 0, 0⟩⟩)) ∧
    (let g := withNested (squareGroup "0 0 1 2 re f") "/N gs /Pattern cs /P scn 0 0 2 2 re f"
     g.evaluate coarse .identity 1 =
       .ok (.grid ⟨.alpha, 2, 2, #[255, 0, 255, 0], ⟨0, 0, 2, 2⟩, ⟨2, 0, 0, 2, 0, 0⟩⟩)) := by
  refine ⟨⟨?_, ?_, ?_⟩, ?_⟩
  · decide +kernel
  · decide +kernel
  · decide +kernel
  · decide +kernel

end SoftMaskGroup
end ContentStream
