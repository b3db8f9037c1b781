import PatternMarkup.Drawing.Pattern
import PatternMarkup.Proofs.Number.ExactNumbers
/-!
Where a pattern is drawn does not matter to how it is drawn. In exact arithmetic, of a target that
is moved come the same commands, moved as far, and the same report. A figure sees its target only
through the map to the canvas, and of that map the move changes the last step alone.
-/

namespace PatternMarkup

section Moving

variable {α β γ : Type} [Number α]

/-! ### What is moved -/

/-- The path moved by a vector. -/
def Path.translate (d : Point α) (path : Path α) : Path α := path.map (· + d)

/-- The paint moved by a vector: a gradient goes along, a color is the same everywhere. -/
def CanvasPaint.translate (d : Point α) : CanvasPaint α → CanvasPaint α
  | solid color => solid color
  | linear start stop stops => linear (start + d) (stop + d) stops
  | radial center radius stops => radial (center + d) radius stops

/-- The command moved by a vector. -/
def DrawCommand.translate (d : Point α) : DrawCommand α → DrawCommand α
  | save => save
  | restore => restore
  | clip path => clip (path.translate d)
  | fill path paint => fill (path.translate d) (paint.translate d)
  | stroke path paint width => stroke (path.translate d) (paint.translate d) width
  | text t origin style => text t (origin + d) style
  | image href rect => image href (rect.translate d.x d.y)
  | field name rect => field name (rect.translate d.x d.y)

/-- The map followed by a move. -/
def Transform.thenMoved (m : Transform α) (d : Point α) : Transform α :=
  { m with e := m.e + d.x, f := m.f + d.y }

/-- The sheet with its commands moved. -/
def Sheet.translate (d : Point α) (s : Sheet α) : Sheet α :=
  { s with commands := s.commands.map (DrawCommand.translate d) }

/-- The step with its commands moved; its result is the same. -/
def Draw.translate (d : Point α) (x : Draw α β) : Draw α β := ⟨x.sheet.translate d, x.result⟩

/-- The outcome with its commands moved; its report is the same. -/
def DrawOutcome.translate (d : Point α) (outcome : DrawOutcome α) : DrawOutcome α :=
  { outcome with commands := outcome.commands.map (DrawCommand.translate d) }

@[simp] theorem CanvasPaint.isInvisible_translate (d : Point α) (paint : CanvasPaint α) :
    (paint.translate d).isInvisible = paint.isInvisible := by
  cases paint <;> rfl

@[simp] theorem Path.isEmpty_translate (d : Point α) (path : Path α) :
    (path.translate d).isEmpty = path.isEmpty :=
  List.isEmpty_map

theorem Sheet.translate_append (d : Point α) (s t : Sheet α) :
    (s ++ t).translate d = s.translate d ++ t.translate d := by
  show Sheet.mk _ _ _ _ = Sheet.mk _ _ _ _
  congr 1
  exact List.map_append

/-- A path sent through a map and then moved, in one go. -/
theorem Path.translate_map (d : Point α) (f : Point α → Point α) (path : Path α) :
    (path.map f).translate d = path.map fun p => f p + d := by
  unfold Path.translate Path.map
  rw [List.map_map]
  congr 2
  funext command
  cases command <;> rfl

/-! ### Steps of drawing -/

namespace Draw

theorem translate_orElse (d : Point α) (x : Draw α Unit) (other : EvalError → Draw α Unit) :
    (x.orElse other).translate d =
      (x.translate d).orElse fun e => (other e).translate d := by
  obtain ⟨sheet, result⟩ := x
  cases result with
  | ok _ => rfl
  | error e => exact congrArg (Draw.mk · _) (Sheet.translate_append d _ _)

theorem translate_bind (d : Point α) (x : Draw α β) (next : β → Draw α γ) :
    (x >>= next).translate d = x.translate d >>= fun b => (next b).translate d := by
  obtain ⟨sheet, result⟩ := x
  cases result with
  | error e => rfl
  | ok b => exact congrArg (Draw.mk · _) (Sheet.translate_append d _ _)

/-- Looking at a value moves nothing, so only what follows has to be moved. -/
theorem look_eq_translate {d : Point α} (x : Except EvalError β) {next next' : β → Draw α γ}
    (h : ∀ b, next' b = (next b).translate d) :
    (liftM x >>= next' : Draw α γ) = (liftM x >>= next : Draw α γ).translate d := by
  rw [translate_bind]
  exact congrArg (liftM x >>= ·) (funext h)

/-- Looking at two values of which the second is a function of the first. -/
theorem look_map_eq_translate {d : Point α} (x : Except EvalError β) (f : β → β)
    {next next' : β → Draw α γ} (h : ∀ b, next' (f b) = (next b).translate d) :
    (liftM (x.map f) >>= next' : Draw α γ) = (liftM x >>= next : Draw α γ).translate d := by
  rw [← look_eq_translate x h]
  cases x <;> rfl

theorem fill_translate (d : Point α) (path : Path α) (paint : CanvasPaint α) :
    fill (path.translate d) (paint.translate d) = (fill path paint).translate d := by
  unfold fill
  rw [CanvasPaint.isInvisible_translate, Path.isEmpty_translate]
  split <;> rfl

theorem stroke_translate (d : Point α) (path : Path α) (width : α) (paint : CanvasPaint α) :
    stroke (path.translate d) width (paint.translate d) =
      (stroke path width paint).translate d := by
  unfold stroke
  rw [CanvasPaint.isInvisible_translate, Path.isEmpty_translate]
  split
  · rfl
  · split <;> rfl

theorem paint_translate (d : Point α) (path : Path α) (filling stroking : Option (CanvasPaint α))
    (width : α) :
    paint (path.translate d) (filling.map (.translate d)) (stroking.map (.translate d)) width =
      (paint path filling stroking width).translate d := by
  have hfill : (filling.map (CanvasPaint.translate d)).forM (fill (path.translate d)) =
      (filling.forM (fill path)).translate d := by
    cases filling with
    | none => rfl
    | some paint => exact fill_translate d path paint
  have hstroke : (stroking.map (CanvasPaint.translate d)).forM
      (stroke (path.translate d) width) = (stroking.forM (stroke path width)).translate d := by
    cases stroking with
    | none => rfl
    | some paint => exact stroke_translate d path width paint
  unfold paint
  rw [translate_bind, hfill, hstroke]

theorem clipped_translate (d : Point α) (clip : Bool) (path : Path α) (inside : Draw α Unit) :
    clipped clip (path.translate d) (inside.translate d) =
      (clipped clip path inside).translate d := by
  cases clip with
  | false => rfl
  | true =>
      unfold clipped
      simp only [if_true, translate_bind]
      rfl

end Draw

end Moving

open Draw

variable {α : Type} [ExactNumber α]

/-! ### Maps to the canvas -/

theorem Transform.apply_thenMoved (m : Transform α) (d p : Point α) :
    (m.thenMoved d).apply p = m.apply p + d := by
  have hx : m.a * p.x + m.c * p.y + (m.e + d.x) = m.a * p.x + m.c * p.y + m.e + d.x :=
    (add_assoc ..).symm
  have hy : m.b * p.x + m.d * p.y + (m.f + d.y) = m.b * p.x + m.d * p.y + m.f + d.y :=
    (add_assoc ..).symm
  exact congrArg₂ Point.mk hx hy

theorem Transform.thenMoved_mul (m inner : Transform α) (d : Point α) :
    m.thenMoved d * inner = (m * inner).thenMoved d := by
  have he : m.a * inner.e + m.c * inner.f + (m.e + d.x) =
      m.a * inner.e + m.c * inner.f + m.e + d.x := (add_assoc ..).symm
  have hf : m.b * inner.e + m.d * inner.f + (m.f + d.y) =
      m.b * inner.e + m.d * inner.f + m.f + d.y := (add_assoc ..).symm
  exact congrArg₂ (Transform.mk _ _ _ _) he hf

/-- The second chain of steps is the first one followed by a move: the last step of both is affine,
and there alone they differ. -/
inductive StepsMoved (d : Point α) : List (MappingStep α) → List (MappingStep α) → Prop where
  | last (m : Transform α) : StepsMoved d [.affine m] [.affine (m.thenMoved d)]
  | step (s : MappingStep α) {rest rest' : List (MappingStep α)} (hrest : StepsMoved d rest rest') :
      StepsMoved d (s :: rest) (s :: rest')

/-- The second map is the first one followed by a move. -/
def Mapping.Moved (d : Point α) (m m' : Mapping α) : Prop := StepsMoved d m.steps m'.steps

namespace Mapping

variable {d : Point α} {m m' : Mapping α}

theorem Moved.transformed (h : m.Moved d m') (inner : Transform α) :
    (m.transformed inner).Moved d (m'.transformed inner) := by
  obtain ⟨steps⟩ := m
  obtain ⟨steps'⟩ := m'
  cases h with
  | last outer =>
      have hlast := StepsMoved.last (d := d) (outer * inner)
      rwa [← Transform.thenMoved_mul] at hlast
  | step s hrest =>
      cases s with
      | affine outer => exact hrest.step (.affine (outer * inner))
      | slice scaling => exact (hrest.step (.slice scaling)).step (.affine inner)

theorem Moved.sliced (h : m.Moved d m') (inner : SliceScaling α) :
    (m.sliced inner).Moved d (m'.sliced inner) :=
  h.step (.slice inner)

theorem Moved.apply (h : m.Moved d m') (p : Point α) : m'.apply p = m.apply p + d := by
  obtain ⟨steps⟩ := m
  obtain ⟨steps'⟩ := m'
  change StepsMoved d steps steps' at h
  unfold Mapping.apply
  induction h generalizing p with
  | last outer => exact outer.apply_thenMoved d p
  | step s _ ih => exact ih (s.apply p)

/-- A move changes no length. -/
theorem Moved.lengthScale (h : m.Moved d m') : m'.lengthScale = m.lengthScale := by
  obtain ⟨steps⟩ := m
  obtain ⟨steps'⟩ := m'
  change StepsMoved d steps steps' at h
  unfold Mapping.lengthScale
  induction h with
  | last outer => rfl
  | step s _ ih => exact congrArg (· * s.lengthScale) ih

theorem Moved.path (h : m.Moved d m') (p : Path α) : m'.path p = (m.path p).translate d := by
  unfold Mapping.path
  rw [Path.translate_map]
  exact congrArg p.map (funext h.apply)


end Mapping

theorem Rect.normalized_translate (r : Rect α) (dx dy : α) :
    (r.translate dx dy).normalized = r.normalized.translate dx dy := by
  by_cases hwidth : r.width < Number.zero <;> by_cases hheight : r.height < Number.zero <;>
    simp [Rect.normalized, Rect.translate, hwidth, hheight, add_right_comm]

/-- The rectangle that two points span moves with them. -/
theorem Rect.ofPoints_translate (p q d : Point α) :
    Rect.ofPoints (p + d) (q + d) = (Rect.ofPoints p q).translate d.x d.y := by
  unfold Rect.ofPoints
  rw [← Rect.normalized_translate]
  have hwidth : q.x + d.x - (p.x + d.x) = q.x - p.x := add_sub_add_right_eq_sub ..
  have hheight : q.y + d.y - (p.y + d.y) = q.y - p.y := add_sub_add_right_eq_sub ..
  exact congrArg Rect.normalized (congrArg₂ (Rect.mk _ _) hwidth hheight)

section Figures

variable {d : Point α} {m m' : Mapping α}

theorem Mapping.Moved.rect (h : m.Moved d m') (r : Rect α) :
    m'.rect r = (m.rect r).translate d.x d.y := by
  unfold Mapping.rect
  rw [h.apply, h.apply, Rect.ofPoints_translate]

/-! ### Paints -/

/-- What follows a value is sent through a function, if it is for every value. -/
theorem evaluation_eq_map {β γ δ : Type} (x : Except EvalError β) (f : γ → δ)
    {next : β → Except EvalError γ} {next' : β → Except EvalError δ}
    (h : ∀ b, next' b = (next b).map f) : x >>= next' = (x >>= next).map f := by
  cases x with
  | error e => rfl
  | ok b => exact h b

theorem Paint.resolve_moved (h : m.Moved d m') (bounds : Rect α) (s : Scope α) (paint : Paint α) :
    paint.resolve bounds m' s = (paint.resolve bounds m s).map (.translate d) := by
  cases paint with
  | color c => exact evaluation_eq_map _ _ fun color => rfl
  | linear x1 y1 x2 y2 stops =>
      refine evaluation_eq_map _ _ fun x1 => evaluation_eq_map _ _ fun y1 => ?_
      refine evaluation_eq_map _ _ fun x2 => evaluation_eq_map _ _ fun y2 => ?_
      refine evaluation_eq_map _ _ fun stops => ?_
      rw [h.apply, h.apply]
      rfl
  | radial cx cy r stops =>
      refine evaluation_eq_map _ _ fun cx => evaluation_eq_map _ _ fun cy => ?_
      refine evaluation_eq_map _ _ fun r => evaluation_eq_map _ _ fun stops => ?_
      rw [h.apply, h.lengthScale]
      rfl

theorem resolvePaint_moved (h : m.Moved d m') (bounds : Rect α) (s : Scope α)
    (paint : Option (Paint α)) :
    resolvePaint bounds m' s paint =
      (resolvePaint bounds m s paint).map (Option.map (.translate d)) := by
  cases paint with
  | none => rfl
  | some paint =>
      show (paint.resolve bounds m' s).map some = ((paint.resolve bounds m s).map some).map _
      rw [paint.resolve_moved h]
      cases paint.resolve bounds m s <;> rfl

/-- Looking at a paint, when what follows draws with the moved paint what it draws with the
other. -/
theorem look_paint_moved (h : m.Moved d m') (bounds : Rect α) (s : Scope α)
    (paint : Option (Paint α)) {next next' : Option (CanvasPaint α) → Draw α Unit}
    (hnext : ∀ paint, next' (paint.map (.translate d)) = (next paint).translate d) :
    (liftM (resolvePaint bounds m' s paint) >>= next' : Draw α Unit) =
      (liftM (resolvePaint bounds m s paint) >>= next : Draw α Unit).translate d := by
  rw [resolvePaint_moved h]
  exact look_map_eq_translate _ _ hnext

/-! ### Figures -/

theorem Look.mapping_moved (h : m.Moved d m') (look : Look α) :
    (look.mapping m).Moved d (look.mapping m') := by
  unfold Look.mapping
  cases look.ownTransform with
  | none => exact h
  | some own => exact h.transformed own

/-- What is drawn inside a figure moves with the map that it is given. -/
def DrawInside.Moves (inside : DrawInside α) : Prop :=
  ∀ s {d : Point α} {m m' : Mapping α}, m.Moved d m' → inside s m' = (inside s m).translate d

variable {inside : DrawInside α}

theorem FigureFrame.draw_moved (frame : FigureFrame α) (style : Style α) (s : Scope α)
    (hinside : inside.Moves) (h : m.Moved d m') :
    frame.draw style s m' inside = (frame.draw style s m inside).translate d := by
  refine look_eq_translate _ fun rect => look_eq_translate _ fun slicing => ?_
  refine look_eq_translate _ fun look => ?_
  split
  · have hown := look.mapping_moved h
    refine look_paint_moved hown _ _ _ fun filling => look_paint_moved hown _ _ _ fun stroking => ?_
    have hplaced := hown.transformed (.translate rect.x rect.y)
    rw [translate_bind, hown.path, hown.lengthScale, paint_translate, ← clipped_translate]
    cases slicing with
    | none => rw [hinside _ hplaced]
    | some values => rw [hinside _ (hplaced.sliced _)]
  · rfl

theorem drawGroup_moved (style : Style α) (s : Scope α) (hinside : inside.Moves)
    (h : m.Moved d m') :
    drawGroup style s m' inside = (drawGroup style s m inside).translate d := by
  refine look_eq_translate _ fun look => ?_
  split
  · exact hinside _ (look.mapping_moved h)
  · rfl

theorem Shape.draw_moved (shape : Shape α) (style : Style α) (s : Scope α) (h : m.Moved d m') :
    shape.draw style s m' = (shape.draw style s m).translate d := by
  refine look_eq_translate _ fun look => ?_
  split
  · have hown := look.mapping_moved h
    refine look_eq_translate _ fun outline => ?_
    refine look_paint_moved hown _ _ _ fun filling => look_paint_moved hown _ _ _ fun stroking => ?_
    rw [hown.path, hown.lengthScale, paint_translate]
  · rfl

theorem TextRun.draw_moved (run : TextRun α) (stage : Stage α) (style : Style α) (s : Scope α)
    (h : m.Moved d m') : run.draw stage style s m' = (run.draw stage style s m).translate d := by
  refine look_eq_translate _ fun look => ?_
  split
  · have hown := look.mapping_moved h
    refine look_eq_translate _ fun content => ?_
    split
    · rfl
    · refine look_eq_translate _ fun fontSize => look_eq_translate _ fun x => ?_
      refine look_eq_translate _ fun y => look_eq_translate _ fun fontFamily => ?_
      rw [hown.apply, hown.lengthScale]
      rfl
  · rfl

theorem Picture.draw_moved (picture : Picture α) (stage : Stage α) (style : Style α) (s : Scope α)
    (h : m.Moved d m') :
    picture.draw stage style s m' = (picture.draw stage style s m).translate d := by
  refine look_eq_translate _ fun look => ?_
  split
  · refine look_eq_translate _ fun href => look_eq_translate _ fun width => ?_
    refine look_eq_translate _ fun height => look_eq_translate _ fun size => ?_
    refine look_eq_translate _ fun x => look_eq_translate _ fun y => ?_
    rw [(look.mapping_moved h).rect]
    rfl
  · rfl

theorem Slot.draw_moved (slot : Slot α) (style : Style α) (s : Scope α) (h : m.Moved d m') :
    slot.draw style s m' = (slot.draw style s m).translate d := by
  refine look_eq_translate _ fun look => ?_
  split
  · refine look_eq_translate _ fun x => look_eq_translate _ fun y => ?_
    refine look_eq_translate _ fun width => look_eq_translate _ fun height => ?_
    rw [(look.mapping_moved h).rect]
    rfl
  · rfl

theorem FigureHead.drawOnce_moved (head : FigureHead α) (stage : Stage α) (s : Scope α)
    (hinside : inside.Moves) (h : m.Moved d m') :
    head.drawOnce stage inside s m' = (head.drawOnce stage inside s m).translate d := by
  unfold FigureHead.drawOnce
  cases head.kind with
  | div frame => exact frame.draw_moved _ _ hinside h
  | area role frame => exact frame.draw_moved _ _ hinside h
  | group => exact drawGroup_moved _ _ hinside h
  | shape shape => exact shape.draw_moved _ _ h
  | text run => exact run.draw_moved _ _ _ h
  | image picture => exact picture.draw_moved _ _ _ h
  | field slot => exact slot.draw_moved _ _ h

/-- A loop moves if each of its turns does. -/
theorem Loop.drawTurns_moved (loop : Loop α) (s : Scope α) {once once' : Scope α → Draw α Unit}
    (h : ∀ turn, once' turn = (once turn).translate d) (index : Nat) (items : List (Value α)) :
    loop.drawTurns s once' index items = (loop.drawTurns s once index items).translate d := by
  induction items generalizing index with
  | nil => rfl
  | cons item rest ih =>
      rw [Loop.drawTurns, Loop.drawTurns]
      refine look_eq_translate _ fun item => ?_
      rw [translate_bind, h, ih]

theorem FigureHead.draw_moved (head : FigureHead α) (stage : Stage α) (s : Scope α)
    (hinside : inside.Moves) (h : m.Moved d m') :
    head.draw stage inside s m' = (head.draw stage inside s m).translate d := by
  unfold FigureHead.draw
  cases head.loop with
  | none => exact head.drawOnce_moved stage s hinside h
  | some loop =>
      exact look_eq_translate _ fun items =>
        loop.drawTurns_moved s (fun turn => head.drawOnce_moved stage turn hinside h) 0 items

mutual

theorem Figure.draw_moved (stage : Stage α) (s : Scope α) {d : Point α} {m m' : Mapping α}
    (h : m.Moved d m') :
    (figure : Figure α) → figure.draw stage s m' = (figure.draw stage s m).translate d
  | .mk head children => by
      rw [Figure.draw, Figure.draw]
      exact head.draw_moved stage s (fun s _ _ _ h => drawFigures_moved stage s h children) h

/-- Figures one after another move with the map, those that are left out included. -/
theorem drawFigures_moved (stage : Stage α) (s : Scope α) {d : Point α} {m m' : Mapping α}
    (h : m.Moved d m') :
    (figures : List (Figure α)) →
      drawFigures stage figures s m' = (drawFigures stage figures s m).translate d
  | [] => rfl
  | figure :: rest => by
      rw [drawFigures, drawFigures, translate_bind, translate_orElse, figure.draw_moved stage s h,
        drawFigures_moved stage s h rest]
      rfl

end

end Figures

/-! ### Patterns -/

/-- Without infinite numbers, where a target lies does not matter to whether it can be drawn
into. -/
theorem Rect.isTarget_place (place : Point α) (size : Size α) :
    Rect.isTarget ⟨place.x, place.y, size.width, size.height⟩ =
      (isExtent size.width && isExtent size.height) := by
  unfold Rect.isTarget
  rw [ExactNumber.isFinite_eq place.x, ExactNumber.isFinite_eq place.y, Bool.and_true,
    Bool.and_true]

theorem Mapping.moved_translate (first second : Point α) :
    (Mapping.ofTransform (.translate first.x first.y)).Moved (second - first)
      (.ofTransform (.translate second.x second.y)) := by
  have hlast := StepsMoved.last (d := second - first) (.translate first.x first.y)
  have hx : first.x + (second.x - first.x) = second.x := add_sub_cancel ..
  have hy : first.y + (second.y - first.y) = second.y := add_sub_cancel ..
  have hmoved : (Transform.translate first.x first.y).thenMoved (second - first) =
      .translate second.x second.y := congrArg₂ (Transform.mk _ _ _ _) hx hy
  rwa [hmoved] at hlast

/-- In exact arithmetic, drawing a pattern for an instance at a second place records the commands
recorded at the first, every point, gradient and rectangle moved by the difference of the places
and all else as it was, with the same report or error. -/
theorem Pattern.draw_at_second_place (stage : Stage α) (p : Pattern α) (i : Instance α)
    (size : Size α) (first second : Point α) :
    p.draw stage i ⟨second.x, second.y, size.width, size.height⟩ =
      (p.draw stage i ⟨first.x, first.y, size.width, size.height⟩).translate (second - first) := by
  unfold Pattern.draw
  cases p.content with
  | none => rfl
  | some content =>
      dsimp only
      rw [Rect.isTarget_place, Rect.isTarget_place]
      split
      · have hbody := content.body.draw_moved stage ((p.bindArguments i).1.scope (stage.scope size))
          (Mapping.moved_translate first second)
        unfold Pattern.drawBody DrawOutcome.translate
        dsimp only [Rect.size]
        rw [hbody]
        rfl
      · rfl

end PatternMarkup
