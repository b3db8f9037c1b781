import Mathlib.Data.List.Basic
import PatternMarkup.Drawing.Pattern
/-!
Drawing keeps the canvas in order. Whatever fails on the way, the commands of a drawing are marks,
and pieces that are cut off at a path between a save and its restore; the report counts the marks.
-/

namespace PatternMarkup

variable {α : Type}

/-! ### Saves and cuts -/

/-- Marks, and pieces that are cut off at a path between a save and its restore. -/
inductive Bracketed : List (DrawCommand α) → Prop where
  | nil : Bracketed []
  | mark {c : DrawCommand α} {rest : List (DrawCommand α)} (hmark : c.isMark = true)
      (hrest : Bracketed rest) : Bracketed (c :: rest)
  | cut {path : Path α} {inside rest : List (DrawCommand α)} (hinside : Bracketed inside)
      (hrest : Bracketed rest) :
      Bracketed (.save :: .clip path :: (inside ++ .restore :: rest))

namespace Bracketed

variable {commands more : List (DrawCommand α)}

theorem append (h : Bracketed commands) (hmore : Bracketed more) :
    Bracketed (commands ++ more) := by
  induction h with
  | nil => exact hmore
  | mark hmark _ ih => exact ih.mark hmark
  | cut hinside _ _ ih =>
      rw [List.cons_append, List.cons_append, List.append_assoc, List.cons_append]
      exact hinside.cut ih

end Bracketed

/-! ### Steps of drawing -/

namespace Draw

variable {β γ : Type}

/-- The commands of a step are bracketed, and the step counts its marks. -/
structure Orderly (x : Draw α β) : Prop where
  bracketed : Bracketed x.sheet.commands
  drawn : x.sheet.drawn = x.sheet.commands.countP DrawCommand.isMark

/-- A step that always comes to its end. -/
def Ends (x : Draw α Unit) : Prop := x.result = .ok ()

theorem orderly_of_nil {x : Draw α β} (h : x.sheet.commands = []) (hdrawn : x.sheet.drawn = 0) :
    x.Orderly := by
  refine ⟨h ▸ .nil, ?_⟩
  rw [h, hdrawn]
  rfl

theorem orderly_pure (b : β) : (Pure.pure b : Draw α β).Orderly := orderly_of_nil rfl rfl

theorem orderly_skip (d : Diagnostic) : (skip d : Draw α Unit).Orderly := orderly_of_nil rfl rfl

theorem orderly_append {s t : Sheet α} {first : Except EvalError β} {second : Except EvalError γ}
    (hs : Orderly ⟨s, first⟩) (ht : Orderly ⟨t, second⟩) (result : Except EvalError γ) :
    Orderly ⟨s ++ t, result⟩ := by
  refine ⟨hs.bracketed.append ht.bracketed, ?_⟩
  show s.drawn + t.drawn = (s.commands ++ t.commands).countP DrawCommand.isMark
  rw [List.countP_append, ← hs.drawn, ← ht.drawn]

theorem Orderly.bind {x : Draw α β} {next : β → Draw α γ} (h : x.Orderly)
    (hnext : ∀ b, (next b).Orderly) : (x >>= next).Orderly := by
  obtain ⟨sheet, result⟩ := x
  cases result with
  | error e => exact ⟨h.bracketed, h.drawn⟩
  | ok b => exact orderly_append h (hnext b) _

/-- Looking at a value draws nothing. -/
theorem orderly_look (x : Except EvalError β) {next : β → Draw α γ}
    (hnext : ∀ b, (next b).Orderly) : (liftM x >>= next).Orderly :=
  (orderly_of_nil rfl rfl : (ofExcept x : Draw α β).Orderly).bind hnext

theorem orderly_mark {c : DrawCommand α} (h : c.isMark = true) : (mark c).Orderly := by
  refine ⟨.mark h .nil, ?_⟩
  rw [mark, List.countP_singleton, if_pos h]

theorem Orderly.orElse {x : Draw α Unit} {other : EvalError → Draw α Unit} (h : x.Orderly)
    (hother : ∀ e, (other e).Orderly) : (x.orElse other).Orderly := by
  obtain ⟨sheet, result⟩ := x
  cases result with
  | error e => exact orderly_append h (hother e) _
  | ok _ => exact ⟨h.bracketed, h.drawn⟩

theorem ends_orElse_skip (x : Draw α Unit) (d : EvalError → Diagnostic) :
    (x.orElse fun e => skip (d e)).Ends := by
  obtain ⟨sheet, result⟩ := x
  cases result <;> rfl

theorem Ends.bind {x y : Draw α Unit} (hx : x.Ends) (hy : y.Ends) :
    (x >>= fun _ => y).Ends := by
  obtain ⟨sheet, result⟩ := x
  obtain rfl : result = .ok () := hx
  exact hy

/-- What is cut off at a path stays between the save and its restore, as drawing it does not
fail. -/
theorem orderly_clipped (clip : Bool) (path : Path α) {inside : Draw α Unit}
    (h : inside.Orderly) (hends : inside.Ends) : (clipped clip path inside).Orderly := by
  cases clip with
  | false => exact h
  | true =>
      obtain ⟨sheet, result⟩ := inside
      obtain rfl : result = .ok () := hends
      refine ⟨h.bracketed.cut .nil, ?_⟩
      show 0 + (0 + (sheet.drawn + 0)) =
        (.save :: .clip path :: (sheet.commands ++ [.restore]) : List (DrawCommand α)).countP
          DrawCommand.isMark
      simpa [DrawCommand.isMark] using h.drawn

variable [Number α]

theorem orderly_fill (path : Path α) (paint : CanvasPaint α) : (fill path paint).Orderly := by
  unfold fill
  split
  · exact orderly_pure ()
  · exact orderly_mark rfl

theorem orderly_stroke (path : Path α) (width : α) (paint : CanvasPaint α) :
    (stroke path width paint).Orderly := by
  unfold stroke
  split
  · exact orderly_pure ()
  · split
    · exact orderly_mark rfl
    · exact orderly_pure ()

theorem orderly_paint (path : Path α) (filling stroking : Option (CanvasPaint α)) (width : α) :
    (paint path filling stroking width).Orderly := by
  unfold paint
  refine Orderly.bind ?_ fun _ => ?_
  · cases filling with
    | none => exact orderly_pure ()
    | some p => exact orderly_fill path p
  · cases stroking with
    | none => exact orderly_pure ()
    | some p => exact orderly_stroke path width p

end Draw

open Draw

/-! ### Figures -/

variable [Number α]

/-- Whatever is drawn inside a figure is orderly and never fails. -/
def DrawInside.Holds (inside : DrawInside α) : Prop :=
  ∀ s m, (inside s m).Orderly ∧ (inside s m).Ends

theorem orderly_frame (frame : FigureFrame α) (style : Style α) (s : Scope α) (m : Mapping α)
    {inside : DrawInside α} (h : inside.Holds) : (frame.draw style s m inside).Orderly := by
  unfold FigureFrame.draw
  refine orderly_look _ fun rect => orderly_look _ fun slicing => orderly_look _ fun look => ?_
  split
  · refine orderly_look _ fun filling => orderly_look _ fun stroking => ?_
    exact (orderly_paint ..).bind fun _ => orderly_clipped _ _ (h _ _).1 (h _ _).2
  · exact orderly_pure ()

theorem orderly_group (style : Style α) (s : Scope α) (m : Mapping α) {inside : DrawInside α}
    (h : inside.Holds) : (drawGroup style s m inside).Orderly := by
  unfold drawGroup
  refine orderly_look _ fun look => ?_
  split
  · exact (h _ _).1
  · exact orderly_pure ()

theorem orderly_shape (shape : Shape α) (style : Style α) (s : Scope α) (m : Mapping α) :
    (shape.draw style s m).Orderly := by
  unfold Shape.draw
  refine orderly_look _ fun look => ?_
  split
  · exact orderly_look _ fun outline => orderly_look _ fun filling => orderly_look _ fun stroking =>
      orderly_paint ..
  · exact orderly_pure ()

theorem orderly_text (run : TextRun α) (stage : Stage α) (style : Style α) (s : Scope α)
    (m : Mapping α) : (run.draw stage style s m).Orderly := by
  unfold TextRun.draw
  refine orderly_look _ fun look => ?_
  split
  · refine orderly_look _ fun content => ?_
    split
    · exact orderly_pure ()
    · exact orderly_look _ fun fontSize => orderly_look _ fun x => orderly_look _ fun y =>
        orderly_look _ fun fontFamily => orderly_mark rfl
  · exact orderly_pure ()

theorem orderly_picture (picture : Picture α) (stage : Stage α) (style : Style α) (s : Scope α)
    (m : Mapping α) : (picture.draw stage style s m).Orderly := by
  unfold Picture.draw
  refine orderly_look _ fun look => ?_
  split
  · exact orderly_look _ fun href => orderly_look _ fun width => orderly_look _ fun height =>
      orderly_look _ fun size => orderly_look _ fun x => orderly_look _ fun y => orderly_mark rfl
  · exact orderly_pure ()

theorem orderly_slot (slot : Slot α) (style : Style α) (s : Scope α) (m : Mapping α) :
    (slot.draw style s m).Orderly := by
  unfold Slot.draw
  refine orderly_look _ fun look => ?_
  split
  · exact orderly_look _ fun x => orderly_look _ fun y => orderly_look _ fun width =>
      orderly_look _ fun height => orderly_mark rfl
  · exact orderly_pure ()

theorem orderly_drawOnce (head : FigureHead α) (stage : Stage α) {inside : DrawInside α}
    (h : inside.Holds) (s : Scope α) (m : Mapping α) :
    (head.drawOnce stage inside s m).Orderly := by
  unfold FigureHead.drawOnce
  cases head.kind with
  | div frame => exact orderly_frame frame _ _ _ h
  | area role frame => exact orderly_frame frame _ _ _ h
  | group => exact orderly_group _ _ _ h
  | shape shape => exact orderly_shape ..
  | text run => exact orderly_text ..
  | image picture => exact orderly_picture ..
  | field slot => exact orderly_slot ..

theorem orderly_drawTurns (loop : Loop α) (s : Scope α) {once : Scope α → Draw α Unit}
    (h : ∀ turn, (once turn).Orderly) (index : Nat) (items : List (Value α)) :
    (loop.drawTurns s once index items).Orderly := by
  induction items generalizing index with
  | nil => exact orderly_pure ()
  | cons item rest ih =>
      rw [Loop.drawTurns]
      exact orderly_look _ fun item => (h _).bind fun _ => ih (index + 1)

theorem orderly_head (head : FigureHead α) (stage : Stage α) {inside : DrawInside α}
    (h : inside.Holds) (s : Scope α) (m : Mapping α) : (head.draw stage inside s m).Orderly := by
  unfold FigureHead.draw
  split
  · exact orderly_drawOnce head stage h s m
  · exact orderly_look _ fun items =>
      orderly_drawTurns _ s (fun turn => orderly_drawOnce head stage h turn m) 0 items

mutual

theorem Figure.orderly_draw (stage : Stage α) (s : Scope α) (m : Mapping α) :
    (figure : Figure α) → (figure.draw stage s m).Orderly
  | .mk head children => by
      rw [Figure.draw]
      exact orderly_head head stage (fun s m => holds_drawFigures stage s m children) s m

/-- Figures one after another are orderly, and a figure that fails stops none of the others. -/
theorem holds_drawFigures (stage : Stage α) (s : Scope α) (m : Mapping α) :
    (figures : List (Figure α)) →
      (drawFigures stage figures s m).Orderly ∧ (drawFigures stage figures s m).Ends
  | [] => ⟨orderly_pure (), rfl⟩
  | figure :: rest => by
      have hfigure := (figure.orderly_draw stage s m).orElse fun e =>
        orderly_skip (figure.head.skipReport e)
      have hrest := holds_drawFigures stage s m rest
      rw [drawFigures]
      exact ⟨hfigure.bind fun _ => hrest.1, (ends_orElse_skip _ _).bind hrest.2⟩

end

/-! ### Patterns -/

end PatternMarkup
