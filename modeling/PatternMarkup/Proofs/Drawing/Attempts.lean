import PatternMarkup.Number.Double
import PatternMarkup.Proofs.Drawing.Brackets
/-!
Attempts to draw. A figure first comes by all values that it needs and only then draws, so a turn
that fails leaves nothing on the canvas. A figure with a loop is drawn turn by turn, though: of one
that is left out because a later turn fails, the earlier turns stay.
-/

namespace PatternMarkup

section Steps

variable {α β γ : Type}

/-! ### What steps leave behind -/

namespace Sheet

@[simp] theorem empty_append (s : Sheet α) : ({} : Sheet α) ++ s = s := by
  show Sheet.mk _ _ _ _ = s
  simp

@[simp] theorem append_empty (s : Sheet α) : s ++ ({} : Sheet α) = s := by
  show Sheet.mk _ _ _ _ = s
  simp

theorem append_assoc (s t u : Sheet α) : s ++ t ++ u = s ++ (t ++ u) := by
  have hcommands := List.append_assoc s.commands t.commands u.commands
  have hreports := List.append_assoc s.reports t.reports u.reports
  have hdrawn := Nat.add_assoc s.drawn t.drawn u.drawn
  have hskipped := Nat.add_assoc s.skipped t.skipped u.skipped
  exact Sheet.mk.injEq .. ▸ ⟨hcommands, hreports, hdrawn, hskipped⟩

/-- Several sheets, one after another. -/
def join (sheets : List (Sheet α)) : Sheet α := sheets.foldr (· ++ ·) {}

end Sheet

namespace Draw

theorem andThen_nothing (x : Draw α β) : x.andThen nothing = x := by
  obtain ⟨sheet, result⟩ := x
  cases result with
  | error e => rfl
  | ok b => exact congrArg (Draw.mk · _) (Sheet.append_empty sheet)

theorem nothing_andThen (b : β) (next : β → Draw α γ) : (nothing b).andThen next = next b :=
  congrArg (Draw.mk · _) (Sheet.empty_append _)

theorem andThen_assoc {δ : Type} (x : Draw α β) (next : β → Draw α γ) (later : γ → Draw α δ) :
    (x.andThen next).andThen later = x.andThen fun b => (next b).andThen later := by
  obtain ⟨sheet, result⟩ := x
  cases result with
  | error e => rfl
  | ok b =>
      rcases hnext : next b with ⟨sheet', result'⟩
      simp only [andThen, hnext]
      cases result' with
      | error e => rfl
      | ok c => exact congrArg (Draw.mk · _) (Sheet.append_assoc ..)

instance : LawfulMonad (Draw α) := .mk' _ andThen_nothing nothing_andThen andThen_assoc

/-- A value that is there stands for itself. -/
theorem look_ok (b : β) (next : β → Draw α γ) :
    (liftM (.ok b : Except EvalError β) >>= next : Draw α γ) = next b :=
  nothing_andThen b next

/-- Steps one after another fail at the first that does: what is left behind comes from the steps
before it and from that step. -/
theorem forM_eq_error {f : β → Draw α Unit} {xs : List β} {e : EvalError}
    (h : (forM xs f).result = .error e) :
    ∃ done x rest, xs = done ++ x :: rest ∧ (∀ y ∈ done, (f y).Ends) ∧
      (f x).result = .error e ∧
      (forM xs f).sheet = Sheet.join (done.map fun y => (f y).sheet) ++ (f x).sheet := by
  induction xs with
  | nil => cases h
  | cons x rest ih =>
      rw [List.forM_cons] at h ⊢
      rcases hx : f x with ⟨sheet, result⟩
      rw [hx] at h
      cases result with
      | error e' =>
          refine ⟨[], x, rest, rfl, by simp, ?_, ?_⟩
          · rw [hx]
            exact h
          · rw [hx]
            exact (Sheet.empty_append sheet).symm
      | ok _ =>
          obtain ⟨done, y, later, rfl, hdone, hy, hsheet⟩ := ih h
          refine ⟨x :: done, y, later, rfl, ?_, hy, ?_⟩
          · rw [List.forall_mem_cons, Ends, hx]
            exact ⟨rfl, hdone⟩
          · rw [List.map_cons, hx]
            exact (congrArg (sheet ++ ·) hsheet).trans (Sheet.append_assoc ..).symm

/-! ### Values first, then marks -/

/-- Puts marks on the canvas. -/
def marks (commands : List (DrawCommand α)) : Draw α Unit :=
  ⟨{ commands, drawn := commands.length }, .ok ()⟩

/-- A step that comes by marks, and then puts them on the canvas. -/
def IsMarking (x : Draw α Unit) : Prop :=
  ∃ values : Except EvalError (List (DrawCommand α)), x = (liftM values >>= marks : Draw α Unit)

theorem isMarking_look (value : Except EvalError β) {next : β → Draw α Unit}
    (h : ∀ b, IsMarking (next b)) : IsMarking (liftM value >>= next) := by
  cases value with
  | error e => exact ⟨.error e, rfl⟩
  | ok b =>
      rw [look_ok]
      exact h b

theorem isMarking_marks (commands : List (DrawCommand α)) : IsMarking (marks commands) :=
  ⟨.ok commands, (look_ok commands marks).symm⟩

theorem isMarking_pure : IsMarking (pure () : Draw α Unit) := isMarking_marks []

theorem isMarking_mark (c : DrawCommand α) : IsMarking (mark c) := isMarking_marks [c]

variable [Number α]

/-- The mark of a path that is filled, if anything would be seen of it. -/
def fillMarks (path : Path α) : Option (CanvasPaint α) → List (DrawCommand α)
  | none => []
  | some paint => if paint.isInvisible || path.isEmpty then [] else [.fill path paint]

/-- The mark of a path that is stroked, if anything would be seen of it. -/
def strokeMarks (path : Path α) (width : α) : Option (CanvasPaint α) → List (DrawCommand α)
  | none => []
  | some paint =>
      if paint.isInvisible || path.isEmpty then []
      else if Number.zero < width then [.stroke path paint width] else []

theorem paint_eq_marks (path : Path α) (filling stroking : Option (CanvasPaint α)) (width : α) :
    paint path filling stroking width =
      marks (fillMarks path filling ++ strokeMarks path width stroking) := by
  have hfill : filling.forM (fill path) = marks (fillMarks path filling) := by
    cases filling with
    | none => rfl
    | some paint =>
        show fill path paint = _
        rw [fill, fillMarks]
        split <;> rfl
  have hstroke : stroking.forM (stroke path width) = marks (strokeMarks path width stroking) := by
    cases stroking with
    | none => rfl
    | some paint =>
        show stroke path width paint = _
        rw [stroke, strokeMarks]
        split
        · rfl
        · split <;> rfl
  rw [paint, hfill, hstroke]
  exact congrArg (fun drawn => Draw.mk ⟨_, _, drawn, _⟩ _) List.length_append.symm

theorem isMarking_paint (path : Path α) (filling stroking : Option (CanvasPaint α)) (width : α) :
    IsMarking (paint path filling stroking width) := by
  rw [paint_eq_marks]
  exact isMarking_marks _

end Draw

end Steps

open Draw

variable {α : Type} [Number α]

/-! ### Plans -/

/-- Where a figure with a frame is, and how its inside is sliced. -/
structure FrameLayout (α : Type) where
  rect : Rect α
  slicing : Option (SliceValues α)

namespace FrameLayout

/-- The scope of what lies in the frame: its extents are those of the frame or of the reference. -/
def scope (layout : FrameLayout α) (s : Scope α) : Scope α :=
  let size := (layout.slicing.map (·.reference)).getD layout.rect.size
  (s.child.bindValue "width" (.scalar size.width)).bindValue "height" (.scalar size.height)

/-- The map of what lies in the frame. -/
def map (layout : FrameLayout α) (own : Mapping α) : Mapping α :=
  let placed := own.transformed (.translate layout.rect.x layout.rect.y)
  match layout.slicing with
  | some values => placed.sliced (.compute values (.ofSize layout.rect.size))
  | none => placed

end FrameLayout

/-- The layout of a frame in a scope. -/
def FigureFrame.layout (frame : FigureFrame α) (s : Scope α) :
    Except EvalError (FrameLayout α) := do
  let rect ← frame.rect s
  let slicing ← frame.slicing? s
  return ⟨rect, slicing⟩

/-- The inside of a figure, where those in it are drawn. -/
structure Interior (α : Type) where
  /-- The figure. -/
  head : FigureHead α
  /-- The scope in which the figure's style is evaluated. -/
  own : Scope α
  look : Look α
  map : Mapping α
  /-- The path at which the inside is cut off. -/
  clip? : Option (Path α)

/-- The scope of the figures in one. -/
def Interior.scope (place : Interior α) : Scope α := place.look.scope place.head.style place.own

/-- What a figure draws, all its values known: marks of its own, then what lies in it. -/
structure DrawPlan (α : Type) where
  marks : List (DrawCommand α) := []
  inside? : Option (Interior α) := none

namespace DrawPlan

/-- Draws in a place, cut off as it says. -/
def enter (inside : DrawInside α) (place : Interior α) : Draw α Unit :=
  match place.clip? with
  | some path => clipped true path (inside place.scope place.map)
  | none => inside place.scope place.map

/-- Draws what is planned, with a given way to draw inside. -/
def perform (inside : DrawInside α) (plan : DrawPlan α) : Draw α Unit := do
  Draw.marks plan.marks
  plan.inside?.forM (enter inside)

end DrawPlan

namespace FigureHead

/-- The plan of a figure that has a frame. -/
def planFrame (head : FigureHead α) (frame : FigureFrame α) (s : Scope α) (m : Mapping α) :
    Except EvalError (DrawPlan α) := do
  let layout ← frame.layout s
  let inner := layout.scope s
  let look ← head.style.look inner
  if look.visible then
    let own := look.mapping m
    let outline := own.path (.ofRect layout.rect)
    let bounds := (Rect.ofSize layout.rect.size).translate layout.rect.x layout.rect.y
    let filling ← resolvePaint bounds own inner head.style.fill
    let stroking ← resolvePaint bounds own inner head.style.stroke
    return ⟨fillMarks outline filling ++
        strokeMarks outline (look.strokeWidth * own.lengthScale) stroking,
      some ⟨head, inner, look, layout.map own, if head.style.clip then some outline else none⟩⟩
  else return {}

/-- The plan of a group. -/
def planGroup (head : FigureHead α) (s : Scope α) (m : Mapping α) :
    Except EvalError (DrawPlan α) := do
  let look ← head.style.look s
  if look.visible then return ⟨[], some ⟨head, s, look, look.mapping m, none⟩⟩
  else return {}

/-- The plan of a figure in which no others lie. -/
def planLeaf (drawing : Draw α Unit) : Except EvalError (DrawPlan α) :=
  drawing.result.map fun _ => ⟨drawing.sheet.commands, none⟩

/-- The plan of a figure for one turn. -/
def plan (head : FigureHead α) (stage : Stage α) (turn : Scope α) (m : Mapping α) :
    Except EvalError (DrawPlan α) :=
  let s := variableScope turn head.vars
  match head.kind with
  | .div frame => head.planFrame frame s m
  | .area _ frame => head.planFrame frame s m
  | .group => head.planGroup s m
  | .shape shape => planLeaf (shape.draw head.style s m)
  | .text run => planLeaf (run.draw stage head.style s m)
  | .image picture => planLeaf (picture.draw stage head.style s m)
  | .field slot => planLeaf (slot.draw head.style s m)

end FigureHead

namespace Draw

variable {β : Type} {inside : DrawInside α}

/-- A step that comes by a plan, and then performs it. -/
def IsPlanned (inside : DrawInside α) (plan : Except EvalError (DrawPlan α)) (x : Draw α Unit) :
    Prop :=
  x = (liftM plan >>= DrawPlan.perform inside : Draw α Unit)

theorem IsPlanned.look (value : Except EvalError β) {plan : β → Except EvalError (DrawPlan α)}
    {next : β → Draw α Unit} (h : ∀ b, IsPlanned inside (plan b) (next b)) :
    IsPlanned inside (value >>= plan) (liftM value >>= next) := by
  cases value with
  | error e => rfl
  | ok b => exact (look_ok b next).trans (h b)

theorem isPlanned_perform (plan : DrawPlan α) :
    IsPlanned inside (pure plan) (plan.perform inside) :=
  (look_ok plan _).symm

theorem IsMarking.isPlanned {x : Draw α Unit} (h : x.IsMarking) :
    IsPlanned inside (FigureHead.planLeaf x) x := by
  obtain ⟨values, rfl⟩ := h
  cases values with
  | error e => rfl
  | ok commands =>
      rw [look_ok]
      exact ((look_ok _ _).trans (bind_pure _)).symm

end Draw

theorem isPlanned_frame (head : FigureHead α) (frame : FigureFrame α) (s : Scope α) (m : Mapping α)
    (inside : DrawInside α) :
    IsPlanned inside (head.planFrame frame s m) (frame.draw head.style s m inside) := by
  unfold FigureFrame.draw FigureHead.planFrame FigureFrame.layout
  rw [bind_assoc]
  refine IsPlanned.look _ fun rect => ?_
  rw [bind_assoc]
  refine IsPlanned.look _ fun slicing => ?_
  rw [pure_bind]
  refine IsPlanned.look _ fun look => ?_
  split
  · refine IsPlanned.look _ fun filling => IsPlanned.look _ fun stroking => ?_
    rw [paint_eq_marks]
    cases head.style.clip <;> exact isPlanned_perform _
  · exact isPlanned_perform {}

theorem isPlanned_group (head : FigureHead α) (s : Scope α) (m : Mapping α)
    (inside : DrawInside α) :
    IsPlanned inside (head.planGroup s m) (drawGroup head.style s m inside) := by
  refine IsPlanned.look _ fun look => ?_
  split
  · have hperform : IsPlanned inside _ _ :=
      isPlanned_perform ⟨[], some ⟨head, s, look, look.mapping m, none⟩⟩
    rwa [DrawPlan.perform, show marks [] = (pure () : Draw α Unit) from rfl, pure_bind] at hperform
  · exact isPlanned_perform {}

theorem isMarking_shape (shape : Shape α) (style : Style α) (s : Scope α) (m : Mapping α) :
    (shape.draw style s m).IsMarking := by
  refine isMarking_look _ fun look => ?_
  split
  · exact isMarking_look _ fun outline => isMarking_look _ fun filling =>
      isMarking_look _ fun stroking => isMarking_paint ..
  · exact isMarking_pure

theorem isMarking_text (run : TextRun α) (stage : Stage α) (style : Style α) (s : Scope α)
    (m : Mapping α) : (run.draw stage style s m).IsMarking := by
  refine isMarking_look _ fun look => ?_
  split
  · refine isMarking_look _ fun content => ?_
    split
    · exact isMarking_pure
    · exact isMarking_look _ fun fontSize => isMarking_look _ fun x => isMarking_look _ fun y =>
        isMarking_look _ fun fontFamily => isMarking_mark _
  · exact isMarking_pure

theorem isMarking_picture (picture : Picture α) (stage : Stage α) (style : Style α) (s : Scope α)
    (m : Mapping α) : (picture.draw stage style s m).IsMarking := by
  refine isMarking_look _ fun look => ?_
  split
  · exact isMarking_look _ fun href => isMarking_look _ fun width => isMarking_look _ fun height =>
      isMarking_look _ fun size => isMarking_look _ fun x => isMarking_look _ fun y =>
        isMarking_mark _
  · exact isMarking_pure

theorem isMarking_slot (slot : Slot α) (style : Style α) (s : Scope α) (m : Mapping α) :
    (slot.draw style s m).IsMarking := by
  refine isMarking_look _ fun look => ?_
  split
  · exact isMarking_look _ fun x => isMarking_look _ fun y => isMarking_look _ fun width =>
      isMarking_look _ fun height => isMarking_mark _
  · exact isMarking_pure

/-- Drawing a figure once is coming by its plan, and then performing it. -/
theorem isPlanned_drawOnce (head : FigureHead α) (stage : Stage α) (inside : DrawInside α)
    (turn : Scope α) (m : Mapping α) :
    IsPlanned inside (head.plan stage turn m) (head.drawOnce stage inside turn m) := by
  unfold FigureHead.drawOnce FigureHead.plan
  cases head.kind with
  | div frame => exact isPlanned_frame head frame _ m inside
  | area role frame => exact isPlanned_frame head frame _ m inside
  | group => exact isPlanned_group head _ m inside
  | shape shape => exact (isMarking_shape ..).isPlanned
  | text run => exact (isMarking_text ..).isPlanned
  | image picture => exact (isMarking_picture ..).isPlanned
  | field slot => exact (isMarking_slot ..).isPlanned

/-! ### Turns -/

/-- The scopes of the turns from one on; an item that is not of the type of the items gives none. -/
def Loop.turnsFrom (loop : Loop α) (s : Scope α) (index : Nat) :
    List (Value α) → List (Except EvalError (Scope α))
  | [] => []
  | item :: rest =>
      (item.coerce loop.itemType).map (loop.turn s index) :: loop.turnsFrom s (index + 1) rest

namespace FigureHead

/-- The turns in which a figure is drawn, each with its scope or with the reason why it has none. A
figure without a loop has one turn. -/
def turns (head : FigureHead α) (s : Scope α) : List (Except EvalError (Scope α)) :=
  match head.loop with
  | none => [.ok s]
  | some loop =>
      match loop.values s with
      | .ok items => loop.turnsFrom s 0 items
      | .error e => [.error e]

/-- Draws one turn. -/
def drawTurn (head : FigureHead α) (stage : Stage α) (inside : DrawInside α) (m : Mapping α)
    (turn : Except EvalError (Scope α)) : Draw α Unit := do
  head.drawOnce stage inside (← turn) m

/-- The plan of one turn. -/
def planTurn (head : FigureHead α) (stage : Stage α) (m : Mapping α)
    (turn : Except EvalError (Scope α)) : Except EvalError (DrawPlan α) := do
  head.plan stage (← turn) m

theorem isPlanned_drawTurn (head : FigureHead α) (stage : Stage α) (inside : DrawInside α)
    (m : Mapping α) (turn : Except EvalError (Scope α)) :
    IsPlanned inside (head.planTurn stage m turn) (head.drawTurn stage inside m turn) :=
  IsPlanned.look turn fun turn => isPlanned_drawOnce head stage inside turn m

end FigureHead

theorem Loop.drawTurns_eq (loop : Loop α) (s : Scope α) (once : Scope α → Draw α Unit)
    (index : Nat) (items : List (Value α)) :
    loop.drawTurns s once index items =
      forM (loop.turnsFrom s index items) fun turn => (liftM turn >>= once : Draw α Unit) := by
  induction items generalizing index with
  | nil => rfl
  | cons item rest ih =>
      rw [Loop.drawTurns, Loop.turnsFrom, List.forM_cons, ← ih]
      cases item.coerce loop.itemType with
      | error e => rfl
      | ok item => exact (look_ok _ _).trans (congrArg (· >>= _) (look_ok _ _).symm)

/-- A figure is drawn turn by turn. -/
theorem FigureHead.draw_eq_turns (head : FigureHead α) (stage : Stage α) (inside : DrawInside α)
    (s : Scope α) (m : Mapping α) :
    head.draw stage inside s m = forM (head.turns s) (head.drawTurn stage inside m) := by
  unfold FigureHead.draw FigureHead.turns
  cases head.loop with
  | none => exact ((bind_pure _).trans (look_ok _ _)).symm
  | some loop =>
      dsimp only
      cases loop.values s with
      | error e => rfl
      | ok items =>
          rw [look_ok, loop.drawTurns_eq]
          rfl

/-! ### Attempts -/

/-- The insides of the turns that are planned, up to the first turn that fails. -/
def FigureHead.placesOf (head : FigureHead α) (stage : Stage α) (m : Mapping α) :
    List (Except EvalError (Scope α)) → List (Interior α)
  | [] => []
  | turn :: rest =>
      match head.planTurn stage m turn with
      | .ok plan => plan.inside?.toList ++ head.placesOf stage m rest
      | .error _ => []

/-- An attempt to draw a figure inside another one. -/
structure Attempt (α : Type) where
  place : Interior α
  figure : Figure α

namespace Attempt

/-- What comes of an attempt. -/
def drawing (a : Attempt α) (stage : Stage α) : Draw α Unit :=
  a.figure.draw stage a.place.scope a.place.map

/-- The error with which an attempt fails. -/
def error? (stage : Stage α) (a : Attempt α) : Option EvalError :=
  match (a.drawing stage).result with
  | .ok _ => none
  | .error e => some e

/-- The report about an attempt that fails. -/
def report? (stage : Stage α) (a : Attempt α) : Option Diagnostic :=
  (a.error? stage).map a.figure.head.skipReport

/-- The turns of an attempt. -/
def turns (a : Attempt α) : List (Except EvalError (Scope α)) :=
  a.figure.head.turns a.place.scope

/-- What comes of one turn of an attempt. -/
def drawTurn (a : Attempt α) (stage : Stage α) (turn : Except EvalError (Scope α)) : Draw α Unit :=
  a.figure.head.drawTurn stage (drawFigures stage a.figure.children) a.place.map turn

end Attempt

mutual

/-- The attempts to draw what lies in a figure, in the order in which they end. -/
def Figure.attempts (stage : Stage α) : Figure α → Scope α → Mapping α → List (Attempt α)
  | .mk head children, s, m =>
      (head.placesOf stage m (head.turns s)).flatMap fun place =>
        attemptsOfAll stage place children

/-- The attempts to draw figures in a place, and what lies in them. -/
def attemptsOfAll (stage : Stage α) (place : Interior α) : List (Figure α) → List (Attempt α)
  | [] => []
  | figure :: rest =>
      figure.attempts stage place.scope place.map ++
        ⟨place, figure⟩ :: attemptsOfAll stage place rest

end

/-- The attempts to draw what lies in the body of a pattern. -/
def Pattern.attempts (stage : Stage α) (p : Pattern α) (i : Instance α) (target : Rect α) :
    List (Attempt α) :=
  match p.content with
  | none => []
  | some content =>
      content.body.attempts stage ((p.bindArguments i).1.scope (stage.scope target.size))
        (.ofTransform (.translate target.x target.y))

/-! ### Reports -/

namespace Draw

/-- The reports of a step are those about the attempts that fail, in their order. -/
structure Accounts (stage : Stage α) (attempts : List (Attempt α)) (x : Draw α Unit) : Prop where
  reports : x.sheet.reports = attempts.filterMap (·.report? stage)
  skipped : x.sheet.skipped = (attempts.filterMap (·.report? stage)).length

variable {stage : Stage α} {attempts later : List (Attempt α)} {x y : Draw α Unit}

theorem accounts_nil (hreports : x.sheet.reports = []) (hskipped : x.sheet.skipped = 0) :
    x.Accounts stage [] :=
  ⟨hreports, hskipped⟩

theorem accounts_command (c : DrawCommand α) : (command c).Accounts stage [] := accounts_nil rfl rfl

theorem accounts_marks (commands : List (DrawCommand α)) : (marks commands).Accounts stage [] :=
  accounts_nil rfl rfl

theorem Accounts.bind (hx : x.Accounts stage attempts) (hends : x.Ends)
    (hy : y.Accounts stage later) : (x >>= fun _ => y).Accounts stage (attempts ++ later) := by
  obtain ⟨sheet, result⟩ := x
  obtain rfl : result = .ok () := hends
  constructor
  · rw [List.filterMap_append, ← hx.reports, ← hy.reports]
    rfl
  · rw [List.filterMap_append, List.length_append, ← hx.skipped, ← hy.skipped]
    rfl

theorem Accounts.clipped (h : x.Accounts stage attempts) (hends : x.Ends) (clip : Bool)
    (path : Path α) :
    (Draw.clipped clip path x).Ends ∧ (Draw.clipped clip path x).Accounts stage attempts := by
  cases clip with
  | false => exact ⟨hends, h⟩
  | true =>
      have hinside := h.bind hends (accounts_command .restore)
      have hcut := (accounts_command (.clip path)).bind rfl hinside
      have hsaved := (accounts_command .save).bind rfl hcut
      rw [List.nil_append, List.nil_append, List.append_nil] at hsaved
      refine ⟨Ends.bind rfl (Ends.bind rfl (hends.bind rfl)), hsaved⟩

end Draw

/-- Whatever is drawn in a place never fails, and reports the attempts that are made there. -/
def DrawInside.Accounts (stage : Stage α) (attempts : Interior α → List (Attempt α))
    (inside : DrawInside α) : Prop :=
  ∀ place : Interior α, (inside place.scope place.map).Ends ∧
    (inside place.scope place.map).Accounts stage (attempts place)

section Reports

variable {stage : Stage α} {attempts : Interior α → List (Attempt α)} {inside : DrawInside α}

theorem accounts_enter (h : inside.Accounts stage attempts) (place : Interior α) :
    (DrawPlan.enter inside place).Ends ∧
      (DrawPlan.enter inside place).Accounts stage (attempts place) := by
  obtain ⟨hends, haccounts⟩ := h place
  unfold DrawPlan.enter
  cases place.clip? with
  | none => exact ⟨hends, haccounts⟩
  | some path => exact haccounts.clipped hends true path

/-- A plan never fails. -/
theorem accounts_perform (h : inside.Accounts stage attempts) (plan : DrawPlan α) :
    (plan.perform inside).Ends ∧
      (plan.perform inside).Accounts stage (plan.inside?.toList.flatMap attempts) := by
  have hmarks : (marks plan.marks).Accounts stage [] := accounts_marks plan.marks
  unfold DrawPlan.perform
  cases plan.inside? with
  | none => exact ⟨Ends.bind rfl rfl, hmarks.bind rfl (accounts_nil rfl rfl)⟩
  | some place =>
      obtain ⟨hends, haccounts⟩ := accounts_enter h place
      refine ⟨Ends.bind rfl hends, ?_⟩
      rw [Option.toList_some, List.flatMap_singleton]
      exact hmarks.bind rfl haccounts

/-- A turn either fails and leaves nothing behind, or is planned and comes to its end. -/
theorem drawTurn_cases (h : inside.Accounts stage attempts) (head : FigureHead α) (m : Mapping α)
    (turn : Except EvalError (Scope α)) :
    (∃ e, head.planTurn stage m turn = .error e ∧
      head.drawTurn stage inside m turn = ⟨{}, .error e⟩) ∨
    ∃ plan, head.planTurn stage m turn = .ok plan ∧ (head.drawTurn stage inside m turn).Ends ∧
      (head.drawTurn stage inside m turn).Accounts stage
        (plan.inside?.toList.flatMap attempts) := by
  have hplanned := head.isPlanned_drawTurn stage inside m turn
  unfold IsPlanned at hplanned
  cases hplan : head.planTurn stage m turn with
  | error e =>
      rw [hplan] at hplanned
      exact .inl ⟨e, rfl, hplanned⟩
  | ok plan =>
      rw [hplan, look_ok] at hplanned
      rw [hplanned]
      exact .inr ⟨plan, rfl, accounts_perform h plan⟩

theorem accounts_turns (h : inside.Accounts stage attempts) (head : FigureHead α) (m : Mapping α)
    (turns : List (Except EvalError (Scope α))) :
    (forM turns (head.drawTurn stage inside m)).Accounts stage
      ((head.placesOf stage m turns).flatMap attempts) := by
  induction turns with
  | nil => exact accounts_nil rfl rfl
  | cons turn rest ih =>
      rw [List.forM_cons, FigureHead.placesOf]
      rcases drawTurn_cases h head m turn with ⟨e, hplan, hturn⟩ | ⟨plan, hplan, hends, hturn⟩
      · rw [hplan, hturn]
        exact accounts_nil rfl rfl
      · rw [hplan, List.flatMap_append]
        exact hturn.bind hends ih

end Reports

/-- A figure that is left out is reported after what is reported about those in it. -/
theorem accounts_orElse_skip {stage : Stage α} {attempts : List (Attempt α)} (a : Attempt α)
    (h : (a.drawing stage).Accounts stage attempts) :
    ((a.drawing stage).orElse fun e => skip (a.figure.head.skipReport e)).Accounts stage
      (attempts ++ [a]) := by
  obtain ⟨hreports, hskipped⟩ := h
  have hreport : a.report? stage = (a.error? stage).map a.figure.head.skipReport := rfl
  rw [Attempt.error?] at hreport
  rcases hdrawing : a.drawing stage with ⟨sheet, result⟩
  rw [hdrawing] at hreports hskipped hreport
  cases result with
  | ok _ =>
      have hnone : [a].filterMap (·.report? stage) = [] := List.filterMap_cons_none hreport
      constructor
      · rw [List.filterMap_append, hnone, List.append_nil, ← hreports]
        rfl
      · rw [List.filterMap_append, hnone, List.append_nil, ← hskipped]
        rfl
  | error e =>
      have hsome : [a].filterMap (·.report? stage) = [a.figure.head.skipReport e] :=
        List.filterMap_cons_some hreport
      constructor
      · rw [List.filterMap_append, hsome, ← hreports]
        rfl
      · rw [List.filterMap_append, hsome, List.length_append, ← hskipped]
        rfl

mutual

theorem Figure.accounts_draw (stage : Stage α) (s : Scope α) (m : Mapping α) :
    (figure : Figure α) → (figure.draw stage s m).Accounts stage (figure.attempts stage s m)
  | .mk head children => by
      rw [Figure.draw, Figure.attempts, head.draw_eq_turns]
      exact accounts_turns (accounts_drawFigures stage children) head m (head.turns s)

/-- Figures drawn in a place report the attempts made there. -/
theorem accounts_drawFigures (stage : Stage α) :
    (figures : List (Figure α)) →
      DrawInside.Accounts stage (fun place => attemptsOfAll stage place figures)
        (drawFigures stage figures)
  | [] => fun place => ⟨rfl, accounts_nil rfl rfl⟩
  | figure :: rest => fun place => by
      obtain ⟨hends, hrest⟩ := accounts_drawFigures stage rest place
      have hfigure := accounts_orElse_skip ⟨place, figure⟩
        (figure.accounts_draw stage place.scope place.map)
      have hskip := ends_orElse_skip (figure.draw stage place.scope place.map)
        figure.head.skipReport
      have hall := hfigure.bind hskip hrest
      rw [List.append_assoc] at hall
      show (drawFigures stage (figure :: rest) place.scope place.map).Ends ∧
        (drawFigures stage (figure :: rest) place.scope place.map).Accounts stage
          (attemptsOfAll stage place (figure :: rest))
      rw [drawFigures, attemptsOfAll]
      exact ⟨hskip.bind hends, hall⟩

end

/-! ### What an attempt that fails leaves behind -/

/-- An attempt fails with a turn that leaves nothing behind, after turns that came to their end. -/
def Attempt.FailsAfter (a : Attempt α) (stage : Stage α) (e : EvalError)
    (done : List (Except EvalError (Scope α))) : Prop :=
  ∃ turn rest, a.turns = done ++ turn :: rest ∧ (∀ t ∈ done, (a.drawTurn stage t).Ends) ∧
    a.drawTurn stage turn = ⟨{}, .error e⟩

theorem Attempt.failsAfter {stage : Stage α} {a : Attempt α} {e : EvalError}
    (h : a.error? stage = some e) :
    ∃ done, a.FailsAfter stage e done ∧
      (a.drawing stage).sheet = Sheet.join (done.map fun t => (a.drawTurn stage t).sheet) := by
  obtain ⟨place, head, children⟩ := a
  have hdrawing : Attempt.drawing ⟨place, .mk head children⟩ stage =
      forM (head.turns place.scope)
        (head.drawTurn stage (drawFigures stage children) place.map) := by
    rw [← head.draw_eq_turns, Attempt.drawing, Figure.draw]
  have herror : (Attempt.drawing ⟨place, .mk head children⟩ stage).result = .error e := by
    unfold Attempt.error? at h
    split at h
    · cases h
    · cases h
      assumption
  rw [hdrawing] at herror ⊢
  obtain ⟨done, turn, rest, hturns, hdone, hturn, hsheet⟩ := forM_eq_error herror
  rcases drawTurn_cases (accounts_drawFigures stage children) head place.map turn with
    ⟨e', -, hfails⟩ | ⟨plan, -, hends, -⟩
  · rw [hfails] at hturn hsheet
    cases hturn
    refine ⟨done, ⟨turn, rest, hturns, hdone, hfails⟩, ?_⟩
    rw [hsheet, Sheet.append_empty]
    rfl
  · rw [hends] at hturn
    cases hturn

/-- A figure without a loop that fails leaves nothing behind. -/
theorem Attempt.sheet_eq_empty {stage : Stage α} {a : Attempt α} {e : EvalError}
    (h : a.error? stage = some e) (hloop : a.figure.head.loop = none) :
    (a.drawing stage).sheet = {} := by
  obtain ⟨done, ⟨turn, rest, hturns, -, -⟩, hsheet⟩ := Attempt.failsAfter h
  rw [turns, FigureHead.turns, hloop] at hturns
  cases done with
  | nil => exact hsheet
  | cons t done =>
      have hnil := (List.cons.inj hturns).2
      simp at hnil

/-- The reports about the attempts that fail when a pattern is drawn. -/
def Pattern.skipReports (stage : Stage α) (p : Pattern α) (i : Instance α) (target : Rect α) :
    List Diagnostic :=
  (p.attempts stage i target).filterMap (·.report? stage)

/-- When drawing a pattern ends with a report, it counts the attempts to draw a figure that failed
and tells of each. What such an attempt leaves behind comes from the turns of its loop that came
before the one that failed; without a loop it leaves nothing. -/
theorem Pattern.draw_skipped (stage : Stage α) (p : Pattern α) (i : Instance α) (target : Rect α)
    {report : DrawReport} (h : (p.draw stage i target).report = .ok report) :
    report.skipped = (p.skipReports stage i target).length ∧
    report.diagnostics = (p.bindArguments i).2.pushAll (p.skipReports stage i target) ∧
    ∀ a ∈ p.attempts stage i target, ∀ e, a.error? stage = some e →
      (∃ done, a.FailsAfter stage e done ∧
        (a.drawing stage).sheet = Sheet.join (done.map fun t => (a.drawTurn stage t).sheet)) ∧
      (a.figure.head.loop = none → (a.drawing stage).sheet = {}) := by
  unfold Pattern.draw at h
  unfold Pattern.skipReports
  split at h
  · cases h
  · rename_i content hcontent
    split at h
    · have hbody := content.body.accounts_draw stage
        ((p.bindArguments i).1.scope (stage.scope target.size))
        (.ofTransform (.translate target.x target.y))
      have hattempted : p.attempts stage i target = content.body.attempts stage
          ((p.bindArguments i).1.scope (stage.scope target.size))
          (.ofTransform (.translate target.x target.y)) := by
        rw [Pattern.attempts, hcontent]
      unfold Pattern.drawBody at h
      simp only at h
      split at h
      · cases h
        rw [← hattempted] at hbody
        exact ⟨hbody.skipped, congrArg _ hbody.reports, fun a _ e he =>
          ⟨Attempt.failsAfter he, Attempt.sheet_eq_empty he⟩⟩
      · cases h
    · cases h

/-- A pattern that writes a text for every item of a list of numbers, of which the second is
none. -/
def mixedLoopPattern : Pattern α :=
  let style : Style α := { Style.initial with textColor := some (.constant .black) }
  let run : TextRun α :=
    ⟨.constant Number.zero, .constant Number.zero, .constant Number.one, none, .start,
      .constant "a"⟩
  let loop : Loop α := ⟨"i", none, .constant (.list [.int 0, .string "b"]), .int⟩
  let writing : Figure α := .mk ⟨1, 1, .origin, .text run, style, some loop, []⟩ []
  let body : Figure α := .mk ⟨0, 0, .origin, .group, style, none, []⟩ [writing]
  ⟨"p", "default", some ⟨.widget, none, none, [], [], none, none, body⟩, 0, .origin, []⟩

theorem report_mixedLoopPattern :
    (mixedLoopPattern.draw (.monospace 1 []) {} (⟨0, 0, 0, 0⟩ : Rect Float)).report.toOption.map
      (·.skipped) = some 1 := by
  have htarget : Rect.isTarget (⟨0, 0, 0, 0⟩ : Rect Float) = true := by decide +kernel
  simp only [Pattern.draw, mixedLoopPattern, htarget]
  rfl

/-- A figure that is left out leaves a text on the canvas, which its first turn wrote. -/
theorem Pattern.draw_keeps_turn :
    let stage : Stage Float := .monospace 1 []
    let target : Rect Float := ⟨0, 0, 0, 0⟩
    (mixedLoopPattern.draw stage {} target).report.toOption.map (·.skipped) = some 1 ∧
    ∃ a ∈ mixedLoopPattern.attempts stage {} target,
      a.error? stage = some (.badCast "string" "int") ∧
      (a.drawing stage).sheet.commands.map (·.text?) = [some "a"] :=
  ⟨report_mixedLoopPattern, _, List.mem_singleton_self _, rfl, rfl⟩

theorem Pattern.draw_skipped_mixedLoopPattern :
    let stage : Stage Float := .monospace 1 []
    let target : Rect Float := ⟨0, 0, 0, 0⟩
    ∃ report, (mixedLoopPattern.draw stage {} target).report = .ok report ∧
      report.skipped = (mixedLoopPattern.skipReports stage {} target).length := by
  intro stage target
  have hreport := report_mixedLoopPattern
  cases h : (mixedLoopPattern.draw stage {} target).report with
  | error e =>
      rw [h] at hreport
      cases hreport
  | ok report => exact ⟨report, rfl, (Pattern.draw_skipped stage _ {} target h).1⟩

end PatternMarkup
