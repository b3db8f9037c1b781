import PatternMarkup.Proofs.Drawing.Attempts
import PatternMarkup.Proofs.Pattern.ArgumentScopes
import PatternMarkup.Proofs.Pattern.TakenStyles
import PatternMarkup.Proofs.Pattern.VariableCycles
/-!
Values of styles that are taken over. A figure takes over expressions, not their values, and
evaluates them in its own scope. So a stroke width that is not set is the one of the figure around,
so long as no name that its expression reads is bound anew on the way; a text color that is set
nowhere around is handed on as a value.
-/

namespace PatternMarkup

variable {α : Type}

/-! ### Scopes in scopes -/

/-- A level without functions, in which no other names than some have a meaning. -/
structure Frame.BindsOnly (names : List String) (frame : Frame α) : Prop where
  functions : frame.functions = []
  binding? : ∀ n, n ∉ names → frame.binding? n = none

namespace Scope

/-- A scope lies in another one, with levels in between that bind no other names than some. -/
def LiesIn (s outer : Scope α) (names : List String) : Prop :=
  ∃ levels, s.frames = levels ++ outer.frames ∧ ∀ frame ∈ levels, frame.BindsOnly names

/-- A scope is one level in another one, which binds no other names than some. -/
def IsLevelIn (s outer : Scope α) (names : List String) : Prop :=
  ∃ frame, s.frames = frame :: outer.frames ∧ frame.BindsOnly names

variable {s t outer : Scope α} {names more : List String}

theorem isLevelIn_child (outer : Scope α) (names : List String) :
    outer.child.IsLevelIn outer names :=
  ⟨{}, rfl, rfl, fun _ _ => rfl⟩

theorem IsLevelIn.bind (h : s.IsLevelIn outer names) {n : String} (hn : n ∈ names)
    (b : Binding α) : (s.bind n b).IsLevelIn outer names := by
  obtain ⟨frame, hframes, hlevel⟩ := h
  refine ⟨frame.bind n b, ?_, hlevel.functions, fun m hm => ?_⟩
  · rw [Scope.bind, mapInner, hframes]
  · rw [Frame.binding?_bind, if_neg fun hname : n = m => hm (hname ▸ hn)]
    exact hlevel.binding? m hm

theorem IsLevelIn.liesIn (h : s.IsLevelIn outer names) : s.LiesIn outer names := by
  obtain ⟨frame, hframes, hlevel⟩ := h
  exact ⟨[frame], hframes, List.forall_mem_singleton.mpr hlevel⟩

theorem LiesIn.refl (s : Scope α) (names : List String) : s.LiesIn s names :=
  ⟨[], rfl, List.forall_mem_nil _⟩

theorem LiesIn.trans (h : s.LiesIn t names) (hmore : t.LiesIn outer more) :
    s.LiesIn outer (more ++ names) := by
  obtain ⟨levels, hframes, hlevels⟩ := h
  obtain ⟨levels', hframes', hlevels'⟩ := hmore
  refine ⟨levels ++ levels', by rw [hframes, hframes', List.append_assoc],
    List.forall_mem_append.mpr ⟨fun frame hframe => ?_, fun frame hframe => ?_⟩⟩
  · have hlevel := hlevels frame hframe
    exact ⟨hlevel.functions, fun n hn =>
      hlevel.binding? n fun hmem => hn (List.mem_append_right _ hmem)⟩
  · have hlevel := hlevels' frame hframe
    exact ⟨hlevel.functions, fun n hn =>
      hlevel.binding? n fun hmem => hn (List.mem_append_left _ hmem)⟩

theorem resolveIn_append {levels : List (Frame α)} {n : String}
    (h : ∀ frame ∈ levels, frame.binding? n = none) (frames : List (Frame α)) :
    resolveIn n (levels ++ frames) = resolveIn n frames := by
  induction levels with
  | nil => rfl
  | cons frame levels ih =>
      obtain ⟨hframe, hlevels⟩ := List.forall_mem_cons.mp h
      rw [List.cons_append, resolveIn, hframe]
      exact ih hlevels

theorem LiesIn.function?_eq (h : s.LiesIn outer names) (f : String) :
    s.function? f = outer.function? f := by
  obtain ⟨levels, hframes, hlevels⟩ := h
  rw [function?, function?, hframes]
  clear hframes
  induction levels with
  | nil => rfl
  | cons frame levels ih =>
      obtain ⟨hframe, hlevels⟩ := List.forall_mem_cons.mp hlevels
      rw [List.cons_append, functionIn, Frame.function?, hframe.functions]
      exact ih hlevels

/-- A name that no level in between binds has the same value. -/
theorem LiesIn.read_eq [Number α] (h : s.LiesIn outer names) {n : String} (hn : n ∉ names) :
    s.environment.read n = outer.environment.read n := by
  obtain ⟨levels, hframes, hlevels⟩ := h
  have hresolve : resolveIn n s.frames = resolveIn n outer.frames := by
    rw [hframes]
    exact resolveIn_append (fun frame hframe => (hlevels frame hframe).binding? n hn) _
  have hall : Splits s.frames [] (formulaKeys s.frames) := ⟨List.nodup_nil, by simp⟩
  have houter : Splits outer.frames [] (formulaKeys outer.frames) := ⟨List.nodup_nil, by simp⟩
  have hsuffix : outer.frames <:+ s.frames := ⟨levels, hframes.symm⟩
  rw [environment_read, environment_read, readName_congr hresolve]
  have hinside : Splits outer.frames ([] ++ []) (formulaKeys s.frames) := hall.of_suffix hsuffix
  exact readName_of_splits hinside houter (List.forall_mem_nil _) n

end Scope

/-- An expression has one value in a scope and around it, if no name that it reads is bound in
between. -/
theorem Expression.evaluate_of_liesIn {τ : Type} [Number α] [Typed α τ] {s outer : Scope α}
    {names : List String} (h : s.LiesIn outer names) (e : Expression α τ)
    (hnames : ∀ n ∈ e.freeNames, n ∉ names) : e.evaluate s = e.evaluate outer := by
  cases e with
  | constant v => rfl
  | formula f =>
      have hreads : f.ast.ReadsSame s.environment outer.environment :=
        ⟨fun n hn => h.read_eq (hnames n hn), fun name _ => h.function?_eq name⟩
      rw [Expression.evaluate, Expression.evaluate, Ast.evaluate, Ast.evaluate,
        Ast.evaluateWith_eq f.ast hreads]

/-! ### From a place to the figures in it -/

theorem Loop.turn_liesIn (loop : Loop α) (s : Scope α) (index : Nat) (item : Value α) :
    (loop.turn s index item).LiesIn s loop.names := by
  have hitem : (s.child.bindValue loop.item item).IsLevelIn s loop.names :=
    (Scope.isLevelIn_child s loop.names).bind List.mem_cons_self _
  unfold turn
  simp only
  split
  · next name hname => exact (hitem.bind (by simp [names, hname]) _).liesIn
  · exact hitem.liesIn

theorem variableScope_liesIn (s : Scope α) (vars : List (Variable α)) :
    (variableScope s vars).LiesIn s (vars.map (·.name)) := by
  cases vars with
  | nil => exact .refl s _
  | cons v vars =>
      rw [variableScope_of_mem (List.mem_cons_self (a := v) (l := vars))]
      refine ⟨[_], rfl, List.forall_mem_singleton.mpr ⟨functions_variableFrame _, fun n hn => ?_⟩⟩
      exact binding?_variableFrame_of_notMem fun w hw hname =>
        hn (List.mem_map.mpr ⟨w, hw, hname⟩)

theorem FrameLayout.scope_liesIn (layout : FrameLayout α) (s : Scope α) :
    (layout.scope s).LiesIn s ["width", "height"] :=
  (((Scope.isLevelIn_child s _).bind (by simp) _).bind (by simp) _).liesIn

/-- The frame of a figure that has one. -/
def FigureHead.frame? (head : FigureHead α) : Option (FigureFrame α) :=
  match head.kind with
  | .div frame => some frame
  | .area _ frame => some frame
  | _ => none

/-- The names that a figure gives to the extents of its frame. -/
def FigureHead.frameNames (head : FigureHead α) : List String :=
  if head.frame?.isSome then ["width", "height"] else []

theorem FigureHead.TakesOver.textColor_notMem {arena : Arena} {outer : Style α}
    {head : FigureHead α} (h : head.TakesOver arena outer) :
    "text_color" ∉ head.names ++ head.frameNames := by
  intro hmem
  rcases List.mem_append.mp hmem with hmem | hmem
  · exact absurd (h.names _ hmem) (by decide)
  · unfold frameNames at hmem
    split at hmem <;> simp at hmem

section

variable [Number α]

/-- The name whose meaning a paint gives to the figures inside, if it is one color. -/
def paintNames (name : String) (paint : Option (Paint α)) (s : Scope α) : List String :=
  if (paint.bind (Paint.solid? s)).isSome then [name] else []

theorem bindPaint_isLevelIn {s outer own : Scope α} {names : List String}
    (h : s.IsLevelIn outer names) (name : String) (paint : Option (Paint α))
    (hnames : paintNames name paint own ⊆ names) :
    (bindPaint name paint own s).IsLevelIn outer names := by
  unfold bindPaint
  split
  · next color hcolor =>
      have hname : name ∈ paintNames name paint own := by simp [paintNames, hcolor]
      exact h.bind (hnames hname) _
  · exact h

/-- The names that have a new meaning inside a figure: those of the state of the canvas. -/
def Interior.names (place : Interior α) : List String :=
  paintNames "fill" place.head.style.fill place.own ++
    (paintNames "stroke" place.head.style.stroke place.own ++
      ["stroke_width", "text_color", "transform"])

theorem Interior.scope_liesIn (place : Interior α) :
    place.scope.LiesIn place.own place.names := by
  have hfill := bindPaint_isLevelIn (Scope.isLevelIn_child place.own place.names) "fill" _
    (List.subset_append_left _ _)
  have hstroke := bindPaint_isLevelIn hfill "stroke" place.head.style.stroke
    (List.subset_append_of_subset_right _ (List.subset_append_left _ _))
  have hwidth := hstroke.bind (n := "stroke_width") (by simp [names])
    (.ofValue (.scalar place.look.strokeWidth))
  have hcolor := hwidth.bind (n := "text_color") (by simp [names])
    (.ofValue (.color place.look.textColor))
  have htransform := hcolor.bind (n := "transform") (by simp [names])
    (.ofValue (.transform place.look.transform))
  exact htransform.liesIn

theorem Interior.read_textColor (place : Interior α) :
    place.scope.environment.read "text_color" = .ok (.color place.look.textColor) := by
  refine Scope.read_of_value (b := .ofValue (.color place.look.textColor)) ?_ rfl
  rw [Interior.scope, Look.scope]
  simp [Scope.bindValue, Scope.lookup?_bind]

theorem Loop.exists_turn_of_mem {loop : Loop α} {s turn : Scope α} {index : Nat}
    {items : List (Value α)} (h : .ok turn ∈ loop.turnsFrom s index items) :
    ∃ index item, turn = loop.turn s index item := by
  induction items generalizing index with
  | nil => cases h
  | cons item rest ih =>
      rw [turnsFrom, List.mem_cons] at h
      rcases h with h | h
      · cases hitem : item.coerce loop.itemType with
        | error e =>
            rw [hitem] at h
            cases h
        | ok item =>
            rw [hitem] at h
            exact ⟨index, item, Except.ok.inj h⟩
      · exact ih h

namespace FigureHead

/-- The scope in which the style of a figure is evaluated in a turn. -/
def styleScope (head : FigureHead α) (turn : Scope α) : Except EvalError (Scope α) :=
  let s := variableScope turn head.vars
  match head.frame? with
  | some frame => (frame.layout s).map (·.scope s)
  | none => .ok s

theorem turn_liesIn {head : FigureHead α} {s turn : Scope α} (h : .ok turn ∈ head.turns s) :
    turn.LiesIn s (head.loop.elim [] Loop.names) := by
  unfold turns at h
  split at h
  · obtain rfl : turn = s := Except.ok.inj (List.mem_singleton.mp h)
    exact .refl turn _
  · next loop hloop =>
      rw [hloop]
      split at h
      · obtain ⟨index, item, rfl⟩ := Loop.exists_turn_of_mem h
        exact loop.turn_liesIn s index item
      · cases List.mem_singleton.mp h

theorem styleScope_liesIn {head : FigureHead α} {s turn own : Scope α}
    (hturn : .ok turn ∈ head.turns s) (hown : head.styleScope turn = .ok own) :
    own.LiesIn s (head.names ++ head.frameNames) := by
  have hvars := (variableScope_liesIn turn head.vars).trans (turn_liesIn hturn)
  unfold styleScope at hown
  simp only at hown
  unfold frameNames
  cases hframe : head.frame? with
  | none =>
      rw [hframe] at hown
      obtain rfl := Except.ok.inj hown
      exact (Scope.LiesIn.refl _ []).trans hvars
  | some frame =>
      rw [hframe] at hown
      simp only at hown
      cases hlayout : frame.layout (variableScope turn head.vars) with
      | error e =>
          rw [hlayout] at hown
          cases hown
      | ok layout =>
          rw [hlayout] at hown
          obtain rfl := Except.ok.inj hown
          exact (layout.scope_liesIn _).trans hvars

end FigureHead

/-! ### Styles of places -/

/-- The color of text in a scope. -/
def Style.textColorIn (style : Style α) (s : Scope α) : Except EvalError (Color α) :=
  match style.textColor with
  | some color => color.evaluate s
  | none => s.read "text_color"

theorem Style.look_ok {style : Style α} {s : Scope α} {look : Look α}
    (h : style.look s = .ok look) :
    style.strokeWidth.evaluate s = .ok look.strokeWidth ∧
      style.textColorIn s = .ok look.textColor := by
  unfold Style.look at h
  obtain ⟨strokeWidth, hwidth, h⟩ := FormulaParser.exists_of_bind_eq_ok h
  have hcolor : ∃ textColor, style.textColorIn s = .ok textColor ∧ (do
      let visible ← style.visible.evaluate s
      let transform ← style.transform.evaluate s
      let ownTransform ← evaluateOption s style.ownTransform
      return (⟨strokeWidth, textColor, visible, transform, ownTransform⟩ : Look α)) = .ok look := by
    unfold textColorIn
    cases htext : style.textColor <;> rw [htext] at h <;>
      exact FormulaParser.exists_of_bind_eq_ok h
  obtain ⟨textColor, hcolor, h⟩ := hcolor
  obtain ⟨visible, -, h⟩ := FormulaParser.exists_of_bind_eq_ok h
  obtain ⟨transform, -, h⟩ := FormulaParser.exists_of_bind_eq_ok h
  obtain ⟨ownTransform, -, h⟩ := FormulaParser.exists_of_bind_eq_ok h
  obtain rfl := Except.ok.inj h
  exact ⟨hwidth, hcolor⟩

/-- A place is inside a figure, which looks there as its style says in the scope of a turn. -/
structure Interior.IsOf (head : FigureHead α) (place : Interior α) : Prop where
  head_eq : place.head = head
  own_eq : ∃ turn, head.styleScope turn = .ok place.own
  look_eq : head.style.look place.own = .ok place.look

namespace FigureHead

variable {head : FigureHead α} {stage : Stage α} {m : Mapping α} {turn : Scope α}
  {plan : DrawPlan α}

theorem isOf_planFrame {frame : FigureFrame α} (hframe : head.frame? = some frame)
    (h : head.planFrame frame (variableScope turn head.vars) m = .ok plan) :
    ∀ place ∈ plan.inside?, place.IsOf head := by
  unfold planFrame at h
  obtain ⟨layout, hlayout, h⟩ := FormulaParser.exists_of_bind_eq_ok h
  obtain ⟨look, hlook, h⟩ := FormulaParser.exists_of_bind_eq_ok h
  split at h
  · obtain ⟨filling, -, h⟩ := FormulaParser.exists_of_bind_eq_ok h
    obtain ⟨stroking, -, h⟩ := FormulaParser.exists_of_bind_eq_ok h
    obtain rfl := Except.ok.inj h
    intro place hplace
    obtain rfl := Option.some.inj hplace
    have hown : head.styleScope turn = .ok (layout.scope (variableScope turn head.vars)) := by
      simp only [styleScope, hframe, hlayout]
      rfl
    exact ⟨rfl, ⟨turn, hown⟩, hlook⟩
  · obtain rfl := Except.ok.inj h
    exact fun place hplace => absurd hplace (Option.not_mem_none place)

theorem isOf_planGroup (hframe : head.frame? = none)
    (h : head.planGroup (variableScope turn head.vars) m = .ok plan) :
    ∀ place ∈ plan.inside?, place.IsOf head := by
  unfold planGroup at h
  obtain ⟨look, hlook, h⟩ := FormulaParser.exists_of_bind_eq_ok h
  split at h
  · obtain rfl := Except.ok.inj h
    intro place hplace
    obtain rfl := Option.some.inj hplace
    have hown : head.styleScope turn = .ok (variableScope turn head.vars) := by
      simp only [styleScope, hframe]
    exact ⟨rfl, ⟨turn, hown⟩, hlook⟩
  · obtain rfl := Except.ok.inj h
    exact fun place hplace => absurd hplace (Option.not_mem_none place)

omit [Number α] in
theorem inside?_planLeaf {drawing : Draw α Unit} (h : planLeaf drawing = .ok plan) :
    plan.inside? = none := by
  unfold planLeaf at h
  cases hdrawing : drawing.result with
  | error e =>
      rw [hdrawing] at h
      cases h
  | ok _ =>
      rw [hdrawing] at h
      obtain rfl := Except.ok.inj h
      rfl

theorem isOf_plan (h : head.plan stage turn m = .ok plan) :
    ∀ place ∈ plan.inside?, place.IsOf head := by
  have hleaf : ∀ drawing : Draw α Unit, planLeaf drawing = .ok plan →
      ∀ place ∈ plan.inside?, place.IsOf head := fun drawing hplan place hplace =>
    absurd (inside?_planLeaf hplan ▸ hplace) (Option.not_mem_none place)
  unfold FigureHead.plan at h
  cases hkind : head.kind <;> rw [hkind] at h
  · exact isOf_planFrame (by rw [frame?, hkind]) h
  · exact isOf_planFrame (by rw [frame?, hkind]) h
  · exact isOf_planGroup (by rw [frame?, hkind]) h
  · exact hleaf _ h
  · exact hleaf _ h
  · exact hleaf _ h
  · exact hleaf _ h

theorem isOf_placesOf (turns : List (Except EvalError (Scope α))) :
    ∀ place ∈ head.placesOf stage m turns, place.IsOf head := by
  induction turns with
  | nil => exact List.forall_mem_nil _
  | cons turn rest ih =>
      rw [placesOf]
      split
      · next plan hplan =>
          obtain ⟨s, -, hplan⟩ := FormulaParser.exists_of_bind_eq_ok hplan
          refine List.forall_mem_append.mpr ⟨fun place hplace => ?_, ih⟩
          exact isOf_plan hplan place (Option.mem_toList.mp hplace)
      · exact List.forall_mem_nil _

end FigureHead

/-- An attempt is made in a place of a figure whose style the drawn figure takes over. -/
structure Attempt.Cascades (arena : Arena) (a : Attempt α) : Prop where
  isOf : a.place.IsOf a.place.head
  takesOver : a.figure.head.TakesOver arena a.place.head.style.inherited

mutual

theorem Figure.cascades_attempts {arena : Arena} (stage : Stage α) {outer : Style α} :
    (figure : Figure α) → figure.Cascades arena outer → ∀ (s : Scope α) (m : Mapping α),
      ∀ a ∈ figure.attempts stage s m, a.Cascades arena
  | .mk head children, h, s, m => by
      intro a ha
      rw [Figure.attempts] at ha
      obtain ⟨place, hplace, hin⟩ := List.mem_flatMap.mp ha
      have hof := FigureHead.isOf_placesOf _ place hplace
      obtain rfl := hof.head_eq
      exact cascades_attemptsOfAll stage hof children h.2 a hin

theorem cascades_attemptsOfAll {arena : Arena} (stage : Stage α) {place : Interior α}
    (hof : place.IsOf place.head) :
    (figures : List (Figure α)) → AllCascade arena place.head.style.inherited figures →
      ∀ a ∈ attemptsOfAll stage place figures, a.Cascades arena
  | [], _ => List.forall_mem_nil _
  | figure :: rest, h => by
      rw [attemptsOfAll]
      refine List.forall_mem_append.mpr
        ⟨figure.cascades_attempts stage h.1 place.scope place.map,
          List.forall_mem_cons.mpr ⟨?_, cascades_attemptsOfAll stage hof rest h.2⟩⟩
      obtain ⟨head, children⟩ := figure
      exact ⟨hof, h.1.1⟩

end

/-- The names that are bound anew between the style of the place of an attempt and the style of the
figure: the state of the canvas, then the loop, the variables and the extents of the figure. -/
def Attempt.names (a : Attempt α) : List String :=
  a.place.names ++ (a.figure.head.names ++ a.figure.head.frameNames)

/-- Figures are drawn in places that look as the style of the figure around them says. A figure
that does not set a stroke width has the one found there, unless the expression for it reads a name
that is bound anew in between. So it is with the color of text, and without any condition if none
of the figures around sets one. -/
theorem Pattern.style_cascades (source : String) (o : BindOptions) {p : Pattern α}
    (hp : p ∈ (bindSource source o : BoundDocument α).patterns) (stage : Stage α) (i : Instance α)
    (target : Rect α) {a : Attempt α} (ha : a ∈ p.attempts stage i target) {turn s : Scope α}
    (hturn : .ok turn ∈ a.turns) (hs : a.figure.head.styleScope turn = .ok s) :
    let arena := (bindSource source o : BoundDocument α).document.arena
    a.place.IsOf a.place.head ∧
    (arena.attribute? a.figure.head.node "stroke-width" = none →
      (∀ n ∈ a.place.head.style.strokeWidth.freeNames, n ∉ a.names) →
      a.figure.head.style.strokeWidth.evaluate s = .ok a.place.look.strokeWidth) ∧
    (arena.attribute? a.figure.head.node "text-color" = none →
      (∀ color ∈ a.place.head.style.textColor, ∀ n ∈ color.freeNames, n ∉ a.names) →
      a.figure.head.style.textColorIn s = .ok a.place.look.textColor) := by
  intro arena
  have hcascades : a.Cascades arena := by
    unfold Pattern.attempts at ha
    split at ha
    · cases ha
    · next content hcontent =>
        have hbody := cascades_bindSource source o p hp content hcontent
        exact content.body.cascades_attempts stage hbody _ _ a ha
  obtain ⟨hof, htakes⟩ := hcascades
  obtain ⟨hwidth, hcolor⟩ := Style.look_ok hof.look_eq
  have hinner := FigureHead.styleScope_liesIn hturn hs
  have hscope : s.LiesIn a.place.own a.names := hinner.trans a.place.scope_liesIn
  refine ⟨hof, fun hunset hnames => ?_, fun hunset hnames => ?_⟩
  · rw [htakes.strokeWidth hunset, ← hwidth]
    exact Expression.evaluate_of_liesIn hscope _ hnames
  · have htext := htakes.textColor hunset
    rw [Style.textColorIn] at hcolor ⊢
    cases hset : a.place.head.style.textColor with
    | some color =>
        rw [htext, Style.inherited, hset]
        rw [hset] at hcolor
        rw [← hcolor]
        exact Expression.evaluate_of_liesIn hscope color (hnames color hset)
    | none =>
        have hread := hinner.read_eq htakes.textColor_notMem
        rw [a.place.read_textColor] at hread
        rw [htext, Style.inherited, hset, Scope.read, hread]
        rfl

/-- The source of a pattern with a stroke width, and in it a group that does not set one. -/
def nestedGroupSource : String :=
  "<pattern name='p' type='widget' stroke-width='2'><group/></pattern>"

theorem Pattern.style_cascades_nestedGroup :
    let d : BoundDocument Float := bindSource nestedGroupSource {}
    ∃ p ∈ d.patterns, ∃ a ∈ p.attempts (.monospace 1 []) {} ⟨0, 0, 0, 0⟩, ∃ turn s,
      .ok turn ∈ a.turns ∧ a.figure.head.styleScope turn = .ok s ∧
      d.document.arena.attribute? a.figure.head.node "stroke-width" = none ∧
      d.document.arena.attribute? a.figure.head.node "text-color" = none ∧
      a.figure.head.style.strokeWidth.evaluate s = .ok a.place.look.strokeWidth ∧
      a.figure.head.style.textColorIn s = .ok a.place.look.textColor := by
  intro d
  have hfound : (d.patterns.any fun p =>
      (p.attempts (.monospace 1 []) {} ⟨0, 0, 0, 0⟩).any fun a =>
        a.figure.head.node == 1 && a.figure.head.loop.isNone && a.figure.head.frame?.isNone &&
          a.place.head.style.strokeWidth.freeNames.isEmpty &&
          a.place.head.style.textColor.isNone) = true := by decide +kernel
  obtain ⟨p, hp, hfound⟩ := List.any_eq_true.mp hfound
  obtain ⟨a, ha, hfound⟩ := List.any_eq_true.mp hfound
  simp only [Bool.and_eq_true, beq_iff_eq, Option.isNone_iff_eq_none, List.isEmpty_iff] at hfound
  obtain ⟨⟨⟨⟨hnode, hloop⟩, hframe⟩, hnames⟩, hcolor⟩ := hfound
  have hunset : ∀ name ∈ ["stroke-width", "text-color"],
      d.document.arena.attribute? a.figure.head.node name = none := by
    obtain ⟨r, hfinds, -, harena, -⟩ := (Document.ofSource nestedGroupSource false).finds_bind
      (α := Float) (Document.isWritten_ofSource _ _) {}
    intro name hname
    have hlt : 1 < (Document.ofSource nestedGroupSource false).arena.size := by decide +kernel
    have hsource : ∀ name ∈ ["stroke-width", "text-color"],
        ((Document.ofSource nestedGroupSource false).arena.attribute? 1 name).isNone = true := by
      decide +kernel
    show Arena.attribute? ((Document.ofSource nestedGroupSource false).bind {} :
      BoundDocument Float).document.arena _ name = none
    rw [harena, hnode, hfinds.arena.attribute?_eq hlt]
    exact Option.isNone_iff_eq_none.mp (hsource name hname)
  have hturn : .ok a.place.scope ∈ a.turns := by
    rw [Attempt.turns, FigureHead.turns, hloop]
    exact List.mem_singleton_self _
  have hscope : a.figure.head.styleScope a.place.scope =
      .ok (variableScope a.place.scope a.figure.head.vars) := by
    rw [FigureHead.styleScope, hframe]
  obtain ⟨-, hwidth, htext⟩ :=
    Pattern.style_cascades nestedGroupSource {} hp (.monospace 1 []) {} ⟨0, 0, 0, 0⟩ ha hturn hscope
  have hwidthUnset := hunset "stroke-width" (by simp)
  have htextUnset := hunset "text-color" (by simp)
  refine ⟨p, hp, a, ha, _, _, hturn, hscope, hwidthUnset, htextUnset, hwidth hwidthUnset ?_,
    htext htextUnset ?_⟩
  · rw [hnames]
    exact List.forall_mem_nil _
  · rw [hcolor]
    exact fun color h => absurd h (Option.not_mem_none color)

/-- A variable that holds a width. -/
def widthVariable (w : α) : Variable α := ⟨"w", .scalar, some (.constant (.scalar w)), .origin⟩

/-- A style whose stroke width is that of the variable. -/
def variableWidthStyle : Style α :=
  { Style.initial with
    strokeWidth := .formula ⟨.name "w" ⟨0, 1⟩, .scalar⟩
    textColor := some (.constant .black) }

/-- A pattern with a group that is stroked as wide as its variable says, and in it a group with a
variable of the same name and another width. -/
def shadowedWidthPattern : Pattern α :=
  let group (w : α) : FigureHead α :=
    ⟨0, 0, .origin, .group, variableWidthStyle, none, [widthVariable w]⟩
  let body : Figure α := .mk (group Number.one) [.mk (group Number.two) []]
  ⟨"p", "default", some ⟨.widget, none, none, [], [], none, none, body⟩, 0, .origin, []⟩

theorem evaluate_variableWidth (s : Scope α) (w : α) :
    (variableWidthStyle : Style α).strokeWidth.evaluate (variableScope s [widthVariable w]) =
      .ok w := by
  have hlookup : (variableScope s [widthVariable w]).lookup? "w" = some (.ofValue (.scalar w)) := by
    rw [variableScope_of_mem (List.mem_singleton_self (widthVariable w))]
    rfl
  rw [variableWidthStyle, Expression.evaluate, Ast.evaluate, Ast.evaluateWith,
    Scope.read_of_value hlookup rfl]
  rfl

theorem look_variableWidth (s : Scope α) (w : α) :
    (variableWidthStyle : Style α).look (variableScope s [widthVariable w]) =
      .ok ⟨w, .black, true, .identity, none⟩ := by
  rw [Style.look, evaluate_variableWidth]
  rfl

/-- The group inside takes over the expression of the group around it, and finds another width. -/
theorem Pattern.style_cascades_shadowed :
    ∃ a ∈ (shadowedWidthPattern : Pattern Float).attempts (.monospace 1 []) {} ⟨0, 0, 0, 0⟩,
      ∃ turn s, .ok turn ∈ a.turns ∧ a.figure.head.styleScope turn = .ok s ∧
        a.figure.head.style.strokeWidth = a.place.head.style.strokeWidth ∧
        a.figure.head.style.strokeWidth.evaluate s ≠ .ok a.place.look.strokeWidth := by
  let stage : Stage Float := .monospace 1 []
  let group (w : Float) : FigureHead Float :=
    ⟨0, 0, .origin, .group, variableWidthStyle, none, [widthVariable w]⟩
  let s : Scope Float := (shadowedWidthPattern.bindArguments {}).1.scope (stage.scope ⟨0, 0⟩)
  let place : Interior Float :=
    ⟨group Number.one, variableScope s [widthVariable Number.one],
      ⟨Number.one, .black, true, .identity, none⟩, .ofTransform (.translate 0 0), none⟩
  have hplan : (group Number.one).planTurn stage (.ofTransform (.translate 0 0)) (.ok s) =
      .ok ⟨[], some place⟩ := by
    show (group Number.one).planGroup (variableScope s [widthVariable Number.one]) _ = _
    rw [FigureHead.planGroup]
    dsimp only [group]
    rw [look_variableWidth]
    rfl
  have hplace : place ∈
      (group Number.one).placesOf stage (.ofTransform (.translate 0 0)) [.ok s] := by
    rw [FigureHead.placesOf, hplan]
    exact List.mem_singleton_self place
  refine ⟨⟨place, .mk (group Number.two) []⟩, ?_, place.scope,
    variableScope place.scope [widthVariable Number.two], List.mem_singleton_self _, rfl, rfl, ?_⟩
  · show _ ∈ Figure.attempts stage (.mk (group Number.one) [.mk (group Number.two) []]) s _
    rw [Figure.attempts]
    refine List.mem_flatMap.mpr ⟨place, hplace, ?_⟩
    rw [attemptsOfAll]
    exact List.mem_append_right _ (List.mem_singleton_self _)
  · show variableWidthStyle.strokeWidth.evaluate _ ≠ _
    rw [evaluate_variableWidth]
    have hne : (Number.two : Float) ≠ Number.one := by decide +kernel
    exact fun h => hne (Except.ok.inj h)

end

end PatternMarkup
