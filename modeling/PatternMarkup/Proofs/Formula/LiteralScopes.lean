import PatternMarkup.Number.Double
import PatternMarkup.Proofs.Formula.Coercion
import PatternMarkup.Proofs.Formula.Delivery
import PatternMarkup.Proofs.Formula.Forms
import PatternMarkup.Proofs.Formula.LiteralTrees
/-!
Literals in different scopes. A literal that is a constant without names is the same constant in
every scope that does not hide the functions that literals of its type are short for. In a scope
that hides one it may become a formula; the formula has the value of the constant all the same,
unless the scope has a function of its own in place of one of those.
-/

namespace PatternMarkup

variable {α : Type} [Number α]

namespace Expression

/-- The expression has a value without names, which is `c` in the form of the type. -/
def StandsFor (type : ValueType) (c : Value α) (e : Expression α (Value α)) : Prop :=
  ∃ v, e.toAst.evaluate .empty = .ok v ∧ v.coerce type = .ok c

/-- What a scope reads in place of the expression `e₀` that is read without names: an expression of
literals whose value is `c`, and `e₀` itself where none of the type's functions is hidden. -/
structure Restates (s : Scope α) (type : ValueType) (c : Value α)
    (e e₀ : Expression α (Value α)) : Prop where
  ofLiterals : e.toAst.OfLiterals type.shorthands
  evaluates : e.toAst.evaluate .empty = .ok c
  eq_of_shown : (∀ b ∈ type.shorthands, s.shadows b.name = false) → e = e₀

theorem evaluate_eq_toAst (e : Expression α (Value α)) (s : Scope α) :
    e.evaluate s = e.toAst.evaluate s := by
  cases e with
  | constant v =>
      rw [evaluate, toAst, Ast.evaluate, Ast.evaluateWith]
      rfl
  | formula f =>
      rw [evaluate, toAst]
      cases f.ast.evaluate s <;> rfl

theorem evaluate_toAst_constant (v : Value α) :
    (constant v : Expression α (Value α)).toAst.evaluate .empty = .ok v := by
  rw [← evaluate_eq_toAst]
  rfl

theorem coerce_of_standsFor_constant {type : ValueType} {c v : Value α}
    (h : StandsFor type c (.constant v)) : v.coerce type = .ok c := by
  obtain ⟨w, hw, hc⟩ := h
  rw [evaluate_toAst_constant] at hw
  cases hw
  exact hc

/-- An expression of literals has the same value wherever no function takes the place of one that it
calls. -/
theorem Restates.evaluate {s : Scope α} {type : ValueType} {c : Value α}
    {e e₀ : Expression α (Value α)} (h : e.Restates s type c e₀) {s' : Scope α}
    (hs' : ∀ b ∈ type.shorthands, s'.function? b.name = none) : e.evaluate s' = .ok c := by
  have hsame : ∀ b ∈ type.shorthands, s'.environment.function? b.name
      = (Scope.empty : Scope α).environment.function? b.name := fun b hb => hs' b hb
  rw [evaluate_eq_toAst, ← h.evaluates]
  exact Ast.evaluateWith_eq e.toAst (h.ofLiterals.readsSame hsame)

end Expression

/-! ### Settling trees -/

theorem ofLiterals_settle {text : Fragment} {type : ValueType} {bs : List Builtin} {ast : Ast α}
    (hast : ast.OfLiterals bs) {e : Expression α (Value α)} (he : text.settle type ast = .ok e) :
    e.toAst.OfLiterals bs := by
  rcases settle_cases he with ⟨v, w, -, rfl⟩ | ⟨-, rfl⟩
  · trivial
  · exact hast

theorem exists_settle_of_evaluate (text : Fragment) {type : ValueType} {ast : Ast α}
    {v c : Value α} (hv : ast.evaluate .empty = .ok v) (hc : v.coerce type = .ok c)
    (htaken : ast.literal? = none → v = c) :
    ∃ e, text.settle type ast = .ok e ∧ e.toAst.evaluate .empty = .ok c := by
  unfold Fragment.settle
  cases hliteral : ast.literal? with
  | none =>
      refine ⟨_, rfl, ?_⟩
      rw [← htaken hliteral]
      exact hv
  | some w =>
      have hw : ast.evaluate .empty = .ok w := Ast.evaluateWith_of_literal? hliteral
      obtain rfl : w = v := Except.ok.inj (hw.symm.trans hv)
      simp only [hc]
      exact ⟨_, rfl, Expression.evaluate_toAst_constant c⟩

theorem exists_evaluate_of_settle {text : Fragment} {type : ValueType} {ast : Ast α}
    {e : Expression α (Value α)} {c : Value α} (he : text.settle type ast = .ok e)
    (hc : e.StandsFor type c) : ∃ v, ast.evaluate .empty = .ok v ∧ v.coerce type = .ok c := by
  unfold Fragment.settle at he
  cases hliteral : ast.literal? with
  | none =>
      simp only [hliteral] at he
      cases he
      exact hc
  | some v =>
      simp only [hliteral] at he
      refine ⟨v, Ast.evaluateWith_of_literal? hliteral, ?_⟩
      cases hw : v.coerce type with
      | error e => simp only [hw] at he; cases he
      | ok w =>
          simp only [hw] at he
          cases he
          have hwc := Expression.coerce_of_standsFor_constant hc
          exact (Value.coerce_coerce v hw).symm.trans hwc

/-- Two trees are settled alike if the second one has a value of the type where the first one
has. -/
theorem exists_restates_of_settle {s : Scope α} {text : Fragment} {type : ValueType}
    {ast₀ ast : Ast α} (hast : ast.OfLiterals type.shorthands)
    (hsame : (∀ b ∈ type.shorthands, s.shadows b.name = false) → ast = ast₀) {c : Value α}
    (hvalue : ∀ v, ast₀.evaluate .empty = .ok v → v.coerce type = .ok c →
      ∃ w, ast.evaluate .empty = .ok w ∧ w.coerce type = .ok c ∧ (ast.literal? = none → w = c))
    {e₀ : Expression α (Value α)} (he₀ : text.settle type ast₀ = .ok e₀)
    (hc : e₀.StandsFor type c) :
    ∃ e, text.settle type ast = .ok e ∧ e.Restates s type c e₀ := by
  obtain ⟨v, hv, hvc⟩ := exists_evaluate_of_settle he₀ hc
  obtain ⟨w, hw, hwc, htaken⟩ := hvalue v hv hvc
  obtain ⟨e, he, hevaluates⟩ := exists_settle_of_evaluate text hw hwc htaken
  refine ⟨e, he, ofLiterals_settle hast he, hevaluates, fun hshown => ?_⟩
  rw [hsame hshown, he₀] at he
  exact (Except.ok.inj he).symm

theorem Ast.fold_eq_fold_empty {s : Scope α} {bs : List Builtin} {ast : Ast α}
    (hast : ast.OfLiterals bs) (h : ∀ b ∈ bs, s.shadows b.name = false) :
    ast.fold s = ast.fold .empty :=
  foldWith_congr (fun b hb => (h b hb).trans (Scope.shadows_empty b.name).symm) ast hast

/-- A tree of literals that is folded in a scope and without names is settled alike. -/
theorem exists_restates_of_fold {s : Scope α} {text : Fragment} {type : ValueType} {ast : Ast α}
    (hast : ast.OfLiterals type.shorthands) (htaken : ast.IsTakenBy type)
    {e₀ : Expression α (Value α)} (he₀ : text.settle type (ast.fold .empty) = .ok e₀) {c : Value α}
    (hc : e₀.StandsFor type c) :
    ∃ e, text.settle type (ast.fold s) = .ok e ∧ e.Restates s type c e₀ := by
  refine exists_restates_of_settle (Ast.ofLiterals_foldWith s.shadows ast hast)
    (Ast.fold_eq_fold_empty hast) (fun v hv hvc => ⟨v, ?_, hvc, fun hnone => ?_⟩) he₀ hc
  · rw [Ast.evaluate_empty_fold] at hv
    exact (Ast.evaluate_empty_fold s ast).trans hv
  · rw [Ast.evaluate_empty_fold] at hv
    exact htaken.eq_of_fold hnone hv hvc

/-! ### Reading in two scopes -/

theorem exists_restates_of_readsLiterals {axis : Option Axis} {s : Scope α} {type : ValueType}
    {text : Fragment} {read : Scope α → Except FormatError (Ast α)}
    (hread : ReadsLiterals type read)
    (hsettle : ∀ s, readTyped ⟨s, axis⟩ type text = read s >>= text.settle type)
    {e₀ : Expression α (Value α)} (he₀ : readTyped ⟨.empty, axis⟩ type text = .ok e₀)
    {c : Value α} (hc : e₀.StandsFor type c) :
    ∃ e, readTyped ⟨s, axis⟩ type text = .ok e ∧ e.Restates s type c e₀ := by
  rw [hsettle] at he₀ ⊢
  cases hread with
  | refuses e h =>
      rw [h .empty] at he₀
      cases he₀
  | folds ast hast htaken h =>
      rw [h .empty] at he₀
      rw [h s]
      exact exists_restates_of_fold hast htaken he₀ hc

/-- Items that are read alike one by one. The induction is on the pieces of text. -/
theorem exists_items_restating {s : Scope α} {item : ValueType} {pieces : List Fragment}
    {read₀ read : Fragment → Except FormatError (Expression α (Value α))}
    (hread : ∀ piece ∈ pieces, ∀ e₀ c, read₀ piece = .ok e₀ → e₀.StandsFor item c →
      ∃ e, read piece = .ok e ∧ e.Restates s item c e₀)
    {items₀ : List (Expression α (Value α))} (hitems₀ : pieces.mapM read₀ = .ok items₀)
    {values cs : List (Value α)}
    (hvalues : Ast.evaluateAll (Scope.empty : Scope α).environment (items₀.map (·.toAst))
      = .ok values)
    (hcs : Value.coerceItems item values = .ok cs) :
    ∃ items, pieces.mapM read = .ok items ∧
      Ast.AllOfLiterals item.shorthands (items.map (·.toAst)) ∧
      Ast.evaluateAll (Scope.empty : Scope α).environment (items.map (·.toAst)) = .ok cs ∧
      ((∀ b ∈ item.shorthands, s.shadows b.name = false) → items = items₀) := by
  induction pieces generalizing items₀ values cs with
  | nil =>
      obtain rfl : items₀ = [] := (Except.ok.inj hitems₀).symm
      rw [List.map_nil, Ast.evaluateAll] at hvalues
      cases hvalues
      cases hcs
      exact ⟨[], rfl, trivial, by rw [List.map_nil, Ast.evaluateAll], fun _ => rfl⟩
  | cons piece rest ih =>
      obtain ⟨e₀, more₀, he₀, hmore₀, rfl⟩ := exists_of_mapM_cons hitems₀
      obtain ⟨v, vs, hv, hvs, rfl⟩ := Ast.exists_of_evaluateAll_cons hvalues
      obtain ⟨c, more, hc, hmore, rfl⟩ := Value.exists_of_coerceItems_cons hcs
      obtain ⟨e, he, hrestates⟩ := hread piece List.mem_cons_self e₀ c he₀ ⟨v, hv, hc⟩
      obtain ⟨items, hitems, hliterals, hevaluates, hshown⟩ :=
        ih (fun p hp => hread p (List.mem_cons_of_mem piece hp)) hmore₀ hvs hmore
      refine ⟨e :: items, ?_, ⟨hrestates.ofLiterals, hliterals⟩, ?_, ?_⟩
      · rw [List.mapM_cons, he, hitems]
        rfl
      · have hhead : e.toAst.evaluateWith (Scope.empty : Scope α).environment = .ok c :=
          hrestates.evaluates
        rw [List.map_cons, Ast.evaluateAll, hhead, hevaluates]
        rfl
      · intro hs
        rw [hrestates.eq_of_shown hs, hshown hs]

/-- Text as a list of items in a scope. -/
def Fragment.listOf (text : Fragment) (s : Scope α)
    (read : Fragment → Except FormatError (Expression α (Value α))) :
    Except FormatError (Ast α) := do
  let items ← text.pieces.mapM read
  return (Ast.list (items.map (·.toAst)) text.trimmed.range).fold s

/-- A list whose items are read alike. -/
theorem exists_restates_of_items {s : Scope α} {text : Fragment} {item : ValueType}
    {read₀ read : Fragment → Except FormatError (Expression α (Value α))}
    (hread : ∀ piece ∈ text.pieces, ∀ e₀ c, read₀ piece = .ok e₀ → e₀.StandsFor item c →
      ∃ e, read piece = .ok e ∧ e.Restates s item c e₀)
    {e₀ : Expression α (Value α)}
    (he₀ : (text.listOf .empty read₀ >>= text.settle (.list item)) = .ok e₀)
    {c : Value α} (hc : e₀.StandsFor (.list item) c) :
    ∃ e, (text.listOf s read >>= text.settle (.list item)) = .ok e ∧
      e.Restates s (.list item) c e₀ := by
  obtain ⟨ast₀, hast₀, he₀⟩ := FormulaParser.exists_of_bind_eq_ok he₀
  obtain ⟨items₀, hitems₀, h⟩ := FormulaParser.exists_of_bind_eq_ok hast₀
  cases h
  -- the value of the list gives every item the value it stands for
  obtain ⟨v, hv, hvc⟩ := exists_evaluate_of_settle he₀ hc
  rw [Ast.evaluate_empty_fold, Ast.evaluate, Ast.evaluateWith] at hv
  obtain ⟨values, hvalues, hv⟩ := FormulaParser.exists_of_bind_eq_ok hv
  cases hv
  have hmap := hvc
  rw [Value.coerce] at hmap
  obtain ⟨cs, hcs, rfl⟩ := Value.exists_of_map_eq_ok hmap
  obtain ⟨items, hitems, hliterals, hevaluates, hshown⟩ :=
    exists_items_restating hread hitems₀ hvalues hcs
  have hlist : (Ast.list (items.map (·.toAst)) text.trimmed.range).OfLiterals
      (ValueType.list item).shorthands := hliterals
  have hread : text.listOf s read
      = .ok ((Ast.list (items.map (·.toAst)) text.trimmed.range).fold s) := by
    rw [Fragment.listOf, hitems]
    rfl
  rw [hread]
  refine exists_restates_of_settle (Ast.ofLiterals_foldWith s.shadows _ hlist) ?_ ?_ he₀ hc
  · intro hs
    rw [← hshown hs]
    exact Ast.fold_eq_fold_empty hlist hs
  · intro _ _ _
    refine ⟨.list cs, ?_, Value.coerce_coerce _ hvc, fun _ => rfl⟩
    have hfold := Ast.evaluate_empty_fold s (Ast.list (items.map (·.toAst)) text.trimmed.range)
    refine hfold.trans ?_
    rw [Ast.evaluate, Ast.evaluateWith, hevaluates]
    rfl

theorem Fragment.settleBraced_of_isPlain {text : Fragment} (h : IsPlain text.chars) (s : Scope α)
    (type : ValueType) (other : Except FormatError (Ast α)) :
    text.settleBraced s type other = other >>= text.settle type := by
  unfold settleBraced
  rw [braced?_of_isPlain h]

theorem eq_of_coerceItems_numbers {items : List Fragment} {asts : List (Ast α)}
    (hasts : items.mapM Fragment.plainNumber = .ok asts) {values cs : List (Value α)}
    (hvalues : Ast.evaluateAll (Scope.empty : Scope α).environment asts = .ok values)
    (hcs : Value.coerceItems .scalar values = .ok cs) : values = cs := by
  induction items generalizing asts values cs with
  | nil =>
      obtain rfl : asts = [] := (Except.ok.inj hasts).symm
      rw [Ast.evaluateAll] at hvalues
      cases hvalues
      exact Except.ok.inj hcs
  | cons item rest ih =>
      obtain ⟨ast, more, hast, hmore, rfl⟩ := exists_of_mapM_cons hasts
      obtain ⟨v, vs, hv, hvs, rfl⟩ := Ast.exists_of_evaluateAll_cons hvalues
      obtain ⟨c, ws, hc, hws, rfl⟩ := Value.exists_of_coerceItems_cons hcs
      obtain ⟨x, rfl⟩ := Fragment.exists_of_plainNumber hast
      rw [Ast.evaluateWith] at hv
      cases hv
      rw [Value.eq_of_coerce rfl hc, ih hmore hvs hws]

/-- Numbers of a list without formulas. -/
theorem Fragment.readsLiterals_numbers {text : Fragment} (h : IsPlain text.chars)
    (axis : Option Axis) : ReadsLiterals (.list .scalar) fun s : Scope α => do
      let items ← text.pieces.mapM fun item => item.numberItem s axis
      return (Ast.list items text.trimmed.range).fold s := by
  have hitems : ∀ s : Scope α, (text.pieces.mapM fun item => item.numberItem s axis)
      = text.pieces.mapM plainNumber :=
    fun s => mapM_congr fun item hitem =>
      numberItem_of_isPlain (isPlain_of_mem_pieces h item hitem) s axis
  cases hread : (text.pieces.mapM plainNumber : Except FormatError (List (Ast α))) with
  | error e =>
      refine .refuses e fun s => ?_
      rw [hitems s, hread]
      rfl
  | ok items =>
      have hliterals : Ast.AllOfLiterals [] items := allOfLiterals_of_mapM
        (fun _ _ _ => ofLiterals_plainNumber) hread
      refine .folds (.list items text.trimmed.range) hliterals (.inr ?_) fun s => ?_
      · intro v c hv hc
        rw [Ast.evaluate, Ast.evaluateWith] at hv
        obtain ⟨values, hvalues, hv⟩ := FormulaParser.exists_of_bind_eq_ok hv
        cases hv
        rw [Value.coerce] at hc
        obtain ⟨cs, hcs, rfl⟩ := Value.exists_of_map_eq_ok hc
        rw [eq_of_coerceItems_numbers hread hvalues hcs]
      · rw [hitems s, hread]
        rfl

/-- Plain text that stands for a value without names is restated by every scope. The recursion is
on the type, for the items of a list. -/
theorem exists_restates_of_readTyped {axis : Option Axis} {s : Scope α} (type : ValueType)
    {text : Fragment} (h : IsPlain text.chars) {e₀ : Expression α (Value α)}
    (he₀ : readTyped ⟨.empty, axis⟩ type text = .ok e₀) {c : Value α} (hc : e₀.StandsFor type c) :
    ∃ e, readTyped ⟨s, axis⟩ type text = .ok e ∧ e.Restates s type c e₀ := by
  cases type with
  | string | path =>
      exact exists_restates_of_readsLiterals (Fragment.readsLiterals_template h) (fun _ => rfl)
        he₀ hc
  | list item =>
      by_cases hscalar : item = .scalar
      · subst hscalar
        exact exists_restates_of_readsLiterals (Fragment.readsLiterals_numbers h axis)
          (fun s => Fragment.settleBraced_of_isPlain h s _ _) he₀ hc
      · rw [readTyped, Fragment.settleBraced_of_isPlain h] at he₀ ⊢
        · exact exists_restates_of_items
            (fun piece hpiece _ _ hpiece₀ hstands => exists_restates_of_readTyped item
              (Fragment.isPlain_of_mem_pieces h piece hpiece) hpiece₀ hstands) he₀ hc
        all_goals exact hscalar
  | _ =>
      refine exists_restates_of_readsLiterals (Fragment.readsLiterals_plain h axis _)
        (fun s => ?_) he₀ hc
      exact Fragment.settleBraced_of_isPlain h s _ _

/-! ### The constant in every scope -/

/-- Text without formulas and percentages that is a constant without names is the same constant in
every scope that hides none of the functions that literals of the type are short for. Every scope
reads it; the value of what it reads is the constant in every scope that has no function of its own
in place of one of those, whatever the variables there are called. -/
theorem readTyped_literal {axis : Option Axis} {type : ValueType} {text : Fragment}
    (h : IsPlain text.chars) {c : Value α}
    (hc : readTyped ⟨.empty, axis⟩ type text = .ok (.constant c)) (s : Scope α) :
    ((∀ b ∈ type.shorthands, s.shadows b.name = false) →
      readTyped ⟨s, axis⟩ type text = .ok (.constant c)) ∧
    ∃ e, readTyped ⟨s, axis⟩ type text = .ok e ∧
      ∀ s' : Scope α, (∀ b ∈ type.shorthands, s'.function? b.name = none) →
        e.evaluate s' = .ok c := by
  have hstands : (Expression.constant c).StandsFor type c := by
    obtain ⟨ast, hsettle, -⟩ := exists_settle_of_readTyped hc
    rcases settle_cases hsettle with ⟨v, w, hw, hwc⟩ | ⟨-, hwc⟩
    · cases hwc
      exact ⟨c, Expression.evaluate_toAst_constant c, Value.coerce_coerce v hw⟩
    · cases hwc
  obtain ⟨e, he, hrestates⟩ := exists_restates_of_readTyped type h hc hstands
  refine ⟨fun hshown => ?_, e, he, fun s' hs' => ?_⟩
  · rw [he, hrestates.eq_of_shown hshown]
  · exact hrestates.evaluate hs'

/-- A variable `size` does not change what a list of transforms is. -/
theorem readTyped_literal_transforms :
    let text := Fragment.ofString "none, none" 0
    let s : Scope Float := Scope.empty.bindValue "size" (.int 0)
    let c : Value Float := .list [.transform .identity, .transform .identity]
    IsPlain text.chars ∧
    readTyped ⟨.empty, none⟩ (.list .transform) text = .ok (.constant c) ∧
    readTyped ⟨s, none⟩ (.list .transform) text = .ok (.constant c) := by
  intro text s c
  have h : IsPlain text.chars := by
    constructor <;> decide
  -- nothing of the numbers is computed
  have hread : ∀ {β : Type} [Number β], readTyped ⟨.empty, none⟩ (.list .transform) text
      = .ok (.constant (.list [.transform (.identity : Transform β), .transform .identity])) := by
    intros
    cbv
  have hc : readTyped ⟨.empty, none⟩ (.list .transform) text = .ok (.constant c) := hread
  refine ⟨h, hc, (readTyped_literal h hc s).1 ?_⟩
  intro b hb
  fin_cases hb <;> rfl

/-! ### Scopes that hide a function -/

/-- A call of a function that the scope hides stays a call. -/
theorem Ast.literal?_fold_call {s : Scope α} {function : String} (h : s.shadows function = true)
    (arguments : List (Ast α)) (range : ByteRange) :
    ((call function arguments range).fold s).literal? = none := by
  rw [fold, foldWith]
  simp only [h, if_true]
  rfl

theorem Fragment.literal?_tuple {s : Scope α} {b : Builtin} (h : s.shadows b.name = true)
    {text : Fragment} {axes : List (Option Axis)} {ast : Ast α}
    (hast : text.tuple s b axes = .ok ast) : ast.literal? = none := by
  unfold tuple at hast
  simp only at hast
  split at hast
  · obtain ⟨arguments, -, hast⟩ := FormulaParser.exists_of_bind_eq_ok hast
    cases hast
    exact Ast.literal?_fold_call h arguments _
  · cases hast

theorem Fragment.settle_of_literal?_eq_none {text : Fragment} {type : ValueType} {ast : Ast α}
    (h : ast.literal? = none) : text.settle type ast = .ok (.formula ⟨ast, type⟩) := by
  rw [settle, h]

theorem readTyped_size {text : Fragment} (h : IsPlain text.chars) (context : LiteralContext α) :
    readTyped context .size text = text.plain context .size >>= text.settle .size :=
  Fragment.settleBraced_of_isPlain h context.scope .size (text.plain context .size)

/-- Two numbers are a size where nothing is called `size`. -/
theorem readTyped_size_shown {text : Fragment} (h : IsPlain text.chars) {first second : Fragment}
    (hpieces : text.pieces = [first, second]) {width height : α}
    (hwidth : readNumber? first.chars = some width)
    (hheight : readNumber? second.chars = some height) {s : Scope α}
    (hs : s.shadows "size" = false) (axis : Option Axis) :
    readTyped ⟨s, axis⟩ .size text = .ok (.constant (.size ⟨width, height⟩)) := by
  have hitems := Fragment.isPlain_of_mem_pieces h
  rw [hpieces] at hitems
  have hfirst := Fragment.numberItem_of_isPlain (hitems first (by simp)) s (some .x)
  have hsecond := Fragment.numberItem_of_isPlain (hitems second (by simp)) s (some .y)
  rw [Fragment.plainNumber, hwidth] at hfirst
  rw [Fragment.plainNumber, hheight] at hsecond
  have hnumbers : numberItems s [some .x, some .y] [first, second]
      = .ok [.literal (.scalar width) first.range, .literal (.scalar height) second.range] := by
    rw [numberItems, List.zip_cons_cons, List.zip_cons_cons]
    simp only [List.zip_nil_right, List.mapM_cons, List.mapM_nil, hfirst, hsecond]
    rfl
  have hfold : (Ast.call "size" [.literal (.scalar width) first.range,
        .literal (.scalar height) second.range] text.range).fold s
      = .literal (.size ⟨width, height⟩) text.range := by
    rw [Ast.fold, Ast.foldWith]
    simp only [hs]
    rfl
  have htuple : text.plain ⟨s, axis⟩ .size = .ok (.literal (.size ⟨width, height⟩) text.range) := by
    rw [← hfold]
    unfold Fragment.plain Fragment.tuple
    simp only [hpieces, hnumbers]
    rfl
  rw [readTyped_size h, htuple]
  rfl

/-- Two numbers are a formula where something is called `size`. -/
theorem readTyped_size_hidden {text : Fragment} (h : IsPlain text.chars) {s : Scope α}
    (hs : s.shadows "size" = true) (axis : Option Axis) (c : Value α) :
    readTyped ⟨s, axis⟩ .size text ≠ .ok (.constant c) := by
  intro hc
  rw [readTyped_size h] at hc
  obtain ⟨ast, hast, hc⟩ := FormulaParser.exists_of_bind_eq_ok hc
  have hnone : ast.literal? = none := Fragment.literal?_tuple hs hast
  rw [Fragment.settle_of_literal?_eq_none hnone] at hc
  cases hc

/-- The size `100 50` is a constant without names, whatever numbers its digits stand for, but not
where a variable is called `size`. -/
theorem readTyped_size_variable :
    let text := Fragment.ofString "100 50" 0
    let s : Scope Float := Scope.empty.bindValue "size" (.int 0)
    (∀ width height : Float, readNumber? "100".toList = some width →
      readNumber? "50".toList = some height →
      readTyped ⟨.empty, none⟩ .size text = .ok (.constant (.size ⟨width, height⟩))) ∧
    ∀ c, readTyped ⟨s, none⟩ .size text ≠ .ok (.constant c) := by
  intro text s
  have hplain : IsPlain text.chars := by
    constructor <;> decide
  have hpieces : text.pieces = [⟨0, "100".toList⟩, ⟨4, "50".toList⟩] := by cbv
  refine ⟨fun width height hwidth hheight => ?_, readTyped_size_hidden hplain rfl none⟩
  exact readTyped_size_shown hplain hpieces hwidth hheight rfl none

end PatternMarkup
