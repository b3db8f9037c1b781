import PatternMarkup.Formula.Literal
import PatternMarkup.Proofs.Formula.Folding
import PatternMarkup.Proofs.Formula.GrammarReading
import PatternMarkup.Proofs.Formula.NamesRead
/-!
What literals are read as. Text without formulas and percentages is read as a tree of numbers,
lists and calls of the functions that literals are short for; the scope decides only how far such a
tree is folded, and its value is the same wherever no function takes the place of one of those.
-/

namespace PatternMarkup

variable {α : Type}

/-- The functions that literals of the type are short for. -/
def ValueType.shorthands : ValueType → List Builtin
  | transform => [.translate, .scale, .rotate, .skewX, .skewY, .matrix]
  | rect => [.rect]
  | size => [.size]
  | point => [.point]
  | margins => [.margins]
  | list item => item.shorthands
  | _ => []

/-- Such a function takes the values of all its arguments. -/
theorem ValueType.choose_notMem_shorthands (type : ValueType) :
    Builtin.choose ∉ type.shorthands := by
  induction type using ValueType.shorthands.induct with
  | case6 item ih => exact ih
  | _ => simp [shorthands]

theorem Builtin.ofName?_name (b : Builtin) : ofName? b.name = some b := by
  cases b <;> rfl

namespace Ast

/-! ### Trees of literals -/

mutual

/-- The tree is made of literals, lists, operators and calls of some functions. -/
def OfLiterals (bs : List Builtin) : Ast α → Prop
  | literal _ _ => True
  | list items _ => AllOfLiterals bs items
  | binary _ left right _ => left.OfLiterals bs ∧ right.OfLiterals bs
  | call function arguments _ => (∃ b ∈ bs, b.name = function) ∧ AllOfLiterals bs arguments
  | _ => False

/-- The same for several trees. -/
def AllOfLiterals (bs : List Builtin) : List (Ast α) → Prop
  | [] => True
  | ast :: rest => ast.OfLiterals bs ∧ AllOfLiterals bs rest

end

variable {bs : List Builtin}

theorem ofLiterals_literalOr {result : Except EvalError (Value α)} {otherwise : Ast α}
    (h : otherwise.OfLiterals bs) : (literalOr result otherwise).OfLiterals bs := by
  cases result with
  | ok v => trivial
  | error e => exact h

theorem ofLiterals_foldOnLiterals {operands : List (Ast α)} {otherwise : Ast α}
    {operation : List (Value α) → Except EvalError (Value α)} (h : otherwise.OfLiterals bs) :
    (foldOnLiterals operands operation otherwise).OfLiterals bs := by
  unfold foldOnLiterals
  split
  · exact ofLiterals_literalOr h
  · exact h

theorem AllOfLiterals.of_mem {asts : List (Ast α)} (h : AllOfLiterals bs asts) {ast : Ast α}
    (hmem : ast ∈ asts) : ast.OfLiterals bs := by
  induction asts with
  | nil => cases hmem
  | cons first rest ih =>
      rcases List.mem_cons.mp hmem with rfl | hmem
      · exact h.1
      · exact ih h.2 hmem

theorem OfLiterals.of_mem_children {child ast : Ast α} (h : ast.OfLiterals bs)
    (hchild : child ∈ ast.children) : child.OfLiterals bs := by
  cases ast with
  | literal value range => cases hchild
  | list items range => exact AllOfLiterals.of_mem h hchild
  | binary op left right range =>
      rcases List.mem_pair.mp hchild with rfl | rfl
      · exact h.1
      · exact h.2
  | call function arguments range => exact h.2.of_mem hchild
  | _ => exact h.elim

theorem OfLiterals.of_mem_subterms {t ast : Ast α} (h : ast.OfLiterals bs)
    (ht : t ∈ ast.subterms) : t.OfLiterals bs :=
  holds_of_mem_subterms (fun _ hast _ => hast.of_mem_children) ast h ht

/-- Such a tree reads no names, and the functions it may call. -/
theorem OfLiterals.readsSame {ast : Ast α} (h : ast.OfLiterals bs) {env env' : Environment α}
    (hfunctions : ∀ b ∈ bs, env.function? b.name = env'.function? b.name) :
    ast.ReadsSame env env' where
  read n hn := by
    obtain ⟨range, hmem⟩ := mem_freeNames.mp hn
    exact (h.of_mem_subterms hmem).elim
  function? f hf := by
    obtain ⟨arguments, range, hmem⟩ := hf
    obtain ⟨⟨b, hb, rfl⟩, -⟩ := h.of_mem_subterms hmem
    exact hfunctions b hb

variable [Number α]

mutual

/-- Folding asks only whether the functions are hidden that the tree may call. -/
theorem foldWith_congr {hidden hidden' : String → Bool}
    (h : ∀ b ∈ bs, hidden b.name = hidden' b.name) :
    (ast : Ast α) → ast.OfLiterals bs → ast.foldWith hidden = ast.foldWith hidden'
  | literal value range, _ => by rw [foldWith, foldWith]
  | list items range, hast => by rw [foldWith, foldWith, foldAll_congr h items hast]
  | binary op left right range, hast => by
      rw [foldWith, foldWith, foldWith_congr h left hast.1, foldWith_congr h right hast.2]
  | call function arguments range, ⟨⟨b, hb, hname⟩, harguments⟩ => by
      rw [foldWith, foldWith, foldAll_congr h arguments harguments, ← hname, h b hb]
  | name _ _, hast => hast.elim
  | unary _ _ _, hast => hast.elim
  | conditional _ _ _ _, hast => hast.elim
  | member _ _ _, hast => hast.elim
  | index _ _ _, hast => hast.elim
  | interpolation _ _, hast => hast.elim

theorem foldAll_congr {hidden hidden' : String → Bool}
    (h : ∀ b ∈ bs, hidden b.name = hidden' b.name) :
    (asts : List (Ast α)) → AllOfLiterals bs asts → foldAll hidden asts = foldAll hidden' asts
  | [], _ => rfl
  | ast :: rest, hasts => by
      rw [foldAll, foldAll, foldWith_congr h ast hasts.1, foldAll_congr h rest hasts.2]

end

theorem exists_of_evaluateAll_cons {env : Environment α} {first : Ast α} {rest : List (Ast α)}
    {values : List (Value α)} (h : evaluateAll env (first :: rest) = .ok values) :
    ∃ v vs, first.evaluateWith env = .ok v ∧ evaluateAll env rest = .ok vs ∧
      values = v :: vs := by
  rw [evaluateAll] at h
  obtain ⟨v, hv, h⟩ := FormulaParser.exists_of_bind_eq_ok h
  obtain ⟨vs, hvs, h⟩ := FormulaParser.exists_of_bind_eq_ok h
  exact ⟨v, vs, hv, hvs, (Except.ok.inj h).symm⟩

mutual

theorem ofLiterals_foldWith (hidden : String → Bool) :
    (ast : Ast α) → ast.OfLiterals bs → (ast.foldWith hidden).OfLiterals bs
  | literal value range, _ => by
      rw [foldWith]
      trivial
  | list items range, hast => by
      rw [foldWith]
      exact ofLiterals_foldOnLiterals (allOfLiterals_foldAll hidden items hast)
  | binary op left right range, hast => by
      have hparts :
          (binary op (left.foldWith hidden) (right.foldWith hidden) range).OfLiterals bs :=
        ⟨ofLiterals_foldWith hidden left hast.1, ofLiterals_foldWith hidden right hast.2⟩
      rw [foldWith]
      split
      · exact ofLiterals_literalOr hparts
      · exact hparts
  | call function arguments range, hast => by
      have hparts : (call function (foldAll hidden arguments) range).OfLiterals bs :=
        ⟨hast.1, allOfLiterals_foldAll hidden arguments hast.2⟩
      rw [foldWith]
      split
      · exact hparts
      · exact ofLiterals_foldOnLiterals hparts
  | name _ _, hast => hast.elim
  | unary _ _ _, hast => hast.elim
  | conditional _ _ _ _, hast => hast.elim
  | member _ _ _, hast => hast.elim
  | index _ _ _, hast => hast.elim
  | interpolation _ _, hast => hast.elim

theorem allOfLiterals_foldAll (hidden : String → Bool) :
    (asts : List (Ast α)) → AllOfLiterals bs asts → AllOfLiterals bs (foldAll hidden asts)
  | [], _ => trivial
  | ast :: rest, hasts =>
      ⟨ofLiterals_foldWith hidden ast hasts.1, allOfLiterals_foldAll hidden rest hasts.2⟩

end

end Ast

/-! ### The scope without names -/

variable [Number α]

omit [Number α] in
theorem Scope.shadows_empty (name : String) : (empty : Scope α).shadows name = false := rfl

/-- The scope without names gives every name the meaning every formula knows. -/
theorem Scope.empty_knows (hidden : String → Bool) :
    (empty : Scope α).environment.Knows hidden where
  function?_eq_none n _ := empty.environment_knows_shadows.function?_eq_none n (shadows_empty n)
  read_constant n _ := empty.environment_knows_shadows.read_constant n (shadows_empty n)

/-- Folding in any scope keeps the value that the tree has without names. -/
theorem Ast.evaluate_empty_fold (s : Scope α) (ast : Ast α) :
    (ast.fold s).evaluate .empty = ast.evaluate .empty :=
  evaluateWith_foldWith (Scope.empty_knows s.shadows) ast

/-! ### Plain text -/

/-- The text holds neither a formula nor a percentage. -/
def IsPlain (text : List Char) : Prop := '{' ∉ text ∧ '%' ∉ text

theorem IsPlain.subset {text part : List Char} (h : IsPlain text) (hpart : part ⊆ text) :
    IsPlain part :=
  ⟨fun hmem => h.1 (hpart hmem), fun hmem => h.2 (hpart hmem)⟩

theorem trim_subset (text : List Char) : trim text ⊆ text := by
  intro c hc
  rw [trim, trimEnd, List.mem_reverse] at hc
  have hstart := (List.dropWhile_suffix isBlank).subset hc
  rw [List.mem_reverse, trimStart] at hstart
  exact (List.dropWhile_suffix isBlank).subset hstart

theorem Fragment.braced?_of_isPlain {text : Fragment} (h : IsPlain text.chars) :
    text.braced? = none := by
  unfold braced?
  simp only
  split
  · rename_i rest heq
    have hmem : '{' ∈ trim text.chars := heq ▸ List.mem_cons_self
    exact absurd (trim_subset _ hmem) h.1
  · rfl

theorem readPercent?_of_isPlain {text : List Char} (h : IsPlain text) :
    (readPercent? text : Option (Option α)) = none := by
  unfold readPercent?
  split
  · rename_i front heq
    have hmem : '%' ∈ text.reverse := heq ▸ List.mem_cons_self
    exact absurd (List.mem_reverse.mp hmem) h.2
  · rfl

theorem mem_of_mem_pieceOf {start : Nat} {item : List Char} {piece : Fragment}
    (h : piece ∈ pieceOf start item) : ∀ c ∈ piece.chars, c ∈ item := by
  intro c hc
  unfold pieceOf at h
  split at h
  · cases h
  · rw [List.mem_singleton.mp h] at hc
    exact List.mem_reverse.mp hc

/-- The items of a text are made of its characters. -/
theorem mem_of_mem_piecesFrom {start offset : Nat} {item : List Char} {comma : Bool}
    {text : List Char} (h : '{' ∉ text) {piece : Fragment}
    (hpiece : piece ∈ piecesFrom start item comma offset text) :
    ∀ c ∈ piece.chars, c ∈ item ∨ c ∈ text := by
  fun_induction piecesFrom start item comma offset text with
  | case1 => exact fun c hc => .inl (mem_of_mem_pieceOf hpiece c hc)
  | case2 => exact absurd List.mem_cons_self h
  | case3 => exact absurd List.mem_cons_self h
  | case4 start item comma offset rest empty _ ih =>
      intro c hc
      rcases List.mem_append.mp hpiece with hpiece | hpiece
      · rcases List.mem_append.mp hpiece with hpiece | hpiece
        · have hempty : piece = ⟨offset, []⟩ := by
            simp only [empty] at hpiece
            split at hpiece
            · exact List.mem_singleton.mp hpiece
            · cases hpiece
          rw [hempty] at hc
          cases hc
        · exact .inl (mem_of_mem_pieceOf hpiece c hc)
      · rcases ih (List.not_mem_of_not_mem_cons h) hpiece c hc with hc | hc
        · cases hc
        · exact .inr (List.mem_cons_of_mem _ hc)
  | case5 start item comma offset d rest _ _ _ ih =>
      intro c hc
      rcases List.mem_append.mp hpiece with hpiece | hpiece
      · exact .inl (mem_of_mem_pieceOf hpiece c hc)
      · rcases ih (List.not_mem_of_not_mem_cons h) hpiece c hc with hc | hc
        · cases hc
        · exact .inr (List.mem_cons_of_mem d hc)
  | case6 start item comma offset d rest _ _ _ ih =>
      intro c hc
      rcases ih (List.not_mem_of_not_mem_cons h) hpiece c hc with hc | hc
      · rcases List.mem_cons.mp hc with rfl | hc
        · exact .inr List.mem_cons_self
        · exact .inl hc
      · exact .inr (List.mem_cons_of_mem d hc)

theorem Fragment.isPlain_of_mem_pieces {text : Fragment} (h : IsPlain text.chars) :
    ∀ piece ∈ text.pieces, IsPlain piece.chars := by
  intro piece hpiece
  refine h.subset fun c hc => ?_
  rcases mem_of_mem_piecesFrom h.1 hpiece c hc with hc | hc
  · cases hc
  · exact hc

/-! ### Values that are taken as they are -/

omit [Number α] in
theorem Value.eq_of_fit {type : ValueType} {v c : Value α} (h : v.fit type = .ok c) : v = c := by
  rw [fit] at h
  split at h
  · exact Except.ok.inj h
  · cases h

/-- A type for which no value is converted takes every value as it is. -/
theorem Value.eq_of_coerce {type : ValueType} {v c : Value α}
    (hfit : v.coerce type = v.fit type) (h : v.coerce type = .ok c) : v = c :=
  eq_of_fit (hfit.symm.trans h)

theorem Builtin.exists_margins_of_call {values : List (Value α)} {v : Value α}
    (h : margins.call values = .ok v) : ∃ m, v = .margins m := by
  rw [call] at h
  split at h
  · obtain ⟨xs, -, h⟩ := FormulaParser.exists_of_bind_eq_ok h
    rw [ofNumbers] at h
    split at h
    · exact ⟨_, (Except.ok.inj h).symm⟩
    · cases h
  · cases h

/-- The tree is a literal, or the type takes its value as it is. -/
def Ast.IsTakenBy (type : ValueType) (ast : Ast α) : Prop :=
  ast.isLiteral = true ∨
    ∀ v c, ast.evaluate .empty = .ok v → v.coerce type = .ok c → v = c

/-- What is no literal after folding was none before. -/
theorem Ast.IsTakenBy.eq_of_fold {type : ValueType} {ast : Ast α} (h : ast.IsTakenBy type)
    {s : Scope α} (hnone : (ast.fold s).literal? = none) {v c : Value α}
    (hv : ast.evaluate .empty = .ok v) (hc : v.coerce type = .ok c) : v = c := by
  rcases h with hliteral | h
  · cases ast with
    | literal value range => cases hnone
    | _ => cases hliteral
  · exact h v c hv hc

theorem Ast.isTakenBy_call {type : ValueType} {b : Builtin} (hb : b ≠ .choose)
    (h : ∀ (values : List (Value α)) v c, b.call values = .ok v → v.coerce type = .ok c → v = c)
    (arguments : List (Ast α)) (range : ByteRange) :
    (call b.name arguments range).IsTakenBy type := by
  refine .inr fun v c hv hc => ?_
  rw [evaluate, evaluateWith, Builtin.ofName?_name] at hv
  obtain ⟨values, hvalues⟩ : ∃ values, b.call values = .ok v := by
    cases b with
    | choose => exact absurd rfl hb
    | _ =>
        obtain ⟨values, -, hvalues⟩ := FormulaParser.exists_of_bind_eq_ok hv
        exact ⟨values, hvalues⟩
  exact h values v c hvalues hc

/-! ### Trees that are read -/

/-- Reading gives an error whatever the scope is, or a tree of literals and calls of the functions
that literals of the type are short for, folded in the scope. -/
inductive ReadsLiterals (type : ValueType) (read : Scope α → Except FormatError (Ast α)) : Prop
  | refuses (e : FormatError) (h : ∀ s, read s = .error e)
  | folds (ast : Ast α) (hast : ast.OfLiterals type.shorthands) (htaken : ast.IsTakenBy type)
      (h : ∀ s, read s = .ok (ast.fold s))

theorem ReadsLiterals.of_literal {type : ValueType}
    {read : Scope α → Except FormatError (Ast α)} (value : Value α) (range : ByteRange)
    (h : ∀ s, read s = .ok (.literal value range)) : ReadsLiterals type read :=
  .folds (.literal value range) trivial (.inl rfl) h

variable {bs : List Builtin} {type : ValueType}

/-- Text without formulas as a number. -/
def Fragment.plainNumber (text : Fragment) : Except FormatError (Ast α) :=
  match readNumber? text.chars with
  | some x => .ok (.literal (.scalar x) text.range)
  | none => .error (text.refuse "number")

theorem Fragment.numberItem_of_isPlain {text : Fragment} (h : IsPlain text.chars) (s : Scope α)
    (axis : Option Axis) : text.numberItem s axis = text.plainNumber := by
  unfold numberItem
  simp only [braced?_of_isPlain h, readPercent?_of_isPlain h]
  rfl

theorem Fragment.exists_of_plainNumber {text : Fragment} {ast : Ast α}
    (h : text.plainNumber = .ok ast) : ∃ x, ast = .literal (.scalar x) text.range := by
  unfold plainNumber at h
  split at h
  · exact ⟨_, (Except.ok.inj h).symm⟩
  · cases h

theorem Fragment.ofLiterals_plainNumber {text : Fragment} {ast : Ast α}
    (h : text.plainNumber = .ok ast) : ast.OfLiterals bs := by
  obtain ⟨x, rfl⟩ := exists_of_plainNumber h
  trivial

theorem exists_of_mapM_cons {β γ : Type} {item : β} {rest : List β} {ys : List γ}
    {read : β → Except FormatError γ} (h : (item :: rest).mapM read = .ok ys) :
    ∃ y more, read item = .ok y ∧ rest.mapM read = .ok more ∧ ys = y :: more := by
  rw [List.mapM_cons] at h
  obtain ⟨y, hy, h⟩ := FormulaParser.exists_of_bind_eq_ok h
  obtain ⟨more, hmore, h⟩ := FormulaParser.exists_of_bind_eq_ok h
  exact ⟨y, more, hy, hmore, (Except.ok.inj h).symm⟩

omit [Number α] in
theorem allOfLiterals_of_mapM {β : Type} {items : List β} {read : β → Except FormatError (Ast α)}
    (hread : ∀ item ∈ items, ∀ ast, read item = .ok ast → ast.OfLiterals bs) {asts : List (Ast α)}
    (h : items.mapM read = .ok asts) : Ast.AllOfLiterals bs asts := by
  induction items generalizing asts with
  | nil =>
      cases h
      trivial
  | cons item rest ih =>
      obtain ⟨ast, more, hast, hmore, rfl⟩ := exists_of_mapM_cons h
      exact ⟨hread item List.mem_cons_self ast hast,
        ih (fun i hi => hread i (List.mem_cons_of_mem item hi)) hmore⟩

theorem mapM_congr {β γ : Type} {items : List β} {read read' : β → Except FormatError γ}
    (h : ∀ item ∈ items, read item = read' item) : items.mapM read = items.mapM read' := by
  induction items with
  | nil => rfl
  | cons item rest ih =>
      rw [List.mapM_cons, List.mapM_cons, h item List.mem_cons_self,
        ih fun i hi => h i (List.mem_cons_of_mem item hi)]

/-- Numbers without formulas are the same in every scope. -/
theorem numberItems_of_isPlain (axes : List (Option Axis)) {items : List Fragment}
    (h : ∀ item ∈ items, IsPlain item.chars) :
    ∃ result : Except FormatError (List (Ast α)),
      (∀ s, numberItems s axes items = result) ∧ ∀ bs asts, result = .ok asts →
        Ast.AllOfLiterals bs asts := by
  refine ⟨(items.zip axes).mapM fun item => item.1.plainNumber, fun s => ?_, ?_⟩
  · refine mapM_congr fun item hitem => ?_
    exact Fragment.numberItem_of_isPlain (h item.1 (List.of_mem_zip hitem).1) s item.2
  · intro bs asts hasts
    exact allOfLiterals_of_mapM (fun _ _ _ => Fragment.ofLiterals_plainNumber) hasts

/-- A call of one of the functions that literals are short for. -/
theorem readsLiterals_call {b : Builtin} (hb : b ∈ type.shorthands)
    (htaken : ∀ (values : List (Value α)) v c, b.call values = .ok v → v.coerce type = .ok c →
      v = c) {range : ByteRange} {axes : List (Option Axis)} {items : List Fragment}
    (h : ∀ item ∈ items, IsPlain item.chars) :
    ReadsLiterals type fun s : Scope α => do
      let arguments ← numberItems s axes items
      return (Ast.call b.name arguments range).fold s := by
  obtain ⟨result, hresult, hliterals⟩ := numberItems_of_isPlain (α := α) axes h
  cases result with
  | error e =>
      refine .refuses e fun s => ?_
      rw [hresult s]
      rfl
  | ok arguments =>
      have hchoose : b ≠ .choose := fun hb' => type.choose_notMem_shorthands (hb' ▸ hb)
      refine .folds (.call b.name arguments range)
        ⟨⟨b, hb, rfl⟩, hliterals type.shorthands arguments rfl⟩
        (Ast.isTakenBy_call hchoose htaken arguments range) fun s => ?_
      rw [hresult s]
      rfl

theorem Fragment.readsLiterals_tuple {text : Fragment} (h : IsPlain text.chars) {b : Builtin}
    (hb : b ∈ type.shorthands) (hfit : ∀ v : Value α, v.coerce type = v.fit type)
    (axes : List (Option Axis)) : ReadsLiterals type fun s : Scope α => text.tuple s b axes := by
  unfold tuple
  simp only
  split
  · exact readsLiterals_call hb (fun _ v _ _ hc => Value.eq_of_coerce (hfit v) hc)
      (isPlain_of_mem_pieces h)
  · exact .refuses _ fun _ => rfl

theorem mem_of_sidesOf {items sides : List Fragment} (h : sidesOf items = some sides)
    {side : Fragment} (hside : side ∈ sides) : side ∈ items := by
  unfold sidesOf at h
  split at h
  · obtain rfl := Option.some.inj h
    simpa using hside
  · obtain rfl := Option.some.inj h
    simp only [List.mem_cons, List.not_mem_nil, or_false] at hside ⊢
    tauto
  · obtain rfl := Option.some.inj h
    exact hside
  · cases h

theorem Fragment.readsLiterals_marginsItem {text : Fragment} (h : IsPlain text.chars) :
    ReadsLiterals .margins fun s : Scope α => text.marginsItem s := by
  have hitems := isPlain_of_mem_pieces h
  unfold marginsItem
  simp only
  cases hsides : sidesOf text.pieces with
  | none => exact .refuses _ fun _ => rfl
  | some sides =>
      refine readsLiterals_call (by decide) ?_ fun side hside => ?_
      · intro values v c hv hc
        obtain ⟨m, rfl⟩ := Builtin.exists_margins_of_call hv
        exact Value.eq_of_coerce rfl hc
      · exact hitems side (mem_of_sidesOf hsides hside)

omit [Number α] in
theorem mem_shorthands_of_transformFunction? {name : String} {b : Builtin}
    {axes : List (Option Axis)} (h : transformFunction? name = some (b, axes)) :
    b ∈ ValueType.transform.shorthands := by
  unfold transformFunction? at h
  split at h
  all_goals first
    | (obtain ⟨rfl, -⟩ := Prod.mk.inj (Option.some.inj h); decide)
    | cases h

theorem transformCall_congr (s s' : Scope α) (b : Builtin) (axes : List (Option Axis))
    (name : Fragment) {values : Fragment} (h : IsPlain values.chars) :
    transformCall s b axes name values = transformCall s' b axes name values := by
  obtain ⟨result, hresult, -⟩ :=
    numberItems_of_isPlain (α := α) axes (Fragment.isPlain_of_mem_pieces h)
  rw [transformCall, transformCall, hresult s, hresult s']

theorem ofLiterals_transformCall {s : Scope α} {b : Builtin} (hb : b ∈ bs)
    {axes : List (Option Axis)} {name values : Fragment} (h : IsPlain values.chars) {ast : Ast α}
    (hast : transformCall s b axes name values = .ok ast) : ast.OfLiterals bs := by
  obtain ⟨result, hresult, hliterals⟩ :=
    numberItems_of_isPlain (α := α) axes (Fragment.isPlain_of_mem_pieces h)
  unfold transformCall at hast
  simp only at hast
  split at hast
  · obtain ⟨arguments, harguments, hast⟩ := FormulaParser.exists_of_bind_eq_ok hast
    cases hast
    exact ⟨⟨b, hb, rfl⟩, hliterals bs arguments ((hresult s).symm.trans harguments)⟩
  · cases hast

/-- Where the text is cut at a call, its values and the text after it are parts of the text. -/
theorem IsPlain.of_call {text inside values after : List Char} (h : IsPlain text)
    (hopen : (text.dropWhile separatesCalls).dropWhile Char.isAlpha = '(' :: inside)
    (hclose : closeParen inside = some (values, after)) :
    IsPlain values ∧ IsPlain after ∧ after.length < text.length := by
  have hinside : inside ⊆ text := by
    intro c hc
    have hmem : c ∈ (text.dropWhile separatesCalls).dropWhile Char.isAlpha := by
      rw [hopen]
      exact List.mem_cons_of_mem _ hc
    exact (List.dropWhile_suffix _).subset ((List.dropWhile_suffix _).subset hmem)
  have hlength : inside.length < text.length := by
    have hbody := ((List.dropWhile_suffix Char.isAlpha).trans
      (List.dropWhile_suffix (l := text) separatesCalls)).length_le
    rw [hopen] at hbody
    exact hbody
  have hcut := h.subset hinside
  rw [eq_append_of_closeParen hclose] at hcut hlength
  refine ⟨hcut.subset (List.subset_append_left _ _), hcut.subset fun c hc => ?_, ?_⟩
  · exact List.mem_append_right _ (List.mem_cons_of_mem _ hc)
  · rw [List.length_append, List.length_cons] at hlength
    omega

/-- Calls of transforms without formulas are the same in every scope. The induction is on the
length of the text. -/
theorem transformCalls_congr (s s' : Scope α) {offset : Nat} {text : List Char}
    (h : IsPlain text) : transformCalls s offset text = transformCalls s' offset text := by
  rw [transformCalls, transformCalls]
  simp only
  split
  · rfl
  split
  · rfl
  split
  · rename_i inside hopen
    split
    · rfl
    · split
      · rfl
      · rename_i values after hclose
        obtain ⟨hvalues, hafter, hlength⟩ := h.of_call hopen hclose
        rw [transformCall_congr s s' _ _ _ hvalues, transformCalls_congr s s' hafter]
  · rfl
termination_by text.length

theorem allOfLiterals_transformCalls {s : Scope α} {offset : Nat} {text : List Char}
    (h : IsPlain text) {asts : List (Ast α)} (hasts : transformCalls s offset text = .ok asts) :
    Ast.AllOfLiterals ValueType.transform.shorthands asts := by
  fun_induction transformCalls s offset text generalizing asts with
  | case1 =>
      cases hasts
      trivial
  | case5 offset text front body begin hbody name hname inside hopen b axes hfunction values after
      hclose first =>
      rename_i ih
      obtain ⟨hvalues, hafter, -⟩ := h.of_call hopen hclose
      obtain ⟨call, hcall, hasts⟩ := FormulaParser.exists_of_bind_eq_ok hasts
      obtain ⟨more, hmore, hasts⟩ := FormulaParser.exists_of_bind_eq_ok hasts
      cases hasts
      have hb := mem_shorthands_of_transformFunction? hfunction
      exact ⟨ofLiterals_transformCall hb hvalues hcall, ih hafter hmore⟩
  | _ => cases hasts

omit [Number α] in
theorem Ast.ofLiterals_foldl_ofBinary (op : BinaryOp) {first : Ast α} {more : List (Ast α)}
    (hfirst : first.OfLiterals bs) (hmore : AllOfLiterals bs more) :
    (more.foldl (ofBinary op) first).OfLiterals bs := by
  induction more generalizing first with
  | nil => exact hfirst
  | cons ast rest ih => exact ih ⟨hfirst, hmore.1⟩ hmore.2

theorem Fragment.readsLiterals_transforms {text : Fragment} (h : IsPlain text.chars) :
    ReadsLiterals .transform fun s : Scope α => text.transforms s := by
  unfold transforms
  simp only
  split
  · exact .of_literal (.transform .identity) text.range fun _ => rfl
  · cases hcalls : transformCalls (Scope.empty : Scope α) text.offset text.chars with
    | error e =>
        refine .refuses e fun s => ?_
        rw [transformCalls_congr s .empty h, hcalls]
        rfl
    | ok calls =>
        cases calls with
        | nil =>
            refine .of_literal (.transform .identity) text.range fun s => ?_
            rw [transformCalls_congr s .empty h, hcalls]
            rfl
        | cons first more =>
            obtain ⟨hfirst, hmore⟩ := allOfLiterals_transformCalls h hcalls
            have hproduct := Ast.ofLiterals_foldl_ofBinary .multiply hfirst hmore
            have htaken : (more.foldl (Ast.ofBinary .multiply) first).IsTakenBy .transform :=
              .inr fun v _ _ hc => Value.eq_of_coerce (by cases v <;> rfl) hc
            refine .folds _ hproduct htaken fun s => ?_
            rw [transformCalls_congr s .empty h, hcalls]
            rfl

/-- What is read without the scope is a literal or an error. -/
theorem readsLiterals_of_isLiteral {result : Except FormatError (Ast α)}
    (h : ∀ ast, result = .ok ast → ast.isLiteral = true) :
    ReadsLiterals type fun _ : Scope α => result := by
  cases result with
  | error e => exact .refuses e fun _ => rfl
  | ok ast =>
      have hliteral := h ast rfl
      cases ast with
      | literal value range => exact .of_literal value range fun _ => rfl
      | _ => cases hliteral

/-- A text without formulas is one part of a template. -/
theorem isLiteral_of_templateParts {start offset : Nat} {literal text : List Char}
    (h : '{' ∉ text) {parts : List (Ast α)}
    (hparts : templateParts start literal offset text = .ok parts) (range : ByteRange) :
    (ofParts range parts).isLiteral = true := by
  fun_induction templateParts (α := α) start literal offset text with
  | case1 =>
      cases hparts
      unfold literalPart
      split <;> rfl
  | case2 => exact absurd List.mem_cons_self h
  | case3 start literal offset rest ih =>
      exact ih (List.not_mem_of_not_mem_cons (List.not_mem_of_not_mem_cons h)) hparts
  | case4 => cases hparts
  | case5 => exact absurd List.mem_cons_self h
  | case6 => exact absurd List.mem_cons_self h
  | case7 start literal offset c rest _ _ _ _ ih =>
      exact ih (List.not_mem_of_not_mem_cons h) hparts

theorem Fragment.readsLiterals_template {text : Fragment} (h : IsPlain text.chars) :
    ReadsLiterals type fun s : Scope α => text.template s := by
  unfold template
  cases hparts : (templateParts text.offset [] text.offset text.chars :
      Except FormatError (List (Ast α))) with
  | error e => exact .refuses e fun _ => rfl
  | ok parts =>
      have hliteral := isLiteral_of_templateParts h.1 hparts text.range
      cases hast : ofParts text.range parts <;> rw [hast] at hliteral <;> cases hliteral
      rename_i value range
      refine .of_literal value range fun s => ?_
      have hfold : (ofParts text.range parts).fold s = .literal value range := by
        rw [hast]
        rfl
      exact congrArg Except.ok hfold

omit [Number α] in
theorem Fragment.isLiteral_literalOf {text : Fragment} {type : ValueType} {value : Option (Value α)}
    {ast : Ast α} (h : text.literalOf type value = .ok ast) : ast.isLiteral = true := by
  unfold literalOf at h
  split at h
  · cases h
    rfl
  · cases h

/-- Text that is neither a formula nor a list is read as a tree of literals. -/
theorem Fragment.readsLiterals_plain {text : Fragment} (h : IsPlain text.chars)
    (axis : Option Axis) (type : ValueType) :
    ReadsLiterals type fun s : Scope α => text.plain ⟨s, axis⟩ type := by
  have hword : IsPlain text.trimmed.chars := h.subset (trim_subset _)
  unfold plain
  simp only
  cases type with
  | scalar =>
      simp only [numberItem_of_isPlain hword]
      refine readsLiterals_of_isLiteral fun ast hast => ?_
      obtain ⟨x, rfl⟩ := exists_of_plainNumber hast
      rfl
  | int => exact readsLiterals_of_isLiteral fun ast hast => isLiteral_literalOf hast
  | bool => exact readsLiterals_of_isLiteral fun ast hast => isLiteral_literalOf hast
  | color => exact readsLiterals_of_isLiteral fun ast hast => isLiteral_literalOf hast
  | transform => exact readsLiterals_transforms h
  | rect => exact readsLiterals_tuple h (by decide) (fun v => by cases v <;> rfl) _
  | size => exact readsLiterals_tuple h (by decide) (fun v => by cases v <;> rfl) _
  | point => exact readsLiterals_tuple h (by decide) (fun v => by cases v <;> rfl) _
  | margins => exact readsLiterals_marginsItem h
  | enum members =>
      by_cases hmember : members.contains text.trimmed.text = true
      · simp only [if_pos hmember]
        exact .of_literal (.string text.trimmed.text) text.trimmed.range fun _ => rfl
      · simp only [if_neg hmember]
        exact .refuses _ fun _ => rfl
  | any =>
      cases hvalue : (plainValue? text.trimmed.chars : Option (Value α)) with
      | none => exact readsLiterals_template h
      | some v => exact .of_literal v text.trimmed.range fun _ => rfl
  | _ => exact .refuses _ fun _ => rfl

end PatternMarkup
