import PatternMarkup.Proofs.Formula.Delivery
import PatternMarkup.Proofs.Formula.FoldedForm
import PatternMarkup.Proofs.Formula.LiteralRanges
import PatternMarkup.Proofs.Formula.ReadingElsewhere
/-!
Lists of constants. What is read of any text is folded, so a list that is read as a constant has
items that are constants, and each of them is read as the same constant in a text of its own.
-/

namespace PatternMarkup

variable {α : Type} [Number α]

/-! ### What is read is folded -/

/-- Folding the formula in a scope changes nothing. -/
def Ast.IsFolded (s : Scope α) (ast : Ast α) : Prop := ast.fold s = ast

theorem Ast.isFolded_fold (s : Scope α) (ast : Ast α) : (ast.fold s).IsFolded s :=
  foldWith_foldWith ast

theorem Ast.isFolded_literal (s : Scope α) (v : Value α) (range : ByteRange) :
    (literal v range).IsFolded s := by
  rw [IsFolded, fold, foldWith]

/-- If there is a result, it is folded. -/
abbrev AnswersFolded (s : Scope α) (result : Except FormatError (Ast α)) : Prop :=
  AnswersIn (fun _ => True) (Ast.IsFolded s) result

variable {s : Scope α} {text : Fragment}

theorem answersFolded_readFolded : AnswersFolded s (Ast.readFolded s text) := by
  have hread : AnswersIn (fun _ => True) (fun _ => True) (Ast.read (α := α) text) := by
    cases Ast.read (α := α) text <;> trivial
  exact hread.map fun ast _ => ast.isFolded_fold s

theorem answersFolded_fractionOf (axis : Axis) (fraction : α) (range : ByteRange) :
    AnswersFolded s (fractionOf s axis fraction range) := by
  unfold fractionOf
  split
  · next hcontains =>
      have hhidden : s.shadows axis.extentName = true := by
        rw [Scope.shadows, hcontains, Bool.true_or]
      have hname : (Ast.name axis.extentName range : Ast α).foldWith s.shadows =
          .name axis.extentName range := by
        rw [Ast.foldWith, hhidden]
        rfl
      rw [AnswersFolded, AnswersIn, Ast.IsFolded, Ast.ofBinary, Ast.fold, Ast.foldWith, hname]
      rfl
  · trivial

theorem answersFolded_numberItem (axis : Option Axis) :
    AnswersFolded s (text.numberItem s axis) := by
  unfold Fragment.numberItem
  split
  · exact answersFolded_readFolded
  · split
    · trivial
    · exact Ast.isFolded_literal s _ _
    · exact answersFolded_fractionOf ..
    · split
      · exact Ast.isFolded_literal s _ _
      · trivial

/-- A formula that is folded at the end of reading. -/
theorem answersFolded_of_fold {β : Type} {result : Except FormatError β} (ast : β → Ast α) :
    AnswersFolded s (do
      let x ← result
      return (ast x).fold s) := by
  cases result with
  | ok x => exact (ast x).isFolded_fold s
  | error e => trivial

theorem answersFolded_tuple (b : Builtin) (axes : List (Option Axis)) :
    AnswersFolded s (text.tuple s b axes) := by
  unfold Fragment.tuple
  simp only
  split
  · exact answersFolded_of_fold _
  · trivial

theorem answersFolded_marginsItem : AnswersFolded s (text.marginsItem s) := by
  unfold Fragment.marginsItem
  simp only
  split
  · exact answersFolded_of_fold _
  · trivial

theorem answersFolded_transforms : AnswersFolded s (text.transforms s) := by
  unfold Fragment.transforms
  simp only
  split
  · exact Ast.isFolded_literal s _ _
  · cases transformCalls s text.offset text.chars with
    | error e => trivial
    | ok calls =>
        cases calls with
        | nil => exact Ast.isFolded_literal s _ _
        | cons first more => exact Ast.isFolded_fold s _

theorem answersFolded_template : AnswersFolded s (text.template s) := answersFolded_of_fold _

theorem answersFolded_literalOf (type : ValueType) (value : Option (Value α)) :
    AnswersFolded s (text.literalOf type value) := by
  cases value with
  | some v => exact Ast.isFolded_literal s v _
  | none => trivial

theorem answersFolded_plain (context : LiteralContext α) (type : ValueType) :
    AnswersFolded context.scope (text.plain context type) := by
  cases type with
  | scalar => exact answersFolded_numberItem _
  | int => exact answersFolded_literalOf ..
  | bool => exact answersFolded_literalOf ..
  | color => exact answersFolded_literalOf ..
  | transform => exact answersFolded_transforms
  | rect => exact answersFolded_tuple ..
  | size => exact answersFolded_tuple ..
  | point => exact answersFolded_tuple ..
  | margins => exact answersFolded_marginsItem
  | «enum» members =>
      unfold Fragment.plain
      simp only
      split
      · exact Ast.isFolded_literal _ _ _
      · trivial
  | any =>
      unfold Fragment.plain
      simp only
      split
      · exact Ast.isFolded_literal _ _ _
      · exact answersFolded_template
  | _ => trivial

/-- The formula of an expression is folded, and no literal. -/
def Expression.IsFolded (s : Scope α) (e : Expression α (Value α)) : Prop :=
  ∀ f, e = .formula f → f.ast.IsFolded s ∧ f.ast.literal? = none

theorem answers_settle (type : ValueType) {ast : Ast α} (h : ast.IsFolded s) :
    AnswersIn (fun _ => True) (Expression.IsFolded s) (text.settle type ast) := by
  cases hsettle : text.settle type ast with
  | error e => trivial
  | ok e =>
      rintro f rfl
      rcases settle_cases hsettle with ⟨_, _, _, hconstant⟩ | ⟨hnone, hformula⟩
      · cases hconstant
      · rw [Expression.formula.inj hformula]
        exact ⟨h, hnone⟩

theorem answers_settleBraced (type : ValueType) {other : Except FormatError (Ast α)}
    (h : AnswersFolded s other) :
    AnswersIn (fun _ => True) (Expression.IsFolded s) (text.settleBraced s type other) := by
  unfold Fragment.settleBraced
  split
  · exact AnswersIn.bind answersFolded_readFolded fun _ hast => answers_settle type hast
  · exact AnswersIn.bind h fun _ hast => answers_settle type hast

theorem answers_readTyped (context : LiteralContext α) (type : ValueType) (text : Fragment) :
    AnswersIn (fun _ => True) (Expression.IsFolded context.scope)
      (readTyped context type text) := by
  unfold readTyped
  split
  · exact AnswersIn.bind answersFolded_template fun _ hast => answers_settle .string hast
  · exact AnswersIn.bind answersFolded_template fun _ hast => answers_settle .path hast
  · exact answers_settleBraced _ (answersFolded_of_fold _)
  · exact answers_settleBraced _ (answersFolded_of_fold _)
  · exact answers_settleBraced _ (answersFolded_plain context _)

/-- A formula that is read as an expression of a type is folded. -/
theorem isFolded_readTyped {context : LiteralContext α} {type : ValueType}
    {e : Expression α (Value α)} (h : readTyped context type text = .ok e) :
    e.IsFolded context.scope := by
  have hread := answers_readTyped context type text
  rw [h] at hread
  exact hread

/-! ### Numbers have no blanks -/

/-- Whether no character is a blank. -/
def IsUnspaced (text : List Char) : Prop := ∀ c ∈ text, isBlank c = false

theorem IsUnspaced.trim_eq {text : List Char} (h : IsUnspaced text) : trim text = text := by
  have hdrop : ∀ text, IsUnspaced text → text.dropWhile isBlank = text := fun text h =>
    List.dropWhile_eq_self_iff.mpr fun hlength => by simp [h _ (List.getElem_mem hlength)]
  have hreverse : IsUnspaced text.reverse := fun c hc => h c (List.mem_reverse.mp hc)
  rw [trim, trimStart, hdrop text h, trimEnd, hdrop _ hreverse, List.reverse_reverse]

theorem isUnspaced_of_isDigit {text : List Char} (h : ∀ c ∈ text, c.isDigit = true) :
    IsUnspaced text := by
  intro c hc
  have hdigit : 48 ≤ c.toNat ∧ c.toNat ≤ 57 := Char.isDigit_iff_toNat.mp (h c hc)
  simp only [isBlank, Bool.or_eq_false_iff, Bool.and_eq_false_iff, decide_eq_false_iff_not,
    beq_eq_false_iff_ne]
  omega

theorem isUnspaced_of_splitSign {text : List Char} (h : IsUnspaced (splitSign text).2) :
    IsUnspaced text := by
  unfold splitSign at h
  split at h
  · exact List.forall_mem_cons.mpr ⟨by decide, h⟩
  · exact List.forall_mem_cons.mpr ⟨by decide, h⟩
  · exact h

theorem Numeral.isUnspaced_of_readExponent? {text : List Char} {n : Int}
    (h : readExponent? text = some n) : IsUnspaced text := by
  unfold readExponent? at h
  split at h
  · exact List.forall_mem_nil _
  · next c rest =>
      split at h
      · next hletter =>
          have hc : isBlank c = false := by
            rcases Bool.or_eq_true_iff.mp hletter with hc | hc
            · rw [beq_iff_eq.mp hc]
              decide
            · rw [beq_iff_eq.mp hc]
              decide
          simp only at h
          split at h
          · cases h
          · next hdigits =>
              rw [Bool.or_eq_true, not_or, Bool.not_eq_true', Bool.not_eq_false] at hdigits
              have hrest := isUnspaced_of_isDigit (List.all_eq_true.mp hdigits.2)
              exact List.forall_mem_cons.mpr ⟨hc, isUnspaced_of_splitSign hrest⟩
      · cases h

theorem Numeral.isUnspaced_of_read? {text : List Char} {n : Numeral} (h : read? text = some n) :
    IsUnspaced text := by
  refine isUnspaced_of_splitSign ?_
  have hrest : ∀ {whole fraction tail : List Char} {result : Numeral},
      (if whole.isEmpty && fraction.isEmpty then none
        else (readExponent? tail).map fun exponent => (⟨(splitSign text).1,
          digitsValue (digitsValue 0 whole) fraction, exponent - (fraction.length : Int)⟩ :
            Numeral)) = some result → IsUnspaced tail := by
    intro whole fraction tail result h
    split at h
    · cases h
    · obtain ⟨exponent, hexponent, -⟩ := Option.map_eq_some_iff.mp h
      exact isUnspaced_of_readExponent? hexponent
  have hdigits : ∀ body : List Char, IsUnspaced (body.dropWhile Char.isDigit) →
      IsUnspaced body := by
    intro body hbody
    have hwhole : IsUnspaced (body.takeWhile Char.isDigit) :=
      isUnspaced_of_isDigit fun c hc => List.mem_takeWhile_imp hc
    rw [← List.takeWhile_append_dropWhile (p := Char.isDigit) (l := body)]
    exact List.forall_mem_append.mpr ⟨hwhole, hbody⟩
  refine hdigits _ ?_
  unfold read? at h
  simp only at h
  split at h
  · next rest hafter =>
      rw [hafter]
      exact List.forall_mem_cons.mpr ⟨by decide, hdigits rest (hrest h)⟩
  · exact hrest h


/-- Text other than a formula that is read as a number has no blanks. -/
theorem Fragment.isUnspaced_of_numberItem {s : Scope α} {axis : Option Axis} {text : Fragment}
    {ast : Ast α} (h : text.numberItem s axis = .ok ast) (hbraced : text.braced? = none) :
    IsUnspaced text.chars := by
  have hnumber : ∀ {chars : List Char} {x : α}, readNumber? chars = some x → IsUnspaced chars := by
    intro chars x hx
    obtain ⟨hy, -⟩ := Option.filter_eq_some_iff.mp hx
    obtain ⟨n, hn, -⟩ := Option.map_eq_some_iff.mp hy
    exact Numeral.isUnspaced_of_read? hn
  have hpercent : ∀ {chars : List Char} {x : α}, readPercent? chars = some (some x) →
      IsUnspaced chars := by
    intro chars x hx
    unfold readPercent? at hx
    split at hx
    · next front hreverse =>
        obtain ⟨y, hy, -⟩ := Option.map_eq_some_iff.mp (Option.some.inj hx)
        rw [← List.reverse_reverse chars, hreverse, List.reverse_cons]
        exact List.forall_mem_append.mpr ⟨hnumber hy, List.forall_mem_singleton.mpr (by decide)⟩
    · cases hx
  unfold numberItem at h
  rw [hbraced] at h
  simp only at h
  split at h
  · cases h
  · next hx => exact hpercent hx
  · next hx => exact hpercent hx
  · split at h
    · next hx => exact hnumber hx
    · cases h

/-! ### The items of a list of constants -/

omit [Number α] in
theorem Ast.literals?_eq_of_forall₂ {asts : List (Ast α)} {values : List (Value α)}
    (h : literals? asts = some values) :
    List.Forall₂ (fun ast v => ast.literal? = some v) asts values := by
  induction asts generalizing values with
  | nil =>
      obtain rfl := Option.some.inj h
      exact .nil
  | cons ast rest ih =>
      obtain ⟨v, vs, hv, hvs, rfl⟩ := literals?_cons_eq_some.mp h
      exact .cons hv (ih hvs)

/-- A list of folded formulas that settles as a constant is a list of literals. -/
theorem literals_of_settle {type : ValueType} {asts : List (Ast α)} {range : ByteRange}
    {v : Value α} (hasts : ∀ ast ∈ asts, ast.IsFolded s)
    (h : text.settle (.list type) ((Ast.list asts range).fold s) = .ok (.constant v)) :
    ∃ values, List.Forall₂ (fun ast v => ast.literal? = some v) asts values ∧
      (Value.list values).coerce (.list type) = .ok v := by
  have hfolded : Ast.foldAll s.shadows asts = asts := by
    clear h
    induction asts with
    | nil => rfl
    | cons ast rest ih =>
        obtain ⟨hfirst, hrest⟩ := List.forall_mem_cons.mp hasts
        rw [Ast.foldAll, ih hrest]
        exact congrArg (· :: rest) hfirst
  rw [Ast.fold, Ast.foldWith, hfolded] at h
  unfold Ast.foldOnLiterals at h
  cases hliterals : Ast.literals? asts with
  | none =>
      simp only [hliterals] at h
      cases h
  | some values =>
      refine ⟨values, Ast.literals?_eq_of_forall₂ hliterals, ?_⟩
      simp only [hliterals, Ast.literalOr] at h
      unfold Fragment.settle at h
      simp only [Ast.literal?] at h
      split at h
      · next w hw =>
          rw [hw]
          exact congrArg Except.ok (Expression.constant.inj (Except.ok.inj h))
      · cases h

theorem settle_of_literal? {type : ValueType} {ast : Ast α} {u w : Value α}
    (hu : ast.literal? = some u) (hw : u.coerce type = .ok w) :
    text.settle type ast = .ok (.constant w) := by
  unfold Fragment.settle
  simp only [hu, hw]

theorem coerce_of_readTyped {context : LiteralContext α} {type : ValueType} {v : Value α}
    (h : readTyped context type text = .ok (.constant v)) : v.coerce type = .ok v := by
  obtain ⟨ast, hsettle, -⟩ := exists_settle_of_readTyped h
  rcases settle_cases hsettle with ⟨u, w, hw, hv⟩ | ⟨-, hv⟩
  · obtain rfl := Expression.constant.inj hv
    exact u.coerce_coerce hw
  · cases hv

theorem forall₂_of_mapM {β γ : Type} {read : β → Except FormatError γ} {xs : List β} {ys : List γ}
    (h : xs.mapM read = .ok ys) : List.Forall₂ (fun x y => read x = .ok y) xs ys := by
  induction xs generalizing ys with
  | nil =>
      obtain rfl := Except.ok.inj h
      exact .nil
  | cons x rest ih =>
      obtain ⟨y, more, hy, hmore, rfl⟩ := exists_of_mapM_cons h
      exact .cons hy (ih hmore)

theorem coerceItems_of_forall₂ {type : ValueType} {us ws : List (Value α)}
    (h : Value.coerceItems type us = .ok ws) :
    List.Forall₂ (fun u w => u.coerce type = .ok w) us ws := by
  induction us generalizing ws with
  | nil =>
      obtain rfl := Except.ok.inj h
      exact .nil
  | cons u rest ih =>
      obtain ⟨w, hw, h⟩ := FormulaParser.exists_of_bind_eq_ok h
      obtain ⟨more, hmore, h⟩ := FormulaParser.exists_of_bind_eq_ok h
      obtain rfl := Except.ok.inj h
      exact .cons hw (ih hmore)

/-- A number that is an item is read as the same number in a text of its own. -/
theorem readTyped_scalar_of_numberItem {context : LiteralContext α} {piece : Fragment}
    {ast : Ast α} (hitem : piece.numberItem context.scope context.axis = .ok ast) {u w : Value α}
    (hu : ast.literal? = some u) (hw : u.coerce .scalar = .ok w) :
    readTyped context .scalar piece = .ok (.constant w) := by
  rw [readTyped.eq_5 context .scalar piece (by simp) (by simp) (by simp) (by simp)]
  unfold Fragment.settleBraced
  cases hbraced : piece.braced? with
  | some inner =>
      unfold Fragment.numberItem at hitem
      simp only [hbraced] at hitem ⊢
      rw [hitem]
      exact settle_of_literal? hu hw
  | none =>
      have hsame : SameChars piece piece.trimmed :=
        (Fragment.isUnspaced_of_numberItem hitem hbraced).trim_eq.symm
      obtain ⟨ast', hitem', hform⟩ :=
        (alike_numberItem context.scope context.axis hsame).exists_of_ok hitem
      have hplain : piece.plain context .scalar = .ok ast' := hitem'
      simp only [hplain]
      exact settle_of_literal? (hform.literal?_eq.symm.trans hu) hw

theorem forall₂_comp {β γ δ : Type} {first : β → γ → Prop} {second : γ → δ → Prop}
    {both : β → δ → Prop} (h : ∀ x y z, first x y → second y z → both x z) {xs : List β}
    {ys : List γ} {zs : List δ} (hfirst : List.Forall₂ first xs ys)
    (hsecond : List.Forall₂ second ys zs) : List.Forall₂ both xs zs := by
  induction hfirst generalizing zs with
  | nil =>
      cases hsecond
      exact .nil
  | cons hxy _ ih =>
      cases hsecond with
      | cons hyz hrest => exact .cons (h _ _ _ hxy hyz) (ih hrest)

/-- A list of folded formulas that settles as a constant gives a list of what they settle as. -/
theorem items_of_settle {type : ValueType} {asts : List (Ast α)} {range : ByteRange} {v : Value α}
    (hasts : ∀ ast ∈ asts, ast.IsFolded s)
    (h : text.settle (.list type) ((Ast.list asts range).fold s) = .ok (.constant v)) :
    ∃ values, v = .list values ∧ List.Forall₂
      (fun ast w => ∃ u, ast.literal? = some u ∧ u.coerce type = .ok w) asts values := by
  obtain ⟨us, hliterals, hcoerce⟩ := literals_of_settle hasts h
  rw [Value.coerce] at hcoerce
  cases hitems : Value.coerceItems type us with
  | error e => simp [hitems, Except.map] at hcoerce
  | ok ws =>
      rw [hitems] at hcoerce
      obtain rfl := Except.ok.inj hcoerce
      exact ⟨ws, rfl, forall₂_comp (fun _ u _ hu hw => ⟨u, hu, hw⟩) hliterals
        (coerceItems_of_forall₂ hitems)⟩

/-- The items of a text that is read as a constant list are read as the items of the constant. -/
theorem readTyped_pieces {context : LiteralContext α} {type : ValueType} {v : Value α}
    (h : readTyped context (.list type) text = .ok (.constant v))
    (hbraced : text.braced? = none) :
    ∃ values, v = .list values ∧
      List.Forall₂ (fun piece c => readTyped context type piece = .ok (.constant c)) text.pieces
        values := by
  by_cases hscalar : type = .scalar
  · subst hscalar
    rw [readTyped, Fragment.settleBraced, hbraced] at h
    obtain ⟨ast, hast, h⟩ := FormulaParser.exists_of_bind_eq_ok h
    obtain ⟨asts, hasts, hast⟩ := FormulaParser.exists_of_bind_eq_ok hast
    obtain rfl := Except.ok.inj hast
    have hfolded : AnswersIn (fun _ => True) (fun asts => ∀ ast ∈ asts, ast.IsFolded context.scope)
        (text.pieces.mapM fun item => item.numberItem context.scope context.axis) :=
      .mapM fun _ _ => answersFolded_numberItem _
    rw [hasts] at hfolded
    obtain ⟨values, rfl, hvalues⟩ := items_of_settle hfolded h
    refine ⟨values, rfl, forall₂_comp ?_ (forall₂_of_mapM hasts) hvalues⟩
    rintro piece ast w hitem ⟨u, hu, hw⟩
    exact readTyped_scalar_of_numberItem hitem hu hw
  · rw [readTyped.eq_4 _ _ _ hscalar, Fragment.settleBraced, hbraced] at h
    obtain ⟨ast, hast, h⟩ := FormulaParser.exists_of_bind_eq_ok h
    obtain ⟨es, hes, hast⟩ := FormulaParser.exists_of_bind_eq_ok hast
    obtain rfl := Except.ok.inj hast
    have hreads := forall₂_of_mapM hes
    have hanswers : AnswersIn (fun _ => True) (fun es => ∀ e ∈ es, e.IsFolded context.scope)
        (text.pieces.mapM fun item => readTyped context type item) :=
      .mapM fun piece _ => answers_readTyped context type piece
    rw [hes] at hanswers
    have hfolded : ∀ ast ∈ es.map (·.toAst), Ast.IsFolded context.scope ast := by
      intro ast hast
      obtain ⟨e, he, rfl⟩ := List.mem_map.mp hast
      cases e with
      | constant c => exact Ast.isFolded_literal _ c _
      | formula f => exact (hanswers _ he f rfl).1
    obtain ⟨values, rfl, hvalues⟩ := items_of_settle hfolded h
    rw [List.forall₂_map_left_iff] at hvalues
    refine ⟨values, rfl, forall₂_comp ?_ hreads hvalues⟩
    rintro piece e w hread ⟨u, hu, hw⟩
    cases e with
    | constant c =>
        obtain rfl : c = u := Option.some.inj hu
        obtain rfl : c = w := Except.ok.inj ((coerce_of_readTyped hread).symm.trans hw)
        exact hread
    | formula f => cases (isFolded_readTyped hread f rfl).2.symm.trans hu

end PatternMarkup
