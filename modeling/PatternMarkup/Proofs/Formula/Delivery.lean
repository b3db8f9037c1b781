import Mathlib
import PatternMarkup.Formula.Literal
import PatternMarkup.Number.Double
import PatternMarkup.Proofs.Formula.Coercion
import PatternMarkup.Proofs.Formula.Templates
import PatternMarkup.Proofs.Formula.TrackedReading
import PatternMarkup.Proofs.Formula.TypeSoundness
/-!
What an expression of a type delivers. A constant has been brought into the form of the type when it
was read; the value of a formula belongs to the type its check has found, and the consumer brings it
into the form of the type asked for.
-/

namespace PatternMarkup

variable {α : Type} [Number α]

/-- Every name that stands for something stands for a value of its type, and functions return values
of the types they declare. -/
structure Scope.HoldsTypes (s : Scope α) : Prop where
  lookup? : ∀ n b, s.lookup? n = some b →
    ∃ v, b.content = .bound (.constant v) ∧ b.type.Conforms v
  returns : ∀ n host, s.function? n = some host →
    ∀ values v, host.call values = .ok v → host.returns.Conforms v

omit [Number α] in
theorem Scope.exists_mem_of_lookup? (s : Scope α) {n : String} {b : Binding α}
    (h : s.lookup? n = some b) : ∃ frame ∈ s.frames, (n, b) ∈ frame.bindings := by
  obtain ⟨⟨found, owner⟩, hfound, rfl⟩ := Option.map_eq_some_iff.mp h
  obtain ⟨frame, outer, howner, hmem⟩ := exists_mem_of_resolveIn hfound
  exact ⟨frame, (resolveIn_suffix hfound).mem (howner ▸ List.mem_cons_self), hmem⟩

namespace Ast

variable {s : Scope α}

/-- The check knows the types of all parts of a formula, and the values of its lists are of one
type. -/
structure IsTyped (s : Scope α) (ast : Ast α) : Prop where
  known : ∀ t ∈ ast.subterms, (t.check s).type.mentionsAny = false
  uniform : ∀ t ∈ ast.subterms, t.IsUniform s

/-- Where the formula has a value, it keeps to its type. -/
def KeepsTypeOnValues (s : Scope α) (ast : Ast α) : Prop :=
  ∀ v, ast.evaluate s = .ok v → KeepsType s True True ast

theorem KeepsTypeOnValues.admits {ast : Ast α} (h : ast.KeepsTypeOnValues s) {v : Value α}
    (hv : ast.evaluate s = .ok v) : (ast.check s).type.Admits True v :=
  (h v hv).delivers.of_ok hv

theorem exists_of_evaluateAll {asts : List (Ast α)} {values : List (Value α)}
    (h : evaluateAll s.environment asts = .ok values) :
    ∀ ast ∈ asts, ∃ v, ast.evaluate s = .ok v := by
  induction asts generalizing values with
  | nil => simp
  | cons first rest ih =>
      rw [evaluateAll] at h
      obtain ⟨v, hv, h⟩ := FormulaParser.exists_of_bind_eq_ok h
      obtain ⟨vs, hvs, -⟩ := FormulaParser.exists_of_bind_eq_ok h
      exact List.forall_mem_cons.mpr ⟨⟨v, hv⟩, ih hvs⟩

/-- Of two formulas, the one a condition takes; nothing is known of the other one. -/
theorem admits_of_choice {condition then_ else_ : Ast α} {v : Value α}
    (h : (do
      let c ← condition.evaluate s
      if ← c.asCondition then then_.evaluate s else else_.evaluate s) = .ok v)
    (hthen : then_.KeepsTypeOnValues s) (helse : else_.KeepsTypeOnValues s) :
    ((then_.check s).type.unify (else_.check s).type).Admits True v := by
  obtain ⟨c, -, h⟩ := FormulaParser.exists_of_bind_eq_ok h
  obtain ⟨taken, -, h⟩ := FormulaParser.exists_of_bind_eq_ok h
  cases taken with
  | true => exact ValueType.admits_unify_left (hthen v h).known (hthen.admits h)
  | false => exact ValueType.admits_unify_right (helse v h).known (helse.admits h)

/-- The operands of an operator that has a value. -/
theorem admits_of_binary {op : BinaryOp} {left right : Ast α} {range : ByteRange} {v : Value α}
    (htame : (binary op left right range).Tame s True True)
    (herrors : ((binary op left right range).check s).errors = [])
    (hv : (binary op left right range).evaluate s = .ok v)
    (hleft : left.KeepsTypeOnValues s) (hright : right.KeepsTypeOnValues s) :
    ((binary op left right range).check s).type.Admits True v := by
  have heval := hv
  rw [evaluate, evaluateWith] at heval
  obtain ⟨w, hw, heval⟩ := FormulaParser.exists_of_bind_eq_ok heval
  cases hshortcut : op.shortcut? w with
  | some u =>
      rw [hshortcut] at heval
      obtain rfl : u = v := Except.ok.inj heval
      rw [check] at herrors ⊢
      cases hresult : op.resultType? (left.check s).type (right.check s).type with
      | none => simp [hresult, Checked.fail, Checked.after] at herrors
      | some result => exact BinaryOp.admits_of_shortcut? hshortcut hresult
  | none =>
      rw [hshortcut] at heval
      obtain ⟨u, hu, -⟩ := FormulaParser.exists_of_bind_eq_ok heval
      exact (delivers_binary htame herrors (hleft w hw) (hright u hu)).of_ok hv

theorem admits_of_call (hs : s.HoldsTypes) {function : String} {arguments : List (Ast α)}
    {range : ByteRange} {v : Value α}
    (htame : (call function arguments range).Tame s True True)
    (herrors : ((call function arguments range).check s).errors = [])
    (hv : (call function arguments range).evaluate s = .ok v)
    (h : ∀ argument ∈ arguments, argument.KeepsTypeOnValues s) :
    ((call function arguments range).check s).type.Admits True v := by
  have hkeeps : ∀ values, evaluateAll s.environment arguments = .ok values →
      ∀ argument ∈ arguments, KeepsType s True True argument := by
    intro values hvalues argument hargument
    obtain ⟨w, hw⟩ := exists_of_evaluateAll hvalues argument hargument
    exact h argument hargument w hw
  rw [check] at herrors ⊢
  rw [evaluate, evaluateWith] at hv
  simp only [Checked.after, List.append_eq_nil_iff] at herrors ⊢
  obtain ⟨-, herrors⟩ := herrors
  rw [checkCall] at herrors ⊢
  have hfunction : s.environment.function? function = s.function? function := rfl
  rw [hfunction] at hv
  cases hhost : s.function? function with
  | some host =>
      rw [hhost] at hv herrors
      simp only at hv herrors ⊢
      split at hv
      · obtain ⟨values, -, hcall⟩ := FormulaParser.exists_of_bind_eq_ok hv
        have hreturns := hs.returns function host hhost values v hcall
        have hmono : host.returns.Admits True v := hreturns.mono False.elim host.returns
        unfold HostFunction.check
        split <;> exact hmono
      · cases hv
  | none =>
      rw [hhost] at hv herrors
      simp only at hv herrors ⊢
      cases hb : Builtin.ofName? function with
      | none => simp [hb] at hv
      | some b =>
          rw [hb] at hv herrors
          simp only [Builtin.check, List.append_eq_nil_iff, types_checkAll, length_checkAll]
            at herrors ⊢
          obtain ⟨hcount, hparameters⟩ := herrors
          have hcount : b.arity.accepts arguments.length = true := by simpa using hcount
          by_cases hchoose : b = .choose
          · subst hchoose
            obtain ⟨hleast, hgreatest⟩ := Bool.and_eq_true_iff.mp hcount
            obtain ⟨condition, then_, else_, rfl⟩ := List.length_eq_three.mp
              (Nat.le_antisymm (of_decide_eq_true hgreatest) (of_decide_eq_true hleast))
            simp only [evaluateChoice] at hv
            exact admits_of_choice hv (h then_ (by simp)) (h else_ (by simp))
          · have hcall : (evaluateAll s.environment arguments >>= b.call) = .ok v := by
              cases b with
              | choose => exact absurd rfl hchoose
              | _ => exact hv
            obtain ⟨values, hvalues, -⟩ := FormulaParser.exists_of_bind_eq_ok hcall
            exact (delivers_callBuiltin id htame hb hchoose hcount hparameters
              (hkeeps values hvalues)).of_ok hcall

mutual

/-- Where a formula has a value, the value belongs to the type the check has found. Nothing is asked
of errors, nor of parts that are not evaluated. The induction is on the formula. -/
theorem keepsType_of_evaluate (hs : s.HoldsTypes) (ast : Ast α)
    (htame : ∀ t ∈ ast.subterms, t.Tame s True True) (herrors : (ast.check s).errors = []) :
    ast.KeepsTypeOnValues s := by
  intro v hv
  have hself := htame ast ast.mem_subterms_self
  suffices hadmits : (ast.check s).type.Admits True v by
    refine ⟨hself.known, ?_⟩
    rw [hv]
    exact hadmits
  have heval := hv
  cases ast with
  | literal value range =>
      rw [evaluate, evaluateWith] at hv
      cases hv
      rw [check]
      exact hself.uniform.mono False.elim _
  | name n range =>
      have hname : Delivers True (((name n range).check s).type.Admits True)
          ((name n range).evaluate s) := delivers_name (hs.lookup? n) herrors
      exact hname.of_ok hv
  | list items range =>
      rw [evaluate, evaluateWith] at heval
      obtain ⟨values, hvalues, -⟩ := FormulaParser.exists_of_bind_eq_ok heval
      have hitems := keepsType_of_evaluateAll hs items
        (fun t ht => htame t (List.mem_cons_of_mem _ ht)) (by rwa [check] at herrors)
      refine (delivers_list hself fun item hitem => ?_).of_ok hv
      obtain ⟨w, hw⟩ := exists_of_evaluateAll hvalues item hitem
      exact hitems item hitem w hw
  | unary op operand range =>
      rw [evaluate, evaluateWith] at heval
      obtain ⟨w, hw, -⟩ := FormulaParser.exists_of_bind_eq_ok heval
      have hoperand := keepsType_of_evaluate hs operand
        (fun t ht => htame t (List.mem_cons_of_mem _ ht)) (errors_of_unary herrors)
      exact (delivers_unary hself herrors (hoperand w hw)).of_ok hv
  | binary op left right range =>
      have herrors' := errors_of_binary herrors
      have hleft := keepsType_of_evaluate hs left
        (fun t ht => htame t (by simp [subterms, ht])) herrors'.1
      have hright := keepsType_of_evaluate hs right
        (fun t ht => htame t (by simp [subterms, ht])) herrors'.2
      exact admits_of_binary hself herrors hv hleft hright
  | conditional condition then_ else_ range =>
      rw [check] at herrors ⊢
      simp only [List.append_eq_nil_iff] at herrors
      have hthen := keepsType_of_evaluate hs then_
        (fun t ht => htame t (by simp [subterms, ht])) herrors.1.2
      have helse := keepsType_of_evaluate hs else_
        (fun t ht => htame t (by simp [subterms, ht])) herrors.2
      rw [evaluate, evaluateWith] at hv
      exact admits_of_choice hv hthen helse
  | call function arguments range =>
      have harguments := keepsType_of_evaluateAll hs arguments
        (fun t ht => htame t (List.mem_cons_of_mem _ ht)) (errors_of_call herrors)
      exact admits_of_call hs hself herrors hv harguments
  | member object m range =>
      rw [evaluate, evaluateWith] at heval
      obtain ⟨w, hw, -⟩ := FormulaParser.exists_of_bind_eq_ok heval
      have hobject := keepsType_of_evaluate hs object
        (fun t ht => htame t (List.mem_cons_of_mem _ ht)) (errors_of_member herrors)
      exact (delivers_member herrors (hobject w hw)).of_ok hv
  | index object i range =>
      rw [evaluate, evaluateWith] at heval
      obtain ⟨w, hw, heval⟩ := FormulaParser.exists_of_bind_eq_ok heval
      obtain ⟨u, hu, -⟩ := FormulaParser.exists_of_bind_eq_ok heval
      have herrors' := errors_of_index herrors
      have hobject := keepsType_of_evaluate hs object
        (fun t ht => htame t (by simp [subterms, ht])) herrors'.1
      have hi := keepsType_of_evaluate hs i
        (fun t ht => htame t (by simp [subterms, ht])) herrors'.2
      exact (delivers_index herrors id (hobject w hw) (hi u hu)).of_ok hv
  | interpolation parts range =>
      rw [evaluate, evaluateWith] at heval
      obtain ⟨text, -, heval⟩ := FormulaParser.exists_of_bind_eq_ok heval
      cases heval
      rw [check]
      exact ⟨text, rfl⟩

/-- The same for several formulas. -/
theorem keepsType_of_evaluateAll (hs : s.HoldsTypes) (asts : List (Ast α))
    (htame : ∀ t ∈ subtermsOfAll asts, t.Tame s True True) (herrors : (checkAll s asts).2 = []) :
    ∀ ast ∈ asts, ast.KeepsTypeOnValues s := by
  cases asts with
  | nil => simp
  | cons first rest =>
      rw [checkAll_cons, List.append_eq_nil_iff] at herrors
      have hfirst := keepsType_of_evaluate hs first
        (fun t ht => htame t (List.mem_append_left _ ht)) herrors.1
      have hrest := keepsType_of_evaluateAll hs rest
        (fun t ht => htame t (List.mem_append_right _ ht)) herrors.2
      exact List.forall_mem_cons.mpr ⟨hfirst, hrest⟩

end

theorem admits_of_isTyped (hs : s.HoldsTypes) {ast : Ast α} (htyped : ast.IsTyped s)
    (herrors : (ast.check s).errors = []) {v : Value α} (hv : ast.evaluate s = .ok v) :
    (ast.check s).type.Admits True v := by
  have htame : ∀ t ∈ ast.subterms, t.Tame s True True := fun t ht =>
    { known := htyped.known t ht
      uniform := htyped.uniform t ht
      overflow := fun _ => trivial
      conversion := fun _ => trivial }
  exact (keepsType_of_evaluate hs ast htame herrors).admits hv

end Ast

/-! ### Expressions that are read -/

theorem settle_cases {text : Fragment} {type : ValueType} {ast : Ast α}
    {e : Expression α (Value α)} (h : text.settle type ast = .ok e) :
    (∃ v w : Value α, v.coerce type = .ok w ∧ e = .constant w) ∨
      ast.literal? = none ∧ e = .formula ⟨ast, type⟩ := by
  unfold Fragment.settle at h
  split at h
  · rename_i hnone
    exact .inr ⟨hnone, (Except.ok.inj h).symm⟩
  · rename_i v _
    split at h
    · rename_i w hw
      exact .inl ⟨v, w, hw, (Except.ok.inj h).symm⟩
    · cases h

/-- Whatever the type, a tree is settled at the end; text is read as a template. -/
theorem exists_settle_of_readTyped {context : LiteralContext α} {type : ValueType}
    {text : Fragment} {e : Expression α (Value α)} (h : readTyped context type text = .ok e) :
    ∃ ast, text.settle type ast = .ok e ∧
      (type = .string ∨ type = .path → text.template context.scope = .ok ast) := by
  have hbraced : ∀ {other}, text.settleBraced context.scope type other = .ok e →
      type ≠ .string → type ≠ .path → ∃ ast, text.settle type ast = .ok e ∧
        (type = .string ∨ type = .path → text.template context.scope = .ok ast) := by
    intro other h hstring hpath
    have hnever : ¬ (type = .string ∨ type = .path) := not_or.mpr ⟨hstring, hpath⟩
    unfold Fragment.settleBraced at h
    split at h
    · obtain ⟨ast, -, h⟩ := FormulaParser.exists_of_bind_eq_ok h
      exact ⟨ast, h, fun h => absurd h hnever⟩
    · obtain ⟨ast, -, h⟩ := FormulaParser.exists_of_bind_eq_ok h
      exact ⟨ast, h, fun h => absurd h hnever⟩
  unfold readTyped at h
  split at h
  · obtain ⟨ast, hast, h⟩ := FormulaParser.exists_of_bind_eq_ok h
    exact ⟨ast, h, fun _ => hast⟩
  · obtain ⟨ast, hast, h⟩ := FormulaParser.exists_of_bind_eq_ok h
    exact ⟨ast, h, fun _ => hast⟩
  · exact hbraced h nofun nofun
  · exact hbraced h nofun nofun
  · rename_i hstring hpath _ _
    exact hbraced h hstring hpath

omit [Number α] in
theorem ofParts_cases (range : ByteRange) (parts : List (Ast α)) :
    (∃ v r, ofParts range parts = .literal v r) ∨
      ∃ ps, ofParts range parts = .interpolation ps range := by
  unfold ofParts
  split
  · exact .inl ⟨_, _, rfl⟩
  · rename_i part
    split
    · rename_i hpart
      cases part <;> cases hpart
      exact .inl ⟨_, _, rfl⟩
    · exact .inr ⟨_, rfl⟩
  · exact .inr ⟨_, rfl⟩

/-- The value of a template that is no constant is text. -/
theorem exists_string_of_template {s : Scope α} {text : Fragment} {ast : Ast α}
    (h : text.template s = .ok ast) (hnone : ast.literal? = none) {v : Value α}
    (hv : ast.evaluate s = .ok v) : ∃ t, v = .string t := by
  obtain ⟨parts, -, hparts⟩ := FormulaParser.exists_of_bind_eq_ok h
  obtain rfl := Except.ok.inj hparts
  rcases ofParts_cases text.range parts with ⟨w, range, hliteral⟩ | ⟨ps, hinterpolation⟩
  · rw [hliteral, Ast.fold, Ast.foldWith] at hnone
    cases hnone
  · have hwhole : (ofParts text.range parts).evaluate s = .ok v :=
      (Ast.evaluateWith_foldWith s.environment_knows_shadows _).symm.trans hv
    rw [hinterpolation] at hwhole
    exact exists_string_of_interpolation hwhole

open ValueType (Somewhere Converts Refuses)

/-- The values of a type that the check lets through as another one suit that one. -/
theorem suits_of_checkAs {type found : ValueType} (hdistinct : type.HasDistinctFields)
    (htext : type ≠ .string ∧ type ≠ .path) (hknown : found.mentionsAny = false)
    (h : (type.accepts found || Ast.converts type found) = true) {v : Value α}
    (hv : found.Admits True v) : v.Suits type := by
  rcases (Bool.or_eq_true _ _).mp h with haccepts | hconverts
  · exact Value.suits_of_admits type hdistinct
      (ValueType.admits_of_accepts type haccepts hknown hv)
  · cases type with
    | string => exact absurd rfl htext.1
    | path => exact absurd rfl htext.2
    | margins =>
        rcases (ValueType.isNumeric_iff hknown).mp hconverts with rfl | rfl
        · rcases hv with ⟨x, rfl⟩ | ⟨n, rfl⟩
          · exact Value.suits_of_converts rfl trivial
          · exact Value.suits_of_converts rfl trivial
        · rcases hv with ⟨n, rfl⟩ | ⟨-, x, rfl⟩
          · exact Value.suits_of_converts rfl trivial
          · exact Value.suits_of_converts rfl trivial
    | int =>
        cases found <;> cases hconverts
        have hint : ValueType.int.Admits True v := by
          rcases hv with ⟨x, rfl⟩ | ⟨n, rfl⟩
          · exact .inr ⟨trivial, x, rfl⟩
          · exact .inl ⟨n, rfl⟩
        exact Value.suits_of_admits .int trivial hint
    | _ => cases hconverts

/-- An expression that is read as one of a type delivers it. A constant and a text are values in the
form of the type. For a formula that passes the check against the type, the consumer brings the
value into the form of the type: it stays as it is unless a number in it is converted, and is
refused only for a number that is no integer or a text that is none of several names. -/
theorem readTyped_delivers (context : LiteralContext α) {type : ValueType}
    (hdistinct : type.HasDistinctFields) {text : Fragment} {e : Expression α (Value α)}
    (hread : readTyped context type text = .ok e) {v : Value α}
    (hv : e.evaluate context.scope = .ok v) :
    (e.isConstant = true ∨ type = .string ∨ type = .path → v.coerce type = .ok v) ∧
    (∀ ast, e = .formula ⟨ast, type⟩ → context.scope.HoldsTypes →
      ast.IsTyped context.scope → ast.checkAs context.scope type = [] →
        (∃ w, v.coerce type = .ok w ∧ w.coerce type = .ok w ∧
          (w = v ∨ Somewhere Converts type v)) ∨ Somewhere Refuses type v) := by
  obtain ⟨tree, hsettle, htemplate⟩ := exists_settle_of_readTyped hread
  rcases settle_cases hsettle with ⟨u, w, hw, rfl⟩ | ⟨hnone, rfl⟩
  · obtain rfl : w = v := Except.ok.inj hv
    exact ⟨fun _ => u.coerce_coerce hw, nofun⟩
  · have hvalue : tree.evaluate context.scope = .ok v := by
      obtain ⟨x, hx, hsame⟩ := FormulaParser.exists_of_bind_eq_ok hv
      obtain rfl : x = v := Except.ok.inj hsame
      exact hx
    have htext : type = .string ∨ type = .path → v.coerce type = .ok v := by
      intro htype
      obtain ⟨t, rfl⟩ := exists_string_of_template (htemplate htype) hnone hvalue
      rcases htype with rfl | rfl
      · rfl
      · rfl
    refine ⟨?_, ?_⟩
    · rintro (hconstant | htype)
      · cases hconstant
      · exact htext htype
    · rintro ast ⟨⟩ hs htyped hcheck
      by_cases htype : type = .string ∨ type = .path
      · exact .inl ⟨v, htext htype, htext htype, .inl rfl⟩
      · rw [Ast.checkAs] at hcheck
        split at hcheck
        · rename_i hfits
          have hknown := htyped.known tree tree.mem_subterms_self
          have hadmits := Ast.admits_of_isTyped hs htyped hcheck hvalue
          rcases suits_of_checkAs hdistinct (not_or.mp htype) hknown hfits hadmits with
            ⟨w, hw, hsame⟩ | hrefuses
          · exact .inl ⟨w, hw, v.coerce_coerce hw, hsame⟩
          · exact .inr hrefuses
        · exact absurd hcheck (by simp)

/-- The constant `7` is an integer, and the formula `n + 1` of an integer `n` gives a number. -/
theorem readTyped_delivers_number :
    let s : Scope Float := ⟨[{ bindings := [("n", .ofValue (.int 3))] }]⟩
    let ast : Ast Float := .binary .add (.name "n" ⟨1, 2⟩) (.literal (.int 1) ⟨5, 6⟩) ⟨1, 6⟩
    let v : Value Float := .int 4
    (readTyped ⟨s, none⟩ .int (Fragment.ofString "7" 0) = .ok (.constant (.int 7)) ∧
      (Value.int 7 : Value Float).coerce .int = .ok (.int 7)) ∧
    readTyped ⟨s, none⟩ .scalar (Fragment.ofString "\x7bn + 1\x7d" 0) =
      .ok (.formula ⟨ast, .scalar⟩) ∧
    ((∃ w, v.coerce .scalar = .ok w ∧ w.coerce .scalar = .ok w ∧
      (w = v ∨ Somewhere Converts .scalar v)) ∨ Somewhere Refuses .scalar v) := by
  intro s ast v
  have hconstant : readTyped ⟨s, none⟩ .int (Fragment.ofString "7" 0) =
      .ok (.constant (.int 7)) := by cbv
  have hformula : readTyped ⟨s, none⟩ .scalar (Fragment.ofString "\x7bn + 1\x7d" 0) =
      .ok (.formula ⟨ast, .scalar⟩) := by cbv
  have hvalue : (Expression.formula ⟨ast, .scalar⟩ : Expression Float (Value Float)).evaluate s =
      .ok v := by cbv
  have hs : s.HoldsTypes := by
    constructor
    · intro n b hn
      obtain ⟨frame, hframe, hmem⟩ := s.exists_mem_of_lookup? hn
      rw [List.mem_singleton] at hframe
      subst hframe
      simp only [List.mem_singleton, Prod.mk.injEq] at hmem
      obtain ⟨-, rfl⟩ := hmem
      exact ⟨_, rfl, .inl ⟨3, rfl⟩⟩
    · rintro n host ⟨⟩
  have hone : ValueType.int.Conforms (.int 1 : Value Float) := .inl ⟨1, rfl⟩
  have htyped : ast.IsTyped s := by
    constructor
    · decide
    · have hsum : ast.IsUniform s := by
        rintro item more hitem
        cases hitem
      simpa [ast, Ast.subterms, Ast.IsUniform] using ⟨hsum, hone⟩
  refine ⟨⟨hconstant, ?_⟩, hformula, ?_⟩
  · have hdistinct : ValueType.int.HasDistinctFields := trivial
    exact (readTyped_delivers ⟨s, none⟩ hdistinct hconstant rfl).1 (.inl rfl)
  · have hdistinct : ValueType.scalar.HasDistinctFields := trivial
    exact (readTyped_delivers ⟨s, none⟩ hdistinct hformula hvalue).2 ast rfl hs htyped (by cbv)

/-- Names with values of their types, one of them a list of a type that is not known, and a function
that returns a text where it declares a number. -/
def clashScope : Scope Float :=
  ⟨[{ bindings := [("n", .ofValue (.int 3)), ("s", .ofValue (.string "c")),
        ("i", .ofValue (.int 1)),
        ("xs", ⟨.list .any, .bound (.constant (.list [.string "a"]))⟩)]
      functions := [⟨"f", [], .scalar, fun _ => .ok (.string "a")⟩] }]⟩

/-- A formula is read as one of a type and passes the check against it, but its value is not in the
form of the type. -/
def IsUndelivered (s : Scope Float) (type : ValueType) (text : String) : Prop :=
  ∃ ast v, readTyped ⟨s, none⟩ type (Fragment.ofString text 0) = .ok (.formula ⟨ast, type⟩) ∧
    ast.checkAs s type = [] ∧ ast.evaluate s = .ok v ∧ v.coerce type ≠ .ok v

theorem conforms_clashScope (n : String) (b : Binding Float)
    (h : clashScope.lookup? n = some b) :
    ∃ v, b.content = .bound (.constant v) ∧ v.coerce b.type = .ok v := by
  obtain ⟨frame, hframe, hmem⟩ := clashScope.exists_mem_of_lookup? h
  rw [clashScope, List.mem_singleton] at hframe
  subst hframe
  simp only [List.mem_cons, List.not_mem_nil, or_false, Prod.mk.injEq] at hmem
  rcases hmem with ⟨-, rfl⟩ | ⟨-, rfl⟩ | ⟨-, rfl⟩ | ⟨-, rfl⟩ <;> exact ⟨_, rfl, rfl⟩

/-- What the check lets through is not what the type asks for: an integer for a number and for
margins, a text for one of several names, an item of a list of several types, one of a type that is
not known, and what a function returns. -/
theorem isUndelivered_clashScope :
    (∀ n b, clashScope.lookup? n = some b →
      ∃ v, b.content = .bound (.constant v) ∧ v.coerce b.type = .ok v) ∧
    IsUndelivered clashScope .scalar "\x7bn\x7d" ∧
    IsUndelivered clashScope .margins "\x7bn\x7d" ∧
    IsUndelivered clashScope (.enum ["a", "b"]) "\x7bs\x7d" ∧
    IsUndelivered clashScope .int "\x7b[1, 'a'][i]\x7d" ∧
    IsUndelivered clashScope .color "\x7bxs[0]\x7d" ∧
    IsUndelivered clashScope .scalar "\x7bf()\x7d" := by
  let items : Ast Float := .literal (.list [.int 1, .string "a"]) ⟨1, 9⟩
  let item : Ast Float := .index items (.name "i" ⟨10, 11⟩) ⟨1, 12⟩
  let first : Ast Float := .index (.name "xs" ⟨1, 3⟩) (.literal (.int 0) ⟨4, 5⟩) ⟨1, 6⟩
  refine ⟨conforms_clashScope,
    ⟨.name "n" ⟨1, 2⟩, .int 3, by cbv, by cbv, by cbv, ?_⟩,
    ⟨.name "n" ⟨1, 2⟩, .int 3, by cbv, by cbv, by cbv, ?_⟩,
    ⟨.name "s" ⟨1, 2⟩, .string "c", by cbv, by cbv, by cbv, ?_⟩,
    ⟨item, .string "a", by cbv, by cbv, by cbv, ?_⟩,
    ⟨first, .string "a", by cbv, by cbv, by cbv, ?_⟩,
    ⟨.call "f" [] ⟨1, 4⟩, .string "a", by cbv, by cbv, by cbv, ?_⟩⟩
  all_goals
    intro h
    cases h

end PatternMarkup
