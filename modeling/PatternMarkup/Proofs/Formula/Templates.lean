import Mathlib
import PatternMarkup.Formula.Literal
import PatternMarkup.Number.Double
import PatternMarkup.Proofs.Formula.Bracing
/-!
Text with formulas in it means what it looks like. Text is written segment by segment, with the
braces of literal text doubled and every formula between braces. Main statement: it is read as an
expression whose value is the texts of the segments one after another, or the error of the first
formula without a value.
-/

namespace PatternMarkup

variable {α : Type} [Number α]

/-- A segment of text: characters that stand for themselves, or a formula that can be read. -/
inductive TextSegment (α : Type) [Number α] where
  | literal (text : String)
  | formula (text : String) (ast : Ast α) (reads : Ast.read (Fragment.ofString text 0) = .ok ast)

namespace TextSegment

/-- How the segment is written among others. -/
def written : TextSegment α → String
  | literal text => String.ofList (Ast.doubleBraces text.toList)
  | formula text _ _ => Ast.bracedText text

/-- What the segment stands for in a scope. -/
def textIn (s : Scope α) : TextSegment α → Except EvalError String
  | literal text => .ok text
  | formula _ ast _ => (ast.evaluate s).map Value.text

/-- The texts of segments one after another, up to the first without one. -/
def textsIn (s : Scope α) : List (TextSegment α) → Except EvalError String
  | [] => .ok ""
  | segment :: rest => do return (← segment.textIn s) ++ (← textsIn s rest)

end TextSegment

/-! ### Values without structure -/

/-- A value that is text, a number or a truth value: its text is all there is to it. -/
def Value.IsPlain (v : Value α) : Prop := v.plainText = .ok v.text

theorem Value.IsPlain.coerce {v : Value α} (h : v.IsPlain) :
    v.coerce .string = .ok (.string v.text) := by
  cases v with
  | scalar | int | bool | string => rfl
  | _ => cases h

/-- If the formula is a literal, its value is plain. -/
def Ast.HasPlainLiteral (ast : Ast α) : Prop := ∀ v, ast.literal? = some v → v.IsPlain

theorem hasPlainLiteral_of_none {ast : Ast α} (h : ast.literal? = none) :
    ast.HasPlainLiteral := by
  intro v hv
  rw [h] at hv
  cases hv

theorem hasPlainLiteral_literal {v : Value α} (h : v.IsPlain) (range : ByteRange) :
    (Ast.literal v range).HasPlainLiteral := by
  rintro _ ⟨⟩
  exact h

namespace FormulaGrammar

theorem Tail.hasPlainLiteral {k : Nat} {left : Ast α} (h : left.HasPlainLiteral) :
    (tail : Tail k) → (tail.ast left).HasPlainLiteral
  | .done => by
      rw [Tail.ast]
      exact h
  | .more sign op stands right rest => by
      rw [Tail.ast]
      exact hasPlainLiteral (hasPlainLiteral_of_none rfl) rest
termination_by structural tail => tail

theorem Suffixes.hasPlainLiteral {object : Ast α} (h : object.HasPlainLiteral) :
    (suffixes : Suffixes) → (suffixes.ast object).HasPlainLiteral
  | .done => by
      rw [Suffixes.ast]
      exact h
  | .member name rest => by
      rw [Suffixes.ast]
      exact hasPlainLiteral (hasPlainLiteral_of_none rfl) rest
  | .index i rest => by
      rw [Suffixes.ast]
      exact hasPlainLiteral (hasPlainLiteral_of_none rfl) rest
termination_by structural suffixes => suffixes

mutual

/-- The literals of formulas are text, numbers and truth values. -/
theorem Expr.hasPlainLiteral : (d : Expr) → (d.ast : Ast α).HasPlainLiteral
  | .plain operation => by
      rw [Expr.ast]
      exact operation.hasPlainLiteral
  | .conditional condition then_ else_ => by
      rw [Expr.ast]
      exact hasPlainLiteral_of_none rfl
termination_by structural d => d

theorem Operation.hasPlainLiteral : {k : Nat} → (d : Operation k) →
    (d.ast : Ast α).HasPlainLiteral
  | _, .operand operand => by
      rw [Operation.ast]
      exact operand.hasPlainLiteral
  | _, .level first rest => by
      rw [Operation.ast]
      exact rest.hasPlainLiteral first.hasPlainLiteral
termination_by structural _ d => d

theorem Unary.hasPlainLiteral : (d : Unary) → (d.ast : Ast α).HasPlainLiteral
  | .signed op operand => by
      rw [Unary.ast]
      exact hasPlainLiteral_of_none rfl
  | .value value => by
      rw [Unary.ast]
      exact value.hasPlainLiteral
termination_by structural d => d

theorem Postfix.hasPlainLiteral : (d : Postfix) → (d.ast : Ast α).HasPlainLiteral
  | .value first rest => by
      rw [Postfix.ast]
      exact rest.hasPlainLiteral first.hasPlainLiteral
termination_by structural d => d

theorem Primary.hasPlainLiteral : (d : Primary) → (d.ast : Ast α).HasPlainLiteral
  | .number written => by
      rw [Primary.ast]
      apply hasPlainLiteral_literal
      unfold FormulaParser.numberValue
      simp only
      split <;> rfl
  | .text written => by
      rw [Primary.ast]
      exact hasPlainLiteral_literal (v := .string _) rfl _
  | .truth b => by
      rw [Primary.ast]
      exact hasPlainLiteral_literal (v := .bool b) rfl _
  | .name name => by
      rw [Primary.ast]
      exact hasPlainLiteral_of_none rfl
  | .call function arguments => by
      rw [Primary.ast]
      exact hasPlainLiteral_of_none rfl
  | .group inner => by
      rw [Primary.ast]
      exact inner.hasPlainLiteral
  | .list items => by
      rw [Primary.ast]
      exact hasPlainLiteral_of_none rfl
termination_by structural d => d

end

end FormulaGrammar

theorem Ast.hasPlainLiteral_of_read {text : Fragment} {ast : Ast α} (h : Ast.read text = .ok ast) :
    ast.HasPlainLiteral := by
  obtain ⟨tokens, -, hwhole⟩ := FormulaParser.exists_of_bind_eq_ok h
  obtain ⟨d, -, hast⟩ := FormulaParser.whole_sound hwhole
  intro v hv
  rw [← literal?_withoutRanges, ← hast] at hv
  exact d.hasPlainLiteral v hv

/-! ### Reading segments -/

theorem doubleBraces_cons (c : Char) (text : List Char) :
    Ast.doubleBraces (c :: text) =
      (if c = '{' ∨ c = '}' then [c, c] else [c]) ++ Ast.doubleBraces text :=
  List.flatMap_cons

/-- Doubled braces and other characters stand for themselves. -/
theorem templateParts_doubleBraces (start offset : Nat) (literal text rest : List Char) :
    (templateParts start literal offset (Ast.doubleBraces text ++ rest) :
      Except FormatError (List (Ast α))) =
        templateParts start (text.reverse ++ literal)
          (offset + byteLength (Ast.doubleBraces text)) rest := by
  induction text generalizing literal offset with
  | nil => rfl
  | cons c text ih =>
      have hliteral : (c :: text).reverse ++ literal = text.reverse ++ c :: literal := by simp
      rw [doubleBraces_cons, List.append_assoc, hliteral, byteLength_append, ← Nat.add_assoc]
      by_cases hopen : c = '{'
      · subst hopen
        rw [if_pos (.inl rfl)]
        exact (templateParts.eq_2 _ _ _ _).trans (ih _ _)
      · by_cases hclose : c = '}'
        · subst hclose
          rw [if_pos (.inr rfl)]
          exact (templateParts.eq_3 _ _ _ _).trans (ih _ _)
        · rw [if_neg (not_or.mpr ⟨hopen, hclose⟩)]
          exact (templateParts.eq_6 _ _ _ _ _ (fun _ h => absurd h hopen)
            (fun _ h => absurd h hclose) hclose hopen).trans (ih _ _)

/-- A formula does not begin with a brace. -/
theorem ne_brace_of_scan {offset : Nat} {text : List Char} {tokens : List PlacedToken}
    (h : scanFormula offset text = .ok tokens) (rest : List Char) : text ≠ '{' :: rest := by
  rintro rfl
  have hread : (TokenReading.read '{' rest).token = none := by
    cases rest with
    | nil => rfl
    | cons d rest => rfl
  rw [scanFormula, if_neg (by decide)] at h
  simp only [hread] at h
  cases h

/-- A formula between braces is read, and what follows it is read on. -/
theorem templateParts_bracedText {start offset : Nat} {literal text rest : List Char}
    (hbrace : ∀ more, text ≠ '{' :: more) (hcloses : ClosesAfter text) :
    (templateParts start literal offset ('{' :: (text ++ '}' :: rest)) :
      Except FormatError (List (Ast α))) = (do
        let ast ← Ast.read ⟨offset + 1, text⟩
        let next := offset + byteLength text + 2
        let later ← templateParts next [] next rest
        return literalPart start literal offset ++ ast :: later) := by
  have hbrace' : ∀ more, text ++ '}' :: rest = '{' :: more → False := by
    intro more h
    cases text with
    | nil => cases h
    | cons c text =>
        obtain ⟨rfl, -⟩ := List.cons_eq_cons.mp h
        exact hbrace text rfl
  rw [templateParts.eq_5 _ _ _ _ hbrace']
  split
  · rename_i hnone
    rw [hcloses rest] at hnone
    cases hnone
  · rename_i inner after hsome
    rw [hcloses rest] at hsome
    cases hsome
    rfl

/-! ### The parts of a text -/

theorem evaluateText_append (env : Environment α) (first second : List (Ast α)) :
    Ast.evaluateText env (first ++ second) = (do
      let text ← Ast.evaluateText env first
      let more ← Ast.evaluateText env second
      return text ++ more) := by
  induction first with
  | nil =>
      rw [Ast.evaluateText]
      cases h : Ast.evaluateText env second <;> simp [h, bind, Except.bind, pure, Except.pure]
  | cons ast rest ih =>
      rw [List.cons_append, Ast.evaluateText, Ast.evaluateText, ih]
      cases ast.evaluateWith env with
      | error e => rfl
      | ok v =>
          cases Ast.evaluateText env rest with
          | error e => rfl
          | ok text =>
              cases Ast.evaluateText env second with
              | error e => rfl
              | ok more => simp [bind, Except.bind, pure, Except.pure, String.append_assoc]

theorem evaluateText_literalPart (env : Environment α) (start stop : Nat) (literal : List Char) :
    Ast.evaluateText env (literalPart start literal stop) =
      .ok (String.ofList literal.reverse) := by
  unfold literalPart
  cases literal with
  | nil => rw [if_pos List.isEmpty_nil, Ast.evaluateText]; rfl
  | cons c literal =>
      rw [if_neg (by simp), Ast.evaluateText, Ast.evaluateWith, Ast.evaluateText]
      simp [bind, Except.bind, pure, Except.pure, Value.text]

/-- The text of a formula's parts is the text of segments, and parts that are literals are plain. -/
structure Shows (s : Scope α) (text : Except EvalError String) (parts : List (Ast α)) : Prop where
  evaluate_eq : Ast.evaluateText s.environment parts = text
  plain : ∀ part ∈ parts, part.HasPlainLiteral

theorem hasPlainLiteral_literalPart {start stop : Nat} {literal : List Char} :
    ∀ part ∈ (literalPart start literal stop : List (Ast α)), part.HasPlainLiteral := by
  unfold literalPart
  split
  · simp
  · intro part hpart v hv
    rw [List.mem_singleton.mp hpart] at hv
    cases hv
    rfl

/-- The parts of written segments after literal text. The induction is on the segments: literal
text is added to the literal before it, a formula ends it. -/
theorem exists_templateParts (s : Scope α) (start offset : Nat) (literal : List Char)
    (segments : List (TextSegment α)) :
    ∃ parts, templateParts start literal offset (segments.flatMap (·.written.toList)) =
        .ok parts ∧
      Shows s (do return String.ofList literal.reverse ++ (← TextSegment.textsIn s segments))
        parts := by
  induction segments generalizing start offset literal with
  | nil =>
      refine ⟨literalPart start literal offset, by rw [List.flatMap_nil, templateParts], ?_, ?_⟩
      · rw [evaluateText_literalPart, TextSegment.textsIn]
        simp [bind, Except.bind, pure, Except.pure]
      · exact hasPlainLiteral_literalPart
  | cons segment rest ih =>
      rw [List.flatMap_cons]
      cases segment with
      | literal text =>
          rw [TextSegment.written, String.toList_ofList, templateParts_doubleBraces]
          obtain ⟨parts, hparts, hshows, hplain⟩ := ih start
            (offset + byteLength (Ast.doubleBraces text.toList)) (text.toList.reverse ++ literal)
          refine ⟨parts, hparts, ?_, hplain⟩
          rw [hshows, TextSegment.textsIn, TextSegment.textIn]
          cases TextSegment.textsIn s rest with
          | error e => rfl
          | ok more => simp [bind, Except.bind, pure, Except.pure, String.append_assoc]
      | formula text ast reads =>
          obtain ⟨tokens, htokens, -⟩ : ∃ tokens, scanFormula 0 text.toList = .ok tokens ∧ _ :=
            FormulaParser.exists_of_bind_eq_ok reads
          obtain ⟨placed, hplaced, hranges⟩ := Ast.read_elsewhere reads (offset + 1)
          let next := offset + byteLength text.toList + 2
          obtain ⟨later, hlater, hshows, hplain⟩ := ih next next []
          have hwritten : (TextSegment.formula text ast reads).written.toList ++
              rest.flatMap (·.written.toList) =
                '{' :: (text.toList ++ '}' :: rest.flatMap (·.written.toList)) := by
            simp [TextSegment.written, Ast.bracedText]
          refine ⟨literalPart start literal offset ++ placed :: later, ?_, ?_, ?_⟩
          · rw [hwritten, templateParts_bracedText (ne_brace_of_scan htokens)
              (closesAfter_of_scan htokens), hplaced]
            simp only [bind, Except.bind]
            rw [hlater]
            rfl
          · rw [evaluateText_append, evaluateText_literalPart, Ast.evaluateText, hshows,
              TextSegment.textsIn, TextSegment.textIn,
              ← Ast.evaluate_of_withoutRanges_eq hranges s, Ast.evaluate]
            cases placed.evaluateWith s.environment with
            | error e => rfl
            | ok v =>
                cases TextSegment.textsIn s rest with
                | error e => rfl
                | ok more => simp [bind, Except.bind, pure, Except.pure, Except.map]
          · intro part hpart
            rcases List.mem_append.mp hpart with hpart | hpart
            · exact hasPlainLiteral_literalPart part hpart
            · rcases List.mem_cons.mp hpart with rfl | hpart
              · exact Ast.hasPlainLiteral_of_read hplaced
              · exact hplain part hpart

/-! ### Expressions of text -/

/-- The formula of parts shows what the parts show. -/
theorem evaluate_ofParts {s : Scope α} {text : Except EvalError String} {parts : List (Ast α)}
    (h : Shows s text parts) (range : ByteRange) :
    ((ofParts range parts).evaluate s).map Value.text = text := by
  have hinterpolation (ps : List (Ast α)) :
      ((Ast.interpolation ps range).evaluate s).map Value.text =
        Ast.evaluateText s.environment ps := by
    rw [Ast.evaluate, Ast.evaluateWith]
    cases Ast.evaluateText s.environment ps <;> rfl
  rw [← h.evaluate_eq]
  unfold ofParts
  split
  · rw [Ast.evaluate, Ast.evaluateWith, Ast.evaluateText]
    rfl
  · rename_i part
    split
    · rw [Ast.evaluate, Ast.evaluateText, Ast.evaluateText]
      cases part.evaluateWith s.environment with
      | error e => rfl
      | ok v => simp [bind, Except.bind, pure, Except.pure, Except.map]
    · exact hinterpolation [part]
  · exact hinterpolation _

theorem exists_string_of_interpolation {s : Scope α} {parts : List (Ast α)} {range : ByteRange}
    {v : Value α} (h : (Ast.interpolation parts range).evaluate s = .ok v) :
    ∃ text, v = .string text := by
  rw [Ast.evaluate, Ast.evaluateWith] at h
  obtain ⟨text, -, htext⟩ := FormulaParser.exists_of_bind_eq_ok h
  cases htext
  exact ⟨text, rfl⟩

/-- The value of the formula of parts is plain. -/
theorem isPlain_of_ofParts {s : Scope α} {text : Except EvalError String} {parts : List (Ast α)}
    (h : Shows s text parts) {range : ByteRange} {v : Value α}
    (hv : (ofParts range parts).evaluate s = .ok v) : v.IsPlain := by
  have hinterpolation (ps : List (Ast α))
      (hps : (Ast.interpolation ps range).evaluate s = .ok v) : v.IsPlain := by
    obtain ⟨shown, rfl⟩ := exists_string_of_interpolation hps
    rfl
  unfold ofParts at hv
  split at hv
  · rw [Ast.evaluate, Ast.evaluateWith] at hv
    cases hv
    rfl
  · rename_i part
    split at hv
    · rename_i hliteral
      obtain ⟨w, hw⟩ := Option.isSome_iff_exists.mp hliteral
      obtain rfl : w = v :=
        Except.ok.inj ((Ast.evaluateWith_of_literal? hw).symm.trans hv)
      exact h.plain part List.mem_cons_self w hw
    · exact hinterpolation [part] hv
  · exact hinterpolation _ hv

/-- A template whose value is plain is read as an expression of its text. -/
theorem readAs_of_template {context : LiteralContext α} {text : String} {ast : Ast α}
    (htemplate : (Fragment.ofString text 0).template context.scope = .ok ast)
    (hplain : ∀ v, ast.evaluate context.scope = .ok v → v.IsPlain) :
    ∃ e : Expression α String, readAs context text = .ok e ∧
      e.evaluate context.scope = (ast.evaluate context.scope).map Value.text := by
  have hreadTyped : readTyped context .string (Fragment.ofString text 0) =
      (Fragment.ofString text 0).settle .string ast := by
    rw [readTyped, htemplate]
    rfl
  cases hliteral : ast.literal? with
  | none =>
      refine ⟨.formula ⟨ast, .string⟩, ?_, ?_⟩
      · change (readTyped context .string (Fragment.ofString text 0) >>= _) = _
        rw [hreadTyped, Fragment.settle, hliteral]
        rfl
      · change (ast.evaluate context.scope >>= Value.plainText) = _
        cases hv : ast.evaluate context.scope with
        | error e => rfl
        | ok v => exact hplain v hv
  | some v =>
      have hv : ast.evaluate context.scope = .ok v := Ast.evaluateWith_of_literal? hliteral
      refine ⟨.constant v.text, ?_, ?_⟩
      · change (readTyped context .string (Fragment.ofString text 0) >>= _) = _
        rw [hreadTyped, Fragment.settle, hliteral]
        simp only [(hplain v hv).coerce]
        rfl
      · rw [hv]
        rfl

/-- Templates mean concatenation: text that is written segment by segment is read as an expression
of text, and its value in the scope is the texts of the segments one after another, or the error of
the first formula that has none. -/
theorem readAs_written (context : LiteralContext α) (segments : List (TextSegment α)) :
    ∃ e : Expression α String,
      readAs context (String.join (segments.map TextSegment.written)) = .ok e ∧
        e.evaluate context.scope = TextSegment.textsIn context.scope segments := by
  let text := String.join (segments.map TextSegment.written)
  obtain ⟨parts, hparts, hshows⟩ := exists_templateParts context.scope 0 0 [] segments
  let whole := ofParts (Fragment.ofString text 0).range parts
  have htemplate : (Fragment.ofString text 0).template context.scope =
      .ok (whole.fold context.scope) := by
    have hchars : (Fragment.ofString text 0).chars =
        segments.flatMap (·.written.toList) := by
      simp [text, Fragment.ofString, List.flatMap_map]
    rw [Fragment.template, hchars]
    change (templateParts 0 [] 0 _ >>= _) = _
    rw [hparts]
    rfl
  have hvalue : (whole.fold context.scope).evaluate context.scope =
      whole.evaluate context.scope :=
    Ast.evaluateWith_foldWith context.scope.environment_knows_shadows whole
  obtain ⟨e, hread, he⟩ := readAs_of_template htemplate fun v hv =>
    isPlain_of_ofParts hshows (hvalue ▸ hv)
  refine ⟨e, hread, ?_⟩
  rw [he, hvalue, evaluate_ofParts hshows]
  cases TextSegment.textsIn context.scope segments with
  | error e => rfl
  | ok shown => simp [bind, Except.bind, pure, Except.pure]

/-- Doubled braces right beside those of a formula. -/
theorem readAs_written_braces :
    let context : LiteralContext Float := ⟨.empty, none⟩
    ∃ e : Expression Float String,
      readAs context "\x7b\x7b\x7b1 + 1\x7d\x7d\x7d" = .ok e ∧ e.evaluate .empty = .ok "\x7b2\x7d" := by
  intro context
  let ast : Ast Float :=
    .binary .add (.literal (.int 1) ⟨0, 1⟩) (.literal (.int 1) ⟨4, 5⟩) ⟨0, 5⟩
  have hread : Ast.read (Fragment.ofString "1 + 1" 0) = .ok ast := by cbv
  have hvalue : ast.evaluate .empty = .ok (.int 2) := by
    simp only [ast, Ast.evaluate, Ast.evaluateWith]
    rfl
  let segments : List (TextSegment Float) :=
    [.literal "\x7b", .formula "1 + 1" ast hread, .literal "\x7d"]
  obtain ⟨e, he, hevaluate⟩ := readAs_written context segments
  refine ⟨e, he, ?_⟩
  rw [hevaluate]
  simp only [segments, TextSegment.textsIn, TextSegment.textIn, context, hvalue]
  rfl

end PatternMarkup
