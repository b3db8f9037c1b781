import PatternMarkup.Formula.Builtin
import PatternMarkup.Formula.Parser
import PatternMarkup.Formula.Scope
/-!
Folding: subtrees whose value is known without reading any name become literals. What fails
stays as it is, so that the error comes up at evaluation.
-/

namespace PatternMarkup.Ast

variable {α : Type} [Number α]

/-- The literal of a result, or the formula itself after an error. -/
def literalOr (result : Except EvalError (Value α)) (otherwise : Ast α) : Ast α :=
  match result with
  | .ok v => .literal v otherwise.range
  | .error _ => otherwise

/-- The literal of an operation on literals, or the formula itself. -/
def foldOnLiterals (operands : List (Ast α))
    (operation : List (Value α) → Except EvalError (Value α)) (otherwise : Ast α) : Ast α :=
  match literals? operands with
  | some values => literalOr (operation values) otherwise
  | none => otherwise

/-- The branch of a conditional of literals, or the conditional itself. -/
def foldConditional (condition then_ else_ : Ast α) (range : ByteRange) : Ast α :=
  match condition.literal?, then_.isLiteral, else_.isLiteral with
  | some (.bool c), true, true => if c then then_ else else_
  | _, _, _ => .conditional condition then_ else_ range

mutual

/-- Folds a formula; `hidden` tells which names a scope gives another meaning. -/
def foldWith (hidden : String → Bool) : Ast α → Ast α
  | literal value range => .literal value range
  | name n range =>
      match (if hidden n then none else Builtin.constant? n) with
      | some value => .literal value range
      | none => .name n range
  | list items range =>
      let items := foldAll hidden items
      foldOnLiterals items (fun values => .ok (.list values)) (.list items range)
  | unary op operand range =>
      let operand := operand.foldWith hidden
      match operand.literal? with
      | some v => literalOr (op.apply v) (.unary op operand range)
      | none => .unary op operand range
  | binary op left right range =>
      let left := left.foldWith hidden
      let right := right.foldWith hidden
      match left.literal?, right.literal? with
      | some v, some w => literalOr (op.apply v w) (.binary op left right range)
      | _, _ => .binary op left right range
  | conditional condition then_ else_ range =>
      foldConditional (condition.foldWith hidden) (then_.foldWith hidden) (else_.foldWith hidden)
        range
  | call function arguments range =>
      let arguments := foldAll hidden arguments
      if hidden function then .call function arguments range
      else foldOnLiterals arguments (Builtin.callNamed function) (.call function arguments range)
  | member object m range =>
      let object := object.foldWith hidden
      match object.literal? with
      | some v => literalOr (v.member m) (.member object m range)
      | none => .member object m range
  | index object i range =>
      let object := object.foldWith hidden
      let i := i.foldWith hidden
      match object.literal?, i.literal? with
      | some v, some w => literalOr (v.item w) (.index object i range)
      | _, _ => .index object i range
  | interpolation parts range =>
      let parts := foldAll hidden parts
      foldOnLiterals parts (fun values => .ok (.string (String.join (values.map Value.text))))
        (.interpolation parts range)

/-- Folds several formulas. -/
def foldAll (hidden : String → Bool) : List (Ast α) → List (Ast α)
  | [] => []
  | ast :: rest => ast.foldWith hidden :: foldAll hidden rest

end

/-- Folds a formula in a scope. -/
def fold (s : Scope α) (ast : Ast α) : Ast α := ast.foldWith s.shadows

/-- Reads a piece of text as one formula and folds it. -/
def readFolded (s : Scope α) (text : Fragment) : Except FormatError (Ast α) :=
  (Ast.read text).map (fold s)

end PatternMarkup.Ast
