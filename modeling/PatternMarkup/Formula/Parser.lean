import PatternMarkup.Formula.Ast
import PatternMarkup.Formula.Lexer
/-!
Reading formulas. A conditional binds loosest, then the operators by their looseness, grouped to
the left, then signs before an operand, then members and indices. Every step takes at least one
token, so reading ends.
-/

namespace PatternMarkup

namespace FormulaParser

variable {α : Type} [Number α]

/-- A formula and the tokens after it, fewer than `bound`. -/
structure Parsed (α : Type) (bound : Nat) where
  ast : Ast α
  rest : List PlacedToken
  shorter : rest.length < bound

/-- The same formula under a greater bound. -/
def Parsed.within {a b : Nat} (p : Parsed α a) (h : a ≤ b) : Parsed α b :=
  ⟨p.ast, p.rest, Nat.lt_of_lt_of_le p.shorter h⟩

theorem length_lt_of_eq_cons {t : PlacedToken} {tokens rest : List PlacedToken} {bound : Nat}
    (h : tokens = t :: rest) (hbound : tokens.length < bound) : rest.length < bound := by
  rw [h] at hbound
  exact Nat.lt_of_succ_lt hbound

/-- Formulas between commas, the end of their closing sign, and the tokens after it. -/
structure ParsedItems (α : Type) (bound : Nat) where
  items : List (Ast α)
  stop : Nat
  rest : List PlacedToken
  shorter : rest.length < bound

/-- A closing sign's end and the tokens after it. -/
structure Closed (bound : Nat) where
  stop : Nat
  rest : List PlacedToken
  shorter : rest.length < bound

/-- The error of a token that cannot stand where it does. -/
def unexpected (α : Type) [Number α] (expected : String) (found : PlacedToken) : FormatError :=
  ⟨.unexpectedToken expected (found.token.shown α), found.range⟩

/-- The error of a formula that ends too early, at the byte `stop`. -/
def endedEarly (expected : String) (stop : Nat) : FormatError :=
  ⟨.unexpectedEnd expected, ⟨stop, stop⟩⟩

/-- Takes a sign that has to come next. -/
def expectSign (α : Type) [Number α] (stop : Nat) (sign : Sign) (tokens : List PlacedToken) :
    Except FormatError (Closed tokens.length) :=
  let expected := "'" ++ sign.text ++ "'"
  match tokens with
  | [] => .error (endedEarly expected stop)
  | t :: rest =>
      if t.token = .sign sign then .ok ⟨t.range.stop, rest, by simp⟩
      else .error (unexpected α expected t)

/-- The operator of the given looseness that comes next. -/
def operator? (looseness : Nat) (t : PlacedToken) : Option BinaryOp :=
  match t.token with
  | .sign s => s.binaryOp?.filter (·.looseness == looseness)
  | _ => none

/-- The operator before an operand that comes next. -/
def unaryOperator? (t : PlacedToken) : Option UnaryOp :=
  match t.token with
  | .sign s => s.unaryOp?
  | _ => none

/-- The value of a number as it is written: an integer if it is one and fits 64 bits. -/
def numberValue (written : List Char) : Value α :=
  let n := digitsValue 0 written
  if written.all Char.isDigit && Number.fitsInt n then .int (Int64.ofInt n)
  else .scalar (numeralValue written)

mutual

/-- Reads a formula. -/
def expression (stop : Nat) (tokens : List PlacedToken) :
    Except FormatError (Parsed α tokens.length) := do
  let condition ← operation stop BinaryOp.loosest tokens
  match hrest : condition.rest with
  | ⟨.sign .question, _⟩ :: rest =>
      have hlen : rest.length < tokens.length := length_lt_of_eq_cons hrest condition.shorter
      let then_ ← expression stop rest
      let colon ← expectSign α stop .colon then_.rest
      have hcolon : colon.rest.length < tokens.length :=
        Nat.lt_trans (Nat.lt_trans colon.shorter then_.shorter) hlen
      let else_ ← expression stop colon.rest
      let range := condition.ast.range.through else_.ast.range
      return ⟨.conditional condition.ast then_.ast else_.ast range, else_.rest,
        Nat.lt_trans else_.shorter hcolon⟩
  | _ => return condition
termination_by (tokens.length, BinaryOp.loosest + 3)

/-- Reads a formula whose operators are at most as loose as given. -/
def operation (stop : Nat) (looseness : Nat) (tokens : List PlacedToken) :
    Except FormatError (Parsed α tokens.length) :=
  match looseness with
  | 0 => unary stop tokens
  | k + 1 => do
      let first ← operation stop k tokens
      have := first.shorter
      let all ← operations stop k first.ast first.rest
      return all.within first.shorter
termination_by (tokens.length, looseness + 2)

/-- Reads on after an operand, as long as operators one step looser than `k` follow. -/
def operations (stop : Nat) (k : Nat) (left : Ast α) (tokens : List PlacedToken) :
    Except FormatError (Parsed α (tokens.length + 1)) :=
  match tokens with
  | [] => .ok ⟨left, [], by simp⟩
  | t :: rest =>
      match operator? (k + 1) t with
      | none => .ok ⟨left, t :: rest, by simp⟩
      | some op => do
          let right ← operation stop k rest
          have := right.shorter
          let all ← operations stop k (.ofBinary op left right.ast) right.rest
          return all.within (Nat.le_succ_of_le (Nat.le_succ_of_le right.shorter))
termination_by (tokens.length, 0)

/-- Reads an operand with the signs before it. -/
def unary (stop : Nat) (tokens : List PlacedToken) :
    Except FormatError (Parsed α tokens.length) :=
  match tokens with
  | [] => .error (endedEarly "a value" stop)
  | t :: rest =>
      match unaryOperator? t with
      | some op => do
          let operand ← unary stop rest
          return ⟨.unary op operand.ast (t.range.through operand.ast.range), operand.rest,
            Nat.lt_succ_of_lt operand.shorter⟩
      | none => do
          let first ← primary stop t rest
          have := first.shorter
          let all ← suffixes stop first.ast first.rest
          return all.within first.shorter
termination_by (tokens.length, 1)

/-- Reads on after a value, as long as members or indices follow. -/
def suffixes (stop : Nat) (object : Ast α) (tokens : List PlacedToken) :
    Except FormatError (Parsed α (tokens.length + 1)) :=
  match tokens with
  | ⟨.sign .dot, _⟩ :: ⟨.word name, range⟩ :: rest => do
      let all ← suffixes stop (.member object name (object.range.through range)) rest
      return all.within (Nat.le_add_right _ 2)
  | [⟨.sign .dot, _⟩] => .error (endedEarly "member name" stop)
  | ⟨.sign .dot, _⟩ :: found :: _ => .error (unexpected α "member name" found)
  | ⟨.sign .openBracket, _⟩ :: rest => do
      let index ← expression stop rest
      let close ← expectSign α stop .closeBracket index.rest
      have := index.shorter
      have := close.shorter
      let all ← suffixes stop (.index object index.ast ⟨object.range.start, close.stop⟩) close.rest
      return all.within
        (Nat.le_succ_of_le (Nat.le_succ_of_le (Nat.lt_trans close.shorter index.shorter)))
  | rest => .ok ⟨object, rest, by simp⟩
termination_by (tokens.length, 0)

/-- Reads a value that starts with the given token. -/
def primary (stop : Nat) (first : PlacedToken) (tokens : List PlacedToken) :
    Except FormatError (Parsed α (tokens.length + 1)) :=
  match first.token with
  | .number written => .ok ⟨.literal (numberValue written) first.range, tokens, by simp⟩
  | .text written =>
      .ok ⟨.literal (.string (String.ofList (unescape written))) first.range, tokens, by simp⟩
  | .truth b => .ok ⟨.literal (.bool b) first.range, tokens, by simp⟩
  | .word name =>
      match tokens with
      | ⟨.sign .openParen, _⟩ :: rest => do
          let arguments ← sequence stop .closeParen rest
          return ⟨.call name arguments.items ⟨first.range.start, arguments.stop⟩, arguments.rest,
            Nat.lt_succ_of_lt (Nat.lt_succ_of_lt arguments.shorter)⟩
      | rest => .ok ⟨.name name first.range, rest, by simp⟩
  | .sign .openParen => do
      let inner ← expression stop tokens
      let close ← expectSign α stop .closeParen inner.rest
      return ⟨inner.ast.withRange ⟨first.range.start, close.stop⟩, close.rest,
        Nat.lt_succ_of_lt (Nat.lt_trans close.shorter inner.shorter)⟩
  | .sign .openBracket => do
      let items ← sequence stop .closeBracket tokens
      return ⟨.list items.items ⟨first.range.start, items.stop⟩, items.rest,
        Nat.lt_succ_of_lt items.shorter⟩
  | .sign _ => .error (unexpected α "a value" first)
termination_by (tokens.length, BinaryOp.loosest + 6)

/-- Reads formulas between commas up to a closing sign; there may be none. -/
def sequence (stop : Nat) (close : Sign) (tokens : List PlacedToken) :
    Except FormatError (ParsedItems α tokens.length) :=
  match tokens with
  | [] => items stop close []
  | t :: rest =>
      if t.token = .sign close then .ok ⟨[], t.range.stop, rest, by simp⟩
      else items stop close (t :: rest)
termination_by (tokens.length, BinaryOp.loosest + 5)

/-- Reads at least one formula up to a closing sign. -/
def items (stop : Nat) (close : Sign) (tokens : List PlacedToken) :
    Except FormatError (ParsedItems α tokens.length) := do
  let first ← expression stop tokens
  have := first.shorter
  match hrest : first.rest with
  | ⟨.sign .comma, _⟩ :: rest =>
      have hlen : rest.length < tokens.length := length_lt_of_eq_cons hrest first.shorter
      let more ← items stop close rest
      return ⟨first.ast :: more.items, more.stop, more.rest, Nat.lt_trans more.shorter hlen⟩
  | _ =>
      let closed ← expectSign α stop close first.rest
      return ⟨[first.ast], closed.stop, closed.rest, Nat.lt_trans closed.shorter first.shorter⟩
termination_by (tokens.length, BinaryOp.loosest + 4)

end

/-- Reads all tokens of a text that ends at the byte `stop` as one formula. -/
def whole (stop : Nat) (tokens : List PlacedToken) : Except FormatError (Ast α) := do
  let parsed ← expression stop tokens
  match parsed.rest with
  | [] => return parsed.ast
  | t :: _ => throw (unexpected α "end of formula" t)

end FormulaParser

/-- Reads a piece of text as one formula. -/
def Ast.read {α : Type} [Number α] (text : Fragment) : Except FormatError (Ast α) := do
  FormulaParser.whole text.stop (← text.tokens)

end PatternMarkup
