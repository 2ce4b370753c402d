import BracketLang.Grammar.Cursor
import BracketLang.Tree.Basic

/-! Reading expressions by precedence climbing. An expression is an operand followed by binary
operators and their right operands; the operators have to bind at least as tightly as a given
level, and a right operand only holds operators that bind tighter than the one before it. Unary
operators, parentheses, arguments and right operands each open one level, of which there may be
`maxExpressionDepth`. -/

namespace BracketLang.Parser

/-- The error for a token that starts no expression. -/
def noExpression (token : Token) : SyntaxError :=
  if token.kind = .eof then
    ⟨.unterminatedExpression "an expression", token⟩
  else
    ⟨.unexpected TokenKind.expressionStarts (some "expression"), token⟩

/-- An expression that stands on its own: in parentheses, as an argument or in a statement. -/
def wholeExpression (sub : Precedence → Parser Expr) (least : Precedence) : Parser Expr := do
  visit .expression
  sub least

/-- The arguments of a call whose name was just taken. -/
def callOf (sub : Precedence → Parser Expr) (name : Token) : Parser Expr := do
  visit .call
  let _ ← advance
  let args ← items (wholeExpression sub .or)
  let closing ← closeParen
  return .call name.lexeme args ⟨name.location, closing.location⟩

/-- What an expression starts with: a literal, a name, a call, a unary operator and its operand,
or an expression in parentheses, which leave no trace in the tree. -/
def operand (sub : Precedence → Parser Expr) : Parser Expr := do
  let token ← peek
  match token.kind with
  | .integer =>
    let token ← advance
    return .integer token.value (.point token.location)
  | .trueWord | .falseWord =>
    let token ← advance
    return .boolean (token.kind = .trueWord) (.point token.location)
  | .identifier =>
    let token ← advance
    if ← check .leftParen then
      callOf sub token
    else
      return .var token.lexeme (.point token.location)
  | .minus | .not =>
    let token ← advance
    let e ← sub .unary
    return .unary token.lexeme e ⟨token.location, e.span.finish⟩
  | .leftParen =>
    let _ ← advance
    let e ← wholeExpression sub .or
    let _ ← closeParen
    return e
  | _ => throw (noExpression token)

/-- The binary operators behind an operand, `n` of them at most, each with its right operand. -/
def operators (sub : Precedence → Parser Expr) (least : Precedence) :
    (n : Nat) → Expr → Parser Expr
  | 0, left => return left
  | n + 1, left => do
    if least ≤ (← peek).kind.precedence then
      let token ← advance
      let right ← sub token.kind.precedence.tighter
      operators sub least n (.binary left token.lexeme right ⟨left.span.start, right.span.finish⟩)
    else
      return left

/-- An expression whose operators bind at least as tightly as `least`, with `levels` levels left
to open. Each operator takes a token or fails at the end, so one more than the tokens to come
bounds their number. -/
def climb : (levels : Nat) → (least : Precedence) → Parser Expr
  | 0, _ => do
    let token ← peek
    if token.kind ∈ TokenKind.expressionStarts then
      throw ⟨.nestingTooDeep maxExpressionDepth, token⟩
    else
      throw (noExpression token)
  | levels + 1, least => nested do
    let left ← operand (climb levels)
    operators (climb levels) least ((← remaining) + 1) left

/-- An expression whose operators bind at least as tightly as `least`, read on its own, where the
stack has room for all levels that it may open. -/
def expressionAt (least : Precedence) : Parser Expr := do
  let depth := (← get).depth
  wholeExpression (climb (maxExpressionDepth - depth)) least

/-- An expression in a statement, with room on the stack for `room` levels. It may open no more of
them, also where `maxExpressionDepth` would let it. -/
def expression (room : Nat) : Parser Expr := do
  let depth := (← get).depth
  wholeExpression (climb (min room (maxExpressionDepth - depth))) .or

end BracketLang.Parser
