import BracketLang.Grammar.Expression

/-! Reading statements and blocks. A statement with an error in it is dropped: the error is put on
record, the tokens up to the next place where reading can go on are skipped, and the block goes
on from there. A block that the end of input or the next function cuts short is put on record too
and keeps its statements.

Blocks inside each other and the expressions in them lie on one stack. It is counted in levels, of
which a block takes one and an expression as many as it opens; `room` says how many more there are.
Where a level does not fit, the statement that it is for has an error in it, the one of an
expression that nests too deep, at the token in front of which reading had to stop. -/

namespace BracketLang.Parser

/-- The name of a type. -/
def typeName : Parser TypeName := do
  let token ← peek
  if token.kind ∈ TokenKind.typeStarts then
    let _ ← advance
    return ⟨token.lexeme, .point token.location⟩
  else
    throw ⟨.unexpected TokenKind.typeStarts none, token⟩

/-- From the location of a first token to that of the token taken last. -/
def spanFrom (start : Location) : Parser Span := return ⟨start, (← previous).location⟩

def letStatement (room : Nat) : Parser Stmt := do
  visit .letVar
  let start ← consume .letWord
  let name ← consume .identifier
  let _ ← consume .colon
  let type ← typeName
  let _ ← consume .assign
  let initializer ← expression room
  let _ ← consume .semicolon
  return .letVar name.lexeme type initializer (← spanFrom start.location)

def assignment (room : Nat) : Parser Stmt := do
  visit .assign
  let name ← consume .identifier
  let _ ← consume .assign
  let value ← expression room
  let _ ← consume .semicolon
  return .assign name.lexeme value (← spanFrom name.location)

def ifStatement (room : Nat) (block : Parser Block) : Parser Stmt := do
  visit .ifBranch
  let start ← consume .ifWord
  let condition ← expression room
  let body ← block
  if ← accept .elseWord then
    let otherwise ← block
    return .ifElse condition body.body body.span otherwise.body otherwise.span
      (← spanFrom start.location)
  else
    return .ifThen condition body.body body.span (← spanFrom start.location)

def whileStatement (room : Nat) (block : Parser Block) : Parser Stmt := do
  visit .whileLoop
  let start ← consume .whileWord
  let condition ← expression room
  let body ← block
  return .whileLoop condition body.body body.span (← spanFrom start.location)

def returnStatement (room : Nat) : Parser Stmt := do
  visit .ret
  let start ← consume .returnWord
  let value ← if ← check .semicolon then pure none else some <$> expression room
  let _ ← consume .semicolon
  return .ret value (← spanFrom start.location)

def printStatement (room : Nat) : Parser Stmt := do
  visit .print
  let start ← consume .printWord
  let value ← expression room
  let _ ← consume .semicolon
  return .print value (← spanFrom start.location)

def expressionStatement (room : Nat) : Parser Stmt := do
  visit .exprStmt
  let value ← expression room
  let _ ← consume .semicolon
  return .expr value (← spanFrom value.span.start)

/-- A statement, told apart by its first token; a name in front of `=` starts an assignment. -/
def properStatement (room : Nat) (block : Parser Block) : Parser Stmt := do
  let c ← cursor
  match c.peek.kind with
  | .letWord => letStatement room
  | .ifWord => ifStatement room block
  | .whileWord => whileStatement room block
  | .returnWord => returnStatement room
  | .printWord => printStatement room
  | .identifier => if c.peekNext.kind = .assign then assignment room else expressionStatement room
  | _ => expressionStatement room

/-- A statement, or nothing if it has an error in it; the error is put on record, also if it is that
the stack is full. At least one token is taken, unless the block ends here. -/
def statementWith (room : Nat) (block : Parser Block) : Parser (Option Stmt) := fun s =>
  match properStatement room block s with
  | .ok stmt s' => .ok (some stmt) s'
  | .error e s' => .ok none ((s'.record e).move (.resume s.position))

/-- The statements up to the end of the block, `n` of them at most. -/
def statements (statement : Parser (Option Stmt)) : (n : Nat) → Parser (List Stmt)
  | 0 => return []
  | n + 1 => do
    if (← cursor).atBlockBoundary then
      return []
    else
      let s ← statement
      let ss ← statements statement n
      return s.toList ++ ss

/-- The error for a token in front of which no block can begin. A bracket would open one, so there
it is the stack that is full. -/
def noBlock (token : Token) : SyntaxError :=
  if token.kind = .leftBracket then
    ⟨.nestingTooDeep maxExpressionDepth, token⟩
  else
    ⟨.unexpected [.leftBracket] none, token⟩

/-- Statements between brackets, with room on the stack for `room` levels, the block's own among
them. -/
def blockWithin : (room : Nat) → Parser Block
  | 0 => do
    visit .block
    throw (noBlock (← peek))
  | room + 1 => do
    visit .block
    let opening ← consume .leftBracket
    let body ← statements (statementWith room (blockWithin room)) (← remaining)
    if ← check .rightBracket then
      let closing ← advance
      return ⟨body, ⟨opening.location, closing.location⟩⟩
    else
      record ⟨.unterminatedBlock opening.location, ← peek⟩
      return ⟨body, ← spanFrom opening.location⟩

/-- A statement, or nothing if it has an error in it. -/
def statement (room : Nat) : Parser (Option Stmt) := statementWith room (blockWithin room)

end BracketLang.Parser
