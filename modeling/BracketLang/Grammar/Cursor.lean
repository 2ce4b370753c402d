import BracketLang.Grammar.Error

/-! Reading tokens from left to right. A `Cursor` stands between the tokens that were taken and
those to come. Input that does not end in an end-of-file token reads as if it did, and the end is
never passed: taking a token there leaves the cursor where it is. -/

namespace BracketLang

/-- The grammar's productions. -/
inductive Production where
  | function | param | block
  | letVar | assign | ifBranch | whileLoop | ret | print | exprStmt
  | expression | call
deriving DecidableEq, Repr

/-- The name under which the log shows a production. -/
def Production.name : Production → String
  | function => "func"
  | param => "param"
  | block => "block"
  | letVar => "let"
  | assign => "assign"
  | ifBranch => "if"
  | whileLoop => "while"
  | ret => "return"
  | print => "print"
  | exprStmt => "expr_stmt"
  | expression => "expression"
  | call => "call"

/-- A production that was begun, and the token in front of the cursor then. -/
structure Visit where
  production : Production
  token : Token
deriving DecidableEq, Repr

/-- A place in a list of tokens: those taken, last first, and those to come. -/
structure Cursor where
  before : List Token
  rest : List Token
deriving DecidableEq, Repr

namespace Cursor

/-- The place in front of the first token. -/
def ofTokens (tokens : List Token) : Cursor := ⟨[], tokens⟩

/-- All tokens, taken or not. -/
def tokens (c : Cursor) : List Token := c.before.reverse ++ c.rest

/-- How many tokens were taken. -/
def position (c : Cursor) : Nat := c.before.length

/-- The end-of-file token behind the last one. -/
def implicitEof (c : Cursor) : Token :=
  .eofAt <| match c.before with
    | t :: _ => t.location
    | [] => .origin

/-- The token in front of the cursor. -/
def peek (c : Cursor) : Token :=
  match c.rest with
  | t :: _ => t
  | [] => c.implicitEof

/-- The token behind the one in front of the cursor. -/
def peekNext (c : Cursor) : Token :=
  match c.rest with
  | _ :: t :: _ => t
  | [t] => .eofAt t.location
  | [] => c.implicitEof

/-- The token taken last, or the one in front of the cursor if none was taken. -/
def previous (c : Cursor) : Token :=
  match c.before with
  | t :: _ => t
  | [] => c.peek

/-- Whether the next token is of this kind. -/
def check (c : Cursor) (kind : TokenKind) : Bool := c.peek.kind = kind

/-- Whether there is nothing left to take. -/
def atEnd (c : Cursor) : Bool := c.check .eof

/-- Whether a function starts here, or nothing is left. -/
def atFunctionBoundary (c : Cursor) : Bool := c.check .funcWord || c.atEnd

/-- Whether no statement of the block can start here. -/
def atBlockBoundary (c : Cursor) : Bool := c.check .rightBracket || c.atFunctionBoundary

/-- Moves over one token, unless at the end. -/
def advance (c : Cursor) : Cursor :=
  match c.rest with
  | [] => c
  | t :: ts => if t.kind = .eof then c else ⟨t :: c.before, ts⟩

/-- Moves over everything up to the next place where reading can go on: behind the next semicolon,
or in front of the next token that starts a statement or bounds the block. -/
def skipStatement : (before rest : List Token) → Cursor
  | before, [] => ⟨before, []⟩
  | before, t :: ts =>
    if t.kind = .semicolon then ⟨t :: before, ts⟩
    else if t.kind.isResumePoint then ⟨before, t :: ts⟩
    else skipStatement (t :: before) ts

/-- Moves in front of the next function. -/
def skipFunction : (before rest : List Token) → Cursor
  | before, [] => ⟨before, []⟩
  | before, t :: ts =>
    if t.kind = .funcWord ∨ t.kind = .eof then ⟨before, t :: ts⟩
    else skipFunction (t :: before) ts

/-- Goes on after an error in a statement. -/
def synchronize (c : Cursor) : Cursor := skipStatement c.before c.rest

/-- Goes on after an error in the statement that began at position `start`, and takes at least one
token unless the block ends here. -/
def resume (start : Nat) (c : Cursor) : Cursor :=
  let c := c.synchronize
  if c.position = start ∧ !c.atBlockBoundary then c.advance else c

/-- Goes on after an error in the function that began at position `start`, and takes at least one
token. -/
def resumeAtFunction (start : Nat) (c : Cursor) : Cursor :=
  let c := if c.position = start then c.advance else c
  skipFunction c.before c.rest

/-! Moving never changes which tokens there are. -/

@[simp] theorem tokens_ofTokens (tokens : List Token) : (ofTokens tokens).tokens = tokens := rfl

@[simp] theorem tokens_advance (c : Cursor) : c.advance.tokens = c.tokens := by
  obtain ⟨before, _ | ⟨t, ts⟩⟩ := c
  · rfl
  · by_cases h : t.kind = .eof <;> simp [advance, tokens, h]

theorem tokens_skipStatement (before rest : List Token) :
    (skipStatement before rest).tokens = before.reverse ++ rest := by
  fun_induction skipStatement before rest <;> simp_all [tokens]

theorem tokens_skipFunction (before rest : List Token) :
    (skipFunction before rest).tokens = before.reverse ++ rest := by
  fun_induction skipFunction before rest <;> simp_all [tokens]

@[simp] theorem tokens_synchronize (c : Cursor) : c.synchronize.tokens = c.tokens :=
  tokens_skipStatement c.before c.rest

@[simp] theorem tokens_resume (start : Nat) (c : Cursor) : (c.resume start).tokens = c.tokens := by
  unfold resume
  dsimp only
  split <;> simp

@[simp] theorem tokens_resumeAtFunction (start : Nat) (c : Cursor) :
    (c.resumeAtFunction start).tokens = c.tokens := by
  unfold resumeAtFunction
  rw [tokens_skipFunction]
  split
  · exact tokens_advance c
  · rfl

/-- Everywhere but at the end, one token is taken. -/
theorem length_rest_advance {c : Cursor} (h : c.atEnd = false) :
    c.advance.rest.length + 1 = c.rest.length := by
  obtain ⟨before, _ | ⟨t, ts⟩⟩ := c
  · simp [atEnd, check, peek, implicitEof, Token.eofAt] at h
  · have h : t.kind ≠ .eof := of_decide_eq_false h
    simp [advance, h]

end Cursor

/-- The state of a parser: its cursor, how many expression levels are open, the errors recorded
and the productions begun. -/
structure ParserState extends Cursor where
  depth : Nat
  errors : List SyntaxError
  visits : List Visit
deriving DecidableEq, Repr

namespace ParserState

/-- A parser in front of the first token. -/
def ofTokens (tokens : List Token) : ParserState := ⟨.ofTokens tokens, 0, [], []⟩

/-- Moves the cursor. -/
def move (s : ParserState) (f : Cursor → Cursor) : ParserState :=
  { s with toCursor := f s.toCursor }

/-- Puts an error on record. -/
def record (s : ParserState) (e : SyntaxError) : ParserState :=
  { s with errors := s.errors ++ [e] }

/-- Puts the beginning of a production on record. -/
def visit (s : ParserState) (production : Production) : ParserState :=
  { s with visits := s.visits ++ [⟨production, s.peek⟩] }

/-- Goes back to the first token and forgets the errors. -/
def restart (s : ParserState) : ParserState :=
  { s with toCursor := .ofTokens s.tokens, depth := 0, errors := [] }

end ParserState

/-- A parser either gives a result or fails with an error; what it did to the state stays done
in both cases. -/
abbrev Parser := EStateM SyntaxError ParserState

namespace Parser

def cursor : Parser Cursor := do return (← get).toCursor

def peek : Parser Token := do return (← get).peek

def previous : Parser Token := do return (← get).previous

/-- How many tokens are to come. -/
def remaining : Parser Nat := do return (← get).rest.length

def check (kind : TokenKind) : Parser Bool := do return (← get).check kind

/-- Takes the next token and gives it; at the end, gives the one taken last. -/
def advance : Parser Token := do
  modify (·.move .advance)
  previous

/-- Takes the next token if it is of this kind. -/
def accept (kind : TokenKind) : Parser Bool := do
  if ← check kind then
    let _ ← advance
    return true
  else
    return false

/-- Takes the next token, which has to be of this kind. -/
def consume (kind : TokenKind) : Parser Token := do
  if ← check kind then
    advance
  else
    throw ⟨.unexpected [kind] none, ← peek⟩

/-- Takes a closing parenthesis; the end of input in its place is an error of its own. -/
def closeParen : Parser Token := do
  if ← check .eof then
    throw ⟨.unterminatedExpression "')'", ← peek⟩
  else
    consume .rightParen

/-- Puts the beginning of a production on record. -/
def visit (production : Production) : Parser Unit := modify (·.visit production)

/-- Puts an error on record and goes on. -/
def record (e : SyntaxError) : Parser Unit := modify (·.record e)

@[simp] theorem peek_run (s : ParserState) : peek s = .ok s.peek s := rfl

@[simp] theorem check_run (kind : TokenKind) (s : ParserState) :
    check kind s = .ok (s.check kind) s := rfl

@[simp] theorem advance_run (s : ParserState) :
    advance s = .ok (s.move .advance).previous (s.move .advance) := rfl

theorem consume_run (kind : TokenKind) (s : ParserState) :
    consume kind s =
      if s.check kind then .ok (s.move .advance).previous (s.move .advance)
      else .error ⟨.unexpected [kind] none, s.peek⟩ s := by
  unfold consume
  cases h : s.check kind with
  | false => simp [bind, EStateM.bind, h]; rfl
  | true => simp [bind, EStateM.bind, h]

/-- Runs a parser one level deeper; the level is left however the parser ends. -/
def nested {α : Type} (p : Parser α) : Parser α := fun s =>
  match p { s with depth := s.depth + 1 } with
  | .ok a s => .ok a { s with depth := s.depth - 1 }
  | .error e s => .error e { s with depth := s.depth - 1 }

/-- Further items, one behind every comma. There are no more of them than `n`, the number of
tokens to come. -/
def moreItems {α : Type} (item : Parser α) : (n : Nat) → Parser (List α)
  | 0 => return []
  | n + 1 => do
    if ← accept .comma then
      let x ← item
      let xs ← moreItems item n
      return x :: xs
    else
      return []

/-- Items between commas, up to a closing parenthesis, which is left where it is. -/
def items {α : Type} (item : Parser α) : Parser (List α) := do
  if ← check .rightParen then
    return []
  else
    let x ← item
    let xs ← moreItems item (← remaining)
    return x :: xs

end Parser

end BracketLang
