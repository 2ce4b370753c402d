import BracketLang.Grammar.Statement

/-! Reading functions and whole programs. An error in the header of a function drops the function;
reading goes on at the next one. The levels of the stack are for the statements of a function, all
of them for each function; its body itself always fits. -/

namespace BracketLang

namespace Parser

def param : Parser Param := do
  visit .param
  let name ← consume .identifier
  let _ ← consume .colon
  let type ← typeName
  return ⟨name.lexeme, type, name.location⟩

/-- The parameters of a function, without the parentheses around them. -/
def params : Parser (List Param) := items param

def function (room : Nat) : Parser Function := do
  visit .function
  let start ← consume .funcWord
  let name ← consume .identifier
  let _ ← consume .leftParen
  let params ← params
  let _ ← consume .rightParen
  let _ ← consume .arrow
  let returnType ← typeName
  let body ← blockWithin (room + 1)
  return ⟨name.lexeme, params, returnType, body, ← spanFrom start.location⟩

/-- A function, or nothing if its header has an error in it; the error is put on record. -/
def functionOrSkip (room : Nat) : StateM ParserState (Option Function) := fun s =>
  match function room s with
  | .ok f s' => (some f, s')
  | .error e s' => (none, (s'.record e).move (.resumeAtFunction s.position))

/-- The functions up to the end of input, `n` of them at most. -/
def functions (room : Nat) : (n : Nat) → StateM ParserState (List Function)
  | 0 => return []
  | n + 1 => do
    if (← get).atEnd then
      return []
    else
      let f ← functionOrSkip room
      let fs ← functions room n
      return f.toList ++ fs

/-- From the first token to the last, whether or not they were taken. -/
def spanOf (tokens : List Token) : Span :=
  match tokens with
  | [] => .point .origin
  | t :: _ => ⟨t.location, (tokens.getLastD t).location⟩

/-- A whole program, read from its first token on. Errors are put on record and never escape. -/
def program (room : Nat) : StateM ParserState Program := do
  modify ParserState.restart
  let functions ← functions room (← get).rest.length
  return ⟨functions, spanOf (← get).tokens⟩

end Parser

/-- What became of a list of tokens: the program, as far as it could be read, and the state in
which reading ended. -/
structure Parsed where
  program : Program
  state : ParserState

/-- Reads a program, with a stack of so many levels. -/
def Parsed.ofTokens (stack : Nat) (tokens : List Token) : Parsed :=
  let (program, state) := (Parser.program stack).run (.ofTokens tokens)
  ⟨program, state⟩

end BracketLang
