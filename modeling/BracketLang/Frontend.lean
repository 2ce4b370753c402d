import BracketLang.Grammar.Program
import BracketLang.Lexeme.Scan
import BracketLang.Typing.Analysis

/-! The front end as a whole: text to tokens, tokens to a program, a program to an analysis. Each
stage works on what the one before could make of the input, keeps the errors of the stages before
it in front of its own, and adds to a log of what was done. The one thing that stops it is a
number with more digits than can be read. -/

namespace BracketLang

/-- An error of any stage. -/
inductive Fault where
  | lexical (error : LexicalError)
  | syntactic (error : SyntaxError)
  | semantic (error : SemanticError)
deriving DecidableEq, Repr

/-- Something that a stage did. -/
inductive LogEntry where
  | scanned (file : String) (tokens errors : Nat)
  | visited (visit : Visit)
  | parsed (functions errors : Nat)
  | analyzed (functions errors : Nat)
  | finished (file : String) (errors : Nat)
deriving DecidableEq, Repr

def LogEntry.message : LogEntry → String
  | scanned file tokens errors => s!"lexed {file}: {tokens} tokens, {errors} errors"
  | visited ⟨production, token⟩ =>
    s!"parse_{production.name}() at {token.location.text} ({token.kind.name})"
  | parsed functions errors => s!"parsed {functions} functions, {errors} errors"
  | analyzed functions errors => s!"analyzed {functions} functions, {errors} errors"
  | finished file errors => s!"{file}: {errors} errors"

/-- A source text holds a number of this many digits, more than can be read. -/
structure TooManyDigits where
  digits : Nat
deriving DecidableEq, Repr

/-- What a stage gives: its result, the errors so far and the log so far. -/
structure Staged (α : Type) where
  result : α
  faults : List Fault
  log : List LogEntry

namespace Frontend

/-- The tokens of a source text. -/
def tokenize (source file : String) : Except TooManyDigits (Staged (List Token)) :=
  let scan := Scan.ofSource file source.toList
  let tokens := scan.tokens file
  match scan.ending with
  | .tooManyDigits digits => .error ⟨digits⟩
  | .endOfSource => .ok
    { result := tokens
      faults := scan.errors.map .lexical
      log := [.scanned file tokens.length scan.errors.length] }

/-- The program that a source text holds, as far as it can be read with a stack of this size. -/
def parse (stack : Nat) (source file : String) : Except TooManyDigits (Staged Program) := do
  let scanned ← tokenize source file
  let parsed := Parsed.ofTokens stack scanned.result
  let errors := parsed.state.errors
  return {
    result := parsed.program
    faults := scanned.faults ++ errors.map .syntactic
    log := scanned.log ++ parsed.state.visits.map .visited ++
      [.parsed parsed.program.functions.length errors.length] }

/-- The program that a source text holds, and all that is wrong with it. Expressions are checked
with so many levels. -/
def analyze (stack levels : Nat) (source file : String) :
    Except TooManyDigits (Staged Program) := do
  let parsed ← parse stack source file
  let analysis := Analysis.ofProgram levels parsed.result
  let faults := parsed.faults ++ analysis.errors.map .semantic
  return {
    result := parsed.result
    faults
    log := parsed.log ++
      [.analyzed parsed.result.functions.length analysis.errors.length,
        .finished file faults.length] }

end Frontend

end BracketLang
