import BracketLang.Diagnostic
import BracketLang.Tree.Node

/-! What can be wrong with a program that reads well: names that nothing declares, names declared
twice, calls with the wrong number of arguments, types that do not agree, and expressions that
nest too deep to be checked. -/

namespace BracketLang

/-- Why a program does not check. -/
inductive SemanticError.Cause where
  /-- A value of type `actual` stands where `expected` is wanted; `context` says what wants it,
  and may be empty. -/
  | typeMismatch (expected actual context : String)
  /-- Nothing declares a variable; `similar` are names in scope that come close. -/
  | undeclaredVariable (name : String) (similar : List String)
  /-- Nothing declares a function; `similar` are functions whose names come close. -/
  | undeclaredFunction (name : String) (similar : List String)
  /-- A name was declared before, at `earlier`, in the same scope; `noun` says what is declared. -/
  | redeclaration (name noun : String) (earlier : Option Location)
  /-- A function takes `expected` arguments and was given `actual`. -/
  | arityMismatch (name : String) (expected actual : Int)
  /-- An expression nests deeper than the checker goes. -/
  | nestingTooDeep
deriving DecidableEq, Repr

/-- A cause, where it is, and the node that shows it. -/
structure SemanticError where
  cause : SemanticError.Cause
  location : Location
  node : Option NodeRef
deriving DecidableEq, Repr

namespace SemanticError

/-- The codes of semantic errors and what they stand for. -/
def codes : List (String × String) :=
  [("S001", "Type mismatch"), ("S010", "Undeclared variable"), ("S011", "Symbol redeclaration"),
    ("S015", "Undeclared function"), ("S050", "Arity mismatch"),
    ("S090", "Expression nested too deeply")]

def code (e : SemanticError) : String :=
  match e.cause with
  | .typeMismatch .. => "S001"
  | .undeclaredVariable .. => "S010"
  | .redeclaration .. => "S011"
  | .undeclaredFunction .. => "S015"
  | .arityMismatch .. => "S050"
  | .nestingTooDeep => "S090"

def kindName (e : SemanticError) : String :=
  match e.cause with
  | .typeMismatch .. => "TYPE_MISMATCH"
  | .undeclaredVariable .. => "UNDECLARED_VARIABLE"
  | .redeclaration .. => "REDECLARATION"
  | .undeclaredFunction .. => "UNDECLARED_FUNCTION"
  | .arityMismatch .. => "ARITY_MISMATCH"
  | .nestingTooDeep => "NESTING_TOO_DEEP"

/-- A number of arguments in words. -/
def argumentCount (n : Int) : String := if n = 1 then s!"{n} argument" else s!"{n} arguments"

/-- The names that a name may have been meant for, three at most. -/
def didYouMean (similar : List String) : List String :=
  (similar.take 3).map fun name => s!"Did you mean '{name}'?"

def message (e : SemanticError) : String :=
  match e.cause with
  | .typeMismatch expected actual context =>
    let place := if context = "" then "" else s!" in {context}"
    s!"Type mismatch{place}: expected {expected}, found {actual}"
  | .undeclaredVariable name _ => s!"Undeclared variable: '{name}'"
  | .undeclaredFunction name _ => s!"Undeclared function: '{name}'"
  | .redeclaration name noun _ => s!"{Text.capitalized noun} '{name}' is already declared"
  | .arityMismatch name expected actual =>
    s!"Function '{name}' expects {argumentCount expected}, got {actual}"
  | .nestingTooDeep => "Expression nested too deeply to check"

def help (e : SemanticError) : String :=
  match e.cause with
  | .typeMismatch expected actual _ =>
    s!"The expression has type '{actual}' but '{expected}' was expected."
  | .undeclaredVariable name _ => s!"The variable '{name}' is not defined in the current scope."
  | .undeclaredFunction name _ => s!"No function named '{name}' is declared in this program."
  | .redeclaration name _ none => s!"'{name}' is already declared in this scope."
  | .redeclaration name _ (some earlier) =>
    s!"'{name}' is already declared in this scope at {earlier.text}."
  | .arityMismatch .. => "The function call has the wrong number of arguments."
  | .nestingTooDeep => "The analyzer ran out of stack while checking this statement."

def suggestions (e : SemanticError) : List String :=
  match e.cause with
  | .typeMismatch .. => ["Check the types in this expression"]
  | .undeclaredVariable name similar =>
    didYouMean similar ++ [s!"Declare '{name}' with 'let' before using it"]
  | .undeclaredFunction _ similar => didYouMean similar
  | .redeclaration _ noun _ => [s!"Rename this {noun}"]
  | .arityMismatch _ expected _ => [s!"Provide exactly {argumentCount expected}"]
  | .nestingTooDeep => ["Split the expression using intermediate 'let' bindings"]

/-- Other places that the error has to do with. -/
def related (e : SemanticError) : List Location :=
  match e.cause with
  | .redeclaration _ _ earlier => earlier.toList
  | _ => []

def diagnostic (e : SemanticError) : Diagnostic where
  message := e.message
  location := e.location
  severity := "error"
  code := e.code
  help := e.help
  suggestions := e.suggestions

/-- The rendered report, with the related places behind it. -/
def text (e : SemanticError) : String :=
  e.diagnostic.text ++
    if e.related = [] then "" else
      "Related locations:\n" ++ String.join (e.related.map fun l => s!"  --> {l.text}\n")

end SemanticError

end BracketLang
