import BracketLang.Typing.Statement

/-! Checking programs. All functions are declared first, so that a call may come before the
function it calls; then each body is checked in a scope that holds the parameters. -/

namespace BracketLang

namespace Function

/-- The type of the result. -/
def resultType (f : Function) : Ty := .ofName f.returnType.name

/-- The types of the parameters. -/
def paramTypes (f : Function) : List Ty := f.params.map fun p => .ofName p.type.name

/-- Declares a function in the global scope. -/
def declare (table : SymbolTable) (path : Path) (f : Function) : Check SymbolTable :=
  .orReport table <| table.defineFunction f.name f.resultType f.paramTypes f.span.start
    (some ⟨path, .function, f.span⟩)

/-- Declares parameters in the innermost scope; one with a name that is taken is reported and
left out. -/
def declareParams (table : SymbolTable) : List Param → Check SymbolTable
  | [] => pure table
  | p :: ps => do
    let table ← .orReport table (table.defineVar p.name (.ofName p.type.name) p.location none)
    declareParams table ps

/-- Checks a body in a scope that the parameters share with it. -/
def check (levels : Nat) (table : SymbolTable) (path : Path) (f : Function) :
    Check SymbolTable := do
  let table := table.enter .function f.name (some f.resultType)
  let table ← declareParams table f.params
  let table ← Stmt.checkAll levels table ((f.params.length + 1) :: path) 0 f.body.body
  return table.leave

/-- Declares functions, the first of which has the given index. -/
def declareAll (table : SymbolTable) : (index : Nat) → List Function → Check SymbolTable
  | _, [] => pure table
  | index, f :: fs => do
    let table ← f.declare table [index]
    declareAll table (index + 1) fs

/-- Checks the bodies of functions, the first of which has the given index. -/
def checkAll (levels : Nat) (table : SymbolTable) :
    (index : Nat) → List Function → Check SymbolTable
  | _, [] => pure table
  | index, f :: fs => do
    let table ← f.check levels table [index]
    checkAll levels table (index + 1) fs

end Function

/-- Checks a program: first what it declares, then the bodies, with so many levels for each
expression. -/
def Program.check (levels : Nat) (p : Program) : Check SymbolTable := do
  let table ← Function.declareAll .empty 0 p.functions
  Function.checkAll levels table 0 p.functions

/-- What is known of a program after it was checked. -/
structure Analysis where
  program : Program
  table : SymbolTable
  errors : List SemanticError
  types : List (Path × Ty)

namespace Analysis

/-- Checks a program. -/
def ofProgram (levels : Nat) (p : Program) : Analysis :=
  let check := p.check levels
  ⟨p, check.result.getD .empty, check.errors, check.types⟩

def hasErrors (a : Analysis) : Bool := !a.errors.isEmpty

/-- The type noted for a node. -/
def typeAt? (a : Analysis) (path : Path) : Option Ty := a.types.lookup path

end Analysis

end BracketLang
