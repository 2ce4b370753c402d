import BracketLang.Typing.Expression

/-! Checking statements. A statement is checked in the scopes around it and may declare a name for
those that follow it in its block; every block has a scope of its own. An error never keeps the
rest of a block from being checked. -/

namespace BracketLang

namespace Stmt

/-- A value whose type has to be `expected`. -/
def expectType (expected actual : Ty) (context : String) (e : Expr) (path : Path) : Check Unit :=
  if expected.compatible actual then return ()
  else .report (.mismatch expected actual context e.span.start (e.ref path))

/-- A condition has to be true or false. -/
def checkCondition (levels : Nat) (table : SymbolTable) (path : Path) (context : String)
    (e : Expr) : Check Unit := do
  let type ← e.check levels table path
  expectType .bool type context e path

/-- A declaration. Its name is bound after its initializer is checked, and whether or not that
has the right type. -/
def checkLet (levels : Nat) (table : SymbolTable) (node : NodeRef) (name : String)
    (type : TypeName) (initializer : Expr) : Check SymbolTable := do
  let declared := Ty.ofName type.name
  let actual ← initializer.check levels table (1 :: node.path)
  expectType declared actual s!"initializer of '{name}'" initializer (1 :: node.path)
  .annotate node.path declared
  .orReport table (table.defineVar name declared node.span.start (some node))

/-- An assignment. The value is checked also if the variable is not known. -/
def checkAssign (levels : Nat) (table : SymbolTable) (node : NodeRef) (name : String)
    (value : Expr) : Check Unit := do
  match table.findVar? name with
  | some symbol =>
    let actual ← value.check levels table (0 :: node.path)
    expectType symbol.type actual s!"assignment to '{name}'" value (0 :: node.path)
  | none =>
    let similar := table.similarNames name (some .var) SymbolTable.suggestionLimit
    .report ⟨.undeclaredVariable name similar, node.span.start, some node⟩
    let _ ← value.check levels table (0 :: node.path)

/-- What a statement returns is compared with what the function around it declares, if there is
a function around it. -/
def checkReturn (levels : Nat) (table : SymbolTable) (node : NodeRef) (value : Option Expr) :
    Check Unit := do
  let actual ← match value with
    | some e => e.check levels table (0 :: node.path)
    | none => pure .unit
  match table.functionScope? with
  | some { name, returnType := some expected, .. } =>
    if !expected.compatible actual then
      let location := match value with
        | some e => e.span.start
        | none => node.span.start
      .report (.mismatch expected actual s!"return from '{name}'" location node)
  | _ => return ()

/-- The report for a statement that nests too deep. -/
def tooDeep (node : NodeRef) : SemanticError := ⟨.nestingTooDeep, node.span.start, some node⟩

mutual

/-- Checks a statement and gives the scopes for those behind it. A block that stands where a
statement belongs is not looked into. -/
def check (levels : Nat) (table : SymbolTable) (path : Path) : Stmt → Check SymbolTable
  | letVar name type initializer span =>
    let node : NodeRef := ⟨path, .letVar, span⟩
    (checkLet levels table node name type initializer).orExhausted table (tooDeep node)
  | assign name value span =>
    let node : NodeRef := ⟨path, .assign, span⟩
    Check.orExhausted (do checkAssign levels table node name value; return table) table
      (tooDeep node)
  | ifThen condition body _ span =>
    let node : NodeRef := ⟨path, .ifBranch, span⟩
    Check.orExhausted (do
      checkCondition levels table (0 :: path) "if condition" condition
      let table ← checkAll levels (table.enter .block "if" none) (1 :: path) 0 body
      return table.leave) table (tooDeep node)
  | ifElse condition body _ otherwise _ span =>
    let node : NodeRef := ⟨path, .ifBranch, span⟩
    Check.orExhausted (do
      checkCondition levels table (0 :: path) "if condition" condition
      let table ← checkAll levels (table.enter .block "if" none) (1 :: path) 0 body
      let table ← checkAll levels (table.leave.enter .block "else" none) (2 :: path) 0 otherwise
      return table.leave) table (tooDeep node)
  | whileLoop condition body _ span =>
    let node : NodeRef := ⟨path, .whileLoop, span⟩
    Check.orExhausted (do
      checkCondition levels table (0 :: path) "while condition" condition
      let table ← checkAll levels (table.enter .loop "while" none) (1 :: path) 0 body
      return table.leave) table (tooDeep node)
  | ret value span =>
    let node : NodeRef := ⟨path, .ret, span⟩
    Check.orExhausted (do checkReturn levels table node value; return table) table (tooDeep node)
  | print value span =>
    let node : NodeRef := ⟨path, .print, span⟩
    Check.orExhausted (do let _ ← value.check levels table (0 :: path); return table) table
      (tooDeep node)
  | expr value span =>
    let node : NodeRef := ⟨path, .exprStmt, span⟩
    Check.orExhausted (do let _ ← value.check levels table (0 :: path); return table) table
      (tooDeep node)
  | block _ _ => pure table

/-- Checks the statements of a block in order, the first of which has the given index. -/
def checkAll (levels : Nat) (table : SymbolTable) (path : Path) (index : Nat) :
    List Stmt → Check SymbolTable
  | [] => pure table
  | s :: ss => do
    let table ← s.check levels table (index :: path)
    checkAll levels table path (index + 1) ss

end

end Stmt

end BracketLang
