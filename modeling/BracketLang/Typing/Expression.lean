import BracketLang.Typing.Check
import BracketLang.Typing.Scope

/-! Checking expressions. The type of an expression follows from those of its parts and from the
names in scope; a part that has been reported is of type `error` and causes no second report.

A chain of binary operators, each the left operand of the next, is walked without going a level
deeper, however long it is. Going into a unary operand, a right operand or an argument takes a
level, of which there are a given number. -/

namespace BracketLang

/-- The families of binary operators. -/
inductive OperatorClass where
  | arithmetic | relational | equality | logical
deriving DecidableEq, Repr

namespace OperatorClass

/-- The family of an operator as written. -/
def ofText? : String → Option OperatorClass
  | "+" | "-" | "*" | "/" => some arithmetic
  | "<" | ">" | "<=" | ">=" => some relational
  | "==" | "!=" => some equality
  | "&&" | "||" => some logical
  | _ => none

end OperatorClass

/-- The error for a value of the wrong type. -/
def SemanticError.mismatch (expected actual : Ty) (context : String) (location : Location)
    (node : NodeRef) : SemanticError :=
  ⟨.typeMismatch expected.text actual.text context, location, some node⟩

/-- One operator of a chain, with both its operands. -/
structure Link where
  path : Path
  left : Expr
  operator : String
  right : Expr
  span : Span

namespace Link

def ref (l : Link) : NodeRef := ⟨l.path, .binary, l.span⟩

/-- Both operands have to be of type `operands`; the first one that is not is reported. -/
def both (l : Link) (operands result left right : Ty) : Check Ty :=
  let wrong (actual : Ty) (operand : Expr) : Check Ty := do
    .report (.mismatch operands actual s!"operand of '{l.operator}'" operand.span.start l.ref)
    return .error
  if left ≠ operands then wrong left l.left
  else if right ≠ operands then wrong right l.right
  else return result

/-- The type of an operator's result, given those of its operands. -/
def resultType (l : Link) (left right : Ty) : Check Ty :=
  if left = .error ∨ right = .error then return .error
  else match OperatorClass.ofText? l.operator with
    | some .equality =>
      if left = right then return .bool
      else do
        .report (.mismatch left right s!"operands of '{l.operator}'" l.right.span.start l.ref)
        return .error
    | some .arithmetic => l.both .int .int left right
    | some .relational => l.both .int .bool left right
    | some .logical => l.both .bool .bool left right
    | none => return .error

end Link

namespace Expr

/-- Checks the right operands of a chain from the innermost operator out. `left` is the type of
what stands to the left of the first of them. -/
def checkLinks (sub : Path → Expr → Check Ty) : List Link → (left : Ty) → Check Ty
  | [], left => return left
  | l :: ls, left => do
    let right ← sub (1 :: l.path) l.right
    let type ← l.resultType left right
    .annotate l.path type
    checkLinks sub ls type

/-- Checks arguments from left to right, the first of which has the given index. -/
def checkArgs (sub : Path → Expr → Check Ty) (path : Path) :
    (index : Nat) → List Expr → Check (List Ty)
  | _, [] => return []
  | index, e :: es => do
    let type ← sub (index :: path) e
    let types ← checkArgs sub path (index + 1) es
    return type :: types

/-- Compares arguments with the parameters they are for. -/
def compareArgs (name : String) (path : Path) :
    (index : Nat) → List Expr → (params args : List Ty) → Check Unit
  | index, e :: es, param :: params, arg :: args => do
    if !param.compatible arg then
      .report (.mismatch param arg s!"argument {index + 1} of '{name}'" e.span.start
        (e.ref (index :: path)))
    compareArgs name path (index + 1) es params args
  | _, _, _, _ => return ()

/-- A name used as a value. -/
def checkVar (table : SymbolTable) (name : String) (node : NodeRef) : Check Ty :=
  match table.findVar? name with
  | some symbol => return symbol.type
  | none => do
    let similar := table.similarNames name (some .var) SymbolTable.suggestionLimit
    .report ⟨.undeclaredVariable name similar, node.span.start, some node⟩
    return .error

/-- A unary operator applied to a value of a given type. -/
def checkUnary (operator : String) (operand : Expr) (type : Ty) (node : NodeRef) : Check Ty :=
  let expected := if operator = "!" then Ty.bool else Ty.int
  if type = .error then return .error
  else if type = expected then return expected
  else do
    .report (.mismatch expected type s!"operand of unary '{operator}'" operand.span.start node)
    return .error

/-- A call whose arguments are checked by `types`. They are whether or not the function is known and
takes as many; only if it does are they compared with its parameters. -/
def checkCallWith (table : SymbolTable) (name : String) (args : List Expr)
    (types : Check (List Ty)) (node : NodeRef) : Check Ty :=
  match table.findFunction? name with
  | none => do
    let similar := table.similarNames name (some .function) SymbolTable.suggestionLimit
    .report ⟨.undeclaredFunction name similar, node.span.start, some node⟩
    let _ ← types
    return .error
  | some symbol => do
    if symbol.arity = args.length then
      let types ← types
      compareArgs name node.path 0 args symbol.params types
    else
      .report ⟨.arityMismatch name symbol.arity args.length, node.span.start, some node⟩
      let _ ← types
    return symbol.type

/-- A call, whose arguments `sub` checks from left to right. -/
def checkCall (sub : Path → Expr → Check Ty) (table : SymbolTable) (name : String)
    (args : List Expr) (node : NodeRef) : Check Ty :=
  checkCallWith table name args (checkArgs sub node.path 0 args) node

/-- Checks what starts a chain, and then the operators of the chain. -/
def startChain (sub : Path → Expr → Check Ty) (path : Path) (links : List Link) (x : Check Ty) :
    Check Ty := do
  let type ← x
  .annotate path type
  checkLinks sub links type

/-- Walks down a chain of operators to what starts it, checks that, and then the operators on the
way back. `links` are the operators passed so far, innermost first; `sub` checks what takes
another level. -/
def checkChain (sub : Path → Expr → Check Ty) (table : SymbolTable) :
    Path → List Link → Expr → Check Ty
  | path, links, binary left operator right span =>
    checkChain sub table (0 :: path) (⟨path, left, operator, right, span⟩ :: links) left
  | path, links, integer _ _ => startChain sub path links (pure .int)
  | path, links, boolean _ _ => startChain sub path links (pure .bool)
  | path, links, var name span => startChain sub path links (checkVar table name ⟨path, .var, span⟩)
  | path, links, unary operator operand span => startChain sub path links do
    let type ← sub (0 :: path) operand
    checkUnary operator operand type ⟨path, .unary, span⟩
  | path, links, call name args span =>
    startChain sub path links (checkCall sub table name args ⟨path, .call, span⟩)
  | path, links, typeName _ => startChain sub path links (pure .error)

/-- Checks an expression with some levels to go. -/
def checkWithin (table : SymbolTable) : (levels : Nat) → Path → Expr → Check Ty
  | 0, _, _ => .exhausted
  | levels + 1, path, e => checkChain (checkWithin table levels) table path [] e

/-- Checks an expression and gives its type. -/
def check (levels : Nat) (table : SymbolTable) (path : Path) (e : Expr) : Check Ty :=
  e.checkWithin table levels path

end Expr

end BracketLang
