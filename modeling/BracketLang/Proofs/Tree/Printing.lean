import BracketLang.Grammar.Precedence
import BracketLang.Proofs.Lexeme.Words
import BracketLang.Proofs.Tree.Plain

/-! Writing trees down. `terminals` lists the words of a tree in the order in which they are
written, with no more parentheses than the binding of the operators asks for. `levels` counts how
many levels of an expression are open at once when these words are read, and `depth` how many levels
of the stack are taken. `Program.Spelled` says that the names and numbers of a tree can be
written. -/

namespace BracketLang

/-! ## Names and numbers -/

mutual

/-- Names are names, and numbers are neither negative nor beyond the greatest that fits. -/
def Expr.Spelled : Expr → Prop
  | .integer value _ => ∃ n : Nat, value = some (.int n) ∧ (n : Int) ≤ int32Max
  | .boolean .. | .typeName _ => True
  | .var x _ => IsName x
  | .unary _ e _ => e.Spelled
  | .binary l _ r _ => l.Spelled ∧ r.Spelled
  | .call f args _ => IsName f ∧ Expr.AllSpelled args

def Expr.AllSpelled : List Expr → Prop
  | [] => True
  | e :: es => e.Spelled ∧ Expr.AllSpelled es

end

/-- All names and numbers can be written, whatever the types. -/
def Demands.spelled : Demands := ⟨Expr.Spelled, IsName, fun _ => True⟩

abbrev Stmt.Spelled (s : Stmt) : Prop := s.Meets .spelled

abbrev Function.Spelled (f : Function) : Prop := f.Meets .spelled

abbrev Program.Spelled (p : Program) : Prop := p.Meets .spelled

/-! ## Expressions -/

/-- How tightly the operator with this text binds its operands. -/
def operatorPrecedence (op : String) : Precedence :=
  match TokenKind.ofOperator? op.toList with
  | some k => k.precedence
  | none => .none

/-- How tightly the outermost operator binds; what has none holds together on its own. -/
def Expr.precedence : Expr → Precedence
  | .binary _ op _ _ => operatorPrecedence op
  | _ => .unary

/-- In parentheses, if there have to be any. -/
def grouped (c : Prop) [Decidable c] (ws : List String) : List String :=
  if c then "(" :: (ws ++ [")"]) else ws

/-- Parentheses open a level. -/
def groupedLevels (c : Prop) [Decidable c] (n : Nat) : Nat := if c then n + 1 else n

namespace Expr

mutual

/-- The words of an expression. A left operand is in parentheses if it binds looser than the
operator, a right operand if it does not bind tighter, and the operand of a unary operator if it
has a binary operator. -/
def terminals : Expr → List String
  | integer value _ => [Literal.text value]
  | boolean b _ => [if b then "true" else "false"]
  | var x _ => [x]
  | unary op e _ => op :: grouped (e.precedence ≠ .unary) e.terminals
  | binary l op r _ =>
    grouped (¬ operatorPrecedence op ≤ l.precedence) l.terminals ++
      op :: grouped (r.precedence ≤ operatorPrecedence op) r.terminals
  | call f args _ => f :: "(" :: (argTerminals args ++ [")"])
  | typeName t => [t.name]

/-- The words of arguments, with commas between them. -/
def argTerminals : List Expr → List String
  | [] => []
  | e :: es => e.terminals ++ moreTerminals es

def moreTerminals : List Expr → List String
  | [] => []
  | e :: es => "," :: (e.terminals ++ moreTerminals es)

end

mutual

/-- How many levels are open at once in the written form of an expression, its own included. -/
def levels : Expr → Nat
  | integer .. | boolean .. | var .. | typeName _ => 1
  | unary _ e _ => groupedLevels (e.precedence ≠ .unary) e.levels + 1
  | binary l op r _ =>
    max (groupedLevels (¬ operatorPrecedence op ≤ l.precedence) l.levels)
      (groupedLevels (r.precedence ≤ operatorPrecedence op) r.levels + 1)
  | call _ args _ => allLevels args + 1

def allLevels : List Expr → Nat
  | [] => 0
  | e :: es => max e.levels (allLevels es)

end

end Expr

/-! ## Statements -/

namespace Stmt

mutual

def terminals : Stmt → List String
  | letVar x t e _ => "let" :: x :: ":" :: t.name :: "=" :: (e.terminals ++ [";"])
  | assign x e _ => x :: "=" :: (e.terminals ++ [";"])
  | ifThen c ss _ _ => "if" :: (c.terminals ++ "[" :: (allTerminals ss ++ ["]"]))
  | ifElse c ss _ ss' _ _ =>
    "if" :: (c.terminals ++ "[" :: (allTerminals ss ++ "]" :: "else" ::
      "[" :: (allTerminals ss' ++ ["]"])))
  | whileLoop c ss _ _ => "while" :: (c.terminals ++ "[" :: (allTerminals ss ++ ["]"]))
  | ret none _ => ["return", ";"]
  | ret (some e) _ => "return" :: (e.terminals ++ [";"])
  | print e _ => "print" :: (e.terminals ++ [";"])
  | expr e _ => e.terminals ++ [";"]
  | block ss _ => "[" :: (allTerminals ss ++ ["]"])

def allTerminals : List Stmt → List String
  | [] => []
  | s :: ss => s.terminals ++ allTerminals ss

end

mutual

/-- The most levels that an expression of the statement needs. -/
def levels : Stmt → Nat
  | letVar _ _ e _ | assign _ e _ | print e _ | expr e _ | ret (some e) _ => e.levels
  | ret none _ => 0
  | ifThen c ss _ _ | whileLoop c ss _ _ => max c.levels (allLevels ss)
  | ifElse c ss _ ss' _ _ => max c.levels (max (allLevels ss) (allLevels ss'))
  | block ss _ => allLevels ss

def allLevels : List Stmt → Nat
  | [] => 0
  | s :: ss => max s.levels (allLevels ss)

end

mutual

/-- How many levels of the stack are taken at once: one by each block around a statement, and as
many as an expression in it needs. -/
def depth : Stmt → Nat
  | letVar _ _ e _ | assign _ e _ | print e _ | expr e _ | ret (some e) _ => e.levels
  | ret none _ => 0
  | ifThen c ss _ _ | whileLoop c ss _ _ => max c.levels (allDepth ss + 1)
  | ifElse c ss _ ss' _ _ => max c.levels (max (allDepth ss + 1) (allDepth ss' + 1))
  | block ss _ => allDepth ss + 1

def allDepth : List Stmt → Nat
  | [] => 0
  | s :: ss => max s.depth (allDepth ss)

end

end Stmt

/-! ## Programs -/

namespace Param

def terminals (p : Param) : List String := [p.name, ":", p.type.name]

/-- The words of parameters, with commas between them. -/
def allTerminals : List Param → List String
  | [] => []
  | p :: ps => p.terminals ++ ps.flatMap fun q => "," :: q.terminals

end Param

def Function.terminals (f : Function) : List String :=
  "func" :: f.name :: "(" :: (Param.allTerminals f.params ++ ")" :: "->" :: f.returnType.name ::
    "[" :: (Stmt.allTerminals f.body.body ++ ["]"]))

def Function.levels (f : Function) : Nat := Stmt.allLevels f.body.body

def Function.depth (f : Function) : Nat := Stmt.allDepth f.body.body

/-- The words of a program, from the first to the last. -/
def Program.terminals (p : Program) : List String := p.functions.flatMap Function.terminals

end BracketLang
