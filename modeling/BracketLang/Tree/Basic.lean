import BracketLang.Token.Basic

/-! The tree of a program. Every construct keeps the span of the tokens it was read from. Names,
operators and type names are kept as they were written: it is the typing rules that decide which
of them mean something. -/

namespace BracketLang

/-- A type as written. -/
structure TypeName where
  name : String
  span : Span
deriving DecidableEq, Repr

/-- An expression. -/
inductive Expr where
  /-- An integer, with the value of its token. -/
  | integer (value : Option Literal) (span : Span)
  | boolean (value : Bool) (span : Span)
  | var (name : String) (span : Span)
  | unary (operator : String) (operand : Expr) (span : Span)
  | binary (left : Expr) (operator : String) (right : Expr) (span : Span)
  | call (name : String) (args : List Expr) (span : Span)
  /-- A type that stands where a value belongs. -/
  | typeName (type : TypeName)
deriving Repr

namespace Expr

def span : Expr → Span
  | integer _ s | boolean _ s | var _ s | unary _ _ s | binary _ _ _ s | call _ _ s => s
  | typeName type => type.span

end Expr

/-- A statement. The spans of the blocks that belong to it stand next to their statements. -/
inductive Stmt where
  | letVar (name : String) (type : TypeName) (initializer : Expr) (span : Span)
  | assign (name : String) (value : Expr) (span : Span)
  | ifThen (condition : Expr) (body : List Stmt) (bodySpan : Span) (span : Span)
  | ifElse (condition : Expr) (body : List Stmt) (bodySpan : Span) (otherwise : List Stmt)
    (otherwiseSpan : Span) (span : Span)
  | whileLoop (condition : Expr) (body : List Stmt) (bodySpan : Span) (span : Span)
  | ret (value : Option Expr) (span : Span)
  | print (value : Expr) (span : Span)
  | expr (value : Expr) (span : Span)
  /-- A block that stands where a statement belongs. -/
  | block (body : List Stmt) (span : Span)
deriving Repr

namespace Stmt

def span : Stmt → Span
  | letVar _ _ _ s | assign _ _ s | ifThen _ _ _ s | ifElse _ _ _ _ _ s | whileLoop _ _ _ s
  | ret _ s | print _ s | expr _ s | block _ s => s

end Stmt

/-- Statements between brackets. -/
structure Block where
  body : List Stmt
  span : Span
deriving Repr

/-- A parameter of a function; its location is that of its name. -/
structure Param where
  name : String
  type : TypeName
  location : Location
deriving DecidableEq, Repr

/-- A function with its header and body. -/
structure Function where
  name : String
  params : List Param
  returnType : TypeName
  body : Block
  span : Span
deriving Repr

/-- The functions of one source text, in order. -/
structure Program where
  functions : List Function
  span : Span
deriving Repr

end BracketLang
