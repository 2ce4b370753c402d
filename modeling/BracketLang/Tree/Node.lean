import BracketLang.Tree.Basic

/-! The nodes of a tree, without regard to what they mean. A `Node` has a kind, a span, a detail
and its children from left to right; a `Path` names a node by the way from the root to it. -/

namespace BracketLang

/-- The kinds of nodes. -/
inductive NodeKind where
  | program | function | block
  | letVar | assign | ifBranch | whileLoop | ret | print | exprStmt
  | binary | unary | call | var | integer | boolean
  | typeName
deriving DecidableEq, Repr

namespace NodeKind

/-- The name under which a kind of node is shown. -/
def label : NodeKind → String
  | program => "Program"
  | function => "FunctionDecl"
  | block => "Block"
  | letVar => "LetStatement"
  | assign => "Assignment"
  | ifBranch => "IfStatement"
  | whileLoop => "WhileLoop"
  | ret => "ReturnStatement"
  | print => "PrintStatement"
  | exprStmt => "ExpressionStatement"
  | binary => "BinaryOp"
  | unary => "UnaryOp"
  | call => "FunctionCall"
  | var => "Identifier"
  | integer => "IntegerLiteral"
  | boolean => "BooleanLiteral"
  | typeName => "TypeRef"

end NodeKind

/-- The way from the root of a tree to a node: the index of the node among its siblings, then
that of its parent, and so on. The root has the empty path. -/
abbrev Path := List Nat

/-- A node seen from outside: where it is in its tree, what it is and what it spans. -/
structure NodeRef where
  path : Path
  kind : NodeKind
  span : Span
deriving DecidableEq, Repr

/-- The text by which reports name a node. -/
def NodeRef.text (n : NodeRef) : String := s!"{n.kind.label}@{n.span.text}"

/-- What a node holds besides its children. -/
inductive Detail where
  | nothing
  /-- A name or an operator. -/
  | text (text : String)
  | value (value : Option Literal)
  | header (name : String) (params : List Param)
deriving DecidableEq, Repr

/-- A tree of nodes. -/
inductive Node where
  | mk (kind : NodeKind) (span : Span) (detail : Detail) (children : List Node)
deriving Repr

namespace Node

def kind : Node → NodeKind
  | mk k _ _ _ => k

def span : Node → Span
  | mk _ s _ _ => s

def children : Node → List Node
  | mk _ _ _ cs => cs

/-- A node without children. -/
def leaf (kind : NodeKind) (span : Span) (detail : Detail) : Node := mk kind span detail []

/-- The text that shows a node on its own. -/
def fullText (n : Node) : String := s!"{n.kind.label}(span={n.span.text})"

end Node

def TypeName.node (t : TypeName) : Node := .leaf .typeName t.span (.text t.name)

namespace Expr

/-- The kind of an expression's node. -/
def kind : Expr → NodeKind
  | integer .. => .integer
  | boolean .. => .boolean
  | var .. => .var
  | unary .. => .unary
  | binary .. => .binary
  | call .. => .call
  | typeName .. => .typeName

mutual

def node : Expr → Node
  | integer value span => .leaf .integer span (.value value)
  | boolean value span => .leaf .boolean span (.value (some (.bool value)))
  | var name span => .leaf .var span (.text name)
  | unary operator operand span => .mk .unary span (.text operator) [operand.node]
  | binary left operator right span =>
    .mk .binary span (.text operator) [left.node, right.node]
  | call name args span => .mk .call span (.text name) (nodes args)
  | typeName type => type.node

def nodes : List Expr → List Node
  | [] => []
  | e :: es => e.node :: nodes es

end

end Expr

namespace Stmt

/-- The kind of a statement's node. -/
def kind : Stmt → NodeKind
  | letVar .. => .letVar
  | assign .. => .assign
  | ifThen .. | ifElse .. => .ifBranch
  | whileLoop .. => .whileLoop
  | ret .. => .ret
  | print .. => .print
  | expr .. => .exprStmt
  | block .. => .block

mutual

def node : Stmt → Node
  | letVar name type initializer span =>
    .mk .letVar span (.text name) [type.node, initializer.node]
  | assign name value span => .mk .assign span (.text name) [value.node]
  | ifThen condition body bodySpan span =>
    .mk .ifBranch span .nothing [condition.node, .mk .block bodySpan .nothing (nodes body)]
  | ifElse condition body bodySpan otherwise otherwiseSpan span =>
    .mk .ifBranch span .nothing
      [condition.node, .mk .block bodySpan .nothing (nodes body),
        .mk .block otherwiseSpan .nothing (nodes otherwise)]
  | whileLoop condition body bodySpan span =>
    .mk .whileLoop span .nothing [condition.node, .mk .block bodySpan .nothing (nodes body)]
  | ret value span => .mk .ret span .nothing (value.toList.map Expr.node)
  | print value span => .mk .print span .nothing [value.node]
  | expr value span => .mk .exprStmt span .nothing [value.node]
  | block body span => .mk .block span .nothing (nodes body)

def nodes : List Stmt → List Node
  | [] => []
  | s :: ss => s.node :: nodes ss

end

/-- A statement as reports name it. -/
def ref (path : Path) (s : Stmt) : NodeRef := ⟨path, s.kind, s.span⟩

end Stmt

def Block.node (b : Block) : Node := .mk .block b.span .nothing (Stmt.nodes b.body)

/-- The types in the header come before the body. -/
def Function.node (f : Function) : Node :=
  .mk .function f.span (.header f.name f.params)
    (f.params.map (·.type.node) ++ [f.returnType.node, f.body.node])

def Program.node (p : Program) : Node :=
  .mk .program p.span .nothing (p.functions.map Function.node)

/-- An expression as reports name it. -/
def Expr.ref (path : Path) (e : Expr) : NodeRef := ⟨path, e.kind, e.span⟩

end BracketLang
