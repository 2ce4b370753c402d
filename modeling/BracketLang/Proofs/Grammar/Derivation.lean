import BracketLang.Grammar.Precedence
import BracketLang.Proofs.Tree.Bare

/-! The grammar of the language, as its derivations. A derivation holds the tokens it derives, each
of the kind that its place in a production asks for; `yield` lists them from left to right and
`tree` is the bare tree that they stand for.

Expressions are derived at a level of binding, and the grammar of a level is left-recursive. At
the levels of binary operators an expression is one of the next tighter level, or an expression of
the same level, an operator of that level and an expression of the next tighter one. At the level
of unary operators it is such an operator and an expression of the same level, a literal, a name,
a call, or an expression of the loosest level in parentheses.

`levels` counts how many expressions are open at once when one is read from left to right: the
expression itself, and those inside it that are the operand of a unary operator, the right operand
of a binary one, an argument, or in parentheses. `depth` counts how many levels of the stack are
taken at once: the blocks inside each other, and then the levels of an expression in them. -/

namespace BracketLang

/-- The levels at which binary operators bind. -/
def Precedence.IsBinary (p : Precedence) : Prop := p ≠ .none ∧ p ≠ .unary

instance (p : Precedence) : Decidable p.IsBinary := inferInstanceAs (Decidable (_ ∧ _))

/-- A token of kind `k`. -/
abbrev Terminal (k : TokenKind) := { t : Token // t.kind = k }

/-- The name of a type. -/
abbrev TypeTerminal := { t : Token // t.kind ∈ TokenKind.typeStarts }

/-- A truth value. -/
abbrev TruthTerminal := { t : Token // t.kind = .trueWord ∨ t.kind = .falseWord }

/-- A unary operator. -/
abbrev SignTerminal := { t : Token // t.kind = .minus ∨ t.kind = .not }

/-- A binary operator of level `p`. -/
abbrev OperatorTerminal (p : Precedence) := { t : Token // t.kind.precedence = p }

/-! ## Expressions -/

mutual

/-- Expressions of a level. -/
inductive ExprDeriv : Precedence → Type
  | tighter (hp : p.IsBinary) (e : ExprDeriv p.tighter) : ExprDeriv p
  | binary (hp : p.IsBinary) (l : ExprDeriv p) (op : OperatorTerminal p)
    (r : ExprDeriv p.tighter) : ExprDeriv p
  | unary (op : SignTerminal) (e : ExprDeriv .unary) : ExprDeriv .unary
  | integer (t : Terminal .integer) : ExprDeriv .unary
  | boolean (t : TruthTerminal) : ExprDeriv .unary
  | var (t : Terminal .identifier) : ExprDeriv .unary
  | call (t : Terminal .identifier) (lp : Terminal .leftParen) (args : ArgsDeriv)
    (rp : Terminal .rightParen) : ExprDeriv .unary
  | group (lp : Terminal .leftParen) (e : ExprDeriv .or) (rp : Terminal .rightParen) :
    ExprDeriv .unary

/-- Arguments, of which there may be none. -/
inductive ArgsDeriv : Type
  | none : ArgsDeriv
  | some (e : ExprDeriv .or) (more : MoreArgsDeriv) : ArgsDeriv

/-- Further arguments, each behind a comma. -/
inductive MoreArgsDeriv : Type
  | nil : MoreArgsDeriv
  | cons (comma : Terminal .comma) (e : ExprDeriv .or) (more : MoreArgsDeriv) : MoreArgsDeriv

end

mutual

/-- The tokens of an expression. -/
def ExprDeriv.yield : ExprDeriv p → List Token
  | .tighter _ e => e.yield
  | .binary _ l op r => l.yield ++ op.val :: r.yield
  | .unary op e => op.val :: e.yield
  | .integer t => [t.val]
  | .boolean t => [t.val]
  | .var t => [t.val]
  | .call t lp args rp => t.val :: lp.val :: (args.yield ++ [rp.val])
  | .group lp e rp => lp.val :: (e.yield ++ [rp.val])

def ArgsDeriv.yield : ArgsDeriv → List Token
  | .none => []
  | .some e more => e.yield ++ more.yield

def MoreArgsDeriv.yield : MoreArgsDeriv → List Token
  | .nil => []
  | .cons comma e more => comma.val :: (e.yield ++ more.yield)

end

mutual

/-- The tree that an expression stands for; parentheses leave no trace in it. -/
def ExprDeriv.tree : ExprDeriv p → Expr
  | .tighter _ e => e.tree
  | .binary _ l op r => .binary l.tree op.val.lexeme r.tree .nowhere
  | .unary op e => .unary op.val.lexeme e.tree .nowhere
  | .integer t => .integer t.val.value .nowhere
  | .boolean t => .boolean (t.val.kind = .trueWord) .nowhere
  | .var t => .var t.val.lexeme .nowhere
  | .call t _ args _ => .call t.val.lexeme args.trees .nowhere
  | .group _ e _ => e.tree

def ArgsDeriv.trees : ArgsDeriv → List Expr
  | .none => []
  | .some e more => e.tree :: more.trees

def MoreArgsDeriv.trees : MoreArgsDeriv → List Expr
  | .nil => []
  | .cons _ e more => e.tree :: more.trees

end

mutual

/-- How many levels are open at once, the expression's own included. -/
def ExprDeriv.levels : ExprDeriv p → Nat
  | .tighter _ e => e.levels
  | .binary _ l _ r => max l.levels (r.levels + 1)
  | .unary _ e | .group _ e _ => e.levels + 1
  | .integer _ | .boolean _ | .var _ => 1
  | .call _ _ args _ => args.levels + 1

def ArgsDeriv.levels : ArgsDeriv → Nat
  | .none => 0
  | .some e more => max e.levels more.levels

def MoreArgsDeriv.levels : MoreArgsDeriv → Nat
  | .nil => 0
  | .cons _ e more => max e.levels more.levels

end

/-! ## Statements -/

/-- The type that a token names. -/
def TypeTerminal.tree (t : TypeTerminal) : TypeName := ⟨t.val.lexeme, .nowhere⟩

mutual

inductive StmtDeriv : Type
  | letVar (word : Terminal .letWord) (x : Terminal .identifier) (colon : Terminal .colon)
    (t : TypeTerminal) (eq : Terminal .assign) (e : ExprDeriv .or) (semi : Terminal .semicolon) :
    StmtDeriv
  | assign (x : Terminal .identifier) (eq : Terminal .assign) (e : ExprDeriv .or)
    (semi : Terminal .semicolon) : StmtDeriv
  | ifThen (word : Terminal .ifWord) (c : ExprDeriv .or) (b : BlockDeriv) : StmtDeriv
  | ifElse (word : Terminal .ifWord) (c : ExprDeriv .or) (b : BlockDeriv)
    (other : Terminal .elseWord) (b' : BlockDeriv) : StmtDeriv
  | whileLoop (word : Terminal .whileWord) (c : ExprDeriv .or) (b : BlockDeriv) : StmtDeriv
  | retNone (word : Terminal .returnWord) (semi : Terminal .semicolon) : StmtDeriv
  | ret (word : Terminal .returnWord) (e : ExprDeriv .or) (semi : Terminal .semicolon) : StmtDeriv
  | print (word : Terminal .printWord) (e : ExprDeriv .or) (semi : Terminal .semicolon) : StmtDeriv
  | expr (e : ExprDeriv .or) (semi : Terminal .semicolon) : StmtDeriv

inductive BlockDeriv : Type
  | mk (lb : Terminal .leftBracket) (body : BodyDeriv) (rb : Terminal .rightBracket) : BlockDeriv

/-- The statements of a block. -/
inductive BodyDeriv : Type
  | nil : BodyDeriv
  | cons (s : StmtDeriv) (ss : BodyDeriv) : BodyDeriv

end

mutual

def StmtDeriv.yield : StmtDeriv → List Token
  | .letVar word x colon t eq e semi =>
    word.val :: x.val :: colon.val :: t.val :: eq.val :: (e.yield ++ [semi.val])
  | .assign x eq e semi => x.val :: eq.val :: (e.yield ++ [semi.val])
  | .ifThen word c b => word.val :: (c.yield ++ b.yield)
  | .ifElse word c b other b' => word.val :: (c.yield ++ (b.yield ++ other.val :: b'.yield))
  | .whileLoop word c b => word.val :: (c.yield ++ b.yield)
  | .retNone word semi => [word.val, semi.val]
  | .ret word e semi => word.val :: (e.yield ++ [semi.val])
  | .print word e semi => word.val :: (e.yield ++ [semi.val])
  | .expr e semi => e.yield ++ [semi.val]

def BlockDeriv.yield : BlockDeriv → List Token
  | .mk lb body rb => lb.val :: (body.yield ++ [rb.val])

def BodyDeriv.yield : BodyDeriv → List Token
  | .nil => []
  | .cons s ss => s.yield ++ ss.yield

end

theorem StmtDeriv.length_yield_pos (d : StmtDeriv) : 0 < d.yield.length := by
  cases d with
  | expr e semi => simp [yield]
  | _ => simp [yield]

/-- The bracket that closes a block. -/
def BlockDeriv.last : BlockDeriv → Token
  | .mk _ _ rb => rb.val

mutual

def StmtDeriv.tree : StmtDeriv → Stmt
  | .letVar _ x _ t _ e _ => .letVar x.val.lexeme (TypeTerminal.tree t) e.tree .nowhere
  | .assign x _ e _ => .assign x.val.lexeme e.tree .nowhere
  | .ifThen _ c b => .ifThen c.tree b.trees .nowhere .nowhere
  | .ifElse _ c b _ b' => .ifElse c.tree b.trees .nowhere b'.trees .nowhere .nowhere
  | .whileLoop _ c b => .whileLoop c.tree b.trees .nowhere .nowhere
  | .retNone _ _ => .ret none .nowhere
  | .ret _ e _ => .ret (some e.tree) .nowhere
  | .print _ e _ => .print e.tree .nowhere
  | .expr e _ => .expr e.tree .nowhere

def BlockDeriv.trees : BlockDeriv → List Stmt
  | .mk _ body _ => body.trees

def BodyDeriv.trees : BodyDeriv → List Stmt
  | .nil => []
  | .cons s ss => s.tree :: ss.trees

end

mutual

/-- The most levels that an expression of the statement needs. -/
def StmtDeriv.levels : StmtDeriv → Nat
  | .letVar _ _ _ _ _ e _ | .assign _ _ e _ | .ret _ e _ | .print _ e _ | .expr e _ => e.levels
  | .ifThen _ c b | .whileLoop _ c b => max c.levels b.levels
  | .ifElse _ c b _ b' => max c.levels (max b.levels b'.levels)
  | .retNone _ _ => 0

def BlockDeriv.levels : BlockDeriv → Nat
  | .mk _ body _ => body.levels

def BodyDeriv.levels : BodyDeriv → Nat
  | .nil => 0
  | .cons s ss => max s.levels ss.levels

end

mutual

/-- How many levels of the stack are taken at once. -/
def StmtDeriv.depth : StmtDeriv → Nat
  | .letVar _ _ _ _ _ e _ | .assign _ _ e _ | .ret _ e _ | .print _ e _ | .expr e _ => e.levels
  | .ifThen _ c b | .whileLoop _ c b => max c.levels (b.depth + 1)
  | .ifElse _ c b _ b' => max c.levels (max (b.depth + 1) (b'.depth + 1))
  | .retNone _ _ => 0

/-- The levels inside the block, without its own. -/
def BlockDeriv.depth : BlockDeriv → Nat
  | .mk _ body _ => body.depth

def BodyDeriv.depth : BodyDeriv → Nat
  | .nil => 0
  | .cons s ss => max s.depth ss.depth

end

mutual

/-- No expression of the statement needs more levels than it may open or than there is room for, and
there is room for the blocks. -/
def StmtDeriv.Fits (room : Nat) : StmtDeriv → Prop
  | .letVar _ _ _ _ _ e _ | .assign _ _ e _ | .ret _ e _ | .print _ e _ | .expr e _ =>
    e.levels ≤ min room maxExpressionDepth
  | .ifThen _ c b | .whileLoop _ c b => c.levels ≤ min room maxExpressionDepth ∧ b.Fits room
  | .ifElse _ c b _ b' => c.levels ≤ min room maxExpressionDepth ∧ b.Fits room ∧ b'.Fits room
  | .retNone _ _ => True

def BlockDeriv.Fits : (room : Nat) → BlockDeriv → Prop
  | 0, _ => False
  | room + 1, .mk _ body _ => body.Fits room

def BodyDeriv.Fits (room : Nat) : BodyDeriv → Prop
  | .nil => True
  | .cons s ss => s.Fits room ∧ ss.Fits room

end

mutual

theorem StmtDeriv.fits_iff (d : StmtDeriv) :
    d.Fits room ↔ d.levels ≤ maxExpressionDepth ∧ d.depth ≤ room := by
  match d with
  | .letVar _ _ _ _ _ e _ | .assign _ _ e _ | .ret _ e _ | .print _ e _ | .expr e _ =>
    simp only [StmtDeriv.Fits, StmtDeriv.levels, StmtDeriv.depth]
    omega
  | .ifThen _ c b | .whileLoop _ c b =>
    simp only [StmtDeriv.Fits, StmtDeriv.levels, StmtDeriv.depth, b.fits_iff]
    omega
  | .ifElse _ c b _ b' =>
    simp only [StmtDeriv.Fits, StmtDeriv.levels, StmtDeriv.depth, b.fits_iff, b'.fits_iff]
    omega
  | .retNone _ _ => simp [StmtDeriv.Fits, StmtDeriv.levels, StmtDeriv.depth]

theorem BlockDeriv.fits_iff (d : BlockDeriv) :
    d.Fits room ↔ d.levels ≤ maxExpressionDepth ∧ d.depth < room := by
  match d, room with
  | .mk _ _ _, 0 => simp [BlockDeriv.Fits]
  | .mk _ body _, room + 1 =>
    simp only [BlockDeriv.Fits, BlockDeriv.levels, BlockDeriv.depth, body.fits_iff]
    omega

theorem BodyDeriv.fits_iff (d : BodyDeriv) :
    d.Fits room ↔ d.levels ≤ maxExpressionDepth ∧ d.depth ≤ room := by
  match d with
  | .nil => simp [BodyDeriv.Fits, BodyDeriv.levels, BodyDeriv.depth]
  | .cons s ss =>
    simp only [BodyDeriv.Fits, BodyDeriv.levels, BodyDeriv.depth, s.fits_iff, ss.fits_iff]
    omega

end

/-! ## Programs -/

structure ParamDeriv where
  x : Terminal .identifier
  colon : Terminal .colon
  t : TypeTerminal

namespace ParamDeriv

def yield (p : ParamDeriv) : List Token := [p.x.val, p.colon.val, p.t.val]

def tree (p : ParamDeriv) : Param := ⟨p.x.val.lexeme, TypeTerminal.tree p.t, .origin⟩

end ParamDeriv

/-- Parameters, of which there may be none. -/
inductive ParamsDeriv
  | none
  | some (p : ParamDeriv) (more : List (Terminal .comma × ParamDeriv))

namespace ParamsDeriv

def yield : ParamsDeriv → List Token
  | none => []
  | some p more => p.yield ++ more.flatMap fun q => q.1.val :: q.2.yield

def trees : ParamsDeriv → List Param
  | none => []
  | some p more => p.tree :: more.map fun q => q.2.tree

end ParamsDeriv

structure FunctionDeriv where
  word : Terminal .funcWord
  name : Terminal .identifier
  lp : Terminal .leftParen
  params : ParamsDeriv
  rp : Terminal .rightParen
  arrow : Terminal .arrow
  result : TypeTerminal
  body : BlockDeriv

namespace FunctionDeriv

def yield (f : FunctionDeriv) : List Token :=
  f.word.val :: f.name.val :: f.lp.val ::
    (f.params.yield ++ f.rp.val :: f.arrow.val :: f.result.val :: f.body.yield)

def tree (f : FunctionDeriv) : Function :=
  ⟨f.name.val.lexeme, f.params.trees, TypeTerminal.tree f.result, ⟨f.body.trees, .nowhere⟩,
    .nowhere⟩

def levels (f : FunctionDeriv) : Nat := f.body.levels

def depth (f : FunctionDeriv) : Nat := f.body.depth

/-- There is room for what the function holds; its body itself needs none. -/
def Fits (room : Nat) (f : FunctionDeriv) : Prop := f.body.Fits (room + 1)

end FunctionDeriv

/-- The functions of a program, in order. -/
structure ProgramDeriv where
  functions : List FunctionDeriv

namespace ProgramDeriv

def yield (p : ProgramDeriv) : List Token := p.functions.flatMap FunctionDeriv.yield

def tree (p : ProgramDeriv) : Program := ⟨p.functions.map FunctionDeriv.tree, .nowhere⟩

/-- Every expression of the program needs at most `n` levels. -/
def Within (n : Nat) (p : ProgramDeriv) : Prop := ∀ f ∈ p.functions, f.levels ≤ n

/-- Every function of the program fits on a stack of `n` levels. -/
def OnStack (n : Nat) (p : ProgramDeriv) : Prop := ∀ f ∈ p.functions, f.depth ≤ n

def Fits (stack : Nat) (p : ProgramDeriv) : Prop := ∀ f ∈ p.functions, f.Fits stack

theorem fits_iff (p : ProgramDeriv) :
    p.Fits stack ↔ p.Within maxExpressionDepth ∧ p.OnStack stack := by
  simp only [Fits, FunctionDeriv.Fits, BlockDeriv.fits_iff, Nat.lt_succ_iff]
  constructor
  · intro h
    exact ⟨fun f hf => (h f hf).1, fun f hf => (h f hf).2⟩
  · rintro ⟨hlevels, hdepth⟩ f hf
    exact ⟨hlevels f hf, hdepth f hf⟩

end ProgramDeriv

end BracketLang
