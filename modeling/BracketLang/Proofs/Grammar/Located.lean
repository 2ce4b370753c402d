import BracketLang.Proofs.Grammar.Derivation

/-! The trees that derivations stand for with their spans. A span runs from the first token of a
construct to its last; those of parentheses around an expression do not count. Taking the spans out
again gives the bare trees (`ExprDeriv.bare_located` and so on). -/

namespace BracketLang

/-! ## Expressions -/

mutual

/-- The tree of an expression, with spans. -/
def ExprDeriv.located : ExprDeriv p → Expr
  | .tighter _ e => e.located
  | .binary _ l op r =>
    .binary l.located op.val.lexeme r.located ⟨l.located.span.start, r.located.span.finish⟩
  | .unary op e => .unary op.val.lexeme e.located ⟨op.val.location, e.located.span.finish⟩
  | .integer t => .integer t.val.value (.point t.val.location)
  | .boolean t => .boolean (t.val.kind = .trueWord) (.point t.val.location)
  | .var t => .var t.val.lexeme (.point t.val.location)
  | .call t _ args rp => .call t.val.lexeme args.located ⟨t.val.location, rp.val.location⟩
  | .group _ e _ => e.located

def ArgsDeriv.located : ArgsDeriv → List Expr
  | .none => []
  | .some e more => e.located :: more.located

def MoreArgsDeriv.located : MoreArgsDeriv → List Expr
  | .nil => []
  | .cons _ e more => e.located :: more.located

end

mutual

theorem ExprDeriv.bare_located : (d : ExprDeriv p) → d.located.bare = d.tree
  | .tighter _ e | .group _ e _ => e.bare_located
  | .binary _ l op r => by
    rw [ExprDeriv.located, Expr.bare, l.bare_located, r.bare_located, ExprDeriv.tree]
  | .unary op e => by rw [ExprDeriv.located, Expr.bare, e.bare_located, ExprDeriv.tree]
  | .integer _ | .boolean _ | .var _ => rfl
  | .call t lp args rp => by rw [ExprDeriv.located, Expr.bare, args.bareAll_located, ExprDeriv.tree]

theorem ArgsDeriv.bareAll_located : (d : ArgsDeriv) → Expr.bareAll d.located = d.trees
  | .none => rfl
  | .some e more => by
    rw [ArgsDeriv.located, Expr.bareAll, e.bare_located, more.bareAll_located, ArgsDeriv.trees]

theorem MoreArgsDeriv.bareAll_located : (d : MoreArgsDeriv) → Expr.bareAll d.located = d.trees
  | .nil => rfl
  | .cons _ e more => by
    rw [MoreArgsDeriv.located, Expr.bareAll, e.bare_located, more.bareAll_located,
      MoreArgsDeriv.trees]

end

/-! ## Statements -/

def TypeTerminal.located (t : TypeTerminal) : TypeName := ⟨t.val.lexeme, .point t.val.location⟩

mutual

/-- The tree of a statement, with spans. -/
def StmtDeriv.located : StmtDeriv → Stmt
  | .letVar word x _ t _ e semi =>
    .letVar x.val.lexeme (TypeTerminal.located t) e.located ⟨word.val.location, semi.val.location⟩
  | .assign x _ e semi => .assign x.val.lexeme e.located ⟨x.val.location, semi.val.location⟩
  | .ifThen word c b =>
    .ifThen c.located b.located.body b.located.span ⟨word.val.location, b.located.span.finish⟩
  | .ifElse word c b _ b' =>
    .ifElse c.located b.located.body b.located.span b'.located.body b'.located.span
      ⟨word.val.location, b'.located.span.finish⟩
  | .whileLoop word c b =>
    .whileLoop c.located b.located.body b.located.span ⟨word.val.location, b.located.span.finish⟩
  | .retNone word semi => .ret none ⟨word.val.location, semi.val.location⟩
  | .ret word e semi => .ret (some e.located) ⟨word.val.location, semi.val.location⟩
  | .print word e semi => .print e.located ⟨word.val.location, semi.val.location⟩
  | .expr e semi => .expr e.located ⟨e.located.span.start, semi.val.location⟩

def BlockDeriv.located : BlockDeriv → Block
  | .mk lb body rb => ⟨body.located, ⟨lb.val.location, rb.val.location⟩⟩

def BodyDeriv.located : BodyDeriv → List Stmt
  | .nil => []
  | .cons s ss => s.located :: ss.located

end

mutual

theorem StmtDeriv.bare_located : (d : StmtDeriv) → d.located.bare = d.tree
  | .letVar _ x _ t _ e _ => by
    rw [StmtDeriv.located, Stmt.bare, e.bare_located, StmtDeriv.tree]; rfl
  | .assign x _ e _ => by rw [StmtDeriv.located, Stmt.bare, e.bare_located, StmtDeriv.tree]
  | .ifThen _ c b | .whileLoop _ c b => by
    rw [StmtDeriv.located, Stmt.bare, c.bare_located, b.bareAll_located, StmtDeriv.tree]
  | .ifElse _ c b _ b' => by
    rw [StmtDeriv.located, Stmt.bare, c.bare_located, b.bareAll_located, b'.bareAll_located,
      StmtDeriv.tree]
  | .retNone _ _ => rfl
  | .ret _ e _ => by
    rw [StmtDeriv.located, Stmt.bare, Option.map_some, e.bare_located, StmtDeriv.tree]
  | .print _ e _ | .expr e _ => by rw [StmtDeriv.located, Stmt.bare, e.bare_located, StmtDeriv.tree]

theorem BlockDeriv.bareAll_located : (d : BlockDeriv) → Stmt.bareAll d.located.body = d.trees
  | .mk _ body _ => body.bareAll_located

theorem BodyDeriv.bareAll_located : (d : BodyDeriv) → Stmt.bareAll d.located = d.trees
  | .nil => rfl
  | .cons s ss => by
    rw [BodyDeriv.located, Stmt.bareAll, s.bare_located, ss.bareAll_located, BodyDeriv.trees]

end

/-! ## Functions -/

def ParamDeriv.located (p : ParamDeriv) : Param :=
  ⟨p.x.val.lexeme, TypeTerminal.located p.t, p.x.val.location⟩

namespace ParamsDeriv

def located : ParamsDeriv → List Param
  | none => []
  | some p more => p.located :: more.map fun q => q.2.located

theorem map_bare_located (d : ParamsDeriv) : d.located.map Param.bare = d.trees := by
  cases d with
  | none => rfl
  | some p more =>
    rw [located, List.map_cons, List.map_map]
    rfl

end ParamsDeriv

namespace FunctionDeriv

/-- The tree of a function, with spans. -/
def located (f : FunctionDeriv) : Function :=
  ⟨f.name.val.lexeme, f.params.located, TypeTerminal.located f.result, f.body.located,
    ⟨f.word.val.location, f.body.located.span.finish⟩⟩

theorem bare_located (f : FunctionDeriv) : f.located.bare = f.tree := by
  rw [located, Function.bare, f.params.map_bare_located, Block.bare, f.body.bareAll_located, tree]
  rfl

end FunctionDeriv

end BracketLang
