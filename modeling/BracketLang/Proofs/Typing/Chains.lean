import BracketLang.Typing.Expression

/-! The walk over a chain of operators is the plain recursion. `checkChain` goes down the left
operands of a chain and keeps the operators it passed; `checkChain_eq_bind` says that this is the
check of what it stands at, followed by the operators kept, and `checkChain_binary` that an
operator is therefore checked by checking its left operand, then its right one, and then comparing
the two. -/

namespace BracketLang.Expr

variable {sub : Path → Expr → Check Ty} {table : SymbolTable}

theorem checkLinks_cons (l : Link) (ls : List Link) (left : Ty) :
    checkLinks sub (l :: ls) left = checkLinks sub [l] left >>= checkLinks sub ls := by
  simp [checkLinks]

theorem startChain_eq_bind (path : Path) (links : List Link) (x : Check Ty) :
    startChain sub path links x = startChain sub path [] x >>= checkLinks sub links := by
  simp [startChain, checkLinks]

/-- The operators kept on the way down come after everything below them. -/
theorem checkChain_eq_bind (path : Path) (links : List Link) (e : Expr) :
    checkChain sub table path links e =
      checkChain sub table path [] e >>= checkLinks sub links := by
  match e with
  | binary left op right span =>
    -- both sides go on with `left`, one operator deeper
    rw [checkChain, checkChain, checkChain_eq_bind (0 :: path) (_ :: links) left,
      checkChain_eq_bind (0 :: path) [_] left, bind_assoc]
    congr 1
    funext t
    exact checkLinks_cons ..
  | integer .. | boolean .. | var .. | unary .. | call .. | typeName .. =>
    simp only [checkChain]
    exact startChain_eq_bind ..

theorem checkChain_binary (path : Path) (left : Expr) (op : String) (right : Expr) (span : Span) :
    checkChain sub table path [] (binary left op right span) = do
      let leftType ← checkChain sub table (0 :: path) [] left
      let rightType ← sub (1 :: path) right
      let type ← Link.resultType ⟨path, left, op, right, span⟩ leftType rightType
      .annotate path type
      return type := by
  rw [checkChain, checkChain_eq_bind]
  simp only [checkLinks]

theorem startChain_nil (path : Path) (x : Check Ty) :
    startChain sub path [] x = do
      let type ← x
      .annotate path type
      return type := by
  simp only [startChain, checkLinks]

end BracketLang.Expr
