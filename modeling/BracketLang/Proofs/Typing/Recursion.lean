import BracketLang.Proofs.Tree.Bare
import BracketLang.Proofs.Typing.Silence
import BracketLang.Proofs.Typing.Walk

/-! Checking by recursion on the expression. `Expr.checkByParts` is the check as one would write it
down: the parts from left to right, then the expression itself, whatever it is, with no levels to
count. The checker walks down chains of operators instead, keeps the operators in a list and goes
into all other parts a level deeper. Whenever it comes to its end it has done the same: the type,
the errors in their order and the types of all nodes are those of the recursion. -/

namespace BracketLang

namespace Check

variable {α β : Type} {x y : Check α} {f g : α → Check β}

/-- `x` is the check `y`, unless it runs out of levels. -/
def Approximates (x y : Check α) : Prop := x.Total → x = y

namespace Approximates

theorem refl (x : Check α) : x.Approximates x := fun _ => rfl

theorem exhausted (y : Check α) : Approximates .exhausted y := by
  rintro ⟨a, h⟩
  cases h

theorem bind (hx : x.Approximates y) (hf : ∀ a, (f a).Approximates (g a)) :
    (x >>= f).Approximates (y >>= g) := by
  rintro ⟨b, h⟩
  obtain ⟨a, hxa, hfb⟩ := result_bind_eq_some h
  have hfa : f a = g a := hf a ⟨b, hfb⟩
  rw [← hx ⟨a, hxa⟩, bind_of_some hxa, bind_of_some hxa, hfa]

/-- What follows may be the same on both sides. -/
theorem followed (hx : x.Approximates y) (f : α → Check β) : (x >>= f).Approximates (y >>= f) :=
  hx.bind fun a => refl (f a)

end Approximates

end Check

open Check

namespace Expr

mutual

/-- Checks an expression by recursion: its parts from left to right, then the expression itself. -/
def checkByParts (table : SymbolTable) (path : Path) : Expr → Check Ty
  | integer _ _ => noted path (pure .int)
  | boolean _ _ => noted path (pure .bool)
  | var name span => noted path (checkVar table name ⟨path, .var, span⟩)
  | unary operator operand span => noted path do
    let type ← operand.checkByParts table (0 :: path)
    checkUnary operator operand type ⟨path, .unary, span⟩
  | binary left operator right span => noted path do
    let leftType ← left.checkByParts table (0 :: path)
    let rightType ← right.checkByParts table (1 :: path)
    Link.resultType ⟨path, left, operator, right, span⟩ leftType rightType
  | call name args span => noted path <|
    checkCallWith table name args (checkAllByParts table path 0 args) ⟨path, .call, span⟩
  | typeName _ => noted path (pure .error)

/-- Checks expressions from left to right, the first of which has the given index. -/
def checkAllByParts (table : SymbolTable) (path : Path) (index : Nat) :
    List Expr → Check (List Ty)
  | [] => return []
  | e :: es => do
    let type ← e.checkByParts table (index :: path)
    let types ← checkAllByParts table path (index + 1) es
    return type :: types

end

theorem approximates_checkCallWith {table : SymbolTable} {types types' : Check (List Ty)}
    (h : types.Approximates types') (name : String) (args : List Expr) (node : NodeRef) :
    (checkCallWith table name args types node).Approximates
      (checkCallWith table name args types' node) := by
  rw [checkCallWith_eq_bind, checkCallWith_eq_bind]
  exact (Approximates.refl _).bind fun _ => h.followed _

/-- An expression is checked as the recursion checks it, if its parts are. -/
theorem walk_approximates (table : SymbolTable) : Walk table
    (fun _ path e x => x.Approximates (e.checkByParts table path))
    (fun _ path i es x => x.Approximates (checkAllByParts table path i es)) where
  exhausted := .exhausted _
  integer := .refl _
  boolean := .refl _
  typeName := .refl _
  var := .refl _
  unary hx := (hx.followed _).followed _
  binary hx hy := (hx.bind fun _ => hy.followed _).followed _
  call hx := (approximates_checkCallWith hx _ _ _).followed _
  nil := .refl _
  cons hx hy := hx.bind fun _ => hy.followed _

/-- However many levels there are, a check that does not run out of them is the recursion: it gives
the same type, finds the same errors in the same order and notes the same types. -/
theorem checkWithin_eq_checkByParts (table : SymbolTable) (levels : Nat) (path : Path) (e : Expr)
    (h : (e.checkWithin table levels path).result ≠ none) :
    e.checkWithin table levels path = e.checkByParts table path :=
  (walk_approximates table).check levels path e (Option.ne_none_iff_exists'.mp h)

/-- The expression `-1 + half(2 < 3, 4) * 5 == true && !6`, in which three things are wrong: the
first argument of `half`, what is compared, and the operand of `!`. -/
def halfRight : Expr :=
  .binary (.binary (.binary (.unary "-" (number 1) .nowhere) "+"
      (.binary (.call "half" [.binary (number 2) "<" (number 3) .nowhere, number 4] .nowhere) "*"
        (number 5) .nowhere) .nowhere)
    "==" (.boolean true .nowhere) .nowhere)
    "&&" (.unary "!" (number 6) .nowhere) .nowhere
where
  number (n : Int) : Expr := .integer (some (.int n)) .nowhere

/-- The function `half` with two integers as parameters. -/
def halfTable : SymbolTable :=
  { SymbolTable.empty with
    global.symbols := [⟨"half", .function, .int, .origin, [.int, .int]⟩] }

theorem check_halfRight : (halfRight.check 4 halfTable []).result ≠ none ∧
    halfRight.check 4 halfTable [] = halfRight.checkByParts halfTable [] ∧
    (halfRight.checkByParts halfTable []).errors.length = 3 := by
  have h : (halfRight.check 4 halfTable []).result ≠ none := by decide +kernel
  exact ⟨h, checkWithin_eq_checkByParts halfTable 4 [] halfRight h, by decide +kernel⟩

end Expr

end BracketLang
