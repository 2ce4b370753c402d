import BracketLang.Typing.Analysis
import Mathlib.Data.List.Forall2

/-! The typing rules of the language, stated without a checker. `HasType` types expressions,
`Stmt.Typed` and `Stmt.AllTyped` type statements and blocks and say which variables they leave
behind, and `Program.WellTyped` puts functions together.

An environment is a list of frames, innermost first, one for every open block. The body of a
function shares its frame with the parameters, every other block has a frame of its own, and a
declaration extends the innermost frame. Functions are no part of the environment: a call sees all
functions of the program, whatever variables there are.

The rules are about plain trees (`Program.Plain`). -/

namespace BracketLang

/-! ## Environments -/

/-- The variables of one block with their types, in order of declaration. -/
abbrev Frame := List (String × Ty)

/-- The frames of the blocks around a place, innermost first. -/
abbrev Env := List Frame

namespace Env

/-- The type of a variable, found in the innermost frame that has one of this name. -/
def type? (Γ : Env) (x : String) : Option Ty := Γ.findSome? (·.lookup x)

end Env

/-! ## Rules for expressions -/

/-- `op` in front of a value of type `t` gives another one. -/
inductive UnaryRule : (op : String) → (t : Ty) → Prop
  | minus : UnaryRule "-" .int
  | not : UnaryRule "!" .bool

/-- `op` between two values of type `t` gives one of type `r`. -/
inductive BinaryRule : (op : String) → (t r : Ty) → Prop
  | arithmetic : op ∈ ["+", "-", "*", "/"] → BinaryRule op .int .int
  | relational : op ∈ ["<", ">", "<=", ">="] → BinaryRule op .int .bool
  | equality : op ∈ ["==", "!="] → t = .int ∨ t = .bool → BinaryRule op t .bool
  | logical : op ∈ ["&&", "||"] → BinaryRule op .bool .bool

/-- In a program with functions `fs`, an expression has a type in an environment. -/
inductive HasType (fs : List Function) (Γ : Env) : Expr → Ty → Prop
  | integer : HasType fs Γ (.integer v s) .int
  | boolean : HasType fs Γ (.boolean b s) .bool
  | var : Γ.type? x = some t → HasType fs Γ (.var x s) t
  | unary : UnaryRule op t → HasType fs Γ e t → HasType fs Γ (.unary op e s) t
  | binary : BinaryRule op t r → HasType fs Γ e t → HasType fs Γ e' t →
    HasType fs Γ (.binary e op e' s) r
  | call : f ∈ fs → f.name = x → List.Forall₂ (HasType fs Γ) es f.paramTypes →
    HasType fs Γ (.call x es s) f.resultType

/-! ## Rules for statements -/

mutual

/-- In a function that returns `r`, a statement is typed in `Γ` and leaves `Γ'` behind. A `return`
without a value is never typed. -/
inductive Stmt.Typed (fs : List Function) (r : Ty) : (Γ : Env) → Stmt → (Γ' : Env) → Prop
  | letVar : HasType fs (φ :: Γ) e (.ofName t.name) → x ∉ φ.map Prod.fst →
    Stmt.Typed fs r (φ :: Γ) (.letVar x t e s) ((φ ++ [(x, .ofName t.name)]) :: Γ)
  | assign : Γ.type? x = some t → HasType fs Γ e t → Stmt.Typed fs r Γ (.assign x e s) Γ
  | ifThen : HasType fs Γ c .bool → Stmt.AllTyped fs r ([] :: Γ) ss Γ₁ →
    Stmt.Typed fs r Γ (.ifThen c ss s₁ s) Γ
  | ifElse : HasType fs Γ c .bool → Stmt.AllTyped fs r ([] :: Γ) ss Γ₁ →
    Stmt.AllTyped fs r ([] :: Γ) ss' Γ₂ → Stmt.Typed fs r Γ (.ifElse c ss s₁ ss' s₂ s) Γ
  | whileLoop : HasType fs Γ c .bool → Stmt.AllTyped fs r ([] :: Γ) ss Γ₁ →
    Stmt.Typed fs r Γ (.whileLoop c ss s₁ s) Γ
  | ret : HasType fs Γ e r → Stmt.Typed fs r Γ (.ret (some e) s) Γ
  | print : HasType fs Γ e t → Stmt.Typed fs r Γ (.print e s) Γ
  | expr : HasType fs Γ e t → Stmt.Typed fs r Γ (.expr e s) Γ

/-- The statements of a block are typed one after the other. -/
inductive Stmt.AllTyped (fs : List Function) (r : Ty) : (Γ : Env) → List Stmt → (Γ' : Env) → Prop
  | nil : Stmt.AllTyped fs r Γ [] Γ
  | cons : Stmt.Typed fs r Γ s Γ₁ → Stmt.AllTyped fs r Γ₁ ss Γ₂ →
    Stmt.AllTyped fs r Γ (s :: ss) Γ₂

end

/-! ## Rules for programs -/

/-- Parameters as a frame. -/
def Param.frame (ps : List Param) : Frame := ps.map fun p => (p.name, .ofName p.type.name)

/-- Parameters have different names, and the body is typed in their frame. -/
structure Function.WellTyped (fs : List Function) (f : Function) : Prop where
  params : (f.params.map Param.name).Nodup
  body : ∃ Γ, Stmt.AllTyped fs f.resultType [Param.frame f.params] f.body.body Γ

/-- Functions have different names, and each is well typed among all of them. -/
structure Program.WellTyped (p : Program) : Prop where
  names : (p.functions.map Function.name).Nodup
  functions : ∀ f ∈ p.functions, f.WellTyped p.functions

end BracketLang
