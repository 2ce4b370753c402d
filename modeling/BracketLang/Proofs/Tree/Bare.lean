import BracketLang.Tree.Basic

/-! Trees without places. Taking the spans and locations out of a tree leaves what it says; two
trees are the same, places aside, if they have the same bare form. -/

namespace BracketLang

/-- The span that bare trees have everywhere. -/
def Span.nowhere : Span := .point .origin

def TypeName.bare (t : TypeName) : TypeName := ⟨t.name, .nowhere⟩

namespace Expr

mutual

def bare : Expr → Expr
  | integer value _ => integer value .nowhere
  | boolean value _ => boolean value .nowhere
  | var name _ => var name .nowhere
  | unary op e _ => unary op e.bare .nowhere
  | binary l op r _ => binary l.bare op r.bare .nowhere
  | call name args _ => call name (bareAll args) .nowhere
  | typeName t => typeName t.bare

def bareAll : List Expr → List Expr
  | [] => []
  | e :: es => e.bare :: bareAll es

end

end Expr

namespace Stmt

mutual

def bare : Stmt → Stmt
  | letVar name t e _ => letVar name t.bare e.bare .nowhere
  | assign name e _ => assign name e.bare .nowhere
  | ifThen c ss _ _ => ifThen c.bare (bareAll ss) .nowhere .nowhere
  | ifElse c ss _ ss' _ _ => ifElse c.bare (bareAll ss) .nowhere (bareAll ss') .nowhere .nowhere
  | whileLoop c ss _ _ => whileLoop c.bare (bareAll ss) .nowhere .nowhere
  | ret value _ => ret (value.map Expr.bare) .nowhere
  | print e _ => print e.bare .nowhere
  | expr e _ => expr e.bare .nowhere
  | block ss _ => block (bareAll ss) .nowhere

def bareAll : List Stmt → List Stmt
  | [] => []
  | s :: ss => s.bare :: bareAll ss

end

end Stmt

def Block.bare (b : Block) : Block := ⟨Stmt.bareAll b.body, .nowhere⟩

def Param.bare (p : Param) : Param := ⟨p.name, p.type.bare, .origin⟩

def Function.bare (f : Function) : Function :=
  ⟨f.name, f.params.map Param.bare, f.returnType.bare, f.body.bare, .nowhere⟩

def Program.bare (p : Program) : Program := ⟨p.functions.map Function.bare, .nowhere⟩

end BracketLang
