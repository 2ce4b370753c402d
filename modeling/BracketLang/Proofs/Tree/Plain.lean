import BracketLang.Tree.Basic

/-! Trees that meet demands. `Demands` asks something of the expressions, the names and the types in
a tree, and `Program.Meets` that they all are as asked and that nothing but a statement stands where
a statement belongs. In plain trees, every type is `i32` or `bool` and every operator is one of the
language's. -/

namespace BracketLang

/-- What is asked of the expressions, names and types of a tree. -/
structure Demands where
  expr : Expr → Prop
  name : String → Prop
  type : TypeName → Prop

mutual

/-- The statement is as asked, and no block stands where a statement belongs. -/
def Stmt.Meets (D : Demands) : Stmt → Prop
  | .letVar x t e _ => D.name x ∧ D.type t ∧ D.expr e
  | .assign x e _ => D.name x ∧ D.expr e
  | .ifThen c ss _ _ | .whileLoop c ss _ _ => D.expr c ∧ Stmt.AllMeet D ss
  | .ifElse c ss _ ss' _ _ => D.expr c ∧ Stmt.AllMeet D ss ∧ Stmt.AllMeet D ss'
  | .ret none _ => True
  | .ret (some e) _ | .print e _ | .expr e _ => D.expr e
  | .block .. => False

def Stmt.AllMeet (D : Demands) : List Stmt → Prop
  | [] => True
  | s :: ss => s.Meets D ∧ Stmt.AllMeet D ss

end

structure Param.Meets (D : Demands) (p : Param) : Prop where
  name : D.name p.name
  type : D.type p.type

structure Function.Meets (D : Demands) (f : Function) : Prop where
  name : D.name f.name
  params : ∀ p ∈ f.params, p.Meets D
  returnType : D.type f.returnType
  body : Stmt.AllMeet D f.body.body

def Program.Meets (D : Demands) (p : Program) : Prop := ∀ f ∈ p.functions, f.Meets D

/-- Every expression that stands in a statement of the program has `P`. -/
def Program.AllExprs (P : Expr → Prop) (p : Program) : Prop :=
  p.Meets ⟨P, fun _ => True, fun _ => True⟩

theorem Stmt.allMeet_append (hs : AllMeet D ss) (hs' : AllMeet D ss') : AllMeet D (ss ++ ss') := by
  induction ss with
  | nil => exact hs'
  | cons s ss ih => exact ⟨hs.1, ih hs.2⟩

/-- What is as the first demands ask is as the second ask. -/
structure Demands.Imply (D D' : Demands) : Prop where
  expr {e} : D.expr e → D'.expr e
  name {x} : D.name x → D'.name x
  type {t} : D.type t → D'.type t

mutual

theorem Stmt.Meets.mono {s : Stmt} (h : s.Meets D) (H : D.Imply D') : s.Meets D' := by
  match s with
  | .letVar .. => exact ⟨H.name h.1, H.type h.2.1, H.expr h.2.2⟩
  | .assign .. => exact ⟨H.name h.1, H.expr h.2⟩
  | .ifThen .. | .whileLoop .. => exact ⟨H.expr h.1, Stmt.AllMeet.mono h.2 H⟩
  | .ifElse .. => exact ⟨H.expr h.1, Stmt.AllMeet.mono h.2.1 H, Stmt.AllMeet.mono h.2.2 H⟩
  | .ret none _ => trivial
  | .ret (some _) _ | .print .. | .expr .. => exact H.expr h
  | .block .. => exact h.elim

theorem Stmt.AllMeet.mono {ss : List Stmt} (h : Stmt.AllMeet D ss) (H : D.Imply D') :
    Stmt.AllMeet D' ss := by
  match ss with
  | [] => trivial
  | _ :: _ => exact ⟨Stmt.Meets.mono h.1 H, Stmt.AllMeet.mono h.2 H⟩

end

theorem Program.Meets.mono {p : Program} (h : p.Meets D) (H : D.Imply D') : p.Meets D' := by
  intro f hf
  obtain ⟨hname, hparams, hresult, hbody⟩ := h f hf
  exact ⟨H.name hname, fun p hp => ⟨H.name (hparams p hp).name, H.type (hparams p hp).type⟩,
    H.type hresult, hbody.mono H⟩

/-! ## Plain trees -/

/-- The operators in front of a value. -/
def unaryOperators : List String := ["-", "!"]

/-- The operators between two values. -/
def binaryOperators : List String :=
  ["||", "&&", "==", "!=", "<", ">", "<=", ">=", "+", "-", "*", "/"]

/-- A type that the language has. -/
def TypeName.Plain (t : TypeName) : Prop := t.name = "i32" ∨ t.name = "bool"

mutual

/-- Every operator is one of the language's, and no type stands where a value belongs. -/
def Expr.Plain : Expr → Prop
  | .integer .. | .boolean .. | .var .. => True
  | .unary op e _ => op ∈ unaryOperators ∧ e.Plain
  | .binary l op r _ => op ∈ binaryOperators ∧ l.Plain ∧ r.Plain
  | .call _ args _ => Expr.AllPlain args
  | .typeName _ => False

def Expr.AllPlain : List Expr → Prop
  | [] => True
  | e :: es => e.Plain ∧ Expr.AllPlain es

end

/-- All expressions and types are plain, whatever the names. -/
def Demands.plain : Demands := ⟨Expr.Plain, fun _ => True, TypeName.Plain⟩

abbrev Stmt.Plain (s : Stmt) : Prop := s.Meets .plain

abbrev Function.Plain (f : Function) : Prop := f.Meets .plain

abbrev Program.Plain (p : Program) : Prop := p.Meets .plain

end BracketLang
