import BracketLang.Proofs.Grammar.Kept
import BracketLang.Proofs.Tree.Places

/-! What is read stands where it belongs. There are types and blocks in the tree, and nothing in it
keeps a type from standing where a value belongs, or a block from standing among the statements of
another. In what is read neither happens, whatever errors there are: values stand where values
belong, and the places of a tree are all its nodes. -/

namespace BracketLang

/-- Whether nodes of the kind are expressions. -/
def NodeKind.isExpression : NodeKind → Bool
  | binary | unary | call | var | integer | boolean => true
  | _ => false

/-! ## Expressions -/

mutual

/-- No type stands where a value belongs. -/
def Expr.Valued : Expr → Prop
  | .integer .. | .boolean .. | .var .. => True
  | .unary _ e _ => e.Valued
  | .binary l _ r _ => l.Valued ∧ r.Valued
  | .call _ args _ => Expr.AllValued args
  | .typeName _ => False

def Expr.AllValued : List Expr → Prop
  | [] => True
  | e :: es => e.Valued ∧ Expr.AllValued es

end

namespace Expr

mutual

theorem valued_bare (e : Expr) : e.bare.Valued ↔ e.Valued := by
  match e with
  | integer .. | boolean .. | var .. | typeName _ => exact Iff.rfl
  | unary _ e _ => rw [bare, Valued, Valued, valued_bare e]
  | binary l _ r _ => rw [bare, Valued, Valued, valued_bare l, valued_bare r]
  | call _ args _ => rw [bare, Valued, Valued, allValued_bareAll args]

theorem allValued_bareAll (es : List Expr) : AllValued (bareAll es) ↔ AllValued es := by
  match es with
  | [] => exact Iff.rfl
  | e :: es => rw [bareAll, AllValued, AllValued, valued_bare e, allValued_bareAll es]

end

mutual

theorem flat_node (e : Expr) : e.node.Flat := by
  match e with
  | integer .. | boolean .. | var .. | typeName _ => exact .leaf ..
  | unary op e s => exact .mk (by rintro ⟨⟩) (by simpa using flat_node e)
  | binary l op r s => exact .mk (by rintro ⟨⟩) (by simpa using ⟨flat_node l, flat_node r⟩)
  | call f args s => exact .mk (by rintro ⟨⟩) (flat_nodes args)

theorem flat_nodes (es : List Expr) : ∀ n ∈ nodes es, n.Flat := by
  match es with
  | [] => exact List.forall_mem_nil _
  | e :: es => exact List.forall_mem_cons.mpr ⟨flat_node e, flat_nodes es⟩

end

end Expr

mutual

theorem ExprDeriv.valued : (d : ExprDeriv p) → d.tree.Valued
  | .tighter _ e | .group _ e _ | .unary _ e => e.valued
  | .binary _ l _ r => ⟨l.valued, r.valued⟩
  | .integer _ | .boolean _ | .var _ => trivial
  | .call _ _ args _ => args.allValued

theorem ArgsDeriv.allValued : (d : ArgsDeriv) → Expr.AllValued d.trees
  | .none => trivial
  | .some e more => ⟨e.valued, more.allValued⟩

theorem MoreArgsDeriv.allValued : (d : MoreArgsDeriv) → Expr.AllValued d.trees
  | .nil => trivial
  | .cons _ e more => ⟨e.valued, more.allValued⟩

end

/-- What is read has values where values belong. -/
theorem Parsed.allExprs_valued (stack : Nat) (tokens : List Token) :
    (ofTokens stack tokens).program.AllExprs Expr.Valued := by
  have hexpr {e : Expr} {ts : List Token} (h : e.bare.Derived .or maxExpressionDepth ts) :
      e.Valued := by
    obtain ⟨d, -, htree, -⟩ := h
    rw [← Expr.valued_bare, ← htree]
    exact d.valued
  exact meets (T := fun _ => True) ⟨fun _ => hexpr, fun _ _ => trivial, fun _ _ _ => trivial⟩
    fun _ _ => trivial

/-! ## Statements and programs -/

namespace Stmt

variable {D : Demands}

theorem Meets.kind_ne_block {s : Stmt} (h : s.Meets D) : s.node.kind ≠ .block := by
  cases s with
  | block => exact h.elim
  | _ => rintro ⟨⟩

theorem AllMeet.kind_ne_block (h : AllMeet D ss) : ∀ n ∈ nodes ss, n.kind ≠ .block := by
  induction ss with
  | nil => exact List.forall_mem_nil _
  | cons s ss ih => exact List.forall_mem_cons.mpr ⟨h.1.kind_ne_block, ih h.2⟩

mutual

theorem Meets.flat {s : Stmt} (h : s.Meets D) : s.node.Flat := by
  match s with
  | letVar _ t e _ =>
    have ht : t.node.Flat := .leaf ..
    exact .mk (by rintro ⟨⟩) (by simpa using ⟨ht, e.flat_node⟩)
  | assign _ e _ | print e _ | expr e _ => exact .mk (by rintro ⟨⟩) (by simpa using e.flat_node)
  | ifThen c ss _ _ | whileLoop c ss _ _ =>
    exact .mk (by rintro ⟨⟩) (by simpa using ⟨c.flat_node, h.2.flat_block _⟩)
  | ifElse c ss _ ss' _ _ =>
    exact .mk (by rintro ⟨⟩)
      (by simpa using ⟨c.flat_node, h.2.1.flat_block _, h.2.2.flat_block _⟩)
  | ret none _ => exact .leaf ..
  | ret (some e) _ => exact .mk (by rintro ⟨⟩) (by simpa using e.flat_node)
  | block .. => exact h.elim

theorem AllMeet.flat {ss : List Stmt} (h : AllMeet D ss) : ∀ n ∈ nodes ss, n.Flat := by
  match ss with
  | [] => exact List.forall_mem_nil _
  | s :: ss => exact List.forall_mem_cons.mpr ⟨h.1.flat, h.2.flat⟩

theorem AllMeet.flat_block {ss : List Stmt} (h : AllMeet D ss) (s : Span) :
    (Node.mk .block s .nothing (nodes ss)).Flat := .mk (fun _ => h.kind_ne_block) h.flat

end

end Stmt

theorem Function.flat_node (f : Function) (h : f.Meets D) : f.node.Flat := by
  have htype (t : TypeName) : t.node.Flat := .leaf ..
  refine .mk (by rintro ⟨⟩) ?_
  rw [List.forall_mem_append]
  refine ⟨?_, by simpa using ⟨htype f.returnType, h.body.flat_block _⟩⟩
  intro n hn
  obtain ⟨p, -, rfl⟩ := List.mem_map.mp hn
  exact htype p.type

theorem Program.flat_node (p : Program) (h : p.Meets D) : p.node.Flat := by
  refine .mk (by rintro ⟨⟩) fun n hn => ?_
  obtain ⟨f, hf, rfl⟩ := List.mem_map.mp hn
  exact f.flat_node (h f hf)

end BracketLang
