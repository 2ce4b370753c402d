import BracketLang.Proofs.Grammar.Placement
import BracketLang.Proofs.Typing.Levels
import Mathlib.Data.List.Perm.Subperm

/-! Which nodes have a type after a check. `Check.Covers` says that a check notes a type for each of
some nodes, once for each, and that a declaration gets the type it declares. Whatever is wrong with
a program, checking it to its end covers its declarations and all that is in its expressions. In a
tree that was read these are the nodes of two sorts, wherever they are. -/

namespace BracketLang

variable {levels : Nat}

/-- Whether nodes of the kind have a type: expressions and declarations. -/
def NodeKind.isTyped (k : NodeKind) : Bool := k.isExpression || k = .letVar

/-- The node is a declaration of type `t`. -/
def Node.DeclaredAs (n : Node) (t : Ty) : Prop :=
  ∃ name type e span, n = (Stmt.letVar name type e span).node ∧ t = .ofName type.name

/-! ## What a check covers -/

namespace Check

variable {α β : Type} {x y : Check α} {f : α → Check β} {l l' : List (Path × Node)}

/-- Unless the check runs out of levels, it notes a type for each of these nodes, once, and for a
declaration the declared type. -/
structure Covers (x : Check α) (l : List (Path × Node)) : Prop where
  paths {a} : x.result = some a → (x.types.map Prod.fst).Perm (l.map Prod.fst)
  declared {a} : x.result = some a → ∀ q ∈ l, q.2.kind = .letVar →
    ∃ t, q.2.DeclaredAs t ∧ (q.1, t) ∈ x.types

namespace Covers

theorem exhausted : (Check.exhausted : Check α).Covers l where
  paths h := by cases h
  declared h := by cases h

theorem of_types (h : x.types = []) : x.Covers [] where
  paths _ := by
    rw [h]
    exact .nil
  declared _ := List.forall_mem_nil _

theorem pure (a : α) : (Pure.pure a : Check α).Covers [] := of_types rfl

theorem report (e : SemanticError) : (Check.report e).Covers [] := of_types rfl

theorem annotate {n : Node} (path : Path) (h : n.kind = .letVar → n.DeclaredAs t) :
    (Check.annotate path t).Covers [(path, n)] where
  paths _ := .refl _
  declared _ := by
    rw [List.forall_mem_singleton]
    exact fun hn => ⟨t, h hn, List.mem_singleton_self _⟩

theorem bind (hx : x.Covers l) (hf : ∀ a, x.result = some a → (f a).Covers l') :
    (x >>= f).Covers (l ++ l') := by
  constructor
  · intro b hb
    obtain ⟨a, ha, hfa⟩ := result_bind_eq_some hb
    rw [bind_of_some ha, List.map_append, List.map_append]
    exact (hx.paths ha).append ((hf a ha).paths hfa)
  · intro b hb q hq hlet
    obtain ⟨a, ha, hfa⟩ := result_bind_eq_some hb
    rw [bind_of_some ha]
    rcases List.mem_append.mp hq with hq | hq
    · obtain ⟨t, ht, hmem⟩ := hx.declared ha q hq hlet
      exact ⟨t, ht, List.mem_append_left _ hmem⟩
    · obtain ⟨t, ht, hmem⟩ := (hf a ha).declared hfa q hq hlet
      exact ⟨t, ht, List.mem_append_right _ hmem⟩

theorem perm (hx : x.Covers l) (h : l.Perm l') : x.Covers l' where
  paths ha := (hx.paths ha).trans (h.map _)
  declared ha q hq := hx.declared ha q (h.mem_iff.mpr hq)

end Covers

/-- An account of the nodes that get a type, as long as nothing runs out of levels. -/
def covering : Account (Path × Node) :=
  .ofComplete (fun l x => x.Covers l) .pure .bind .perm

theorem untyped_covering : covering.Untyped := fun _ _ _ _ _ _ => .report _

/-- An account of where types are noted at most, whatever is checked. -/
def noting : Account Path where
  Assumes _ := True
  Holds l x := (x.types.map Prod.fst).Subperm l
  pure _ := List.nil_subperm
  bind {_ _ x f l l'} hx hf := by
    cases h : x.result with
    | none =>
      rw [bind_of_none h]
      exact hx.trans (List.sublist_append_left l l').subperm
    | some a =>
      rw [bind_of_some h, List.map_append]
      exact hx.append (hf a h trivial)
  perm hx hl := hx.trans hl.subperm
  orExhausted a n hx := by rwa [types_orExhausted]

theorem untyped_noting : noting.Untyped := fun _ _ _ _ _ => List.nil_subperm

end Check

open Check

/-! ## Typed nodes -/

/-- The node itself, if it is an expression or a declaration. -/
def Node.typed (q : Path × Node) : List (Path × Node) := if q.2.kind.isTyped then [q] else []

theorem Node.typed_of_isMute {q : Path × Node} (h : q.2.kind.isMute) : typed q = [] := by
  obtain ⟨path, k, s, d, cs⟩ := q
  cases k with
  | program | block | typeName => rfl
  | _ => cases h

namespace Expr

theorem typed_node {e : Expr} (h : e.Valued) (path : Path) :
    Node.typed (path, e.node) = [(path, e.node)] := by
  cases e with
  | typeName => exact h.elim
  | _ => rfl

theorem kind_node_ne_letVar (e : Expr) : e.node.kind ≠ .letVar := by
  cases e <;> rintro ⟨⟩

theorem valued_of_mem (h : AllValued es) (he : e ∈ es) : e.Valued := by
  induction es with
  | nil => cases he
  | cons a es ih =>
    rcases List.mem_cons.mp he with rfl | he
    · exact h.1
    · exact ih h.2 he

theorem accounted_covering (table : SymbolTable) :
    Accounted covering Node.typed Node.typed (fun _ => []) table fun _ _ e => e.Valued where
  split q := (List.append_nil (Node.typed q)).symm
  untyped := untyped_covering
  exhausted _ _ := .exhausted
  noted {n path e} t he _ := by
    rw [typed_node he]
    exact .annotate path fun h => absurd h e.kind_node_ne_letVar
  raised _ := covering.raise (fun _ => .pure ()) fun _ _ _ => .report _
  operand he := he
  left he := he.1
  right he := he.2
  arg he ha := valued_of_mem he (List.mem_of_getElem? ha)

theorem accounted_noting (table : SymbolTable) :
    Accounted noting (fun q => [q.1]) (fun q => [q.1]) (fun _ => []) table
      fun _ _ _ => True where
  split _ := rfl
  untyped := untyped_noting
  exhausted _ := List.nil_subperm
  noted _ _ := List.Subperm.refl _
  raised _ := noting.raise List.nil_subperm fun _ _ => List.nil_subperm
  operand _ := trivial
  left _ := trivial
  right _ := trivial
  arg _ _ := trivial

end Expr

namespace Stmt

theorem mute_covering {q : Path × Node} (hq : q.2.kind.isMute) :
    covering.Holds (Node.typed q) (pure () : Check Unit) := by
  rw [Node.typed_of_isMute hq]
  exact fun _ => .pure ()

theorem accounted_covering (levels : Nat) : Accounted covering Node.typed levels
    fun _ _ _ ss => AllMeet ⟨Expr.Valued, N, T⟩ ss where
  mute := mute_covering
  opening {table path i s ss} h hs := by
    refine holds_opening (fun q => (List.append_nil (Node.typed q)).symm) untyped_covering
      (i :: path) hs (fun _ => mute_covering)
      (fun j e he => (Expr.accounted_covering table).holds_check (h.1.value he)) ?_ ?_
    · cases s with
      | letVar x type e span =>
        exact fun _ => .annotate _ fun _ => ⟨x, type, e, span, rfl, rfl⟩
      | block => exact absurd rfl hs
      | _ => exact fun _ => .pure ()
    · exact covering.raise (fun _ => .pure ()) fun _ _ _ => .report _
  body h hbody := h.1.body hbody
  tail h _ _ := h.2

theorem accounted_noting (levels : Nat) :
    Accounted noting (fun q => [q.1]) levels fun _ _ _ _ => True where
  mute _ := List.nil_subperm
  opening {table path i s ss} _ hs := by
    refine holds_opening (fun q => (List.append_nil [q.1]).symm) untyped_noting (i :: path) hs
      (fun _ _ => List.nil_subperm)
      (fun j e _ => (Expr.accounted_noting table).holds_check trivial) ?_ ?_
    · cases s with
      | letVar => exact List.Subperm.refl _
      | _ => exact List.nil_subperm
    · exact noting.raise List.nil_subperm fun _ _ => List.nil_subperm
  body _ _ := trivial
  tail _ _ _ := trivial

end Stmt

/-! ## Types of nodes -/

namespace Program

theorem accounted_noting (levels : Nat) (p : Program) :
    Accounted noting (fun q => [q.1]) levels p (fun _ i => [[i]]) (fun _ _ => [])
      fun _ _ _ _ => True where
  statements := Stmt.accounted_noting levels
  split _ _ _ := rfl
  declared := Function.holds_declareAll (l := fun _ i => [[i]]) (fun t f i =>
    Function.holds_declare t f i List.nil_subperm fun _ _ => List.nil_subperm) ..
  params _ _ := Function.holds_declareParams (fun _ _ => List.nil_subperm) ..
  ready _ _ _ := trivial

/-- No node gets a type twice. -/
theorem nodup_types (levels : Nat) (p : Program) : ((p.check levels).types.map Prod.fst).Nodup := by
  have hnoted : ((p.check levels).types.map Prod.fst).Subperm
      ((p.node.places []).flatMap fun q => [q.1]) := (p.accounted_noting levels).holds_check
  rw [← List.map_eq_flatMap] at hnoted
  obtain ⟨l, hperm, hsub⟩ := hnoted
  exact hperm.nodup_iff.mp (hsub.nodup (p.node.nodup_places []))

theorem accounted_covering (levels : Nat) (p : Program) (hp : p.AllExprs Expr.Valued) :
    Accounted covering Node.typed levels p (fun _ _ => []) (fun _ _ => [])
      fun _ _ _ ss => Stmt.AllMeet ⟨Expr.Valued, fun _ => True, fun _ => True⟩ ss where
  statements := Stmt.accounted_covering levels
  split _ _ _ := rfl
  declared := Function.holds_declareAll (l := fun _ _ => []) (fun t f i =>
    Function.holds_declare t f i (fun _ => .pure ()) fun _ _ _ => .report _) ..
  params _ _ := Function.holds_declareParams (fun _ _ _ => .report _) ..
  ready _ hf _ := (hp _ (List.fst_mem_of_mem_zipIdx hf)).body

/-- In a program with nothing misplaced, expressions and declarations are covered. -/
theorem covers_check (p : Program) (hp : p.AllExprs Expr.Valued) (hc : (p.check levels).Complete) :
    (p.check levels).Covers ((p.node.places []).flatMap Node.typed) :=
  (p.accounted_covering levels hp).holds_check hc

/-- In such a program, they are covered wherever they are. -/
theorem mem_typed_iff (p : Program) (hp : p.AllExprs Expr.Valued) :
    (path, n) ∈ (p.node.places []).flatMap Node.typed ↔
      p.node.at? path = some n ∧ n.kind.isTyped := by
  have hplaces : (path, n) ∈ p.node.places [] ↔ p.node.at? path = some n :=
    ⟨Node.at?_of_mem_places p.node rfl _, fun hat => ((p.flat_node hp).mem_places hat).2⟩
  rw [← hplaces, List.mem_flatMap]
  constructor
  · rintro ⟨q, hq, hmem⟩
    unfold Node.typed at hmem
    split at hmem
    · next htyped =>
      cases List.mem_singleton.mp hmem
      exact ⟨hq, htyped⟩
    · cases hmem
  · rintro ⟨hq, htyped⟩
    refine ⟨_, hq, ?_⟩
    rw [Node.typed, if_pos htyped]
    exact List.mem_singleton_self _

end Program

namespace Analysis

theorem typeAt?_of_mem {a : Analysis} (hnodup : (a.types.map Prod.fst).Nodup)
    (h : (path, t) ∈ a.types) : a.typeAt? path = some t := by
  obtain ⟨before, behind, hsplit⟩ := List.append_of_mem h
  refine List.lookup_eq_some_iff.mpr ⟨before, behind, hsplit, fun q hq => ?_⟩
  rw [hsplit, List.map_append, List.map_cons] at hnodup
  rw [bne_iff_ne]
  rintro rfl
  exact (List.nodup_append.mp hnodup).2.2 _ (List.mem_map_of_mem hq) _ List.mem_cons_self rfl

theorem isSome_typeAt? {a : Analysis} : (a.typeAt? path).isSome ↔ path ∈ a.types.map Prod.fst := by
  rw [typeAt?, List.lookup_isSome_iff]
  simp

/-- Whatever is wrong with a program that was read, after it is checked exactly the expressions and
the declarations in it have a type. Each of them gets it once, and a declaration gets the type that
it declares. -/
theorem typed_nodes_of_read (stack levels : Nat) (tokens : List Token)
    (hl : maxExpressionDepth ≤ levels) :
    let p := (Parsed.ofTokens stack tokens).program
    (∀ path, ((ofProgram levels p).typeAt? path).isSome ↔
      ∃ n, p.node.at? path = some n ∧ (n.kind.isExpression ∨ n.kind = .letVar)) ∧
    ((ofProgram levels p).types.map Prod.fst).Nodup ∧
    ∀ path n, p.node.at? path = some n → n.kind = .letVar →
      ∃ name type initializer span, n = (Stmt.letVar name type initializer span).node ∧
        (ofProgram levels p).typeAt? path = some (.ofName type.name) := by
  intro p
  have hvalued : p.AllExprs Expr.Valued := Parsed.allExprs_valued stack tokens
  have hlevels : p.Meets (Stmt.withinLevels levels) :=
    Parsed.allExprs_of_nesting stack tokens fun e he => Nat.lt_of_lt_of_le he hl
  have hcovers := p.covers_check hvalued (p.finishes_check hlevels).complete
  have hnodup := p.nodup_types levels
  obtain ⟨table, ht⟩ := p.total_check
  refine ⟨fun path => ?_, hnodup, fun path n hat hlet => ?_⟩
  · rw [isSome_typeAt?]
    refine (hcovers.paths ht).mem_iff.trans ?_
    simp [p.mem_typed_iff hvalued, NodeKind.isTyped]
  · have hmem := (p.mem_typed_iff hvalued).mpr ⟨hat, by simp [hlet, NodeKind.isTyped]⟩
    obtain ⟨t, ⟨name, type, e, span, hn, rfl⟩, htype⟩ := hcovers.declared ht _ hmem hlet
    exact ⟨name, type, e, span, hn, typeAt?_of_mem hnodup htype⟩

/-- The tokens of `func f() -> i32 [ let x: bool = -true; ]`. -/
def misfit : List Token :=
  [spelled .funcWord, ⟨.identifier, "f", none, .origin⟩, spelled .leftParen, spelled .rightParen,
    spelled .arrow, spelled .i32Word, spelled .leftBracket, spelled .letWord,
    ⟨.identifier, "x", none, .origin⟩, spelled .colon, spelled .boolWord, spelled .assign,
    spelled .minus, spelled .trueWord, spelled .semicolon, spelled .rightBracket]
where
  spelled (k : TokenKind) : Token := ⟨k, k.spelling, none, .origin⟩

/-- What is wrong with the initializer keeps neither its parts nor the declaration from having a
type. -/
theorem typed_misfit : maxExpressionDepth ≤ 100 ∧
    let a := ofProgram 100 (Parsed.ofTokens 100 misfit).program
    a.errors.map SemanticError.code = ["S001"] ∧ (a.typeAt? [0, 1, 0, 1, 0]).isSome ∧
      ∃ type : TypeName, a.typeAt? [0, 1, 0] = some (.ofName type.name) := by
  have hl : maxExpressionDepth ≤ 100 := by decide
  have hoperand : ((Parsed.ofTokens 100 misfit).program.node.at? [0, 1, 0, 1, 0]).map Node.kind =
      some .boolean := by decide +kernel
  have hdeclaration : ((Parsed.ofTokens 100 misfit).program.node.at? [0, 1, 0]).map Node.kind =
      some .letVar := by decide +kernel
  obtain ⟨operand, hoperand, hkind⟩ := Option.map_eq_some_iff.mp hoperand
  obtain ⟨declaration, hdeclaration, hkind'⟩ := Option.map_eq_some_iff.mp hdeclaration
  obtain ⟨htyped, -, hdeclared⟩ := typed_nodes_of_read 100 100 misfit hl
  obtain ⟨_, type, _, _, -, htype⟩ := hdeclared _ declaration hdeclaration hkind'
  refine ⟨hl, by decide +kernel, (htyped _).mpr ⟨operand, hoperand, ?_⟩, type, htype⟩
  rw [hkind]
  exact .inl rfl

end Analysis

end BracketLang
