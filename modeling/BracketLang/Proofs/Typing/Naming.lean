import BracketLang.Proofs.Typing.Accounts
import BracketLang.Proofs.Typing.Scoping

/-! What the checker reports about names is what lexical scoping says of the nodes, one by one.
`Check.names` keeps the reports about names and drops the rest. Whatever the types are, checking an
expression, a statement or a block to its end gives those of the nodes in it, up to order. The order
is that of checking, so a declaration comes behind what is in its initializer. -/

namespace BracketLang

variable {levels : Nat}

namespace SemanticError

/-- The error without the names that it suggests. -/
def withoutHints (e : SemanticError) : SemanticError :=
  match e.cause with
  | .undeclaredVariable x _ => { e with cause := .undeclaredVariable x [] }
  | .undeclaredFunction x _ => { e with cause := .undeclaredFunction x [] }
  | _ => e

end SemanticError

/-! ## Reports about names -/

namespace Check

variable {α β : Type} {x : Check α} {f : α → Check β} {l l' : List SemanticError}

/-- The reports about names, without hints. -/
def names (x : Check α) : List SemanticError :=
  (x.errors.filter SemanticError.isNaming).map SemanticError.withoutHints

/-- Unless the check runs out of levels, its reports about names are these. -/
structure Tells (x : Check α) (l : List SemanticError) : Prop where
  names_perm {a} : x.result = some a → x.names.Perm l

theorem names_bind (h : x.result = some a) : (x >>= f).names = x.names ++ (f a).names := by
  simp [names, bind_of_some h]

namespace Tells

theorem of_names (h : x.names = l) : x.Tells l := ⟨fun _ => .of_eq h⟩

theorem pure (a : α) : (Pure.pure a : Check α).Tells [] := .of_names rfl

theorem annotate (path : Path) (t : Ty) : (Check.annotate path t).Tells [] := .of_names rfl

theorem exhausted : (Check.exhausted : Check α).Tells l := by
  constructor
  intro a ha
  cases ha

theorem bind (hx : x.Tells l) (hf : ∀ a, x.result = some a → (f a).Tells l') :
    (x >>= f).Tells (l ++ l') := by
  refine ⟨fun hb => ?_⟩
  obtain ⟨a, ha, hfa⟩ := result_bind_eq_some hb
  rw [names_bind ha]
  exact (hx.names_perm ha).append ((hf a ha).names_perm hfa)

theorem perm (hx : x.Tells l) (h : l.Perm l') : x.Tells l' :=
  ⟨fun ha => (hx.names_perm ha).trans h⟩

end Tells

theorem names_orReport (b : α) (y : Except SemanticError α) :
    (orReport b y).names = (raise (complaint? y)).names := by
  cases y <;> rfl

/-- An account of the reports about names, as long as nothing runs out of levels. -/
def telling : Account SemanticError :=
  .ofComplete (fun l x => x.Tells l) .pure .bind .perm

theorem untyped_telling : telling.Untyped := fun _ _ _ _ _ _ => .of_names rfl

end Check

open Check

/-! ## The names that a place sees -/

namespace Node

/-- All that is wrong with the names in a node. -/
def diagnose (root : Node) (q : Path × Node) : List SemanticError :=
  root.unresolved q.1 q.2 ++ root.redeclared q.1 q.2 ++ root.unknown q.1 q.2 ++
    root.miscounted q.1 q.2

/-- Types, blocks and programs use no names. -/
theorem diagnose_of_isMute {root : Node} (q : Path × Node) (h : q.2.kind.isMute) :
    root.diagnose q = [] := by
  obtain ⟨path, k, s, d, cs⟩ := q
  cases k with
  | program | block | typeName => rfl
  | _ => cases h

theorem declarations_of_ne_block {root n : Node} (h : root.at? path = some n)
    (hk : n.kind ≠ .block) (x : String) (i : Nat) : root.declarations x path i = [] := by
  unfold declarations
  rw [h]
  split
  · next heq =>
    cases heq
    exact absurd rfl hk
  · rfl

/-- Only blocks declare anything for what is in them. -/
theorem resolves_cons_of_ne_block {root n : Node} (h : root.at? path = some n)
    (hk : n.kind ≠ .block) : root.Resolves x (i :: path) ↔ root.Resolves x path := by
  simp [Resolves, declarations_of_ne_block h hk]

theorem declarations_succ {root n : Node} (hb : root.at? block = some (mk .block s d cs))
    (hn : root.at? (k :: block) = some n) (x : String) :
    root.declarations x block (k + 1) =
      root.declarations x block k ++ if n.declares x then [n.span.start] else [] := by
  have hk : cs[k]? = some n := by simpa [at?, hb, children] using hn
  simp only [declarations, hb, List.take_add_one, hk, Option.toList_some, List.filter_append,
    List.map_append, List.append_assoc]
  cases h : n.declares x <;> simp [h]

end Node

/-- The table holds the names that a place sees. -/
structure SymbolTable.Sees (table : SymbolTable) (root : Node) (path : Path) : Prop where
  vars x : (table.findVar? x).isSome ↔ root.Resolves x path
  functions x : (table.findFunction? x).map Symbol.arity =
    (root.children.find? (·.isFunction x)).map (·.params.length)

theorem SymbolTable.Sees.child {table : SymbolTable} {root n : Node} (H : table.Sees root path)
    (h : root.at? path = some n) (hk : n.kind ≠ .block) (i : Nat) :
    table.Sees root (i :: path) where
  vars x := (H.vars x).trans (Node.resolves_cons_of_ne_block h hk).symm
  functions := H.functions

/-! ## Expressions -/

namespace Expr

theorem length_nodes (es : List Expr) : (nodes es).length = es.length := by
  induction es with
  | nil => rfl
  | cons e es ih => simp [nodes, ih]

section
variable {table : SymbolTable} {root : Node}

/-- What is wrong with the use of a variable, by its kind of node. -/
theorem tells_varFault? (H : table.Sees root path) (x : String) (node : NodeRef) :
    (raise (table.varFault? x node)).Tells (if root.Resolves x path then []
      else [⟨.undeclaredVariable x [], node.span.start, some node⟩]) := by
  have hx := H.vars x
  rw [SymbolTable.varFault?]
  cases hy : table.findVar? x with
  | some y =>
    rw [hy] at hx
    rw [if_pos (hx.mp rfl)]
    exact .of_names rfl
  | none =>
    rw [hy] at hx
    rw [if_neg fun h => absurd (hx.mpr h) (by simp)]
    exact .of_names rfl

/-- A call tells what is wrong with the name or the number of the arguments. -/
theorem tells_callFault? (H : table.Sees root path) (x : String) (es : List Expr) (s : Span) :
    (raise (table.callFault? x es.length ⟨path, .call, s⟩)).Tells
      (root.diagnose (path, .mk .call s (.text x) (nodes es))) := by
  have hf := H.functions x
  rw [SymbolTable.callFault?]
  cases hy : table.findFunction? x with
  | none =>
    rw [hy, Option.map_none, eq_comm, Option.map_eq_none_iff] at hf
    have hany : root.children.any (·.isFunction x) = false := by
      simpa using List.find?_eq_none.mp hf
    refine .of_names ?_
    simp [Node.diagnose, Node.unresolved, Node.redeclared, Node.unknown, Node.miscounted, hany,
      hf]
    rfl
  | some y =>
    rw [hy, Option.map_some, eq_comm, Option.map_eq_some_iff] at hf
    obtain ⟨f, hfind, harity⟩ := hf
    have hany : root.children.any (·.isFunction x) = true :=
      List.any_eq_true.mpr ⟨f, List.mem_of_find?_eq_some hfind, List.find?_some hfind⟩
    have hdiag : root.diagnose (path, .mk .call s (.text x) (nodes es)) =
        if y.arity = es.length then []
        else [⟨.arityMismatch x y.arity es.length, s.start, some ⟨path, .call, s⟩⟩] := by
      simp [Node.diagnose, Node.unresolved, Node.redeclared, Node.unknown, Node.miscounted, hany,
        hfind, harity, length_nodes, Node.ref, Node.kind, Node.span]
    rw [hdiag]
    by_cases hl : y.arity = es.length
    · simp only [hl, if_true]
      exact .of_names rfl
    · simp only [hl, if_false]
      exact .of_names rfl

theorem tells_fault? (H : table.Sees root path) (e : Expr) :
    (raise (e.fault? table path)).Tells (root.diagnose (path, e.node)) := by
  cases e with
  | var x s =>
    refine (tells_varFault? H x ⟨path, .var, s⟩).perm (.of_eq ?_)
    simp [node, Node.diagnose, Node.leaf, Node.unresolved, Node.redeclared, Node.unknown,
      Node.miscounted, Node.ref, Node.kind, Node.span]
  | call f es s => exact tells_callFault? H f es s
  | _ => exact .of_names rfl

/-- What an expression tells about names is what is wrong with those in its nodes. -/
theorem accounted_telling (table : SymbolTable) (root : Node) :
    Accounted telling root.diagnose (fun _ => []) root.diagnose table
      fun _ path e => root.at? path = some e.node ∧ table.Sees root path where
  split _ := rfl
  untyped := untyped_telling
  exhausted _ _ := .exhausted
  noted t _ _ := .annotate _ t
  raised H _ := tells_fault? H.2 _
  operand H := ⟨Node.at?_child H.1 rfl, H.2.child H.1 (by rintro ⟨⟩) 0⟩
  left H := ⟨Node.at?_child H.1 rfl, H.2.child H.1 (by rintro ⟨⟩) 0⟩
  right H := ⟨Node.at?_child H.1 rfl, H.2.child H.1 (by rintro ⟨⟩) 1⟩
  arg H ha := by
    refine ⟨Node.at?_child H.1 ?_, H.2.child H.1 (by rintro ⟨⟩) _⟩
    rw [node, Node.children, getElem?_nodes, ha]
    rfl

end

end Expr

/-! ## Scopes -/

/-- The scope holds, for each name, the first of the declarations that `places` lists. -/
def Scope.Lists (s : Scope) (places : String → List Location) : Prop :=
  ∀ x, (s.find? x).map Symbol.location = (places x).head?

namespace SymbolTable

/-- Declaring a variable in the innermost scope: it is reported if the name is taken, with the place
of the first declaration, and in both cases the scope holds what is declared by then. -/
theorem declare_in_scope (g : Scope) {s : Scope} (ss : List Scope) (h : s.Lists places)
    (x : String) (t : Ty) (l : Location) (node : Option NodeRef) : ∃ ys, (∀ y ∈ ys, y.kind = .var) ∧
      (Check.orReport ⟨g, s :: ss⟩ (defineVar ⟨g, s :: ss⟩ x t l node)).result =
        some ⟨g, { s with symbols := s.symbols ++ ys } :: ss⟩ ∧
      ({ s with symbols := s.symbols ++ ys } : Scope).Lists
        (fun z => places z ++ if x = z then [l] else []) ∧
      (Check.orReport ⟨g, s :: ss⟩ (defineVar ⟨g, s :: ss⟩ x t l node)).names =
        (places x).head?.toList.map fun first =>
          ⟨.redeclaration x "variable" (some first), l, node⟩ := by
  simp only [defineVar, define, Scope.define]
  cases hfind : s.find? x with
  | some y =>
    have hx := h x
    rw [hfind, Option.map_some] at hx
    refine ⟨[], List.forall_mem_nil _, by simp [Check.orReport, Except.map]; rfl, fun z => ?_, ?_⟩
    · rw [List.append_nil, h z, List.head?_append]
      by_cases hz : x = z
      · subst hz
        rw [← hx, Option.some_or]
      · simp [hz]
    · rw [← hx]
      rfl
  | none =>
    have hx := h x
    rw [hfind, Option.map_none] at hx
    refine ⟨[⟨x, .var, t, l, []⟩], by simp, rfl, fun z => ?_, by rw [← hx]; rfl⟩
    have hz := h z
    simp only [Scope.find?, List.find?_append, Option.map_or, List.head?_append] at hz ⊢
    rw [hz]
    by_cases hxz : x = z <;> simp [hxz]

/-- The table in front of statement `k` of a block: its innermost scope holds what the block
declares by then, and the scopes around it what can be seen of the block itself. -/
structure InFront (table : SymbolTable) (root : Node) (block : Path) (k : Nat) : Prop where
  functions x : (table.findFunction? x).map Symbol.arity =
    (root.children.find? (·.isFunction x)).map (·.params.length)
  globals : ∀ y ∈ table.global.symbols, y.kind = .function
  vars : ∀ s ∈ table.inner, ∀ y ∈ s.symbols, y.kind = .var
  nonempty : table.inner ≠ []
  current : table.current.Lists (root.declarations · block k)
  outer x : (∃ s ∈ table.inner.tail, (s.find? x).isSome) ↔ root.Resolves x block

theorem isSome_findVar? {table : SymbolTable} (hg : ∀ y ∈ table.global.symbols, y.kind = .function)
    (hv : ∀ s ∈ table.inner, ∀ y ∈ s.symbols, y.kind = .var) :
    (table.findVar? x).isSome ↔ ∃ s ∈ table.inner, (s.find? x).isSome := by
  unfold findVar? find? scopes
  rw [List.findSome?_append]
  cases h : table.inner.findSome? (·.find? x) with
  | some y =>
    obtain ⟨s, hs, hy⟩ := List.exists_of_findSome?_eq_some h
    have hk := hv s hs y (List.mem_of_find?_eq_some hy)
    simp only [Option.some_or, Option.filter_some, hk]
    exact ⟨fun _ => ⟨s, hs, by simp [hy]⟩, fun _ => rfl⟩
  | none =>
    rw [List.findSome?_eq_none_iff] at h
    refine ⟨fun hsome => ?_, fun ⟨s, hs, hsome⟩ => by simp [h s hs] at hsome⟩
    cases hy : table.global.find? x with
    | none => simp [hy] at hsome
    | some y => simp [hy, hg y (List.mem_of_find?_eq_some hy)] at hsome

namespace InFront

variable {table table' : SymbolTable} {root n : Node}

theorem resolves_iff (H : table.InFront root block k) (x : String) :
    (∃ s ∈ table.inner, (s.find? x).isSome) ↔ root.Resolves x (k :: block) := by
  have hcur := H.current x
  have hout := H.outer x
  obtain ⟨global, _ | ⟨s, ss⟩⟩ := table
  · exact (H.nonempty rfl).elim
  · simp only [List.tail_cons] at hout
    simp only [SymbolTable.current] at hcur
    simp only [Node.Resolves, ← hout, List.mem_cons, exists_eq_or_imp]
    refine or_congr_left ?_
    rw [Ne, ← List.head?_eq_none_iff, ← hcur, Option.map_eq_none_iff, ← ne_eq,
      Option.isSome_iff_ne_none]

theorem sees (H : table.InFront root block k) : table.Sees root (k :: block) where
  vars x := (isSome_findVar? H.globals H.vars).trans (H.resolves_iff x)
  functions := H.functions

/-- A block inside a statement starts with nothing declared. -/
theorem enter (H : table.InFront root block k) (hn : root.at? (k :: block) = some n)
    (hk : n.kind ≠ .block) (hp : n.params = [])
    (hb : root.at? (i :: k :: block) = some (.mk .block s d cs)) :
    (table.enter kind name returnType).InFront root (i :: k :: block) 0 where
  functions := H.functions
  globals := H.globals
  vars s hs y hy := by
    rcases List.mem_cons.mp hs with rfl | hs
    · cases hy
    · exact H.vars s hs y hy
  nonempty := List.cons_ne_nil _ _
  current x := by
    simp [Node.declarations, hb, hn, hp, Scope.find?]
  outer x := by
    rw [Node.resolves_cons_of_ne_block hn hk]
    exact H.resolves_iff x

/-- A statement that is no declaration declares nothing. -/
theorem next (H : table.InFront root block k) (hb : root.at? block = some (.mk .block s d cs))
    (hn : root.at? (k :: block) = some n) (hk : n.kind ≠ .letVar) :
    table.InFront root block (k + 1) where
  functions := H.functions
  globals := H.globals
  vars := H.vars
  nonempty := H.nonempty
  current x := by
    rw [H.current]
    simp [Node.declarations_succ hb hn, Node.declares, hk]
  outer := H.outer

/-- A declaration is there for the next statement, whether it is the first of its name or not; if
not, it is reported with the place of the first. -/
theorem declare (H : table.InFront root block k) (hb : root.at? block = some (.mk .block sb d cs))
    (hn : root.at? (k :: block) = some (.mk .letVar s (.text x) cs')) (t : Ty)
    (node : Option NodeRef) :
    (Check.orReport table (table.defineVar x t s.start node)).Gives (·.InFront root block (k + 1)) ∧
      (raise (complaint? (table.defineVar x t s.start node))).Tells
        ((root.declarations x block k).head?.toList.map fun first =>
          ⟨.redeclaration x "variable" (some first), s.start, node⟩) := by
  have hdecl : (root.declarations · block (k + 1)) =
      fun z => root.declarations z block k ++ if x = z then [s.start] else [] := by
    funext z
    rw [Node.declarations_succ hb hn]
    simp [Node.declares, Node.kind, Node.detail, Node.span]
  obtain ⟨global, _ | ⟨sc, scs⟩⟩ := table
  · exact (H.nonempty rfl).elim
  have hcurrent : sc.Lists (root.declarations · block k) := H.current
  obtain ⟨ys, hys, hresult, hlists, hnames⟩ := declare_in_scope _ _ hcurrent x t s.start node
  refine ⟨fun a ha => ?_, .of_names ((names_orReport _ _).symm.trans hnames)⟩
  obtain rfl := Option.some.inj (hresult.symm.trans ha)
  refine ⟨H.functions, H.globals, fun s hs y hy => ?_, List.cons_ne_nil _ _, ?_, H.outer⟩
  · rcases List.mem_cons.mp hs with rfl | hs
    · rcases List.mem_append.mp hy with hy | hy
      · exact H.vars sc List.mem_cons_self y hy
      · exact hys y hy
    · exact H.vars s (List.mem_cons_of_mem _ hs) y hy
  · rw [hdecl]
    exact hlists

end InFront

end SymbolTable

/-! ## Statements -/

namespace Stmt

section
variable {table : SymbolTable} {root : Node} {block : Path}

/-- What a statement gives is the table in front of the next one. -/
theorem gives_inFront (H : table.InFront root block k)
    (hb : root.at? block = some (.mk .block sb d cs)) (s : Stmt)
    (hat : root.at? (k :: block) = some s.node)
    (hc : (s.check levels table (k :: block)).Complete) :
    (s.check levels table (k :: block)).Gives (·.InFront root block (k + 1)) := by
  by_cases hs : s.kind = .letVar
  · cases s with
    | letVar x type e span =>
      rw [check, hc.orExhausted_eq rfl]
      exact gives_bind_of_forall fun _ => gives_bind_of_forall fun _ => gives_bind_of_forall
        fun _ => (H.declare hb hat _ _).1
    | _ => cases hs
  · intro t ht
    rw [gives_self table _ hs t ht]
    exact H.next hb hat (by rwa [kind_node])

theorem tells_fault? (H : table.InFront root block k)
    (hb : root.at? block = some (.mk .block sb d cs)) (s : Stmt)
    (hat : root.at? (k :: block) = some s.node) :
    (raise (s.fault? table (k :: block))).Tells (root.diagnose (k :: block, s.node)) := by
  cases s with
  | letVar x type e span =>
    have hdeclare := (H.declare hb hat (.ofName type.name) (some ⟨k :: block, .letVar, span⟩)).2
    refine hdeclare.perm (.of_eq ?_)
    simp [node, Node.diagnose, Node.unresolved, Node.redeclared, Node.unknown, Node.miscounted,
      Node.ref, Node.kind, Node.span]
  | assign x e span =>
    refine (Expr.tells_varFault? H.sees x ⟨k :: block, .assign, span⟩).perm (.of_eq ?_)
    simp [node, Node.diagnose, Node.unresolved, Node.redeclared, Node.unknown, Node.miscounted,
      Node.ref, Node.kind, Node.span]
  | _ => exact .of_names rfl

end

/-- The table is the one in front of the first of these statements. -/
structure Fronted (root : Node) (table : SymbolTable) (block : Path) (k : Nat) (ss : List Stmt) :
    Prop where
  front : table.InFront root block k
  at_block : ∃ s d cs, root.at? block = some (.mk .block s d cs)
  statements : root.HasFrom block k (nodes ss)

theorem mute_telling {root : Node} {q : Path × Node} (hq : q.2.kind.isMute) :
    telling.Holds (root.diagnose q) (pure () : Check Unit) := by
  rw [Node.diagnose_of_isMute q hq]
  exact fun _ => .pure ()

/-- What statements tell about names is what is wrong with those in their nodes. -/
theorem accounted_telling (levels : Nat) (root : Node) :
    Accounted telling root.diagnose levels (Fronted root) where
  mute := mute_telling
  opening {table path i s ss} H hs := by
    obtain ⟨hfront, ⟨sb, d, cs, hb⟩, hfrom⟩ := H
    have hat := hfrom.head
    have hkind : s.node.kind ≠ .block := by rwa [kind_node]
    refine holds_opening (fun q => (List.nil_append _).symm) untyped_telling (i :: path) hs
      (fun _ => mute_telling) (fun j e he => ?_) ?_ fun _ => tells_fault? hfront hb s hat
    · have hchild := Node.at?_child hat (children_value he)
      exact (Expr.accounted_telling table root).holds_check
        ⟨hchild, hfront.sees.child hat hkind j⟩
    · cases s with
      | letVar => exact fun _ => .annotate ..
      | _ => exact fun _ => .pure ()
  body {table path i s ss j kind name ss'} H hbody := by
    have hat := H.statements.head
    obtain ⟨r, hchild⟩ := hbody.children
    have hblock := Node.at?_child hat hchild
    refine ⟨H.front.enter hat ?_ ?_ hblock, ⟨_, _, _, hblock⟩, Node.hasFrom_zero hblock⟩
    · cases hbody <;> rintro ⟨⟩
    · cases hbody <;> rfl
  tail {table path i s ss t} H ht hc := by
    obtain ⟨hfront, ⟨sb, d, cs, hb⟩, hfrom⟩ := H
    exact ⟨gives_inFront hfront hb s hfrom.head hc t ht, ⟨sb, d, cs, hb⟩, hfrom.tail⟩

end Stmt

end BracketLang
