import BracketLang.Proofs.Tree.Places
import BracketLang.Proofs.Typing.Silence
import BracketLang.Proofs.Typing.Walk
import Mathlib.Data.List.Perm.Basic

/-! Accounts of checks. An account says of a check what it comes to, as a list whose order does not
matter: the reports about names, say, or the nodes that get a type. What checks in a sequence come
to is put together, and from what a node comes to on its own follows what the check of an
expression, a statement or a program comes to. The walk over the tree is made here once; each
property of checks that is an account only has to say what the nodes come to. -/

namespace BracketLang

variable {levels : Nat}

namespace Check

/-- A way of keeping account of checks. `A.Holds l x` says that the check `x` comes to `l`; what
follows it may take for granted what `A` assumes of it. -/
structure Account (γ : Type) where
  Assumes : {α : Type} → Check α → Prop
  Holds : {α : Type} → List γ → Check α → Prop
  pure {α : Type} (a : α) : Holds [] (Pure.pure a : Check α)
  bind {α β : Type} {x : Check α} {f : α → Check β} {l l' : List γ} : Holds l x →
    (∀ a, x.result = some a → Assumes x → Holds l' (f a)) → Holds (l ++ l') (x >>= f)
  perm {α : Type} {x : Check α} {l l' : List γ} : Holds l x → l.Perm l' → Holds l' x
  orExhausted {α : Type} {x : Check α} {l : List γ} (a : α) (n : NodeRef) : Holds l x →
    Holds l (x.orExhausted a (Stmt.tooDeep n))

namespace Account

/-- The account of what holds of checks as long as they do not run out of levels. -/
def ofComplete {γ : Type} (P : {α : Type} → List γ → Check α → Prop)
    (hpure : ∀ {α : Type} (a : α), P [] (Pure.pure a : Check α))
    (hbind : ∀ {α β : Type} {x : Check α} {f : α → Check β} {l l' : List γ}, P l x →
      (∀ a, x.result = some a → P l' (f a)) → P (l ++ l') (x >>= f))
    (hperm : ∀ {α : Type} {x : Check α} {l l' : List γ}, P l x → l.Perm l' → P l' x) :
    Account γ where
  Assumes x := x.Complete
  Holds l x := x.Complete → P l x
  pure a _ := hpure a
  bind hx hf h := hbind (hx h.of_bind) fun a ha => hf a ha h.of_bind (h.bind_right ha)
  perm hx hl h := hperm (hx h) hl
  orExhausted a n hx h := by
    have heq := h.orExhausted_eq rfl
    rw [heq] at h ⊢
    exact hx h

variable {γ α β : Type} (A : Account γ) {x : Check α} {f : α → Check β} {l l' : List γ}

theorem seq (hx : A.Holds l x) (hf : ∀ a, A.Holds l' (f a)) : A.Holds (l ++ l') (x >>= f) :=
  A.bind hx fun a _ _ => hf a

/-- What comes to nothing may come first. -/
theorem nil_bind (hx : A.Holds [] x) (hf : ∀ a, A.Holds l (f a)) : A.Holds l (x >>= f) :=
  A.seq hx hf

/-- What comes to nothing may come last. -/
theorem bind_nil (hx : A.Holds l x) (hf : ∀ a, A.Holds [] (f a)) : A.Holds l (x >>= f) :=
  A.perm (A.seq hx hf) (.of_eq (List.append_nil l))

theorem bind_pure (hx : A.Holds l x) (g : α → β) :
    A.Holds l (x >>= fun a => (Pure.pure (g a) : Check β)) :=
  A.bind_nil hx fun a => A.pure (g a)

/-- What doing nothing comes to may be added. -/
theorem add_idle (h : A.Holds l (Pure.pure () : Check Unit)) (hx : A.Holds l' x) :
    A.Holds (l ++ l') x := by
  simpa using A.seq h fun _ => hx

/-- What comes to nothing at each of some places comes to nothing at all of them. -/
theorem idle_flatMap {g : δ → List γ} (l : List δ)
    (h : ∀ q ∈ l, A.Holds (g q) (Pure.pure () : Check Unit)) :
    A.Holds (l.flatMap g) (Pure.pure () : Check Unit) := by
  induction l with
  | nil => exact A.pure ()
  | cons q l ih =>
    obtain ⟨hq, hl⟩ := List.forall_mem_cons.mp h
    exact A.add_idle hq (ih hl)

theorem raise {o : Option SemanticError} (hnone : A.Holds l (Pure.pure () : Check Unit))
    (hsome : ∀ e, o = some e → A.Holds l (report e)) : A.Holds l (Check.raise o) := by
  cases o with
  | none => exact hnone
  | some e => exact hsome e rfl

theorem orReport {b : α} {y : Except SemanticError α} (h : A.Holds l (Check.raise (complaint? y))) :
    A.Holds l (Check.orReport b y) := by
  rw [orReport_eq_bind]
  exact A.bind_pure h _

/-- Mismatches come to nothing. -/
def Untyped : Prop :=
  ∀ t t' context l n, A.Holds [] (report (.mismatch t t' context l n))

namespace Untyped

variable {A} (h : A.Untyped)
include h

theorem expectType (t t' : Ty) (context : String) (e : Expr) (path : Path) :
    A.Holds [] (Stmt.expectType t t' context e path) := by
  rcases Stmt.expectType_cases t t' context e with heq | ⟨-, -, heq⟩
  · rw [heq]
    exact A.pure ()
  · rw [heq]
    exact h ..

theorem compareResult (scope : Option Scope) (node : NodeRef) (l : Location) (t : Ty) :
    A.Holds [] (Stmt.compareResult scope node l t) := by
  rcases Stmt.compareResult_cases scope t with heq | ⟨-, f, expected, -, heq⟩
  · rw [heq]
    exact A.pure ()
  · rw [heq]
    exact h ..

theorem verdict {x : Path → Check Ty} (hv : Verdict k s Says U x) (path : Path) :
    A.Holds [] (x path) := by
  cases hv with
  | gives r _ hx =>
    rw [hx]
    exact A.pure r
  | reports expected actual context l _ _ _ _ hx =>
    rw [hx]
    exact A.nil_bind (h ..) fun _ => A.pure _

theorem compareArgs (name : String) (path : Path) (i : Nat) (es : List Expr) (ps ts : List Ty) :
    A.Holds [] (Expr.compareArgs name path i es ps ts) := by
  induction ps generalizing i es ts with
  | nil =>
    rw [Expr.compareArgs_nil]
    exact A.pure ()
  | cons p ps ih =>
    match es, ts with
    | [], _ | _ :: _, [] => exact A.pure ()
    | e :: es, t :: ts =>
      rw [Expr.compareArgs_cons]
      exact A.nil_bind (h.expectType ..) fun _ => ih ..

end Untyped

/-- Reports about names come to nothing. -/
def Unnamed : Prop := ∀ e : SemanticError, e.isNaming → A.Holds [] (report e)

end Account

end Check

open Check

/-! ## Expressions -/

namespace Expr

theorem getElem?_nodes (es : List Expr) (j : Nat) : (nodes es)[j]? = es[j]?.map node := by
  induction es generalizing j with
  | nil => rfl
  | cons e es ih =>
    cases j with
    | zero => rfl
    | succ j => exact ih j

theorem places_unary (path : Path) (op : String) (e : Expr) (s : Span) :
    (unary op e s).node.places path =
      (path, (unary op e s).node) :: e.node.places (0 :: path) := by
  simp [node, Node.places, Node.placesFrom]

theorem places_binary (path : Path) (l : Expr) (op : String) (r : Expr) (s : Span) :
    (binary l op r s).node.places path = (path, (binary l op r s).node) ::
      (l.node.places (0 :: path) ++ r.node.places (1 :: path)) := by
  simp [node, Node.places, Node.placesFrom]

theorem placesFrom_nodes_cons (path : Path) (i : Nat) (e : Expr) (es : List Expr) :
    Node.placesFrom false path i (nodes (e :: es)) =
      e.node.places (i :: path) ++ Node.placesFrom false path (i + 1) (nodes es) := by
  simp [nodes, Node.placesFrom]

/-- What has to be shown for an account to hold of the checks of expressions that meet `D`, with
`n` levels to go. A node comes to `g`: its type comes to `typed` and what is raised for its name to
`named`. What is asked of an expression passes on to its parts. -/
structure Accounted {γ : Type} (A : Account γ) (g typed named : Path × Node → List γ)
    (table : SymbolTable) (D : Nat → Path → Expr → Prop) : Prop where
  split (q) : g q = typed q ++ named q
  untyped : A.Untyped
  exhausted {path e l} : D 0 path e → A.Holds l (.exhausted : Check Ty)
  noted {n path e} (t : Ty) : D (n + 1) path e → A.Holds (typed (path, e.node)) (annotate path t)
  raised {n path e} : D (n + 1) path e →
    A.Holds (named (path, e.node)) (raise (e.fault? table path))
  operand {n path op e s} : D (n + 1) path (.unary op e s) → D n (0 :: path) e
  left {n path l op r s} : D (n + 1) path (.binary l op r s) → D (n + 1) (0 :: path) l
  right {n path l op r s} : D (n + 1) path (.binary l op r s) → D n (1 :: path) r
  arg {n path f es s i e} : D (n + 1) path (.call f es s) → es[i]? = some e → D n (i :: path) e

namespace Accounted

variable {γ : Type} {A : Account γ} {g typed named : Path × Node → List γ} {table : SymbolTable}
  {D : Nat → Path → Expr → Prop} (W : Accounted A g typed named table D)
include W

/-- The type of an expression is noted behind all else. -/
theorem holds_noted {x : Check Ty} (h : D (n + 1) path e)
    (hx : A.Holds (named (path, e.node) ++ l) x) :
    A.Holds (g (path, e.node) ++ l) (Expr.noted path x) := by
  rw [W.split, List.append_assoc]
  exact A.perm (A.seq hx fun t => A.bind_pure (W.noted t h) fun _ => t) List.perm_append_comm

/-- An expression that uses no name comes to its type and what its parts come to. -/
theorem holds_nameless {x : Check Ty} (h : D (n + 1) path e) (hnone : e.fault? table path = none)
    (hx : A.Holds l x) :
    A.Holds (g (path, e.node) ++ l) (Expr.noted path x) := by
  have hraised := W.raised h
  rw [hnone] at hraised
  exact W.holds_noted h (A.add_idle hraised hx)

theorem walk : Walk table
    (fun n path e x => D n path e → A.Holds ((e.node.places path).flatMap g) x)
    (fun n path i es x => (∀ j e, es[j]? = some e → D n ((i + j) :: path) e) →
      A.Holds ((Node.placesFrom false path i (nodes es)).flatMap g) x)
    where
  exhausted := W.exhausted
  integer h := W.holds_nameless h rfl (A.pure _)
  boolean h := W.holds_nameless h rfl (A.pure _)
  typeName h := W.holds_nameless h rfl (A.pure _)
  var {n path x s} h := by
    have hraised := W.raised h
    rw [checkVar_eq_bind]
    exact W.holds_noted h (A.perm (A.bind_pure hraised _) (.of_eq (List.append_nil _).symm))
  unary {n path op e s x} hx h := by
    rw [places_unary, List.flatMap_cons]
    refine W.holds_nameless h rfl (A.bind_nil (hx (W.operand h)) fun t => ?_)
    exact W.untyped.verdict (verdict_checkUnary op e s t) path
  binary {n path l op r s x y} hx hy h := by
    rw [places_binary, List.flatMap_cons, List.flatMap_append]
    refine W.holds_nameless h rfl (A.seq (hx (W.left h)) fun t =>
      A.bind_nil (hy (W.right h)) fun t' => ?_)
    exact W.untyped.verdict (Link.verdict_resultType l op r s t t') path
  call {n path f es s x} hx h := by
    have hargs := hx fun j e he => by
      rw [Nat.zero_add]
      exact W.arg h he
    have hraised := W.raised h
    rw [checkCallWith_eq_bind]
    refine W.holds_noted h (A.seq hraised fun _ => A.bind_nil hargs fun ts => ?_)
    exact A.bind_pure (W.untyped.compareArgs ..) _
  nil _ := A.pure []
  cons {n path i e es x y} hx hy h := by
    have hhead : A.Holds _ x := hx (h 0 e rfl)
    have htail : A.Holds _ y := hy fun j e' he' => by
      rw [Nat.add_right_comm]
      exact h (j + 1) e' he'
    rw [placesFrom_nodes_cons, List.flatMap_append]
    exact A.seq hhead fun t => A.bind_pure htail _

/-- The check of an expression comes to what its nodes come to. -/
theorem holds_check {e : Expr} (h : D levels path e) :
    A.Holds ((e.node.places path).flatMap g) (e.check levels table path) :=
  W.walk.check levels path e h

end Accounted

end Expr

/-! ## Statements -/

/-- The checker has nothing to say of such a node on its own. -/
def NodeKind.isMute (k : NodeKind) : Bool := k ∈ [.program, .block, .typeName]

namespace Stmt

/-- The type that a declaration gets as a node. -/
def note (path : Path) : Stmt → Check Unit
  | letVar _ type _ _ => annotate path (.ofName type.name)
  | _ => pure ()

/-- The nodes below that of a statement, without those of its blocks. -/
def partPlaces (path : Path) : Stmt → List (Path × Node)
  | letVar _ type e _ => (0 :: path, type.node) :: e.node.places (1 :: path)
  | assign _ e _ | ifThen e _ _ _ | ifElse e _ _ _ _ _ | whileLoop e _ _ _ | print e _
  | expr e _ => e.node.places (0 :: path)
  | ret value _ => value.elim [] (·.node.places (0 :: path))
  | block .. => []

/-- The nodes of a statement, without those of its blocks. -/
def openingPlaces (path : Path) (s : Stmt) : List (Path × Node) :=
  (path, s.node) :: s.partPlaces path

/-- The nodes of the blocks of a statement. -/
def insidePlaces (path : Path) : Stmt → List (Path × Node)
  | ifThen _ ss r _ | whileLoop _ ss r _ =>
    (Node.mk .block r .nothing (nodes ss)).places (1 :: path)
  | ifElse _ ss r ss' r' _ =>
    (Node.mk .block r .nothing (nodes ss)).places (1 :: path) ++
      (Node.mk .block r' .nothing (nodes ss')).places (2 :: path)
  | _ => []

theorem places_node (path : Path) {s : Stmt} (hs : s.kind ≠ .block) :
    s.node.places path = s.openingPlaces path ++ s.insidePlaces path := by
  cases s with
  | block => exact absurd rfl hs
  | ret value =>
    cases value <;>
      simp [openingPlaces, partPlaces, insidePlaces, node, Node.places, Node.placesFrom]
  | _ =>
    simp [openingPlaces, partPlaces, insidePlaces, node, TypeName.node, Node.leaf, Node.places,
      Node.placesFrom]

theorem kind_node (s : Stmt) : s.node.kind = s.kind := by
  cases s <;> rfl

theorem children_value {s : Stmt} (h : s.value? = some (i, e)) :
    s.node.children[i]? = some e.node := by
  cases s with
  | ret value =>
    cases value with
    | none => cases h
    | some e =>
      cases h
      rfl
  | block => cases h
  | _ =>
    cases h
    rfl

theorem Body.children {s : Stmt} (h : Body s i scope name ss) :
    ∃ r, s.node.children[i]? = some (.mk .block r .nothing (nodes ss)) := by
  cases h <;> exact ⟨_, rfl⟩

section
variable {γ : Type} {A : Account γ} {table : SymbolTable}

/-- Where mismatches come to nothing, the opening of a statement comes to what its value, its name
and its type as a node come to. -/
theorem holds_opening {g typed named : Path × Node → List γ}
    (hg : ∀ q, g q = typed q ++ named q) (hA : A.Untyped) (path : Path) {s : Stmt}
    (hs : s.kind ≠ .block)
    (hmute : ∀ q : Path × Node, q.2.kind.isMute → A.Holds (g q) (pure () : Check Unit))
    (hvalue : ∀ i e, s.value? = some (i, e) →
      A.Holds ((e.node.places (i :: path)).flatMap g) (e.check levels table (i :: path)))
    (hnoted : A.Holds (typed (path, s.node)) (s.note path))
    (hraised : A.Holds (named (path, s.node)) (raise (s.fault? table path))) :
    A.Holds ((s.openingPlaces path).flatMap g) (s.opening levels table path) := by
  -- what is not a declaration gets no type, and what uses no name raises nothing
  have hplain {x : Check SymbolTable} {l : List γ} (hn : s.note path = pure ())
      (hr : s.fault? table path = none) (hx : A.Holds l x) :
      A.Holds (g (path, s.node) ++ l) x := by
    rw [hn] at hnoted
    rw [hr] at hraised
    rw [hg]
    exact A.add_idle (A.seq hnoted fun _ => hraised) hx
  rw [openingPlaces, List.flatMap_cons]
  cases s with
  | letVar x type e span =>
    have htype := hmute (0 :: path, type.node) rfl
    have hdeclare := A.seq hnoted fun _ => A.orReport (b := table) hraised
    have hself := A.seq (hvalue 1 e rfl) fun t =>
      A.nil_bind (hA.expectType (.ofName type.name) t s!"initializer of '{x}'" e (1 :: path))
        fun _ => hdeclare
    have hopening := A.add_idle htype hself
    rw [← List.append_assoc] at hopening
    rw [hg (path, _)]
    exact A.perm hopening List.perm_append_comm
  | assign x e span =>
    have hassign := A.seq hraised fun _ => A.bind_nil (hvalue 0 e rfl) fun t =>
      hA.expectType (table.varType x) t s!"assignment to '{x}'" e (0 :: path)
    rw [opening, checkAssign_eq_bind, hg, List.append_assoc]
    exact A.bind_pure (A.add_idle hnoted hassign) _
  | ifThen c | ifElse c | whileLoop c =>
    have hc := hvalue 0 c rfl
    exact hplain rfl rfl (A.bind_pure (A.bind_nil hc fun t => hA.expectType ..) _)
  | ret value span =>
    have hcompare := hA.compareResult table.functionScope? ⟨path, .ret, span⟩
    refine hplain rfl rfl (A.bind_pure ?_ _)
    rw [checkReturn_eq_bind]
    refine A.bind_nil ?_ fun t => hcompare _ t
    cases value with
    | none => exact A.pure _
    | some e => exact hvalue 0 e rfl
  | print e | expr e => exact hplain rfl rfl (A.bind_pure (hvalue 0 e rfl) _)
  | block => exact absurd rfl hs

end

/-- What has to be shown for an account to hold of the checks of statements that are `Ready`, the
first of them with the given index: `g` says what a node comes to, and what is ready stays so in
blocks and behind what was checked. -/
structure Accounted {γ : Type} (A : Account γ) (g : Path × Node → List γ) (levels : Nat)
    (Ready : SymbolTable → Path → Nat → List Stmt → Prop) : Prop where
  mute {q : Path × Node} : q.2.kind.isMute → A.Holds (g q) (pure () : Check Unit)
  opening {table path i s ss} : Ready table path i (s :: ss) → s.kind ≠ .block →
    A.Holds ((s.openingPlaces (i :: path)).flatMap g) (s.opening levels table (i :: path))
  body {table path i s ss j kind name ss'} : Ready table path i (s :: ss) →
    Body s j kind name ss' → Ready (table.enter kind name none) (j :: i :: path) 0 ss'
  tail {table path i s ss t} : Ready table path i (s :: ss) →
    (s.check levels table (i :: path)).result = some t →
    A.Assumes (s.check levels table (i :: path)) → Ready t path (i + 1) ss

namespace Accounted

variable {γ : Type} {A : Account γ} {g : Path × Node → List γ}
  {Ready : SymbolTable → Path → Nat → List Stmt → Prop} (W : Accounted A g levels Ready)
include W

theorem holds_checkBody {table : SymbolTable} {kind : ScopeKind} (r : Span)
    (h : A.Holds ((Node.placesFrom true path 0 (nodes ss)).flatMap g)
      (checkAll levels (table.enter kind name none) path 0 ss)) :
    A.Holds (((Node.mk .block r .nothing (nodes ss)).places path).flatMap g)
      (checkBody levels kind name path ss table) := by
  rw [Node.places, List.flatMap_cons]
  exact A.add_idle (W.mute rfl) (A.bind_pure h _)

/-- Blocks leave the table as it is, so each is checked in the one in front of the statement. -/
theorem holds_inside {table : SymbolTable}
    (h : ∀ i kind name ss, Body s i kind name ss →
      A.Holds ((Node.placesFrom true (i :: path) 0 (nodes ss)).flatMap g)
        (checkAll levels (table.enter kind name none) (i :: path) 0 ss)) :
    A.Holds ((s.insidePlaces path).flatMap g) (s.inside levels path table) := by
  cases s with
  | ifThen c ss r | whileLoop c ss r => exact W.holds_checkBody r (h _ _ _ ss (by constructor))
  | ifElse c ss r ss' r' =>
    rw [insidePlaces, List.flatMap_append]
    refine A.bind (W.holds_checkBody r (h _ _ _ ss .ifTrue)) fun t ht _ => ?_
    rw [gives_checkBody _ _ _ ss table t ht]
    exact W.holds_checkBody r' (h _ _ _ ss' .ifFalse)
  | _ => exact A.pure table

theorem walk : Walk
    (fun table path s => ∀ β i ss, path = i :: β → Ready table β i (s :: ss) → s.kind ≠ .block →
      A.Holds ((s.node.places path).flatMap g) (s.check levels table path))
    (fun table path i ss => Ready table path i ss →
      A.Holds ((Node.placesFrom true path i (nodes ss)).flatMap g)
        (checkAll levels table path i ss)) where
  stmt {table _ s} hbodies β i ss hpath h hs := by
    subst hpath
    rw [places_node _ hs, List.flatMap_append, check_eq_bind]
    refine A.orExhausted _ _ (A.bind (W.opening h hs) fun t ht _ => ?_)
    by_cases hlet : s.kind = .letVar
    · -- a declaration has no blocks
      cases s with
      | letVar => exact A.pure t
      | _ => cases hlet
    · rw [gives_opening table _ hlet t ht]
      exact W.holds_inside fun j kind name ss' hbody =>
        hbodies j kind name ss' hbody table (W.body h hbody)
  nil _ := A.pure _
  cons {table path i s ss} hstmt hrest h := by
    rw [nodes, Node.placesFrom, List.flatMap_append]
    refine A.bind ?_ fun t ht hassumed => hrest t (W.tail h ht hassumed)
    by_cases hs : s.kind = .block
    · cases s with
      | block => exact A.pure table
      | _ => cases hs
    · rw [if_neg fun hkind => hs (s.kind_node ▸ hkind.2)]
      exact hstmt path i ss rfl h hs

/-- The checks of statements come to what their nodes come to. -/
theorem holds_checkAll {table : SymbolTable} (h : Ready table path i ss) :
    A.Holds ((Node.placesFrom true path i (nodes ss)).flatMap g)
      (checkAll levels table path i ss) :=
  W.walk.holdsAll table path i ss h

end Accounted

end Stmt

/-! ## Programs -/

namespace Function

section
variable {γ : Type} {A : Account γ} {table : SymbolTable}

/-- Parameters are refused with no node. -/
theorem holds_declareParams (h : ∀ e : SemanticError, e.Refuses none → A.Holds [] (report e))
    (table : SymbolTable) (ps : List Param) : A.Holds [] (declareParams table ps) := by
  induction ps generalizing table with
  | nil => exact A.pure table
  | cons p ps ih =>
    refine A.nil_bind (A.orReport (A.raise (A.pure ()) fun e he => ?_)) ih
    exact h e (SymbolTable.refuses_of_defineVar he)

theorem holds_declare (table : SymbolTable) (f : Function) (i : Nat)
    (hdeclared : A.Holds l (pure () : Check Unit))
    (hrefused : ∀ e : SemanticError, e.Refuses (some ⟨[i], .function, f.span⟩) →
      A.Holds l (report e)) : A.Holds l (f.declare table [i]) :=
  A.orReport <| A.raise hdeclared fun e he => hrefused e (SymbolTable.refuses_of_defineFunction he)

theorem holds_declareAll {l : Function → Nat → List γ}
    (h : ∀ t f i, A.Holds (l f i) (declare t [i] f)) (table : SymbolTable) (i : Nat)
    (fs : List Function) :
    A.Holds ((fs.zipIdx i).flatMap fun r => l r.1 r.2) (declareAll table i fs) := by
  induction fs generalizing table i with
  | nil => exact A.pure table
  | cons f fs ih =>
    rw [List.zipIdx_cons, List.flatMap_cons]
    exact A.seq (h table f i) fun t => ih t (i + 1)

theorem holds_checkAll {l : Function → Nat → List γ} (fs : List Function) (i : Nat)
    (h : ∀ r ∈ fs.zipIdx i, A.Holds (l r.1 r.2) (r.1.check levels table [r.2])) :
    A.Holds ((fs.zipIdx i).flatMap fun r => l r.1 r.2) (checkAll levels table i fs) := by
  induction fs generalizing i with
  | nil => exact A.pure table
  | cons f fs ih =>
    rw [List.zipIdx_cons, List.forall_mem_cons] at h
    rw [List.zipIdx_cons, List.flatMap_cons]
    refine A.bind h.1 fun t ht _ => ?_
    obtain rfl := Option.some.inj ((result_check table [i] f).symm.trans ht)
    exact ih (i + 1) h.2

end

/-- The nodes below that of a function, without those of its body. -/
def headPlaces (f : Function) (i : Nat) : List (Path × Node) :=
  Node.placesFrom false [i] 0 (f.params.map (·.type.node)) ++
    [([f.params.length, i], f.returnType.node), ([f.params.length + 1, i], f.body.node)]

/-- The nodes below that of a function. -/
def belowPlaces (f : Function) (i : Nat) : List (Path × Node) :=
  f.headPlaces i ++ Node.placesFrom true [f.params.length + 1, i] 0 (Stmt.nodes f.body.body)

theorem places_node (f : Function) (i : Nat) :
    f.node.places [i] = ([i], f.node) :: f.belowPlaces i := by
  simp [node, belowPlaces, headPlaces, Node.places, Node.placesFrom_append, Node.placesFrom,
    TypeName.node, Node.leaf, Block.node]

theorem kind_of_mem_headPlaces (f : Function) (i : Nat) :
    ∀ q ∈ f.headPlaces i, q.2.kind.isMute := by
  have htypes (j : Nat) (ps : List Param) :
      ∀ q ∈ Node.placesFrom false [i] j (ps.map (·.type.node)), q.2.kind.isMute := by
    induction ps generalizing j with
    | nil => exact List.forall_mem_nil _
    | cons p ps ih =>
      rw [List.map_cons, Node.placesFrom, if_neg (by simp), List.forall_mem_append]
      exact ⟨List.forall_mem_singleton.mpr rfl, ih (j + 1)⟩
  refine List.forall_mem_append.mpr ⟨htypes 0 f.params, ?_⟩
  exact List.forall_mem_cons.mpr ⟨rfl, List.forall_mem_singleton.mpr rfl⟩

theorem places_nodes (i : Nat) (fs : List Function) :
    Node.placesFrom false [] i (fs.map node) =
      (fs.zipIdx i).flatMap fun r => r.1.node.places [r.2] := by
  induction fs generalizing i with
  | nil => rfl
  | cons f fs ih => simp [Node.placesFrom, ih]

end Function

namespace Program

/-- What has to be shown for an account to hold of the check of a program: what the name of a
function comes to when it is declared, what its parameters come to, and that its body is ready. -/
structure Accounted {γ : Type} (A : Account γ) (g : Path × Node → List γ) (levels : Nat)
    (p : Program) (header params : Function → Nat → List γ)
    (Ready : SymbolTable → Path → Nat → List Stmt → Prop) : Prop where
  statements : Stmt.Accounted A g levels Ready
  split (f i) : (f, i) ∈ p.functions.zipIdx → g ([i], f.node) = header f i ++ params f i
  declared : A.Holds (p.functions.zipIdx.flatMap fun r => header r.1 r.2)
    (Function.declareAll .empty 0 p.functions)
  params {t f i} : (Function.declareAll .empty 0 p.functions).result = some t →
    (f, i) ∈ p.functions.zipIdx → A.Holds (params f i)
      (Function.declareParams (t.enter .function f.name (some f.resultType)) f.params)
  ready {t f i t'} : (Function.declareAll .empty 0 p.functions).result = some t →
    (f, i) ∈ p.functions.zipIdx →
    (Function.declareParams (t.enter .function f.name (some f.resultType)) f.params).result =
      some t' → Ready t' [f.params.length + 1, i] 0 f.body.body

namespace Accounted

variable {γ : Type} {A : Account γ} {g : Path × Node → List γ} {p : Program}
  {header params : Function → Nat → List γ}
  {Ready : SymbolTable → Path → Nat → List Stmt → Prop}
  (W : Accounted A g levels p header params Ready)
include W

theorem holds_function (ht : (Function.declareAll .empty 0 p.functions).result = some t)
    (hf : (f, i) ∈ p.functions.zipIdx) :
    A.Holds (params f i ++ (f.belowPlaces i).flatMap g) (f.check levels t [i]) := by
  have hhead := A.idle_flatMap (f.headPlaces i) fun q hq =>
    W.statements.mute (f.kind_of_mem_headPlaces i q hq)
  rw [Function.belowPlaces, List.flatMap_append]
  refine A.bind (W.params ht hf) fun t' ht' _ => A.add_idle hhead ?_
  exact A.bind_pure (W.statements.holds_checkAll (W.ready ht hf ht')) _

/-- The check of a program comes to what its nodes come to. -/
theorem holds_check : A.Holds ((p.node.places []).flatMap g) (p.check levels) := by
  have hplaces (r) (hr : r ∈ p.functions.zipIdx) : (r.1.node.places [r.2]).flatMap g =
      header r.1 r.2 ++ (params r.1 r.2 ++ (r.1.belowPlaces r.2).flatMap g) := by
    rw [Function.places_node, List.flatMap_cons, W.split r.1 r.2 hr, List.append_assoc]
  have hbodies (t) (ht : (Function.declareAll .empty 0 p.functions).result = some t) :=
    Function.holds_checkAll (l := fun f i => params f i ++ (f.belowPlaces i).flatMap g)
      p.functions 0 fun r hr => W.holds_function ht hr
  have hroot : p.node.places [] =
      ([], p.node) :: Node.placesFrom false [] 0 (p.functions.map Function.node) := by
    simp [node, Node.places]
  rw [hroot, List.flatMap_cons, Function.places_nodes, List.flatMap_assoc,
    List.flatMap_congr hplaces]
  refine A.add_idle (W.statements.mute rfl) ?_
  -- all headers come first, but the order does not matter
  exact A.perm (A.bind W.declared fun t ht _ => hbodies t ht) (List.flatMap_append_perm ..)

end Accounted

end Program

end BracketLang
