import BracketLang.Proofs.Typing.Silence
import BracketLang.Proofs.Typing.Walk

/-! What a body is checked against. Of the functions around it, the check of a body reads their
signatures, and their names where it suggests one; of the place of the body in the program, it
keeps the path and nothing else. So two checks of one body agree (`Check.Agree`) if the functions
around it have the same signatures, and if the path of the one is that of the other with `q` put
behind it. Reports are compared through a view `v`, which may leave the suggestions out. -/

namespace BracketLang

variable {levels : Nat}

/-- The node, seen from a root that is reached by `q`. -/
def NodeRef.under (q : Path) (n : NodeRef) : NodeRef := { n with path := n.path ++ q }

/-- The report, seen from a root that is reached by `q`. -/
def SemanticError.under (q : Path) (e : SemanticError) : SemanticError :=
  { e with node := e.node.map (·.under q) }

/-! ## Checks that agree -/

namespace Check

variable {α β : Type} {v : SemanticError → SemanticError} {q : Path} {R : α → α → Prop}
  {S : β → β → Prop} {x y : Check α} {f g : α → Check β}

/-- The second check gives and reports what the first does, below `q`. -/
structure Agree (v : SemanticError → SemanticError) (q : Path) (R : α → α → Prop)
    (x y : Check α) : Prop where
  result : Option.Rel R x.result y.result
  errors : y.errors.map v = x.errors.map fun e => v (e.under q)
  types : y.types = x.types.map fun r => (r.1 ++ q, r.2)

theorem agree_pure {a b : α} (h : R a b) : Agree v q R (pure a) (pure b) := ⟨.some h, rfl, rfl⟩

theorem agree_exhausted : Agree v q R (exhausted : Check α) exhausted := ⟨.none, rfl, rfl⟩

theorem agree_annotate (path : Path) (t : Ty) :
    Agree v q Eq (annotate path t) (annotate (path ++ q) t) := ⟨.some rfl, rfl, rfl⟩

theorem agree_report (h : v e' = v (e.under q)) : Agree v q Eq (report e) (report e') :=
  ⟨.some rfl, congrArg (fun e => [e]) h, rfl⟩

theorem agree_mismatch (expected actual : Ty) (context : String) (l : Location) (n : NodeRef) :
    Agree v q Eq (report (.mismatch expected actual context l n))
      (report (.mismatch expected actual context l (n.under q))) :=
  agree_report rfl

namespace Agree

theorem result_cases (hx : Agree v q R x y) :
    x.result = none ∧ y.result = none ∨
      ∃ a b, x.result = some a ∧ y.result = some b ∧ R a b := by
  have hresult := hx.result
  revert hresult
  generalize x.result = r
  generalize y.result = r'
  intro hresult
  cases hresult with
  | none => exact .inl ⟨rfl, rfl⟩
  | some hab => exact .inr ⟨_, _, rfl, rfl, hab⟩

theorem bind (hx : Agree v q R x y)
    (hf : ∀ a b, x.result = some a → y.result = some b → R a b → Agree v q S (f a) (g b)) :
    Agree v q S (x >>= f) (y >>= g) := by
  rcases hx.result_cases with ⟨hr, hr'⟩ | ⟨a, b, hr, hr', hab⟩
  · rw [bind_of_none hr, bind_of_none hr']
    exact ⟨.none, hx.errors, hx.types⟩
  · have h := hf a b hr hr' hab
    rw [bind_of_some hr, bind_of_some hr']
    refine ⟨h.result, ?_, ?_⟩
    · rw [List.map_append, List.map_append, hx.errors, h.errors]
    · rw [List.map_append, hx.types, h.types]

/-- Where the first checks give the same, what follows may take it as given. -/
theorem bind_eq (hx : Agree v q Eq x y) (hf : ∀ a, Agree v q S (f a) (g a)) :
    Agree v q S (x >>= f) (y >>= g) := by
  apply hx.bind
  intro a b _ _ hab
  cases hab
  exact hf a

theorem orExhausted (hx : Agree v q R x y) {a b : α} (hab : R a b)
    (he : v e' = v (e.under q)) : Agree v q R (x.orExhausted a e) (y.orExhausted b e') := by
  unfold Check.orExhausted
  rcases hx.result_cases with ⟨hr, hr'⟩ | ⟨a, b, hr, hr', -⟩
  · rw [hr, hr']
    refine ⟨.some hab, ?_, hx.types⟩
    rw [List.map_append, List.map_append, hx.errors, List.map_singleton, List.map_singleton, he]
  · rw [hr, hr']
    exact hx

end Agree

theorem agree_raise {o o' : Option SemanticError} (h : o'.map v = o.map fun e => v (e.under q)) :
    Agree v q Eq (raise o) (raise o') := by
  cases o with
  | none =>
    cases o' with
    | none => exact agree_pure rfl
    | some e' => cases h
  | some e =>
    cases o' with
    | none => cases h
    | some e' => exact agree_report (Option.some.inj h)

/-- What is said of operands depends on the place in the path only. -/
theorem agree_verdict {x : Path → Check Ty} (h : Verdict k s Says U x) (path : Path) :
    Agree v q Eq (x path) (x (path ++ q)) := by
  cases h with
  | gives r _ hx =>
    rw [hx, hx]
    exact agree_pure rfl
  | reports expected actual context l _ _ _ _ hx =>
    rw [hx, hx]
    exact (agree_mismatch ..).bind_eq fun _ => agree_pure rfl

end Check

open Check

/-! ## Functions that serve alike -/

/-- Two global scopes hold functions only, those of a name have the same signature, and `v` does not
tell apart what they suggest in place of an unknown function. -/
structure Scope.ServesAlike (v : SemanticError → SemanticError) (g g' : Scope) : Prop where
  kinds : g.kind = .global ∧ g'.kind = .global
  functions : (∀ y ∈ g.symbols, y.kind = .function) ∧ ∀ y ∈ g'.symbols, y.kind = .function
  signatures x : (g'.find? x).map (fun y => (y.type, y.params)) =
    (g.find? x).map fun y => (y.type, y.params)
  hints inner x l n :
    v ⟨.undeclaredFunction x (SymbolTable.similarNames ⟨g', inner⟩ x (some .function)
        SymbolTable.suggestionLimit), l, n⟩ =
      v ⟨.undeclaredFunction x (SymbolTable.similarNames ⟨g, inner⟩ x (some .function)
        SymbolTable.suggestionLimit), l, n⟩

/-- Two tables inside of a function have the same scopes above functions that serve alike. -/
structure SymbolTable.Alike (v : SemanticError → SemanticError) (t t' : SymbolTable) : Prop where
  inner : t'.inner = t.inner
  inner_ne : t.inner ≠ []
  global : t.global.ServesAlike v t'.global

namespace Scope.ServesAlike

/-- Nothing in the global scope is a variable. -/
theorem filter_find? {g : Scope} (h : ∀ y ∈ g.symbols, y.kind = .function) (x : String) :
    (g.find? x).filter (·.kind = .var) = none := by
  rw [Option.filter_eq_none_iff]
  intro y hy hkind
  have hfunction := h y (List.mem_of_find?_eq_some hy)
  rw [of_decide_eq_true hkind] at hfunction
  cases hfunction

theorem filter_symbols {g : Scope} (h : ∀ y ∈ g.symbols, y.kind = .function) :
    g.symbols.filter (fun y => (some SymbolKind.var).all (y.kind = ·)) = [] := by
  rw [List.filter_eq_nil_iff]
  intro y hy
  simp [h y hy]

theorem findFunction?_eq {g : Scope} (h : ∀ y ∈ g.symbols, y.kind = .function)
    (inner : List Scope) (x : String) :
    SymbolTable.findFunction? ⟨g, inner⟩ x = g.find? x := by
  rw [SymbolTable.findFunction?]
  cases hy : g.find? x with
  | none => rfl
  | some y => simp [h y (List.mem_of_find?_eq_some hy)]

end Scope.ServesAlike

namespace SymbolTable.Alike

variable {v : SemanticError → SemanticError} {t t' : SymbolTable}

theorem enter (H : Alike v t t') (kind : ScopeKind) (name : String) (returnType : Option Ty) :
    Alike v (t.enter kind name returnType) (t'.enter kind name returnType) where
  inner := congrArg (_ :: ·) H.inner
  inner_ne := List.cons_ne_nil _ _
  global := H.global

theorem findVar?_eq (H : Alike v t t') (x : String) : t'.findVar? x = t.findVar? x := by
  obtain ⟨h, h'⟩ := H.global.functions
  simp only [findVar?, find?, scopes, H.inner, List.findSome?_append]
  cases t.inner.findSome? (·.find? x) with
  | some y => rfl
  | none =>
    have hglobal := Scope.ServesAlike.filter_find? h x
    have hglobal' := Scope.ServesAlike.filter_find? h' x
    simpa using hglobal'.trans hglobal.symm

theorem similarVars_eq (H : Alike v t t') (x : String) (limit : Int) :
    t'.similarNames x (some .var) limit = t.similarNames x (some .var) limit := by
  obtain ⟨h, h'⟩ := H.global.functions
  have hnames : t'.visibleNames (some .var) = t.visibleNames (some .var) := by
    simp only [visibleNames, scopes, H.inner, List.flatMap_append, List.flatMap_singleton,
      List.filter_append, Scope.ServesAlike.filter_symbols h, Scope.ServesAlike.filter_symbols h']
  rw [similarNames, similarNames, hnames]

theorem functionScope?_eq (H : Alike v t t') : t'.functionScope? = t.functionScope? := by
  obtain ⟨h, h'⟩ := H.global.kinds
  simp [functionScope?, scopes, H.inner, List.find?_append, h, h']

theorem findFunction?_cases (H : Alike v t t') (x : String) :
    t.findFunction? x = none ∧ t'.findFunction? x = none ∨
      ∃ y y', t.findFunction? x = some y ∧ t'.findFunction? x = some y' ∧
        y'.type = y.type ∧ y'.params = y.params := by
  obtain ⟨h, h'⟩ := H.global.functions
  have hsignature := H.global.signatures x
  rw [Scope.ServesAlike.findFunction?_eq h t.inner, Scope.ServesAlike.findFunction?_eq h' t'.inner]
  cases hfind : t.global.find? x with
  | none =>
    rw [hfind, Option.map_none, Option.map_eq_none_iff] at hsignature
    exact .inl ⟨rfl, hsignature⟩
  | some y =>
    rw [hfind, Option.map_some, Option.map_eq_some_iff] at hsignature
    obtain ⟨y', hfind', heq⟩ := hsignature
    exact .inr ⟨y, y', rfl, hfind', congrArg Prod.fst heq, congrArg Prod.snd heq⟩

theorem similarFunctions (H : Alike v t t') (x : String) (l : Location) (n : Option NodeRef) :
    v ⟨.undeclaredFunction x (t'.similarNames x (some .function) suggestionLimit), l, n⟩ =
      v ⟨.undeclaredFunction x (t.similarNames x (some .function) suggestionLimit), l, n⟩ := by
  obtain ⟨g, inner⟩ := t
  obtain ⟨g', inner'⟩ := t'
  obtain rfl : inner' = inner := H.inner
  exact H.global.hints inner' x l n

/-- A declaration goes into the innermost scope, which the tables share. -/
theorem agree_defineVar (H : Alike v t t') (name : String) (type : Ty) (l : Location)
    (n : Option NodeRef) :
    Agree v q (Alike v) (orReport t (t.defineVar name type l n))
      (orReport t' (t'.defineVar name type l (n.map (·.under q)))) := by
  obtain ⟨g, _ | ⟨s, ss⟩⟩ := t
  · exact absurd rfl H.inner_ne
  · obtain ⟨g', inner'⟩ := t'
    obtain rfl : inner' = s :: ss := H.inner
    simp only [defineVar, define, Scope.define]
    cases s.find? name with
    | some earlier => exact (agree_report rfl).bind_eq fun _ => agree_pure H
    | none => exact agree_pure ⟨rfl, List.cons_ne_nil _ _, H.global⟩

end SymbolTable.Alike

/-! ## Expressions -/

variable {v : SemanticError → SemanticError} {q : Path}

namespace SymbolTable.Alike

variable {t t' : SymbolTable} (H : Alike v t t')
include H

theorem varType_eq (x : String) : t'.varType x = t.varType x := by
  rw [varType, varType, H.findVar?_eq]

theorem callType_eq (f : String) : t'.callType f = t.callType f := by
  rcases H.findFunction?_cases f with ⟨hf, hf'⟩ | ⟨y, y', hf, hf', htype, -⟩
  · rw [callType, callType, hf, hf']
  · rw [callType, callType, hf, hf']
    exact htype

theorem wanted_eq (f : String) (n : Nat) : t'.wanted f n = t.wanted f n := by
  rcases H.findFunction?_cases f with ⟨hf, hf'⟩ | ⟨y, y', hf, hf', -, hparams⟩
  · rw [wanted, wanted, hf, hf']
  · have harity : y'.arity = y.arity := congrArg List.length hparams
    by_cases hn : y.arity = n <;> simp [wanted, hf, hf', harity, hparams, hn]

theorem agree_varFault? (x : String) (n : NodeRef) :
    Agree v q Eq (raise (t.varFault? x n)) (raise (t'.varFault? x (n.under q))) := by
  apply agree_raise
  rw [varFault?, varFault?, H.findVar?_eq, H.similarVars_eq]
  cases t.findVar? x <;> rfl

theorem agree_callFault? (f : String) (count : Nat) (n : NodeRef) :
    Agree v q Eq (raise (t.callFault? f count n)) (raise (t'.callFault? f count (n.under q))) := by
  apply agree_raise
  rcases H.findFunction?_cases f with ⟨hf, hf'⟩ | ⟨y, y', hf, hf', -, hparams⟩
  · rw [callFault?, callFault?, hf, hf']
    exact congrArg some (H.similarFunctions ..)
  · have harity : y'.arity = y.arity := congrArg List.length hparams
    by_cases hn : y.arity = count
    · simp [callFault?, hf, hf', harity, hn]
    · simp only [callFault?, hf, hf', harity, hn, if_false]
      rfl

end SymbolTable.Alike

theorem Stmt.agree_expectType (expected actual : Ty) (context : String) (e : Expr) (path : Path) :
    Agree v q Eq (expectType expected actual context e path)
      (expectType expected actual context e (path ++ q)) := by
  rcases expectType_cases expected actual context e with h | ⟨-, -, h⟩
  · rw [h, h]
    exact agree_pure rfl
  · rw [h, h]
    exact agree_mismatch ..

namespace Expr

variable {t t' : SymbolTable}

theorem agree_compareArgs (name : String) (path : Path) (i : Nat) (es : List Expr)
    (params args : List Ty) :
    Agree v q Eq (compareArgs name path i es params args)
      (compareArgs name (path ++ q) i es params args) := by
  induction params generalizing i es args with
  | nil =>
    rw [compareArgs_nil, compareArgs_nil]
    exact agree_pure rfl
  | cons param params ih =>
    match es, args with
    | [], _ | _ :: _, [] => exact agree_pure rfl
    | e :: es, arg :: args =>
      rw [compareArgs_cons, compareArgs_cons]
      exact (Stmt.agree_expectType ..).bind_eq fun _ => ih (i + 1) es args

theorem agree_noted (path : Path) {x y : Check Ty} (h : Agree v q Eq x y) :
    Agree v q Eq (noted path x) (noted (path ++ q) y) :=
  h.bind_eq fun type => (agree_annotate path type).bind_eq fun _ => agree_pure rfl

theorem walk_agree (H : t.Alike v t') : Walk t
    (fun n path e x => Agree v q Eq x (e.checkWithin t' n (path ++ q)))
    (fun n path i es x => Agree v q Eq x (checkArgs (checkWithin t' n) (path ++ q) i es)) where
  exhausted := agree_exhausted
  integer := agree_noted _ (agree_pure rfl)
  boolean := agree_noted _ (agree_pure rfl)
  typeName := agree_noted _ (agree_pure rfl)
  var {n path x s} := by
    rw [checkWithin_var, checkVar_eq_bind, checkVar_eq_bind, H.varType_eq]
    refine agree_noted path ?_
    exact (H.agree_varFault? x ⟨path, .var, s⟩).bind_eq fun _ => agree_pure rfl
  unary {n path op e s x} hx := by
    rw [checkWithin_unary]
    exact agree_noted path (hx.bind_eq fun t => agree_verdict (verdict_checkUnary op e s t) path)
  binary {n path l op r s x y} hx hy := by
    rw [checkWithin_binary]
    exact agree_noted path (hx.bind_eq fun t => hy.bind_eq fun t' =>
      agree_verdict (Link.verdict_resultType l op r s t t') path)
  call {n path f es s x} hx := by
    rw [checkWithin_call, checkCallWith_eq_bind, checkCallWith_eq_bind, H.callType_eq,
      H.wanted_eq]
    refine agree_noted path ?_
    refine (H.agree_callFault? f es.length ⟨path, .call, s⟩).bind_eq fun _ => ?_
    exact hx.bind_eq fun ts => (agree_compareArgs ..).bind_eq fun _ => agree_pure rfl
  nil := agree_pure rfl
  cons hx hy := hx.bind_eq fun _ => hy.bind_eq fun _ => agree_pure rfl

theorem agree_check (levels : Nat) (H : t.Alike v t') (path : Path) (e : Expr) :
    Agree v q Eq (e.check levels t path) (e.check levels t' (path ++ q)) :=
  (walk_agree H).check levels path e

end Expr

/-! ## Statements -/

namespace Stmt

variable {t t' : SymbolTable}

theorem agree_checkReturn (H : t.Alike v t') (n : NodeRef) (value : Option Expr) :
    Agree v q Eq (checkReturn levels t n value) (checkReturn levels t' (n.under q) value) := by
  rw [checkReturn_eq_bind, checkReturn_eq_bind, H.functionScope?_eq]
  refine Agree.bind_eq ?_ fun type => ?_
  · cases value with
    | none => exact agree_pure rfl
    | some e => exact Expr.agree_check levels H (0 :: n.path) e
  · rcases compareResult_cases t.functionScope? type with h | ⟨-, f, expected, -, h⟩
    · rw [h, h]
      exact agree_pure rfl
    · rw [h, h]
      exact agree_mismatch ..

theorem agree_opening (H : t.Alike v t') (path : Path) (s : Stmt) :
    Agree v q (SymbolTable.Alike v) (s.opening levels t path)
      (s.opening levels t' (path ++ q)) := by
  cases s with
  | letVar x type e span =>
    refine (Expr.agree_check levels H (1 :: path) e).bind_eq fun actual => ?_
    refine (agree_expectType ..).bind_eq fun _ => ?_
    refine (agree_annotate ..).bind_eq fun _ => ?_
    exact H.agree_defineVar x _ _ (some ⟨path, .letVar, span⟩)
  | assign x e span =>
    rw [opening, opening, checkAssign_eq_bind, checkAssign_eq_bind, H.varType_eq]
    refine Agree.bind_eq ?_ fun _ => agree_pure H
    refine (H.agree_varFault? x ⟨path, .assign, span⟩).bind_eq fun _ => ?_
    exact (Expr.agree_check levels H (0 :: path) e).bind_eq fun _ => agree_expectType ..
  | ifThen c | ifElse c | whileLoop c =>
    refine Agree.bind_eq ?_ fun _ => agree_pure H
    exact (Expr.agree_check levels H (0 :: path) c).bind_eq fun _ => agree_expectType ..
  | ret value span =>
    exact (agree_checkReturn H ⟨path, .ret, span⟩ value).bind_eq fun _ => agree_pure H
  | print e | expr e =>
    exact (Expr.agree_check levels H (0 :: path) e).bind_eq fun _ => agree_pure H
  | block => exact agree_pure H

/-- What is left of a block is the table it was checked in. -/
theorem agree_checkBody (H : t.Alike v t') {kind : ScopeKind}
    (h : Agree v q (SymbolTable.Alike v) (checkAll levels (t.enter kind name none) path 0 ss)
      (checkAll levels (t'.enter kind name none) (path ++ q) 0 ss)) :
    Agree v q (SymbolTable.Alike v) (checkBody levels kind name path ss t)
      (checkBody levels kind name (path ++ q) ss t') := by
  refine h.bind fun u u' hu hu' _ => agree_pure ?_
  rw [(gives_checkAll _ _ _ _ u hu).leave_of_enter, (gives_checkAll _ _ _ _ u' hu').leave_of_enter]
  exact H

theorem walk_agree : Walk
    (fun t path s => ∀ t', t.Alike v t' →
      Agree v q (SymbolTable.Alike v) (s.check levels t path) (s.check levels t' (path ++ q)))
    (fun t path i ss => ∀ t', t.Alike v t' →
      Agree v q (SymbolTable.Alike v) (checkAll levels t path i ss)
        (checkAll levels t' (path ++ q) i ss)) where
  stmt {t path s} hbodies t' H := by
    rw [check_eq_bind, check_eq_bind]
    refine ((agree_opening H path s).bind fun u u' _ _ Hu => ?_).orExhausted H rfl
    have hbody {i kind name ss} (h : Body s i kind name ss) (w w' : SymbolTable)
        (Hw : w.Alike v w') := agree_checkBody Hw (hbodies i kind name ss h w _ (Hw.enter ..))
    cases s with
    | ifThen | whileLoop => exact hbody (by constructor) u u' Hu
    | ifElse =>
      refine (hbody .ifTrue u u' Hu).bind fun w w' _ _ Hw => ?_
      exact hbody .ifFalse w w' Hw
    | _ => exact agree_pure Hu
  nil _ H := agree_pure H
  cons hstmt hrest t' H := (hstmt t' H).bind fun u u' _ _ Hu => hrest u u' Hu

theorem agree_checkAll (H : t.Alike v t') (path : Path) (i : Nat) (ss : List Stmt) :
    Agree v q (SymbolTable.Alike v) (checkAll levels t path i ss)
      (checkAll levels t' (path ++ q) i ss) :=
  walk_agree.holdsAll t path i ss t' H

end Stmt

/-! ## Functions -/

namespace Function

theorem agree_declareParams {t t' : SymbolTable} (H : t.Alike v t') (ps : List Param) :
    Agree v q (SymbolTable.Alike v) (declareParams t ps) (declareParams t' ps) := by
  induction ps generalizing t t' with
  | nil => exact agree_pure H
  | cons p ps ih => exact (H.agree_defineVar p.name _ _ none).bind fun _ _ _ _ H => ih H

/-- A body is checked in the same way wherever it stands and whatever serves in place of the
functions around it. -/
theorem agree_check (levels : Nat) {g g' : Scope} (hg : g.ServesAlike v g') (path : Path)
    (f : Function) : Agree v q (fun _ _ => True) (f.check levels ⟨g, []⟩ path)
      (f.check levels ⟨g', []⟩ (path ++ q)) := by
  have H : SymbolTable.Alike v (SymbolTable.enter ⟨g, []⟩ .function f.name (some f.resultType))
      (SymbolTable.enter ⟨g', []⟩ .function f.name (some f.resultType)) :=
    ⟨rfl, List.cons_ne_nil _ _, hg⟩
  refine (agree_declareParams H f.params).bind fun _ _ _ _ H => ?_
  exact (Stmt.agree_checkAll H _ 0 f.body.body).bind fun _ _ _ _ _ => agree_pure trivial

end Function

end BracketLang
