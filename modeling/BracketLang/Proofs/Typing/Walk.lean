import BracketLang.Proofs.Tree.Plain
import BracketLang.Proofs.Typing.Chains
import BracketLang.Proofs.Typing.Growth

/-! How the checker goes over a tree. Every function of the checker is brought into one form here:
it checks the parts, raises what is wrong with a name (`Expr.fault?`, `Stmt.fault?`), compares
types, and notes its own. `Expr.Walk` lists what has to be shown of each kind of expression for a
property to hold of the check of all of them, and a statement is its opening, followed by the blocks
in it (`Stmt.check_eq_bind`). What is said of checks elsewhere is said through these forms, so a
change to one function of the checker is a change to its form. -/

namespace BracketLang

variable {levels : Nat}

theorem Ty.ne_error_of_not_compatible {t t' : Ty} (h : ¬ t.compatible t') :
    t ≠ .error ∧ t' ≠ .error := by
  simp only [compatible, Bool.or_eq_true, decide_eq_true_eq, not_or] at h
  exact h.1

namespace Check

variable {α : Type}

/-- Reports the error, if there is one. -/
def raise : Option SemanticError → Check Unit
  | none => pure ()
  | some e => report e

/-- What an attempt complains of. -/
def complaint? : Except SemanticError α → Option SemanticError
  | .ok _ => none
  | .error e => some e

theorem orReport_eq_bind (b : α) (y : Except SemanticError α) :
    orReport b y = do
      raise (complaint? y)
      return y.toOption.getD b := by
  cases y <;> rfl

end Check

open Check

/-! ## Comparing types -/

/-- A value is reported if its type and the one that is expected are known and differ. -/
theorem Stmt.expectType_cases (expected actual : Ty) (context : String) (e : Expr) :
    (∀ path, expectType expected actual context e path = pure ()) ∨
    expected ≠ .error ∧ actual ≠ .error ∧ ∀ path, expectType expected actual context e path =
      report (.mismatch expected actual context e.span.start (e.ref path)) := by
  unfold expectType
  by_cases h : expected.compatible actual
  · simp [h]
  · simp [h, Ty.ne_error_of_not_compatible h]

/-- What is returned is compared with what the function around it returns, if there is one. -/
theorem Stmt.compareResult_cases (scope : Option Scope) (actual : Ty) :
    (∀ node l, compareResult scope node l actual = pure ()) ∨
    actual ≠ .error ∧ ∃ (f : String) (expected : Ty), expected ≠ .error ∧ ∀ node l,
      compareResult scope node l actual =
        report (.mismatch expected actual s!"return from '{f}'" l node) := by
  unfold compareResult
  cases scope.bind fun s => s.returnType.map (s.name, ·) with
  | none => exact .inl fun _ _ => rfl
  | some r =>
    obtain ⟨f, expected⟩ := r
    by_cases h : expected.compatible actual
    · simp [h]
    · obtain ⟨hexpected, hactual⟩ := Ty.ne_error_of_not_compatible h
      exact .inr ⟨hactual, f, expected, hexpected, by simp [h]⟩

/-- The outcome of comparing operands, at a node of kind `k` with span `s`: a type, which is known
unless `Unknown` holds, or a mismatch between known types, in words of which `Says` holds. -/
inductive Check.Verdict (k : NodeKind) (s : Span) (Says : String → Prop) (Unknown : Prop)
    (x : Path → Check Ty) : Prop
  | gives (r : Ty) (hr : r = .error → Unknown) (hx : ∀ path, x path = pure r)
  | reports (expected actual : Ty) (context : String) (l : Location) (hknown : ¬ Unknown)
    (hexpected : expected ≠ .error) (hactual : actual ≠ .error) (hcontext : Says context)
    (hx : ∀ path, x path = do
      report (.mismatch expected actual context l ⟨path, k, s⟩)
      return .error)

theorem Expr.verdict_checkUnary (op : String) (e : Expr) (s : Span) (t : Ty) :
    Verdict .unary s (· = s!"operand of unary '{op}'") (t = .error)
      fun path => checkUnary op e t ⟨path, .unary, s⟩ := by
  by_cases ht : t = .error
  · exact .gives .error (fun _ => ht) fun path => by simp [checkUnary, ht]
  · have hexpected : (if op = "!" then Ty.bool else Ty.int) ≠ .error := by
      split <;> decide
    by_cases h : t = if op = "!" then .bool else .int
    · exact .gives _ (fun h' => absurd h' hexpected) fun path => by simp [checkUnary, ht, ← h]
    · exact .reports _ t _ e.span.start ht hexpected ht rfl fun path => by
        simp [checkUnary, ht, h]

namespace Link

variable (left : Expr) (op : String) (right : Expr) (s : Span) (t t' : Ty)

/-- What an operator says of one operand, or of both. -/
def Says (op context : String) : Prop :=
  context = s!"operand of '{op}'" ∨ context = s!"operands of '{op}'"

/-- The type of an operator's result is not known. -/
def Unknown (op : String) (t t' : Ty) : Prop :=
  t = .error ∨ t' = .error ∨ OperatorClass.ofText? op = none

theorem verdict_both (h : ¬ Unknown op t t') (operands : Ty) {r : Ty}
    (hoperands : operands ≠ .error) (hr : r ≠ .error) :
    Verdict .binary s (Says op) (Unknown op t t')
      fun path => both ⟨path, left, op, right, s⟩ operands r t t' := by
  obtain ⟨ht, h'⟩ := not_or.mp h
  obtain ⟨ht', -⟩ := not_or.mp h'
  by_cases hl : t = operands
  · by_cases hr' : t' = operands
    · exact .gives r (fun h => absurd h hr) fun path => by simp [both, hl, hr']
    · exact .reports operands t' _ right.span.start h hoperands ht' (.inl rfl) fun path => by
        simp [both, hl, hr', ref]
  · exact .reports operands t _ left.span.start h hoperands ht (.inl rfl) fun path => by
      simp [both, hl, ref]

theorem verdict_resultType : Verdict .binary s (Says op) (Unknown op t t')
    fun path => resultType ⟨path, left, op, right, s⟩ t t' := by
  by_cases hknown : t = .error ∨ t' = .error
  · refine .gives .error (fun _ => ?_) fun path => by simp [resultType, hknown]
    exact hknown.imp_right .inl
  cases hop : OperatorClass.ofText? op with
  | none =>
    exact .gives .error (fun _ => .inr (.inr hop)) fun path => by
      simp [resultType, hknown, hop]
  | some c =>
    have h : ¬ Unknown op t t' := by simpa [Unknown, hop] using hknown
    cases c with
    | equality =>
      obtain ⟨ht, ht'⟩ := not_or.mp hknown
      by_cases heq : t = t'
      · exact .gives .bool (fun h => by cases h) fun path => by
          simp [resultType, hop, heq, ht']
      · exact .reports t t' _ right.span.start h ht ht' (.inr rfl) fun path => by
          simp [resultType, hknown, hop, heq, ref]
    | arithmetic | relational =>
      simpa [resultType, hknown, hop] using
        verdict_both left op right s t t' h .int (by decide) (by decide)
    | logical =>
      simpa [resultType, hknown, hop] using
        verdict_both left op right s t t' h .bool (by decide) (by decide)

end Link

namespace Expr

theorem compareArgs_nil (name : String) (path : Path) (i : Nat) (es : List Expr) (ts : List Ty) :
    compareArgs name path i es [] ts = pure () := by
  cases es <;> rfl

theorem compareArgs_cons (name : String) (path : Path) (i : Nat) (e : Expr) (es : List Expr)
    (p : Ty) (ps : List Ty) (t : Ty) (ts : List Ty) :
    compareArgs name path i (e :: es) (p :: ps) (t :: ts) = (do
      Stmt.expectType p t s!"argument {i + 1} of '{name}'" e (i :: path)
      compareArgs name path (i + 1) es ps ts) := by
  rw [compareArgs, Stmt.expectType]
  cases p.compatible t <;> rfl

end Expr

/-! ## Names -/

/-- Whether the error is about a name and not about a type or the nesting. -/
def SemanticError.isNaming (e : SemanticError) : Bool :=
  match e.cause with
  | .typeMismatch .. | .nestingTooDeep => false
  | _ => true

/-- The error is the refusal of a name that is taken, at the given node. -/
def SemanticError.Refuses (e : SemanticError) (node : Option NodeRef) : Prop :=
  e.node = node ∧ ∃ name noun earlier, e.cause = .redeclaration name noun earlier

theorem SemanticError.Refuses.isNaming {e : SemanticError} (h : e.Refuses n) : e.isNaming := by
  obtain ⟨-, name, noun, earlier, hcause⟩ := h
  rw [SemanticError.isNaming, hcause]

theorem Scope.refuses_of_complaint? {α : Type} {s : Scope} {put : Scope → α}
    (h : complaint? ((s.define symbol node).map put) = some e) : e.Refuses node := by
  unfold define at h
  split at h
  · cases h
    exact ⟨rfl, _, _, _, rfl⟩
  · cases h

namespace SymbolTable

theorem refuses_of_defineVar {t : SymbolTable}
    (h : complaint? (t.defineVar x type location node) = some e) : e.Refuses node := by
  obtain ⟨global, _ | ⟨s, ss⟩⟩ := t
  · exact Scope.refuses_of_complaint? h
  · exact Scope.refuses_of_complaint? h

theorem refuses_of_defineFunction {t : SymbolTable}
    (h : complaint? (t.defineFunction x type params location node) = some e) : e.Refuses node :=
  Scope.refuses_of_complaint? h

/-- The type of a variable, unknown if nothing declares it. -/
def varType (t : SymbolTable) (x : String) : Ty := (t.findVar? x).elim .error Symbol.type

/-- The type of a call, unknown if nothing declares the function. -/
def callType (t : SymbolTable) (f : String) : Ty := (t.findFunction? f).elim .error Symbol.type

/-- The parameters that `n` arguments are compared with: those of the function, if there are as
many. -/
def wanted (t : SymbolTable) (f : String) (n : Nat) : List Ty :=
  (t.findFunction? f).elim [] fun y => if y.arity = n then y.params else []

/-- What is wrong with the use of a variable. -/
def varFault? (t : SymbolTable) (x : String) (node : NodeRef) : Option SemanticError :=
  match t.findVar? x with
  | some _ => none
  | none =>
    let similar := t.similarNames x (some .var) suggestionLimit
    some ⟨.undeclaredVariable x similar, node.span.start, some node⟩

/-- What is wrong with a call with `n` arguments, whatever they are. -/
def callFault? (t : SymbolTable) (f : String) (n : Nat) (node : NodeRef) : Option SemanticError :=
  match t.findFunction? f with
  | none =>
    let similar := t.similarNames f (some .function) suggestionLimit
    some ⟨.undeclaredFunction f similar, node.span.start, some node⟩
  | some y =>
    if y.arity = n then none else some ⟨.arityMismatch f y.arity n, node.span.start, some node⟩

end SymbolTable

namespace Expr

/-- What is wrong with the name that an expression uses. -/
def fault? (table : SymbolTable) (path : Path) : Expr → Option SemanticError
  | var x s => table.varFault? x ⟨path, .var, s⟩
  | call f args s => table.callFault? f args.length ⟨path, .call, s⟩
  | _ => none

/-- What is wrong with a name is reported for the node that uses it. -/
theorem of_fault? {e : Expr} (h : e.fault? table path = some err) :
    err.isNaming ∧ err.node = some (e.ref path) := by
  cases e with
  | var x s =>
    simp only [fault?, SymbolTable.varFault?] at h
    split at h
    · cases h
    · cases h
      exact ⟨rfl, rfl⟩
  | call f args s =>
    simp only [fault?, SymbolTable.callFault?] at h
    split at h
    · cases h
      exact ⟨rfl, rfl⟩
    · split at h
      · cases h
      · cases h
        exact ⟨rfl, rfl⟩
  | _ => cases h

theorem checkVar_eq_bind (table : SymbolTable) (x : String) (node : NodeRef) :
    checkVar table x node = do
      raise (table.varFault? x node)
      return table.varType x := by
  unfold checkVar SymbolTable.varFault? SymbolTable.varType
  cases table.findVar? x <;> rfl

/-- A call raises what is wrong with the name or the number of arguments, checks the arguments and
compares them with what is wanted. -/
theorem checkCallWith_eq_bind (table : SymbolTable) (f : String) (args : List Expr)
    (types : Check (List Ty)) (node : NodeRef) :
    checkCallWith table f args types node = do
      raise (table.callFault? f args.length node)
      let ts ← types
      compareArgs f node.path 0 args (table.wanted f args.length) ts
      return table.callType f := by
  unfold checkCallWith SymbolTable.callFault? SymbolTable.callType SymbolTable.wanted
  cases table.findFunction? f with
  | none => simp [raise, compareArgs_nil]
  | some y =>
    by_cases h : y.arity = args.length
    · simp [raise, h]
    · simp [raise, h, compareArgs_nil]

/-! ## Expressions -/

/-- Checks an expression and notes its type. -/
def noted (path : Path) (x : Check Ty) : Check Ty := do
  let type ← x
  .annotate path type
  return type

/-- What has to be shown for `P` to hold of the check of every expression, with `n` levels to go,
and `Ps` of that of all arguments. A left operand is checked on the level of its operator. -/
structure Walk (table : SymbolTable) (P : Nat → Path → Expr → Check Ty → Prop)
    (Ps : Nat → Path → Nat → List Expr → Check (List Ty) → Prop) : Prop where
  exhausted {path e} : P 0 path e .exhausted
  integer {n path v s} : P (n + 1) path (.integer v s) (noted path (pure .int))
  boolean {n path v s} : P (n + 1) path (.boolean v s) (noted path (pure .bool))
  typeName {n path t} : P (n + 1) path (.typeName t) (noted path (pure .error))
  var {n path x s} : P (n + 1) path (.var x s) (noted path (checkVar table x ⟨path, .var, s⟩))
  unary {n path op e s x} : P n (0 :: path) e x → P (n + 1) path (.unary op e s) (noted path do
    let t ← x
    checkUnary op e t ⟨path, .unary, s⟩)
  binary {n path l op r s x y} : P (n + 1) (0 :: path) l x → P n (1 :: path) r y →
    P (n + 1) path (.binary l op r s) (noted path do
      let t ← x
      let t' ← y
      Link.resultType ⟨path, l, op, r, s⟩ t t')
  call {n path f es s x} : Ps n path 0 es x →
    P (n + 1) path (.call f es s) (noted path (checkCallWith table f es x ⟨path, .call, s⟩))
  nil {n path i} : Ps n path i [] (pure [])
  cons {n path i e es x y} : P n (i :: path) e x → Ps n path (i + 1) es y →
    Ps n path i (e :: es) (do
      let t ← x
      let ts ← y
      return t :: ts)

section
variable {table : SymbolTable}

theorem checkWithin_unary (n : Nat) (path : Path) (op : String) (e : Expr) (s : Span) :
    (unary op e s).checkWithin table (n + 1) path = noted path (do
      let t ← e.checkWithin table n (0 :: path)
      checkUnary op e t ⟨path, .unary, s⟩) := by
  rw [checkWithin, checkChain, startChain_nil]
  rfl

theorem checkWithin_binary (n : Nat) (path : Path) (l : Expr) (op : String) (r : Expr) (s : Span) :
    (binary l op r s).checkWithin table (n + 1) path = noted path (do
      let t ← l.checkWithin table (n + 1) (0 :: path)
      let t' ← r.checkWithin table n (1 :: path)
      Link.resultType ⟨path, l, op, r, s⟩ t t') := by
  rw [checkWithin, checkChain_binary, noted, bind_assoc]
  simp only [bind_assoc]
  rfl

theorem checkWithin_call (n : Nat) (path : Path) (f : String) (es : List Expr) (s : Span) :
    (call f es s).checkWithin table (n + 1) path = noted path
      (checkCallWith table f es (checkArgs (checkWithin table n) path 0 es) ⟨path, .call, s⟩) := by
  rw [checkWithin, checkChain, startChain_nil]
  rfl

theorem checkWithin_var (n : Nat) (path : Path) (x : String) (s : Span) :
    (var x s).checkWithin table (n + 1) path = noted path (checkVar table x ⟨path, .var, s⟩) := by
  rw [checkWithin, checkChain, startChain_nil]
  rfl

namespace Walk

variable {P : Nat → Path → Expr → Check Ty → Prop}
  {Ps : Nat → Path → Nat → List Expr → Check (List Ty) → Prop} (W : Walk table P Ps)
include W

theorem args (h : ∀ path e, P n path e (e.checkWithin table n path)) (path : Path) (i : Nat)
    (es : List Expr) : Ps n path i es (checkArgs (checkWithin table n) path i es) := by
  induction es generalizing i with
  | nil => exact W.nil
  | cons e es ih => exact W.cons (h (i :: path) e) (ih (i + 1))

/-- From what has one level less to go to a whole chain of operators. -/
theorem step (h : ∀ path e, P n path e (e.checkWithin table n path)) (path : Path) (e : Expr) :
    P (n + 1) path e (e.checkWithin table (n + 1) path) := by
  match e with
  | .integer .. => exact W.integer
  | .boolean .. => exact W.boolean
  | .typeName _ => exact W.typeName
  | .var .. =>
    rw [checkWithin_var]
    exact W.var
  | .unary _ e _ =>
    rw [checkWithin_unary]
    exact W.unary (h (0 :: path) e)
  | .binary l _ r _ =>
    rw [checkWithin_binary]
    exact W.binary (step h (0 :: path) l) (h (1 :: path) r)
  | .call _ es _ =>
    rw [checkWithin_call]
    exact W.call (W.args h path 0 es)

theorem check (n : Nat) (path : Path) (e : Expr) : P n path e (e.checkWithin table n path) := by
  induction n generalizing path e with
  | zero => exact W.exhausted
  | succ n ih => exact W.step ih path e

end Walk

end

end Expr

/-! ## Statements -/

namespace Stmt

/-- The expression that a statement starts with, and which of its children it is. -/
def value? : Stmt → Option (Nat × Expr)
  | letVar _ _ e _ => some (1, e)
  | assign _ e _ | ifThen e _ _ _ | ifElse e _ _ _ _ _ | whileLoop e _ _ _ | print e _
  | expr e _ => some (0, e)
  | ret value _ => value.map (0, ·)
  | block .. => none

/-- What is wrong with the name that a statement declares or assigns to. -/
def fault? (table : SymbolTable) (path : Path) : Stmt → Option SemanticError
  | letVar x type _ s =>
    complaint? (table.defineVar x (.ofName type.name) s.start (some ⟨path, .letVar, s⟩))
  | assign x _ s => table.varFault? x ⟨path, .assign, s⟩
  | _ => none

theorem of_fault? {s : Stmt} (h : s.fault? table path = some err) :
    err.isNaming ∧ err.node = some (s.ref path) := by
  cases s with
  | letVar x type e span =>
    have hrefused := SymbolTable.refuses_of_defineVar h
    exact ⟨hrefused.isNaming, hrefused.1⟩
  | assign x e span =>
    simp only [fault?, SymbolTable.varFault?] at h
    split at h
    · cases h
    · cases h
      exact ⟨rfl, rfl⟩
  | _ => cases h

/-- A value is assigned whether or not the variable is known; it is compared if it is. -/
theorem checkAssign_eq_bind (levels : Nat) (table : SymbolTable) (node : NodeRef) (x : String)
    (e : Expr) :
    checkAssign levels table node x e = (do
      raise (table.varFault? x node)
      let t ← e.check levels table (0 :: node.path)
      expectType (table.varType x) t s!"assignment to '{x}'" e (0 :: node.path)) := by
  unfold checkAssign SymbolTable.varFault? SymbolTable.varType
  cases table.findVar? x with
  | some y => rfl
  | none => simp [raise, expectType, Ty.compatible]

/-- The part of a statement in front of its blocks. -/
def opening (levels : Nat) (table : SymbolTable) (path : Path) : Stmt → Check SymbolTable
  | letVar x type e s => checkLet levels table ⟨path, .letVar, s⟩ x type e
  | assign x e s => do
    checkAssign levels table ⟨path, .assign, s⟩ x e
    return table
  | ifThen c _ _ _ | ifElse c _ _ _ _ _ => do
    checkCondition levels table (0 :: path) "if condition" c
    return table
  | whileLoop c _ _ _ => do
    checkCondition levels table (0 :: path) "while condition" c
    return table
  | ret value s => do
    checkReturn levels table ⟨path, .ret, s⟩ value
    return table
  | print e _ | expr e _ => do
    let _ ← e.check levels table (0 :: path)
    return table
  | block .. => pure table

/-- A block of a statement, in a scope of its own. -/
def checkBody (levels : Nat) (kind : ScopeKind) (name : String) (path : Path) (ss : List Stmt)
    (table : SymbolTable) : Check SymbolTable := do
  let table ← checkAll levels (table.enter kind name none) path 0 ss
  return table.leave

/-- The blocks of a statement. -/
def inside (levels : Nat) (path : Path) : Stmt → SymbolTable → Check SymbolTable
  | ifThen _ ss _ _, table => checkBody levels .block "if" (1 :: path) ss table
  | ifElse _ ss _ ss' _ _, table => do
    let table ← checkBody levels .block "if" (1 :: path) ss table
    checkBody levels .block "else" (2 :: path) ss' table
  | whileLoop _ ss _ _, table => checkBody levels .loop "while" (1 :: path) ss table
  | _, table => pure table

/-- A statement is its opening and then its blocks. -/
theorem check_eq_bind (levels : Nat) (table : SymbolTable) (path : Path) (s : Stmt) :
    s.check levels table path =
      (s.opening levels table path >>= s.inside levels path).orExhausted table
        (tooDeep (s.ref path)) := by
  cases s with
  | ifThen | ifElse | whileLoop =>
    simp only [check, opening, inside, checkBody, bind_assoc, pure_bind]
    rfl
  | block => rfl
  | _ =>
    -- there are no blocks to go into
    simp only [check, opening]
    exact congrArg (orExhausted · table _) (bind_pure _).symm

theorem gives_checkBody (kind : ScopeKind) (name : String) (path : Path) (ss : List Stmt)
    (table : SymbolTable) : (checkBody levels kind name path ss table).Gives (· = table) :=
  (gives_checkAll (table.enter kind name none) path 0 ss).bind fun _ ht =>
    gives_pure ht.leave_of_enter

theorem gives_opening (table : SymbolTable) (path : Path) {s : Stmt} (hs : s.kind ≠ .letVar) :
    (s.opening levels table path).Gives (· = table) := by
  cases s with
  | letVar => exact absurd rfl hs
  | block => exact gives_pure rfl
  | _ => exact gives_bind_of_forall fun _ => gives_pure rfl

/-- Only a declaration changes what the statements behind it see. -/
theorem gives_self (table : SymbolTable) (path : Path) {s : Stmt} (hs : s.kind ≠ .letVar) :
    (s.check levels table path).Gives (· = table) := by
  have hinside (t : SymbolTable) (ht : t = table) :
      (s.inside levels path t).Gives (· = table) := by
    subst ht
    cases s with
    | ifThen _ ss | whileLoop _ ss => exact gives_checkBody _ _ _ ss t
    | ifElse _ ss _ ss' =>
      refine (gives_checkBody _ _ _ ss t).bind fun _ ht => ?_
      rw [ht]
      exact gives_checkBody _ _ _ ss' t
    | _ => exact gives_pure rfl
  intro t ht
  rw [check_eq_bind] at ht
  obtain ⟨t', ht', hself⟩ := ((gives_opening table path hs).bind hinside).orExhausted (b := table)
    (e := tooDeep (s.ref path)) rfl
  rw [← Option.some.inj (ht'.symm.trans ht), hself]

/-- The block `ss` is child `i` of a statement and is checked in such a scope. -/
inductive Body : Stmt → Nat → ScopeKind → String → List Stmt → Prop
  | ifThen {c ss r s} : Body (.ifThen c ss r s) 1 .block "if" ss
  | ifTrue {c ss r ss' r' s} : Body (.ifElse c ss r ss' r' s) 1 .block "if" ss
  | ifFalse {c ss r ss' r' s} : Body (.ifElse c ss r ss' r' s) 2 .block "else" ss'
  | whileLoop {c ss r s} : Body (.whileLoop c ss r s) 1 .loop "while" ss

/-- What is asked of the expressions in a statement is asked of the one that it starts with. -/
theorem Meets.value {s : Stmt} (h : s.Meets D) (hv : s.value? = some (i, e)) : D.expr e := by
  cases s with
  | letVar =>
    cases hv
    exact h.2.2
  | assign =>
    cases hv
    exact h.2
  | ifThen | ifElse | whileLoop =>
    cases hv
    exact h.1
  | ret value =>
    cases value with
    | none => cases hv
    | some e =>
      cases hv
      exact h
  | print | expr =>
    cases hv
    exact h
  | block => cases hv

theorem Meets.body {s : Stmt} (h : s.Meets D) (hb : Body s i scope name ss) : AllMeet D ss := by
  cases hb with
  | ifThen | whileLoop => exact h.2
  | ifTrue => exact h.2.1
  | ifFalse => exact h.2.2

/-- What has to be shown for `P` to hold of all statements, and `Ps` of all lists of them: `P` of
each whose blocks are as they should be, in whatever table. -/
structure Walk (P : SymbolTable → Path → Stmt → Prop)
    (Ps : SymbolTable → Path → Nat → List Stmt → Prop) : Prop where
  stmt {table path s} : (∀ i kind name ss, Body s i kind name ss →
    ∀ t : SymbolTable, Ps (t.enter kind name none) (i :: path) 0 ss) → P table path s
  nil {table path i} : Ps table path i []
  cons {table path i s ss} : P table (i :: path) s → (∀ t, Ps t path (i + 1) ss) →
    Ps table path i (s :: ss)

namespace Walk

variable {P : SymbolTable → Path → Stmt → Prop} {Ps : SymbolTable → Path → Nat → List Stmt → Prop}
  (W : Walk P Ps)
include W

mutual

theorem holds (table : SymbolTable) (path : Path) (s : Stmt) : P table path s := by
  match s with
  | .ifThen c ss r span | .whileLoop c ss r span =>
    apply W.stmt
    intro i kind name ss hbody t
    cases hbody
    exact holdsAll _ _ 0 ss
  | .ifElse c ss r ss' r' span =>
    apply W.stmt
    intro i kind name ss hbody t
    cases hbody with
    | ifTrue => exact holdsAll _ _ 0 ss
    | ifFalse => exact holdsAll _ _ 0 ss'
  | .letVar .. | .assign .. | .ret .. | .print .. | .expr .. | .block .. =>
    apply W.stmt
    intro i kind name ss hbody
    cases hbody

theorem holdsAll (table : SymbolTable) (path : Path) (i : Nat) (ss : List Stmt) :
    Ps table path i ss := by
  match ss with
  | [] => exact W.nil
  | s :: ss => exact W.cons (holds table (i :: path) s) fun t => holdsAll t path (i + 1) ss

end

end Walk

end Stmt

end BracketLang
