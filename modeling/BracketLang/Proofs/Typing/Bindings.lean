import BracketLang.Proofs.Typing.Independence

/-! What statements leave behind in the scopes. A statement leaves the scopes below the innermost
one as they are, however it ends, and to the innermost one it adds a symbol at most: that of a
declaration that came to its end with a name that is new there (`Stmt.bound`). The scopes of blocks
and functions are closed again, so after a program there is the global scope, with one function of
each name. -/

namespace BracketLang

variable {levels : Nat}

namespace SymbolTable

variable {t t' : SymbolTable}

theorem scopes_eq_cons (t : SymbolTable) : t.scopes = t.current :: t.scopes.tail := by
  obtain ⟨global, _ | ⟨s, ss⟩⟩ := t
  · rfl
  · rfl

/-- `t'` is `t` with the symbols `ys` added to its innermost scope. -/
structure Gains (t : SymbolTable) (ys : List Symbol) (t' : SymbolTable) : Prop where
  below : t'.scopes.tail = t.scopes.tail
  current : t'.current = { t.current with symbols := t.current.symbols ++ ys }

theorem gains_nil (t : SymbolTable) : t.Gains [] t := by
  refine ⟨rfl, ?_⟩
  rw [List.append_nil]

theorem exists_defineVar_of_new (h : t.current.find? x = none) (type : Ty) (l : Location)
    (node : Option NodeRef) :
    ∃ t', t.defineVar x type l node = .ok t' ∧ t.Gains [⟨x, .var, type, l, []⟩] t' := by
  obtain ⟨global, _ | ⟨s, ss⟩⟩ := t
  · have h : global.find? x = none := h
    simp only [defineVar, define, Scope.define, h]
    exact ⟨_, rfl, rfl, rfl⟩
  · have h : s.find? x = none := h
    simp only [defineVar, define, Scope.define, h]
    exact ⟨_, rfl, rfl, rfl⟩

theorem exists_defineVar_of_taken (h : t.current.find? x = some first) (type : Ty) (l : Location)
    (node : Option NodeRef) : ∃ e, t.defineVar x type l node = .error e := by
  obtain ⟨global, _ | ⟨s, ss⟩⟩ := t
  · have h : global.find? x = some first := h
    simp only [defineVar, define, Scope.define, h]
    exact ⟨_, rfl⟩
  · have h : s.find? x = some first := h
    simp only [defineVar, define, Scope.define, h]
    exact ⟨_, rfl⟩

/-- A variable is declared if its name is new in the innermost scope. -/
theorem exists_gains_declared (t : SymbolTable) (x : String) (type : Ty) (l : Location)
    (node : Option NodeRef) :
    ∃ t', (Check.orReport t (t.defineVar x type l node)).result = some t' ∧
      t.Gains (if t.current.find? x = none then [⟨x, .var, type, l, []⟩] else []) t' := by
  cases hx : t.current.find? x with
  | none =>
    obtain ⟨t', hdefine, hgains⟩ := exists_defineVar_of_new hx type l node
    rw [hdefine, if_pos rfl]
    exact ⟨t', rfl, hgains⟩
  | some first =>
    obtain ⟨e, hdefine⟩ := exists_defineVar_of_taken hx type l node
    rw [hdefine, if_neg (by simp)]
    exact ⟨t, rfl, t.gains_nil⟩

end SymbolTable

namespace Stmt

open SymbolTable Check

/-- The symbol that a statement leaves behind: that of a declaration whose initializer was checked
to its end and whose name is new in the innermost scope. -/
def bound (levels : Nat) (table : SymbolTable) (path : Path) : Stmt → List Symbol
  | letVar x type e span =>
    if (e.check levels table (1 :: path)).result.isSome ∧ table.current.find? x = none then
      [⟨x, .var, .ofName type.name, span.start, []⟩]
    else []
  | _ => []

/-- Whatever is wrong with a declaration, its name is bound once the initializer is checked. -/
theorem exists_gains_checkLet (table : SymbolTable) (node : NodeRef) (x : String) (type : TypeName)
    (e : Expr) (h : (e.check levels table (1 :: node.path)).result = some t) :
    ∃ table', (checkLet levels table node x type e).result = some table' ∧
      table.Gains (if table.current.find? x = none then
        [⟨x, .var, .ofName type.name, node.span.start, []⟩] else []) table' := by
  obtain ⟨table', hdeclared, hgains⟩ :=
    table.exists_gains_declared x (.ofName type.name) node.span.start (some node)
  refine ⟨table', ?_, hgains⟩
  unfold checkLet
  rw [bind_of_some h]
  unfold expectType
  split
  · exact hdeclared
  · exact hdeclared

theorem exists_gains (levels : Nat) (table : SymbolTable) (path : Path) (s : Stmt) :
    ∃ table', (s.check levels table path).result = some table' ∧
      table.Gains (s.bound levels table path) table' := by
  by_cases hs : s.kind = .letVar
  · cases s with
    | letVar x type e span =>
      cases he : (e.check levels table (1 :: path)).result with
      | none =>
        have hlet : (checkLet levels table ⟨path, .letVar, span⟩ x type e).result = none := by
          rw [checkLet, bind_of_none he]
        refine ⟨table, ?_, ?_⟩
        · simp [check, orExhausted, hlet]
        · simpa [bound, he] using table.gains_nil
      | some t =>
        obtain ⟨table', hlet, hgains⟩ :=
          exists_gains_checkLet table ⟨path, .letVar, span⟩ x type e he
        refine ⟨table', ?_, ?_⟩
        · simp [check, orExhausted, hlet]
        · simpa [bound, he] using hgains
    | _ => cases hs
  · obtain ⟨table', hresult⟩ : (s.check levels table path).Total := total_check table path s
    obtain rfl := gives_self table path hs table' hresult
    have hbound : s.bound levels table' path = [] := by
      cases s with
      | letVar => exact absurd rfl hs
      | _ => rfl
    rw [hbound]
    exact ⟨table', hresult, table'.gains_nil⟩

end Stmt

/-- The bodies leave no trace: what is there in the end are the functions that were declared. -/
theorem Analysis.table_ofProgram (p : Program) :
    (ofProgram levels p).table = Function.tableOf (firstsBy Function.name p.functions) := by
  have hdeclare : (Function.declareAll .empty 0 p.functions).result =
      some (Function.tableOf (firstsBy Function.name p.functions)) :=
    congrArg Check.result (Function.declareAll_firsts [] p.functions)
  have hcheck : (p.check levels).result =
      some (Function.tableOf (firstsBy Function.name p.functions)) := by
    rw [Program.check, Check.bind_of_some hdeclare]
    exact Function.result_checkAll ..
  have htable : (ofProgram levels p).table = (p.check levels).result.getD .empty := rfl
  rw [htable, hcheck]
  rfl

/-- Statements leave the scopes as they found them. Every statement gives a table, also if errors
are caught in it or an expression nests too deep; all scopes below the innermost one are the same in
it, and the innermost one has the symbol of a declaration more, if the statement is one that came to
its end with a new name, and is the same otherwise. So there is nothing but the global scope after a
program, and in it the first function of each name, in order, and no variable. -/
theorem Analysis.scopes_left_as_found (levels : Nat) :
    (∀ (table : SymbolTable) (path : Path) (s : Stmt), ∃ table' below,
      (s.check levels table path).result = some table' ∧
      table.scopes = table.current :: below ∧
      table'.scopes =
        { table.current with symbols := table.current.symbols ++ s.bound levels table path } ::
          below) ∧
    ∀ p : Program,
      (ofProgram levels p).table.scopes =
        [⟨.global, "global", (firstsBy Function.name p.functions).map Function.symbol, none⟩] ∧
      ∀ s ∈ (ofProgram levels p).table.scopes, ∀ y ∈ s.symbols, y.kind = .function := by
  constructor
  · intro table path s
    obtain ⟨table', hresult, hgains⟩ := s.exists_gains levels table path
    refine ⟨table', table.scopes.tail, hresult, table.scopes_eq_cons, ?_⟩
    rw [table'.scopes_eq_cons, hgains.below, hgains.current]
  · intro p
    rw [table_ofProgram]
    refine ⟨rfl, ?_⟩
    intro s hs y hy
    obtain rfl := List.mem_singleton.mp hs
    obtain ⟨f, -, rfl⟩ := List.mem_map.mp hy
    rfl

end BracketLang
