import BracketLang.Typing.Analysis

/-! What checking does to the scopes. `SymbolTable.Grows` says that of two tables the second has
the same scopes as the first, with some more symbols in the innermost one at most. Every statement
gives a table, whatever is wrong with it, and the table has grown in this sense; so does every list
of statements. A block is checked in a scope that is closed again, so nothing of it is left, and
the bodies of functions leave the table as it was. -/

namespace BracketLang

variable {levels : Nat}

namespace SymbolTable

/-- The innermost scope of `t'` is that of `t`, with symbols added; the others are the same. -/
structure Grows (t t' : SymbolTable) : Prop where
  length : t'.inner.length = t.inner.length
  outer : t'.inner.tail = t.inner.tail
  current : ∃ ys, t'.current = { t.current with symbols := t.current.symbols ++ ys }
  global : t.inner ≠ [] → t'.global = t.global

namespace Grows

variable {t t' t'' : SymbolTable}

theorem refl (t : SymbolTable) : t.Grows t := ⟨rfl, rfl, ⟨[], by simp⟩, fun _ => rfl⟩

theorem trans (h : t.Grows t') (h' : t'.Grows t'') : t.Grows t'' where
  length := h'.length.trans h.length
  outer := h'.outer.trans h.outer
  current := by
    obtain ⟨ys, hy⟩ := h.current
    obtain ⟨zs, hz⟩ := h'.current
    exact ⟨ys ++ zs, by rw [hz, hy]; simp⟩
  global hne := by
    have hne' : t'.inner ≠ [] := by
      rw [Ne, ← List.length_eq_zero_iff, h.length, List.length_eq_zero_iff]
      exact hne
    exact (h'.global hne').trans (h.global hne)

/-- A scope that was opened, grew and is closed again leaves nothing behind. -/
theorem leave_of_enter (h : (t.enter kind name returnType).Grows t') : t'.leave = t := by
  have hg : t'.global = t.global := h.global (List.cons_ne_nil _ _)
  rw [leave, h.outer, hg]
  rfl

end Grows

/-- A declaration adds its symbol to the innermost scope. -/
theorem grows_of_defineVar {t t' : SymbolTable}
    (h : t.defineVar name type location node = .ok t') : t.Grows t' := by
  obtain ⟨global, _ | ⟨s, ss⟩⟩ := t
  · simp only [defineVar, define, Except.map] at h
    split at h <;> cases h
    next s' hs =>
    obtain ⟨-, rfl⟩ := Scope.define_eq_ok_iff.mp hs
    exact ⟨rfl, rfl, ⟨_, rfl⟩, fun h => (h rfl).elim⟩
  · simp only [defineVar, define, Except.map] at h
    split at h <;> cases h
    next s' hs =>
    obtain ⟨-, rfl⟩ := Scope.define_eq_ok_iff.mp hs
    exact ⟨rfl, rfl, ⟨_, rfl⟩, fun _ => rfl⟩

end SymbolTable

/-! ## What checks give -/

namespace Check

variable {α β : Type} {x : Check α} {f : α → Check β} {P : α → Prop} {Q : β → Prop}

/-- The check gives something. -/
def Total (x : Check α) : Prop := ∃ a, x.result = some a

theorem total_pure (a : α) : (pure a : Check α).Total := ⟨a, rfl⟩

theorem Total.bind (hx : x.Total) (hf : ∀ a, (f a).Total) : (x >>= f).Total := by
  obtain ⟨a, ha⟩ := hx
  obtain ⟨b, hb⟩ := hf a
  exact ⟨b, by simpa only [Bind.bind, ha] using hb⟩

theorem total_orReport (b : α) (y : Except SemanticError α) : (orReport b y).Total := by
  cases y with
  | ok a => exact total_pure a
  | error e => exact ⟨b, rfl⟩

/-- Whatever the check gives satisfies `P`. -/
def Gives (x : Check α) (P : α → Prop) : Prop := ∀ a, x.result = some a → P a

theorem gives_pure (h : P a) : (pure a : Check α).Gives P := by
  rintro _ ⟨⟩
  exact h

theorem Gives.bind (hx : x.Gives P) (hf : ∀ a, P a → (f a).Gives Q) : (x >>= f).Gives Q := by
  intro b hb
  cases h : x.result with
  | none => simp [Bind.bind, h] at hb
  | some a =>
    simp only [Bind.bind, h] at hb
    exact hf a (hx a h) b hb

/-- A result that is thrown away says nothing. -/
theorem gives_bind_of_forall (hf : ∀ a, (f a).Gives Q) : (x >>= f).Gives Q :=
  Gives.bind (P := fun _ => True) (fun _ _ => trivial) fun a _ => hf a

theorem Gives.orExhausted (hx : x.Gives P) (hb : P b) :
    ∃ a, (x.orExhausted b e).result = some a ∧ P a := by
  unfold Check.orExhausted
  cases h : x.result with
  | none => exact ⟨b, rfl, hb⟩
  | some a => exact ⟨a, h, hx a h⟩

theorem gives_orReport (hok : ∀ a, y = .ok a → P a) (hb : P b) : (orReport b y).Gives P := by
  cases y with
  | ok a => exact gives_pure (hok a rfl)
  | error e => exact gives_bind_of_forall fun _ => gives_pure hb

end Check

/-! ## Statements -/

namespace Stmt

open SymbolTable Check

theorem gives_checkLet : (checkLet levels table n name type e).Gives table.Grows :=
  gives_bind_of_forall fun _ => gives_bind_of_forall fun _ => gives_bind_of_forall fun _ =>
    gives_orReport (fun _ h => grows_of_defineVar h) (.refl table)

mutual

/-- A statement gives a table, and adds to the innermost scope at most. -/
theorem exists_grows (table : SymbolTable) (path : Path) (s : Stmt) :
    ∃ table', (s.check levels table path).result = some table' ∧ table.Grows table' := by
  match s with
  | letVar .. => exact gives_checkLet.orExhausted (.refl table)
  | assign .. | ret .. | print .. | expr .. =>
    exact (gives_bind_of_forall fun _ => gives_pure (.refl table)).orExhausted (.refl table)
  | ifThen c ss .. | whileLoop c ss .. =>
    refine Gives.orExhausted (gives_bind_of_forall fun _ => ?_) (.refl table)
    refine (gives_checkAll (table.enter ..) (1 :: path) 0 ss).bind fun t ht => gives_pure ?_
    rw [ht.leave_of_enter]
    exact .refl table
  | ifElse c ss _ ss' _ _ =>
    refine Gives.orExhausted (gives_bind_of_forall fun _ => ?_) (.refl table)
    refine (gives_checkAll (table.enter ..) (1 :: path) 0 ss).bind fun t ht => ?_
    rw [ht.leave_of_enter]
    refine (gives_checkAll (table.enter ..) (2 :: path) 0 ss').bind fun t ht => gives_pure ?_
    rw [ht.leave_of_enter]
    exact .refl table
  | block .. => exact ⟨table, rfl, .refl table⟩

theorem gives_checkAll (table : SymbolTable) (path : Path) (i : Nat) (ss : List Stmt) :
    (checkAll levels table path i ss).Gives table.Grows := by
  match ss with
  | [] => exact gives_pure (.refl table)
  | s :: ss =>
    obtain ⟨table', hr, hg⟩ := exists_grows table (i :: path) s
    intro t ht
    simp only [checkAll, Bind.bind, hr] at ht
    exact hg.trans (gives_checkAll table' path (i + 1) ss t ht)

end

theorem total_check (table : SymbolTable) (path : Path) (s : Stmt) :
    (s.check levels table path).Total := by
  obtain ⟨table', hr, -⟩ := exists_grows table path s
  exact ⟨table', hr⟩

theorem total_checkAll (table : SymbolTable) (path : Path) (i : Nat) (ss : List Stmt) :
    (checkAll levels table path i ss).Total := by
  induction ss generalizing table i with
  | nil => exact total_pure table
  | cons s ss ih => exact (total_check table (i :: path) s).bind fun t => ih t (i + 1)

end Stmt

namespace Stmt

/-- The comparison that a `return` ends with, given the scope of the function around it. -/
def compareResult (scope : Option Scope) (node : NodeRef) (l : Location) (actual : Ty) :
    Check Unit :=
  (scope.bind fun s => s.returnType.map (s.name, ·)).elim (pure ()) fun r =>
    if !r.2.compatible actual then
      .report (.mismatch r.2 actual s!"return from '{r.1}'" l node)
    else pure ()

/-- A `return` checks its value, and then compares. -/
theorem checkReturn_eq_bind (table : SymbolTable) (node : NodeRef) (value : Option Expr) :
    checkReturn levels table node value =
      value.elim (pure .unit) (·.check levels table (0 :: node.path)) >>=
        compareResult table.functionScope? node (value.elim node.span.start (·.span.start)) := by
  rcases hscope : table.functionScope? with _ | ⟨kind, name, symbols, _ | expected⟩
  · cases value <;> simp only [checkReturn, hscope] <;> rfl
  · cases value <;> simp only [checkReturn, hscope] <;> rfl
  · cases value <;> simp only [checkReturn, hscope] <;> rfl

end Stmt

/-! ## Functions -/

namespace Function

open SymbolTable Check

theorem total_declareParams (table : SymbolTable) (ps : List Param) :
    (declareParams table ps).Total := by
  induction ps generalizing table with
  | nil => exact total_pure table
  | cons p ps ih => exact (total_orReport ..).bind ih

theorem gives_declareParams (table : SymbolTable) (ps : List Param) :
    (declareParams table ps).Gives table.Grows := by
  induction ps generalizing table with
  | nil => exact gives_pure (.refl table)
  | cons p ps ih =>
    refine (gives_orReport (fun _ h => grows_of_defineVar h) (.refl table)).bind fun t ht => ?_
    exact fun t' ht' => ht.trans (ih t t' ht')

/-- A function is checked in a scope of its own, so the table is the same afterwards. -/
theorem result_check (table : SymbolTable) (path : Path) (f : Function) :
    (f.check levels table path).result = some table := by
  have htotal : (f.check levels table path).Total := (total_declareParams ..).bind fun _ =>
    (Stmt.total_checkAll ..).bind fun _ => total_pure _
  have hgives : (f.check levels table path).Gives (· = table) := by
    refine (gives_declareParams _ f.params).bind fun t ht => ?_
    refine (Stmt.gives_checkAll t _ _ f.body.body).bind fun t' ht' => gives_pure ?_
    exact (ht.trans ht').leave_of_enter
  obtain ⟨t, ht⟩ := htotal
  rw [ht, hgives t ht]

theorem result_checkAll (table : SymbolTable) (i : Nat) (fs : List Function) :
    (checkAll levels table i fs).result = some table := by
  induction fs generalizing i with
  | nil => rfl
  | cons f fs ih => simp only [checkAll, Bind.bind, result_check, ih]

theorem total_declareAll (table : SymbolTable) (i : Nat) (fs : List Function) :
    (declareAll table i fs).Total := by
  induction fs generalizing table i with
  | nil => exact total_pure table
  | cons f fs ih => exact (total_orReport ..).bind fun t => ih t (i + 1)

end Function

theorem Program.total_check (p : Program) : (p.check levels).Total :=
  (Function.total_declareAll ..).bind fun t => ⟨t, Function.result_checkAll t 0 p.functions⟩

end BracketLang
