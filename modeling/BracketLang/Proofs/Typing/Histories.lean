import BracketLang.Proofs.Typing.Independence

/-! The histories of symbol tables. A history is a list of operations on the table without names:
scopes are opened and closed, more often than they were opened too, and variables and functions are
declared, some of them a second time. A refused declaration leaves the table as it is.

What the table has to hold is read off the history by `SymbolTable.record`, which refuses nothing:
there every open scope lists all that was declared in it since it was opened. The table holds the
first of each name of these lists (`SymbolTable.run_firsts`). What stands between the opening of a
scope and the closing of the same scope is `TableOp.Balanced`, and such a part of a history changes
no scope but the global one, to which it adds functions (`SymbolTable.run_balanced`). -/

namespace BracketLang

/-- Something that is done to a symbol table. -/
inductive TableOp where
  | enter (kind : ScopeKind) (name : String) (returnType : Option Ty)
  | leave
  | defineVar (name : String) (type : Ty) (location : Location) (node : Option NodeRef)
  | defineFunction (name : String) (returnType : Ty) (params : List Ty) (location : Location)
    (node : Option NodeRef)

namespace TableOp

/-- The function that is declared, if one is. -/
def function? : TableOp → Option Symbol
  | defineFunction name returnType params location _ =>
    some ⟨name, .function, returnType, location, params⟩
  | _ => none

/-- The functions that are declared, in order. -/
def functions (ops : List TableOp) : List Symbol := ops.filterMap function?

/-- Every scope that is opened is closed again, and no other is closed. -/
inductive Balanced : List TableOp → Prop
  | nil : Balanced []
  | defineVar (h : Balanced ops) : Balanced (.defineVar name type location node :: ops)
  | defineFunction (h : Balanced ops) :
    Balanced (.defineFunction name returnType params location node :: ops)
  | block (hbody : Balanced body) (h : Balanced ops) :
    Balanced (.enter kind name returnType :: (body ++ .leave :: ops))

end TableOp

/-! ## Scopes -/

theorem nodup_map_firstsBy {α : Type} (name : α → String) (l : List α) :
    ((firstsBy name l).map name).Nodup := by
  induction l using List.reverseRecOn with
  | nil => exact .nil
  | append_singleton l a ih =>
    rw [firstsBy_concat]
    by_cases h : name a ∈ l.map name
    · rwa [if_pos h, List.append_nil]
    · rw [if_neg h, List.map_append, List.map_singleton, ← List.concat_eq_append,
        List.nodup_concat]
      refine ⟨?_, ih⟩
      rwa [← find?_name_eq_none_iff, find?_firstsBy, find?_name_eq_none_iff]

namespace Scope

/-- One symbol more, whether or not the name is taken. -/
def add (s : Scope) (y : Symbol) : Scope := { s with symbols := s.symbols ++ [y] }

/-- One symbol more, unless the name is taken. -/
def declare (s : Scope) (y : Symbol) : Scope := if (s.find? y.name).isSome then s else s.add y

/-- Some symbols more, those left out whose names are taken by then. -/
def declareAll (s : Scope) (ys : List Symbol) : Scope := ys.foldl declare s

/-- Of each name the first symbol alone. -/
def firsts (s : Scope) : Scope := { s with symbols := firstsBy Symbol.name s.symbols }

theorem find?_firsts (s : Scope) (x : String) : s.firsts.find? x = s.find? x :=
  find?_firstsBy s.symbols x

theorem declare_firsts (s : Scope) (y : Symbol) : s.firsts.declare y = (s.add y).firsts := by
  have htaken : (s.find? y.name).isSome ↔ y.name ∈ s.symbols.map Symbol.name := by
    rw [Option.isSome_iff_ne_none, find?, Ne, find?_name_eq_none_iff, not_not]
  rw [declare, find?_firsts]
  by_cases h : y.name ∈ s.symbols.map Symbol.name
  · rw [if_pos (htaken.mpr h)]
    simp only [firsts, add, firstsBy_concat, if_pos h, List.append_nil]
  · rw [if_neg (mt htaken.mp h)]
    simp only [firsts, add, firstsBy_concat, if_neg h]

/-- A declaration that is refused leaves the scope as it is, wherever the scope is kept. -/
theorem getD_map_define {α : Type} (s : Scope) (y : Symbol) (node : Option NodeRef)
    (put : Scope → α) : ((s.define y node).map put).toOption.getD (put s) = put (s.declare y) := by
  unfold define declare
  cases s.find? y.name with
  | none => rfl
  | some first => rfl

/-- Symbols are added at the end. -/
theorem exists_declare_eq (s : Scope) (y : Symbol) :
    ∃ ys, (∀ z ∈ ys, z = y) ∧ s.declare y = { s with symbols := s.symbols ++ ys } := by
  unfold declare
  split
  · refine ⟨[], List.forall_mem_nil _, ?_⟩
    rw [List.append_nil]
  · exact ⟨[y], by simp, rfl⟩

end Scope

/-! ## One operation -/

namespace SymbolTable

/-- What an operation makes of a table, or why it is refused. -/
def attempt (t : SymbolTable) : TableOp → Except SemanticError SymbolTable
  | .enter kind name returnType => .ok (t.enter kind name returnType)
  | .leave => .ok t.leave
  | .defineVar name type location node => t.defineVar name type location node
  | .defineFunction name returnType params location node =>
    t.defineFunction name returnType params location node

/-- The table after an operation; one that is refused leaves it as it is. -/
def apply (t : SymbolTable) (op : TableOp) : SymbolTable := (t.attempt op).toOption.getD t

/-- The table after some operations. -/
def run (t : SymbolTable) (ops : List TableOp) : SymbolTable := ops.foldl apply t

/-- The table after an operation if nothing is ever refused. -/
def record : SymbolTable → TableOp → SymbolTable
  | t, .enter kind name returnType => t.enter kind name returnType
  | t, .leave => t.leave
  | ⟨global, []⟩, .defineVar name type location _ =>
    ⟨global.add ⟨name, .var, type, location, []⟩, []⟩
  | ⟨global, s :: ss⟩, .defineVar name type location _ =>
    ⟨global, s.add ⟨name, .var, type, location, []⟩ :: ss⟩
  | ⟨global, ss⟩, .defineFunction name returnType params location _ =>
    ⟨global.add ⟨name, .function, returnType, location, params⟩, ss⟩

/-- Of each name in a scope the first symbol alone. -/
def firsts (t : SymbolTable) : SymbolTable := ⟨t.global.firsts, t.inner.map Scope.firsts⟩

section
variable (global s : Scope) (ss : List Scope) (name : String) (type : Ty) (params : List Ty)
  (location : Location) (node : Option NodeRef)

theorem apply_defineVar_nil : apply ⟨global, []⟩ (.defineVar name type location node) =
    ⟨global.declare ⟨name, .var, type, location, []⟩, []⟩ :=
  global.getD_map_define _ node fun g => SymbolTable.mk g []

theorem apply_defineVar_cons : apply ⟨global, s :: ss⟩ (.defineVar name type location node) =
    ⟨global, s.declare ⟨name, .var, type, location, []⟩ :: ss⟩ :=
  s.getD_map_define _ node fun s' => SymbolTable.mk global (s' :: ss)

theorem apply_defineFunction :
    apply ⟨global, ss⟩ (.defineFunction name type params location node) =
      ⟨global.declare ⟨name, .function, type, location, params⟩, ss⟩ :=
  global.getD_map_define _ node fun g => SymbolTable.mk g ss

end

theorem apply_firsts (t : SymbolTable) (op : TableOp) :
    t.firsts.apply op = (t.record op).firsts := by
  obtain ⟨global, inner⟩ := t
  cases op with
  | enter kind name returnType => rfl
  | leave =>
    have htail : (inner.map Scope.firsts).tail = inner.tail.map Scope.firsts :=
      List.map_tail.symm
    exact congrArg (SymbolTable.mk global.firsts) htail
  | defineVar name type location node =>
    cases inner with
    | nil =>
      simp only [firsts, List.map_nil, record]
      rw [apply_defineVar_nil, Scope.declare_firsts]
    | cons s ss =>
      simp only [firsts, List.map_cons, record]
      rw [apply_defineVar_cons, Scope.declare_firsts]
  | defineFunction name returnType params location node =>
    simp only [firsts, record]
    rw [apply_defineFunction, Scope.declare_firsts]

/-! ## Whole histories -/

/-- After any history the scopes hold the first of each name among what was declared in them. -/
theorem run_firsts (t : SymbolTable) (ops : List TableOp) :
    t.firsts.run ops = (ops.foldl record t).firsts := by
  induction ops generalizing t with
  | nil => rfl
  | cons op ops ih =>
    rw [run, List.foldl_cons, apply_firsts]
    exact ih (t.record op)

theorem run_append (t : SymbolTable) (ops ops' : List TableOp) :
    t.run (ops ++ ops') = (t.run ops).run ops' := List.foldl_append

theorem run_cons (t : SymbolTable) (op : TableOp) (ops : List TableOp) :
    t.run (op :: ops) = (t.apply op).run ops := rfl

/-- What the empty table has and every operation keeps, every history keeps. -/
theorem run_induction {P : SymbolTable → Prop} (empty : P .empty)
    (apply : ∀ t op, P t → P (t.apply op)) (ops : List TableOp) : P (SymbolTable.empty.run ops) :=
  List.foldlRecOn ops SymbolTable.apply empty fun t h op _ => apply t op h

/-- The global scope gains symbols, and nothing else happens to it. -/
theorem exists_global_apply (t : SymbolTable) (op : TableOp) :
    ∃ ys, (t.apply op).global = { t.global with symbols := t.global.symbols ++ ys } := by
  have hself : ∃ ys, t.global = { t.global with symbols := t.global.symbols ++ ys } :=
    ⟨[], by rw [List.append_nil]⟩
  have hdeclare (y : Symbol) :
      ∃ ys, t.global.declare y = { t.global with symbols := t.global.symbols ++ ys } := by
    obtain ⟨ys, -, h⟩ := t.global.exists_declare_eq y
    exact ⟨ys, h⟩
  obtain ⟨global, inner⟩ := t
  cases op with
  | enter kind name returnType => exact hself
  | leave => exact hself
  | defineVar name type location node =>
    cases inner with
    | nil =>
      rw [apply_defineVar_nil]
      exact hdeclare _
    | cons s ss =>
      rw [apply_defineVar_cons]
      exact hself
  | defineFunction name returnType params location node =>
    rw [apply_defineFunction]
    exact hdeclare _

theorem exists_global_run (t : SymbolTable) (ops : List TableOp) :
    ∃ ys, (t.run ops).global = { t.global with symbols := t.global.symbols ++ ys } := by
  induction ops generalizing t with
  | nil => exact ⟨[], by rw [List.append_nil]; rfl⟩
  | cons op ops ih =>
    obtain ⟨ys, hys⟩ := t.exists_global_apply op
    obtain ⟨zs, hzs⟩ := ih (t.apply op)
    refine ⟨ys ++ zs, ?_⟩
    rw [run_cons, hzs, hys, List.append_assoc]

theorem getLast?_scopes (t : SymbolTable) : t.scopes.getLast? = some t.global :=
  List.getLast?_concat

theorem leave_of_depth_eq_zero {t : SymbolTable} (h : t.depth = 0) : t.leave = t := by
  obtain ⟨global, inner⟩ := t
  obtain rfl : inner = [] := List.length_eq_zero_iff.mp h
  rfl

theorem scopes_firsts (t : SymbolTable) : t.firsts.scopes = t.scopes.map Scope.firsts := by
  simp [scopes, firsts]

/-- Functions are declared in the global scope only. -/
theorem kind_of_mem_inner (ops : List TableOp) :
    ∀ s ∈ (SymbolTable.empty.run ops).inner, ∀ y ∈ s.symbols, y.kind = .var := by
  refine run_induction (P := fun t => ∀ s ∈ t.inner, ∀ y ∈ s.symbols, y.kind = .var)
    (List.forall_mem_nil _) ?_ ops
  rintro ⟨global, inner⟩ op h
  cases op with
  | enter kind name returnType => exact List.forall_mem_cons.mpr ⟨List.forall_mem_nil _, h⟩
  | leave => exact fun s hs => h s (List.mem_of_mem_tail hs)
  | defineVar name type location node =>
    cases inner with
    | nil =>
      rw [apply_defineVar_nil]
      exact h
    | cons s ss =>
      rw [apply_defineVar_cons]
      obtain ⟨hs, hss⟩ := List.forall_mem_cons.mp h
      obtain ⟨ys, hys, hdeclare⟩ := s.exists_declare_eq ⟨name, .var, type, location, []⟩
      refine List.forall_mem_cons.mpr ⟨fun y hy => ?_, hss⟩
      rw [hdeclare] at hy
      rcases List.mem_append.mp hy with hy | hy
      · exact hs y hy
      · rw [hys y hy]
  | defineFunction name returnType params location node =>
    rw [apply_defineFunction]
    exact h

/-- The scopes after a history, by what the history declares in them. -/
theorem scopes_run (ops : List TableOp) : (SymbolTable.empty.run ops).scopes =
    (ops.foldl record .empty).scopes.map Scope.firsts := by
  rw [← scopes_firsts, ← run_firsts]
  rfl

/-- The names of a scope differ, and functions are in the global scope only. -/
structure WellScoped (t : SymbolTable) : Prop where
  names : ∀ s ∈ t.scopes, (s.symbols.map Symbol.name).Nodup
  vars : ∀ s ∈ t.inner, ∀ y ∈ s.symbols, y.kind = .var

theorem wellScoped_run (ops : List TableOp) : (SymbolTable.empty.run ops).WellScoped where
  names := by
    rw [scopes_run, List.forall_mem_map]
    intro r _
    exact nodup_map_firstsBy Symbol.name r.symbols
  vars := kind_of_mem_inner ops

/-! ## From the opening of a scope to its closing -/

/-- Inside of a scope, a balanced part of a history does something to that scope and declares its
functions, and the scopes between stay as they are. -/
theorem run_balanced (h : TableOp.Balanced ops) (global s : Scope) (ss : List Scope) :
    ∃ s', run ⟨global, s :: ss⟩ ops = ⟨global.declareAll (TableOp.functions ops), s' :: ss⟩ := by
  induction h generalizing global s ss with
  | nil => exact ⟨s, rfl⟩
  | defineVar _ ih =>
    rw [run_cons, apply_defineVar_cons]
    exact ih ..
  | defineFunction _ ih =>
    rw [run_cons, apply_defineFunction]
    exact ih ..
  | @block body ops kind name returnType _ _ ihbody ih =>
    let opened : Scope := ⟨kind, name, [], returnType⟩
    obtain ⟨s₁, hbody⟩ := ihbody global opened (s :: ss)
    obtain ⟨s', hrest⟩ := ih (global.declareAll (TableOp.functions body)) s ss
    have hfunctions : TableOp.functions (.enter kind name returnType :: (body ++ .leave :: ops)) =
        TableOp.functions body ++ TableOp.functions ops := List.filterMap_append
    refine ⟨s', ?_⟩
    calc run ⟨global, s :: ss⟩ (.enter kind name returnType :: (body ++ .leave :: ops))
      _ = (run ⟨global, opened :: s :: ss⟩ body).run (.leave :: ops) := run_append ..
      _ = run ⟨global.declareAll (TableOp.functions body), s :: ss⟩ ops := by rw [hbody]; rfl
      _ = _ := by rw [hrest, hfunctions, Scope.declareAll, Scope.declareAll, Scope.declareAll,
        List.foldl_append]

theorem run_block (h : TableOp.Balanced body) (t : SymbolTable) (kind : ScopeKind) (name : String)
    (returnType : Option Ty) : t.run (.enter kind name returnType :: (body ++ [.leave])) =
      { t with global := t.global.declareAll (TableOp.functions body) } := by
  let opened : Scope := ⟨kind, name, [], returnType⟩
  obtain ⟨s', hbody⟩ := run_balanced h t.global opened t.inner
  calc t.run (.enter kind name returnType :: (body ++ [.leave]))
    _ = (run ⟨t.global, opened :: t.inner⟩ body).run [.leave] := run_append ..
    _ = _ := by rw [hbody]; rfl

theorem code_of_attempt {t : SymbolTable} (h : t.attempt op = .error e) : e.code = "S011" := by
  have hscope {α : Type} {s : Scope} {y : Symbol} {node : Option NodeRef} {put : Scope → α}
      (h : (s.define y node).map put = .error e) : e.code = "S011" := by
    unfold Scope.define at h
    split at h
    · cases h
      rfl
    · cases h
  obtain ⟨global, inner⟩ := t
  cases op with
  | enter kind name returnType => cases h
  | leave => cases h
  | defineVar name type location node =>
    cases inner with
    | nil => exact hscope h
    | cons s ss => exact hscope h
  | defineFunction name returnType params location node => exact hscope h

/-- What holds of the table that a history leads to. -/
structure Lexical (ops : List TableOp) (t : SymbolTable) : Prop where
  /-- The bottom scope is the global one and stays there, whatever is done next. -/
  bottom : ∃ symbols, t.scopes.getLast? = some ⟨.global, "global", symbols, none⟩ ∧
    ∀ more, ∃ ys, (t.run more).scopes.getLast? = some ⟨.global, "global", symbols ++ ys, none⟩
  /-- With no other scope open, closing one does nothing. -/
  leave_bottom : t.depth = 0 → t.leave = t
  /-- A scope maps each of its names to the symbol of that name. -/
  maps : ∀ s ∈ t.scopes, ∀ x y, s.find? x = some y ↔ y ∈ s.symbols ∧ y.name = x
  /-- It is the first of that name which was declared there since the scope was opened. -/
  firsts : t.scopes = (ops.foldl record .empty).scopes.map Scope.firsts
  finds : List.Forall₂ (fun s r => ∀ x, s.find? x = r.find? x) t.scopes
    (ops.foldl record .empty).scopes
  /-- A declaration that is refused changes nothing. -/
  refused : ∀ op e, t.attempt op = .error e → e.code = "S011" ∧ t.apply op = t
  /-- There are functions in the global scope only. -/
  functions : ∀ s ∈ t.inner, ∀ y ∈ s.symbols, y.kind = .var
  /-- From the opening of a scope to its closing, nothing changes but for the functions. -/
  block : ∀ body, TableOp.Balanced body → ∀ kind name returnType,
    t.run (.enter kind name returnType :: (body ++ [.leave])) =
      { t with global := t.global.declareAll (TableOp.functions body) }
  /-- So if there are none, every name stands for the same. -/
  lookups : ∀ body, TableOp.Balanced body → TableOp.functions body = [] →
    ∀ kind name returnType t', t.run (.enter kind name returnType :: (body ++ [.leave])) = t' →
      ∀ x, t'.find? x = t.find? x ∧ t'.findVar? x = t.findVar? x ∧
        t'.findFunction? x = t.findFunction? x

/-- The stack of scopes is the lexical environment of its history. -/
theorem lexical_run (ops : List TableOp) : Lexical ops (SymbolTable.empty.run ops) where
  bottom := by
    obtain ⟨symbols, hglobal⟩ := exists_global_run .empty ops
    refine ⟨symbols, (getLast?_scopes _).trans (congrArg some hglobal), fun more => ?_⟩
    obtain ⟨ys, hmore⟩ := exists_global_run (SymbolTable.empty.run ops) more
    refine ⟨ys, (getLast?_scopes _).trans (congrArg some ?_)⟩
    rw [hmore, hglobal]
    rfl
  leave_bottom := leave_of_depth_eq_zero
  maps s hs x y := find?_eq_some_iff_of_nodup ((wellScoped_run ops).names s hs)
  firsts := scopes_run ops
  finds := by
    rw [scopes_run, List.forall₂_map_left_iff]
    exact List.forall₂_same.mpr fun s _ => s.find?_firsts
  refused op e h := by
    refine ⟨code_of_attempt h, ?_⟩
    rw [apply, h]
    rfl
  functions := (wellScoped_run ops).vars
  block body h kind name returnType := run_block h _ kind name returnType
  lookups body h hbody kind name returnType t' ht' x := by
    obtain rfl : SymbolTable.empty.run ops = t' := by
      rw [← ht', run_block h, hbody]
      rfl
    exact ⟨rfl, rfl, rfl⟩

end SymbolTable

end BracketLang
