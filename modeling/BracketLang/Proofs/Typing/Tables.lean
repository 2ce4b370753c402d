import BracketLang.Proofs.Tree.Plain
import BracketLang.Proofs.Typing.Judgement
import Mathlib.Data.List.Nodup

/-! Symbol tables as environments. `SymbolTable.env` reads the scopes above the global one as
frames. `SymbolTable.Holds` says that a table is one that checking a program with functions `fs`
can meet: the global scope holds these functions and nothing else, and the other scopes hold
variables. Under it, looking a name up in the table is looking it up in the environment or among
the functions. -/

namespace BracketLang

/-- A type that values have. -/
def Ty.IsValue (t : Ty) : Prop := t = .int ∨ t = .bool

theorem TypeName.Plain.isValue {t : TypeName} (h : t.Plain) : (Ty.ofName t.name).IsValue := by
  rcases h with h | h <;> rw [h]
  · exact .inl rfl
  · exact .inr rfl

theorem Ty.IsValue.ne_error {t : Ty} (h : t.IsValue) : t ≠ .error := by
  rcases h with rfl | rfl <;> simp

/-- What a function declares. -/
def Function.symbol (f : Function) : Symbol :=
  ⟨f.name, .function, f.resultType, f.span.start, f.paramTypes⟩

/-- The variables of a scope as a frame. -/
def Scope.frame (s : Scope) : Frame := s.symbols.map fun y => (y.name, y.type)

theorem Scope.lookup_frame (s : Scope) (x : String) :
    s.frame.lookup x = (s.find? x).map Symbol.type := by
  unfold frame find?
  induction s.symbols with
  | nil => rfl
  | cons y ys ih =>
    by_cases h : y.name = x
    · simp [h]
    · have h' : (x == y.name) = false := by simpa using Ne.symm h
      simp [List.lookup_cons, h, h', ih]

theorem Scope.mem_map_fst_frame {s : Scope} {x : String} :
    x ∈ s.frame.map Prod.fst ↔ (s.find? x).isSome := by
  simp [frame, find?, Function.comp_def]

namespace SymbolTable

/-- The scopes above the global one as an environment. -/
def env (table : SymbolTable) : Env := table.inner.map Scope.frame

@[simp] theorem env_enter (table : SymbolTable) (kind : ScopeKind) (name : String)
    (returnType : Option Ty) : (table.enter kind name returnType).env = [] :: table.env := rfl

/-- The table of a place in a program with functions `fs`. -/
structure Holds (table : SymbolTable) (fs : List Function) : Prop where
  vars : ∀ s ∈ table.inner, ∀ y ∈ s.symbols, y.kind = .var ∧ y.type.IsValue
  functions : table.global.symbols = fs.map Function.symbol
  names : (fs.map Function.name).Nodup
  results : ∀ f ∈ fs, f.resultType.IsValue
  params : ∀ f ∈ fs, ∀ t ∈ f.paramTypes, t.IsValue

namespace Holds

variable {table : SymbolTable} {fs : List Function}

theorem enter (H : table.Holds fs) : (table.enter kind name returnType).Holds fs where
  vars s hs y hy := by
    rcases List.mem_cons.mp hs with rfl | hs
    · cases hy
    · exact H.vars s hs y hy
  functions := H.functions
  names := H.names
  results := H.results
  params := H.params

/-! ## Functions -/

theorem find?_global (H : table.Holds fs) (x : String) :
    table.global.find? x = (fs.find? (·.name = x)).map Function.symbol := by
  rw [Scope.find?, H.functions, List.find?_map]
  rfl

theorem mem_of_findFunction? (H : table.Holds fs) (h : table.findFunction? x = some y) :
    ∃ f ∈ fs, f.name = x ∧ y = f.symbol := by
  obtain ⟨h, -⟩ := Option.filter_eq_some_iff.mp h
  rw [H.find?_global] at h
  obtain ⟨f, hf, rfl⟩ := Option.map_eq_some_iff.mp h
  exact ⟨f, List.mem_of_find?_eq_some hf, by simpa using List.find?_some hf, rfl⟩

/-- Names are different, so the first function of a name is the only one. -/
theorem findFunction?_of_mem (H : table.Holds fs) (hf : f ∈ fs) :
    table.findFunction? f.name = some f.symbol := by
  have hfind : fs.find? (·.name = f.name) = some f := by
    cases h : fs.find? (·.name = f.name) with
    | none => simpa using List.find?_eq_none.mp h f hf
    | some g =>
      have hg : g.name = f.name := by simpa using List.find?_some h
      rw [List.inj_on_of_nodup_map H.names (List.mem_of_find?_eq_some h) hf hg]
  rw [findFunction?, H.find?_global, hfind]
  rfl

/-! ## Variables -/

theorem findSome?_inner (table : SymbolTable) (x : String) :
    (table.inner.findSome? (·.find? x)).map Symbol.type = table.env.type? x := by
  unfold env Env.type?
  induction table.inner with
  | nil => rfl
  | cons s ss ih =>
    simp only [List.map_cons, List.findSome?_cons, Scope.lookup_frame]
    cases s.find? x with
    | none => exact ih
    | some y => rfl

theorem kind_of_inner (H : table.Holds fs) (h : table.inner.findSome? (·.find? x) = some y) :
    y.kind = .var ∧ y.type.IsValue := by
  obtain ⟨s, hs, hy⟩ := List.exists_of_findSome?_eq_some h
  exact H.vars s hs y (List.mem_of_find?_eq_some hy)

/-- A name stands for a variable in the table as it does in the environment; functions, being in
the global scope, hide no variable and are none. -/
theorem findVar?_eq (H : table.Holds fs) (x : String) :
    table.findVar? x = table.inner.findSome? (·.find? x) := by
  unfold findVar? find? scopes
  rw [List.findSome?_append]
  cases h : table.inner.findSome? (·.find? x) with
  | some y => simp [(H.kind_of_inner h).1]
  | none =>
    simp only [List.findSome?_cons, List.findSome?_nil, H.find?_global]
    cases fs.find? (·.name = x) <;> simp [Function.symbol]

theorem type?_eq_some_iff (H : table.Holds fs) :
    table.env.type? x = some t ↔ ∃ y, table.findVar? x = some y ∧ y.type = t := by
  rw [← findSome?_inner, H.findVar?_eq, Option.map_eq_some_iff]

theorem isValue_of_type? (H : table.Holds fs) (h : table.env.type? x = some t) : t.IsValue := by
  obtain ⟨y, hy, rfl⟩ := H.type?_eq_some_iff.mp h
  rw [H.findVar?_eq] at hy
  exact (H.kind_of_inner hy).2

end Holds

end SymbolTable

end BracketLang
