import BracketLang.Text.Distance
import BracketLang.Typing.Basic
import BracketLang.Typing.Error

/-! Names and what they stand for. A scope maps names to symbols and keeps the order of
declaration; a symbol table is the stack of the scopes around a statement, with the global scope,
which holds the functions, at the bottom. -/

namespace BracketLang

/-- What a name can stand for. -/
inductive SymbolKind where
  | var | function
deriving DecidableEq, Repr

/-- How messages speak of a kind of symbol. -/
def SymbolKind.noun : SymbolKind → String
  | var => "variable"
  | function => "function"

/-- A declared name. The type of a function is that of its result. -/
structure Symbol where
  name : String
  kind : SymbolKind
  type : Ty
  location : Location
  params : List Ty
deriving DecidableEq, Repr

namespace Symbol

def text (s : Symbol) : String :=
  match s.kind with
  | .function =>
    let params := ", ".intercalate (s.params.map Ty.text)
    s!"{s.name}({params}) -> {s.type.text}"
  | .var => s!"{s.name}: {s.type.text}"

/-- How many arguments a function takes. -/
def arity (s : Symbol) : Nat := s.params.length

end Symbol

/-- What a scope belongs to. -/
inductive ScopeKind where
  | global | function | block | loop
deriving DecidableEq, Repr

def ScopeKind.text : ScopeKind → String
  | global => "global"
  | function => "function"
  | block => "block"
  | loop => "loop"

/-- The names declared at one level, in order of declaration. The scope of a function knows what
the function returns. -/
structure Scope where
  kind : ScopeKind
  name : String
  symbols : List Symbol
  returnType : Option Ty
deriving DecidableEq, Repr

namespace Scope

def text (s : Scope) : String := s!"Scope({s.kind.text}, {s.name}, {s.symbols.length} symbols)"

/-- The symbol of this name. -/
def find? (s : Scope) (name : String) : Option Symbol := s.symbols.find? (·.name = name)

/-- Declares a symbol; a name can be declared once. `node` is what declares it. -/
def define (s : Scope) (symbol : Symbol) (node : Option NodeRef) : Except SemanticError Scope :=
  match s.find? symbol.name with
  | some earlier =>
    .error ⟨.redeclaration symbol.name symbol.kind.noun (some earlier.location), symbol.location,
      node⟩
  | none => .ok { s with symbols := s.symbols ++ [symbol] }

theorem define_eq_ok_iff {s s' : Scope} {symbol : Symbol} {node : Option NodeRef} :
    s.define symbol node = .ok s' ↔
      s.find? symbol.name = none ∧ s' = { s with symbols := s.symbols ++ [symbol] } := by
  unfold define
  cases s.find? symbol.name <;> simp [eq_comm]

end Scope

/-- The scopes around a place of a program: the global one and, innermost first, the others. -/
structure SymbolTable where
  global : Scope
  inner : List Scope
deriving DecidableEq, Repr

namespace SymbolTable

/-- No names declared, and no scope but the global one. -/
def empty : SymbolTable := ⟨⟨.global, "global", [], none⟩, []⟩

/-- All scopes, innermost first. -/
def scopes (t : SymbolTable) : List Scope := t.inner ++ [t.global]

/-- The innermost scope. -/
def current (t : SymbolTable) : Scope :=
  match t.inner with
  | s :: _ => s
  | [] => t.global

/-- How many scopes there are above the global one. -/
def depth (t : SymbolTable) : Nat := t.inner.length

def text (t : SymbolTable) : String :=
  s!"SymbolTable(current: {t.current.text}, depth: {t.depth})"

/-- Opens a scope. -/
def enter (t : SymbolTable) (kind : ScopeKind) (name : String) (returnType : Option Ty) :
    SymbolTable :=
  { t with inner := ⟨kind, name, [], returnType⟩ :: t.inner }

/-- Closes the innermost scope; the global one stays open. -/
def leave (t : SymbolTable) : SymbolTable := { t with inner := t.inner.tail }

@[simp] theorem current_enter (t : SymbolTable) (kind : ScopeKind) (name : String)
    (returnType : Option Ty) :
    (t.enter kind name returnType).current = ⟨kind, name, [], returnType⟩ := rfl

/-- Declares a symbol in the innermost scope. -/
def define (t : SymbolTable) (symbol : Symbol) (node : Option NodeRef) :
    Except SemanticError SymbolTable :=
  match t.inner with
  | s :: ss => (s.define symbol node).map fun s => { t with inner := s :: ss }
  | [] => (t.global.define symbol node).map fun s => { t with global := s }

/-- Declares a variable in the innermost scope. -/
def defineVar (t : SymbolTable) (name : String) (type : Ty) (location : Location)
    (node : Option NodeRef) : Except SemanticError SymbolTable :=
  t.define ⟨name, .var, type, location, []⟩ node

/-- Declares a function in the global scope, whichever scopes are open. -/
def defineFunction (t : SymbolTable) (name : String) (returnType : Ty) (params : List Ty)
    (location : Location) (node : Option NodeRef) : Except SemanticError SymbolTable :=
  (t.global.define ⟨name, .function, returnType, location, params⟩ node).map fun s =>
    { t with global := s }

/-- The symbol of this name in the innermost scope that has one. -/
def find? (t : SymbolTable) (name : String) : Option Symbol :=
  t.scopes.findSome? (·.find? name)

/-- The variable that a name stands for; the name of a function hides none and is none. -/
def findVar? (t : SymbolTable) (name : String) : Option Symbol :=
  (t.find? name).filter (·.kind = .var)

/-- The function that a name stands for, whatever variables there are of that name. -/
def findFunction? (t : SymbolTable) (name : String) : Option Symbol :=
  (t.global.find? name).filter (·.kind = .function)

/-- The names declared in the open scopes, innermost first and each once, or those of one kind. -/
def visibleNames (t : SymbolTable) (kind : Option SymbolKind) : List String :=
  let symbols := t.scopes.flatMap Scope.symbols
  ((symbols.filter fun s => kind.all (s.kind = ·)).map Symbol.name).eraseDups

/-- The visible names within `limit` edits of a name, five at most, nearest first. -/
def similarNames (t : SymbolTable) (name : String) (kind : Option SymbolKind) (limit : Int) :
    List String :=
  (Text.nearest name limit Text.lower (t.visibleNames kind)).take 5

/-- How many edits apart a name may be that a report suggests. -/
def suggestionLimit : Int := 2

/-- The scope of the function around this place. -/
def functionScope? (t : SymbolTable) : Option Scope := t.scopes.find? (·.kind = .function)

end SymbolTable

end BracketLang
