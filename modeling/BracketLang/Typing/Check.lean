import BracketLang.Typing.Basic
import BracketLang.Typing.Error

/-! The outcome of checking a part of a program: a result, the errors found, and the types of the
nodes. Checks are put together in order. A check that ran out of levels has no result; what it
had found by then is kept. -/

namespace BracketLang

/-- What checking a part of a program gives. -/
structure Check (α : Type) where
  /-- Nothing if an expression nested too deep. -/
  result : Option α
  errors : List SemanticError
  types : List (Path × Ty)

namespace Check

variable {α β : Type}

instance : Monad Check where
  pure a := ⟨some a, [], []⟩
  bind x f :=
    match x.result with
    | none => ⟨none, x.errors, x.types⟩
    | some a =>
      let y := f a
      ⟨y.result, x.errors ++ y.errors, x.types ++ y.types⟩

instance : LawfulMonad Check := LawfulMonad.mk' Check
  (by rintro α ⟨_ | a, errors, types⟩ <;> simp [Functor.map])
  (by intros; rfl)
  (by
    rintro α β γ ⟨_ | a, errors, types⟩ f g
    · rfl
    · cases h : (f a).result <;> simp [bind, h])

/-- No levels are left. -/
def exhausted : Check α := ⟨none, [], []⟩

/-- Reports an error. -/
def report (e : SemanticError) : Check Unit := ⟨some (), [e], []⟩

/-- Notes the type of a node. -/
def annotate (path : Path) (type : Ty) : Check Unit := ⟨some (), [], [(path, type)]⟩

/-- Takes a result or reports why there is none. -/
def orReport (fallback : α) : Except SemanticError α → Check α
  | .ok a => pure a
  | .error e => do
    report e
    return fallback

/-- Goes on with `fallback` after a check that ran out of levels, and reports it as `e`. -/
def orExhausted (x : Check α) (fallback : α) (e : SemanticError) : Check α :=
  match x.result with
  | some _ => x
  | none => ⟨some fallback, x.errors ++ [e], x.types⟩

end Check

end BracketLang
