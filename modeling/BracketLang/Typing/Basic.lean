/-! The types of values. `error` is the type of an expression that has been reported already: it
agrees with every type, so that one mistake is reported once. -/

namespace BracketLang

/-- The type of an expression, a variable or a function's result. -/
inductive Ty where
  | int | bool
  /-- What a function returns that gives no value. -/
  | unit
  /-- What is known of an expression that does not check. -/
  | error
deriving DecidableEq, Repr

namespace Ty

/-- How messages write a type. -/
def text : Ty → String
  | int => "i32"
  | bool => "bool"
  | unit => "unit"
  | error => "<error>"

/-- The name under which listings show a type. -/
def name : Ty → String
  | int => "INT"
  | bool => "BOOL"
  | unit => "UNIT"
  | error => "ERROR"

def all : List Ty := [int, bool, unit, error]

/-- The type that a written name stands for. -/
def ofName : String → Ty
  | "i32" => int
  | "bool" => bool
  | _ => error

/-- Whether a value of type `actual` will do where `expected` is wanted. -/
def compatible (expected actual : Ty) : Bool :=
  expected = error || actual = error || expected = actual

end Ty

end BracketLang
