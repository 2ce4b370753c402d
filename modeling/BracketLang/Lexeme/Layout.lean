import BracketLang.Location

/-! What stands between lexemes. Layout is blank characters and comments; a comment begins with
`//` and runs up to the end of its line. -/

namespace BracketLang

/-- A place in a source text while it is being read. -/
structure Position where
  line : Nat
  column : Nat
  offset : Nat
deriving DecidableEq, Repr, Inhabited

namespace Position

/-- The place before the first character. -/
def start : Position := ⟨1, 1, 0⟩

/-- The place after one character more. -/
def step (p : Position) (c : Char) : Position :=
  if c = '\n' then ⟨p.line + 1, 1, p.offset + 1⟩ else ⟨p.line, p.column + 1, p.offset + 1⟩

/-- The place after some characters more. -/
def after (p : Position) (cs : List Char) : Position := cs.foldl step p

/-- The place as a location of a file. -/
def location (p : Position) (file : String) : Location := ⟨file, p.line, p.column, p.offset⟩

@[simp] theorem after_nil (p : Position) : p.after [] = p := rfl

@[simp] theorem after_cons (p : Position) (c : Char) (cs : List Char) :
    p.after (c :: cs) = (p.step c).after cs := rfl

theorem after_append (p : Position) (cs ds : List Char) :
    p.after (cs ++ ds) = (p.after cs).after ds := List.foldl_append

@[simp] theorem offset_step (p : Position) (c : Char) : (p.step c).offset = p.offset + 1 := by
  unfold step; split <;> rfl

theorem offset_after (p : Position) (cs : List Char) :
    (p.after cs).offset = p.offset + cs.length := by
  induction cs generalizing p with
  | nil => rfl
  | cons c cs ih => rw [after_cons, ih, offset_step, List.length_cons]; omega

end Position

namespace Layout

/-- The characters that separate lexemes and mean nothing. -/
def isBlank (c : Char) : Bool := c = ' ' || c = '\t' || c = '\r' || c = '\n'

/-- Splits a text after its longest layout. `inComment` says that the text begins inside a
comment, which the end of a line closes. -/
def split : (inComment : Bool) → List Char → List Char × List Char
  | _, [] => ([], [])
  | true, c :: cs =>
    let (skipped, rest) := split (c != '\n') cs
    (c :: skipped, rest)
  | false, '/' :: '/' :: cs =>
    let (skipped, rest) := split true cs
    ('/' :: '/' :: skipped, rest)
  | false, c :: cs =>
    if isBlank c then
      let (skipped, rest) := split false cs
      (c :: skipped, rest)
    else
      ([], c :: cs)

theorem split_append (inComment : Bool) (cs : List Char) :
    (split inComment cs).1 ++ (split inComment cs).2 = cs := by
  fun_induction split inComment cs <;> simp_all

theorem length_split_snd_le (inComment : Bool) (cs : List Char) :
    (split inComment cs).2.length ≤ cs.length := by
  have h := congrArg List.length (split_append inComment cs)
  rw [List.length_append] at h
  omega

end Layout

end BracketLang
