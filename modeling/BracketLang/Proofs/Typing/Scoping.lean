import BracketLang.Proofs.Tree.Places
import BracketLang.Typing.Error

/-! Lexical scoping, read off the tree of a program. A place sees what is declared in front of it in
its block or in a block around that: by a parameter, if the block is the body of a function, or by
a declaration among the statements before it. Functions are seen from everywhere.

From this follows, for every node on its own, what is wrong with the names in it: a variable that
nothing declares (`Node.unresolved`), a name that is declared again (`Node.redeclared`), a function
that is not there (`Node.unknown`) and a call with the wrong number of arguments
(`Node.miscounted`). -/

namespace BracketLang

namespace Node

/-- The parameters of a function; no other node has any. -/
def params : Node → List Param
  | mk .function _ (.header _ ps) _ => ps
  | _ => []

/-- Whether the node is a function of this name. -/
def isFunction (x : String) : Node → Bool
  | mk .function _ (.header y _) _ => y = x
  | _ => false

/-- Whether the node is a declaration of this name. -/
def declares (x : String) (n : Node) : Bool := n.kind = .letVar ∧ n.detail = .text x

/-- Where a name is declared in a block in front of its statement `k`, in order: by the parameters
of the function whose body the block is, and by the statements. -/
def declarations (root : Node) (x : String) (block : Path) (k : Nat) : List Location :=
  match root.at? block with
  | some (mk .block _ _ statements) =>
    (((root.at? block.tail).elim [] params).filter (·.name = x)).map Param.location ++
      ((statements.take k).filter (·.declares x)).map (·.span.start)
  | _ => []

/-- Whether a name is declared in front of a place, in the same block or in one around it. -/
def Resolves (root : Node) (x : String) : Path → Prop
  | [] => False
  | k :: block => root.declarations x block k ≠ [] ∨ root.Resolves x block

instance (root : Node) (x : String) : (path : Path) → Decidable (root.Resolves x path)
  | [] => inferInstanceAs (Decidable False)
  | k :: block =>
    have := instDecidableResolves root x block
    inferInstanceAs (Decidable (root.declarations x block k ≠ [] ∨ root.Resolves x block))

/-! ## What is wrong with a node -/

/-- A variable is used or assigned to that nothing in front of it declares. -/
def unresolved (root : Node) (path : Path) (n : Node) : List SemanticError :=
  match n with
  | mk .var span (.text x) _ | mk .assign span (.text x) _ =>
    if root.Resolves x path then []
    else [⟨.undeclaredVariable x [], span.start, some (n.ref path)⟩]
  | _ => []

/-- The parameters whose name an earlier one has, each with the first that has it. -/
def repeatedParams (ps : List Param) : List (Param × Param) :=
  ps.zipIdx.filterMap fun (p, i) => ((ps.take i).find? (·.name = p.name)).map (p, ·)

/-- A name is declared again: that of a variable in the same block, that of a function, or those of
parameters. The report has the first declaration as its related place. -/
def redeclared (root : Node) (path : Path) (n : Node) : List SemanticError :=
  match n, path with
  | mk .letVar span (.text x) _, k :: block =>
    (root.declarations x block k).head?.toList.map fun first =>
      ⟨.redeclaration x "variable" (some first), span.start, some (n.ref path)⟩
  | mk .function span (.header x ps) _, [i] =>
    ((root.children.take i).find? (·.isFunction x)).toList.map (fun first =>
      ⟨.redeclaration x "function" (some first.span.start), span.start, some (n.ref path)⟩) ++
    (repeatedParams ps).map fun (p, first) =>
      ⟨.redeclaration p.name "variable" (some first.location), p.location, none⟩
  | _, _ => []

/-- A call of a function that the program does not have. -/
def unknown (root : Node) (path : Path) (n : Node) : List SemanticError :=
  match n with
  | mk .call span (.text x) _ =>
    if root.children.any (·.isFunction x) then []
    else [⟨.undeclaredFunction x [], span.start, some (n.ref path)⟩]
  | _ => []

/-- A call with another number of arguments than the first function of the name has parameters. -/
def miscounted (root : Node) (path : Path) (n : Node) : List SemanticError :=
  match n with
  | mk .call span (.text x) args =>
    match root.children.find? (·.isFunction x) with
    | some f =>
      if f.params.length = args.length then []
      else [⟨.arityMismatch x f.params.length args.length, span.start, some (n.ref path)⟩]
    | none => []
  | _ => []

end Node

end BracketLang
