import BracketLang.Tree.Node

/-! The outline of a tree: its nodes as a flat list, every node before its children and the
children from left to right. -/

namespace BracketLang

/-- One line of an outline. -/
structure Row where
  node : NodeRef
  detail : Detail
deriving DecidableEq, Repr

/-- How far a row is indented: the number of nodes around it. -/
def Row.depth (r : Row) : Nat := r.node.path.length

namespace Node

mutual

/-- The outline of a tree whose root has the given path. -/
def outlineAt (path : Path) : Node → List Row
  | mk kind span detail children =>
    ⟨⟨path, kind, span⟩, detail⟩ :: outlineFrom path 0 children

/-- The outlines of siblings, the first of which has the given index. -/
def outlineFrom (path : Path) (index : Nat) : List Node → List Row
  | [] => []
  | n :: ns => outlineAt (index :: path) n ++ outlineFrom path (index + 1) ns

end

/-- The outline of a whole tree. -/
def outline (n : Node) : List Row := n.outlineAt []

end Node

end BracketLang
