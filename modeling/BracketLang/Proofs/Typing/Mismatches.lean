import BracketLang.Proofs.Tree.Places
import BracketLang.Typing.Expression

/-! Mismatches and what raises them. A mismatch is reported by the node that asks for a type: a
statement, an operator or a call. Some of these blame themselves and others the child, but the words
of the report tell which (`Node.Raises.unique`). `SemanticError.Founded` says of a mismatch that
both types in it are known, and so are those of the children that it may be about. -/

namespace BracketLang

/-! ## Who raises a mismatch -/

namespace Node

/-- The node asks for a type of its child with index `i`, of which it speaks as `context`. -/
inductive Wants : Node → Nat → String → Prop
  | initializer : Wants (mk .letVar s (.text x) cs) 1 s!"initializer of '{x}'"
  | assigned : Wants (mk .assign s (.text x) cs) 0 s!"assignment to '{x}'"
  | ifCondition : Wants (mk .ifBranch s d cs) 0 "if condition"
  | whileCondition : Wants (mk .whileLoop s d cs) 0 "while condition"
  | argument : Wants (mk .call s (.text f) cs) i s!"argument {i + 1} of '{f}'"
  | returned (f : String) : Wants (mk .ret s d cs) 0 s!"return from '{f}'"
  | unary : Wants (mk .unary s (.text op) cs) 0 s!"operand of unary '{op}'"
  | operand : Wants (mk .binary s (.text op) cs) i s!"operand of '{op}'"
  | operands : Wants (mk .binary s (.text op) cs) i s!"operands of '{op}'"

/-- Operators and `return` blame themselves for a child of the wrong type, all others the child. -/
def blamesItself (n : Node) : Bool := n.kind ∈ [.ret, .unary, .binary]

/-- The node at `path` raises the error against its child with index `i`. -/
def Raises (n : Node) (path : Path) (i : Nat) (e : SemanticError) : Prop :=
  ∃ c expected actual context, n.children[i]? = some c ∧ n.Wants i context ∧
    e.cause = .typeMismatch expected actual context ∧
    e.node = some (if n.blamesItself then n.ref path else c.ref (i :: path))

/-- The node at `path` is a `return` without a value, and raises the error. -/
def RaisesBare (n : Node) (path : Path) (e : SemanticError) : Prop :=
  n.kind = .ret ∧ n.children = [] ∧ e.node = some (n.ref path) ∧
    ∃ (f expected actual : String),
      e.cause = .typeMismatch expected actual s!"return from '{f}'"

/-- What a node says of a child begins with a letter that tells whether the node blames itself. -/
theorem Wants.exists_head (h : Wants n i context) :
    ∃ c, context.toList.head? = some c ∧ (n.blamesItself ↔ c = 'o' ∨ c = 'r') := by
  have starts {a b : String} {c : Char} (h : a.toList.head? = some c) :
      (a ++ b).toList.head? = some c := by
    rw [String.toList_append, List.head?_append, h]
    rfl
  cases h with
  | initializer => exact ⟨'i', starts (starts rfl), by simp [blamesItself, kind]⟩
  | assigned => exact ⟨'a', starts (starts rfl), by simp [blamesItself, kind]⟩
  | ifCondition => exact ⟨'i', rfl, by simp [blamesItself, kind]⟩
  | whileCondition => exact ⟨'w', rfl, by simp [blamesItself, kind]⟩
  | argument => exact ⟨'a', starts (starts (starts (starts rfl))), by simp [blamesItself, kind]⟩
  | returned => exact ⟨'r', starts (starts rfl), by simp [blamesItself, kind]⟩
  | unary | operand | operands => exact ⟨'o', starts (starts rfl), by simp [blamesItself, kind]⟩

/-- Nodes that say the same of a child blame alike. -/
theorem Wants.blamesItself_iff (h : Wants n i context) (h' : Wants n' i' context) :
    n.blamesItself ↔ n'.blamesItself := by
  obtain ⟨c, hc, hself⟩ := h.exists_head
  obtain ⟨c', hc', hself'⟩ := h'.exists_head
  obtain rfl := Option.some.inj (hc.symm.trans hc')
  exact hself.trans hself'.symm

/-- An error is raised by one node only: from what is blamed and from the words one can tell whether
that is the node itself or its child. -/
theorem Raises.unique {root n n' : Node} (hat : root.at? path = some n)
    (hat' : root.at? path' = some n') (h : n.Raises path i e) (h' : n'.Raises path' i' e) :
    path' = path ∧ n' = n := by
  obtain ⟨c, _, _, _, -, hw, hcause, hnode⟩ := h
  obtain ⟨c', _, _, _, -, hw', hcause', hnode'⟩ := h'
  obtain ⟨-, -, rfl⟩ := SemanticError.Cause.typeMismatch.inj (hcause.symm.trans hcause')
  have hself := hw.blamesItself_iff hw'
  have hblamed := Option.some.inj (hnode.symm.trans hnode')
  have hpath : path' = path := by
    by_cases hn : n.blamesItself
    · rw [if_pos hn, if_pos (hself.mp hn)] at hblamed
      exact (congrArg NodeRef.path hblamed).symm
    · rw [if_neg hn, if_neg (mt hself.mpr hn)] at hblamed
      exact (List.cons.inj (congrArg NodeRef.path hblamed)).2.symm
  subst hpath
  exact ⟨rfl, Option.some.inj (hat'.symm.trans hat)⟩

/-- A `return` without a value raises its errors alone. -/
theorem RaisesBare.not_raises {root n n' : Node} (hat : root.at? path = some n)
    (hat' : root.at? path' = some n') (h : n.RaisesBare path e) : ¬ n'.Raises path' i e := by
  rintro ⟨c, _, _, _, hc, hw, hcause', hnode'⟩
  obtain ⟨hkind, hchildren, hnode, f, _, _, hcause⟩ := h
  obtain ⟨-, -, rfl⟩ := SemanticError.Cause.typeMismatch.inj (hcause.symm.trans hcause')
  have hreturned : n.Wants 0 s!"return from '{f}'" := by
    obtain ⟨k, s, d, cs⟩ := n
    obtain rfl : k = .ret := hkind
    exact .returned f
  have hself : n'.blamesItself := by
    rw [hw.blamesItself_iff hreturned, blamesItself, hkind]
    rfl
  rw [if_pos hself] at hnode'
  have hpath : path = path' := congrArg NodeRef.path (Option.some.inj (hnode.symm.trans hnode'))
  subst hpath
  obtain rfl := Option.some.inj (hat.symm.trans hat')
  rw [hchildren] at hc
  cases hc

end Node

/-! ## Reports with a foundation -/

theorem Ty.text_ne {t : Ty} (h : t ≠ .error) : t.text ≠ Ty.error.text := by
  cases t with
  | error => exact absurd rfl h
  | _ => decide

namespace SemanticError

/-- What the error blames, and for what. -/
def key? (e : SemanticError) : Option (Path × String) := e.node.map fun n => (n.path, e.kindName)

/-- A mismatch is between two types that are known. It is raised by a node of the tree, and the
children that the node may have raised it against have types in `types` that are known. -/
def Founded (root : Node) (types : List (Path × Ty)) (e : SemanticError) : Prop :=
  ∀ expected actual context, e.cause = .typeMismatch expected actual context →
    expected ≠ Ty.error.text ∧ actual ≠ Ty.error.text ∧
    ∃ path n, root.at? path = some n ∧ (n.RaisesBare path e ∨ (∃ i, n.Raises path i e) ∧
      ∀ i, n.Raises path i e → ∃ t, t ≠ .error ∧ (i :: path, t) ∈ types)

variable {root n c : Node} {types : List (Path × Ty)} {t t' : Ty} {l : Location}

theorem founded_of_cause {e : SemanticError} (h : ∀ t t' c, e.cause ≠ .typeMismatch t t' c) :
    e.Founded root types := by
  intro t t' c hcause
  exact absurd hcause (h t t' c)

/-- A mismatch for which a node blames its child. -/
theorem founded_child (ht : t ≠ .error) (ht' : t' ≠ .error) (hat : root.at? path = some n)
    (hc : root.at? (i :: path) = some c) (hw : n.Wants i context)
    (hself : n.blamesItself = false) (hnoted : (i :: path, t') ∈ types) :
    (mismatch t t' context l (c.ref (i :: path))).Founded root types := by
  have hc : n.children[i]? = some c := by simpa [Node.at?, hat] using hc
  rintro _ _ _ ⟨⟩
  refine ⟨Ty.text_ne ht, Ty.text_ne ht', path, n, hat, .inr ⟨⟨i, ?_⟩, ?_⟩⟩
  · exact ⟨c, _, _, _, hc, hw, rfl, by rw [hself]; rfl⟩
  · rintro j ⟨c', _, _, _, -, -, -, hnode⟩
    rw [hself] at hnode
    have hpath := congrArg NodeRef.path (Option.some.inj hnode)
    obtain ⟨rfl, -⟩ := List.cons.inj hpath
    exact ⟨t', ht', hnoted⟩

/-- A mismatch for which a node blames itself. -/
theorem founded_itself (ht : t ≠ .error) (ht' : t' ≠ .error) (hat : root.at? path = some n)
    (hc : n.children[i]? = some c) (hw : n.Wants i context) (hself : n.blamesItself)
    (hnoted : ∀ i c, n.children[i]? = some c → ∃ t, t ≠ .error ∧ (i :: path, t) ∈ types) :
    (mismatch t t' context l (n.ref path)).Founded root types := by
  rintro _ _ _ ⟨⟩
  refine ⟨Ty.text_ne ht, Ty.text_ne ht', path, n, hat, .inr ⟨⟨i, ?_⟩, ?_⟩⟩
  · exact ⟨c, _, _, _, hc, hw, rfl, by rw [hself]; rfl⟩
  · rintro j ⟨c', _, _, _, hc', -⟩
    exact hnoted j c' hc'

/-- A founded mismatch is not raised against a child whose type is unknown, by any node. -/
theorem Founded.exists_type (h : Founded root types e) (hat : root.at? path = some n)
    (hn : n.Raises path i e) : ∃ t, t ≠ .error ∧ (i :: path, t) ∈ types := by
  have hraises := hn
  obtain ⟨_, _, _, _, -, -, hcause, -⟩ := hraises
  obtain ⟨-, -, path', n', hat', hbare | ⟨⟨j, hj⟩, htypes⟩⟩ := h _ _ _ hcause
  · exact absurd hn (hbare.not_raises hat' hat)
  · obtain ⟨rfl, rfl⟩ := Node.Raises.unique hat' hat hj hn
    exact htypes i hn

end SemanticError

end BracketLang
