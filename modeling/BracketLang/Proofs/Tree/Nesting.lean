import BracketLang.Proofs.Grammar.Expressions

/-! How deep expressions nest. A way from an expression down to one of its parts goes a level deeper
where it goes into the operand of a unary operator, a right operand or an argument, and stays on its
level where it goes into a left operand. `Expr.nesting` is the most levels of such a way
(`Expr.nesting_le_iff`), and an expression that is read within `m` levels nests less than `m` deep:
parentheses take a level and leave no trace in the tree. -/

namespace BracketLang

namespace Expr

/-- `part` stands in `e`, `n` levels below it. -/
inductive Contains : (e : Expr) → (n : Nat) → (part : Expr) → Prop
  | self : Contains e 0 e
  | operand (h : Contains e n part) : Contains (.unary op e s) (n + 1) part
  | left (h : Contains l n part) : Contains (.binary l op r s) n part
  | right (h : Contains r n part) : Contains (.binary l op r s) (n + 1) part
  | arg (ha : a ∈ args) (h : Contains a n part) : Contains (.call f args s) (n + 1) part

mutual

/-- The most levels that a part stands below the expression. -/
def nesting : Expr → Nat
  | integer .. | boolean .. | var .. | typeName _ => 0
  | unary _ e _ => e.nesting + 1
  | binary l _ r _ => max l.nesting (r.nesting + 1)
  | call _ args _ => argsNesting args

/-- The same for a call of these arguments. -/
def argsNesting : List Expr → Nat
  | [] => 0
  | e :: es => max (e.nesting + 1) (argsNesting es)

end

theorem nesting_lt_of_mem (h : e ∈ es) : e.nesting < argsNesting es := by
  induction es with
  | nil => cases h
  | cons a es ih =>
    rw [argsNesting]
    rcases List.mem_cons.mp h with rfl | h
    · exact Nat.le_max_left ..
    · exact Nat.lt_of_lt_of_le (ih h) (Nat.le_max_right ..)

theorem Contains.le_nesting (h : Contains e n part) : n ≤ e.nesting := by
  induction h with
  | self => exact Nat.zero_le _
  | operand _ ih => exact Nat.succ_le_succ ih
  | left _ ih => exact Nat.le_trans ih (Nat.le_max_left ..)
  | right _ ih => exact Nat.le_trans (Nat.succ_le_succ ih) (Nat.le_max_right ..)
  | arg ha _ ih => exact Nat.lt_of_le_of_lt ih (nesting_lt_of_mem ha)

mutual

theorem exists_contains_nesting (e : Expr) : ∃ part, Contains e e.nesting part := by
  match e with
  | integer .. | boolean .. | var .. | typeName _ => exact ⟨_, .self⟩
  | unary op e s =>
    obtain ⟨part, h⟩ := exists_contains_nesting e
    exact ⟨part, .operand h⟩
  | binary l op r s =>
    rw [nesting]
    rcases Nat.le_total (r.nesting + 1) l.nesting with hle | hle
    · obtain ⟨part, h⟩ := exists_contains_nesting l
      rw [Nat.max_eq_left hle]
      exact ⟨part, .left h⟩
    · obtain ⟨part, h⟩ := exists_contains_nesting r
      rw [Nat.max_eq_right hle]
      exact ⟨part, .right h⟩
  | call f args s =>
    rcases exists_contains_argsNesting args with hnil | ⟨a, ha, n, part, h, hn⟩
    · rw [nesting, hnil]
      exact ⟨_, .self⟩
    · rw [nesting, hn]
      exact ⟨part, .arg ha h⟩

theorem exists_contains_argsNesting (es : List Expr) :
    argsNesting es = 0 ∨
      ∃ a ∈ es, ∃ n part, Contains a n part ∧ argsNesting es = n + 1 := by
  match es with
  | [] => exact .inl rfl
  | e :: es =>
    right
    rw [argsNesting]
    rcases Nat.le_total (argsNesting es) (e.nesting + 1) with hle | hle
    · obtain ⟨part, h⟩ := exists_contains_nesting e
      exact ⟨e, List.mem_cons_self, _, part, h, Nat.max_eq_left hle⟩
    · rcases exists_contains_argsNesting es with hnil | ⟨a, ha, n, part, h, hn⟩
      · omega
      · exact ⟨a, List.mem_cons_of_mem e ha, n, part, h, by omega⟩

end

theorem nesting_le_iff : e.nesting ≤ m ↔ ∀ n part, Contains e n part → n ≤ m := by
  constructor
  · intro hle n part h
    exact Nat.le_trans h.le_nesting hle
  · intro h
    obtain ⟨part, hpart⟩ := exists_contains_nesting e
    exact h _ part hpart

/-! ## Expressions that are read -/

mutual

theorem nesting_bare (e : Expr) : e.bare.nesting = e.nesting := by
  match e with
  | integer .. | boolean .. | var .. | typeName _ => rfl
  | unary op e s => rw [bare, nesting, nesting, nesting_bare e]
  | binary l op r s => rw [bare, nesting, nesting, nesting_bare l, nesting_bare r]
  | call f args s => rw [bare, nesting, nesting, argsNesting_bareAll args]

theorem argsNesting_bareAll (es : List Expr) : argsNesting (bareAll es) = argsNesting es := by
  match es with
  | [] => rfl
  | e :: es => rw [bareAll, argsNesting, argsNesting, nesting_bare e, argsNesting_bareAll es]

end

end Expr

mutual

theorem ExprDeriv.nesting_lt : (d : ExprDeriv p) → d.tree.nesting < d.levels
  | .tighter _ e => e.nesting_lt
  | .group _ e _ => Nat.lt_succ_of_lt e.nesting_lt
  | .binary _ l _ r => by
    have hl := l.nesting_lt
    have hr := r.nesting_lt
    simp only [ExprDeriv.tree, ExprDeriv.levels, Expr.nesting]
    omega
  | .unary _ e => Nat.succ_lt_succ e.nesting_lt
  | .integer _ | .boolean _ | .var _ => Nat.zero_lt_one
  | .call _ _ args _ => Nat.lt_succ_of_le args.argsNesting_le

theorem ArgsDeriv.argsNesting_le : (d : ArgsDeriv) → Expr.argsNesting d.trees ≤ d.levels
  | .none => Nat.le_refl 0
  | .some e more => by
    have he := e.nesting_lt
    have hmore := more.argsNesting_le
    simp only [ArgsDeriv.trees, ArgsDeriv.levels, Expr.argsNesting]
    omega

theorem MoreArgsDeriv.argsNesting_le : (d : MoreArgsDeriv) → Expr.argsNesting d.trees ≤ d.levels
  | .nil => Nat.le_refl 0
  | .cons _ e more => by
    have he := e.nesting_lt
    have hmore := more.argsNesting_le
    simp only [MoreArgsDeriv.trees, MoreArgsDeriv.levels, Expr.argsNesting]
    omega

end

/-- What is derived within `m` levels nests less than `m` deep. -/
theorem Expr.nesting_lt_of_derived {e : Expr} (h : e.bare.Derived p m ts) : e.nesting < m := by
  obtain ⟨d, -, htree, hlevels⟩ := h
  rw [← nesting_bare, ← htree]
  exact Nat.lt_of_lt_of_le d.nesting_lt hlevels

/-- How many binary operators follow one another down the left operands. -/
def Expr.spine : Expr → Nat
  | .binary l .. => l.spine + 1
  | _ => 0

end BracketLang
