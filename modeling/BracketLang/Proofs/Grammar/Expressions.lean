import BracketLang.Proofs.Grammar.Located
import BracketLang.Proofs.Grammar.Reading

/-! Precedence climbing and the grammar of expressions. What `climb` reads has a derivation at its
level, within the levels it may open (`reads_climb`); and what has one is read, unless the tokens
behind it go on with an operator of that level or make a call of a name at its end
(`ExprDeriv.accepts`). Left recursion meets the loop of `operators` in one invariant: the operand
read so far is derived at some level, and the next operator binds no tighter than that. -/

namespace BracketLang

namespace Precedence

theorem le_iff {p q : Precedence} : p ≤ q ↔ p.rank ≤ q.rank := .rfl

theorem le_of_not_le {p q : Precedence} (h : ¬ p ≤ q) : q ≤ p := Nat.le_of_lt (Nat.not_le.mp h)

theorem isBinary_iff : IsBinary p ↔ 0 < p.rank ∧ p.rank < unary.rank := by
  cases p <;> simp [IsBinary, rank]

theorem rank_le (p : Precedence) : p.rank ≤ unary.rank := by
  cases p <;> decide

theorem rank_tighter (hp : IsBinary p) : p.tighter.rank = p.rank + 1 := by
  cases p <;> simp_all [IsBinary, tighter, rank]

theorem rank_pos (hp : p ≠ none) : 0 < p.rank := by
  cases p <;> simp_all [rank]

/-- What does not bind tighter than a level binds no tighter than it. -/
theorem le_of_not_tighter_le (hp : IsBinary p) (h : ¬ p.tighter ≤ q) : q ≤ p := by
  rw [le_iff, rank_tighter hp] at h
  rw [le_iff]
  omega

theorem tighter_ne_none (p : Precedence) : p.tighter ≠ none := by
  cases p <;> simp [tighter]

theorem eq_of_rank_eq (h : rank p = rank q) : p = q := by
  cases p <;> cases q <;> simp_all [rank]

end Precedence

theorem TokenKind.rank_precedence_lt (k : TokenKind) :
    k.precedence.rank < Precedence.unary.rank := by
  cases k <;> decide

/-- What precedence climbing goes on at is a binary operator. -/
theorem TokenKind.isBinary_of_le (hp : p ≠ .none) {k : TokenKind} (h : p ≤ k.precedence) :
    k.precedence.IsBinary := by
  have hpos := Precedence.rank_pos hp
  rw [Precedence.le_iff] at h
  exact Precedence.isBinary_iff.mpr ⟨Nat.lt_of_lt_of_le hpos h, k.rank_precedence_lt⟩

/-- An operator at which precedence climbing goes on is a token to come. -/
theorem exists_cons_of_le (hp : p ≠ .none) (h : p ≤ (nextKind ts).precedence) :
    ∃ t r, ts = t :: r ∧ t.kind ≠ .eof ∧ p ≤ t.kind.precedence := by
  have hne : nextKind ts ≠ .eof := by
    intro he
    rw [he, Precedence.le_iff] at h
    exact absurd (Precedence.rank_pos hp) (Nat.not_lt.mpr h)
  obtain ⟨t, r, rfl, -⟩ := exists_cons_of_nextKind rfl hne
  exact ⟨t, r, rfl, hne, h⟩

/-- The kinds of the tokens of expressions. -/
def TokenKind.InExpression (k : TokenKind) : Prop :=
  k ∈ expressionStarts ∨ k = comma ∨ k = rightParen ∨ k.precedence ≠ .none

/-! ## Derivations -/

theorem Expr.bareAll_eq_map (es : List Expr) : bareAll es = es.map bare := by
  induction es with
  | nil => rfl
  | cons e es ih => simp [bareAll, ih]

/-- The tokens derive the bare tree at a level, with at most `m` levels open at once. -/
def Expr.Derived (p : Precedence) (m : Nat) (ts : List Token) (e : Expr) : Prop :=
  ∃ d : ExprDeriv p, d.yield = ts ∧ d.tree = e ∧ d.levels ≤ m

/-- The tokens derive the tree, spans included. -/
def Expr.DerivedAt (p : Precedence) (m : Nat) (ts : List Token) (e : Expr) : Prop :=
  ∃ d : ExprDeriv p, d.yield = ts ∧ d.located = e ∧ d.levels ≤ m

namespace ExprDeriv

/-- What is derived at a level is derived at the looser ones. -/
theorem exists_loosen {p q : Precedence} (hp : p ≠ .none) (hpq : p ≤ q) (d : ExprDeriv q) :
    ∃ d' : ExprDeriv p, d'.yield = d.yield ∧ d'.tree = d.tree ∧ d'.levels = d.levels := by
  rw [Precedence.le_iff] at hpq
  generalize hn : q.rank - p.rank = n
  induction n generalizing p with
  | zero =>
    obtain rfl := Precedence.eq_of_rank_eq (Nat.le_antisymm hpq (Nat.sub_eq_zero_iff_le.mp hn))
    exact ⟨d, rfl, rfl, rfl⟩
  | succ n ih =>
    have hb : p.IsBinary :=
      Precedence.isBinary_iff.mpr ⟨Precedence.rank_pos hp, by have := q.rank_le; omega⟩
    have hrank := Precedence.rank_tighter hb
    obtain ⟨d', hd'⟩ := ih p.tighter_ne_none (by omega) (by omega)
    exact ⟨.tighter hb d', hd'⟩

theorem derived_loosen (d : ExprDeriv q) (hp : p ≠ .none) (hpq : p ≤ q) (hm : d.levels ≤ m) :
    d.tree.Derived p m d.yield := by
  obtain ⟨d', hyield, htree, hlevels⟩ := d.exists_loosen hp hpq
  exact ⟨d', hyield, htree, hlevels ▸ hm⟩

/-- Every expression has a first token, one that can start an expression. -/
theorem nextKind_yield : (d : ExprDeriv p) → (r : List Token) →
    nextKind (d.yield ++ r) ∈ TokenKind.expressionStarts
  | .tighter _ e, r => nextKind_yield e r
  | .binary _ l op e, r => by
    simpa [yield] using nextKind_yield l (op.val :: (e.yield ++ r))
  | .unary op _, r => by
    rcases op.property with h | h <;> simp [yield, h, TokenKind.expressionStarts]
  | .integer t, r | .var t, r | .call t .., r | .group t .., r => by
    simp [yield, t.property, TokenKind.expressionStarts]
  | .boolean t, r => by
    rcases t.property with h | h <;> simp [yield, h, TokenKind.expressionStarts]

theorem ne_none : ExprDeriv p → p ≠ .none
  | .tighter hp _ | .binary hp .. => hp.1
  | .unary .. | .integer _ | .boolean _ | .var _ | .call .. | .group .. => nofun

theorem levels_pos : (d : ExprDeriv p) → 0 < d.levels
  | .tighter _ e => levels_pos e
  | .binary _ l .. => Nat.lt_of_lt_of_le (levels_pos l) (Nat.le_max_left ..)
  | .unary .. | .integer _ | .boolean _ | .var _ | .call .. | .group .. => Nat.succ_pos _

theorem length_yield_pos (d : ExprDeriv p) : 0 < d.yield.length := by
  have h := d.nextKind_yield []
  rw [List.append_nil] at h
  cases hd : d.yield with
  | nil => rw [hd] at h; exact absurd h (by decide)
  | cons t ts => simp

end ExprDeriv

mutual

theorem ExprDeriv.inExpression : (d : ExprDeriv p) → ∀ t ∈ d.yield, t.kind.InExpression
  | .tighter _ e => e.inExpression
  | .binary hp l op e => by
    simp only [ExprDeriv.yield, List.forall_mem_append, List.forall_mem_cons]
    have hop : op.val.kind.precedence ≠ .none := by rw [op.property]; exact hp.1
    exact ⟨l.inExpression, .inr (.inr (.inr hop)), e.inExpression⟩
  | .unary op e => by
    simp only [ExprDeriv.yield, List.forall_mem_cons]
    refine ⟨.inl ?_, e.inExpression⟩
    rcases op.property with h | h <;> rw [h] <;> decide
  | .integer t | .var t => by
    simp [ExprDeriv.yield, TokenKind.InExpression, t.property, TokenKind.expressionStarts]
  | .boolean t => by
    rcases t.property with h | h <;>
      simp [ExprDeriv.yield, TokenKind.InExpression, h, TokenKind.expressionStarts]
  | .call t lp args rp => by
    simp only [ExprDeriv.yield, List.forall_mem_append, List.forall_mem_cons]
    refine ⟨?_, ?_, args.inExpression, ?_, List.forall_mem_nil _⟩ <;>
      simp only [t.property, lp.property, rp.property]
    · exact .inl (by decide)
    · exact .inl (by decide)
    · exact .inr (.inr (.inl rfl))
  | .group lp e rp => by
    simp only [ExprDeriv.yield, List.forall_mem_append, List.forall_mem_cons]
    refine ⟨?_, e.inExpression, ?_, List.forall_mem_nil _⟩ <;> simp only [lp.property, rp.property]
    · exact .inl (by decide)
    · exact .inr (.inr (.inl rfl))

theorem ArgsDeriv.inExpression : (args : ArgsDeriv) → ∀ t ∈ args.yield, t.kind.InExpression
  | .none => List.forall_mem_nil _
  | .some e more => List.forall_mem_append.mpr ⟨e.inExpression, more.inExpression⟩

theorem MoreArgsDeriv.inExpression : (more : MoreArgsDeriv) → ∀ t ∈ more.yield, t.kind.InExpression
  | .nil => List.forall_mem_nil _
  | .cons comma e more => List.forall_mem_cons.mpr
    ⟨.inr (.inl comma.property), List.forall_mem_append.mpr ⟨e.inExpression, more.inExpression⟩⟩

end

section
open Parser

theorem MoreArgsDeriv.of_moreItems (h : MoreItems (Expr.Derived .or m) ts es) :
    ∃ more : MoreArgsDeriv, more.yield = ts ∧ more.trees = es ∧ more.levels ≤ m := by
  induction h with
  | nil => exact ⟨.nil, rfl, rfl, Nat.zero_le m⟩
  | cons comma h _ ih =>
    obtain ⟨d, rfl, rfl, hd⟩ := h
    obtain ⟨more, rfl, rfl, hmore⟩ := ih
    exact ⟨.cons comma d more, rfl, rfl, Nat.max_le.mpr ⟨hd, hmore⟩⟩

theorem ArgsDeriv.of_items (h : Items (Expr.Derived .or m) ts es) :
    ∃ args : ArgsDeriv, args.yield = ts ∧ args.trees = es ∧ args.levels ≤ m := by
  cases h with
  | none => exact ⟨.none, rfl, rfl, Nat.zero_le m⟩
  | some h hmore =>
    obtain ⟨d, rfl, rfl, hd⟩ := h
    obtain ⟨more, rfl, rfl, hlevels⟩ := MoreArgsDeriv.of_moreItems hmore
    exact ⟨.some d more, rfl, rfl, Nat.max_le.mpr ⟨hd, hlevels⟩⟩

theorem MoreArgsDeriv.moreItems : (more : MoreArgsDeriv) → more.levels ≤ m →
    MoreItems (Expr.DerivedAt .or m) more.yield more.located
  | .nil, _ => .nil
  | .cons comma e more, h =>
    .cons comma ⟨e, rfl, rfl, (Nat.max_le.mp h).1⟩ (moreItems more (Nat.max_le.mp h).2)

theorem ArgsDeriv.items : (args : ArgsDeriv) → args.levels ≤ m →
    Items (Expr.DerivedAt .or m) args.yield args.located
  | .none, _ => .none
  | .some e more, h => .some ⟨e, rfl, rfl, (Nat.max_le.mp h).1⟩ (more.moreItems (Nat.max_le.mp h).2)

end

/-! ## Operands -/

namespace Parser

open ParserState

theorem found_noExpression (t : Token) : (noExpression t).found = t := by
  unfold noExpression
  split <;> rfl

section
variable {sub : Precedence → Parser Expr} {m : Nat}

section
variable (hsub : ∀ p, p ≠ .none → Reads (sub p) fun ts e => e.bare.Derived p m ts)
include hsub

theorem reads_wholeExpression (hp : p ≠ .none) :
    Reads (wholeExpression sub p) fun ts e => e.bare.Derived p m ts :=
  (reads_visit _).bind fun _ => (hsub p hp).mono fun _ _ h _ hts => hts ▸ h

theorem reads_callOf (name : Token) :
    ReadsAt .leftParen (callOf sub name) fun ts e =>
      ∀ h : name.kind = .identifier,
        e.bare.Derived .unary (m + 1) ((⟨name, h⟩ : Terminal .identifier).val :: ts) := by
  refine .visit_bind <| .advance_bind (by decide) fun lp =>
    (reads_wholeExpression hsub (by decide)).items.bind fun args =>
      reads_closeParen.bind fun rp => .pure ?_
  rintro _ ⟨hrp, rfl⟩ ts hts hlp hname
  obtain ⟨d, rfl, htrees, hlevels⟩ := ArgsDeriv.of_items hts
  refine ⟨.call ⟨name, hname⟩ ⟨lp, hlp⟩ d ⟨rp, hrp⟩, ?_, ?_, Nat.succ_le_succ hlevels⟩
  · simp [ExprDeriv.yield]
  · simp [ExprDeriv.tree, Expr.bare, Expr.bareAll_eq_map, htrees]

theorem reads_sign (hk : k = .minus ∨ k = .not) :
    ReadsAt k (do
      let token ← advance
      let e ← sub .unary
      return Expr.unary token.lexeme e ⟨token.location, e.span.finish⟩)
    fun ts e => e.bare.Derived .unary (m + 1) ts := by
  refine .advance_bind (by rcases hk with rfl | rfl <;> decide) fun t =>
    (hsub .unary (by decide)).bind fun e => .pure ?_
  rintro ts ⟨d, rfl, htree, hlevels⟩ rfl
  refine ⟨.unary ⟨t, hk⟩ d, ?_, ?_, Nat.succ_le_succ hlevels⟩
  · simp [ExprDeriv.yield]
  · simp [ExprDeriv.tree, Expr.bare, htree]

omit hsub in
theorem reads_truth (hk : k = .trueWord ∨ k = .falseWord) :
    ReadsAt k (do
      let token ← advance
      return Expr.boolean (token.kind = .trueWord) (.point token.location))
    fun ts e => e.bare.Derived .unary (m + 1) ts := by
  refine .advance_bind (by rcases hk with rfl | rfl <;> decide) fun t => .pure ?_
  rintro rfl
  exact ⟨.boolean ⟨t, hk⟩, rfl, rfl, Nat.le_add_left 1 m⟩

/-- Every operand has a derivation at the tightest level. -/
theorem reads_operand : Reads (operand sub) fun ts e => e.bare.Derived .unary (m + 1) ts := by
  refine .peek_bind fun token => ?_
  split <;> rename_i hk
  · rw [hk]
    refine .advance_bind (by decide) fun t => .pure fun ht => ?_
    exact ⟨.integer ⟨t, ht⟩, rfl, rfl, Nat.le_add_left 1 m⟩
  · exact reads_truth (.inl hk)
  · exact reads_truth (.inr hk)
  · rw [hk]
    refine .advance_bind (by decide) fun t => .check_bind (reads_callOf hsub t) (.pure fun ht => ?_)
    exact ⟨.var ⟨t, ht⟩, rfl, rfl, Nat.le_add_left 1 m⟩
  · exact reads_sign hsub (.inl hk)
  · exact reads_sign hsub (.inr hk)
  · rw [hk]
    refine .advance_bind (by decide) fun lp =>
      (reads_wholeExpression hsub (by decide)).bind fun e =>
        reads_closeParen.bind fun rp => .pure ?_
    rintro _ ⟨hrp, rfl⟩ _ ⟨d, rfl, htree, hlevels⟩ hlp
    refine ⟨.group ⟨lp, hlp⟩ d ⟨rp, hrp⟩, ?_, htree, Nat.succ_le_succ hlevels⟩
    simp [ExprDeriv.yield]
  · exact .throw _

end

/-! ## The loop over the operators -/

theorem operators_stop (hs : ¬ least ≤ (nextKind s.rest).precedence) (n : Nat) (left : Expr) :
    operators sub least n left s = .ok left s := by
  cases n with
  | zero => rfl
  | succ n =>
    simp only [operators, bind, EStateM.bind, peek_run, Cursor.kind_peek, if_neg hs]
    rfl

theorem operators_step (sub : Precedence → Parser Expr) (hs : s.rest = t :: r) (ht : t.kind ≠ .eof)
    (hleast : least ≤ t.kind.precedence) (n : Nat) (left : Expr) :
    ∃ s', s.Takes [t] s' ∧ operators sub least (n + 1) left s = (do
      let right ← sub t.kind.precedence.tighter
      operators sub least n
        (.binary left t.lexeme right ⟨left.span.start, right.span.finish⟩)) s' := by
  obtain ⟨s', hadv, htakes⟩ := advance_cons hs ht
  refine ⟨s', htakes, ?_⟩
  have hle : least ≤ (nextKind s.rest).precedence := by rwa [hs]
  simp only [operators, bind, EStateM.bind, peek_run, Cursor.kind_peek, if_pos hle, hadv]

/-- What the loop does: it stops in front of a token that is no operator of the level, or it takes
an operator and its right operand and goes on. -/
theorem operators_cases (hp : least ≠ .none)
    (h : operators sub least (n + 1) left s = .ok e s') :
    ¬ least ≤ (nextKind s.rest).precedence ∧ e = left ∧ s' = s ∨
      ∃ t right s₁ s₂, least ≤ t.kind.precedence ∧ nextKind s.rest = t.kind ∧ s.Takes [t] s₁ ∧
        sub t.kind.precedence.tighter s₁ = .ok right s₂ ∧
        operators sub least n
          (.binary left t.lexeme right ⟨left.span.start, right.span.finish⟩) s₂ =
          .ok e s' := by
  by_cases hs : least ≤ (nextKind s.rest).precedence
  · obtain ⟨t, r, hrest, ht, hle⟩ := exists_cons_of_le hp hs
    obtain ⟨s₁, htakes, heq⟩ := operators_step sub hrest ht hle n left
    obtain ⟨right, s₂, hsub, hloop⟩ := bind_eq_ok.mp (heq ▸ h)
    exact .inr ⟨t, right, s₁, s₂, hle, by rw [hrest]; rfl, htakes, hsub, hloop⟩
  · rw [operators_stop hs] at h
    cases h
    exact .inl ⟨hs, rfl, rfl⟩

/-- With enough rounds the loop only stops where no operator of the level follows. -/
theorem operators_ends (hsub : ∀ p, (sub p).Steady) (hp : least ≠ .none)
    (h : operators sub least n left s = .ok e s') (hn : s.rest.length < n) :
    ¬ least ≤ (nextKind s'.rest).precedence := by
  induction n generalizing left s with
  | zero => omega
  | succ n ih =>
    rcases operators_cases hp h with ⟨hs, -, rfl⟩ | ⟨t, right, s₁, s₂, -, -, htakes, hright, hloop⟩
    · exact hs
    · refine ih hloop ?_
      have h₁ : s.rest.length = s₁.rest.length + 1 := by simp [htakes.rest]
      have h₂ := ((hsub _).ok hright).length_le
      omega

/-- The loop's invariant: the left operand is derived at a level `k`, and the operator behind it
binds no tighter than `k`. So the operand can be loosened to the operator's level and taken up
there, which is then the level of the new left operand. -/
theorem derived_operators (hsteady : ∀ p, (sub p).Steady)
    (hsub : ∀ p, p ≠ .none → Reads (sub p) fun ts e => e.bare.Derived p m ts)
    (hends : ∀ {p s e s'}, p ≠ .none → sub p s = .ok e s' → ¬ p ≤ (nextKind s'.rest).precedence)
    (hp : least ≠ .none) (h : operators sub least n left s = .ok e s')
    (he : s'.errors = s.errors) {l : ExprDeriv k} (hk : least ≤ k)
    (hnext : (nextKind s.rest).precedence ≤ k) (htree : l.tree = left.bare)
    (hlevels : l.levels ≤ m + 1) :
    ∃ ts, s.Takes ts s' ∧ e.bare.Derived least (m + 1) (l.yield ++ ts) := by
  induction n generalizing k left s with
  | zero =>
    obtain ⟨rfl, rfl⟩ := pure_eq_ok.mp h
    exact ⟨[], .refl _, by simpa [htree] using l.derived_loosen hp hk hlevels⟩
  | succ n ih =>
    rcases operators_cases hp h with
      ⟨-, rfl, rfl⟩ | ⟨t, right, s₁, s₂, hle, hkind, htakes, hright, hloop⟩
    · exact ⟨[], .refl _, by simpa [htree] using l.derived_loosen hp hk hlevels⟩
    · have hb := TokenKind.isBinary_of_le hp hle
      obtain ⟨he₂, he'⟩ := ((hsteady _).ok hright).errors_eq
        ((steady_operators hsteady _ _ _).ok hloop) (he.trans htakes.errors.symm)
      obtain ⟨l', hyield, htree', hlevels'⟩ := l.exists_loosen hb.1 (hkind ▸ hnext)
      obtain ⟨ts, htakes', r, rfl, hr, hrlevels⟩ :=
        (hsub _ t.kind.precedence.tighter_ne_none).takes hright he₂
      have hnext' : (nextKind s₂.rest).precedence ≤ t.kind.precedence :=
        Precedence.le_of_not_tighter_le hb (hends t.kind.precedence.tighter_ne_none hright)
      obtain ⟨us, hus, hd⟩ := ih hloop he' (l := .binary hb l' ⟨t, rfl⟩ r) hle hnext'
        (by simp [ExprDeriv.tree, Expr.bare, htree', htree, hr])
        (by simp only [ExprDeriv.levels]; omega)
      refine ⟨t :: (r.yield ++ us), htakes.trans (htakes'.trans hus), ?_⟩
      simpa [ExprDeriv.yield, hyield] using hd

end

/-- An operand and the operators behind it. -/
def spine (sub : Precedence → Parser Expr) (least : Precedence) : Parser Expr := do
  let left ← operand sub
  operators sub least ((← remaining) + 1) left

theorem spine_eq_ok : spine sub p s = .ok e s' ↔ ∃ left s₁, operand sub s = .ok left s₁ ∧
    operators sub p (s₁.rest.length + 1) left s₁ = .ok e s' :=
  bind_eq_ok

theorem steady_spine (hsub : ∀ p, (sub p).Steady) (p : Precedence) : (spine sub p).Steady :=
  (steady_operand hsub).bind fun _ => steady_remaining.bind fun _ => steady_operators hsub _ _ _

theorem climb_ends (hp : p ≠ .none) (h : climb m p s = .ok e s') :
    ¬ p ≤ (nextKind s'.rest).precedence := by
  cases m with
  | zero =>
    exfalso
    revert h
    simp only [climb, bind, EStateM.bind, peek_run]
    split <;> exact nofun
  | succ m =>
    obtain ⟨s₁, hspine, rfl⟩ := nested_eq_ok.mp h
    obtain ⟨left, s₂, -, hloop⟩ := spine_eq_ok.mp hspine
    have hend := operators_ends (steady_climb m) hp hloop (Nat.lt_succ_self _)
    exact hend

/-- What climbing reads has a derivation at its level, within the levels that it may open. -/
theorem reads_climb (m : Nat) (hp : p ≠ .none) :
    Reads (climb m p) fun ts e => e.bare.Derived p m ts := by
  induction m generalizing p with
  | zero => exact Reads.look.bind fun _ => .ite (fun _ => .throw _) fun _ => .throw _
  | succ m ih =>
    refine Reads.nested ⟨steady_spine (steady_climb m) p, fun {s e s'} h he => ?_⟩
    obtain ⟨left, s₁, hleft, hloop⟩ := spine_eq_ok.mp h
    obtain ⟨he₁, he'⟩ := ((steady_operand (steady_climb m)).ok hleft).errors_eq
      ((steady_operators (steady_climb m) _ _ _).ok hloop) he
    obtain ⟨ts, hts, l, rfl, htree, hlevels⟩ := (reads_operand fun _ => ih).takes hleft he₁
    have hnext : (nextKind s₁.rest).precedence ≤ .unary :=
      Nat.le_of_lt (nextKind s₁.rest).rank_precedence_lt
    obtain ⟨us, hus, hd⟩ := derived_operators (steady_climb m) (fun _ => ih) climb_ends hp hloop he'
      p.rank_le hnext htree hlevels
    exact ⟨l.yield ++ us, hts.trans hus, hd⟩

end Parser

/-! ## What is derived is read -/

/-- No name at the end of `ts` is called by a parenthesis at the start of `r`. -/
def Apart (ts r : List Token) : Prop :=
  nextKind r = .leftParen → ∀ t ∈ ts.getLast?, t.kind ≠ .identifier

theorem Apart.of_ne (h : nextKind r ≠ .leftParen) : Apart ts r := fun h' => absurd h' h

theorem Apart.of_append (h : Apart (ts ++ us) r) : Apart us r := by
  intro hr t ht
  refine h hr t ?_
  rw [List.getLast?_append, Option.mem_def.mp ht]
  rfl

/-- What ends an argument does not go on with it. -/
theorem not_le_of_mem_itemEnds (h : k ∈ Parser.itemEnds) :
    ¬ Precedence.or ≤ k.precedence ∧ k ≠ .leftParen := by
  have hall : ∀ k ∈ Parser.itemEnds, ¬ Precedence.or ≤ k.precedence ∧ k ≠ .leftParen := by decide
  exact hall k h

theorem Apart.of_cons (h : Apart (t :: ts) r) : Apart ts r :=
  of_append (show Apart ([t] ++ ts) r from h)

section
open Parser

variable {sub : Precedence → Parser Expr} {m : Nat}
variable (hsub : ∀ {q r k} (d : ExprDeriv q), d.levels ≤ m → ¬ q ≤ (nextKind r).precedence →
  Apart d.yield r → Accepts k (sub q) d.yield r (· = d.located))
include hsub

theorem accepts_wholeExpression {d : ExprDeriv q} (hm : d.levels ≤ m)
    (hr : ¬ q ≤ (nextKind r).precedence) (ha : Apart d.yield r) :
    Accepts k (wholeExpression sub q) d.yield r (· = d.located) :=
  .visit_bind (hsub d hm hr ha)

theorem ArgsDeriv.accepts (args : ArgsDeriv) (hm : args.levels ≤ m)
    (hr : nextKind r = .rightParen) :
    Accepts k (Parser.items (wholeExpression sub .or)) args.yield r (· = args.located) := by
  refine (args.items hm).accepts ?_ ?_ hr
  · rintro ts b r ⟨d, rfl, rfl, hd⟩ hr
    obtain ⟨hle, hne⟩ := not_le_of_mem_itemEnds hr
    exact accepts_wholeExpression hsub hd hle (.of_ne hne)
  · rintro ts b r ⟨d, rfl, rfl, hd⟩ h
    have hstart := d.nextKind_yield r
    rw [h] at hstart
    exact absurd hstart (by decide)

theorem ExprDeriv.accepts_operand (d : ExprDeriv .unary) (hm : d.levels ≤ m + 1)
    (ha : Apart d.yield r) : Accepts k (operand sub) d.yield r (· = d.located) := by
  have hunary (k : TokenKind) : ¬ Precedence.unary ≤ k.precedence :=
    Nat.not_le.mpr k.rank_precedence_lt
  cases d with
  | tighter hp => exact absurd rfl hp.2
  | binary hp => exact absurd rfl hp.2
  | unary op e =>
    have he : Accepts k (sub .unary) e.yield r (· = e.located) :=
      hsub e (Nat.le_of_succ_le_succ hm) (hunary _) ha.of_cons
    refine .peek_bind ?_
    rcases op.property with h | h
    all_goals
      rw [h]
      exact .advance_bind (by simp [h]) <| he.bind_pure fun a ha => by rw [ha, ExprDeriv.located]
  | integer t =>
    refine .peek_bind ?_
    rw [t.property]
    exact .advance_bind (by simp [t.property]) (.pure rfl)
  | boolean t =>
    refine .peek_bind ?_
    rcases t.property with h | h
    all_goals
      rw [h]
      exact .advance_bind (by simp [h]) (.pure rfl)
  | var t =>
    refine .peek_bind ?_
    rw [t.property]
    refine .advance_bind (by simp [t.property]) <| .check_bind ?_
    have hr : nextKind r ≠ .leftParen := fun h => ha h t.val rfl t.property
    simp only [List.nil_append, hr, decide_false]
    exact .pure rfl
  | call t lp args rp =>
    refine .peek_bind ?_
    rw [t.property]
    refine .advance_bind (by simp [t.property]) <| .check_bind ?_
    simp only [List.cons_append, nextKind_cons, lp.property, decide_true]
    have hargs := args.accepts (r := rp.val :: r) (k := k) hsub (Nat.le_of_succ_le_succ hm)
      rp.property
    refine .visit_bind <| .advance_bind (by simp [lp.property]) <| hargs.bind fun as has =>
      .closeParen_bind rp <| .pure ?_
    rw [has, ExprDeriv.located]
  | group lp e rp =>
    refine .peek_bind ?_
    rw [lp.property]
    have he : Accepts k (wholeExpression sub .or) e.yield (rp.val :: r) (· = e.located) :=
      accepts_wholeExpression hsub (Nat.le_of_succ_le_succ hm) (by simp [rp.property]; decide)
        (.of_ne (by simp [rp.property]))
    exact .advance_bind (by simp [lp.property]) <| he.bind fun a ha =>
      .closeParen_bind rp (.pure ha)

omit hsub in
theorem spine_of_operand {s : ParserState} {P : Expr → Prop}
    (hx : Accepts s.depth (operand sub) ts r P) (hs : s.rest = ts ++ r) :
    ∃ e s' n, spine sub least s = operators sub least n e s' ∧ s.Takes ts s' ∧ P e ∧
      s'.rest.length < n := by
  obtain ⟨e, s', hok, htakes, he⟩ := hx s hs rfl
  refine ⟨e, s', s'.rest.length + 1, ?_, htakes, he, Nat.lt_succ_self _⟩
  simp only [spine, bind, EStateM.bind, hok]
  rfl

/-- Reading a spine takes a whole derivation whose level is one of the loop's, and leaves the loop
in front of what follows. -/
theorem ExprDeriv.spine_eq (hp : least ≠ .none) (d : ExprDeriv p) (hle : least ≤ p)
    (hm : d.levels ≤ m + 1) (hr : (nextKind r).precedence ≤ p) (ha : Apart d.yield r)
    (hs : s.rest = d.yield ++ r) :
    ∃ e s' n, spine sub least s = operators sub least n e s' ∧ s.Takes d.yield s' ∧
      e = d.located ∧ s'.rest.length < n := by
  rw [Precedence.le_iff] at hle hr
  match d with
  | .tighter hb e =>
    have hrank := Precedence.rank_tighter hb
    exact e.spine_eq hp (by rw [Precedence.le_iff]; omega) hm (by rw [Precedence.le_iff]; omega)
      ha hs
  | .binary hb l op e =>
    obtain ⟨hl, he⟩ := Nat.max_le.mp hm
    have hrank := Precedence.rank_tighter hb
    have hop {k : TokenKind} (hk : k.precedence = .none) : op.val.kind ≠ k :=
      fun h => hb.1 (by rw [← op.property, h, hk])
    obtain ⟨left, s₁, n, heq, htakes, hleft, hn⟩ :=
      l.spine_eq (r := op.val :: (e.yield ++ r)) hp hle hl
        (by rw [nextKind_cons, op.property]; exact Nat.le_refl _) (.of_ne (hop rfl))
        (by simpa [ExprDeriv.yield] using hs)
    have hs₁ : s₁.rest = op.val :: (e.yield ++ r) :=
      htakes.rest_eq (by simpa [ExprDeriv.yield] using hs)
    obtain ⟨n, rfl⟩ : ∃ n', n = n' + 1 := Nat.exists_eq_succ_of_ne_zero (by omega)
    obtain ⟨s₂, htakes₂, hstep⟩ := operators_step sub hs₁ (hop rfl)
      (by rw [op.property]; exact hle) n left
    rw [op.property] at hstep
    obtain ⟨right, s₃, hok, htakes₃, hright⟩ := hsub e (Nat.le_of_succ_le_succ he)
      (by rw [Precedence.le_iff]; omega) ha.of_append.of_cons s₂
      (htakes₂.rest_eq hs₁) rfl
    refine ⟨.binary left op.val.lexeme right ⟨left.span.start, right.span.finish⟩, s₃, n,
      heq.trans (hstep.trans ?_), htakes.trans (htakes₂.trans htakes₃), ?_, ?_⟩
    · simp only [bind, EStateM.bind, hok]
    · rw [hleft, hright, ExprDeriv.located]
    · have h₂ : s₁.rest.length = s₂.rest.length + 1 := by simp [htakes₂.rest]
      have h₃ := htakes₃.length_le
      omega
  | .unary .. | .integer _ | .boolean _ | .var _ | .call .. | .group .. =>
    exact spine_of_operand (ExprDeriv.accepts_operand hsub _ hm ha) hs

end

/-- What is derived is read, unless what follows goes on with it. -/
theorem ExprDeriv.accepts (d : ExprDeriv p) (hm : d.levels ≤ m)
    (hr : ¬ p ≤ (nextKind r).precedence) (ha : Apart d.yield r) :
    Parser.Accepts k (Parser.climb m p) d.yield r (· = d.located) := by
  induction m generalizing p r k with
  | zero => exact absurd hm (Nat.not_le.mpr d.levels_pos)
  | succ m ih =>
    refine .nested fun s hs hd => ?_
    have hr' : (nextKind r).precedence ≤ p := Precedence.le_of_not_le hr
    obtain ⟨e, s', n, heq, htakes, he, -⟩ :=
      d.spine_eq ih d.ne_none (Nat.le_refl _) hm hr' ha hs
    refine ⟨e, s', heq.trans (Parser.operators_stop ?_ n e), htakes, he⟩
    rwa [htakes.rest_eq hs]

end BracketLang
