import BracketLang.Proofs.Grammar.Prediction

/-! Precedence climbing blames the first token that fits no expression (`predicts_expression`). The
loop over the operators is where this is not plain: the phrases that it reads on are those that make
an expression together with the operand before them. That an operator and its right operand can be
read off such a phrase, whatever tree it is part of, is `ExprDeriv.exists_right_operand`. -/

namespace BracketLang

/-! ## Derivations seen from the left -/

/-- A kind that goes on with no expression of level `p`, and calls no name at its end. -/
def TokenKind.Ends (p : Precedence) (k : TokenKind) : Prop :=
  ¬ p ≤ k.precedence ∧ k ≠ .leftParen

instance (p : Precedence) (k : TokenKind) : Decidable (k.Ends p) :=
  inferInstanceAs (Decidable (_ ∧ _))

open TokenKind (Ends)

theorem OperatorTerminal.ne_leftParen (hp : p.IsBinary) (op : OperatorTerminal p) :
    op.val.kind ≠ .leftParen := by
  intro h
  exact hp.1 (op.property.symm.trans (congrArg TokenKind.precedence h))

theorem ends_linksYield (hp : p.IsBinary)
    (links : List (OperatorTerminal p × ExprDeriv p.tighter))
    (hle : (nextKind r).precedence ≤ p) (hne : nextKind r ≠ .leftParen) :
    Ends p.tighter (nextKind (linksYield links ++ r)) := by
  refine ⟨not_le_linksYield hp links hle, ?_⟩
  cases links with
  | nil => exact hne
  | cons q links => exact q.1.ne_leftParen hp

/-- Two chains that begin with the same tokens begin with the same operand. -/
theorem ExprDeriv.splits_chain (hp : p.IsBinary) (first first' : ExprDeriv p.tighter)
    {links links' : List (OperatorTerminal p × ExprDeriv p.tighter)}
    (h : first.yield ++ (linksYield links ++ r) = first'.yield ++ (linksYield links' ++ r'))
    (hr : (nextKind r).precedence ≤ p ∧ nextKind r ≠ .leftParen)
    (hr' : (nextKind r').precedence ≤ p ∧ nextKind r' ≠ .leftParen) :
    first = first' ∧ linksYield links ++ r = linksYield links' ++ r' := by
  obtain ⟨hle, hne⟩ := ends_linksYield hp links hr.1 hr.2
  obtain ⟨hle', hne'⟩ := ends_linksYield hp links' hr'.1 hr'.2
  exact first.splits first' h hle hle' (.of_ne hne) (.of_ne hne')

/-- Of two chains one of which goes on with an operator where the other ends, the longer one has
that operator's right operand. -/
theorem exists_link (hp : p.IsBinary) (op : OperatorTerminal p)
    (links links' : List (OperatorTerminal p × ExprDeriv p.tighter))
    (h : linksYield links ++ r = linksYield links' ++ op.val :: z) (hr : Ends p (nextKind r)) :
    ∃ e : ExprDeriv p.tighter, ∃ us, z = e.yield ++ (us ++ r) ∧
      Ends p.tighter (nextKind (us ++ r)) := by
  have hop (op : OperatorTerminal p) : op.val.kind.precedence ≤ p ∧ op.val.kind ≠ .leftParen :=
    ⟨by rw [op.property]; exact Nat.le_refl _, op.ne_leftParen hp⟩
  have hend (op : OperatorTerminal p) : nextKind r ≠ op.val.kind := by
    intro heq
    rw [heq, Ends, op.property] at hr
    exact hr.1 (Nat.le_refl _)
  have hle := Precedence.le_of_not_le hr.1
  induction links' generalizing links with
  | nil =>
    cases links with
    | nil => exact absurd (congrArg nextKind h) (hend op)
    | cons q links =>
      simp only [linksYield, List.flatMap_cons, List.flatMap_nil, List.cons_append,
        List.append_assoc, List.nil_append, List.cons.injEq] at h
      exact ⟨q.2, linksYield links, h.2.symm, ends_linksYield hp links hle hr.2⟩
  | cons q' links' ih =>
    cases links with
    | nil => exact absurd (congrArg nextKind h) (hend q'.1)
    | cons q links =>
      simp only [linksYield, List.flatMap_cons, List.cons_append, List.append_assoc,
        List.cons.injEq] at h
      obtain ⟨-, hlinks⟩ := q.2.splits_chain hp q'.2 h.2 ⟨hle, hr.2⟩ (hop op)
      exact ih links hlinks

/-- If tokens derive an expression of level `least` and begin with one followed by an operator of
level `q`, then a right operand of the operator comes next. -/
theorem ExprDeriv.exists_right_operand (hq : q.IsBinary) {l : ExprDeriv k} (hqk : q ≤ k)
    (op : OperatorTerminal q) (hleast : least ≠ .none) (hle : least ≤ q) {d : ExprDeriv least}
    (h : d.yield ++ r = l.yield ++ op.val :: z) (hr : Ends least (nextKind r)) :
    ∃ e : ExprDeriv q.tighter, ∃ us, z = e.yield ++ (us ++ r) ∧
      Ends q.tighter (nextKind (us ++ r)) := by
  rw [Precedence.le_iff] at hle
  generalize hn : q.rank - least.rank = n
  -- from the level of the operator down to the loosest: a looser one starts with a tighter one
  induction n generalizing least r with
  | zero =>
    obtain rfl := Precedence.eq_of_rank_eq (Nat.le_antisymm hle (Nat.sub_eq_zero_iff_le.mp hn))
    obtain ⟨l', hl', -⟩ := l.exists_loosen hleast hqk
    obtain ⟨first, links, rfl⟩ := exists_chain hq d
    obtain ⟨first', links', rfl⟩ := exists_chain hq l'
    rw [← hl', yield_ofChain, yield_ofChain, List.append_assoc, List.append_assoc] at h
    obtain ⟨-, hlinks⟩ := first.splits_chain hq first' h ⟨Precedence.le_of_not_le hr.1, hr.2⟩
      ⟨by rw [nextKind_cons, op.property]; exact Nat.le_refl _, op.ne_leftParen hq⟩
    exact exists_link hq op links links' hlinks hr
  | succ n ih =>
    have hb : least.IsBinary :=
      Precedence.isBinary_iff.mpr ⟨Precedence.rank_pos hleast, by have := q.rank_le; omega⟩
    have hrank := Precedence.rank_tighter hb
    obtain ⟨first, links, rfl⟩ := exists_chain hb d
    rw [yield_ofChain, List.append_assoc] at h
    obtain ⟨e, us, rfl, hends⟩ := ih least.tighter_ne_none (by omega) h
      (ends_linksYield hb links (Precedence.le_of_not_le hr.1) hr.2) (by omega)
    exact ⟨e, us ++ linksYield links, by simp, by simpa using hends⟩

/-- Every expression begins with an operand, which no call follows. -/
theorem ExprDeriv.exists_operand : (d : ExprDeriv p) → ∃ u : ExprDeriv .unary, ∃ us,
    d.yield = u.yield ++ us ∧ ∀ r, nextKind r ≠ .leftParen → nextKind (us ++ r) ≠ .leftParen
  | .tighter _ e => e.exists_operand
  | .binary hp l op e => by
    obtain ⟨u, us, hus, hne⟩ := l.exists_operand
    refine ⟨u, us ++ op.val :: e.yield, by simp [yield, hus], fun r _ => ?_⟩
    rw [List.append_assoc]
    exact hne _ (op.ne_leftParen hp)
  | .unary op e => ⟨.unary op e, [], by simp, fun _ h => h⟩
  | .integer t => ⟨.integer t, [], by simp, fun _ h => h⟩
  | .boolean t => ⟨.boolean t, [], by simp, fun _ h => h⟩
  | .var t => ⟨.var t, [], by simp, fun _ h => h⟩
  | .call t lp args rp => ⟨.call t lp args rp, [], by simp, fun _ h => h⟩
  | .group lp e rp => ⟨.group lp e rp, [], by simp, fun _ h => h⟩

/-! ## Names at the end -/

/-- The token taken last is not a name that the next token calls. -/
def Cursor.Settled (c : Cursor) : Prop :=
  nextKind c.rest = .leftParen → ∀ t ∈ c.before.head?, t.kind ≠ .identifier

theorem Apart.append (h : Apart us r) (hus : us ≠ []) : Apart (ts ++ us) r := by
  intro hr t ht
  refine h hr t ?_
  rw [List.getLast?_append, List.getLast?_eq_some_getLast hus, Option.some_or] at ht
  rwa [List.getLast?_eq_some_getLast hus]

namespace ParserState.Takes

variable {s s' : ParserState}

theorem settled (h : s.Takes [t] s') (ht : t.kind ≠ .identifier) : s'.Settled := by
  rintro - u hu
  rw [h.before] at hu
  cases hu
  exact ht

theorem apart (h : s.Takes ts s') (hs : s'.Settled) : Apart ts s'.rest := by
  intro hr t ht
  refine hs hr t ?_
  rw [h.before, List.head?_append, List.head?_reverse, Option.mem_def.mp ht]
  rfl

end ParserState.Takes

namespace Parser

open ParserState

variable {α β : Type} {x : Parser α} {f : α → Parser β} {s s' : ParserState}

/-- No name is left to be called where the parser gives a result. -/
def Settles (x : Parser α) (s : ParserState) : Prop :=
  ∀ a s', x s = .ok a s' → s'.Settled

namespace Settles

theorem bind (hf : ∀ a s', Settles (f a) s') : Settles (x >>= f) s := by
  intro b s' h
  obtain ⟨a, s₁, -, h⟩ := bind_eq_ok.mp h
  exact hf a s₁ b s' h

theorem bind_pure {g : α → β} (hx : Settles x s) : Settles (do return g (← x)) s := by
  intro b s' h
  obtain ⟨a, s₁, hok, h⟩ := bind_eq_ok.mp h
  obtain ⟨-, rfl⟩ := pure_eq_ok.mp h
  exact hx a _ hok

theorem look_bind {g : ParserState → α} (hf : Settles (f (g s)) s) :
    Settles ((fun s => .ok (g s) s : Parser α) >>= f) s := fun a s' h => hf a s' h

theorem advance (hs : nextKind s.rest = k) (hk : k ≠ .eof) (hne : k ≠ .identifier) :
    Settles advance s := by
  intro t s' h
  obtain ⟨t, r, hrest, rfl⟩ := exists_cons_of_nextKind hs hk
  obtain ⟨s₁, hadv, htakes⟩ := advance_cons hrest hk
  cases hadv.symm.trans h
  exact htakes.settled hne

theorem closeParen (s : ParserState) : Settles closeParen s := by
  intro t s' h
  obtain ⟨hkind, htakes⟩ := eq_of_consume (by decide) (closeParen_eq_ok.mp h)
  exact htakes.settled (by simp [hkind])

end Settles

section
variable {sub : Precedence → Parser Expr} (hsub : ∀ p s, p ≠ .none → Settles (sub p) s)
include hsub

theorem settles_operand (s : ParserState) : Settles (operand sub) s := by
  refine .look_bind ?_
  have hkind := s.kind_peek
  generalize s.peek = token at hkind
  split
  · next hk => exact .bind_pure (.advance (hkind.symm.trans hk) (by decide) (by decide))
  · next hk => exact .bind_pure (.advance (hkind.symm.trans hk) (by decide) (by decide))
  · next hk => exact .bind_pure (.advance (hkind.symm.trans hk) (by decide) (by decide))
  · refine .bind fun name s' => .look_bind ?_
    rw [Cursor.check_eq]
    by_cases hparen : nextKind s'.rest = .leftParen
    · rw [if_pos (decide_eq_true hparen)]
      exact .bind fun _ _ => .bind fun _ _ => .bind fun _ s' => .bind_pure (.closeParen s')
    · rw [if_neg (by simpa using hparen)]
      rintro _ _ ⟨⟩ h
      exact absurd h hparen
  · exact .bind fun _ s' => .bind_pure (hsub .unary s' (by decide))
  · exact .bind fun _ s' => .bind_pure (hsub .unary s' (by decide))
  · exact .bind fun _ _ => .bind fun _ s' => .bind_pure (.closeParen s')
  · exact nofun

theorem settled_of_operators (hp : least ≠ .none) (hs : s.Settled)
    (h : operators sub least n left s = .ok e s') : s'.Settled := by
  induction n generalizing left s with
  | zero =>
    obtain ⟨-, rfl⟩ := pure_eq_ok.mp h
    exact hs
  | succ n ih =>
    rcases operators_cases hp h with ⟨-, -, rfl⟩ | ⟨t, right, s₁, s₂, -, -, -, hright, hloop⟩
    · exact hs
    · exact ih (hsub _ _ t.kind.precedence.tighter_ne_none _ _ hright) hloop

end

theorem settles_climb (m : Nat) (hp : p ≠ .none) (s : ParserState) : Settles (climb m p) s := by
  induction m generalizing p s with
  | zero =>
    refine .look_bind ?_
    split <;> exact nofun
  | succ m ih =>
    intro e s' h
    obtain ⟨s₁, hspine, rfl⟩ := nested_eq_ok.mp h
    obtain ⟨left, s₂, hleft, hloop⟩ := spine_eq_ok.mp hspine
    have hs₁ := settled_of_operators (fun p s hp => ih hp s) hp
      (settles_operand (fun p s hp => ih hp s) _ _ _ hleft) hloop
    exact hs₁

end Parser

/-! ## Operands -/

/-- The tokens of expressions of a level. -/
def ExprDeriv.phrase (p : Precedence) : Phrase := fun ts => ∃ d : ExprDeriv p, d.yield = ts

theorem ExprDeriv.nonempty_phrase (hp : p ≠ .none) : ∃ ts, phrase p ts := by
  obtain ⟨d, -⟩ := (integer ⟨⟨.integer, "", none, .origin⟩, rfl⟩).exists_loosen hp p.rank_le
  exact ⟨d.yield, d, rfl⟩

/-- No expression begins with a token that starts none. -/
theorem ExprDeriv.nextKind_phrase_ne (hk : k ∉ TokenKind.expressionStarts) (h : phrase p us) :
    nextKind (us ++ r) ≠ k := by
  obtain ⟨d, rfl⟩ := h
  exact fun hd => hk (hd ▸ d.nextKind_yield r)

/-- The tokens of arguments. -/
def ArgsDeriv.phrase : Phrase := fun ts => ∃ d : ArgsDeriv, d.yield = ts

theorem MoreArgsDeriv.more_phrase (more : MoreArgsDeriv) :
    (ExprDeriv.phrase .or).more more.yield := by
  refine Phrase.more_of_moreItems (more.moreItems (Nat.le_refl _)) ?_
  rintro _ _ ⟨e, rfl, -⟩
  exact ⟨e, rfl⟩

theorem MoreArgsDeriv.of_more (h : (ExprDeriv.phrase .or).more ts) :
    ∃ more : MoreArgsDeriv, more.yield = ts := by
  induction h with
  | nil => exact ⟨.nil, rfl⟩
  | @cons comma ts us hcomma h _ ih =>
    obtain ⟨e, rfl⟩ := h
    obtain ⟨more, rfl⟩ := ih
    exact ⟨.cons ⟨comma, hcomma⟩ e more, rfl⟩

theorem ArgsDeriv.phrase_eq_items : phrase = (ExprDeriv.phrase .or).items := by
  funext ts
  refine propext ⟨?_, ?_⟩
  · rintro ⟨_ | ⟨e, more⟩, rfl⟩
    · exact .inl rfl
    · exact .inr ⟨e.yield, more.yield, ⟨e, rfl⟩, more.more_phrase, rfl⟩
  · rintro (rfl | ⟨_, us, ⟨e, rfl⟩, hmore, rfl⟩)
    · exact ⟨.none, rfl⟩
    · obtain ⟨more, rfl⟩ := MoreArgsDeriv.of_more hmore
      exact ⟨.some e more, rfl⟩

namespace Parser

open ParserState Phrase

section
variable {sub : Precedence → Parser Expr} {F : TokenKind → Prop} {c : Cursor}
variable (hsteady : ∀ p, (sub p).Steady)
  (hsub : ∀ p c, p ≠ .none → PredictsAt c (sub p) (ExprDeriv.phrase p) (Ends p))

theorem ends_of_mem_itemEnds (k : TokenKind) (hk : k ∈ itemEnds) : Ends .or k :=
  not_le_of_mem_itemEnds hk

theorem ends_unary_iff : Ends .unary k ↔ k ≠ .leftParen :=
  and_iff_right (Nat.not_le.mpr k.rank_precedence_lt)

section
include hsub

theorem predicts_wholeExpression (hp : p ≠ .none) (n : Nat) :
    Predicts n (wholeExpression sub p) (ExprDeriv.phrase p) (Ends p) :=
  fun c _ => (hsub p c hp).visit_bind

theorem predicts_args (n : Nat) :
    Predicts n (items (wholeExpression sub .or)) ArgsDeriv.phrase (· = .rightParen) := by
  rw [ArgsDeriv.phrase_eq_items]
  exact (predicts_wholeExpression hsub (by decide) n).items ends_of_mem_itemEnds fun us r =>
    ExprDeriv.nextKind_phrase_ne (by decide)

/-- The phrases that call a name, from the parenthesis on. -/
def callPhrase : Phrase := (token .leftParen).andThen (ArgsDeriv.phrase.andThen (token .rightParen))

theorem predicts_callOf (hc : nextKind c.rest = .leftParen) (name : Token) :
    PredictsAt c (callOf sub name) callPhrase F := by
  refine .visit_bind <| .advance_bind hc (by rw [hc]; decide) fun _ => ?_
  refine (predicts_args hsub _).bind (fun _ _ _ c _ => (PredictsAt.closeParen c).bind_pure) ?_
  exact fun us r hus _ => nextKind_token hus

omit hsub in
theorem predicts_integer (hc : nextKind c.rest = .integer) :
    PredictsAt c (do
      let token ← advance
      return Expr.integer token.value (.point token.location))
    (ExprDeriv.phrase .unary) F := by
  have hadv : PredictsAt c advance (token .integer) F := .advance hc (by rw [hc]; decide)
  refine hadv.bind_pure.restrict ?_ ?_
  · rintro _ ⟨t, ht, rfl⟩
    exact ⟨.integer ⟨t, ht⟩, rfl⟩
  · rintro _ r ⟨d, rfl⟩ - hnext
    rw [hc] at hnext
    cases d with
    | tighter hp | binary hp => exact absurd rfl hp.2
    | integer t => exact ⟨t.val, t.property, rfl⟩
    | _ => exact absurd hnext (by grind [ExprDeriv.yield, nextKind])

omit hsub in
theorem predicts_truth (hc : nextKind c.rest = .trueWord ∨ nextKind c.rest = .falseWord) :
    PredictsAt c (do
      let token ← advance
      return Expr.boolean (token.kind = .trueWord) (.point token.location))
    (ExprDeriv.phrase .unary) F := by
  have hne : nextKind c.rest ≠ .eof := by rcases hc with hc | hc <;> rw [hc] <;> decide
  have hadv : PredictsAt c advance (oneOf fun k => k = .trueWord ∨ k = .falseWord) F :=
    .advance hc hne
  refine hadv.bind_pure.restrict ?_ ?_
  · rintro _ ⟨t, ht, rfl⟩
    exact ⟨.boolean ⟨t, ht⟩, rfl⟩
  · rintro _ r ⟨d, rfl⟩ - hnext
    rw [← hnext] at hc
    cases d with
    | tighter hp | binary hp => exact absurd rfl hp.2
    | boolean t => exact ⟨t.val, t.property, rfl⟩
    | _ => exact absurd hc (by grind [ExprDeriv.yield, nextKind])

theorem predicts_sign (hc : nextKind c.rest = .minus ∨ nextKind c.rest = .not) :
    PredictsAt c (do
      let token ← advance
      let e ← sub .unary
      return Expr.unary token.lexeme e ⟨token.location, e.span.finish⟩)
    (ExprDeriv.phrase .unary) (Ends .unary) := by
  have hne : nextKind c.rest ≠ .eof := by rcases hc with hc | hc <;> rw [hc] <;> decide
  refine .restrict (.advance_bind (K := fun k => k = .minus ∨ k = .not) hc hne fun t c' _ =>
    (hsub .unary c' (by decide)).bind_pure) ?_ ?_
  · rintro _ ⟨_, _, ⟨t, ht, rfl⟩, ⟨e, rfl⟩, rfl⟩
    exact ⟨.unary ⟨t, ht⟩ e, rfl⟩
  · rintro _ r ⟨d, rfl⟩ - hnext
    rw [← hnext] at hc
    cases d with
    | tighter hp | binary hp => exact absurd rfl hp.2
    | unary op e => exact ⟨[op.val], e.yield, ⟨op.val, op.property, rfl⟩, ⟨e, rfl⟩, rfl⟩
    | _ => exact absurd hc (by grind [ExprDeriv.yield, nextKind])

theorem predicts_group (hc : nextKind c.rest = .leftParen) :
    PredictsAt c (do
      let _ ← advance
      let e ← wholeExpression sub .or
      let _ ← closeParen
      return e)
    (ExprDeriv.phrase .unary) F := by
  refine .restrict (.advance_bind (K := (· = .leftParen)) hc (by rw [hc]; decide) fun _ =>
    (predicts_wholeExpression hsub (by decide) _).bind
      (fun _ _ _ c _ => (PredictsAt.closeParen c).bind_pure) ?_) ?_ ?_
  · intro us r hus _
    rw [nextKind_token hus]
    exact ends_of_mem_itemEnds _ (by decide)
  · rintro _ ⟨_, _, ⟨lp, hlp, rfl⟩, ⟨_, _, ⟨e, rfl⟩, ⟨rp, hrp, rfl⟩, rfl⟩, rfl⟩
    exact ⟨.group ⟨lp, hlp⟩ e ⟨rp, hrp⟩, rfl⟩
  · rintro _ r ⟨d, rfl⟩ - hnext
    rw [hc] at hnext
    cases d with
    | tighter hp | binary hp => exact absurd rfl hp.2
    | group lp e rp =>
      exact ⟨[lp.val], _, ⟨lp.val, lp.property, rfl⟩, ⟨e.yield, [rp.val], ⟨e, rfl⟩,
        ⟨rp.val, rp.property, rfl⟩, rfl⟩, rfl⟩
    | _ => exact absurd hnext (by grind [ExprDeriv.yield, nextKind])

end

section
include hsteady hsub

theorem predicts_name (hc : nextKind c.rest = .identifier) :
    PredictsAt c (do
      let token ← advance
      if ← check .leftParen then
        callOf sub token
      else
        return Expr.var token.lexeme (.point token.location))
    (ExprDeriv.phrase .unary) (Ends .unary) := by
  -- behind the name there is nothing, or a call
  have htail (name : Token) (n : Nat) : Predicts n (do
      if ← check .leftParen then
        callOf sub name
      else
        return Expr.var name.lexeme (.point name.location)) (nil.or callPhrase) (Ends .unary) := by
    refine fun c _ => .look_bind ((steady_check _).bind fun _ => .ite (steady_callOf hsteady name)
      (steady_pure _)) fun s hs => ?_
    by_cases hparen : nextKind c.rest = .leftParen
    · rw [if_pos (by simp [Cursor.check_eq, hs, hparen])]
      refine (predicts_callOf hsub hparen name).restrict (fun _ h => .inr h) ?_
      rintro us r (rfl | hus) hr hnext
      · exact absurd (hnext.trans hparen) hr.2
      · exact hus
    · rw [if_neg (by simp [Cursor.check_eq, hs, hparen])]
      refine (PredictsAt.pure _ c).restrict (fun _ h => .inl h) ?_
      rintro us r (hus | hus) - hnext
      · exact hus
      · exact absurd (hnext.symm.trans (nextKind_andThen hus)) hparen
  refine .restrict (.advance_bind (K := (· = .identifier)) hc (by rw [hc]; decide) fun name =>
    htail name _) ?_ ?_
  · rintro _ ⟨_, _, ⟨t, ht, rfl⟩, rfl | ⟨_, _, ⟨lp, hlp, rfl⟩, ⟨_, _, ⟨args, rfl⟩, ⟨rp, hrp, rfl⟩,
      rfl⟩, rfl⟩, rfl⟩
    · exact ⟨.var ⟨t, ht⟩, rfl⟩
    · exact ⟨.call ⟨t, ht⟩ ⟨lp, hlp⟩ args ⟨rp, hrp⟩, rfl⟩
  · rintro _ r ⟨d, rfl⟩ - hnext
    rw [hc] at hnext
    cases d with
    | tighter hp | binary hp => exact absurd rfl hp.2
    | var t => exact ⟨[t.val], [], ⟨t.val, t.property, rfl⟩, .inl rfl, rfl⟩
    | call t lp args rp =>
      exact ⟨[t.val], _, ⟨t.val, t.property, rfl⟩, .inr ⟨[lp.val], _, ⟨lp.val, lp.property, rfl⟩,
        ⟨args.yield, [rp.val], ⟨args, rfl⟩, ⟨rp.val, rp.property, rfl⟩, rfl⟩, rfl⟩, rfl⟩
    | _ => exact absurd hnext (by grind [ExprDeriv.yield, nextKind])

theorem predicts_operand (c : Cursor) :
    PredictsAt c (operand sub) (ExprDeriv.phrase .unary) (Ends .unary) := by
  refine .look_bind (steady_operand hsteady) fun s hs => ?_
  have hkind : nextKind c.rest = s.peek.kind := by rw [Cursor.kind_peek, hs]
  have hfound : s.peek = c.peek := by rw [hs]
  generalize s.peek = token at hkind hfound
  split
  · next hk => exact predicts_integer (hkind.trans hk)
  · next hk => exact predicts_truth (.inl (hkind.trans hk))
  · next hk => exact predicts_truth (.inr (hkind.trans hk))
  · next hk => exact predicts_name hsteady hsub (hkind.trans hk)
  · next hk => exact predicts_sign hsub (.inl (hkind.trans hk))
  · next hk => exact predicts_sign hsub (.inr (hkind.trans hk))
  · next hk => exact predicts_group hsub (hkind.trans hk)
  · refine .throw ((found_noExpression _).trans hfound) (ExprDeriv.nonempty_phrase (by decide))
      fun us r hus _ => ExprDeriv.nextKind_phrase_ne ?_ hus
    rw [hkind]
    simp_all [TokenKind.expressionStarts]

end

/-! ## The loop over the operators -/

section
include hsub

/-- Behind an operator comes its right operand, and then what makes an expression with the two. -/
theorem predicts_right_operand
    (hends : ∀ {p s e s'}, p ≠ .none → sub p s = .ok e s' → ¬ p ≤ (nextKind s'.rest).precedence)
    (hsettles : ∀ p s, p ≠ .none → Settles (sub p) s) (hq : q.IsBinary) (hp : least ≠ .none)
    (hle : least ≤ q) (l : ExprDeriv q) (op : OperatorTerminal q) {f : Expr → Parser Expr}
    (hf : ∀ right, (f right).Steady)
    (hloop : ∀ right (c' : Cursor) (e : ExprDeriv q.tighter), c'.rest.length ≤ c.rest.length →
      (nextKind c'.rest).precedence ≤ q → Apart (l.yield ++ op.val :: e.yield) c'.rest →
      PredictsAt c' (f right)
        (fun us => ExprDeriv.phrase least ((ExprDeriv.binary hq l op e).yield ++ us))
        (Ends least)) :
    PredictsAt c (sub q.tighter >>= f) (fun us => ExprDeriv.phrase least (l.yield ++ op.val :: us))
      (Ends least) := by
  have htighter := q.tighter_ne_none
  refine (hsub q.tighter c htighter).sequence
    (fun ts us => ExprDeriv.phrase least (l.yield ++ op.val :: (ts ++ us))) hf ?_ ?_ ?_ ?_
  · rintro s right s' _ rfl hok htakes ⟨e, rfl⟩
    have ha : Apart (l.yield ++ op.val :: e.yield) s'.rest := by
      have he : Apart e.yield s'.rest := htakes.apart (hsettles _ _ htighter _ _ hok)
      rw [List.append_cons]
      exact he.append (List.ne_nil_of_length_pos e.length_yield_pos)
    have hstep := hloop right s'.toCursor e htakes.length_le
      (Precedence.le_of_not_tighter_le hq (hends htighter hok)) ha
    simpa [ExprDeriv.yield] using hstep
  · rintro _ ⟨e, rfl⟩
    obtain ⟨d, hd, -⟩ := (ExprDeriv.binary hq l op e).exists_loosen hp hle
    exact ⟨[], d, by simpa [ExprDeriv.yield] using hd⟩
  · exact fun ts us _ h => h
  · rintro us r ⟨d, hd⟩ hr
    have hyield : d.yield ++ r = l.yield ++ op.val :: (us ++ r) := by rw [hd]; simp
    obtain ⟨e, vs, heq, hvs⟩ :=
      ExprDeriv.exists_right_operand hq (Nat.le_refl _) op hp hle hyield hr
    rw [← List.append_assoc] at heq
    obtain rfl := List.append_cancel_right heq
    exact ⟨e.yield, vs, rfl, ⟨e, rfl⟩, ⟨d, hd⟩, hvs⟩

end

section
include hsteady hsub

/-- The loop goes on where `l` ended, so its phrases are those that make an expression with `l`. -/
theorem predicts_operators
    (hends : ∀ {p s e s'}, p ≠ .none → sub p s = .ok e s' → ¬ p ≤ (nextKind s'.rest).precedence)
    (hsettles : ∀ p s, p ≠ .none → Settles (sub p) s) (hp : least ≠ .none) (left : Expr)
    {l : ExprDeriv k} (hk : least ≤ k) (hnext : (nextKind c.rest).precedence ≤ k)
    (ha : Apart l.yield c.rest) (hn : c.rest.length < n) :
    PredictsAt c (operators sub least n left) (fun us => ExprDeriv.phrase least (l.yield ++ us))
      (Ends least) := by
  induction n generalizing k left c with
  | zero => omega
  | succ n ih =>
    by_cases hle : least ≤ (nextKind c.rest).precedence
    · obtain ⟨t, r, hrest, ht, hle'⟩ := exists_cons_of_le hp hle
      rw [hrest, nextKind_cons] at hnext
      have hb := TokenKind.isBinary_of_le hp hle'
      obtain ⟨l', hl', -⟩ := l.exists_loosen hb.1 hnext
      rw [← hl'] at ha ⊢
      have hadv : PredictsAt c advance (token t.kind) fun _ => True :=
        .advance (by rw [hrest]; rfl) (by rw [hrest]; exact ht)
      have hstep : PredictsAt c (do
          let token ← advance
          let right ← sub token.kind.precedence.tighter
          operators sub least n
            (.binary left token.lexeme right ⟨left.span.start, right.span.finish⟩))
          (fun us => nextKind us = t.kind ∧ ExprDeriv.phrase least (l'.yield ++ us))
          (Ends least) := by
        refine hadv.sequence (fun ts us => ExprDeriv.phrase least (l'.yield ++ (ts ++ us)))
          (fun _ => (hsteady _).bind fun _ => steady_operators hsteady _ _ _) ?_ ?_ ?_ ?_
        · rintro s a s' _ rfl hok htakes ⟨u, hu, rfl⟩
          obtain ⟨s₁, hadv, htakes'⟩ := advance_cons hrest ht
          cases hadv.symm.trans hok
          obtain ⟨rfl, -⟩ := List.cons.inj (htakes.rest.symm.trans htakes'.rest)
          refine predicts_right_operand hsub hends hsettles hb hp hle' l' ⟨u, rfl⟩
            (fun _ => steady_operators hsteady _ _ _) fun right c' e hlen hnext' ha' => ?_
          refine ih _ hle' hnext' ha' ?_
          have h₁ : s.rest.length = s'.rest.length + 1 := by rw [htakes.rest]; simp
          omega
        · rintro _ ⟨u, hu, rfl⟩
          obtain ⟨_, e, rfl⟩ := (hsub _ c t.kind.precedence.tighter_ne_none).nonempty
          obtain ⟨d, hd, -⟩ :=
            (ExprDeriv.binary hb l' ⟨u, by rw [hu]⟩ e).exists_loosen hp hle'
          exact ⟨e.yield, d, hd⟩
        · rintro _ us ⟨u, hu, rfl⟩ h
          exact ⟨hu, h⟩
        · rintro us r ⟨hus, h⟩ -
          obtain ⟨u, vs, rfl, hu⟩ := exists_cons_of_nextKind hus ht
          exact ⟨[u], vs, rfl, ⟨u, hu, rfl⟩, h, trivial⟩
      refine (hstep.congr (steady_operators hsteady _ _ _) ?_).restrict (fun _ h => h.2) ?_
      · rintro s rfl
        simp only [operators, bind, EStateM.bind, peek_run, Cursor.kind_peek, if_pos hle]
      · intro us r' hus hr hus'
        rw [hrest, nextKind_cons] at hus'
        cases us with
        | nil =>
          rw [← hus'] at hle'
          exact absurd hle' hr.1
        | cons u us => exact ⟨hus', hus⟩
    · refine ((PredictsAt.pure left c).congr (steady_operators hsteady _ _ _) ?_).restrict ?_ ?_
      · rintro s rfl
        exact operators_stop hle _ _
      · rintro _ rfl
        obtain ⟨l', hl', -⟩ := l.exists_loosen hp hk
        exact ⟨l', by simpa using hl'⟩
      · rintro us r ⟨d, hd⟩ hr hus
        obtain ⟨l', hl', -⟩ := l.exists_loosen hp hk
        have hyield : d.yield ++ r = l'.yield ++ (us ++ r) := by rw [hd, hl', List.append_assoc]
        have ha' : Apart l'.yield (us ++ r) := by rwa [hl', Apart, hus]
        obtain ⟨-, hrest⟩ := d.splits l' hyield hr.1 (by rwa [hus]) (.of_ne hr.2) ha'
        exact List.append_left_eq_self.mp hrest.symm

theorem predicts_spine
    (hends : ∀ {p s e s'}, p ≠ .none → sub p s = .ok e s' → ¬ p ≤ (nextKind s'.rest).precedence)
    (hsettles : ∀ p s, p ≠ .none → Settles (sub p) s) (hp : p ≠ .none) (c : Cursor) :
    PredictsAt c (spine sub p) (ExprDeriv.phrase p) (Ends p) := by
  refine (predicts_operand hsteady hsub c).sequence
    (fun ts us => ExprDeriv.phrase p (ts ++ us))
    (fun _ => steady_remaining.bind fun _ => steady_operators hsteady _ _ _) ?_ ?_ ?_ ?_
  · rintro s left s' _ rfl hok htakes ⟨l, rfl⟩
    refine .look_bind (steady_remaining.bind fun _ => steady_operators hsteady _ _ _) ?_
    rintro s₁ hs₁
    refine predicts_operators hsteady hsub hends hsettles hp left p.rank_le
      (Nat.le_of_lt (nextKind s'.rest).rank_precedence_lt)
      (htakes.apart (settles_operand hsettles s left s' hok)) ?_
    rw [hs₁]
    exact Nat.lt_succ_self _
  · rintro _ ⟨l, rfl⟩
    obtain ⟨d, hd, -⟩ := l.exists_loosen hp p.rank_le
    exact ⟨[], d, by simpa using hd⟩
  · exact fun ts us _ h => h
  · rintro _ r ⟨d, rfl⟩ hr
    obtain ⟨u, us, hus, hne⟩ := d.exists_operand
    exact ⟨u.yield, us, hus, ⟨u, rfl⟩, ⟨d, hus⟩, ends_unary_iff.mpr (hne r hr.2)⟩

end

end

theorem predicts_climb (m : Nat) (hp : p ≠ .none) (c : Cursor) :
    PredictsAt c (climb m p) (ExprDeriv.phrase p) (Ends p) := by
  induction m generalizing p c with
  | zero =>
    refine .look_bind (steady_climb 0 p) fun s hs => ?_
    have hfound : s.peek = c.peek := by rw [hs]
    split
    · exact .throw_nesting ⟨_, rfl⟩ (ExprDeriv.nonempty_phrase hp)
    · next hstart =>
      refine .throw ((found_noExpression _).trans hfound) (ExprDeriv.nonempty_phrase hp)
        fun us r hus _ => ExprDeriv.nextKind_phrase_ne ?_ hus
      rwa [Cursor.kind_peek, hs] at hstart
  | succ m ih =>
    exact (predicts_spine (steady_climb m) (fun p c hp => ih hp c) climb_ends
      (fun p s hp => settles_climb m hp s) hp c).nested

theorem predicts_expression (room n : Nat) :
    Predicts n (expression room) (ExprDeriv.phrase .or) (Ends .or) :=
  fun c _ => .look_bind (steady_expression room) fun _ _ =>
    predicts_wholeExpression (fun _ c hp => predicts_climb _ hp c) (by decide) _ c (Nat.le_refl _)

end Parser

end BracketLang
