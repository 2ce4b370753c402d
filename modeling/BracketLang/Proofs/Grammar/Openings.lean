import BracketLang.Proofs.Grammar.Climbing

/-! What an expression is inside of where it nests too deep. Parentheses, the arguments of a call,
unary operators and right operands of binary operators are the openings that an operand can stand
inside of (`Inside`), and an expression that fails for its depth fails inside of
`maxExpressionDepth` of them. Right operands count, so that fewer of the other openings are enough;
but a right operand binds tighter than its operator, so that at most six of them follow on each
other. -/

namespace BracketLang

/-- What an operand can stand inside of. -/
inductive Opening where
  | group
  | arguments
  | sign
  /-- The right operand of a binary operator. -/
  | right
deriving DecidableEq, Repr

/-- The arguments of a call that are read already, each with the comma behind it. -/
def finishedArgs (done : List (ExprDeriv .or × Terminal .comma)) : List Token :=
  done.flatMap fun a => a.1.yield ++ [a.2.val]

/-- Behind the tokens of an expression of a level an operand is to come, which stands inside the
openings, the outermost first. -/
inductive Inside : Precedence → List Token → List Opening → Prop
  | here : Inside p [] []
  | group (lp : Terminal .leftParen) (h : Inside .or ts ks) :
    Inside p (lp.val :: ts) (.group :: ks)
  | arguments (name : Terminal .identifier) (lp : Terminal .leftParen)
    (done : List (ExprDeriv .or × Terminal .comma)) (h : Inside .or ts ks) :
    Inside p (name.val :: lp.val :: (finishedArgs done ++ ts)) (.arguments :: ks)
  | sign (op : SignTerminal) (h : Inside .unary ts ks) : Inside p (op.val :: ts) (.sign :: ks)
  | right (hq : q.IsBinary) (hpq : p ≤ q) (l : ExprDeriv q) (op : OperatorTerminal q)
    (h : Inside q.tighter ts ks) : Inside p (l.yield ++ op.val :: ts) (.right :: ks)

/-- How many of the openings are parentheses, arguments or unary operators. -/
def properOpenings (ks : List Opening) : Nat := ks.countP (· ≠ .right)

theorem properOpenings_right (ks : List Opening) :
    properOpenings (.right :: ks) = properOpenings ks :=
  List.countP_cons_of_neg (by decide)

theorem properOpenings_cons {k : Opening} (hk : k ≠ .right) (ks : List Opening) :
    properOpenings (k :: ks) = properOpenings ks + 1 :=
  List.countP_cons_of_pos (decide_eq_true hk)

/-- The kinds that open parentheses, arguments and the operands of unary operators. -/
def TokenKind.opens (k : TokenKind) : Bool := k ∈ [leftParen, minus, not]

namespace Inside

/-- For each opening that is no right operand there is a token that opens it. -/
theorem properOpenings_le (h : Inside p ts ks) :
    properOpenings ks ≤ ts.countP (·.kind.opens) := by
  have hopens (t : Token) (ht : t.kind.opens = true) (ts : List Token) :
      (t :: ts).countP (·.kind.opens) = ts.countP (·.kind.opens) + 1 :=
    List.countP_cons_of_pos ht
  induction h with
  | here => exact Nat.le_refl _
  | group lp h ih =>
    rw [hopens lp.val (by rw [lp.property]; rfl), properOpenings_cons (by decide)]
    exact Nat.succ_le_succ ih
  | arguments name lp done h ih =>
    rw [List.countP_cons, hopens lp.val (by rw [lp.property]; rfl), List.countP_append,
      properOpenings_cons (by decide)]
    omega
  | sign op h ih =>
    rw [hopens op.val (by rcases op.property with hk | hk <;> rw [hk] <;> rfl),
      properOpenings_cons (by decide)]
    exact Nat.succ_le_succ ih
  | right hq hpq l op h ih =>
    rw [properOpenings_right, List.countP_append, List.countP_cons]
    omega

/-- A right operand stands at a tighter level than the expression it is part of, and there are only
seven levels until another opening starts again at the loosest. -/
theorem length_le (h : Inside p ts ks) : ks.length ≤ 7 * properOpenings ks + (7 - p.rank) := by
  have hor : Precedence.or.rank = 1 := rfl
  have hunary : Precedence.unary.rank = 7 := rfl
  induction h with
  | here => exact Nat.zero_le _
  | group lp h ih | arguments name lp done h ih | sign op h ih =>
    rw [properOpenings_cons (by decide), List.length_cons]
    omega
  | @right q _ _ _ hq hpq l op h ih =>
    rw [properOpenings_right, List.length_cons]
    rw [Precedence.rank_tighter hq] at ih
    have hlt := (Precedence.isBinary_iff.mp hq).2
    rw [Precedence.le_iff] at hpq
    omega

end Inside

/-- Behind the tokens of an expression of a level, `m` openings are open. -/
def Deep (p : Precedence) (m : Nat) (ts : List Token) : Prop :=
  ∃ ks, Inside p ts ks ∧ ks.length = m

/-! ## Where climbing fails for its depth -/

namespace SyntaxError

theorem not_isNesting_unexpected {kinds : List TokenKind} {what : Option String} {t : Token} :
    ¬IsNesting ⟨.unexpected kinds what, t⟩ := by
  rintro ⟨_, h⟩
  cases h

theorem not_isNesting_unterminatedExpression {expected : String} {t : Token} :
    ¬IsNesting ⟨.unterminatedExpression expected, t⟩ := by
  rintro ⟨_, h⟩
  cases h

theorem not_isNesting_noExpression (t : Token) : ¬(Parser.noExpression t).IsNesting := by
  unfold Parser.noExpression
  split
  · exact not_isNesting_unterminatedExpression
  · exact not_isNesting_unexpected

end SyntaxError

namespace Parser

open ParserState SyntaxError

variable {α β : Type} {x : Parser α} {f : α → Parser β} {s s' : ParserState}
  {R : List Token → Prop}

/-- If the parser fails at `s` because an expression nests too deep, the tokens that it took have
`R`. -/
def Sinks (x : Parser α) (s : ParserState) (R : List Token → Prop) : Prop :=
  ∀ e s', x s = .error e s' → e.IsNesting → ∃ ts, s.Takes ts s' ∧ R ts

namespace Sinks

theorem of_never (h : ∀ e s', x s = .error e s' → ¬e.IsNesting) : Sinks x s R :=
  fun e s' herror hnesting => absurd hnesting (h e s' herror)

theorem throw (h : ¬e.IsNesting) : Sinks (throw e : Parser α) s R := by
  refine of_never fun e' s' herror => ?_
  cases herror
  exact h

theorem mono {R' : List Token → Prop} (hx : Sinks x s R) (h : ∀ ts, R ts → R' ts) :
    Sinks x s R' := by
  intro e s' herror hnesting
  obtain ⟨ts, hts, hR⟩ := hx e s' herror hnesting
  exact ⟨ts, hts, h ts hR⟩

/-- What always gives a result does not fail at all. -/
theorem step {g : ParserState → α} {h : ParserState → ParserState} :
    Sinks (fun s => .ok (g s) (h s)) s R := by
  intro e s' herror
  cases herror

theorem closeParen : Sinks Parser.closeParen s R := by
  refine of_never fun e s' herror => ?_
  rw [closeParen_run] at herror
  split at herror
  · cases herror
    exact not_isNesting_unterminatedExpression
  · rw [consume_run] at herror
    split at herror <;> cases herror
    exact not_isNesting_unexpected

theorem accept (k : TokenKind) : Sinks (accept k) s R := by
  refine of_never fun e s' herror => ?_
  rw [accept_run] at herror
  split at herror <;> cases herror

theorem bind (hx : Sinks x s R)
    (hf : ∀ {a s'}, x s = .ok a s' → ∃ ts, s.Takes ts s' ∧ Sinks (f a) s' fun us => R (ts ++ us)) :
    Sinks (x >>= f) s R := by
  intro e s'' h hnesting
  rcases bind_eq_error.mp h with h | ⟨a, s', h₁, h₂⟩
  · exact hx e s'' h hnesting
  · obtain ⟨ts, hts, hsinks⟩ := hf h₁
    obtain ⟨us, hus, hR⟩ := hsinks e s'' h₂ hnesting
    exact ⟨ts ++ us, hts.trans hus, hR⟩

/-- What comes behind does not fail for the depth. -/
theorem bind_never (hx : Sinks x s R) (hf : ∀ a s', Sinks (f a) s' fun _ => False) :
    Sinks (x >>= f) s R := by
  intro e s'' h hnesting
  rcases bind_eq_error.mp h with h | ⟨a, s', -, h₂⟩
  · exact hx e s'' h hnesting
  · obtain ⟨_, -, hfalse⟩ := hf a s' e s'' h₂ hnesting
    exact hfalse.elim

theorem look_bind {g : ParserState → α} (hf : Sinks (f (g s)) s R) :
    Sinks ((fun s => .ok (g s) s : Parser α) >>= f) s R :=
  hf

theorem visit_bind {f : Unit → Parser β} (hf : Sinks (f ()) (s.visit production) R) :
    Sinks (visit production >>= f) s R := by
  intro e s' h hnesting
  obtain ⟨ts, hts, hR⟩ := hf e s' h hnesting
  exact ⟨ts, (Takes.visit s production).trans hts, hR⟩

theorem advance_bind {f : Token → Parser β} (hs : s.rest = t :: r) (ht : t.kind ≠ .eof)
    (hf : ∀ s', s.Takes [t] s' → Sinks (f t) s' fun us => R (t :: us)) :
    Sinks (advance >>= f) s R := by
  obtain ⟨s₁, hadvance, htakes⟩ := advance_cons hs ht
  refine bind step fun {u s'} hok => ?_
  cases hadvance.symm.trans hok
  exact ⟨[t], htakes, hf s₁ htakes⟩

theorem nested (hx : Sinks x { s with depth := s.depth + 1 } R) : Sinks (nested x) s R := by
  intro e s' h hnesting
  simp only [Parser.nested] at h
  split at h
  · cases h
  · next herror =>
    cases h
    obtain ⟨ts, hts, hR⟩ := hx _ _ herror hnesting
    exact ⟨ts, ⟨⟨hts.rest, hts.before, by simp [hts.depth]⟩, hts.errors⟩, hR⟩

end Sinks

section
variable {sub : Precedence → Parser Expr} {m : Nat}

section
variable (hsub : ∀ p s, p ≠ .none → Sinks (sub p) s (Deep p m))
include hsub

theorem sinks_wholeExpression (s : ParserState) : Sinks (wholeExpression sub .or) s (Deep .or m) :=
  .visit_bind (hsub .or _ (by decide))

variable
  (hread : ∀ {p s e s'}, p ≠ .none → sub p s = .ok e s' → ∃ d : ExprDeriv p, s.Takes d.yield s')
include hread

omit hsub in
theorem exists_of_wholeExpression (h : wholeExpression sub .or s = .ok e s') :
    ∃ d : ExprDeriv .or, s.Takes d.yield s' := by
  obtain ⟨d, htakes⟩ := hread (s := s.visit .expression) (by decide) h
  exact ⟨d, (Takes.visit s .expression).trans htakes⟩

/-- An argument behind others fails behind the comma in front of it. -/
theorem sinks_moreArgs (n : Nat) (s : ParserState) :
    Sinks (moreItems (wholeExpression sub .or) n) s fun us =>
      ∃ (comma : Terminal .comma) (done : List (ExprDeriv .or × Terminal .comma)) (ts : List Token),
        us = comma.val :: (finishedArgs done ++ ts) ∧ Deep .or m ts := by
  induction n generalizing s with
  | zero => exact .step
  | succ n ih =>
    refine (Sinks.accept .comma).bind fun {b s₁} hb => ?_
    cases b with
    | false =>
      obtain ⟨-, rfl⟩ := accept_eq_false.mp hb
      exact ⟨[], .refl _, .step⟩
    | true =>
      obtain ⟨t, ht⟩ := accept_eq_true.mp hb
      obtain ⟨hkind, htakes⟩ := eq_of_consume (by decide) ht
      refine ⟨[t], htakes, Sinks.bind ?_ fun {e s₂} he => ?_⟩
      · exact (sinks_wholeExpression hsub s₁).mono fun ts hdeep => ⟨⟨t, hkind⟩, [], ts, rfl, hdeep⟩
      · obtain ⟨d, htakes'⟩ := exists_of_wholeExpression hread he
        refine ⟨d.yield, htakes', Sinks.bind_never ((ih s₂).mono ?_) fun _ _ => .step⟩
        rintro _ ⟨comma, done, ts, rfl, hdeep⟩
        exact ⟨⟨t, hkind⟩, (d, comma) :: done, ts, by simp [finishedArgs], hdeep⟩

theorem sinks_args (s : ParserState) :
    Sinks (items (wholeExpression sub .or)) s fun us =>
      ∃ (done : List (ExprDeriv .or × Terminal .comma)) (ts : List Token),
        us = finishedArgs done ++ ts ∧ Deep .or m ts := by
  refine .look_bind ?_
  split
  · exact .step
  · refine Sinks.bind ?_ fun {e s₁} he => ?_
    · exact (sinks_wholeExpression hsub s).mono fun ts hdeep => ⟨[], ts, rfl, hdeep⟩
    · obtain ⟨d, htakes⟩ := exists_of_wholeExpression hread he
      refine ⟨d.yield, htakes, .look_bind (g := fun s => s.rest.length) ?_⟩
      refine Sinks.bind_never ((sinks_moreArgs hsub hread _ s₁).mono ?_) fun _ _ => .step
      rintro _ ⟨comma, done, ts, rfl, hdeep⟩
      exact ⟨(d, comma) :: done, ts, by simp [finishedArgs], hdeep⟩

theorem sinks_callOf (name : Terminal .identifier) (hs : nextKind s.rest = .leftParen) :
    Sinks (callOf sub name.val) s fun us => Deep p (m + 1) (name.val :: us) := by
  obtain ⟨t, r, hrest, ht⟩ := exists_cons_of_nextKind hs (by decide)
  refine .visit_bind <| .advance_bind (s := s.visit .call) hrest (by simp [ht]) fun s₁ _ => ?_
  refine Sinks.bind_never ((sinks_args hsub hread s₁).mono ?_) fun _ _ =>
    Sinks.closeParen.bind_never fun _ _ => .step
  rintro _ ⟨done, ts, rfl, ks, hinside, hlength⟩
  exact ⟨.arguments :: ks, .arguments name ⟨t, ht⟩ done hinside, congrArg (· + 1) hlength⟩

theorem sinks_operand (s : ParserState) : Sinks (operand sub) s (Deep p (m + 1)) := by
  refine .look_bind ?_
  have hnext := s.kind_peek
  generalize s.peek = token at hnext
  have hrest {k : TokenKind} (hk : token.kind = k) (hne : k ≠ .eof) :
      ∃ t r, s.rest = t :: r ∧ t.kind = k :=
    exists_cons_of_nextKind (hnext.symm.trans hk) hne
  have hsign {k : TokenKind} (hk : token.kind = k) (hsign : k = .minus ∨ k = .not) :
      Sinks (do
        let token ← advance
        let e ← sub .unary
        return Expr.unary token.lexeme e ⟨token.location, e.span.finish⟩) s (Deep p (m + 1)) := by
    have hne : k ≠ .eof := by rcases hsign with rfl | rfl <;> decide
    obtain ⟨t, r, hrest, rfl⟩ := hrest hk hne
    refine .advance_bind hrest hne fun s₁ _ => ?_
    refine Sinks.bind_never ((hsub .unary s₁ (by decide)).mono ?_) fun _ _ => .step
    rintro ts ⟨ks, hinside, hlength⟩
    exact ⟨.sign :: ks, .sign ⟨t, hsign⟩ hinside, congrArg (· + 1) hlength⟩
  split
  · exact .step
  · exact .step
  · exact .step
  · next hk =>
    obtain ⟨t, r, hrest, ht⟩ := hrest hk (by decide)
    refine .advance_bind hrest (by simp [ht]) fun s₁ _ => .look_bind ?_
    split
    · next hparen =>
      rw [Cursor.check_eq, decide_eq_true_eq] at hparen
      exact sinks_callOf hsub hread ⟨t, ht⟩ hparen
    · exact .step
  · next hk => exact hsign hk (.inl rfl)
  · next hk => exact hsign hk (.inr rfl)
  · next hk =>
    obtain ⟨t, r, hrest, ht⟩ := hrest hk (by decide)
    refine .advance_bind hrest (by simp [ht]) fun s₁ _ => ?_
    refine Sinks.bind_never ((sinks_wholeExpression hsub s₁).mono ?_) fun _ _ =>
      Sinks.closeParen.bind_never fun _ _ => .step
    rintro ts ⟨ks, hinside, hlength⟩
    exact ⟨.group :: ks, .group ⟨t, ht⟩ hinside, congrArg (· + 1) hlength⟩
  · exact .throw (not_isNesting_noExpression _)

/-- The loop over the operators fails in a right operand. What stands in front of its operator can
be loosened to the operator's level, as where the loop gives a result. -/
theorem sinks_operators
    (hends : ∀ {p s e s'}, p ≠ .none → sub p s = .ok e s' → ¬ p ≤ (nextKind s'.rest).precedence)
    (hp : least ≠ .none) (n : Nat) (left : Expr) {l : ExprDeriv k}
    (hnext : (nextKind s.rest).precedence ≤ k) :
    Sinks (operators sub least n left) s fun us => Deep least (m + 1) (l.yield ++ us) := by
  induction n generalizing k left s with
  | zero => exact .step
  | succ n ih =>
    by_cases hs : least ≤ (nextKind s.rest).precedence
    · obtain ⟨t, r, hrest, ht, hle⟩ := exists_cons_of_le hp hs
      obtain ⟨s₁, htakes, heq⟩ := operators_step sub hrest ht hle n left
      have hb := TokenKind.isBinary_of_le hp hle
      obtain ⟨l', hyield, -⟩ := l.exists_loosen hb.1 (by rwa [hrest] at hnext)
      have hright : Sinks (do
          let right ← sub t.kind.precedence.tighter
          operators sub least n
            (.binary left t.lexeme right ⟨left.span.start, right.span.finish⟩)) s₁
          fun us => Deep least (m + 1) (l.yield ++ t :: us) := by
        have htighter := t.kind.precedence.tighter_ne_none
        refine Sinks.bind ((hsub _ s₁ htighter).mono ?_) fun {right s₂} hok => ?_
        · rintro ts ⟨ks, hinside, hlength⟩
          rw [← hyield]
          exact ⟨.right :: ks, .right hb hle l' ⟨t, rfl⟩ hinside, congrArg (· + 1) hlength⟩
        · obtain ⟨d, hd⟩ := hread htighter hok
          have hnext' := Precedence.le_of_not_tighter_le hb (hends htighter hok)
          have hloop := ih (.binary left t.lexeme right ⟨left.span.start, right.span.finish⟩)
            (l := .binary hb l' ⟨t, rfl⟩ d) hnext'
          refine ⟨d.yield, hd, ?_⟩
          simpa [ExprDeriv.yield, hyield] using hloop
      intro e s' h hnesting
      obtain ⟨ts, hts, hdeep⟩ := hright e s' (heq ▸ h) hnesting
      exact ⟨t :: ts, htakes.trans hts, hdeep⟩
    · intro e s' h
      rw [operators_stop hs] at h
      cases h

end

end

/-- Climbing with `m` levels left fails for its depth inside of `m` openings. -/
theorem sinks_climb (m : Nat) (hp : p ≠ .none) (s : ParserState) :
    Sinks (climb m p) s (Deep p m) := by
  induction m generalizing p s with
  | zero =>
    intro e s' h _
    have hstays : s' = s := by
      simp only [climb, Bind.bind, EStateM.bind, peek_run] at h
      split at h <;> cases h <;> rfl
    rw [hstays]
    exact ⟨[], .refl s, [], .here, rfl⟩
  | succ m ih =>
    have hsub (p : Precedence) (s : ParserState) (hp : p ≠ .none) := ih hp s
    have hread {p s e s'} (hp : p ≠ .none) (h : climb m p s = .ok e s') :
        ∃ d : ExprDeriv p, s.Takes d.yield s' := by
      obtain ⟨d, htakes, -⟩ := exists_located_of_climb hp h
      exact ⟨d, htakes⟩
    refine Sinks.nested <| (sinks_operand hsub hread _).bind fun {left s₁} hleft => ?_
    obtain ⟨ts, htakes, l, rfl, -⟩ := (reads_operand fun _ => reads_climb m).takes hleft
      ((spares_operand (fun _ s hp => spares_climb m hp s) _).ok hleft).errors
    have hnext : (nextKind s₁.rest).precedence ≤ .unary :=
      Nat.le_of_lt (nextKind s₁.rest).rank_precedence_lt
    exact ⟨l.yield, htakes, .look_bind (g := fun s => s.rest.length) <|
      sinks_operators hsub hread climb_ends hp _ left hnext⟩

/-- An expression that fails for its depth blames a token inside of `maxExpressionDepth` openings.
Right operands count, but at least fourteen of the openings are parentheses, arguments or unary
operators. -/
theorem inside_of_isNesting (hleast : least ≠ .none) (hdepth : s.depth = 0)
    (h : expressionAt least s = .error e s') (hnesting : e.IsNesting) :
    ∃ ts ks, s.Takes ts s' ∧ e.found = s'.peek ∧ Inside least ts ks ∧
      ks.length = maxExpressionDepth ∧ 14 ≤ properOpenings ks := by
  rw [expressionAt_run hdepth] at h
  obtain ⟨ts, htakes, ks, hinside, hlength⟩ := sinks_climb _ hleast _ e s' h hnesting
  refine ⟨ts, ks, (Takes.visit s .expression).trans htakes,
    ((spares_climb _ hleast _).error h).2, hinside, hlength, ?_⟩
  have hle := hinside.length_le
  have hpos := Precedence.rank_pos hleast
  rw [hlength, maxExpressionDepth] at hle
  omega

/-- The sum of two integers in `n` pairs of parentheses. -/
def nestedSum (n : Nat) : List Token :=
  List.replicate n (token .leftParen) ++ [token .integer, token .plus, token .integer] ++
    List.replicate n (token .rightParen)
where
  token (k : TokenKind) : Token := ⟨k, k.spelling, none, .origin⟩

theorem expressionAt_nestedSum :
    ∃ e s', expressionAt .or (.ofTokens (nestedSum 99)) = .error e s' ∧ e.IsNesting := by
  have hreported : reported (expressionAt .or (.ofTokens (nestedSum 99))) =
      [⟨.nestingTooDeep maxExpressionDepth, nestedSum.token .integer⟩] := by decide +kernel
  cases h : expressionAt .or (.ofTokens (nestedSum 99)) with
  | ok a s' =>
    have herrors : s'.errors = [] := ((spares_expressionAt (by decide) _).ok h).errors
    rw [h, reported, herrors] at hreported
    cases hreported
  | error e s' =>
    have herrors : s'.errors = [] := ((spares_expressionAt (by decide) _).error h).1.errors
    rw [h, reported, herrors] at hreported
    cases hreported
    exact ⟨_, s', rfl, _, rfl⟩

theorem inside_nestedSum : Precedence.or ≠ .none ∧ (ParserState.ofTokens (nestedSum 99)).depth = 0 ∧
    ∃ e s', expressionAt .or (.ofTokens (nestedSum 99)) = .error e s' ∧ e.IsNesting ∧
      ∃ ts ks, (ParserState.ofTokens (nestedSum 99)).Takes ts s' ∧ e.found = s'.peek ∧
        Inside .or ts ks ∧ ks.length = maxExpressionDepth ∧ 14 ≤ properOpenings ks := by
  obtain ⟨e, s', herror, hnesting⟩ := expressionAt_nestedSum
  have hor : Precedence.or ≠ .none := by decide
  exact ⟨hor, rfl, e, s', herror, hnesting, inside_of_isNesting hor rfl herror hnesting⟩

/-- Parentheses, arguments and unary operators alone need not be as many: the second term of a sum
is too deep inside of one pair of parentheses less. -/
theorem not_maxExpressionDepth_le_properOpenings :
    ¬∀ (s : ParserState) (e : SyntaxError) (s' : ParserState), s.depth = 0 →
      expressionAt .or s = .error e s' → e.IsNesting →
        ∃ ts ks, s.Takes ts s' ∧ Inside .or ts ks ∧ maxExpressionDepth ≤ properOpenings ks := by
  intro hall
  obtain ⟨e, s', herror, hnesting⟩ := expressionAt_nestedSum
  obtain ⟨ts, ks, htakes, hinside, hmax⟩ := hall _ e s' rfl herror hnesting
  have hopen := hinside.properOpenings_le
  have hcount : (nestedSum 99).countP (·.kind.opens) = 99 := by decide +kernel
  have hrest : nestedSum 99 = ts ++ s'.rest := htakes.rest
  rw [hrest, List.countP_append] at hcount
  rw [maxExpressionDepth] at hmax
  omega

end Parser

end BracketLang
