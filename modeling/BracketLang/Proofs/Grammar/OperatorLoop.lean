import BracketLang.Proofs.Grammar.Discipline

/-! The loop over the operators of an expression as a loop, without a count of rounds
(`Parser.OperatorLoop`). A round takes a token for an operator and reads a right operand, which is
never empty, so a round that does not fail leaves fewer tokens to come. That is why the loop ends
for every least level, also for the one that all tokens pass, the end of the input among them. There
it can only end with an error: a loop that gives a result stands in front of a token that does not
pass. -/

namespace BracketLang

theorem Precedence.none_le (p : Precedence) : none ≤ p := Nat.zero_le p.rank

/-- There is a level for the right operand of every token that is taken for an operator. -/
theorem TokenKind.rank_tighter_precedence (k : TokenKind) :
    k.precedence.tighter.rank = k.precedence.rank + 1 := by
  cases k <;> rfl

namespace Parser

/-- The binary expression whose left operand was just read. The next token is taken for its
operator, whatever it is, and at the end of the input the last one is once more. -/
def binaryOf (sub : Precedence → Parser Expr) (left : Expr) : Parser Expr := do
  let token ← advance
  let right ← sub token.kind.precedence.tighter
  return .binary left token.lexeme right ⟨left.span.start, right.span.finish⟩

/-- As long as the next token binds tightly enough, the left operand and what follows become the
next left operand. From `left` in the state `s` this comes to an end, and `r` is what it gives. -/
inductive OperatorLoop (sub : Precedence → Parser Expr) (least : Precedence) :
    Expr → ParserState → EStateM.Result SyntaxError ParserState Expr → Prop
  | stop : ¬ least ≤ s.peek.kind.precedence → OperatorLoop sub least left s (.ok left s)
  | fail : least ≤ s.peek.kind.precedence → binaryOf sub left s = .error err s' →
      OperatorLoop sub least left s (.error err s')
  | round : least ≤ s.peek.kind.precedence → binaryOf sub left s = .ok left' s' →
      OperatorLoop sub least left' s' r → OperatorLoop sub least left s r

variable {sub : Precedence → Parser Expr} {least : Precedence} {left e : Expr}
  {s s' : ParserState} {r r' : EStateM.Result SyntaxError ParserState Expr}

namespace OperatorLoop

theorem unique (h : OperatorLoop sub least left s r) (h' : OperatorLoop sub least left s r') :
    r = r' := by
  induction h with
  | stop hs =>
    cases h' with
    | stop => rfl
    | fail hs' | round hs' => exact absurd hs' hs
  | fail hs hfail =>
    cases h' with
    | stop hs' => exact absurd hs hs'
    | fail _ hfail' => exact hfail.symm.trans hfail'
    | round _ hok' => cases hfail.symm.trans hok'
  | round hs hok _ ih =>
    cases h' with
    | stop hs' => exact absurd hs hs'
    | fail _ hfail' => cases hok.symm.trans hfail'
    | round _ hok' hrest =>
      cases hok.symm.trans hok'
      exact ih hrest

/-- The loop gives a result only in front of a token that does not bind tightly enough. -/
theorem not_le_of_ok (h : OperatorLoop sub least left s (.ok e s')) :
    ¬ least ≤ s'.peek.kind.precedence := by
  generalize hr : EStateM.Result.ok e s' = r at h
  induction h with
  | stop hs =>
    cases hr
    exact hs
  | fail => cases hr
  | round _ _ _ ih => exact ih hr

/-- No token is too loose for the loosest level. -/
theorem exists_error (h : OperatorLoop sub .none left s r) : ∃ err s', r = .error err s' := by
  cases r with
  | ok e s' => exact absurd (Precedence.none_le _) h.not_le_of_ok
  | error err s' => exact ⟨err, s', rfl⟩

end OperatorLoop

/-! ## Rounds -/

theorem operators_succ (n : Nat) : operators sub least (n + 1) left s =
    if least ≤ s.peek.kind.precedence then (binaryOf sub left >>= operators sub least n) s
    else .ok left s := by
  by_cases hle : least ≤ s.peek.kind.precedence
  · simp only [operators, binaryOf, bind, EStateM.bind, peek_run, advance_run, if_pos hle]
    cases sub (s.move .advance).previous.kind.precedence.tighter (s.move .advance) <;> rfl
  · simp only [operators, bind, EStateM.bind, peek_run, if_neg hle]
    rfl

theorem moves_climb (m : Nat) (hp : p ≠ .none) : (climb m p).Moves := by
  refine ⟨steady_climb m p, fun {s e s'} h => ?_⟩
  obtain ⟨_, htakes, d, rfl, -⟩ := (reads_climb m hp).takes h ((spares_climb m hp s).ok h).errors
  have hpos := d.length_yield_pos
  rw [htakes.rest, List.length_append]
  omega

section
variable (hsub : ∀ p, p ≠ .none → (sub p).Moves)
include hsub

/-- A round takes at least the tokens of the right operand. This is all it can take where the
operator is no token to come, and there it finds none. -/
theorem moves_binaryOf (left : Expr) : (binaryOf sub left).Moves :=
  steady_advance.bind_moves fun token => (hsub _ token.kind.precedence.tighter_ne_none).bind
    fun _ => steady_pure _

/-- With more rounds than there are tokens to come, the count is not what ends the loop. -/
theorem operatorLoop_operators (hn : s.rest.length < n) :
    OperatorLoop sub least left s (operators sub least n left s) := by
  induction n generalizing left s with
  | zero => omega
  | succ n ih =>
    rw [operators_succ]
    split
    · next hle =>
      simp only [bind, EStateM.bind]
      cases hround : binaryOf sub left s with
      | error err s' => exact .fail hle hround
      | ok left' s' =>
        -- the round took a token, so the rounds left are still more than the tokens to come
        have hlt := (moves_binaryOf hsub left).length_lt hround
        exact .round hle hround (ih (by omega))
    · next hle => exact .stop hle

end

theorem operatorLoop_climb_iff : OperatorLoop (climb levels) least left s r ↔
    operators (climb levels) least (s.rest.length + 1) left s = r := by
  have hloop : OperatorLoop (climb levels) least left s
      (operators (climb levels) least (s.rest.length + 1) left s) :=
    operatorLoop_operators (fun _ => moves_climb levels) (Nat.lt_succ_self _)
  constructor
  · exact hloop.unique
  · rintro rfl
    exact hloop

/-! ## The loosest level -/

/-- At the loosest level climbing gives no result, since the loop behind the first operand gives
none. -/
theorem exists_error_climb_none (m : Nat) (s : ParserState) :
    ∃ err s', climb m .none s = .error err s' := by
  cases h : climb m .none s with
  | error err s' => exact ⟨err, s', rfl⟩
  | ok e s' =>
    exfalso
    cases m with
    | zero =>
      -- with no level left there is an error in front of every token
      simp only [climb, bind, EStateM.bind, peek_run] at h
      split at h <;> cases h
    | succ m =>
      obtain ⟨s₁, hspine, -⟩ := nested_eq_ok.mp h
      obtain ⟨left, s₂, -, hcounted⟩ := spine_eq_ok.mp hspine
      obtain ⟨_, _, herr⟩ := (operatorLoop_climb_iff.mpr hcounted).exists_error
      cases herr

/-- The loop at the loosest level ends in one way, with an error. -/
theorem exists_error_operatorLoop_none (levels : Nat) (left : Expr) (s : ParserState) :
    ∃ err s', s.Keeps s' ∧ ∀ r, OperatorLoop (climb levels) .none left s r ↔ r = .error err s' := by
  obtain ⟨err, s', herr⟩ := (operatorLoop_climb_iff.mpr rfl).exists_error
  refine ⟨err, s', ((steady_operators (steady_climb levels) .none _ left).error herr).keeps, ?_⟩
  intro r
  rw [operatorLoop_climb_iff, herr, eq_comm]

/-- Reading an expression at the loosest level ends with an error, and leaves the state in order.
Every token passes the test of the loop over the operators, and there is a level for its right
operand; still that loop can only end with an error. No count of rounds has a part in this: the loop
over the operators is the one without a count, and the one over the arguments of a call ends by
itself. -/
theorem expressionAt_none_fails :
    (∀ s, ∃ err s', expressionAt .none s = .error err s' ∧ s.Keeps s') ∧
    (∀ levels left s, ∃ err s', s.Keeps s' ∧
      ∀ r, OperatorLoop (climb levels) .none left s r ↔ r = .error err s') ∧
    (∀ kind : TokenKind, .none ≤ kind.precedence ∧
      kind.precedence.tighter.rank = kind.precedence.rank + 1) ∧
    (∀ levels least left s r, OperatorLoop (climb levels) least left s r ↔
      operators (climb levels) least (s.rest.length + 1) left s = r) ∧
    ∀ levels, EndsItself (moreItems (wholeExpression (climb levels) .or)) := by
  refine ⟨fun s => ?_, exists_error_operatorLoop_none,
    fun kind => ⟨Precedence.none_le _, kind.rank_tighter_precedence⟩,
    fun _ _ _ _ _ => operatorLoop_climb_iff, loopsEnd.arguments⟩
  have hrun : expressionAt .none s =
      climb (maxExpressionDepth - s.depth) .none (s.visit .expression) := rfl
  obtain ⟨err, s', herr⟩ :=
    exists_error_climb_none (maxExpressionDepth - s.depth) (s.visit .expression)
  exact ⟨err, s', hrun.trans herr, ((steady_expressionAt .none).error (hrun.trans herr)).keeps⟩

-- in `x ; y` the semicolon is taken for an operator, and behind `y` the loop goes on at the end
example (a b c : Location) : ∃ err s',
    expressionAt .none (.ofTokens
      [⟨.identifier, "x", none, a⟩, ⟨.semicolon, ";", none, b⟩, ⟨.identifier, "y", none, c⟩]) =
        .error err s' ∧
      err = ⟨.unterminatedExpression "an expression", .eofAt c⟩ ∧ s'.position = 3 ∧ s'.depth = 0 :=
  ⟨_, _, rfl, rfl, rfl, rfl⟩

end Parser

end BracketLang
