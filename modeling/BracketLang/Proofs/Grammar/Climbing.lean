import BracketLang.Proofs.Grammar.Blame
import BracketLang.Proofs.Grammar.PredictedExpressions

/-! Precedence climbing reads exactly what the grammar derives. From a place in a list of tokens an
expression of a level can be read up to one place at most: up to there it is derived, and it neither
goes on with an operator of the level nor ends in a name that is called (`Expr.StandsAt`). If there
is such a place, climbing stops at it with the tree derived, and otherwise it fails. -/

namespace BracketLang

/-- Between the places `p` and `q` the tokens derive the bare tree at a level, within the levels
that may be open, and behind `q` nothing goes on with it. -/
structure Expr.StandsAt (least : Precedence) (tokens : List Token) (p q : Nat) (e : Expr) :
    Prop where
  le : q ≤ tokens.length
  derived : e.Derived least maxExpressionDepth (tokens.extract p q)
  stops : ¬ least ≤ (nextKind (tokens.drop q)).precedence
  apart : Apart (tokens.extract p q) (tokens.drop q)

/-- Tokens derive an expression of a level in one way. -/
theorem ExprDeriv.eq_of_yield_eq {d d' : ExprDeriv p} (h : d.yield = d'.yield) : d = d' := by
  have hend : ¬ p ≤ (nextKind []).precedence := Nat.not_le.mpr (Precedence.rank_pos d.ne_none)
  have hapart {ts : List Token} : Apart ts [] := .of_ne (by decide)
  exact (d.splits d' (congrArg (· ++ []) h) hend hend hapart hapart).1

namespace ParserState

variable {s s' : ParserState}

/-- The tokens passed are those between the two places. -/
theorem Passes.extract_eq (h : s.Passes ts s') :
    s.tokens.extract s.position s'.position = ts ∧ s.tokens.drop s'.position = s'.rest ∧
      s'.position ≤ s.tokens.length := by
  have htokens : s.tokens = s.before.reverse ++ (ts ++ s'.rest) := by rw [Cursor.tokens, h.rest]
  have hstart : s.position = s.before.reverse.length := by rw [Cursor.position, List.length_reverse]
  have hposition : s'.position = s.before.reverse.length + ts.length := by rw [h.position, hstart]
  refine ⟨?_, ?_, ?_⟩
  · rw [List.extract_eq_take_drop, htokens, hposition, hstart, List.drop_left,
      Nat.add_sub_cancel_left, List.take_left]
  · rw [htokens, hposition, ← List.append_assoc, ← List.length_append, List.drop_left]
  · rw [htokens, hposition]
    simp only [List.length_append]
    omega

/-- What stands between the cursor and a place behind it comes next. -/
theorem rest_eq_extract_append (hq : s.position ≤ q) :
    s.rest = s.tokens.extract s.position q ++ s.tokens.drop q := by
  have hrest : s.tokens.drop s.position = s.rest := by
    rw [Cursor.tokens, Cursor.position, ← List.length_reverse, List.drop_left]
  rw [List.extract_eq_take_drop, hrest, ← Nat.add_sub_cancel' hq, ← List.drop_drop, hrest,
    Nat.add_sub_cancel_left, List.take_append_drop]

end ParserState

namespace Parser

variable {s s' : ParserState} {e : Expr}

/-- What climbing gives is the tree of a derivation, spans included. -/
theorem exists_located_of_climb (hp : p ≠ .none) (h : climb m p s = .ok e s') :
    ∃ d : ExprDeriv p, s.Takes d.yield s' ∧ e = d.located := by
  obtain ⟨_, htakes, d, rfl, -, hlevels⟩ :=
    (reads_climb m hp).takes h ((spares_climb m hp s).ok h).errors
  have hapart := htakes.apart (settles_climb m hp s e s' h)
  -- what is derived is read with the spans of the derivation, and reading gives one result
  obtain ⟨_, s₁, hok, -, rfl⟩ := d.accepts hlevels (climb_ends hp h) hapart s htakes.rest rfl
  cases hok.symm.trans h
  exact ⟨d, htakes, rfl⟩

/-- A tree that climbing gives stands where it was read. -/
theorem standsAt_of_climb (hleast : least ≠ .none)
    (h : climb maxExpressionDepth least s = .ok e s') :
    e.bare.StandsAt least s.tokens s.position s'.position := by
  obtain ⟨ts, htakes, hderived⟩ :=
    (reads_climb _ hleast).takes h ((spares_climb _ hleast s).ok h).errors
  obtain ⟨hts, hrest, hle⟩ := htakes.toPasses.extract_eq
  refine ⟨hle, by rwa [hts], ?_, ?_⟩
  · rw [hrest]
    exact climb_ends hleast h
  · rw [hts, hrest]
    exact htakes.apart (settles_climb _ hleast s e s' h)

/-- A tree that stands at the cursor is the one that climbing gives. -/
theorem climb_of_standsAt (h : node.StandsAt least s.tokens s.position q) :
    ∃ e s', climb maxExpressionDepth least s = .ok e s' ∧ e.bare = node ∧ s'.position = q := by
  obtain ⟨hle, ⟨d, hyield, rfl, hlevels⟩, hstops, hapart⟩ := h
  have hlength := d.length_yield_pos
  rw [hyield, List.extract_eq_take_drop, List.length_take] at hlength
  have hq : s.position ≤ q := by omega
  obtain ⟨_, s', hok, htakes, rfl⟩ := d.accepts hlevels hstops (by rwa [hyield]) s
    (by rw [hyield]; exact s.rest_eq_extract_append hq) rfl
  refine ⟨d.located, s', hok, d.bare_located, ?_⟩
  rw [htakes.position, hyield, List.extract_eq_take_drop, List.length_take, List.length_drop]
  omega

/-- Reading an expression with no level open is climbing. -/
theorem expressionAt_run (hdepth : s.depth = 0) :
    expressionAt least s = climb maxExpressionDepth least (s.visit .expression) := by
  have hrun : expressionAt least s =
      climb (maxExpressionDepth - s.depth) least (s.visit .expression) := rfl
  rw [hrun, hdepth, Nat.sub_zero]

/-- Climbing gives a tree up to a place exactly if the tree stands there, and fails if none does;
and which derivation the tree comes from is never in doubt. -/
theorem expressionAt_exact (s : ParserState) (hdepth : s.depth = 0) (hleast : least ≠ .none) :
    (∀ node q, (∃ e s', expressionAt least s = .ok e s' ∧ e.bare = node ∧ s'.position = q) ↔
      node.StandsAt least s.tokens s.position q) ∧
    ((∀ node q, ¬ Expr.StandsAt least s.tokens s.position q node) →
      ∃ err s', expressionAt least s = .error err s') ∧
    ∀ d d' : ExprDeriv least, d.yield = d'.yield → d = d' := by
  rw [expressionAt_run hdepth]
  refine ⟨fun node q => ⟨?_, ?_⟩, fun hnone => ?_, fun d d' => ExprDeriv.eq_of_yield_eq⟩
  · rintro ⟨e, s', hok, rfl, rfl⟩
    exact standsAt_of_climb (s := s.visit .expression) hleast hok
  · exact climb_of_standsAt (s := s.visit .expression)
  · cases h : climb maxExpressionDepth least (s.visit .expression) with
    | ok e s' => exact absurd (standsAt_of_climb hleast h) (hnone _ _)
    | error err s' => exact ⟨err, s', rfl⟩

/-- In front of `-x * f() + y < z`, behind a parenthesis. -/
def beforeSum : ParserState where
  before := [mixed .leftParen 1]
  rest := [mixed .minus 2, mixed .identifier 3, mixed .star 4, mixed .identifier 5,
    mixed .leftParen 6, mixed .rightParen 7, mixed .plus 8, mixed .identifier 9, mixed .less 10,
    mixed .identifier 11]
  depth := 0
  errors := []
  visits := []
where
  mixed (k : TokenKind) (column : Int) : Token := ⟨k, k.spelling, none, ⟨"mixed", 1, column, 0⟩⟩

/-- The sum is read up to the comparison. -/
theorem standsAt_sum : beforeSum.depth = 0 ∧ Precedence.term ≠ .none ∧
    ∃ e s', expressionAt .term beforeSum = .ok e s' ∧ s'.position = 9 ∧
      e.bare.StandsAt .term beforeSum.tokens 1 9 := by
  have hrun : ∃ e s', expressionAt .term beforeSum = .ok e s' ∧ s'.position = 9 := ⟨_, _, rfl, rfl⟩
  obtain ⟨e, s', hok, hposition⟩ := hrun
  exact ⟨rfl, by decide, e, s', hok, hposition,
    ((expressionAt_exact beforeSum rfl (by decide)).1 e.bare 9).mp ⟨e, s', hok, rfl, hposition⟩⟩

end Parser

end BracketLang
