import BracketLang.Proofs.Grammar.Concatenation

/-! What every production keeps of the parser's state, and that reading ends. However a production
ends, the tokens are the same, the cursor has not moved back nor over the end of the input, as many
levels are open, and the errors on record still are (`ParserState.Keeps`).

The loops of the parser count their rounds, one for each token to come. `Parser.EndsItself` says
that the count is never what ends them: more rounds than tokens change nothing, so a loop without a
count would end there too. Nor is the stack what ends the recursion over blocks, if it has a level
for each token to come: two parsers that run the same from where a production can get to make it run
the same (`Parser.SameWithin`). -/

namespace BracketLang

/-- The place of the first end of file from the cursor on, or the place behind the last token. -/
def Cursor.endPosition (c : Cursor) : Nat := c.position + (upToEof c.rest).length

namespace ParserState

/-- `s'` has the tokens of `s`, a cursor not further back and not over the end, as many levels open
and the errors of `s` on record. -/
structure Keeps (s s' : ParserState) : Prop where
  tokens : s'.tokens = s.tokens
  le : s.position ≤ s'.position
  le_end : s'.position ≤ s.endPosition
  depth : s'.depth = s.depth
  errors : s.errors <+: s'.errors

variable {s s' : ParserState}

theorem Reaches.keeps (h : s.Reaches s') : s.Keeps s' := by
  obtain ⟨⟨ts, hpasses, hts⟩, herrors⟩ := h
  have hlength : ts.length ≤ (upToEof s.rest).length := by
    rw [hpasses.rest, upToEof, List.takeWhile_append_of_pos (by simpa using hts),
      List.length_append]
    exact Nat.le_add_right ..
  refine ⟨hpasses.tokens, ?_, ?_, hpasses.depth, herrors⟩
  · rw [hpasses.position]
    exact Nat.le_add_right ..
  · rw [hpasses.position, Cursor.endPosition]
    exact Nat.add_le_add_left hlength _

/-- The cursor is further on if fewer tokens are to come. -/
theorem Reaches.position_lt (h : s.Reaches s') (hlt : s'.rest.length < s.rest.length) :
    s.position < s'.position := by
  obtain ⟨⟨ts, hpasses, -⟩, -⟩ := h
  rw [hpasses.rest, List.length_append] at hlt
  rw [hpasses.position]
  omega

end ParserState

namespace Parser

open ParserState

variable {α β : Type} {x x' : Parser α} {f f' : α → Parser β} {s s' : ParserState}

/-- From every state the parser gives a result or fails, and in both cases keeps the state in
order. -/
def KeepsState (x : Parser α) : Prop :=
  ∀ s, (∃ a s', x s = .ok a s' ∧ s.Keeps s') ∨ ∃ e s', x s = .error e s' ∧ s.Keeps s'

theorem Steady.keepsState (hx : x.Steady) : x.KeepsState := by
  intro s
  cases h : x s with
  | ok a s' => exact .inl ⟨a, s', rfl, (hx.ok h).keeps⟩
  | error e s' => exact .inr ⟨e, s', rfl, (hx.error h).keeps⟩

theorem steady_statement (room : Nat) : (statement room).Steady :=
  steady_statementWith (steady_blockWithin room) room

/-- A statement never fails, and takes a token unless the block ends in front of it. -/
theorem exists_statement (room : Nat) (s : ParserState) : ∃ o s', statement room s = .ok o s' ∧
    (s.peek.kind ∉ [.rightBracket, .funcWord, .eof] → s.position < s'.position) := by
  have hok : ∃ o s', statement room s = .ok o s' := by
    rw [statement, statementWith]
    split <;> exact ⟨_, _, rfl⟩
  obtain ⟨o, s', hok⟩ := hok
  refine ⟨o, s', hok, fun hs => ?_⟩
  rw [Cursor.kind_peek] at hs
  have hboundary : s.atBlockBoundary = false :=
    Bool.eq_false_iff.mpr (mt (Cursor.atBlockBoundary_iff _).mp hs)
  have hlt := length_lt_of_statementWith (steady_blockWithin room) room hboundary hok
  exact ((steady_statement room).ok hok).position_lt hlt

/-! ## The same run from where the tokens are few -/

/-- With at most `n` tokens to come the two parsers run the same. -/
def SameWithin (n : Nat) (x x' : Parser α) : Prop := ∀ s, s.rest.length ≤ n → x s = x' s

namespace SameWithin

theorem refl : SameWithin n x x := fun _ _ => rfl

theorem mono (h : SameWithin n x x') (hm : m ≤ n) : SameWithin m x x' :=
  fun s hs => h s (Nat.le_trans hs hm)

theorem bind (h : SameWithin n x x') (hx : x.Steady) (hf : ∀ a, SameWithin n (f a) (f' a)) :
    SameWithin n (x >>= f) (x' >>= f') := by
  intro s hs
  simp only [Bind.bind, EStateM.bind, ← h s hs]
  cases hok : x s with
  | ok a s' => exact hf a s' (Nat.le_trans (hx.ok hok).length_le hs)
  | error e s' => rfl

/-- What comes behind a parser that takes a token has fewer tokens to come. -/
theorem bind_moves (hx : x.Moves) (hf : ∀ a, SameWithin n (f a) (f' a)) :
    SameWithin (n + 1) (x >>= f) (x >>= f') := by
  intro s hs
  simp only [Bind.bind, EStateM.bind]
  cases hok : x s with
  | ok a s' => exact hf a s' (Nat.le_of_lt_succ (Nat.lt_of_lt_of_le (hx.length_lt hok) hs))
  | error e s' => rfl

theorem map {g : α → β} (h : SameWithin n x x') : SameWithin n (g <$> x) (g <$> x') := by
  intro s hs
  simp only [Functor.map, EStateM.map, h s hs]

theorem ite {c : Prop} [Decidable c] {y y' : Parser α} (hx : SameWithin n x x')
    (hy : SameWithin n y y') : SameWithin n (if c then x else y) (if c then x' else y') := by
  split
  · exact hx
  · exact hy

theorem nested (h : SameWithin n x x') : SameWithin n (nested x) (nested x') := by
  intro s hs
  simp only [Parser.nested, h { s with depth := s.depth + 1 } hs]

theorem moreItems (h : SameWithin n x x') (hx : x.Steady) (k : Nat) :
    SameWithin n (moreItems x k) (moreItems x' k) := by
  induction k with
  | zero => exact .refl
  | succ k ih =>
    exact .bind .refl (steady_accept _) fun _ => .ite
      (h.bind hx fun _ => ih.bind (hx.moreItems k) fun _ => .refl) .refl

theorem items (h : SameWithin n x x') (hx : x.Steady) : SameWithin n (items x) (items x') :=
  .bind .refl (steady_check _) fun _ => .ite .refl <| h.bind hx fun _ =>
    .bind .refl steady_remaining fun k => (h.moreItems hx k).bind (hx.moreItems k) fun _ => .refl

end SameWithin

/-- The same behind a token that is there. -/
theorem advance_bind_congr {f f' : Token → Parser β} (hs : s.rest.length ≤ n + 1)
    (hne : nextKind s.rest ≠ .eof) (hf : ∀ t, SameWithin n (f t) (f' t)) :
    (advance >>= f) s = (advance >>= f') s := by
  obtain ⟨t, r, hrest, ht⟩ := exists_cons_of_nextKind rfl hne
  obtain ⟨s₁, hok, htakes⟩ := advance_cons hrest (ht ▸ hne)
  have hlength : s₁.rest.length ≤ n := by
    rw [htakes.rest_eq hrest]
    rw [hrest, List.length_cons] at hs
    omega
  simp only [bind, EStateM.bind, hok]
  exact hf t s₁ hlength

theorem operators_of_le {sub : Precedence → Parser Expr}
    (hle : least ≤ (nextKind s.rest).precedence) (k : Nat) (left : Expr) :
    operators sub least (k + 1) left s = (advance >>= fun t =>
      sub t.kind.precedence.tighter >>= fun right => operators sub least k
        (.binary left t.lexeme right ⟨left.span.start, right.span.finish⟩)) s := by
  simp only [operators, bind, EStateM.bind, peek_run, Cursor.kind_peek, if_pos hle]

/-! ## Room for as many levels as there are tokens

Each level is opened behind a token, so a stack with a level for every token is never full. -/

section
variable {sub sub' : Precedence → Parser Expr}
variable (h : ∀ p, p ≠ .none → SameWithin n (sub p) (sub' p)) (hsub : ∀ p, (sub p).Steady)
include h

theorem sameWithin_wholeExpression (hp : p ≠ .none) :
    SameWithin n (wholeExpression sub p) (wholeExpression sub' p) :=
  .bind .refl (steady_visit _) fun _ => h p hp

include hsub

theorem sameWithin_callOf (name : Token) : SameWithin n (callOf sub name) (callOf sub' name) :=
  have harg := steady_wholeExpression hsub .or
  .bind .refl (steady_visit _) fun _ => .bind .refl steady_advance fun _ =>
    ((sameWithin_wholeExpression h (by decide)).items harg).bind harg.items fun _ => .refl

theorem sameWithin_operand : SameWithin (n + 1) (operand sub) (operand sub') := by
  intro s hs
  have hwhole := sameWithin_wholeExpression h (p := .or) (by decide)
  simp only [operand, bind, EStateM.bind, peek_run, Cursor.kind_peek]
  have hadvance {f f' : Token → Parser Expr} (hne : nextKind s.rest ≠ .eof)
    (hf : ∀ t, SameWithin n (f t) (f' t)) := advance_bind_congr hs hne hf
  generalize nextKind s.rest = k at hadvance
  split
  · rfl
  · rfl
  · rfl
  · exact hadvance (by decide) fun _ => .bind .refl (steady_check _) fun _ =>
      .ite (sameWithin_callOf h hsub _) .refl
  · exact hadvance (by decide) fun _ => (h _ (by decide)).bind (hsub _) fun _ => .refl
  · exact hadvance (by decide) fun _ => (h _ (by decide)).bind (hsub _) fun _ => .refl
  · exact hadvance (by decide) fun _ => hwhole.bind (steady_wholeExpression hsub _) fun _ => .refl
  · rfl

theorem sameWithin_operators (hleast : least ≠ .none) (k : Nat) (left : Expr) :
    SameWithin (n + 1) (operators sub least k left) (operators sub' least k left) := by
  induction k generalizing left with
  | zero => exact .refl
  | succ k ih =>
    intro s hs
    by_cases hle : least ≤ (nextKind s.rest).precedence
    · obtain ⟨t, r, hrest, hne, -⟩ := exists_cons_of_le hleast hle
      rw [operators_of_le hle, operators_of_le hle]
      refine advance_bind_congr hs (by rwa [hrest]) fun _ => ?_
      exact (h _ (Precedence.tighter_ne_none _)).bind (hsub _) fun _ =>
        (ih _).mono (Nat.le_succ n)
    · rw [operators_stop hle, operators_stop hle]

end

/-- What starts no expression is blamed at any level. -/
theorem climb_of_not_mem (hs : nextKind s.rest ∉ TokenKind.expressionStarts) (m : Nat)
    (p : Precedence) : climb m p s = .error (noExpression s.peek) s := by
  cases m with
  | zero => simp only [climb, bind, EStateM.bind, peek_run, Cursor.kind_peek, if_neg hs]; rfl
  | succ m =>
    simp only [climb, Parser.nested, operand, bind, EStateM.bind, peek_run, Cursor.kind_peek]
    generalize nextKind s.rest = k at hs
    cases k <;> first | exact absurd (by decide) hs | rfl

theorem sameWithin_climb (hm : k ≤ m) (hm' : k ≤ m') (hp : p ≠ .none) :
    SameWithin k (climb m p) (climb m' p) := by
  induction k generalizing m m' p with
  | zero =>
    intro s hs
    have hnext : nextKind s.rest ∉ TokenKind.expressionStarts := by
      rw [List.eq_nil_of_length_eq_zero (Nat.le_zero.mp hs)]
      decide
    rw [climb_of_not_mem hnext, climb_of_not_mem hnext]
  | succ k ih =>
    obtain ⟨m, rfl⟩ : ∃ l, m = l + 1 := Nat.exists_eq_succ_of_ne_zero (by omega)
    obtain ⟨m', rfl⟩ : ∃ l, m' = l + 1 := Nat.exists_eq_succ_of_ne_zero (by omega)
    have hsub (p : Precedence) (hp : p ≠ .none) : SameWithin k (climb m p) (climb m' p) :=
      ih (by omega) (by omega) hp
    have hsteady := steady_climb m
    exact .nested <| (sameWithin_operand hsub hsteady).bind (steady_operand hsteady) fun _ =>
      .bind .refl steady_remaining fun _ => sameWithin_operators hsub hsteady hp _ _

theorem sameWithin_expression (hroom : k ≤ room) (hroom' : k ≤ room') :
    SameWithin k (expression room) (expression room') := by
  intro s hs
  have hrun (room : Nat) : expression room s =
      wholeExpression (climb (min room (maxExpressionDepth - s.depth))) .or s := rfl
  rw [hrun, hrun]
  by_cases hk : k ≤ maxExpressionDepth - s.depth
  · have hclimb (p : Precedence) := sameWithin_climb (p := p) (Nat.le_min.mpr ⟨hroom, hk⟩)
      (Nat.le_min.mpr ⟨hroom', hk⟩)
    exact sameWithin_wholeExpression hclimb (by decide) s hs
  · rw [Nat.min_eq_right (by omega), Nat.min_eq_right (by omega)]

section
variable {b b' : Parser Block} (h : SameWithin k b b') (hb : b.Steady)
variable (hroom : k ≤ room) (hroom' : k ≤ room')
include hroom hroom'

theorem sameWithin_value {f f' : Expr → Parser β} (hf : ∀ e, SameWithin k (f e) (f' e)) :
    SameWithin k (expression room >>= f) (expression room' >>= f') :=
  (sameWithin_expression hroom hroom').bind (steady_expression room) hf

include h hb

theorem sameWithin_ifStatement : SameWithin k (ifStatement room b) (ifStatement room' b') :=
  .bind .refl (steady_visit _) fun _ => .bind .refl (steady_consume _) fun _ =>
    sameWithin_value hroom hroom' fun _ => h.bind hb fun _ =>
      .bind .refl (steady_accept _) fun _ => .ite (h.bind hb fun _ => .refl) .refl

theorem sameWithin_properStatement :
    SameWithin k (properStatement room b) (properStatement room' b') := by
  refine .bind .refl steady_cursor fun c => ?_
  have hvalue : SameWithin k (expressionStatement room) (expressionStatement room') :=
    .bind .refl (steady_visit _) fun _ => sameWithin_value hroom hroom' fun _ => .refl
  split
  · exact .bind .refl (steady_visit _) fun _ => .bind .refl (steady_consume _) fun _ =>
      .bind .refl (steady_consume _) fun _ => .bind .refl (steady_consume _) fun _ =>
      .bind .refl steady_typeName fun _ => .bind .refl (steady_consume _) fun _ =>
      sameWithin_value hroom hroom' fun _ => .refl
  · exact sameWithin_ifStatement h hb hroom hroom'
  · exact .bind .refl (steady_visit _) fun _ => .bind .refl (steady_consume _) fun _ =>
      sameWithin_value hroom hroom' fun _ => h.bind hb fun _ => .refl
  · exact .bind .refl (steady_visit _) fun _ => .bind .refl (steady_consume _) fun _ =>
      .bind .refl (steady_check _) fun _ => .ite .refl <|
      (sameWithin_expression hroom hroom').map.bind (steady_expression room).map fun _ => .refl
  · exact .bind .refl (steady_visit _) fun _ => .bind .refl (steady_consume _) fun _ =>
      sameWithin_value hroom hroom' fun _ => .refl
  · exact .ite (.bind .refl (steady_visit _) fun _ => .bind .refl (steady_consume _) fun _ =>
      .bind .refl (steady_consume _) fun _ => sameWithin_value hroom hroom' fun _ => .refl) hvalue
  · exact hvalue

theorem sameWithin_statementWith :
    SameWithin k (statementWith room b) (statementWith room' b') := by
  intro s hs
  simp only [statementWith, sameWithin_properStatement h hb hroom hroom' s hs]

end

theorem SameWithin.statements {st st' : Parser (Option Stmt)} (h : SameWithin n st st')
    (hst : st.Steady) (k : Nat) : SameWithin n (statements st k) (statements st' k) := by
  induction k with
  | zero => exact .refl
  | succ k ih =>
    exact .bind .refl steady_cursor fun _ => .ite .refl <|
      h.bind hst fun _ => ih.bind (steady_statements hst k) fun _ => .refl

/-! ## Loops end by themselves -/

/-- More rounds than there are tokens to come change nothing. -/
def EndsItself (loop : Nat → Parser α) : Prop :=
  ∀ s n, s.rest.length ≤ n → loop n s = loop s.rest.length s

theorem endsItself_of_sameWithin {loop : Nat → Parser α}
    (h : ∀ {k n n'}, k ≤ n → k ≤ n' → SameWithin k (loop n) (loop n')) : EndsItself loop :=
  fun s _ hn => h hn (Nat.le_refl _) s (Nat.le_refl _)

theorem endsItself_moreItems (hx : x.Steady) : EndsItself (moreItems x) := by
  refine endsItself_of_sameWithin fun {k n n'} hn hn' => ?_
  induction k generalizing n n' with
  | zero =>
    intro s hs
    have hnext : nextKind s.rest ≠ .comma := by
      rw [List.eq_nil_of_length_eq_zero (Nat.le_zero.mp hs)]
      decide
    rw [moreItems_stop hnext, moreItems_stop hnext]
  | succ k ih =>
    obtain ⟨n, rfl⟩ : ∃ m, n = m + 1 := Nat.exists_eq_succ_of_ne_zero (by omega)
    obtain ⟨n', rfl⟩ : ∃ m, n' = m + 1 := Nat.exists_eq_succ_of_ne_zero (by omega)
    intro s hs
    by_cases hnext : nextKind s.rest = .comma
    · have hsame : SameWithin k (x >>= fun a => moreItems x n >>= fun as => pure (a :: as))
          (x >>= fun a => moreItems x n' >>= fun as => pure (a :: as)) :=
        .bind .refl hx fun _ => (ih (by omega) (by omega)).bind (hx.moreItems n) fun _ =>
          .refl
      obtain ⟨t, r, hrest, ht⟩ := exists_cons_of_nextKind hnext (by decide)
      obtain ⟨s₁, hok, htakes⟩ := consume_cons hrest (by rw [ht]; decide)
      rw [ht] at hok
      have hlength : s₁.rest.length ≤ k := by
        rw [htakes.rest_eq hrest]
        rw [hrest, List.length_cons] at hs
        omega
      simp only [moreItems, bind, EStateM.bind, accept_eq_true.mpr ⟨t, hok⟩, if_true]
      exact hsame s₁ hlength
    · rw [moreItems_stop hnext, moreItems_stop hnext]

theorem endsItself_operators {sub : Precedence → Parser Expr} (hsub : ∀ p, (sub p).Steady)
    (hp : least ≠ .none) (left : Expr) : EndsItself (operators sub least · left) := by
  refine endsItself_of_sameWithin fun {k n n'} hn hn' => ?_
  induction k generalizing n n' left with
  | zero =>
    intro s hs
    have hstop : ¬ least ≤ (nextKind s.rest).precedence := by
      rw [List.eq_nil_of_length_eq_zero (Nat.le_zero.mp hs)]
      exact Nat.not_le.mpr (Precedence.rank_pos hp)
    rw [operators_stop hstop, operators_stop hstop]
  | succ k ih =>
    obtain ⟨n, rfl⟩ : ∃ m, n = m + 1 := Nat.exists_eq_succ_of_ne_zero (by omega)
    obtain ⟨n', rfl⟩ : ∃ m, n' = m + 1 := Nat.exists_eq_succ_of_ne_zero (by omega)
    intro s hs
    by_cases hle : least ≤ (nextKind s.rest).precedence
    · obtain ⟨t, r, hrest, hne, -⟩ := exists_cons_of_le hp hle
      rw [operators_of_le hle, operators_of_le hle]
      refine advance_bind_congr hs (by rwa [hrest]) fun _ => ?_
      exact .bind .refl (hsub _) fun _ => ih _ (by omega) (by omega)
    · rw [operators_stop hle, operators_stop hle]

theorem endsItself_statements {st : Parser (Option Stmt)} (hst : st.Steady)
    (hmoves : ∀ {s o s'}, s.atBlockBoundary = false → st s = .ok o s' →
      s'.rest.length < s.rest.length) : EndsItself (statements st) := by
  refine endsItself_of_sameWithin fun {k n n'} hn hn' => ?_
  induction k generalizing n n' with
  | zero =>
    intro s hs
    have hboundary := atBlockBoundary_of_length (Nat.le_zero.mp hs)
    rw [statements_stop hboundary, statements_stop hboundary]
  | succ k ih =>
    obtain ⟨n, rfl⟩ : ∃ m, n = m + 1 := Nat.exists_eq_succ_of_ne_zero (by omega)
    obtain ⟨n', rfl⟩ : ∃ m, n' = m + 1 := Nat.exists_eq_succ_of_ne_zero (by omega)
    intro s hs
    rw [statements_succ, statements_succ]
    cases hboundary : s.atBlockBoundary with
    | true => rfl
    | false =>
      have hsame (a : Option Stmt) : SameWithin k
          (statements st n >>= fun as => pure (a.toList ++ as))
          (statements st n' >>= fun as => pure (a.toList ++ as)) :=
        (ih (by omega) (by omega)).bind (steady_statements hst n) fun _ => .refl
      simp only [Bool.false_eq_true, if_false, bind, EStateM.bind]
      cases hok : st s with
      | ok a s₁ =>
        exact hsame a s₁ (Nat.le_of_lt_succ (Nat.lt_of_lt_of_le (hmoves hboundary hok) hs))
      | error e s₁ => rfl

theorem endsItself_blockWithin : EndsItself blockWithin := by
  refine endsItself_of_sameWithin fun {k n n'} hn hn' => ?_
  induction k generalizing n n' with
  | zero =>
    intro s hs
    have hnext : nextKind s.rest ≠ .leftBracket := by
      rw [List.eq_nil_of_length_eq_zero (Nat.le_zero.mp hs)]
      decide
    rw [blockWithin_of_ne hnext, blockWithin_of_ne hnext]
  | succ k ih =>
    obtain ⟨n, rfl⟩ : ∃ m, n = m + 1 := Nat.exists_eq_succ_of_ne_zero (by omega)
    obtain ⟨n', rfl⟩ : ∃ m, n' = m + 1 := Nat.exists_eq_succ_of_ne_zero (by omega)
    have hn := Nat.le_of_succ_le_succ hn
    have hn' := Nat.le_of_succ_le_succ hn'
    have hb := steady_statementWith (steady_blockWithin n) n
    have hsame := sameWithin_statementWith (ih hn hn') (steady_blockWithin n) hn hn'
    -- the blocks inside have fewer tokens, since the bracket is taken
    exact .bind .refl (steady_visit _) fun _ => .bind_moves (moves_consume (by decide)) fun _ =>
      .bind .refl steady_remaining fun m => .bind (hsame.statements hb m)
        (steady_statements hb m) fun _ => .refl

/-- The loop over the functions ends in front of the end of the input, whatever the count. -/
theorem functions_ends (room : Nat) (hn : s.rest.length ≤ n) (hn' : s.rest.length ≤ n') :
    functions room n s = functions room n' s ∧ nextKind (functions room n s).2.rest = .eof := by
  induction n generalizing n' s with
  | zero =>
    have hend := congrArg nextKind (List.eq_nil_of_length_eq_zero (Nat.le_zero.mp hn))
    exact ⟨(functions_of_eof hend room n').symm, hend⟩
  | succ n ih =>
    by_cases hend : nextKind s.rest = .eof
    · rw [functions_of_eof hend, functions_of_eof hend]
      exact ⟨rfl, hend⟩
    · have hnot : s.atEnd = false := by
        rw [atEnd_eq]
        exact decide_eq_false hend
      have hlt := length_lt_of_functionOrSkip room hnot
      obtain ⟨n', rfl⟩ : ∃ m, n' = m + 1 := Nat.exists_eq_succ_of_ne_zero (by omega)
      have hle : (functionOrSkip room s).2.rest.length ≤ n := by omega
      have hle' : (functionOrSkip room s).2.rest.length ≤ n' := by omega
      obtain ⟨hsame, heof⟩ := ih hle hle'
      rw [functions_succ, functions_succ, hnot, ← hsame]
      exact ⟨rfl, heof⟩

/-- Reading a program ends in front of the end of the input, with no level open. -/
theorem program_ends (room : Nat) (s : ParserState) :
    ((program room).run s).2.tokens = s.tokens ∧
      ((program room).run s).2.position = (upToEof s.tokens).length ∧
      ((program room).run s).2.depth = 0 := by
  have hrun : ((program room).run s).2 = (functions room s.tokens.length s.restart).2 := rfl
  obtain ⟨ts, hpasses, hts⟩ := (reaches_functions room s.tokens.length s.restart).passes
  obtain ⟨-, heof⟩ := functions_ends room (s := s.restart) (n := s.tokens.length) (Nat.le_refl _)
    (Nat.le_refl _)
  have hrest : s.tokens = ts ++ (functions room s.tokens.length s.restart).2.rest := hpasses.rest
  have hend : upToEof s.tokens = ts := by
    rw [hrest]
    exact upToEof_append hts heof
  rw [hrun, hend]
  exact ⟨hpasses.tokens, by rw [hpasses.position]; exact Nat.zero_add _, hpasses.depth⟩

/-- No loop needs its count of rounds to end. -/
structure LoopsEnd : Prop where
  arguments : ∀ levels, EndsItself (moreItems (wholeExpression (climb levels) .or))
  operators : ∀ levels least left, least ≠ .none →
    EndsItself (Parser.operators (climb levels) least · left)
  params : EndsItself (moreItems param)
  statements : ∀ room, EndsItself (Parser.statements (statement room))
  /-- Here it is the stack that need not have more levels than there are tokens. -/
  blocks : EndsItself blockWithin
  functions : ∀ room s n, s.rest.length ≤ n →
    Parser.functions room n s = Parser.functions room s.rest.length s

theorem loopsEnd : LoopsEnd where
  arguments _ := endsItself_moreItems (steady_wholeExpression (steady_climb _) _)
  operators _ _ left hp := endsItself_operators (steady_climb _) hp left
  params := endsItself_moreItems steady_param
  statements room := endsItself_statements (steady_statement room)
    (length_lt_of_statementWith (steady_blockWithin room) room)
  blocks := endsItself_blockWithin
  functions room _ _ hn := (functions_ends room hn (Nat.le_refl _)).1

/-- Reading ends, and however a production ends it leaves the state in order. Statements do not fail
and move on unless the block ends, and a program is read up to the end of the input. -/
theorem productions_keep_state :
    LoopsEnd ∧
    (∀ least, (expressionAt least).KeepsState) ∧ typeName.KeepsState ∧ params.KeepsState ∧
    (∀ room, (blockWithin room).KeepsState ∧ (statement room).KeepsState ∧
      (function room).KeepsState) ∧
    (∀ s : ParserState, s.Keeps (s.move .synchronize)) ∧
    (∀ room s, ∃ o s', statement room s = .ok o s' ∧
      (s.peek.kind ∉ [.rightBracket, .funcWord, .eof] → s.position < s'.position)) ∧
    ∀ room s, ((program room).run s).2.tokens = s.tokens ∧
      ((program room).run s).2.position = (upToEof s.tokens).length ∧
      ((program room).run s).2.depth = 0 := by
  refine ⟨loopsEnd, fun least => (steady_expressionAt least).keepsState,
    steady_typeName.keepsState, steady_param.items.keepsState, fun room =>
    ⟨(steady_blockWithin room).keepsState, (steady_statement room).keepsState,
      (steady_function room).keepsState⟩, fun s => ?_, exists_statement, program_ends⟩
  have hskip : s.Reaches (s.move .synchronize) := .skipStatement s.before s.rest
  exact hskip.keeps

end Parser

end BracketLang
