import BracketLang.Proofs.Grammar.Discipline

/-! Reading sees no further than the end of the input, and where the end is not marked it is as if
it were. `Cursor.closed` cuts off what stands behind the first end-of-file token, and puts that
token where it is missing. No production can tell the difference (`Parser.Overlooks`): it gives the
same result, or the same error, and ends in the same place. The counts of rounds differ, but they
never end a loop. -/

namespace BracketLang

namespace Cursor

/-- The tokens to come, up to the first end of file and with nothing behind it. -/
def closeOff : (before rest : List Token) → List Token
  | before, [] => [(⟨before, []⟩ : Cursor).implicitEof]
  | before, t :: ts => if t.kind = .eof then [t] else t :: closeOff (t :: before) ts

/-- The same place in tokens that end with an end of file. -/
def closed (c : Cursor) : Cursor := ⟨c.before, closeOff c.before c.rest⟩

variable (c : Cursor)

@[simp] theorem before_closed : c.closed.before = c.before := rfl

@[simp] theorem position_closed : c.closed.position = c.position := rfl

@[simp] theorem peek_closed : c.closed.peek = c.peek := by
  obtain ⟨before, _ | ⟨t, ts⟩⟩ := c
  · rfl
  · by_cases ht : t.kind = .eof <;> simp [closed, closeOff, peek, ht]

@[simp] theorem previous_closed : c.closed.previous = c.previous := by
  simp only [previous, before_closed, peek_closed]

@[simp] theorem check_closed (k : TokenKind) : c.closed.check k = c.check k := by
  simp only [check, peek_closed]

@[simp] theorem atBlockBoundary_closed : c.closed.atBlockBoundary = c.atBlockBoundary := by
  simp only [atBlockBoundary, atFunctionBoundary, atEnd, check_closed]

theorem kind_peekNext_closed (h : c.peek.kind ≠ .eof) :
    c.closed.peekNext.kind = c.peekNext.kind := by
  obtain ⟨before, _ | ⟨t, ts⟩⟩ := c
  · exact absurd rfl h
  · have ht : t.kind ≠ .eof := h
    have hnext := peek_closed ⟨t :: before, ts⟩
    rw [kind_peekNext, kind_peekNext, closed, closeOff, if_neg ht, List.tail_cons, List.tail_cons,
      ← kind_peek ⟨t :: before, ts⟩, ← hnext, kind_peek]
    rfl

/-! ## Moving -/

@[simp] theorem advance_closed : c.closed.advance = c.advance.closed := by
  obtain ⟨before, _ | ⟨t, ts⟩⟩ := c
  · rfl
  · by_cases ht : t.kind = .eof <;> simp [closed, closeOff, advance, ht]

theorem skipStatement_closeOff (before rest : List Token) :
    skipStatement before (closeOff before rest) = (skipStatement before rest).closed := by
  induction rest generalizing before with
  | nil => rfl
  | cons t ts ih =>
    rw [closeOff]
    split
    · next ht =>
      have hresume : TokenKind.isResumePoint .eof = true := by decide
      simp [skipStatement, closed, closeOff, ht, hresume]
    · next ht =>
      simp only [skipStatement]
      split
      · rfl
      · split
        · simp [closed, closeOff, ht]
        · exact ih (t :: before)

theorem skipFunction_closeOff (before rest : List Token) :
    skipFunction before (closeOff before rest) = (skipFunction before rest).closed := by
  induction rest generalizing before with
  | nil => rfl
  | cons t ts ih =>
    rw [closeOff]
    split
    · next ht => simp [skipFunction, closed, closeOff, ht]
    · next ht =>
      simp only [skipFunction]
      split
      · simp [closed, closeOff, ht]
      · exact ih (t :: before)

theorem resume_closed (start : Nat) : c.closed.resume start = (c.resume start).closed := by
  have hskip : c.closed.synchronize = c.synchronize.closed := skipStatement_closeOff ..
  simp only [resume, hskip, position_closed, atBlockBoundary_closed, advance_closed]
  split <;> rfl

theorem resumeAtFunction_closed (start : Nat) :
    c.closed.resumeAtFunction start = (c.resumeAtFunction start).closed := by
  have hskip (c : Cursor) : skipFunction c.closed.before c.closed.rest =
      (skipFunction c.before c.rest).closed := skipFunction_closeOff ..
  simp only [resumeAtFunction, position_closed, advance_closed]
  split <;> exact hskip _

/-! ## Closing off lists -/

theorem closeOff_append {before ts r : List Token} (hts : ∀ t ∈ ts, t.kind ≠ .eof) :
    closeOff before (ts ++ r) = ts ++ closeOff (ts.reverse ++ before) r := by
  induction ts generalizing before with
  | nil => rfl
  | cons t ts ih =>
    obtain ⟨ht, hts⟩ := List.forall_mem_cons.mp hts
    rw [List.cons_append, closeOff, if_neg ht, ih hts]
    simp

end Cursor

/-- The same state in tokens that end with an end of file. -/
def ParserState.closed (s : ParserState) : ParserState := s.move .closed

theorem ParserState.move_closed {g : Cursor → Cursor} (hg : ∀ c, g c.closed = (g c).closed)
    (s : ParserState) : s.closed.move g = (s.move g).closed := by
  simp only [move, closed, hg]

namespace Parser

open ParserState

/-- The same outcome in tokens that end with an end of file. -/
def closedOutcome {α : Type} :
    EStateM.Result SyntaxError ParserState α → EStateM.Result SyntaxError ParserState α
  | .ok a s => .ok a s.closed
  | .error e s => .error e s.closed

variable {α β : Type} {x y : Parser α} {f : α → Parser β}

/-- What stands behind the end of the input makes no difference, nor that nothing marks the end. -/
def Overlooks (x : Parser α) : Prop := ∀ s, x s.closed = closedOutcome (x s)

theorem overlooks_pure (a : α) : (pure a : Parser α).Overlooks := fun _ => rfl

theorem overlooks_throw (e : SyntaxError) : (throw e : Parser α).Overlooks := fun _ => rfl

/-- Looking at what is the same in both. -/
theorem overlooks_look {g : ParserState → α} (hg : ∀ s : ParserState, g s.closed = g s) :
    Overlooks fun s => .ok (g s) s := by
  intro s
  exact congrArg (EStateM.Result.ok · s.closed) (hg s)

theorem overlooks_step {h : ParserState → ParserState}
    (hh : ∀ s : ParserState, h s.closed = (h s).closed) :
    Overlooks fun s => .ok () (h s) := by
  intro s
  exact congrArg (EStateM.Result.ok ()) (hh s)

namespace Overlooks

theorem bind (hx : x.Overlooks) (hf : ∀ a, (f a).Overlooks) : (x >>= f).Overlooks := by
  intro s
  simp only [Bind.bind, EStateM.bind, hx s]
  cases x s with
  | ok a s₁ => exact hf a s₁
  | error e s₁ => rfl

theorem ite {c : Prop} [Decidable c] (hx : x.Overlooks) (hy : y.Overlooks) :
    (if c then x else y).Overlooks := by
  split
  · exact hx
  · exact hy

theorem map {g : α → β} (hx : x.Overlooks) : (g <$> x).Overlooks := by
  rw [← bind_pure_comp]
  exact hx.bind fun a => overlooks_pure (g a)

theorem nested (hx : x.Overlooks) : (nested x).Overlooks := by
  intro s
  have hrun := hx { s with depth := s.depth + 1 }
  have hdeeper : { s.closed with depth := s.closed.depth + 1 } =
      ({ s with depth := s.depth + 1 } : ParserState).closed := rfl
  simp only [Parser.nested, hdeeper, hrun]
  cases x { s with depth := s.depth + 1 } <;> rfl

/-- A loop that ends by itself, run with some count of rounds that depends on the tokens to come. -/
theorem rounds {loop : Nat → Parser α} (hend : EndsItself loop) (h : ∀ n, (loop n).Overlooks)
    (k : Nat) : (remaining >>= fun n => loop (n + k)).Overlooks := by
  intro s
  have hrun (s : ParserState) : (remaining >>= fun n => loop (n + k)) s = loop s.rest.length s :=
    hend s _ (Nat.le_add_right ..)
  -- enough rounds for both
  let n := s.rest.length + s.closed.rest.length
  calc (remaining >>= fun n => loop (n + k)) s.closed
    _ = loop s.closed.rest.length s.closed := hrun s.closed
    _ = loop n s.closed := (hend s.closed n (Nat.le_add_left ..)).symm
    _ = closedOutcome (loop n s) := h n s
    _ = closedOutcome (loop s.rest.length s) := by rw [hend s n (Nat.le_add_right ..)]
    _ = closedOutcome ((remaining >>= fun n => loop (n + k)) s) := by rw [hrun]

end Overlooks

/-! ## Tokens -/

theorem overlooks_peek : peek.Overlooks := overlooks_look fun s => s.peek_closed

theorem overlooks_previous : previous.Overlooks := overlooks_look fun s => s.previous_closed

theorem overlooks_check (k : TokenKind) : (check k).Overlooks :=
  overlooks_look fun s => s.check_closed k

theorem overlooks_visit (production : Production) : (visit production).Overlooks :=
  overlooks_step fun s => by
    have hpeek : s.closed.peek = s.peek := s.peek_closed
    simp only [ParserState.visit, hpeek]
    rfl

theorem overlooks_record (e : SyntaxError) : (record e).Overlooks := overlooks_step fun _ => rfl

theorem overlooks_advance : advance.Overlooks := by
  have hmove : (modify (·.move .advance) : Parser Unit).Overlooks :=
    overlooks_step (move_closed Cursor.advance_closed)
  exact hmove.bind fun _ => overlooks_previous

theorem overlooks_accept (k : TokenKind) : (accept k).Overlooks :=
  (overlooks_check k).bind fun _ =>
    .ite (overlooks_advance.bind fun _ => overlooks_pure true) (overlooks_pure false)

theorem overlooks_consume (k : TokenKind) : (consume k).Overlooks :=
  (overlooks_check k).bind fun _ =>
    .ite overlooks_advance (overlooks_peek.bind fun _ => overlooks_throw _)

theorem overlooks_closeParen : closeParen.Overlooks :=
  (overlooks_check .eof).bind fun _ =>
    .ite (overlooks_peek.bind fun _ => overlooks_throw _) (overlooks_consume .rightParen)

theorem Overlooks.moreItems (hx : x.Overlooks) (n : Nat) : (moreItems x n).Overlooks := by
  induction n with
  | zero => exact overlooks_pure []
  | succ n ih =>
    exact (overlooks_accept .comma).bind fun _ =>
      .ite (hx.bind fun _ => ih.bind fun _ => overlooks_pure _) (overlooks_pure [])

theorem Overlooks.items (hx : x.Overlooks) (hsteady : x.Steady) : (items x).Overlooks := by
  have hmore : (remaining >>= fun n => Parser.moreItems x (n + 0)).Overlooks :=
    .rounds (endsItself_moreItems hsteady) hx.moreItems 0
  refine (overlooks_check .rightParen).bind fun _ => .ite (overlooks_pure []) ?_
  refine hx.bind fun a => ?_
  have hrest := hmore.bind fun as => overlooks_pure (a :: as)
  rwa [bind_assoc] at hrest

/-! ## Expressions -/

section
variable {sub : Precedence → Parser Expr} (hsteady : ∀ p, (sub p).Steady)
variable (hsub : ∀ {p}, p ≠ .none → (sub p).Overlooks)
include hsub

theorem overlooks_wholeExpression (hp : p ≠ .none) : (wholeExpression sub p).Overlooks :=
  (overlooks_visit _).bind fun _ => hsub hp

theorem overlooks_operators (n : Nat) (left : Expr) : (operators sub least n left).Overlooks := by
  induction n generalizing left with
  | zero => exact overlooks_pure left
  | succ n ih =>
    refine overlooks_peek.bind fun _ => .ite ?_ (overlooks_pure left)
    exact overlooks_advance.bind fun _ => (hsub (Precedence.tighter_ne_none _)).bind fun _ => ih _

include hsteady

theorem overlooks_callOf (name : Token) : (callOf sub name).Overlooks := by
  refine (overlooks_visit _).bind fun _ => overlooks_advance.bind fun _ => ?_
  have hargs := (overlooks_wholeExpression hsub (p := .or) (by decide)).items
    (steady_wholeExpression hsteady .or)
  exact hargs.bind fun _ => overlooks_closeParen.bind fun _ => overlooks_pure _

theorem overlooks_operand : (operand sub).Overlooks := by
  refine overlooks_peek.bind fun token => ?_
  split
  · exact overlooks_advance.bind fun _ => overlooks_pure _
  · exact overlooks_advance.bind fun _ => overlooks_pure _
  · exact overlooks_advance.bind fun _ => overlooks_pure _
  · exact overlooks_advance.bind fun _ => (overlooks_check _).bind fun _ =>
      .ite (overlooks_callOf hsteady hsub _) (overlooks_pure _)
  · exact overlooks_advance.bind fun _ => (hsub (by decide)).bind fun _ => overlooks_pure _
  · exact overlooks_advance.bind fun _ => (hsub (by decide)).bind fun _ => overlooks_pure _
  · exact overlooks_advance.bind fun _ => (overlooks_wholeExpression hsub (by decide)).bind fun _ =>
      overlooks_closeParen.bind fun _ => overlooks_pure _
  · exact overlooks_throw _

end

theorem overlooks_climb (levels : Nat) (hp : p ≠ .none) : (climb levels p).Overlooks := by
  induction levels generalizing p with
  | zero => exact overlooks_peek.bind fun _ => .ite (overlooks_throw _) (overlooks_throw _)
  | succ levels ih =>
    have hsteady := steady_climb levels
    exact Overlooks.nested <| (overlooks_operand hsteady ih).bind fun left =>
      .rounds (endsItself_operators hsteady hp left) (fun n => overlooks_operators ih n left) 1

theorem overlooks_expression (room : Nat) : (expression room).Overlooks := by
  intro s
  exact overlooks_wholeExpression (overlooks_climb (min room (maxExpressionDepth - s.depth)))
    (by decide) s

/-! ## Statements -/

theorem overlooks_typeName : typeName.Overlooks :=
  overlooks_peek.bind fun _ =>
    .ite (overlooks_advance.bind fun _ => overlooks_pure _) (overlooks_throw _)

theorem overlooks_spanFrom (start : Location) : (spanFrom start).Overlooks :=
  overlooks_previous.bind fun _ => overlooks_pure _

theorem overlooks_letStatement (room : Nat) : (letStatement room).Overlooks :=
  (overlooks_visit _).bind fun _ => (overlooks_consume _).bind fun _ =>
    (overlooks_consume _).bind fun _ => (overlooks_consume _).bind fun _ =>
    overlooks_typeName.bind fun _ => (overlooks_consume _).bind fun _ =>
    (overlooks_expression room).bind fun _ => (overlooks_consume _).bind fun _ =>
    (overlooks_spanFrom _).bind fun _ => overlooks_pure _

theorem overlooks_assignment (room : Nat) : (assignment room).Overlooks :=
  (overlooks_visit _).bind fun _ => (overlooks_consume _).bind fun _ =>
    (overlooks_consume _).bind fun _ => (overlooks_expression room).bind fun _ =>
    (overlooks_consume _).bind fun _ => (overlooks_spanFrom _).bind fun _ => overlooks_pure _

theorem overlooks_returnStatement (room : Nat) : (returnStatement room).Overlooks := by
  have ending (start : Location) (value : Option Expr) : Overlooks (do
      let _ ← consume .semicolon
      return Stmt.ret value (← spanFrom start)) :=
    (overlooks_consume _).bind fun _ => (overlooks_spanFrom _).bind fun _ => overlooks_pure _
  refine (overlooks_visit _).bind fun _ => (overlooks_consume _).bind fun _ =>
    (overlooks_check _).bind fun _ => ?_
  split
  · exact (overlooks_pure _).bind fun _ => ending _ _
  · exact (overlooks_expression room).map.bind fun _ => ending _ _

theorem overlooks_printStatement (room : Nat) : (printStatement room).Overlooks :=
  (overlooks_visit _).bind fun _ => (overlooks_consume _).bind fun _ =>
    (overlooks_expression room).bind fun _ => (overlooks_consume _).bind fun _ =>
    (overlooks_spanFrom _).bind fun _ => overlooks_pure _

theorem overlooks_expressionStatement (room : Nat) : (expressionStatement room).Overlooks :=
  (overlooks_visit _).bind fun _ => (overlooks_expression room).bind fun _ =>
    (overlooks_consume _).bind fun _ => (overlooks_spanFrom _).bind fun _ => overlooks_pure _

section
variable {b : Parser Block} (hb : b.Overlooks)
include hb

theorem overlooks_ifStatement (room : Nat) : (ifStatement room b).Overlooks :=
  (overlooks_visit _).bind fun _ => (overlooks_consume _).bind fun _ =>
    (overlooks_expression room).bind fun _ => hb.bind fun _ => (overlooks_accept _).bind fun _ =>
    .ite (hb.bind fun _ => (overlooks_spanFrom _).bind fun _ => overlooks_pure _)
      ((overlooks_spanFrom _).bind fun _ => overlooks_pure _)

theorem overlooks_whileStatement (room : Nat) : (whileStatement room b).Overlooks :=
  (overlooks_visit _).bind fun _ => (overlooks_consume _).bind fun _ =>
    (overlooks_expression room).bind fun _ => hb.bind fun _ =>
    (overlooks_spanFrom _).bind fun _ => overlooks_pure _

omit hb in
theorem overlooks_cursor_bind {f : Cursor → Parser β}
    (hf : ∀ s : ParserState, f s.closed.toCursor s.closed = closedOutcome (f s.toCursor s)) :
    (cursor >>= f).Overlooks :=
  hf

/-- The token behind the next one is looked at only where the next one is not the last. -/
theorem overlooks_properStatement (room : Nat) : (properStatement room b).Overlooks := by
  refine overlooks_cursor_bind fun s => ?_
  have hpeek : s.closed.toCursor.peek = s.peek := s.peek_closed
  rw [hpeek]
  generalize hk : s.peek.kind = k
  split
  · exact overlooks_letStatement room s
  · exact overlooks_ifStatement hb room s
  · exact overlooks_whileStatement hb room s
  · exact overlooks_returnStatement room s
  · exact overlooks_printStatement room s
  · have hnext : s.closed.toCursor.peekNext.kind = s.peekNext.kind :=
      s.kind_peekNext_closed (by rw [hk]; decide)
    rw [hnext]
    exact Overlooks.ite (overlooks_assignment room) (overlooks_expressionStatement room) s
  · exact overlooks_expressionStatement room s

theorem overlooks_statementWith (room : Nat) : (statementWith room b).Overlooks := by
  intro s
  have hposition : s.closed.position = s.position := rfl
  simp only [statementWith, overlooks_properStatement hb room s, hposition]
  cases properStatement room b s with
  | ok a s₁ => rfl
  | error e s₁ =>
    have hresume := move_closed (fun c => c.resume_closed s.position) (s₁.record e)
    exact congrArg (EStateM.Result.ok none) hresume

end

theorem overlooks_statements {st : Parser (Option Stmt)} (hst : st.Overlooks) (n : Nat) :
    (statements st n).Overlooks := by
  induction n with
  | zero => exact overlooks_pure []
  | succ n ih =>
    intro s
    have hboundary : s.closed.atBlockBoundary = s.atBlockBoundary := s.atBlockBoundary_closed
    rw [statements_succ, statements_succ, hboundary]
    refine Overlooks.ite (overlooks_pure []) ?_ s
    exact hst.bind fun _ => ih.bind fun _ => overlooks_pure _

theorem overlooks_blockWithin (room : Nat) : (blockWithin room).Overlooks := by
  induction room with
  | zero =>
    exact (overlooks_visit _).bind fun _ => overlooks_peek.bind fun _ => overlooks_throw _
  | succ room ih =>
    have hbody : Overlooks (remaining >>= fun k =>
        statements (statementWith room (blockWithin room)) (k + 0)) :=
      .rounds (loopsEnd.statements room)
        (overlooks_statements (overlooks_statementWith ih room)) 0
    refine (overlooks_visit _).bind fun _ => (overlooks_consume _).bind fun opening => ?_
    have hrest := hbody.bind fun body => (overlooks_check .rightBracket).bind fun closes =>
      Overlooks.ite (c := closes = true)
        (overlooks_advance.bind fun closing =>
          overlooks_pure (⟨body, ⟨opening.location, closing.location⟩⟩ : Block))
        (overlooks_peek.bind fun found =>
          (overlooks_record ⟨.unterminatedBlock opening.location, found⟩).bind fun _ =>
          (overlooks_spanFrom opening.location).bind fun span => overlooks_pure ⟨body, span⟩)
    rwa [bind_assoc] at hrest

/-! ## Functions -/

theorem overlooks_param : param.Overlooks :=
  (overlooks_visit _).bind fun _ => (overlooks_consume _).bind fun _ =>
    (overlooks_consume _).bind fun _ => overlooks_typeName.bind fun _ => overlooks_pure _

theorem overlooks_function (room : Nat) : (function room).Overlooks :=
  (overlooks_visit _).bind fun _ => (overlooks_consume _).bind fun _ =>
    (overlooks_consume _).bind fun _ => (overlooks_consume _).bind fun _ =>
    (overlooks_param.items steady_param).bind fun _ => (overlooks_consume _).bind fun _ =>
    (overlooks_consume _).bind fun _ => overlooks_typeName.bind fun _ =>
    (overlooks_blockWithin (room + 1)).bind fun _ => (overlooks_spanFrom _).bind fun _ =>
    overlooks_pure _

theorem functionOrSkip_closed (room : Nat) (s : ParserState) :
    functionOrSkip room s.closed =
      ((functionOrSkip room s).1, (functionOrSkip room s).2.closed) := by
  have hposition : s.closed.position = s.position := rfl
  simp only [functionOrSkip, overlooks_function room s, hposition]
  cases function room s with
  | ok f s₁ => rfl
  | error e s₁ =>
    have hresume := move_closed (fun c => c.resumeAtFunction_closed s.position) (s₁.record e)
    exact congrArg (Prod.mk none) hresume

theorem functions_closed (room n : Nat) (s : ParserState) :
    functions room n s.closed = ((functions room n s).1, (functions room n s).2.closed) := by
  induction n generalizing s with
  | zero => rfl
  | succ n ih =>
    have hend : s.closed.atEnd = s.atEnd := s.check_closed .eof
    rw [functions_succ, functions_succ, hend, functionOrSkip_closed, ih]
    split <;> rfl

end Parser

namespace Parsed

open Parser ParserState

/-- Whether the end is marked, and what stands behind it, makes no difference to a whole program. -/
theorem ofTokens_closeOff (stack : Nat) (tokens : List Token) :
    (ofTokens stack (Cursor.closeOff [] tokens)).program.functions =
      (ofTokens stack tokens).program.functions ∧
    (ofTokens stack (Cursor.closeOff [] tokens)).state = (ofTokens stack tokens).state.closed := by
  let n := tokens.length + (Cursor.closeOff [] tokens).length
  have hrun (ts : List Token) (h : ts.length ≤ n) :
      functions stack ts.length (.ofTokens ts) = functions stack n (.ofTokens ts) :=
    (functions_ends stack (s := .ofTokens ts) (Nat.le_refl _) h).1
  have hclosed : functions stack n (.ofTokens (Cursor.closeOff [] tokens)) = _ :=
    functions_closed stack n (.ofTokens tokens)
  have hfunctions (ts : List Token) : (ofTokens stack ts).program.functions =
      (functions stack ts.length (.ofTokens ts)).1 := rfl
  have hstate (ts : List Token) : (ofTokens stack ts).state =
      (functions stack ts.length (.ofTokens ts)).2 := rfl
  rw [hfunctions, hfunctions, hstate, hstate, hrun _ (Nat.le_add_left ..),
    hrun _ (Nat.le_add_right ..), hclosed]
  exact ⟨rfl, rfl⟩

/-- The two lists are read alike: the functions and the errors are the same, and reading ends behind
as many tokens. -/
structure SameReading (stack : Nat) (tokens tokens' : List Token) : Prop where
  functions : (ofTokens stack tokens').program.functions =
    (ofTokens stack tokens).program.functions
  errors : (ofTokens stack tokens').state.errors = (ofTokens stack tokens).state.errors
  position : (ofTokens stack tokens').state.position = (ofTokens stack tokens).state.position

theorem sameReading_of_closeOff {tokens tokens' : List Token}
    (h : Cursor.closeOff [] tokens' = Cursor.closeOff [] tokens) :
    SameReading stack tokens tokens' := by
  obtain ⟨hfunctions, hstate⟩ := ofTokens_closeOff stack tokens
  obtain ⟨hfunctions', hstate'⟩ := ofTokens_closeOff stack tokens'
  rw [h] at hfunctions' hstate'
  have hclosed : (ofTokens stack tokens').state.closed = (ofTokens stack tokens).state.closed :=
    hstate'.symm.trans hstate
  have herrors (s : ParserState) : s.closed.errors = s.errors := rfl
  have hposition (s : ParserState) : s.closed.position = s.position := rfl
  refine ⟨hfunctions'.symm.trans hfunctions, ?_, ?_⟩
  · rw [← herrors, hclosed, herrors]
  · rw [← hposition, hclosed, hposition]

/-- The end of file that tokens without one imply: it has no text, and stands where the last token
stands. -/
def impliedEof (tokens : List Token) : Token :=
  .eofAt ((tokens.getLast?.map Token.location).getD .origin)

section
variable {tokens : List Token} (h : ∀ t ∈ tokens, t.kind ≠ .eof)
include h

theorem closeOff_append_eof (heof : eof.kind = .eof) (behind : List Token) :
    Cursor.closeOff [] (tokens ++ eof :: behind) = tokens ++ [eof] := by
  rw [Cursor.closeOff_append h, Cursor.closeOff, if_pos heof]

theorem closeOff_of_ne_eof : Cursor.closeOff [] tokens = tokens ++ [impliedEof tokens] := by
  have happend : Cursor.closeOff [] (tokens ++ []) =
      tokens ++ Cursor.closeOff (tokens.reverse ++ []) [] := Cursor.closeOff_append h
  rw [List.append_nil, List.append_nil] at happend
  have himplied : (⟨tokens.reverse, []⟩ : Cursor).implicitEof = impliedEof tokens := by
    rw [impliedEof, ← List.head?_reverse, Cursor.implicitEof]
    cases tokens.reverse <;> rfl
  rw [happend, Cursor.closeOff, himplied]

end

theorem program_ofTokens (stack : Nat) (tokens : List Token) : (ofTokens stack tokens).program =
    ⟨(ofTokens stack tokens).program.functions, spanOf tokens⟩ := by
  have htokens : (ofTokens stack tokens).state.tokens = tokens :=
    (program_ends stack (.ofTokens tokens)).1
  have hprogram : (ofTokens stack tokens).program =
      ⟨(ofTokens stack tokens).program.functions, spanOf (ofTokens stack tokens).state.tokens⟩ :=
    rfl
  rwa [htokens] at hprogram

/-- A program reaches from its first token to its last, and the implied end of file is where the
last one is. -/
theorem spanOf_append_impliedEof (tokens : List Token) :
    spanOf (tokens ++ [impliedEof tokens]) = spanOf tokens := by
  cases tokens with
  | nil => rfl
  | cons t ts => simp [spanOf, impliedEof, Token.eofAt, List.getLast?_cons]

/-- Reading depends on the tokens up to the first end of file, and where there is none it is
implied. Tokens without an end of file are read as they are with one behind the last of them: the
program, the errors with the tokens they blame and the place where reading ends are the same. And
whatever stands behind an end of file, the functions, the errors and the place are the same. -/
theorem reads_up_to_eof (stack : Nat) (tokens behind : List Token)
    (h : ∀ t ∈ tokens, t.kind ≠ .eof) :
    (ofTokens stack (tokens ++ [impliedEof tokens])).program = (ofTokens stack tokens).program ∧
    SameReading stack tokens (tokens ++ [impliedEof tokens]) ∧
    ∀ eof : Token, eof.kind = .eof →
      SameReading stack (tokens ++ [eof]) (tokens ++ [eof] ++ behind) := by
  have himplied : SameReading stack tokens (tokens ++ [impliedEof tokens]) :=
    sameReading_of_closeOff <| by rw [closeOff_of_ne_eof h, closeOff_append_eof h rfl]
  refine ⟨?_, himplied, ?_⟩
  · calc (ofTokens stack (tokens ++ [impliedEof tokens])).program
      _ = ⟨_, spanOf (tokens ++ [impliedEof tokens])⟩ := program_ofTokens _ _
      _ = ⟨(ofTokens stack tokens).program.functions, spanOf tokens⟩ := by
        rw [himplied.functions, spanOf_append_impliedEof]
      _ = (ofTokens stack tokens).program := (program_ofTokens stack tokens).symm
  · intro eof heof
    apply sameReading_of_closeOff
    rw [List.append_assoc, List.singleton_append, closeOff_append_eof h heof,
      closeOff_append_eof h heof]

/-- A function that breaks off in an expression: the errors at its end are the same whether the end
is marked or not, and a function behind the mark is not read. -/
theorem cutFunction_read_up_to_eof :
    (∀ t ∈ cutFunction, t.kind ≠ .eof) ∧
    (ofTokens 100 (cutFunction ++ [impliedEof cutFunction])).program =
      (ofTokens 100 cutFunction).program ∧
    ((ofTokens 100 (cutFunction ++ [impliedEof cutFunction])).state.errors.map fun e =>
      (e.code, e.location.column)) = [("P010", 10), ("P004", 10)] ∧
    (ofTokens 100 (cutFunction ++ [.eofAt .origin] ++ emptyFunction)).program.functions.map
      Function.name = ["f"] ∧
    (ofTokens 100 (cutFunction ++ [.eofAt .origin] ++ emptyFunction)).state.position = 10 := by
  have h : ∀ t ∈ cutFunction, t.kind ≠ .eof := by decide
  obtain ⟨hprogram, himplied, hbehind⟩ := reads_up_to_eof 100 cutFunction emptyFunction h
  have hbehind := hbehind (.eofAt .origin) rfl
  refine ⟨h, hprogram, ?_, ?_, ?_⟩
  · rw [himplied.errors]
    decide +kernel
  · rw [hbehind.functions]
    decide +kernel
  · rw [hbehind.position]
    decide +kernel

end Parsed

end BracketLang
