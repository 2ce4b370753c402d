import BracketLang.Grammar.Program

/-! What every production does to the state of the parser, whether it gives a result or fails: it
takes some tokens, none of which is the end of file, leaves as many levels open as it found, and
keeps the errors on record. `ParserState.Reaches` says this of two states and `Parser.Steady` of a
parser. Statements also take at least one token (`Parser.Moves`), and so does going on after an
error, unless the block ends. -/

namespace BracketLang

namespace ParserState

/-- `s'` stands behind the tokens `ts` that come next in `s`, with as many levels open. -/
structure Passes (s : ParserState) (ts : List Token) (s' : ParserState) : Prop where
  rest : s.rest = ts ++ s'.rest
  before : s'.before = ts.reverse ++ s.before
  depth : s'.depth = s.depth

namespace Passes

variable {s s' s'' : ParserState} {ts us : List Token}

theorem refl (s : ParserState) : s.Passes [] s := ⟨rfl, rfl, rfl⟩

theorem trans (h : s.Passes ts s') (h' : s'.Passes us s'') : s.Passes (ts ++ us) s'' where
  rest := by rw [h.rest, h'.rest, List.append_assoc]
  before := by rw [h'.before, h.before, List.reverse_append, List.append_assoc]
  depth := h'.depth.trans h.depth

/-- What stands behind the tokens taken is what stood behind them before. -/
theorem rest_eq (h : s.Passes ts s') (hr : s.rest = ts ++ r) : s'.rest = r :=
  List.append_cancel_left (h.rest.symm.trans hr)

theorem length_le (h : s.Passes ts s') : s'.rest.length ≤ s.rest.length := by
  rw [h.rest, List.length_append]
  omega

theorem position (h : s.Passes ts s') : s'.position = s.position + ts.length := by
  rw [Cursor.position, h.before, List.length_append, List.length_reverse, Nat.add_comm]
  rfl

theorem tokens (h : s.Passes ts s') : s'.tokens = s.tokens := by
  rw [Cursor.tokens, Cursor.tokens, h.before, h.rest]
  simp

end Passes

/-- Parsing can get from `s` to `s'`. -/
structure Reaches (s s' : ParserState) : Prop where
  passes : ∃ ts, s.Passes ts s' ∧ ∀ t ∈ ts, t.kind ≠ .eof
  errors : s.errors <+: s'.errors

namespace Reaches

variable {s s' s'' : ParserState}

theorem refl (s : ParserState) : s.Reaches s :=
  ⟨⟨[], .refl s, fun _ h => nomatch h⟩, List.prefix_refl _⟩

theorem trans (h : s.Reaches s') (h' : s'.Reaches s'') : s.Reaches s'' := by
  obtain ⟨⟨ts, ht, hts⟩, he⟩ := h
  obtain ⟨⟨us, hu, hus⟩, he'⟩ := h'
  refine ⟨⟨ts ++ us, ht.trans hu, fun t hmem => ?_⟩, he.trans he'⟩
  rcases List.mem_append.mp hmem with hmem | hmem
  · exact hts t hmem
  · exact hus t hmem

theorem length_le (h : s.Reaches s') : s'.rest.length ≤ s.rest.length :=
  let ⟨_, h, _⟩ := h.passes
  h.length_le

/-- Where no error is new at the end, none was new in between. -/
theorem errors_eq (h : s.Reaches s') (h' : s'.Reaches s'') (he : s''.errors = s.errors) :
    s'.errors = s.errors ∧ s''.errors = s'.errors := by
  have hle := h.errors.length_le
  have hle' := h'.errors.length_le
  rw [he] at hle'
  have heq : s.errors = s'.errors := h.errors.eq_of_length (Nat.le_antisymm hle hle')
  exact ⟨heq.symm, he.trans heq⟩

theorem visit (s : ParserState) (production : Production) : s.Reaches (s.visit production) :=
  ⟨⟨[], ⟨rfl, rfl, rfl⟩, fun _ h => nomatch h⟩, List.prefix_refl _⟩

theorem record (s : ParserState) (e : SyntaxError) : s.Reaches (s.record e) :=
  ⟨⟨[], ⟨rfl, rfl, rfl⟩, fun _ h => nomatch h⟩, List.prefix_append ..⟩

theorem take {before ts : List Token} (ht : t.kind ≠ .eof) :
    Reaches ⟨⟨before, t :: ts⟩, d, es, vs⟩ ⟨⟨t :: before, ts⟩, d, es, vs⟩ :=
  ⟨⟨[t], ⟨rfl, rfl, rfl⟩, by simpa using ht⟩, List.prefix_refl _⟩

theorem advance (s : ParserState) : s.Reaches (s.move .advance) := by
  obtain ⟨⟨before, _ | ⟨t, ts⟩⟩, depth, errors, visits⟩ := s
  · exact .refl _
  · by_cases h : t.kind = .eof
    · simpa [move, Cursor.advance, h] using refl _
    · simpa [move, Cursor.advance, h] using take h

theorem skipStatement (before rest : List Token) :
    Reaches ⟨⟨before, rest⟩, d, es, vs⟩
      ⟨Cursor.skipStatement before rest, d, es, vs⟩ := by
  induction rest generalizing before with
  | nil => exact refl _
  | cons t ts ih =>
    simp only [Cursor.skipStatement]
    split
    · next h => exact take (by simp [h])
    · split
      · exact refl _
      · next h =>
        have hne : t.kind ≠ .eof := by
          intro he
          simp [he, TokenKind.isResumePoint, TokenKind.blockBoundaries] at h
        exact (take hne).trans (ih _)

theorem skipFunction (before rest : List Token) :
    Reaches ⟨⟨before, rest⟩, d, es, vs⟩
      ⟨Cursor.skipFunction before rest, d, es, vs⟩ := by
  induction rest generalizing before with
  | nil => exact refl _
  | cons t ts ih =>
    simp only [Cursor.skipFunction]
    split
    · exact refl _
    · next h => exact (take fun he => h (.inr he)).trans (ih _)

theorem resume (start : Nat) (s : ParserState) : s.Reaches (s.move (.resume start)) := by
  have h : s.Reaches { s with toCursor := s.synchronize } := skipStatement s.before s.rest
  unfold move Cursor.resume
  dsimp only
  split
  · exact h.trans (advance _)
  · exact h

/-- The cursor stands where it stood, or further on. -/
theorem eq_or_moved (h : s.Reaches s') : s'.toCursor = s.toCursor ∨
    s'.rest.length < s.rest.length ∧ s'.position ≠ s.position := by
  obtain ⟨ts, hpasses, -⟩ := h.passes
  cases ts with
  | nil =>
    obtain ⟨hrest, hbefore, -⟩ := hpasses
    simp only [List.reverse_nil, List.nil_append] at hrest hbefore
    exact .inl (Cursor.mk.injEq .. ▸ ⟨hbefore, hrest.symm⟩)
  | cons t ts =>
    refine .inr ⟨?_, ?_⟩
    · rw [hpasses.rest, List.length_append, List.length_cons]
      omega
    · rw [hpasses.position, List.length_cons]
      omega

/-- Going on where a statement failed takes a token, unless the block ended where it began. -/
theorem length_resume_lt (h : s.Reaches s') (hs : s.atBlockBoundary = false) :
    (s'.move (.resume s.position)).rest.length < s.rest.length := by
  have hsync : s.Reaches { s' with toCursor := s'.synchronize } :=
    h.trans (skipStatement s'.before s'.rest)
  simp only [move, Cursor.resume]
  rcases hsync.eq_or_moved with hcursor | ⟨hlt, hmoved⟩
  · have hend : s.atEnd = false := by
      simp only [Cursor.atBlockBoundary, Cursor.atFunctionBoundary, Bool.or_eq_false_iff] at hs
      exact hs.2.2
    rw [show s'.synchronize = s.toCursor from hcursor, if_pos ⟨rfl, by simp [hs]⟩]
    exact Nat.lt_of_succ_le (Nat.le_of_eq (Cursor.length_rest_advance hend))
  · rw [if_neg fun hc => hmoved hc.1]
    exact hlt

theorem resumeAtFunction (start : Nat) (s : ParserState) :
    s.Reaches (s.move (.resumeAtFunction start)) := by
  unfold move Cursor.resumeAtFunction
  dsimp only
  split
  · exact (advance s).trans (skipFunction _ _)
  · exact skipFunction _ _

/-- Going on where a function failed takes a token, unless there is none. -/
theorem length_resumeAtFunction_lt (h : s.Reaches s') (hs : s.atEnd = false) :
    (s'.move (.resumeAtFunction s.position)).rest.length < s.rest.length := by
  have hskip (c : Cursor) : (Cursor.skipFunction c.before c.rest).rest.length ≤ c.rest.length :=
    (skipFunction c.before c.rest : Reaches ⟨c, 0, [], []⟩ _).length_le
  simp only [move, Cursor.resumeAtFunction]
  rcases h.eq_or_moved with hcursor | ⟨hlt, hmoved⟩
  · rw [hcursor, if_pos rfl]
    have hlen := Cursor.length_rest_advance hs
    have hle := hskip s.advance
    omega
  · rw [if_neg hmoved]
    exact Nat.lt_of_le_of_lt (hskip s'.toCursor) hlt

end Reaches

end ParserState

/-! ## Parsers -/

namespace Parser

open ParserState

variable {α β : Type} {x : Parser α} {f : α → Parser β}

theorem bind_eq_ok {s s' : ParserState} {b : β} :
    (x >>= f) s = .ok b s' ↔ ∃ a s₁, x s = .ok a s₁ ∧ f a s₁ = .ok b s' := by
  simp only [bind, EStateM.bind]
  cases h : x s with
  | ok a s₁ => simp [and_assoc]
  | error e s₁ => simp

theorem bind_eq_error {s s' : ParserState} :
    (x >>= f) s = .error e s' ↔
      x s = .error e s' ∨ ∃ a s₁, x s = .ok a s₁ ∧ f a s₁ = .error e s' := by
  simp only [bind, EStateM.bind]
  cases h : x s with
  | ok a s₁ => simp [and_assoc]
  | error e s₁ => simp

theorem pure_eq_ok {s s' : ParserState} {a b : α} :
    (pure a : Parser α) s = .ok b s' ↔ a = b ∧ s = s' := by
  simp [pure, EStateM.pure]

/-- However the parser ends, it gets to a state that parsing can reach. -/
def Steady (x : Parser α) : Prop :=
  ∀ s, (∀ a s', x s = .ok a s' → s.Reaches s') ∧ ∀ e s', x s = .error e s' → s.Reaches s'

theorem Steady.ok (h : x.Steady) (hx : x s = .ok a s') : s.Reaches s' := (h s).1 a s' hx

theorem Steady.error (h : x.Steady) (hx : x s = .error e s') : s.Reaches s' := (h s).2 e s' hx

theorem steady_pure (a : α) : (pure a : Parser α).Steady := by
  refine fun s => ⟨fun b s' h => ?_, fun e s' h => nomatch h⟩
  cases pure_eq_ok.mp h |>.2
  exact .refl s

theorem steady_throw (e : SyntaxError) : (throw e : Parser α).Steady := by
  refine fun s => ⟨fun b s' h => (nomatch h), fun e s' h => ?_⟩
  cases h
  exact .refl s

theorem Steady.bind (hx : x.Steady) (hf : ∀ a, (f a).Steady) : (x >>= f).Steady := by
  refine fun s => ⟨fun b s' h => ?_, fun e s' h => ?_⟩
  · obtain ⟨a, s₁, h₁, h₂⟩ := bind_eq_ok.mp h
    exact (hx.ok h₁).trans ((hf a).ok h₂)
  · rcases bind_eq_error.mp h with h | ⟨a, s₁, h₁, h₂⟩
    · exact hx.error h
    · exact (hx.ok h₁).trans ((hf a).error h₂)

theorem Steady.ite {c : Prop} [Decidable c] {x y : Parser α} (hx : x.Steady) (hy : y.Steady) :
    (if c then x else y).Steady := by
  split
  · exact hx
  · exact hy

theorem Steady.map {g : α → β} (hx : x.Steady) : (g <$> x).Steady := by
  refine fun s => ⟨fun b s' h => ?_, fun e s' h => ?_⟩ <;>
    simp only [Functor.map, EStateM.map] at h <;> split at h <;> cases h
  · exact hx.ok ‹_›
  · exact hx.error ‹_›

/-- Looking at the state changes nothing. -/
theorem steady_look {g : ParserState → α} : Steady fun s => .ok (g s) s := by
  refine fun s => ⟨?_, fun e s' h => nomatch h⟩
  rintro _ _ ⟨⟩
  exact .refl s

theorem steady_peek : peek.Steady := steady_look
theorem steady_cursor : cursor.Steady := steady_look
theorem steady_previous : previous.Steady := steady_look
theorem steady_remaining : remaining.Steady := steady_look
theorem steady_check (kind : TokenKind) : (check kind).Steady := steady_look

theorem steady_step {g : ParserState → α} {h : ParserState → ParserState}
    (hh : ∀ s : ParserState, s.Reaches (h s)) : Steady fun s => .ok (g s) (h s) := by
  refine fun s => ⟨?_, fun e s' h => nomatch h⟩
  rintro _ _ ⟨⟩
  exact hh s

theorem steady_advance : advance.Steady := steady_step Reaches.advance

theorem steady_visit (production : Production) : (visit production).Steady :=
  steady_step fun s => .visit s production

theorem steady_record (e : SyntaxError) : (record e).Steady := steady_step fun s => .record s e

theorem steady_accept (kind : TokenKind) : (accept kind).Steady :=
  (steady_check kind).bind fun _ =>
    .ite (steady_advance.bind fun _ => steady_pure true) (steady_pure false)

theorem steady_consume (kind : TokenKind) : (consume kind).Steady :=
  (steady_check kind).bind fun _ => .ite steady_advance (steady_peek.bind fun _ => steady_throw _)

theorem steady_closeParen : closeParen.Steady :=
  (steady_check .eof).bind fun _ => .ite (steady_peek.bind fun _ => steady_throw _)
    (steady_consume .rightParen)

theorem Steady.nested (hx : x.Steady) : (nested x).Steady := by
  -- the level that is opened is closed on both exits
  have back {s s' : ParserState} (h : Reaches { s with depth := s.depth + 1 } s') :
      s.Reaches { s' with depth := s'.depth - 1 } := by
    obtain ⟨⟨ts, ⟨h₁, h₂, h₃⟩, hts⟩, he⟩ := h
    exact ⟨⟨ts, ⟨h₁, h₂, by simp [h₃]⟩, hts⟩, he⟩
  refine fun s => ⟨fun a s' h => ?_, fun e s' h => ?_⟩ <;>
    simp only [Parser.nested] at h <;> split at h <;> cases h
  · exact back (hx.ok ‹_›)
  · exact back (hx.error ‹_›)

theorem Steady.moreItems (hx : x.Steady) (n : Nat) : (moreItems x n).Steady := by
  induction n with
  | zero => exact steady_pure []
  | succ n ih =>
    exact (steady_accept .comma).bind fun _ =>
      .ite (hx.bind fun _ => ih.bind fun _ => steady_pure _) (steady_pure [])

theorem Steady.items (hx : x.Steady) : (items x).Steady :=
  (steady_check .rightParen).bind fun _ => .ite (steady_pure []) <|
    hx.bind fun _ => steady_remaining.bind fun _ => (hx.moreItems _).bind fun _ => steady_pure _

/-! ## Expressions -/

section
variable {sub : Precedence → Parser Expr} (hsub : ∀ p, (sub p).Steady)
include hsub

theorem steady_wholeExpression (p : Precedence) : (wholeExpression sub p).Steady :=
  (steady_visit _).bind fun _ => hsub p

theorem steady_callOf (name : Token) : (callOf sub name).Steady :=
  (steady_visit _).bind fun _ => steady_advance.bind fun _ =>
    (steady_wholeExpression hsub .or).items.bind fun _ =>
      steady_closeParen.bind fun _ => steady_pure _

theorem steady_operand : (operand sub).Steady := by
  refine steady_peek.bind fun token => ?_
  split
  · exact steady_advance.bind fun _ => steady_pure _
  · exact steady_advance.bind fun _ => steady_pure _
  · exact steady_advance.bind fun _ => steady_pure _
  · exact steady_advance.bind fun _ => (steady_check _).bind fun _ =>
      .ite (steady_callOf hsub _) (steady_pure _)
  · exact steady_advance.bind fun _ => (hsub _).bind fun _ => steady_pure _
  · exact steady_advance.bind fun _ => (hsub _).bind fun _ => steady_pure _
  · exact steady_advance.bind fun _ => (steady_wholeExpression hsub .or).bind fun _ =>
      steady_closeParen.bind fun _ => steady_pure _
  · exact steady_throw _

theorem steady_operators (least : Precedence) (n : Nat) (left : Expr) :
    (operators sub least n left).Steady := by
  induction n generalizing left with
  | zero => exact steady_pure left
  | succ n ih =>
    exact steady_peek.bind fun _ => .ite
      (steady_advance.bind fun _ => (hsub _).bind fun _ => ih _) (steady_pure left)

end

theorem steady_climb (levels : Nat) (least : Precedence) : (climb levels least).Steady := by
  induction levels generalizing least with
  | zero => exact steady_peek.bind fun _ => .ite (steady_throw _) (steady_throw _)
  | succ levels ih =>
    exact Steady.nested <| (steady_operand ih).bind fun _ => steady_remaining.bind fun _ =>
      steady_operators ih _ _ _

theorem steady_expressionAt (least : Precedence) : (expressionAt least).Steady :=
  Steady.bind (x := get) steady_look fun _ => steady_wholeExpression (steady_climb _) least

theorem steady_expression (room : Nat) : (expression room).Steady :=
  Steady.bind (x := get) steady_look fun _ => steady_wholeExpression (steady_climb _) .or

/-! ## Statements -/

/-- The parser also takes at least one token if it gives a result. -/
structure Moves (x : Parser α) : Prop where
  steady : x.Steady
  length_lt {s a s'} : x s = .ok a s' → s'.rest.length < s.rest.length

theorem Moves.bind (hx : x.Moves) (hf : ∀ a, (f a).Steady) : (x >>= f).Moves := by
  refine ⟨hx.steady.bind hf, fun h => ?_⟩
  obtain ⟨a, s₁, h₁, h₂⟩ := bind_eq_ok.mp h
  exact Nat.lt_of_le_of_lt ((hf a).ok h₂).length_le (hx.length_lt h₁)

theorem Steady.bind_moves (hx : x.Steady) (hf : ∀ a, (f a).Moves) : (x >>= f).Moves := by
  refine ⟨hx.bind fun a => (hf a).steady, fun h => ?_⟩
  obtain ⟨a, s₁, h₁, h₂⟩ := bind_eq_ok.mp h
  exact Nat.lt_of_lt_of_le ((hf a).length_lt h₂) (hx.ok h₁).length_le

theorem Moves.ite {c : Prop} [Decidable c] {x y : Parser α} (hx : x.Moves) (hy : y.Moves) :
    (if c then x else y).Moves := by
  split
  · exact hx
  · exact hy

theorem moves_consume (hk : k ≠ .eof) : (consume k).Moves := by
  refine ⟨steady_consume k, fun {s t s'} h => ?_⟩
  rw [consume_run] at h
  split at h
  · next hcheck =>
    cases h
    have hend : s.atEnd = false := by
      rw [Cursor.atEnd, Cursor.check, show s.peek.kind = k from of_decide_eq_true hcheck]
      exact decide_eq_false hk
    exact Nat.lt_of_succ_le (Nat.le_of_eq (Cursor.length_rest_advance hend))
  · cases h

/-- In front of a token of kind `k` the parser takes at least one token even if it fails. -/
structure Leads (k : TokenKind) (x : Parser α) : Prop extends x.Moves where
  error_lt {s e s'} : s.check k = true → x s = .error e s' → s'.rest.length < s.rest.length

theorem leads_consume (hk : k ≠ .eof) {f : Token → Parser α} (hf : ∀ t, (f t).Steady) :
    Leads k (do
      visit production
      let t ← consume k
      f t) := by
  refine ⟨(steady_visit _).bind_moves fun _ => (moves_consume hk).bind hf, fun {s e s'} hs h => ?_⟩
  obtain h | ⟨_, s₁, hvisit, h⟩ := bind_eq_error.mp h
  · cases h
  cases hvisit
  have hs : (s.visit production).check k = true := hs
  rcases bind_eq_error.mp h with h | ⟨t, s₁, h₁, h₂⟩
  · rw [consume_run, if_pos hs] at h
    cases h
  · have hlt : s₁.rest.length < (s.visit production).rest.length :=
      (moves_consume hk).length_lt h₁
    exact Nat.lt_of_le_of_lt ((hf t).error h₂).length_le hlt

theorem steady_typeName : typeName.Steady :=
  steady_peek.bind fun _ => .ite (steady_advance.bind fun _ => steady_pure _) (steady_throw _)

theorem steady_spanFrom (start : Location) : (spanFrom start).Steady :=
  steady_previous.bind fun _ => steady_pure _

theorem leads_letStatement (room : Nat) : (letStatement room).Leads .letWord :=
  leads_consume (by decide) fun _ => (steady_consume _).bind fun _ => (steady_consume _).bind
    fun _ => steady_typeName.bind fun _ => (steady_consume _).bind fun _ =>
      (steady_expression room).bind fun _ => (steady_consume _).bind fun _ =>
        (steady_spanFrom _).bind fun _ => steady_pure _

theorem moves_assignment (room : Nat) : (assignment room).Moves :=
  (steady_visit _).bind_moves fun _ => (moves_consume (by decide)).bind fun _ =>
    (steady_consume _).bind fun _ => (steady_expression room).bind fun _ => (steady_consume _).bind
      fun _ => (steady_spanFrom _).bind fun _ => steady_pure _

theorem leads_returnStatement (room : Nat) : (returnStatement room).Leads .returnWord := by
  refine leads_consume (by decide) fun _ => (steady_check _).bind fun _ => ?_
  have rest (start : Location) (value : Option Expr) : Steady (do
      let _ ← consume .semicolon
      return Stmt.ret value (← spanFrom start)) :=
    (steady_consume _).bind fun _ => (steady_spanFrom _).bind fun _ => steady_pure _
  split
  · exact (steady_pure _).bind fun _ => rest _ _
  · exact (steady_expression room).map.bind fun _ => rest _ _

theorem leads_printStatement (room : Nat) : (printStatement room).Leads .printWord :=
  leads_consume (by decide) fun _ => (steady_expression room).bind fun _ => (steady_consume _).bind
    fun _ => (steady_spanFrom _).bind fun _ => steady_pure _

theorem moves_expressionStatement (room : Nat) : (expressionStatement room).Moves :=
  (steady_visit _).bind_moves fun _ => (steady_expression room).bind_moves fun _ =>
    (moves_consume (by decide)).bind fun _ => (steady_spanFrom _).bind fun _ => steady_pure _

section
variable {block : Parser Block} (hb : block.Steady) (room : Nat)
include hb

theorem leads_ifStatement : (ifStatement room block).Leads .ifWord :=
  leads_consume (by decide) fun _ => (steady_expression room).bind fun _ => hb.bind fun _ =>
    (steady_accept _).bind fun _ => .ite
      (hb.bind fun _ => (steady_spanFrom _).bind fun _ => steady_pure _)
      ((steady_spanFrom _).bind fun _ => steady_pure _)

theorem leads_whileStatement : (whileStatement room block).Leads .whileWord :=
  leads_consume (by decide) fun _ => (steady_expression room).bind fun _ => hb.bind fun _ =>
    (steady_spanFrom _).bind fun _ => steady_pure _

theorem moves_properStatement : (properStatement room block).Moves := by
  refine steady_cursor.bind_moves fun c => ?_
  split
  · exact (leads_letStatement room).toMoves
  · exact (leads_ifStatement hb room).toMoves
  · exact (leads_whileStatement hb room).toMoves
  · exact (leads_returnStatement room).toMoves
  · exact (leads_printStatement room).toMoves
  · exact .ite (moves_assignment room) (moves_expressionStatement room)
  · exact moves_expressionStatement room

theorem steady_statementWith : (statementWith room block).Steady := by
  refine fun s => ⟨fun a s' h => ?_, fun e s' h => ?_⟩ <;>
    simp only [statementWith] at h <;> split at h <;> cases h
  · exact (moves_properStatement hb room).steady.ok ‹_›
  · exact ((moves_properStatement hb room).steady.error ‹_›).trans
      ((Reaches.record ..).trans (.resume ..))

/-- Off the end of the block a statement takes a token, whether or not it has an error in it. -/
theorem length_lt_of_statementWith (hs : s.atBlockBoundary = false)
    (h : statementWith room block s = .ok o s') : s'.rest.length < s.rest.length := by
  unfold statementWith at h
  split at h
  · next hok =>
    cases h
    exact (moves_properStatement hb room).length_lt hok
  · next s₁ herr =>
    cases h
    exact ((moves_properStatement hb room).steady.error herr).length_resume_lt hs

end

theorem steady_statements {statement : Parser (Option Stmt)} (hs : statement.Steady) (n : Nat) :
    (statements statement n).Steady := by
  induction n with
  | zero => exact steady_pure []
  | succ n ih =>
    exact steady_cursor.bind fun _ => .ite (steady_pure []) <|
      hs.bind fun _ => ih.bind fun _ => steady_pure _

theorem steady_blockWithin (room : Nat) : (blockWithin room).Steady := by
  induction room with
  | zero => exact (steady_visit _).bind fun _ => steady_peek.bind fun _ => steady_throw _
  | succ room ih =>
    exact (steady_visit _).bind fun _ => (steady_consume _).bind fun _ => steady_remaining.bind
      fun _ => (steady_statements (steady_statementWith ih room) _).bind fun _ =>
        (steady_check _).bind fun _ => .ite
          (steady_advance.bind fun _ => steady_pure _)
          (steady_peek.bind fun _ => (steady_record _).bind fun _ =>
            (steady_spanFrom _).bind fun _ => steady_pure _)

/-! ## Functions -/

theorem steady_param : param.Steady :=
  (steady_visit _).bind fun _ => (steady_consume _).bind fun _ => (steady_consume _).bind fun _ =>
    steady_typeName.bind fun _ => steady_pure _

theorem leads_function (room : Nat) : (function room).Leads .funcWord :=
  leads_consume (by decide) fun _ => (steady_consume _).bind fun _ => (steady_consume _).bind
    fun _ => steady_param.items.bind fun _ => (steady_consume _).bind fun _ =>
      (steady_consume _).bind fun _ => steady_typeName.bind fun _ =>
        (steady_blockWithin (room + 1)).bind fun _ => (steady_spanFrom _).bind fun _ =>
          steady_pure _

theorem steady_function (room : Nat) : (function room).Steady := (leads_function room).steady

theorem functions_succ (room n : Nat) (s : ParserState) :
    functions room (n + 1) s =
      if s.atEnd then ([], s)
      else
        ((functionOrSkip room s).1.toList ++ (functions room n (functionOrSkip room s).2).1,
          (functions room n (functionOrSkip room s).2).2) := by
  change (if s.atEnd then pure [] else _ : StateM ParserState _) s = _
  split <;> rfl

theorem reaches_functionOrSkip (room : Nat) (s : ParserState) :
    s.Reaches (functionOrSkip room s).2 := by
  unfold functionOrSkip
  split
  · exact (steady_function room).ok ‹_›
  · exact ((steady_function room).error ‹_›).trans
      ((Reaches.record ..).trans (.resumeAtFunction ..))

/-- In front of the end a function, or what is skipped for it, takes a token. -/
theorem length_lt_of_functionOrSkip (room : Nat) (hs : s.atEnd = false) :
    (functionOrSkip room s).2.rest.length < s.rest.length := by
  unfold functionOrSkip
  split
  · exact (leads_function room).length_lt ‹_›
  · next herr => exact ((steady_function room).error herr).length_resumeAtFunction_lt hs

theorem reaches_functions (room n : Nat) (s : ParserState) : s.Reaches (functions room n s).2 := by
  induction n generalizing s with
  | zero => exact .refl s
  | succ n ih =>
    rw [functions_succ]
    split
    · exact .refl s
    · exact (reaches_functionOrSkip room s).trans (ih _)

end Parser

end BracketLang
