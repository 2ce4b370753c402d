import BracketLang.Proofs.Grammar.Recovery

/-! Tokens among which no block opens and no statement ends. A statement or the header of a function
that breaks off there fails with one error (`properStatement_fails`, `function_fails`), and what is
left of the tokens is skipped. The error is never that a block does not end: such an error is put on
record where the block ends, and no parser fails with it (`Parser.NeverUnclosed`). -/

namespace BracketLang

namespace SyntaxError

/-- Whether the error is that a block does not end. -/
def IsUnclosed (e : SyntaxError) : Prop := e.kindName = "UNTERMINATED_BLOCK"

theorem not_isUnclosed_unexpected {kinds : List TokenKind} {what : Option String} {t : Token} :
    ¬IsUnclosed ⟨.unexpected kinds what, t⟩ := by
  simp [IsUnclosed, kindName]

theorem not_isUnclosed_unterminatedExpression {expected : String} {t : Token} :
    ¬IsUnclosed ⟨.unterminatedExpression expected, t⟩ := by
  simp [IsUnclosed, kindName]

theorem not_isUnclosed_nestingTooDeep {limit : Int} {t : Token} :
    ¬IsUnclosed ⟨.nestingTooDeep limit, t⟩ := by
  simp [IsUnclosed, kindName]

theorem not_isUnclosed_noExpression (t : Token) : ¬(Parser.noExpression t).IsUnclosed := by
  unfold Parser.noExpression
  split
  · exact not_isUnclosed_unterminatedExpression
  · exact not_isUnclosed_unexpected

end SyntaxError

namespace Parser

open ParserState SyntaxError

/-! ## Errors that parsers fail with -/

section
variable {α β : Type} {x y : Parser α} {f : α → Parser β}

/-- The parser does not fail with the error that a block does not end. -/
def NeverUnclosed (x : Parser α) : Prop := ∀ s e s', x s = .error e s' → ¬e.IsUnclosed

namespace NeverUnclosed

/-- What always gives a result does not fail at all. -/
theorem step {g : ParserState → α} {h : ParserState → ParserState} :
    NeverUnclosed fun s => .ok (g s) (h s) := by
  intro s e s' hok
  cases hok

theorem throw (h : ¬e.IsUnclosed) : NeverUnclosed (throw e : Parser α) := by
  intro s e' s' herr
  cases herr
  exact h

theorem bind (hx : NeverUnclosed x) (hf : ∀ a, NeverUnclosed (f a)) : NeverUnclosed (x >>= f) := by
  intro s e s' h
  rcases bind_eq_error.mp h with h | ⟨a, s₁, -, h⟩
  · exact hx s e s' h
  · exact hf a s₁ e s' h

theorem step_bind {g : ParserState → α} {h : ParserState → ParserState}
    (hf : ∀ a, NeverUnclosed (f a)) :
    NeverUnclosed ((fun s => .ok (g s) (h s) : Parser α) >>= f) :=
  step.bind hf

theorem ite {c : Prop} [Decidable c] (hx : NeverUnclosed x) (hy : NeverUnclosed y) :
    NeverUnclosed (if c then x else y) := by
  split
  · exact hx
  · exact hy

theorem map {g : α → β} (hx : NeverUnclosed x) : NeverUnclosed (g <$> x) := by
  intro s e s' h
  simp only [Functor.map, EStateM.map] at h
  split at h
  · cases h
  · next herr =>
    cases h
    exact hx _ _ _ herr

theorem consume (k : TokenKind) : NeverUnclosed (consume k) := by
  intro s e s' h
  rw [consume_run] at h
  split at h
  · cases h
  · cases h
    exact not_isUnclosed_unexpected

theorem closeParen : NeverUnclosed closeParen := by
  intro s e s' h
  rw [closeParen_run] at h
  split at h
  · cases h
    exact not_isUnclosed_unterminatedExpression
  · exact consume _ s e s' h

theorem nested (hx : NeverUnclosed x) : NeverUnclosed (nested x) := by
  intro s e s' h
  simp only [Parser.nested] at h
  split at h
  · cases h
  · next herr =>
    cases h
    exact hx _ _ _ herr

theorem accept (k : TokenKind) : NeverUnclosed (accept k) := by
  intro s e s' h
  rw [accept_run] at h
  split at h <;> cases h

theorem moreItems (hx : NeverUnclosed x) (n : Nat) : NeverUnclosed (moreItems x n) := by
  induction n with
  | zero => exact step
  | succ n ih =>
    exact (accept .comma).bind fun _ => ite (hx.bind fun _ => ih.bind fun _ => step) step

theorem items (hx : NeverUnclosed x) : NeverUnclosed (items x) :=
  step_bind fun _ => ite step <| hx.bind fun _ => step_bind fun n =>
    (hx.moreItems n).bind fun _ => step

end NeverUnclosed

end

section
variable {sub : Precedence → Parser Expr} (hsub : ∀ p, NeverUnclosed (sub p))
include hsub

theorem neverUnclosed_wholeExpression (p : Precedence) : NeverUnclosed (wholeExpression sub p) :=
  .step_bind fun _ => hsub p

theorem neverUnclosed_callOf (name : Token) : NeverUnclosed (callOf sub name) :=
  .step_bind fun _ => .step_bind fun _ =>
    (neverUnclosed_wholeExpression hsub .or).items.bind fun _ =>
      NeverUnclosed.closeParen.bind fun _ => .step

theorem neverUnclosed_operand : NeverUnclosed (operand sub) := by
  refine .step_bind fun token => ?_
  split
  · exact .step_bind fun _ => .step
  · exact .step_bind fun _ => .step
  · exact .step_bind fun _ => .step
  · exact .step_bind fun _ => .step_bind fun _ => .ite (neverUnclosed_callOf hsub _) .step
  · exact .step_bind fun _ => (hsub _).bind fun _ => .step
  · exact .step_bind fun _ => (hsub _).bind fun _ => .step
  · exact .step_bind fun _ => (neverUnclosed_wholeExpression hsub .or).bind fun _ =>
      NeverUnclosed.closeParen.bind fun _ => .step
  · exact .throw (not_isUnclosed_noExpression _)

theorem neverUnclosed_operators (least : Precedence) (n : Nat) (left : Expr) :
    NeverUnclosed (operators sub least n left) := by
  induction n generalizing left with
  | zero => exact .step
  | succ n ih =>
    exact .step_bind fun _ => .ite
      (.step_bind fun _ => (hsub _).bind fun _ => ih _) .step

end

theorem neverUnclosed_climb (levels : Nat) (least : Precedence) :
    NeverUnclosed (climb levels least) := by
  induction levels generalizing least with
  | zero =>
    exact .step_bind fun _ => .ite (.throw not_isUnclosed_nestingTooDeep)
      (.throw (not_isUnclosed_noExpression _))
  | succ levels ih =>
    exact .nested <| (neverUnclosed_operand ih).bind fun _ => .step_bind fun _ =>
      neverUnclosed_operators ih _ _ _

theorem neverUnclosed_expression (room : Nat) : NeverUnclosed (expression room) :=
  .step_bind fun _ => neverUnclosed_wholeExpression (neverUnclosed_climb _) .or

theorem neverUnclosed_typeName : NeverUnclosed typeName :=
  .step_bind fun _ => .ite (.step_bind fun _ => .step) (.throw not_isUnclosed_unexpected)

/-- The semicolon at the end of a statement. -/
theorem neverUnclosed_semicolon {g : Span → Stmt} : NeverUnclosed (do
    let _ ← consume .semicolon
    return g (← spanFrom start)) :=
  (NeverUnclosed.consume _).bind fun _ => .step

theorem neverUnclosed_returnStatement (room : Nat) : NeverUnclosed (returnStatement room) :=
  .step_bind fun _ => (NeverUnclosed.consume _).bind fun _ => .step_bind fun _ => .ite
    (.step_bind fun _ => neverUnclosed_semicolon)
    ((neverUnclosed_expression room).map.bind fun _ => neverUnclosed_semicolon)

theorem neverUnclosed_blockWithin (room : Nat) : NeverUnclosed (blockWithin room) := by
  intro s e s' h
  obtain ⟨rfl, -⟩ := eq_of_blockWithin_error h
  unfold noBlock
  split
  · exact not_isUnclosed_nestingTooDeep
  · exact not_isUnclosed_unexpected

theorem neverUnclosed_properStatement (room : Nat) :
    NeverUnclosed (properStatement room (blockWithin room)) := by
  refine .step_bind fun c => ?_
  have hvalue {g : Expr → Span → Stmt} {start : Expr → Location} : NeverUnclosed (do
      let e ← expression room
      let _ ← consume .semicolon
      return g e (← spanFrom (start e))) :=
    (neverUnclosed_expression room).bind fun _ => neverUnclosed_semicolon
  have hexpression : NeverUnclosed (expressionStatement room) := .step_bind fun _ => hvalue
  split
  · exact .step_bind fun _ => (NeverUnclosed.consume _).bind fun _ => (NeverUnclosed.consume _).bind
      fun _ => (NeverUnclosed.consume _).bind fun _ => neverUnclosed_typeName.bind fun _ =>
        (NeverUnclosed.consume _).bind fun _ => hvalue
  · exact .step_bind fun _ => (NeverUnclosed.consume _).bind fun _ =>
      (neverUnclosed_expression room).bind fun _ => (neverUnclosed_blockWithin room).bind fun _ =>
        (NeverUnclosed.accept _).bind fun _ => .ite
          ((neverUnclosed_blockWithin room).bind fun _ => .step) .step
  · exact .step_bind fun _ => (NeverUnclosed.consume _).bind fun _ =>
      (neverUnclosed_expression room).bind fun _ =>
      (neverUnclosed_blockWithin room).bind fun _ => .step
  · exact neverUnclosed_returnStatement room
  · exact .step_bind fun _ => (NeverUnclosed.consume _).bind fun _ => hvalue
  · exact .ite (.step_bind fun _ => (NeverUnclosed.consume _).bind fun _ =>
      (NeverUnclosed.consume _).bind fun _ => hvalue) hexpression
  · exact hexpression

theorem neverUnclosed_function (room : Nat) : NeverUnclosed (function room) := by
  have hparam : NeverUnclosed param :=
    .step_bind fun _ => (NeverUnclosed.consume _).bind fun _ => (NeverUnclosed.consume _).bind
      fun _ => neverUnclosed_typeName.bind fun _ => .step
  exact .step_bind fun _ => (NeverUnclosed.consume _).bind fun _ => (NeverUnclosed.consume _).bind
    fun _ => (NeverUnclosed.consume _).bind fun _ => hparam.items.bind fun _ =>
      (NeverUnclosed.consume _).bind fun _ => (NeverUnclosed.consume _).bind fun _ =>
        neverUnclosed_typeName.bind fun _ =>
          (neverUnclosed_blockWithin (room + 1)).bind fun _ => .step

end Parser

/-! ## Where no block opens -/

theorem nextKind_ne_of_forall (h : ∀ t ∈ ts, t.kind ≠ k) (hk : k ≠ .eof) : nextKind ts ≠ k := by
  cases ts with
  | nil => exact hk.symm
  | cons t ts => exact h t (List.mem_cons_self ..)

/-- What holds of all tokens to come holds of those that are left. -/
theorem ParserState.SameStatement.forall_rest {s s' : ParserState} {p : Token → Prop}
    (h : s.SameStatement s') (hs : ∀ t ∈ s.rest, p t) : ∀ t ∈ s'.rest, p t := by
  obtain ⟨ts, htakes, -⟩ := h
  intro t ht
  refine hs t ?_
  rw [htakes.rest]
  exact List.mem_append_right ts ht

/-- Every statement ends or opens a block. -/
theorem StmtDeriv.exists_mem_yield (d : StmtDeriv) :
    ∃ t ∈ d.yield, t.kind = .semicolon ∨ t.kind = .leftBracket := by
  cases d with
  | letVar _ _ _ _ _ _ semi | assign _ _ _ semi | retNone _ semi | ret _ _ semi | print _ _ semi
  | expr _ semi => exact ⟨semi.val, by simp [yield], .inl semi.property⟩
  | ifThen _ _ b | ifElse _ _ b | whileLoop _ _ b =>
    obtain ⟨lb, body, rb⟩ := b
    exact ⟨lb.val, by simp [yield, BlockDeriv.yield], .inr lb.property⟩

/-- Every function opens a block. -/
theorem FunctionDeriv.exists_mem_yield (d : FunctionDeriv) :
    ∃ t ∈ d.yield, t.kind = .leftBracket := by
  cases hbody : d.body with
  | mk lb body rb => exact ⟨lb.val, by simp [yield, hbody, BlockDeriv.yield], lb.property⟩

namespace Parser

open ParserState SyntaxError

variable {s s' : ParserState}

section
variable {α β : Type} {x : Parser α} {f : α → Parser β} {p : Token → Prop}

/-- What holds of all tokens to come still holds where a sequence goes on. -/
theorem Spares.bind_among (hs : ∀ t ∈ s.rest, p t) (hx : Spares x s)
    (hf : ∀ a s', (∀ t ∈ s'.rest, p t) → Spares (f a) s') : Spares (x >>= f) s :=
  hx.bind fun h => hf _ _ ((hx.ok h).forall_rest hs)

theorem Blames.bind_among (hs : ∀ t ∈ s.rest, p t) (hx : Spares x s)
    (hf : ∀ a s', (∀ t ∈ s'.rest, p t) → Blames (f a) s') : Blames (x >>= f) s :=
  .bind hx fun h => hf _ _ ((hx.ok h).forall_rest hs)

end

theorem spares_blockWithin (hs : nextKind s.rest ≠ .leftBracket) (room : Nat) :
    Spares (blockWithin room) s := by
  refine ⟨fun h => ?_, fun h => ?_⟩ <;> cases (blockWithin_of_ne hs room).symm.trans h
  exact ⟨⟨[], .visit _ _, List.forall_mem_nil _⟩, rfl⟩

/-- A statement with a block fails in front of the block at the latest. -/
theorem blames_blockStatement {f : Token → Expr → Block → Parser Stmt}
    (hs : ∀ t ∈ s.rest, t.kind ≠ .leftBracket) (hk : k ≠ .semicolon) (hne : k ≠ .eof) :
    Blames (do
      visit production
      let start ← consume k
      let condition ← expression room
      let body ← blockWithin room
      f start condition body) s := by
  refine .bind_among hs (.visit _ _) fun _ _ hs => .bind_among hs (.consume hk hne _)
    fun _ _ hs => .bind_among hs (spares_expression room _) fun _ s' hs => ?_
  have hnext := nextKind_ne_of_forall hs (by decide)
  refine .bind (spares_blockWithin hnext room) fun h => ?_
  cases (blockWithin_of_ne hnext room).symm.trans h

/-- A function fails in front of its block at the latest. -/
theorem spares_function (room : Nat) (hs : ∀ t ∈ s.rest, t.kind ≠ .leftBracket) :
    Spares (function room) s := by
  have hconsume {k : TokenKind} (s : ParserState) (hk : k ≠ .semicolon ∧ k ≠ .eof) :
      Spares (consume k) s := .consume hk.1 hk.2 s
  have hparam (s : ParserState) : Spares param s :=
    .bind (.visit _ _) fun _ => .bind (hconsume _ (by decide)) fun _ =>
      .bind (hconsume _ (by decide)) fun _ => .bind (spares_typeName _) fun _ => .pure _ _
  exact .bind_among hs (.visit _ _) fun _ _ hs => .bind_among hs (hconsume _ (by decide))
    fun _ _ hs => .bind_among hs (hconsume _ (by decide)) fun _ _ hs =>
    .bind_among hs (hconsume _ (by decide)) fun _ _ hs => .bind_among hs (.items hparam _)
    fun _ _ hs => .bind_among hs (hconsume _ (by decide)) fun _ _ hs =>
    .bind_among hs (hconsume _ (by decide)) fun _ _ hs => .bind_among hs (spares_typeName _)
    fun _ _ hs => .bind (spares_blockWithin (nextKind_ne_of_forall hs (by decide)) _) fun _ =>
      .look_bind (.pure _ _)

/-- Where neither a block opens nor a semicolon comes, a statement fails, and nothing is put on
record. -/
theorem properStatement_fails (hs : ∀ t ∈ s.rest, t.kind ≠ .leftBracket)
    (hsemi : ∀ t ∈ s.rest, t.kind ≠ .semicolon) (room : Nat) :
    ∃ e s', properStatement room (blockWithin room) s = .error e s' ∧ s.SameStatement s' ∧
      ¬e.IsUnclosed := by
  have hblames : Blames (properStatement room (blockWithin room)) s :=
    blames_properStatement (fun _ => blames_blockStatement hs (by decide) (by decide))
      fun _ => blames_blockStatement hs (by decide) (by decide)
  cases h : properStatement room (blockWithin room) s with
  | error e s' =>
    exact ⟨e, s', rfl, (hblames.error h).1, neverUnclosed_properStatement room s e s' h⟩
  | ok stmt s' =>
    obtain ⟨_, htakes, d, rfl, -, -⟩ :=
      (reads_properStatement (reads_blockWithin room)).takes h (hblames.ok h)
    obtain ⟨t, ht, hkind⟩ := d.exists_mem_yield
    have hmem : t ∈ s.rest := htakes.rest ▸ List.mem_append_left _ ht
    rcases hkind with hkind | hkind
    · exact absurd hkind (hsemi t hmem)
    · exact absurd hkind (hs t hmem)

/-- Where no block opens, a function fails, and nothing is put on record. -/
theorem function_fails (room : Nat) (hs : ∀ t ∈ s.rest, t.kind ≠ .leftBracket) :
    ∃ e s', function room s = .error e s' ∧ s.SameStatement s' ∧ ¬e.IsUnclosed := by
  have hspares := spares_function room hs
  cases h : function room s with
  | error e s' => exact ⟨e, s', rfl, (hspares.error h).1, neverUnclosed_function room s e s' h⟩
  | ok f s' =>
    obtain ⟨_, htakes, d, rfl, -, -⟩ := (reads_function room).takes h (hspares.ok h).errors
    obtain ⟨lb, hlb, hkind⟩ := d.exists_mem_yield
    exact absurd hkind (hs lb (htakes.rest ▸ List.mem_append_left _ hlb))

end Parser

/-! ## Statements and headers that break off -/

namespace Parser

section
variable {α β : Type} {x : Parser α} {f : α → Parser β} {P : α → Prop}

/-- At every state with no level open, in front of `ts` and then the end of input, the parser fails,
but not because a block does not end. It puts nothing on record, and what it leaves is skipped after
the error. -/
def GivesUp (x : Parser α) (ts : List Token) : Prop :=
  ∀ s : ParserState, s.rest = ts → s.depth = 0 →
    ∃ e s' us, x s = .error e s' ∧ s.Takes us s' ∧
      (∀ t ∈ s'.rest, t.kind ≠ .semicolon ∧ t.kind.isResumePoint = false) ∧ ¬e.IsUnclosed

theorem GivesUp.bind (hx : GivesUp x ts) : GivesUp (x >>= f) ts := by
  intro s hs hd
  obtain ⟨e, s', us, herror, h⟩ := hx s hs hd
  exact ⟨e, s', us, bind_eq_error.mpr (.inl herror), h⟩

theorem Accepts.bind_givesUp (hx : Accepts 0 x ts us P) (hf : ∀ a, P a → GivesUp (f a) us) :
    GivesUp (x >>= f) (ts ++ us) := by
  intro s hs hd
  obtain ⟨a, s₁, hok, htakes, ha⟩ := hx s hs hd
  obtain ⟨e, s', vs, herror, htakes', h⟩ :=
    hf a ha s₁ (htakes.rest_eq hs) (htakes.depth.trans hd)
  exact ⟨e, s', ts ++ vs, bind_eq_error.mpr (.inr ⟨a, s₁, hok, herror⟩), htakes.trans htakes', h⟩

theorem GivesUp.cursor_bind {f : Cursor → Parser β} (t : Terminal k)
    (hf : ∀ c : Cursor, c.peek.kind = k → GivesUp (f c) (t.val :: ts)) :
    GivesUp (cursor >>= f) (t.val :: ts) := by
  intro s hs hd
  exact hf s.toCursor (by rw [Cursor.kind_peek, hs]; exact t.property) s hs hd

end

end Parser

/-- The kinds that neither start nor end a statement or a block. -/
def TokenKind.Inner (k : TokenKind) : Prop :=
  k ∉ [semicolon, leftBracket] ++ (statementStarts ++ blockBoundaries)

instance (k : TokenKind) : Decidable k.Inner := inferInstanceAs (Decidable (¬_))

theorem TokenKind.Inner.skippable {k : TokenKind} (h : k.Inner) :
    k ≠ .semicolon ∧ k.isResumePoint = false := by
  simp only [Inner, List.mem_append, List.mem_cons, List.not_mem_nil, or_false, not_or] at h
  exact ⟨h.1.1, decide_eq_false (not_or.mpr h.2)⟩

theorem TokenKind.InExpression.inner {k : TokenKind} (h : k.InExpression) : k.Inner := by
  revert h
  cases k <;> simp [InExpression, Inner, expressionStarts, precedence, statementStarts,
    blockBoundaries]

/-- The beginning of a statement that breaks off in front of its semicolon and of its blocks. -/
inductive Fragment : List Token → Prop
  | mk {t us} (first : t.kind.Inner ∨ t.kind ∈ TokenKind.statementStarts)
    (others : ∀ u ∈ us, u.kind.Inner) : Fragment (t :: us)

/-- What is left behind the first token comes behind it. -/
theorem ParserState.Passes.mem_of_length_lt {s s' : ParserState} {us vs : List Token} {t u : Token}
    (h : s.Passes vs s') (hs : s.rest = t :: us) (hlt : s'.rest.length < s.rest.length)
    (hu : u ∈ s'.rest) : u ∈ us := by
  have hrest := hs.symm.trans h.rest
  cases vs with
  | nil => rw [h.rest] at hlt; exact absurd hlt (Nat.lt_irrefl _)
  | cons v vs =>
    rw [(List.cons.inj hrest).2]
    exact List.mem_append_right vs hu

namespace Fragment

theorem beginning (h : Fragment ts) (hus : us <+: ts) (hne : us ≠ []) : Fragment us := by
  obtain ⟨u, us, rfl⟩ := List.exists_cons_of_ne_nil hne
  obtain ⟨vs, hvs⟩ := hus
  cases h with
  | mk first others =>
    obtain ⟨rfl, rfl⟩ := List.cons.inj hvs
    exact ⟨first, fun v hv => others v (List.mem_append_left _ hv)⟩

theorem kind_not_mem (h : Fragment ts) (ht : t ∈ ts) :
    t.kind ∉ [.semicolon, .leftBracket] ++ TokenKind.blockBoundaries := by
  have hinner {k : TokenKind} (hk : k.Inner) :
      k ∉ [.semicolon, .leftBracket] ++ TokenKind.blockBoundaries := by
    intro hmem
    refine hk ?_
    simp only [List.mem_append] at hmem ⊢
    exact hmem.imp_right .inr
  have hstarts : ∀ k ∈ TokenKind.statementStarts,
      k ∉ [.semicolon, .leftBracket] ++ TokenKind.blockBoundaries := by decide
  cases h with
  | mk first others =>
    rcases List.mem_cons.mp ht with rfl | ht
    · exact first.elim hinner (hstarts _)
    · exact hinner (others t ht)

open Parser

theorem givesUp (h : Fragment ts) (room : Nat) :
    GivesUp (properStatement room (blockWithin room)) ts := by
  rintro s rfl -
  have hne {k : TokenKind} (hk : k ∈ [.semicolon, .leftBracket] ++ TokenKind.blockBoundaries) :
      ∀ t ∈ s.rest, t.kind ≠ k := fun t ht hkind => h.kind_not_mem ht (hkind ▸ hk)
  obtain ⟨e, s', herror, ⟨us, htakes, -⟩, he⟩ :=
    properStatement_fails (hne (by decide)) (hne (by decide)) room
  refine ⟨e, s', us, herror, htakes, fun u hu => ?_, he⟩
  generalize hs : s.rest = ts at h
  cases h with
  | @mk t ts first others =>
    -- the word of a statement is taken before anything fails
    have hlt (ht : t.kind ∈ TokenKind.statementStarts) : s'.rest.length < s.rest.length :=
      length_rest_of_error (by rwa [hs]) herror
    rcases first with ht | ht
    · have hmem : u ∈ t :: ts := by
        rw [← hs, htakes.rest]
        exact List.mem_append_right us hu
      rcases List.mem_cons.mp hmem with rfl | hmem
      · exact ht.skippable
      · exact (others u hmem).skippable
    · exact (others u (htakes.mem_of_length_lt hs (hlt ht) hu)).skippable

end Fragment

/-- Skipping runs to the end if no function starts before. -/
theorem Cursor.skipFunction_of_forall (before : List Token)
    (hts : ∀ t ∈ ts, t.kind ≠ .funcWord ∧ t.kind ≠ .eof) :
    skipFunction before ts = ⟨ts.reverse ++ before, []⟩ := by
  induction ts generalizing before with
  | nil => rfl
  | cons t ts ih =>
    obtain ⟨ht, hts⟩ := List.forall_mem_cons.mp hts
    rw [skipFunction, if_neg (not_or.mpr ht), ih _ hts]
    simp

end BracketLang
