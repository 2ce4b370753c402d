import BracketLang.Proofs.Grammar.Expressions

/-! Statements and blocks against their grammar. What is read without an error on record has a
derivation for which there is room (`reads_blockWithin`), and what has such a derivation is read
(`BlockDeriv.accepts`). -/

namespace BracketLang

/-- The tokens derive the bare statement, and there is room for it. -/
def Stmt.Derived (room : Nat) (ts : List Token) (s : Stmt) : Prop :=
  ∃ d : StmtDeriv, d.yield = ts ∧ d.tree = s ∧ d.Fits room

/-- The tokens derive the bare statements of a block, and there is room for it. -/
def Block.Derived (room : Nat) (ts : List Token) (b : Block) : Prop :=
  ∃ d : BlockDeriv, d.yield = ts ∧ d.trees = b.body ∧ d.Fits room

namespace Parser

open ParserState

/-! ## What is read is derived -/

theorem reads_expression (room : Nat) : Reads (expression room) fun ts e =>
    e.bare.Derived .or (min room maxExpressionDepth) ts := by
  refine Reads.look.bind fun s => (reads_wholeExpression
    (fun p hp => reads_climb (min room (maxExpressionDepth - s.depth)) hp) (by decide)).mono ?_
  rintro ts e ⟨d, rfl, htree, hlevels⟩ _ rfl
  exact ⟨d, rfl, htree, by omega⟩

theorem typeName_cons (hs : s.rest = t :: r) (ht : t.kind ∈ TokenKind.typeStarts) :
    ∃ s', typeName s = .ok ⟨t.lexeme, .point t.location⟩ s' ∧ s.Takes [t] s' := by
  have hne : t.kind ≠ .eof := by rintro h; rw [h] at ht; exact absurd ht (by decide)
  obtain ⟨s', hadv, htakes⟩ := advance_cons hs hne
  have hpeek : s.peek = t := by rw [Cursor.peek, hs]
  refine ⟨s', ?_, htakes⟩
  simp only [typeName, bind, EStateM.bind, peek_run, hpeek, if_pos ht, hadv]
  rfl

theorem reads_typeName :
    Reads typeName fun ts t => ∃ d : TypeTerminal, ts = [d.val] ∧ TypeTerminal.tree d = t.bare := by
  refine ⟨steady_typeName, fun {s t s'} h _ => ?_⟩
  by_cases hs : nextKind s.rest ∈ TokenKind.typeStarts
  · obtain ⟨u, r, hrest, hu⟩ := exists_cons_of_nextKind rfl (k := nextKind s.rest) (by
      rintro he; rw [he] at hs; exact absurd hs (by decide))
    rw [← hu] at hs
    obtain ⟨s₁, hok, htakes⟩ := typeName_cons hrest hs
    cases hok.symm.trans h
    exact ⟨[u], htakes, ⟨u, hs⟩, rfl, rfl⟩
  · revert h
    simp only [typeName, bind, EStateM.bind, peek_run, Cursor.kind_peek, if_neg hs]
    exact nofun

theorem reads_spanFrom (start : Location) : Reads (spanFrom start) fun ts _ => ts = [] :=
  Reads.look

/-- Nothing is read by putting an error on record. -/
theorem reads_record (e : SyntaxError) : Reads (record e) fun _ _ => False := by
  refine ⟨steady_record e, fun {s _ _} h he => ?_⟩
  cases h
  exact absurd (congrArg List.length he) (by simp [ParserState.record])

theorem reads_letStatement (room : Nat) :
    Reads (letStatement room) fun ts s => s.bare.Derived room ts := by
  refine (reads_visit _).bind fun _ => (reads_consume (by decide)).bind fun word =>
    (reads_consume (by decide)).bind fun x => (reads_consume (by decide)).bind fun colon =>
    reads_typeName.bind fun t => (reads_consume (by decide)).bind fun eq =>
    (reads_expression room).bind fun e => (reads_consume (by decide)).bind fun semi =>
    (reads_spanFrom _).bind fun span => .pure ?_
  rintro _ rfl _ ⟨hsemi, rfl⟩ _ ⟨d, rfl, he, hd⟩ _ ⟨heq, rfl⟩ _ ⟨dt, rfl, ht⟩ _ ⟨hcolon, rfl⟩
    _ ⟨hx, rfl⟩ _ ⟨hword, rfl⟩ _ rfl
  refine ⟨.letVar ⟨word, hword⟩ ⟨x, hx⟩ ⟨colon, hcolon⟩ dt ⟨eq, heq⟩ d ⟨semi, hsemi⟩, ?_, ?_, hd⟩
  · simp [StmtDeriv.yield]
  · simp [StmtDeriv.tree, Stmt.bare, he, ht]

theorem reads_assignment (room : Nat) :
    Reads (assignment room) fun ts s => s.bare.Derived room ts := by
  refine (reads_visit _).bind fun _ => (reads_consume (by decide)).bind fun x =>
    (reads_consume (by decide)).bind fun eq => (reads_expression room).bind fun e =>
    (reads_consume (by decide)).bind fun semi => (reads_spanFrom _).bind fun span => .pure ?_
  rintro _ rfl _ ⟨hsemi, rfl⟩ _ ⟨d, rfl, he, hd⟩ _ ⟨heq, rfl⟩ _ ⟨hx, rfl⟩ _ rfl
  refine ⟨.assign ⟨x, hx⟩ ⟨eq, heq⟩ d ⟨semi, hsemi⟩, ?_, ?_, hd⟩
  · simp [StmtDeriv.yield]
  · simp [StmtDeriv.tree, Stmt.bare, he]

theorem reads_returnStatement (room : Nat) :
    Reads (returnStatement room) fun ts s => s.bare.Derived room ts := by
  have ending (start : Location) (value : Option Expr) : Reads (do
      let _ ← consume .semicolon
      return Stmt.ret value (← spanFrom start)) fun ts s =>
        ∃ semi : Terminal .semicolon, ts = [semi.val] ∧
          s.bare = .ret (value.map Expr.bare) .nowhere := by
    refine (reads_consume (by decide)).bind fun semi => (reads_spanFrom _).bind fun span => .pure ?_
    rintro _ rfl _ ⟨hsemi, rfl⟩
    exact ⟨⟨semi, hsemi⟩, rfl, rfl⟩
  refine (reads_visit _).bind fun _ => (reads_consume (by decide)).bind fun word =>
    Reads.look.bind fun b => .ite (fun _ => ?_) fun _ => ?_
  · have hnone : Reads (pure none) fun ts (v : Option Expr) => ts = [] ∧ v = none :=
      .pure ⟨rfl, rfl⟩
    refine hnone.bind fun value => (ending _ value).mono ?_
    rintro _ s ⟨semi, rfl, hs⟩ _ ⟨rfl, rfl⟩ _ rfl _ ⟨hword, rfl⟩ _ rfl
    exact ⟨.retNone ⟨word, hword⟩ semi, rfl, hs.symm, trivial⟩
  · refine (reads_expression room).map.bind fun value => (ending _ value).mono ?_
    rintro _ s ⟨semi, rfl, hs⟩ _ ⟨e, rfl, d, rfl, he, hd⟩ _ rfl _ ⟨hword, rfl⟩ _ rfl
    refine ⟨.ret ⟨word, hword⟩ d semi, by simp [StmtDeriv.yield], ?_, hd⟩
    rw [hs, StmtDeriv.tree, he]
    rfl

theorem reads_printStatement (room : Nat) :
    Reads (printStatement room) fun ts s => s.bare.Derived room ts := by
  refine (reads_visit _).bind fun _ => (reads_consume (by decide)).bind fun word =>
    (reads_expression room).bind fun e => (reads_consume (by decide)).bind fun semi =>
    (reads_spanFrom _).bind fun span => .pure ?_
  rintro _ rfl _ ⟨hsemi, rfl⟩ _ ⟨d, rfl, he, hd⟩ _ ⟨hword, rfl⟩ _ rfl
  refine ⟨.print ⟨word, hword⟩ d ⟨semi, hsemi⟩, ?_, ?_, hd⟩
  · simp [StmtDeriv.yield]
  · simp [StmtDeriv.tree, Stmt.bare, he]

theorem reads_expressionStatement (room : Nat) :
    Reads (expressionStatement room) fun ts s => s.bare.Derived room ts := by
  refine (reads_visit _).bind fun _ => (reads_expression room).bind fun e =>
    (reads_consume (by decide)).bind fun semi => (reads_spanFrom _).bind fun span => .pure ?_
  rintro _ rfl _ ⟨hsemi, rfl⟩ _ ⟨d, rfl, he, hd⟩ _ rfl
  refine ⟨.expr d ⟨semi, hsemi⟩, ?_, ?_, hd⟩
  · simp [StmtDeriv.yield]
  · simp [StmtDeriv.tree, Stmt.bare, he]

section
variable {block : Parser Block} (hb : Reads block fun ts b => b.bare.Derived room ts)
include hb

theorem reads_ifStatement :
    Reads (ifStatement room block) fun ts s => s.bare.Derived room ts := by
  refine (reads_visit _).bind fun _ => (reads_consume (by decide)).bind fun word =>
    (reads_expression room).bind fun c => hb.bind fun b =>
    (reads_accept (by decide)).bind fun other => ?_
  cases other with
  | true =>
    refine hb.bind fun b' => (reads_spanFrom _).bind fun span => .pure ?_
    rintro _ rfl _ ⟨db', rfl, hb', hdb'⟩ _ ⟨other, rfl⟩ _ ⟨db, rfl, hb, hdb⟩ _ ⟨d, rfl, hc, hd⟩
      _ ⟨hword, rfl⟩ _ rfl
    refine ⟨.ifElse ⟨word, hword⟩ d db other db', ?_, ?_,
      hd, hdb, hdb'⟩
    · simp [StmtDeriv.yield]
    · simp [StmtDeriv.tree, Stmt.bare, hc, hb, hb', Block.bare]
  | false =>
    refine (reads_spanFrom _).bind fun span => .pure ?_
    rintro _ rfl _ rfl _ ⟨db, rfl, hb, hdb⟩ _ ⟨d, rfl, hc, hd⟩ _ ⟨hword, rfl⟩ _ rfl
    refine ⟨.ifThen ⟨word, hword⟩ d db, ?_, ?_, hd, hdb⟩
    · simp [StmtDeriv.yield]
    · simp [StmtDeriv.tree, Stmt.bare, hc, hb, Block.bare]

theorem reads_whileStatement :
    Reads (whileStatement room block) fun ts s => s.bare.Derived room ts := by
  refine (reads_visit _).bind fun _ => (reads_consume (by decide)).bind fun word =>
    (reads_expression room).bind fun c => hb.bind fun b =>
    (reads_spanFrom _).bind fun span => .pure ?_
  rintro _ rfl _ ⟨db, rfl, hb, hdb⟩ _ ⟨d, rfl, hc, hd⟩ _ ⟨hword, rfl⟩ _ rfl
  refine ⟨.whileLoop ⟨word, hword⟩ d db, ?_, ?_, hd, hdb⟩
  · simp [StmtDeriv.yield]
  · simp [StmtDeriv.tree, Stmt.bare, hc, hb, Block.bare]

theorem reads_properStatement :
    Reads (properStatement room block) fun ts s => s.bare.Derived room ts := by
  have drop {x : Parser Stmt} (hx : Reads x fun ts s => s.bare.Derived room ts) :
      Reads x fun us s => ∀ ts, ts = [] → s.bare.Derived room (ts ++ us) :=
    hx.mono fun _ _ h _ hts => hts ▸ h
  refine Reads.look.bind fun c => ?_
  split
  · exact drop (reads_letStatement room)
  · exact drop (reads_ifStatement hb)
  · exact drop (reads_whileStatement hb)
  · exact drop (reads_returnStatement room)
  · exact drop (reads_printStatement room)
  · exact .ite (fun _ => drop (reads_assignment room))
      fun _ => drop (reads_expressionStatement room)
  · exact drop (reads_expressionStatement room)

theorem reads_statementWith :
    Reads (statementWith room block) fun ts o => ∃ s, o = some s ∧ s.bare.Derived room ts := by
  refine ⟨steady_statementWith hb.steady room, fun {s o s'} h he => ?_⟩
  unfold statementWith at h
  split at h
  · next stmt s₁ hok =>
    cases h
    obtain ⟨ts, htakes, hd⟩ := (reads_properStatement hb).takes hok he
    exact ⟨ts, htakes, stmt, rfl, hd⟩
  · next e s₁ herr =>
    cases h
    have hle := ((reads_properStatement hb).steady.error herr).errors.length_le
    have hgrow := congrArg List.length he
    simp only [ParserState.move, ParserState.record, List.length_append, List.length_singleton]
      at hgrow
    omega

end

theorem statements_succ (st : Parser (Option Stmt)) (n : Nat) (s : ParserState) :
    statements st (n + 1) s = (if s.atBlockBoundary then pure [] else do
      let a ← st
      let as ← statements st n
      return a.toList ++ as : Parser (List Stmt)) s := rfl

theorem statements_stop (hs : s.atBlockBoundary = true) (st : Parser (Option Stmt)) (n : Nat) :
    statements st n s = .ok [] s := by
  cases n with
  | zero => rfl
  | succ n => rw [statements_succ, if_pos hs]; rfl

theorem atBlockBoundary_of_length {s : ParserState} (hs : s.rest.length = 0) :
    s.atBlockBoundary = true := by
  rw [Cursor.atBlockBoundary_iff, List.eq_nil_of_length_eq_zero hs]
  decide

/-- A block has to be opened. -/
theorem blockWithin_of_ne (hs : nextKind s.rest ≠ .leftBracket) (room : Nat) :
    blockWithin room s = .error ⟨.unexpected [.leftBracket] none, s.peek⟩ (s.visit .block) := by
  have hnone : noBlock s.peek = ⟨.unexpected [.leftBracket] none, s.peek⟩ := by
    rw [noBlock, if_neg (by rwa [Cursor.kind_peek])]
  cases room with
  | zero =>
    have hrun : blockWithin 0 s = .error (noBlock s.peek) (s.visit .block) := rfl
    rw [hrun, hnone]
  | succ room =>
    have hcheck : (s.visit .block).check .leftBracket = false := by
      rw [Cursor.check_eq]
      exact decide_eq_false hs
    have hconsume := consume_run .leftBracket (s.visit .block)
    rw [hcheck] at hconsume
    exact bind_eq_error.mpr (.inr ⟨(), _, rfl, bind_eq_error.mpr (.inl hconsume)⟩)

/-- A block that is opened ends with a closing bracket behind its statements, or it is cut short
there and this is put on record. -/
theorem blockWithin_cases (h : blockWithin (room + 1) s = .ok b s') :
    ∃ opening body s₁ s₂, consume .leftBracket (s.visit .block) = .ok opening s₁ ∧
      statements (statementWith room (blockWithin room)) s₁.rest.length s₁ = .ok body s₂ ∧
      ((∃ closing, consume .rightBracket s₂ = .ok closing s' ∧
          b = ⟨body, ⟨opening.location, closing.location⟩⟩) ∨
        nextKind s₂.rest ≠ .rightBracket ∧
          s' = s₂.record ⟨.unterminatedBlock opening.location, s₂.peek⟩ ∧
          b = ⟨body, ⟨opening.location, s₂.previous.location⟩⟩) := by
  obtain ⟨_, _, hvisit, h₁⟩ := bind_eq_ok.mp h
  cases hvisit
  obtain ⟨opening, s₁, hopening, h₂⟩ := bind_eq_ok.mp h₁
  obtain ⟨_, _, hremaining, h₃⟩ := bind_eq_ok.mp h₂
  cases hremaining
  obtain ⟨body, s₂, hbody, h₄⟩ := bind_eq_ok.mp h₃
  obtain ⟨_, _, hcheck, h₅⟩ := bind_eq_ok.mp h₄
  cases hcheck
  refine ⟨opening, body, s₁, s₂, hopening, hbody, ?_⟩
  split at h₅
  · next hclosing =>
    obtain ⟨closing, s₃, hadvance, hpure⟩ := bind_eq_ok.mp h₅
    obtain ⟨rfl, rfl⟩ := pure_eq_ok.mp hpure
    refine .inl ⟨closing, ?_, rfl⟩
    rw [consume_run, if_pos hclosing]
    exact hadvance
  · next hcut =>
    cases h₅
    rw [Cursor.check_eq, decide_eq_true_eq] at hcut
    exact .inr ⟨hcut, rfl, rfl⟩

theorem statements_ne_error {block : Parser Block} (n : Nat) :
    statements (statementWith room block) n s ≠ .error e s' := by
  induction n generalizing s with
  | zero => intro h; cases h
  | succ n ih =>
    rw [statements_succ]
    intro h
    split at h
    · cases h
    · obtain h | ⟨o, s₁, -, h⟩ := bind_eq_error.mp h
      · unfold statementWith at h
        split at h <;> cases h
      · obtain h | ⟨ss, s₂, -, h⟩ := bind_eq_error.mp h
        · exact ih h
        · cases h

theorem found_noBlock (t : Token) : (noBlock t).found = t := by
  unfold noBlock
  split <;> rfl

/-- A block fails only where it should begin. -/
theorem eq_of_blockWithin_error (h : blockWithin room s = .error e s') :
    e = noBlock s.peek ∧ s' = s.visit .block := by
  cases room with
  | zero =>
    cases h
    exact ⟨rfl, rfl⟩
  | succ room =>
    obtain h | ⟨_, _, hvisit, h₁⟩ := bind_eq_error.mp h
    · cases h
    cases hvisit
    obtain h₁ | ⟨opening, s₁, -, h₂⟩ := bind_eq_error.mp h₁
    · rw [consume_run] at h₁
      split at h₁ <;> cases h₁
      next hcheck => exact ⟨(if_neg (mt decide_eq_true hcheck)).symm, rfl⟩
    obtain h₂ | ⟨_, _, hremaining, h₃⟩ := bind_eq_error.mp h₂
    · cases h₂
    obtain h₃ | ⟨body, s₂, -, h₄⟩ := bind_eq_error.mp h₃
    · exact absurd h₃ (statements_ne_error _)
    obtain h₄ | ⟨_, _, hcheck, h₅⟩ := bind_eq_error.mp h₄
    · cases h₄
    split at h₅ <;> cases h₅

theorem reads_statements {statement : Parser (Option Stmt)}
    (hs : Reads statement fun ts o => ∃ s, o = some s ∧ s.bare.Derived room ts) (n : Nat) :
    Reads (statements statement n) fun ts ss =>
      ∃ d : BodyDeriv, d.yield = ts ∧ d.trees = Stmt.bareAll ss ∧ d.Fits room := by
  induction n with
  | zero => exact .pure ⟨.nil, rfl, rfl, trivial⟩
  | succ n ih =>
    refine Reads.look.bind fun c => .ite (fun _ => .pure ?_) fun _ =>
      hs.bind fun o => ih.bind fun ss => .pure ?_
    · rintro _ rfl
      exact ⟨.nil, rfl, rfl, trivial⟩
    · rintro _ ⟨dss, rfl, hss, hdss⟩ _ ⟨s, rfl, d, rfl, hs, hd⟩ _ rfl
      refine ⟨.cons d dss, by simp [BodyDeriv.yield], ?_, hd, hdss⟩
      simp [BodyDeriv.trees, Stmt.bareAll, hs, hss]

theorem reads_blockWithin (room : Nat) :
    Reads (blockWithin room) fun ts b => b.bare.Derived room ts := by
  induction room with
  | zero =>
    exact (reads_visit _).bind fun _ => Reads.look.bind fun _ => .throw _
  | succ room ih =>
    refine (reads_visit _).bind fun _ => (reads_consume (by decide)).bind fun lb =>
      Reads.look.bind fun k => (reads_statements (reads_statementWith ih) k).bind fun body =>
      .check_bind (.advance_bind (by decide) fun rb => .pure ?_)
        (Reads.look.bind fun _ => (reads_record _).bind fun _ => (reads_spanFrom _).bind
          fun _ => .pure (by rintro _ - _ ⟨⟩))
    rintro hrb _ ⟨d, rfl, hbody, hd⟩ _ rfl _ ⟨hlb, rfl⟩ _ rfl
    exact ⟨.mk ⟨lb, hlb⟩ d ⟨rb, hrb⟩, by simp [BlockDeriv.yield], hbody, hd⟩

/-! ## What is derived is read -/

theorem accepts_typeName (t : TypeTerminal) :
    Accepts d typeName [t.val] r (· = TypeTerminal.located t) := by
  intro s hs _
  obtain ⟨s', hok, htakes⟩ := typeName_cons hs t.property
  exact ⟨_, s', hok, htakes, rfl⟩

theorem Accepts.typeName_bind {β : Type} {P' : β → Prop} {f : TypeName → Parser β}
    (t : TypeTerminal) (hf : Accepts d (f (TypeTerminal.located t)) us r P') :
    Accepts d (typeName >>= f) (t.val :: us) r P' :=
  (accepts_typeName t).bind fun _ ha => ha ▸ hf

section
variable {α β : Type} {P : α → Prop}

theorem AcceptsAfter.spanFrom {g : Span → β} :
    AcceptsAfter t d (do return g (← spanFrom start)) [] r (· = g ⟨start, t.location⟩) := by
  rintro s rfl _ _
  exact ⟨_, s, rfl, .refl s, rfl⟩

/-- What ends in a token has its span up to there. -/
theorem Accepts.bind_spanFrom {x : Parser α} {g : α → Span → β} (hx : Accepts d x ts r (· = a))
    (hts : ts.getLast? = some t) :
    Accepts d (do
      let a ← x
      return g a (← spanFrom start)) ts r (· = g a ⟨start, t.location⟩) := by
  rw [← List.append_nil ts]
  refine .bind_after (by simpa using hx) hts ?_
  rintro _ rfl
  exact .spanFrom

theorem Accepts.consume_spanFrom {g : Span → β} (t : Terminal k) (hk : k ≠ .eof) :
    Accepts d (do
      let _ ← Parser.consume k
      return g (← spanFrom start)) [t.val] r (· = g ⟨start, t.val.location⟩) :=
  (Accepts.consume t hk).bind_spanFrom rfl

end

/-- What stands behind the expression of a statement does not go on with it. -/
theorem not_le_of_statement {k : TokenKind} (h : k = .semicolon ∨ k = .leftBracket) :
    ¬ Precedence.or ≤ k.precedence ∧ k ≠ .leftParen := by
  rcases h with rfl | rfl <;> decide

theorem accepts_expression (d : ExprDeriv .or) (hm : d.levels ≤ min room maxExpressionDepth)
    (hr : nextKind r = .semicolon ∨ nextKind r = .leftBracket) :
    Accepts 0 (expression room) d.yield r (· = d.located) := by
  obtain ⟨hle, hne⟩ := not_le_of_statement hr
  have hd : Accepts 0 (wholeExpression (climb (min room maxExpressionDepth)) .or) d.yield r
      (· = d.located) :=
    accepts_wholeExpression ExprDeriv.accepts hm hle (.of_ne hne)
  refine .look_bind fun s _ hs => ?_
  rw [hs]
  exact hd

theorem Accepts.expression_bind {β : Type} {P' : β → Prop} {f : Expr → Parser β} (e : ExprDeriv .or)
    (hm : e.levels ≤ min room maxExpressionDepth)
    (hr : nextKind (us ++ r) = .semicolon ∨ nextKind (us ++ r) = .leftBracket)
    (hf : Accepts 0 (f e.located) us r P') :
    Accepts 0 (expression room >>= f) (e.yield ++ us) r P' :=
  (accepts_expression e hm hr).bind fun _ ha => ha ▸ hf

end Parser

/-- No expression is told to be an assignment by its second token. -/
theorem ExprDeriv.nextKind_tail_ne (d : ExprDeriv p) (hr : nextKind r ≠ .assign) :
    nextKind (d.yield ++ r).tail ≠ .assign := by
  have hin := d.inExpression
  match hd : d.yield with
  | [] => exact absurd (congrArg List.length hd) (Nat.ne_of_gt d.length_yield_pos)
  | [t] => exact hr
  | t :: u :: us =>
    intro hu
    have hu' := hin u (by simp [hd])
    rw [show u.kind = .assign from hu] at hu'
    revert hu'
    simp [TokenKind.InExpression, TokenKind.expressionStarts, TokenKind.precedence]

namespace StmtDeriv

/-- Every statement has a first token, one that can start a statement. -/
theorem nextKind_yield (d : StmtDeriv) (r : List Token) :
    nextKind (d.yield ++ r) ∈ TokenKind.statementStarts ++ TokenKind.expressionStarts := by
  cases d with
  | letVar t | assign t | ifThen t | ifElse t | whileLoop t | retNone t | ret t | print t =>
    simp [yield, t.property, TokenKind.statementStarts, TokenKind.expressionStarts]
  | expr e semi =>
    rw [yield, List.append_assoc]
    exact List.mem_append_right _ (e.nextKind_yield _)

theorem nextKind_ne (d : StmtDeriv)
    (hk : k ∉ TokenKind.statementStarts ++ TokenKind.expressionStarts) :
    nextKind (d.yield ++ r) ≠ k :=
  fun h => hk (h ▸ d.nextKind_yield r)

end StmtDeriv

theorem BlockDeriv.nextKind_yield (d : BlockDeriv) (r : List Token) :
    nextKind (d.yield ++ r) = .leftBracket := by
  obtain ⟨lb, body, rb⟩ := d
  exact lb.property

theorem BlockDeriv.getLast?_yield (d : BlockDeriv) : d.yield.getLast? = some d.last := by
  obtain ⟨lb, body, rb⟩ := d
  rw [yield, ← List.cons_append, List.getLast?_concat, last]

theorem BlockDeriv.finish_located (d : BlockDeriv) :
    d.located.span.finish = d.last.location := by
  obtain ⟨lb, body, rb⟩ := d
  rfl

/-- Neither a statement nor the end of a block starts with `else`. -/
theorem BodyDeriv.nextKind_ne_else (d : BodyDeriv) (hr : nextKind r = .rightBracket) :
    nextKind (d.yield ++ r) ≠ .elseWord := by
  cases d with
  | nil =>
    rw [yield, List.nil_append, hr]
    decide
  | cons s ss =>
    rw [yield, List.append_assoc]
    exact s.nextKind_ne (by decide)

section
open Parser

theorem accepts_expressionStatement {block : Parser Block} (e : ExprDeriv .or)
    (semi : Terminal .semicolon) (hm : e.levels ≤ min room maxExpressionDepth) :
    Accepts 0 (properStatement room block) (e.yield ++ [semi.val]) r
      (· = (StmtDeriv.expr e semi).located) := by
  have hstmt : Accepts 0 (expressionStatement room) (e.yield ++ [semi.val]) r
      (· = (StmtDeriv.expr e semi).located) :=
    .visit_bind <| .expression_bind e hm (.inl semi.property) <|
      .consume_spanFrom semi (by decide)
  refine .look_bind fun s hs _ => ?_
  have hnext : s.peekNext.kind ≠ .assign := by
    rw [Cursor.kind_peekNext, hs, List.append_assoc]
    exact e.nextKind_tail_ne (by simp [semi.property])
  have hkind := e.nextKind_yield ([semi.val] ++ r)
  rw [← List.append_assoc, ← hs, ← Cursor.kind_peek] at hkind
  simp only [TokenKind.expressionStarts, List.mem_cons, List.not_mem_nil, or_false] at hkind
  rcases hkind with h | h | h | h | h | h | h <;> simp only [h, if_neg hnext] <;> exact hstmt

theorem accepts_statementWith {block : Parser Block} {P : Stmt → Prop}
    (h : Accepts d (properStatement room block) ts r P) :
    Accepts d (statementWith room block) ts r fun o => ∃ s, o = some s ∧ P s := by
  intro s hs hd
  obtain ⟨a, s', hok, ht, ha⟩ := h s hs hd
  exact ⟨some a, s', by simp [statementWith, hok], ht, a, rfl, ha⟩

mutual

/-- A statement that is derived is read, unless an `else` behind it would go on with it. -/
theorem StmtDeriv.accepts (d : StmtDeriv) (hm : d.Fits room) (hr : nextKind r ≠ .elseWord) :
    Accepts 0 (properStatement room (blockWithin room)) d.yield r (· = d.located) := by
  match d with
  | .letVar word x colon t eq e semi =>
    refine .cursor_bind word fun s hs => ?_
    simp only [hs]
    exact .visit_bind <| .consume_bind word (by decide) <| .consume_bind x (by decide) <|
      .consume_bind colon (by decide) <| .typeName_bind t <| .consume_bind eq (by decide) <|
      .expression_bind e hm (.inl semi.property) <| .consume_spanFrom semi (by decide)
  | .assign x eq e semi =>
    refine .look_bind fun s hs _ => ?_
    simp only [Cursor.kind_peek, Cursor.kind_peekNext, hs, StmtDeriv.yield, List.cons_append,
      List.tail_cons, nextKind_cons, x.property, eq.property]
    exact .visit_bind <| .consume_bind x (by decide) <| .consume_bind eq (by decide) <|
      .expression_bind e hm (.inl semi.property) <| .consume_spanFrom semi (by decide)
  | .ifThen word c b =>
    obtain ⟨hc, hb⟩ := hm
    refine .cursor_bind word fun s hs => ?_
    simp only [hs]
    rw [← List.append_nil b.yield]
    refine .visit_bind <| .consume_bind word (by decide) <|
      .expression_bind c hc (.inr (by simpa using b.nextKind_yield r)) <|
      (b.accepts hb).bind_after b.getLast?_yield ?_
    rintro _ rfl
    rw [StmtDeriv.located, b.finish_located]
    exact .accept_bind_of_ne hr .spanFrom
  | .ifElse word c b other b' =>
    obtain ⟨hc, hb, hb'⟩ := hm
    refine .cursor_bind word fun s hs => ?_
    simp only [hs]
    refine .visit_bind <| .consume_bind word (by decide) <|
      .expression_bind c hc (.inr (by simpa using b.nextKind_yield _)) <|
      (b.accepts hb).bind ?_
    rintro _ rfl
    rw [StmtDeriv.located, b'.finish_located]
    exact .accept_bind other (by decide) <| (b'.accepts hb').bind_spanFrom b'.getLast?_yield
  | .whileLoop word c b =>
    obtain ⟨hc, hb⟩ := hm
    refine .cursor_bind word fun s hs => ?_
    simp only [hs]
    rw [StmtDeriv.located, b.finish_located]
    exact .visit_bind <| .consume_bind word (by decide) <|
      .expression_bind c hc (.inr (by simpa using b.nextKind_yield r)) <|
      (b.accepts hb).bind_spanFrom b.getLast?_yield
  | .retNone word semi =>
    refine .cursor_bind word fun s hs => ?_
    simp only [hs]
    refine .visit_bind <| .consume_bind word (by decide) <| .check_bind ?_
    simp only [List.cons_append, nextKind_cons, semi.property, decide_true, if_true]
    exact .consume_spanFrom semi (by decide)
  | .ret word e semi =>
    refine .cursor_bind word fun s hs => ?_
    simp only [hs]
    refine .visit_bind <| .consume_bind word (by decide) <| .check_bind ?_
    have hstart : nextKind (e.yield ++ [semi.val] ++ r) ≠ .semicolon := by
      intro h
      have hmem := e.nextKind_yield ([semi.val] ++ r)
      rw [← List.append_assoc, h] at hmem
      exact absurd hmem (by decide)
    simp only [hstart, decide_false]
    refine (accepts_expression (r := semi.val :: r) e hm (.inl semi.property)).map.bind ?_
    rintro _ ⟨_, rfl, rfl⟩
    exact .consume_spanFrom semi (by decide)
  | .print word e semi =>
    refine .cursor_bind word fun s hs => ?_
    simp only [hs]
    exact .visit_bind <| .consume_bind word (by decide) <|
      .expression_bind e hm (.inl semi.property) <| .consume_spanFrom semi (by decide)
  | .expr e semi => exact accepts_expressionStatement e semi hm

theorem BlockDeriv.accepts (d : BlockDeriv) (hm : d.Fits room) :
    Accepts 0 (blockWithin room) d.yield r (· = d.located) := by
  match d, room with
  | .mk lb body rb, 0 => exact hm.elim
  | .mk lb body rb, room + 1 =>
    refine .visit_bind <| .consume_bind lb (by decide) <| .look_bind fun s hs _ => ?_
    have hk : body.yield.length ≤ s.rest.length := by simp [hs]
    refine (body.accepts (r := rb.val :: r) hm hk rb.property).bind ?_
    rintro _ rfl
    refine .check_bind ?_
    simp only [List.cons_append, nextKind_cons, rb.property, decide_true, if_true]
    exact .advance_bind (by simp [rb.property]) (.pure rfl)

theorem BodyDeriv.accepts (d : BodyDeriv) (hm : d.Fits room) (hk : d.yield.length ≤ k)
    (hr : nextKind r = .rightBracket) :
    Accepts 0 (statements (statementWith room (blockWithin room)) k) d.yield r (· = d.located) := by
  match d, k with
  | .nil, 0 => exact .pure rfl
  | .nil, k + 1 =>
    refine .look_bind fun c hc _ => ?_
    have hend : c.atBlockBoundary = true := by
      rw [Cursor.atBlockBoundary_iff, hc]
      exact hr ▸ List.mem_cons_self ..
    rw [if_pos hend]
    exact .pure rfl
  | .cons s ss, 0 =>
    have hpos := s.length_yield_pos
    rw [BodyDeriv.yield, List.length_append] at hk
    omega
  | .cons s ss, k + 1 =>
    obtain ⟨hs, hss⟩ := hm
    have hpos := s.length_yield_pos
    rw [BodyDeriv.yield, List.length_append] at hk
    refine .look_bind fun c hc _ => ?_
    have hgo : ¬ c.atBlockBoundary = true := by
      have hdisjoint : ∀ k ∈ TokenKind.statementStarts ++ TokenKind.expressionStarts,
          k ∉ TokenKind.blockBoundaries := by decide
      rw [Cursor.atBlockBoundary_iff, hc, BodyDeriv.yield, List.append_assoc]
      exact hdisjoint _ (s.nextKind_yield (ss.yield ++ r))
    rw [if_neg hgo]
    refine (accepts_statementWith (s.accepts hs (ss.nextKind_ne_else hr))).bind ?_
    rintro _ ⟨_, rfl, rfl⟩
    exact (ss.accepts hss (by omega) hr).bind_pure fun as has => by rw [has]; rfl

end

end

end BracketLang
