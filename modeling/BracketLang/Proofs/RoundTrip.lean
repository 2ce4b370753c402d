import BracketLang.Frontend
import BracketLang.Proofs.Grammar.Programs
import BracketLang.Proofs.Tree.Printing

/-! Writing a program down and reading it back. The words of a tree spell tokens, and those tokens
derive the tree, within as many levels as its written form has open and as deep on the stack as it
is (`Expr.writes` and those that follow it). So scanning and parsing them gives the tree again, on a
stack that is large enough. -/

namespace BracketLang

/-- The words all spell tokens, and whatever tokens they spell have `P`. -/
structure Writes (ws : List String) (P : List Token → Prop) : Prop where
  words : ∀ w ∈ ws, ∃ k v, Spells w k v
  tokens : ∀ ts, Written ws ts → P ts

namespace Writes

variable {P Q : List Token → Prop}

theorem nil (h : P []) : Writes [] P := ⟨List.forall_mem_nil _, fun _ hts => hts.eq_nil ▸ h⟩

theorem append (h : Writes ws P) (h' : Writes ws' fun us' => ∀ us, P us → Q (us ++ us')) :
    Writes (ws ++ ws') Q := by
  refine ⟨List.forall_mem_append.mpr ⟨h.words, h'.words⟩, fun ts hts => ?_⟩
  obtain ⟨us, us', rfl, hus, hus'⟩ := hts.exists_append
  exact h'.tokens us' hus' us (h.tokens us hus)

theorem cons (hw : Spells w k v)
    (h : Writes ws fun us => ∀ t : Terminal k, t.val.lexeme = w → t.val.value = v →
      Q (t.val :: us)) : Writes (w :: ws) Q := by
  refine ⟨List.forall_mem_cons.mpr ⟨⟨k, v, hw⟩, h.words⟩, fun ts hts => ?_⟩
  obtain ⟨t, us, rfl, hk, hlexeme, hv, hus⟩ := hts.exists_cons hw
  exact h.tokens us hus ⟨t, hk⟩ hlexeme hv

theorem mono (h : Writes ws P) (hPQ : ∀ ts, P ts → Q ts) : Writes ws Q :=
  ⟨h.words, fun ts hts => hPQ ts (h.tokens ts hts)⟩

/-- A reserved word or an operator. -/
theorem word (k : TokenKind) (hk : k ∈ TokenKind.keywords ++ TokenKind.operators)
    (h : Writes ws fun us => ∀ t : Terminal k, Q (t.val :: us)) : Writes (k.spelling :: ws) Q := by
  rcases List.mem_append.mp hk with hk | hk
  · exact cons (spells_keyword hk) (h.mono fun _ hus t _ _ => hus t)
  · exact cons (spells_operator hk) (h.mono fun _ hus t _ _ => hus t)

theorem name (hx : IsName x)
    (h : Writes ws fun us => ∀ t : Terminal .identifier, t.val.lexeme = x → Q (t.val :: us)) :
    Writes (x :: ws) Q :=
  cons hx.spells (h.mono fun _ hus t ht _ => hus t ht)

theorem typeName {t : TypeName} (ht : t.Plain)
    (h : Writes ws fun us => ∀ d : TypeTerminal, TypeTerminal.tree d = t.bare → Q (d.val :: us)) :
    Writes (t.name :: ws) Q := by
  obtain ⟨k, hk, hkey, hname⟩ : ∃ k ∈ TokenKind.typeStarts, k ∈ TokenKind.keywords ∧
      t.name = k.spelling := by
    rcases ht with ht | ht
    · exact ⟨.i32Word, by decide, by decide, ht⟩
    · exact ⟨.boolWord, by decide, by decide, ht⟩
  rw [hname]
  refine cons (spells_keyword hkey) (h.mono fun us hus d hlexeme _ => ?_)
  refine hus ⟨d.val, by rwa [d.property]⟩ ?_
  simp [TypeTerminal.tree, TypeName.bare, hlexeme, hname]

end Writes

/-! ## Expressions -/

/-- The binary operators are the tokens with a precedence. -/
theorem exists_of_mem_binaryOperators (h : op ∈ binaryOperators) :
    ∃ k ∈ TokenKind.operators, k.spelling = op ∧ operatorPrecedence op = k.precedence ∧
      k.precedence.IsBinary := by
  have hall : ∀ op ∈ binaryOperators, ∃ k ∈ TokenKind.operators, k.spelling = op ∧
      operatorPrecedence op = k.precedence ∧ k.precedence.IsBinary := by decide
  exact hall op h

theorem exists_of_mem_unaryOperators (h : op ∈ unaryOperators) :
    ∃ k ∈ TokenKind.operators, k.spelling = op ∧ (k = .minus ∨ k = .not) := by
  have hall : ∀ op ∈ unaryOperators, ∃ k ∈ TokenKind.operators, k.spelling = op ∧
      (k = .minus ∨ k = .not) := by decide
  exact hall op h

theorem Expr.precedence_ne_none {e : Expr} (hp : e.Plain) : e.precedence ≠ .none := by
  cases e with
  | binary l op r s =>
    obtain ⟨k, -, -, hop, hb⟩ := exists_of_mem_binaryOperators hp.1
    rw [precedence, hop]
    exact hb.1
  | _ => simp [precedence]

/-- What is written without parentheses is derived at the loosest level. -/
theorem Writes.loosen {e : Expr}
    (h : Writes e.terminals fun ts => ∃ d : ExprDeriv e.precedence, d.yield = ts ∧
      d.tree = e.bare ∧ d.levels = e.levels) (he : e.precedence ≠ .none) :
    Writes e.terminals fun ts => ∃ d : ExprDeriv .or, d.yield = ts ∧ d.tree = e.bare ∧
      d.levels = e.levels := by
  refine h.mono ?_
  rintro ts ⟨d, rfl, htree, hlevels⟩
  obtain ⟨d', hyield, htree', hlevels'⟩ := d.exists_loosen (p := .or) (by decide)
    (Precedence.rank_pos he)
  exact ⟨d', hyield, htree'.trans htree, hlevels'.trans hlevels⟩

/-- The written form of an expression, in parentheses or not, is derived at every level that it
binds as tightly as. -/
theorem Writes.grouped {e : Expr} {c : Prop} [Decidable c]
    (h : Writes e.terminals fun ts => ∃ d : ExprDeriv e.precedence, d.yield = ts ∧
      d.tree = e.bare ∧ d.levels = e.levels)
    (he : e.precedence ≠ .none) (hp : p ≠ .none) (hc : ¬ c → p ≤ e.precedence) :
    Writes (grouped c e.terminals) fun ts => ∃ d : ExprDeriv p, d.yield = ts ∧ d.tree = e.bare ∧
      d.levels = groupedLevels c e.levels := by
  unfold BracketLang.grouped groupedLevels
  split
  · refine .word .leftParen (by decide) <| (h.loosen he).append <|
      .word .rightParen (by decide) <| .nil ?_
    rintro rp _ ⟨d, rfl, htree, hlevels⟩ lp
    obtain ⟨d', hyield, htree', hlevels'⟩ :=
      (ExprDeriv.group lp d rp).exists_loosen hp p.rank_le
    refine ⟨d', hyield, ?_, ?_⟩
    · rw [htree', ExprDeriv.tree, htree]
    · rw [hlevels', ExprDeriv.levels, hlevels]
  · next hnc =>
    refine h.mono ?_
    rintro ts ⟨d, rfl, htree, hlevels⟩
    obtain ⟨d', hyield, htree', hlevels'⟩ := d.exists_loosen hp (hc hnc)
    exact ⟨d', hyield, htree'.trans htree, hlevels'.trans hlevels⟩

mutual

theorem Expr.writes (e : Expr) (hp : e.Plain) (hs : e.Spelled) :
    Writes e.terminals fun ts => ∃ d : ExprDeriv e.precedence, d.yield = ts ∧ d.tree = e.bare ∧
      d.levels = e.levels := by
  match e with
  | .integer value _ =>
    obtain ⟨n, rfl, hn⟩ := hs
    refine .cons (spells_nat n hn) <| .nil fun t _ hv => ?_
    exact ⟨.integer t, rfl, by simp [ExprDeriv.tree, Expr.bare, hv], rfl⟩
  | .boolean true _ =>
    refine .word .trueWord (by decide) <| .nil fun t => ?_
    refine ⟨.boolean ⟨t.val, .inl t.property⟩, rfl, ?_, rfl⟩
    simp [ExprDeriv.tree, Expr.bare, t.property]
  | .boolean false _ =>
    refine .word .falseWord (by decide) <| .nil fun t => ?_
    refine ⟨.boolean ⟨t.val, .inr t.property⟩, rfl, ?_, rfl⟩
    simp [ExprDeriv.tree, Expr.bare, t.property]
  | .var x _ =>
    refine .name hs <| .nil fun t ht => ?_
    exact ⟨.var t, rfl, by simp [ExprDeriv.tree, Expr.bare, ht], rfl⟩
  | .unary op e _ =>
    obtain ⟨k, hk, rfl, hsign⟩ := exists_of_mem_unaryOperators hp.1
    have he := (e.writes hp.2 hs).grouped (p := .unary) (c := e.precedence ≠ .unary)
      (Expr.precedence_ne_none hp.2) (by decide) fun h => by
        rw [Decidable.not_not.mp h]
        exact Nat.le_refl _
    refine .cons (spells_operator hk) (he.mono ?_)
    rintro us ⟨d, rfl, htree, hlevels⟩ t ht -
    refine ⟨.unary ⟨t.val, by rwa [t.property]⟩ d, rfl, ?_, ?_⟩
    · simp [ExprDeriv.tree, Expr.bare, ht, htree]
    · simp [ExprDeriv.levels, Expr.levels, hlevels]
  | .binary l op r s =>
    obtain ⟨hop, hl, hr⟩ := hp
    obtain ⟨k, hk, rfl, hprec, hb⟩ := exists_of_mem_binaryOperators hop
    have hrank := Precedence.rank_tighter hb
    have hprec' : (Expr.binary l k.spelling r s).precedence = k.precedence := hprec
    rw [Expr.terminals, Expr.levels, hprec', hprec]
    have hwl := (l.writes hl hs.1).grouped (p := k.precedence) (c := ¬ k.precedence ≤ l.precedence)
      (Expr.precedence_ne_none hl) hb.1 Decidable.not_not.mp
    have hwr := (r.writes hr hs.2).grouped (p := k.precedence.tighter)
      (c := r.precedence ≤ k.precedence) (Expr.precedence_ne_none hr)
      (Precedence.tighter_ne_none _) fun h => by
        rw [Precedence.le_iff] at h ⊢
        omega
    refine hwl.append <| .cons (spells_operator hk) <| hwr.mono ?_
    rintro _ ⟨dr, rfl, htr, hlr⟩ t ht - _ ⟨dl, rfl, htl, hll⟩
    refine ⟨.binary hb dl ⟨t.val, by rw [t.property]⟩ dr, rfl, ?_, ?_⟩
    · simp [ExprDeriv.tree, Expr.bare, ht, htl, htr]
    · simp [ExprDeriv.levels, hll, hlr]
  | .call f args _ =>
    refine .name hs.1 <| .word .leftParen (by decide) <| (Expr.writesArgs args hp hs.2).append <|
      .word .rightParen (by decide) <| .nil ?_
    rintro rp _ ⟨d, rfl, htrees, hlevels⟩ lp t ht
    refine ⟨.call t lp d rp, rfl, ?_, ?_⟩
    · simp [ExprDeriv.tree, Expr.bare, ht, htrees]
    · simp [ExprDeriv.levels, Expr.levels, hlevels]
  | .typeName _ => exact hp.elim

theorem Expr.writesArgs (es : List Expr) (hp : Expr.AllPlain es) (hs : Expr.AllSpelled es) :
    Writes (Expr.argTerminals es) fun ts => ∃ d : ArgsDeriv, d.yield = ts ∧
      d.trees = Expr.bareAll es ∧ d.levels = Expr.allLevels es := by
  match es with
  | [] => exact .nil ⟨.none, rfl, rfl, rfl⟩
  | e :: es =>
    have he := (e.writes hp.1 hs.1).loosen (Expr.precedence_ne_none hp.1)
    refine he.append <| (Expr.writesMore es hp.2 hs.2).mono ?_
    rintro _ ⟨more, rfl, htrees, hmore⟩ _ ⟨d, rfl, htree, hlevels⟩
    exact ⟨.some d more, rfl, by simp [ArgsDeriv.trees, Expr.bareAll, htree, htrees],
      by simp [ArgsDeriv.levels, Expr.allLevels, hlevels, hmore]⟩

theorem Expr.writesMore (es : List Expr) (hp : Expr.AllPlain es) (hs : Expr.AllSpelled es) :
    Writes (Expr.moreTerminals es) fun ts => ∃ d : MoreArgsDeriv, d.yield = ts ∧
      d.trees = Expr.bareAll es ∧ d.levels = Expr.allLevels es := by
  match es with
  | [] => exact .nil ⟨.nil, rfl, rfl, rfl⟩
  | e :: es =>
    have he := (e.writes hp.1 hs.1).loosen (Expr.precedence_ne_none hp.1)
    refine .word .comma (by decide) <| he.append <| (Expr.writesMore es hp.2 hs.2).mono ?_
    rintro _ ⟨more, rfl, htrees, hmore⟩ _ ⟨d, rfl, htree, hlevels⟩ comma
    exact ⟨.cons comma d more, rfl, by simp [MoreArgsDeriv.trees, Expr.bareAll, htree, htrees],
      by simp [MoreArgsDeriv.levels, Expr.allLevels, hlevels, hmore]⟩

end

theorem Writes.expression {e : Expr} {Q : List Token → Prop} (hp : e.Plain) (hs : e.Spelled)
    (h : Writes ws fun us => ∀ d : ExprDeriv .or, d.tree = e.bare → d.levels = e.levels →
      Q (d.yield ++ us)) : Writes (e.terminals ++ ws) Q := by
  refine ((e.writes hp hs).loosen (Expr.precedence_ne_none hp)).append (h.mono ?_)
  rintro us hus _ ⟨d, rfl, htree, hlevels⟩
  exact hus d htree hlevels

/-! ## Statements -/

theorem Writes.block {ss : List Stmt} {Q : List Token → Prop}
    (h : Writes (Stmt.allTerminals ss) fun ts => ∃ d : BodyDeriv, d.yield = ts ∧
      d.trees = Stmt.bareAll ss ∧ d.levels = Stmt.allLevels ss ∧ d.depth = Stmt.allDepth ss)
    (h' : Writes ws fun us => ∀ d : BlockDeriv, d.trees = Stmt.bareAll ss →
      d.levels = Stmt.allLevels ss → d.depth = Stmt.allDepth ss → Q (d.yield ++ us)) :
    Writes ("[" :: (Stmt.allTerminals ss ++ "]" :: ws)) Q := by
  refine .word .leftBracket (by decide) <| h.append <| .word .rightBracket (by decide) <|
    h'.mono ?_
  rintro us hus rb _ ⟨d, rfl, htrees, hlevels, hdepth⟩ lb
  have hQ := hus (.mk lb d rb) htrees hlevels hdepth
  simpa [BlockDeriv.yield] using hQ

mutual

theorem Stmt.writes (s : Stmt) (hp : s.Plain) (hs : s.Spelled) :
    Writes s.terminals fun ts => ∃ d : StmtDeriv, d.yield = ts ∧ d.tree = s.bare ∧
      d.levels = s.levels ∧ d.depth = s.depth := by
  match s with
  | .letVar x t e _ =>
    refine .word .letWord (by decide) <| .name hs.1 <| .word .colon (by decide) <|
      .typeName hp.2.1 <| .word .assign (by decide) <| .expression hp.2.2 hs.2.2 <|
      .word .semicolon (by decide) <| .nil ?_
    intro semi d htree hlevels eq dt ht colon dx hx word
    refine ⟨.letVar word dx colon dt eq d semi, rfl, ?_, hlevels, hlevels⟩
    simp [StmtDeriv.tree, Stmt.bare, *]
  | .assign x e _ =>
    refine .name hs.1 <| .word .assign (by decide) <| .expression hp.2 hs.2 <|
      .word .semicolon (by decide) <| .nil ?_
    intro semi d htree hlevels eq dx hx
    refine ⟨.assign dx eq d semi, rfl, ?_, hlevels, hlevels⟩
    simp [StmtDeriv.tree, Stmt.bare, *]
  | .ifThen c ss _ _ =>
    refine .word .ifWord (by decide) <| .expression hp.1 hs.1 <|
      .block (Stmt.writesAll ss hp.2 hs.2) <| .nil ?_
    intro b htrees hb hdepth d htree hlevels word
    refine ⟨.ifThen word d b, by simp [StmtDeriv.yield], ?_, ?_, ?_⟩
    · simp [StmtDeriv.tree, Stmt.bare, *]
    · simp [StmtDeriv.levels, Stmt.levels, *]
    · simp [StmtDeriv.depth, Stmt.depth, *]
  | .ifElse c ss _ ss' _ _ =>
    obtain ⟨hpc, hpss, hpss'⟩ := hp
    obtain ⟨hsc, hsss, hsss'⟩ := hs
    refine .word .ifWord (by decide) <| .expression hpc hsc <|
      .block (Stmt.writesAll ss hpss hsss) <| .word .elseWord (by decide) <|
      .block (Stmt.writesAll ss' hpss' hsss') <| .nil ?_
    intro b' htrees' hb' hdepth' other b htrees hb hdepth d htree hlevels word
    refine ⟨.ifElse word d b other b', by simp [StmtDeriv.yield], ?_, ?_, ?_⟩
    · simp [StmtDeriv.tree, Stmt.bare, *]
    · simp [StmtDeriv.levels, Stmt.levels, *]
    · simp [StmtDeriv.depth, Stmt.depth, *]
  | .whileLoop c ss _ _ =>
    refine .word .whileWord (by decide) <| .expression hp.1 hs.1 <|
      .block (Stmt.writesAll ss hp.2 hs.2) <| .nil ?_
    intro b htrees hb hdepth d htree hlevels word
    refine ⟨.whileLoop word d b, by simp [StmtDeriv.yield], ?_, ?_, ?_⟩
    · simp [StmtDeriv.tree, Stmt.bare, *]
    · simp [StmtDeriv.levels, Stmt.levels, *]
    · simp [StmtDeriv.depth, Stmt.depth, *]
  | .ret none _ =>
    refine .word .returnWord (by decide) <| .word .semicolon (by decide) <| .nil ?_
    intro semi word
    exact ⟨.retNone word semi, rfl, rfl, rfl, rfl⟩
  | .ret (some e) _ =>
    refine .word .returnWord (by decide) <| .expression hp hs <|
      .word .semicolon (by decide) <| .nil ?_
    intro semi d htree hlevels word
    refine ⟨.ret word d semi, rfl, ?_, hlevels, hlevels⟩
    simp [StmtDeriv.tree, Stmt.bare, htree]
  | .print e _ =>
    refine .word .printWord (by decide) <| .expression hp hs <|
      .word .semicolon (by decide) <| .nil ?_
    intro semi d htree hlevels word
    refine ⟨.print word d semi, rfl, ?_, hlevels, hlevels⟩
    simp [StmtDeriv.tree, Stmt.bare, htree]
  | .expr e _ =>
    refine .expression hp hs <| .word .semicolon (by decide) <| .nil ?_
    intro semi d htree hlevels
    refine ⟨.expr d semi, rfl, ?_, hlevels, hlevels⟩
    simp [StmtDeriv.tree, Stmt.bare, htree]
  | .block .. => exact hp.elim

theorem Stmt.writesAll (ss : List Stmt) (hp : Stmt.AllMeet .plain ss)
    (hs : Stmt.AllMeet .spelled ss) :
    Writes (Stmt.allTerminals ss) fun ts => ∃ d : BodyDeriv, d.yield = ts ∧
      d.trees = Stmt.bareAll ss ∧ d.levels = Stmt.allLevels ss ∧ d.depth = Stmt.allDepth ss := by
  match ss with
  | [] => exact .nil ⟨.nil, rfl, rfl, rfl, rfl⟩
  | s :: ss =>
    refine (s.writes hp.1 hs.1).append <| (Stmt.writesAll ss hp.2 hs.2).mono ?_
    rintro _ ⟨ds, rfl, htrees, hds, hdepths⟩ _ ⟨d, rfl, htree, hd, hdepth⟩
    refine ⟨.cons d ds, rfl, ?_, ?_, ?_⟩
    · simp [BodyDeriv.trees, Stmt.bareAll, htree, htrees]
    · simp [BodyDeriv.levels, Stmt.allLevels, hd, hds]
    · simp [BodyDeriv.depth, Stmt.allDepth, hdepth, hdepths]

end

/-! ## Programs -/

theorem Param.writes (p : Param) (hp : p.type.Plain) (hs : IsName p.name) :
    Writes p.terminals fun ts => ∃ d : ParamDeriv, d.yield = ts ∧ d.tree = p.bare := by
  refine .name hs <| .word .colon (by decide) <| .typeName hp <| .nil ?_
  intro t ht colon x hx
  exact ⟨⟨x, colon, t⟩, rfl, by simp [ParamDeriv.tree, Param.bare, hx, ht]⟩

theorem Param.writesMore (ps : List Param) (hp : ∀ p ∈ ps, p.type.Plain)
    (hs : ∀ p ∈ ps, IsName p.name) :
    Writes (ps.flatMap fun p => "," :: p.terminals) fun ts =>
      ∃ ds : List (Terminal .comma × ParamDeriv), ds.flatMap (fun d => d.1.val :: d.2.yield) = ts ∧
        ds.map (fun d => d.2.tree) = ps.map Param.bare := by
  induction ps with
  | nil => exact .nil ⟨[], rfl, rfl⟩
  | cons p ps ih =>
    rw [List.forall_mem_cons] at hp hs
    refine .word .comma (by decide) <| (p.writes hp.1 hs.1).append <| (ih hp.2 hs.2).mono ?_
    rintro _ ⟨ds, rfl, htrees⟩ _ ⟨d, rfl, htree⟩ comma
    exact ⟨(comma, d) :: ds, rfl, by simp [htree, htrees]⟩

theorem Param.writesAll (ps : List Param) (hp : ∀ p ∈ ps, p.type.Plain)
    (hs : ∀ p ∈ ps, IsName p.name) :
    Writes (Param.allTerminals ps) fun ts => ∃ d : ParamsDeriv, d.yield = ts ∧
      d.trees = ps.map Param.bare := by
  match ps with
  | [] => exact .nil ⟨.none, rfl, rfl⟩
  | p :: ps =>
    rw [List.forall_mem_cons] at hp hs
    refine (p.writes hp.1 hs.1).append <| (Param.writesMore ps hp.2 hs.2).mono ?_
    rintro _ ⟨ds, rfl, htrees⟩ _ ⟨d, rfl, htree⟩
    exact ⟨.some d ds, rfl, by simp [ParamsDeriv.trees, htree, htrees]⟩

theorem Function.writes (f : Function) (hp : f.Plain) (hs : f.Spelled) :
    Writes f.terminals fun ts => ∃ d : FunctionDeriv, d.yield = ts ∧ d.tree = f.bare ∧
      d.levels = f.levels ∧ d.depth = f.depth := by
  have hparams := Param.writesAll f.params (fun p h => (hp.params p h).type)
    fun p h => (hs.params p h).name
  refine .word .funcWord (by decide) <| .name hs.name <| .word .leftParen (by decide) <|
    hparams.append <| .word .rightParen (by decide) <| .word .arrow (by decide) <|
    .typeName hp.returnType <| .block (Stmt.writesAll f.body.body hp.body hs.body) <| .nil ?_
  rintro b htrees hlevels hdepth t ht arrow rp _ ⟨ps, rfl, hps⟩ lp x hx word
  refine ⟨⟨word, x, lp, ps, rp, arrow, t, b⟩, by simp [FunctionDeriv.yield], ?_, hlevels, hdepth⟩
  simp [FunctionDeriv.tree, Function.bare, Block.bare, hx, hps, ht, htrees]

theorem Program.writes (p : Program) (hp : p.Plain) (hs : p.Spelled) :
    Writes p.terminals fun ts => ∃ d : ProgramDeriv, d.yield = ts ∧ d.tree = p.bare ∧
      ∀ stack, d.Fits stack ↔
        ∀ f ∈ p.functions, f.levels ≤ maxExpressionDepth ∧ f.depth ≤ stack := by
  obtain ⟨fs, s⟩ := p
  induction fs with
  | nil =>
    refine .nil ⟨⟨[]⟩, rfl, rfl, fun stack => ?_⟩
    simp [ProgramDeriv.Fits]
  | cons f fs ih =>
    obtain ⟨hpf, hp⟩ := List.forall_mem_cons.mp hp
    obtain ⟨hsf, hs⟩ := List.forall_mem_cons.mp hs
    refine (f.writes hpf hsf).append <| (ih hp hs).mono ?_
    rintro _ ⟨⟨ds⟩, rfl, htree, hfits⟩ _ ⟨d, rfl, hd, hlevels, hdepth⟩
    refine ⟨⟨d :: ds⟩, rfl, by simpa [ProgramDeriv.tree, Program.bare, hd] using htree, ?_⟩
    intro stack
    have hrest := hfits stack
    have hfirst : d.Fits stack ↔ f.levels ≤ maxExpressionDepth ∧ f.depth ≤ stack := by
      rw [← hlevels, ← hdepth, ← Nat.lt_succ_iff (n := stack)]
      exact d.body.fits_iff
    simp only [ProgramDeriv.Fits, List.forall_mem_cons] at hrest ⊢
    rw [hfirst, hrest]

namespace Frontend

/-- What is written can be read without errors if and only if it is not too deep, and then it gives
the tree again. -/
theorem faults_of_spaced (stack : Nat) {p : Program} (hp : p.Plain) (hs : p.Spelled)
    (file : String) {source : String} (hsource : Spaced p.terminals source.toList) :
    ∃ staged, parse stack source file = .ok staged ∧
      (staged.faults = [] ↔
        ∀ f ∈ p.functions, f.levels ≤ maxExpressionDepth ∧ f.depth ≤ stack) ∧
      (staged.faults = [] → staged.result.bare = p.bare) := by
  have hwrites := p.writes hp hs
  obtain ⟨hend, herrors, ts, hts, htokens⟩ :=
    Scan.exists_tokens_of_spaced hsource hwrites.words file
  obtain ⟨d, rfl, htree, hfits⟩ := hwrites.tokens ts hts
  have hyield : d.yield = upToEof ((Scan.ofSource file source.toList).tokens file) := by
    rw [htokens, upToEof_append (fun t ht => (hts.spells t ht).ne_eof) rfl]
  have hiff : (Parsed.ofTokens stack ((Scan.ofSource file source.toList).tokens file)).state.errors
      = [] ↔ d.Fits stack := by
    rw [Parsed.errors_eq_nil_iff_fits]
    refine ⟨?_, fun h => ⟨d, hyield, h⟩⟩
    rintro ⟨d', hd', h⟩
    rwa [← ProgramDeriv.eq_of_yield_eq (hd'.trans hyield.symm)]
  refine ⟨_, by simp only [parse, tokenize, hend]; rfl, ?_, fun hnil => ?_⟩
  · rw [← hfits, ← hiff]
    simp [herrors]
  · have hd : d.Fits stack := hiff.mp (by simpa [herrors] using hnil)
    exact (Parsed.of_derived d hyield hd).2.trans htree

/-- Reading back what was written gives the tree again, spans aside, and finds nothing wrong. The
words of the tree may have any layout between them that begins with a blank. -/
theorem parse_of_spaced_terminals (stack : Nat) (p : Program) (hp : p.Plain) (hs : p.Spelled)
    (hl : ∀ f ∈ p.functions, f.levels ≤ maxExpressionDepth)
    (hd : ∀ f ∈ p.functions, f.depth ≤ stack) (source file : String)
    (hsource : Spaced p.terminals source.toList) :
    ∃ staged, parse stack source file = .ok staged ∧ staged.faults = [] ∧
      staged.result.bare = p.bare := by
  obtain ⟨staged, hparse, hiff, hbare⟩ := faults_of_spaced stack hp hs file hsource
  have hnil := hiff.mpr fun f hf => ⟨hl f hf, hd f hf⟩
  exact ⟨staged, hparse, hnil, hbare hnil⟩

/-- `func f(n: i32) -> i32 [ return n - (1 - f(-2, true)) * 3; ]`. -/
def difference : Program :=
  let e : Expr := .binary (.var "n" .nowhere) "-"
    (.binary
      (.binary (.integer (some (.int 1)) .nowhere) "-"
        (.call "f" [.unary "-" (.integer (some (.int 2)) .nowhere) .nowhere,
          .boolean true .nowhere] .nowhere) .nowhere)
      "*" (.integer (some (.int 3)) .nowhere) .nowhere) .nowhere
  ⟨[⟨"f", [⟨"n", ⟨"i32", .nowhere⟩, .origin⟩], ⟨"i32", .nowhere⟩,
    ⟨[.ret (some e) .nowhere], .nowhere⟩, .nowhere⟩], .nowhere⟩

theorem parse_difference :
    difference.Plain ∧ difference.Spelled ∧
    ∃ staged, parse 100 "func f ( n : i32 ) -> i32 [ return n - ( 1 - f ( - 2 , true ) ) * 3 ; ] "
      "main" = .ok staged ∧ staged.faults = [] ∧ staged.result.bare = difference.bare := by
  have hf : IsName "f" := ⟨⟨'f', [], rfl, by decide, nofun⟩, by decide⟩
  have hn : IsName "n" := ⟨⟨'n', [], rfl, by decide, nofun⟩, by decide⟩
  have hp : difference.Plain := by
    refine List.forall_mem_singleton.mpr ⟨trivial, ?_, .inl rfl, ?_⟩
    · exact List.forall_mem_singleton.mpr ⟨trivial, .inl rfl⟩
    · simp [Stmt.AllMeet, Stmt.Meets, Demands.plain, Expr.Plain, Expr.AllPlain, unaryOperators,
        binaryOperators]
  have hs : difference.Spelled := by
    refine List.forall_mem_singleton.mpr ⟨hf, List.forall_mem_singleton.mpr ⟨hn, trivial⟩,
      trivial, ?_⟩
    simp only [Stmt.AllMeet, Stmt.Meets, Demands.spelled, Expr.Spelled, Expr.AllSpelled]
    have hnumber : ∀ n : Nat, n ≤ 3 → ∃ m : Nat, some (Literal.int n) = some (.int m) ∧
        (m : Int) ≤ int32Max := fun n hn => ⟨n, rfl, by simp only [int32Max]; omega⟩
    exact ⟨⟨hn, ⟨hnumber 1 (by decide), hf, hnumber 2 (by decide), trivial, trivial⟩,
      hnumber 3 (by decide)⟩, trivial⟩
  refine ⟨hp, hs, parse_of_spaced_terminals 100 difference hp hs (by decide) (by decide) _ _ ?_⟩
  exact spaced_flatMap difference.terminals

/-- `n` loops, each but the last around the next. -/
def nestedLoops : (n : Nat) → List Stmt
  | 0 => []
  | n + 1 => [.whileLoop (.boolean true .nowhere) (nestedLoops n) .nowhere .nowhere]

/-- A function around `n` loops. -/
def loops (n : Nat) : Program :=
  ⟨[⟨"f", [], ⟨"i32", .nowhere⟩, ⟨nestedLoops n, .nowhere⟩, .nowhere⟩], .nowhere⟩

theorem allMeet_nestedLoops (h : D.expr (.boolean true .nowhere)) (n : Nat) :
    Stmt.AllMeet D (nestedLoops n) := by
  induction n with
  | zero => trivial
  | succ n ih => exact ⟨⟨h, ih⟩, trivial⟩

theorem allLevels_nestedLoops (n : Nat) : Stmt.allLevels (nestedLoops n) ≤ 1 := by
  induction n with
  | zero => exact Nat.zero_le 1
  | succ n ih =>
    simp only [nestedLoops, Stmt.allLevels, Stmt.levels, Expr.levels]
    omega

theorem allDepth_nestedLoops (n : Nat) : Stmt.allDepth (nestedLoops n) = n := by
  induction n with
  | zero => rfl
  | succ n ih =>
    simp only [nestedLoops, Stmt.allDepth, Stmt.depth, Expr.levels, ih]
    omega

/-- On any stack, there is no room to read back some loops. -/
theorem not_parse_of_levels : ¬∃ stack, ∀ p : Program, p.Plain → p.Spelled →
    (∀ f ∈ p.functions, f.levels ≤ maxExpressionDepth) → ∀ source file : String,
      Spaced p.terminals source.toList → ∃ staged, parse stack source file = .ok staged ∧
        staged.faults = [] ∧ staged.result.bare = p.bare := by
  rintro ⟨stack, h⟩
  have hf : IsName "f" := ⟨⟨'f', [], rfl, by decide, nofun⟩, by decide⟩
  have hp : (loops (stack + 1)).Plain := List.forall_mem_singleton.mpr
    ⟨trivial, List.forall_mem_nil _, .inl rfl, allMeet_nestedLoops trivial _⟩
  have hs : (loops (stack + 1)).Spelled := List.forall_mem_singleton.mpr
    ⟨hf, List.forall_mem_nil _, trivial, allMeet_nestedLoops trivial _⟩
  have hl : ∀ f ∈ (loops (stack + 1)).functions, f.levels ≤ maxExpressionDepth :=
    List.forall_mem_singleton.mpr (Nat.le_trans (allLevels_nestedLoops _) (by decide))
  let source := String.ofList ((loops (stack + 1)).terminals.flatMap fun w => w.toList ++ [' '])
  have hsource : Spaced (loops (stack + 1)).terminals source.toList := by
    rw [String.toList_ofList]
    exact spaced_flatMap _
  obtain ⟨staged, hparse, hnil, -⟩ := h _ hp hs hl source "main" hsource
  obtain ⟨staged', hparse', hiff, -⟩ := faults_of_spaced stack hp hs "main" hsource
  cases hparse.symm.trans hparse'
  have hdepth : Stmt.allDepth (nestedLoops (stack + 1)) ≤ stack :=
    (hiff.mp hnil _ List.mem_cons_self).2
  rw [allDepth_nestedLoops] at hdepth
  omega

end Frontend

end BracketLang
