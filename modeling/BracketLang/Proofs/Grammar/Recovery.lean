import BracketLang.Proofs.Grammar.Blame
import BracketLang.Proofs.Grammar.Programs

/-! Going on after an error costs no more than the statement that it is in. Tokens that are no
statement and stand at the place of one are skipped up to their semicolon (`StrayTokens.skips`).
What stands around them is read as it is without them: `Parser.Mends` says so of a parser that puts
one error on record, and carries it from the block that they stand in up to the whole program. -/

namespace BracketLang

/-- Tokens that can stand in front of a semicolon where a statement should. They end no block and no
function; only the first can be the word of a statement, and of one without blocks; and they do not
go on with the statement before. -/
structure StrayTokens (ts : List Token) : Prop where
  inside : ∀ t ∈ ts, t.kind ≠ .semicolon ∧ t.kind ∉ TokenKind.blockBoundaries
  first : ∀ t ∈ ts.head?, t.kind ≠ .ifWord ∧ t.kind ≠ .whileWord ∧ t.kind ≠ .elseWord
  others : ∀ t ∈ ts.tail, t.kind ∉ TokenKind.statementStarts

/-! ## Semicolons -/

/-- Tokens without a semicolon that come before one. -/
theorem exists_append_of_semicolon {ts us r r' : List Token} {semi : Token}
    (h : ts ++ r' = us ++ semi :: r) (hts : ∀ t ∈ ts, t.kind ≠ .semicolon)
    (hsemi : semi.kind = .semicolon) : ∃ vs, us = ts ++ vs ∧ r' = vs ++ semi :: r := by
  rcases List.append_eq_append_iff.mp h with ⟨vs, rfl, rfl⟩ | ⟨vs, rfl, hvs⟩
  · exact ⟨vs, rfl, rfl⟩
  · cases vs with
    | nil => exact ⟨[], by simp, hvs.symm⟩
    | cons v vs =>
      obtain ⟨rfl, -⟩ := List.cons.inj hvs
      exact absurd hsemi (hts _ (by simp))

/-- Up to the first semicolon, tokens split in one way. -/
theorem eq_of_append_semicolon {ts us r r' : List Token} {semi semi' : Token}
    (h : ts ++ semi' :: r' = us ++ semi :: r) (hts : ∀ t ∈ ts, t.kind ≠ .semicolon)
    (hus : ∀ t ∈ us, t.kind ≠ .semicolon) (hsemi' : semi'.kind = .semicolon)
    (hsemi : semi.kind = .semicolon) : ts = us ∧ semi' = semi := by
  obtain ⟨vs, rfl, hvs⟩ := exists_append_of_semicolon h hts hsemi
  cases vs with
  | nil => exact ⟨by simp, (List.cons.inj hvs).1⟩
  | cons v vs =>
    obtain ⟨rfl, -⟩ := List.cons.inj hvs
    exact absurd hsemi' (hus _ (by simp))

theorem ExprDeriv.ne_semicolon (d : ExprDeriv p) : ∀ t ∈ d.yield, t.kind ≠ .semicolon := by
  intro t ht hk
  have hin := d.inExpression t ht
  rw [hk] at hin
  revert hin
  simp [TokenKind.InExpression, TokenKind.expressionStarts, TokenKind.precedence]

/-- A statement without blocks ends in its only semicolon. -/
theorem StmtDeriv.exists_semicolon (d : StmtDeriv) (hif : nextKind (d.yield ++ r) ≠ .ifWord)
    (hwhile : nextKind (d.yield ++ r) ≠ .whileWord) :
    ∃ ts, ∃ semi : Terminal .semicolon, d.yield = ts ++ [semi.val] ∧
      ∀ t ∈ ts, t.kind ≠ .semicolon := by
  have hword {k : TokenKind} (t : Terminal k) (hk : k ≠ .semicolon) : t.val.kind ≠ .semicolon := by
    rwa [t.property]
  cases d with
  | letVar word x colon t eq e semi =>
    refine ⟨word.val :: x.val :: colon.val :: t.val :: eq.val :: e.yield, semi, rfl, ?_⟩
    have ht : t.val.kind ≠ .semicolon := fun hk => absurd (hk ▸ t.property) (by decide)
    simp only [List.forall_mem_cons]
    exact ⟨hword word (by decide), hword x (by decide), hword colon (by decide), ht,
      hword eq (by decide), e.ne_semicolon⟩
  | assign x eq e semi =>
    refine ⟨x.val :: eq.val :: e.yield, semi, rfl, ?_⟩
    simp only [List.forall_mem_cons]
    exact ⟨hword x (by decide), hword eq (by decide), e.ne_semicolon⟩
  | ifThen word | ifElse word => exact absurd word.property hif
  | whileLoop word => exact absurd word.property hwhile
  | retNone word semi => exact ⟨[word.val], semi, rfl, by simpa using hword word (by decide)⟩
  | ret word e semi | print word e semi =>
    refine ⟨word.val :: e.yield, semi, rfl, ?_⟩
    simp only [List.forall_mem_cons]
    exact ⟨hword word (by decide), e.ne_semicolon⟩
  | expr e semi => exact ⟨e.yield, semi, rfl, e.ne_semicolon⟩

/-- Skipping runs over everything but semicolons and the places where reading can go on. -/
theorem Cursor.skipStatement_append {ts : List Token} (before r : List Token)
    (hts : ∀ t ∈ ts, t.kind ≠ .semicolon ∧ t.kind.isResumePoint = false) :
    skipStatement before (ts ++ r) = skipStatement (ts.reverse ++ before) r := by
  induction ts generalizing before with
  | nil => rfl
  | cons t ts ih =>
    obtain ⟨⟨hne, hresume⟩, hts⟩ := List.forall_mem_cons.mp hts
    rw [List.cons_append, skipStatement, if_neg hne, hresume, if_neg (by simp), ih _ hts]
    simp

/-! ## Reading on with one error on record -/

namespace ParserState

/-- `s'` stands behind the tokens `ts` of `s`, with as many levels open and one new error, which
blames one of the tokens `junk`. -/
structure Reports (junk : List Token) (s : ParserState) (ts : List Token) (s' : ParserState) : Prop
    extends s.Passes ts s' where
  errors : ∃ e : SyntaxError, e.found ∈ junk ∧ s'.errors = s.errors ++ [e]

variable {s s' s'' : ParserState} {junk ts us : List Token}

theorem Takes.trans_reports (h : s.Takes ts s') (h' : Reports junk s' us s'') :
    Reports junk s (ts ++ us) s'' :=
  ⟨h.toPasses.trans h'.toPasses, h.errors ▸ h'.errors⟩

theorem Reports.trans_takes (h : Reports junk s ts s') (h' : s'.Takes us s'') :
    Reports junk s (ts ++ us) s'' :=
  ⟨h.toPasses.trans h'.toPasses, h'.errors ▸ h.errors⟩

end ParserState

namespace Parser

open ParserState

section
variable {α β : Type} {x : Parser α} {f : α → Parser β} {P : α → Prop} {P' : β → Prop}
  {junk : List Token}

/-- At every state with `d` levels open, in front of `ts` and then `r`, the parser takes `ts`, puts
one error on record that blames one of the tokens `junk`, and gives a result with `P`. -/
def Mends (junk : List Token) (d : Nat) (x : Parser α) (ts r : List Token) (P : α → Prop) : Prop :=
  ∀ s : ParserState, s.rest = ts ++ r → s.depth = d →
    ∃ a s', x s = .ok a s' ∧ Reports junk s ts s' ∧ P a

theorem Accepts.bind_mends (hx : Accepts d x ts (us ++ r) P)
    (hf : ∀ a, P a → Mends junk d (f a) us r P') : Mends junk d (x >>= f) (ts ++ us) r P' := by
  intro s hs hd
  rw [List.append_assoc] at hs
  obtain ⟨a, s', hok, ht, ha⟩ := hx s hs hd
  obtain ⟨b, s'', hok', ht', hb⟩ := hf a ha s' (ht.rest_eq hs) (ht.depth.trans hd)
  exact ⟨b, s'', bind_eq_ok.mpr ⟨a, s', hok, hok'⟩, ht.trans_reports ht', hb⟩

namespace Mends

theorem bind (hx : Mends junk d x ts (us ++ r) P) (hf : ∀ a, P a → Accepts d (f a) us r P') :
    Mends junk d (x >>= f) (ts ++ us) r P' := by
  intro s hs hd
  rw [List.append_assoc] at hs
  obtain ⟨a, s', hok, ht, ha⟩ := hx s hs hd
  obtain ⟨b, s'', hok', ht', hb⟩ := hf a ha s' (ht.rest_eq hs) (ht.depth.trans hd)
  exact ⟨b, s'', bind_eq_ok.mpr ⟨a, s', hok, hok'⟩, ht.trans_takes ht', hb⟩

theorem bind_pure {g : α → β} (hx : Mends junk d x ts r P) (hg : ∀ a, P a → P' (g a)) :
    Mends junk d (do return g (← x)) ts r P' := by
  rw [← List.append_nil ts]
  exact bind (by simpa using hx) fun a ha => .pure (hg a ha)

theorem bind_after (hx : Mends junk d x ts (us ++ r) P) (hts : ts.getLast? = some t)
    (hf : ∀ a, P a → AcceptsAfter t d (f a) us r P') : Mends junk d (x >>= f) (ts ++ us) r P' := by
  intro s hs hd
  rw [List.append_assoc] at hs
  obtain ⟨a, s', hok, ht, ha⟩ := hx s hs hd
  obtain ⟨b, s'', hok', ht', hb⟩ :=
    hf a ha s' (previous_of_takes ht.toPasses hts) (ht.rest_eq hs) (ht.depth.trans hd)
  exact ⟨b, s'', bind_eq_ok.mpr ⟨a, s', hok, hok'⟩, ht.trans_takes ht', hb⟩

theorem bind_spanFrom {g : α → Span → β} (hx : Mends junk d x ts r (· = a))
    (hts : ts.getLast? = some t) :
    Mends junk d (do
      let a ← x
      return g a (← spanFrom start)) ts r (· = g a ⟨start, t.location⟩) := by
  rw [← List.append_nil ts]
  refine bind_after (by simpa using hx) hts ?_
  rintro _ rfl
  exact .spanFrom

theorem look_bind {g : ParserState → α}
    (hf : ∀ s : ParserState, s.rest = us ++ r → s.depth = d → Mends junk d (f (g s)) us r P') :
    Mends junk d ((fun s => .ok (g s) s : Parser α) >>= f) us r P' :=
  fun s hs hd => hf s hs hd s hs hd

theorem cursor_bind {f : Cursor → Parser β} (t : Terminal k)
    (hf : ∀ s : Cursor, s.peek.kind = k → Mends junk d (f s) (t.val :: us) r P') :
    Mends junk d (cursor >>= f) (t.val :: us) r P' :=
  look_bind fun s hs _ => hf s.toCursor (by rw [Cursor.kind_peek, hs]; exact t.property)

theorem visit_bind {f : Unit → Parser β} (hf : Mends junk d (f ()) us r P') :
    Mends junk d (visit production >>= f) us r P' :=
  (Accepts.visit production).bind_mends fun _ _ => hf

theorem consume_bind {f : Token → Parser β} (t : Terminal k) (hk : k ≠ .eof)
    (hf : Mends junk d (f t.val) us r P') :
    Mends junk d (consume k >>= f) (t.val :: us) r P' :=
  (Accepts.consume t hk).bind_mends fun _ ha => ha ▸ hf

theorem expression_bind {f : Expr → Parser β} (e : ExprDeriv .or)
    (hm : e.levels ≤ min room maxExpressionDepth) (hr : nextKind (us ++ r) = .leftBracket)
    (hf : Mends junk 0 (f e.located) us r P') :
    Mends junk 0 (expression room >>= f) (e.yield ++ us) r P' :=
  (accepts_expression e hm (.inr hr)).bind_mends fun _ ha => ha ▸ hf

theorem statementWith {block : Parser Block} {P : Stmt → Prop}
    (h : Mends junk d (properStatement room block) ts r P) :
    Mends junk d (statementWith room block) ts r fun o => ∃ s, o = some s ∧ P s := by
  intro s hs hd
  obtain ⟨a, s', hok, hreports, ha⟩ := h s hs hd
  exact ⟨some a, s', by simp [Parser.statementWith, hok], hreports, a, rfl, ha⟩

theorem statements {st : Parser (Option Stmt)} {P : List Stmt → Prop}
    (hgo : nextKind (ts ++ r) ∉ TokenKind.blockBoundaries)
    (h : Mends junk d (do
      let a ← st
      let as ← statements st n
      return a.toList ++ as) ts r P) :
    Mends junk d (statements st (n + 1)) ts r P := by
  refine look_bind fun s hs _ => ?_
  rw [← hs, ← Cursor.atBlockBoundary_iff] at hgo
  rw [if_neg hgo]
  exact h

end Mends

end

/-! ## Stray tokens are skipped -/

section
variable {s s' : ParserState} {ts us : List Token} {semi : Token}

/-- What is skipped after an error reaches up to the next semicolon and no further. -/
theorem passes_resume (h : s.Passes ts s') (hs' : s'.rest = us ++ semi :: r)
    (hus : ∀ t ∈ us, t.kind ≠ .semicolon ∧ t.kind.isResumePoint = false)
    (hsemi : semi.kind = .semicolon) :
    s.Passes (ts ++ (us ++ [semi])) (s'.move (.resume s.position)) := by
  have hsync : s'.synchronize = ⟨semi :: (us.reverse ++ s'.before), r⟩ := by
    rw [Cursor.synchronize, hs', Cursor.skipStatement_append _ _ hus, Cursor.skipStatement,
      if_pos hsemi]
  have hmoved : s'.synchronize.position ≠ s.position := by
    rw [hsync, h.before]
    simp only [Cursor.position, List.length_cons, List.length_append, List.length_reverse]
    omega
  have hresume : s'.toCursor.resume s.position = s'.synchronize := by
    rw [Cursor.resume, if_neg fun hc => hmoved hc.1]
  refine h.trans ⟨?_, ?_, rfl⟩
  · rw [hs', ParserState.move, hresume, hsync]
    simp
  · rw [ParserState.move, hresume, hsync]
    simp

/-- A statement that starts with its own word fails behind that word at the earliest. -/
theorem length_rest_of_error (hs : nextKind s.rest ∈ TokenKind.statementStarts)
    (h : properStatement room (blockWithin room) s = .error e s') :
    s'.rest.length < s.rest.length := by
  obtain h | ⟨c, s₁, hc, h⟩ := bind_eq_error.mp h
  · cases h
  cases hc
  have hcheck {k : TokenKind} (hk : s.peek.kind = k) : s.check k = true := decide_eq_true hk
  simp only [TokenKind.statementStarts, List.mem_cons, List.not_mem_nil, or_false,
    ← Cursor.kind_peek] at hs
  rcases hs with hk | hk | hk | hk | hk
  · rw [hk] at h
    exact (leads_letStatement room).error_lt (hcheck hk) h
  · rw [hk] at h
    exact (leads_ifStatement (steady_blockWithin room) room).error_lt (hcheck hk) h
  · rw [hk] at h
    exact (leads_whileStatement (steady_blockWithin room) room).error_lt (hcheck hk) h
  · rw [hk] at h
    exact (leads_returnStatement room).error_lt (hcheck hk) h
  · rw [hk] at h
    exact (leads_printStatement room).error_lt (hcheck hk) h

/-- At the place of a statement, `junk` is skipped with one error, and it ends nothing there. -/
structure Skips (junk : List Token) : Prop where
  next (r) : nextKind (junk ++ r) ∉ .elseWord :: TokenKind.blockBoundaries
  mends (room r) : Mends junk 0 (statementWith room (blockWithin room)) junk r (· = none)

end

end Parser

namespace StrayTokens

open Parser ParserState

variable {stray : List Token} {semi : Token}

theorem nextKind_ne (h : StrayTokens stray) (hsemi : semi.kind = .semicolon)
    (hk : k ∈ [.ifWord, .whileWord, .elseWord] ++ TokenKind.blockBoundaries) :
    nextKind (stray ++ semi :: r) ≠ k := by
  rintro rfl
  cases stray with
  | nil =>
    rw [List.nil_append, nextKind_cons, hsemi] at hk
    exact absurd hk (by decide)
  | cons t ts =>
    have hk : t.kind ∈ _ := hk
    rcases List.mem_append.mp hk with hk | hk
    · obtain ⟨hif, hwhile, helse⟩ := h.first t rfl
      simp [hif, hwhile, helse] at hk
    · exact (h.inside t (List.mem_cons_self ..)).2 hk

/-- Behind the place where the statement failed, nothing stops the skipping short of the
semicolon. -/
theorem skippable (h : StrayTokens (ts ++ us))
    (hts : ts = [] → nextKind (us ++ r) ∉ TokenKind.statementStarts) :
    ∀ t ∈ us, t.kind ≠ .semicolon ∧ t.kind.isResumePoint = false := by
  intro t ht
  obtain ⟨hsemi, hboundary⟩ := h.inside t (List.mem_append_right _ ht)
  refine ⟨hsemi, decide_eq_false (not_or.mpr ⟨?_, hboundary⟩)⟩
  cases ts with
  | cons u ts => exact h.others t (List.mem_append_right _ ht)
  | nil =>
    obtain ⟨u, us, rfl⟩ := List.exists_cons_of_ne_nil (List.ne_nil_of_mem ht)
    rcases List.mem_cons.mp ht with rfl | ht
    · exact hts rfl
    · exact h.others t ht

variable (h : StrayTokens stray) (hsemi : semi.kind = .semicolon)
include h hsemi

/-- Where reading a statement fails, they are skipped up to the semicolon. -/
theorem reports_of_error {s s' : ParserState} (hs : s.rest = stray ++ semi :: r)
    (herror : properStatement room (blockWithin room) s = .error e s') :
    Reports (stray ++ [semi]) s (stray ++ [semi])
      ((s'.record e).move (.resume s.position)) := by
  have hblames : Blames (properStatement room (blockWithin room)) s :=
    blames_properStatement (fun hif => absurd (hs ▸ hif) (h.nextKind_ne hsemi (by decide)))
      fun hwhile => absurd (hs ▸ hwhile) (h.nextKind_ne hsemi (by decide))
  obtain ⟨⟨ts, htakes, hne⟩, hfound⟩ := hblames.error herror
  obtain ⟨us, rfl, hrest⟩ := exists_append_of_semicolon (htakes.rest.symm.trans hs) hne hsemi
  have hus : ∀ t ∈ us, t.kind ≠ .semicolon ∧ t.kind.isResumePoint = false := by
    -- the word of a statement is taken before anything fails
    refine h.skippable (r := semi :: r) ?_
    rintro rfl hstarts
    have hlt := length_rest_of_error (hs ▸ hstarts) herror
    rw [hs, hrest] at hlt
    exact Nat.lt_irrefl _ hlt
  have hpasses : s.Passes ts (s'.record e) := ⟨htakes.rest, htakes.before, htakes.depth⟩
  refine ⟨?_, e, ?_, ?_⟩
  · simpa using passes_resume hpasses hrest hus hsemi
  · rw [hfound, Cursor.peek, hrest]
    cases us <;> simp
  · exact congrArg (· ++ [e]) htakes.errors

/-- They are read as a statement only if they are one. -/
theorem not_ok {s s' : ParserState} (hs : s.rest = stray ++ semi :: r)
    (hnot : ¬∃ d : StmtDeriv, d.yield = stray ++ [semi] ∧ d.levels ≤ maxExpressionDepth) :
    properStatement room (blockWithin room) s ≠ .ok stmt s' := by
  intro hok
  have hif : nextKind s.rest ≠ .ifWord := hs ▸ h.nextKind_ne hsemi (by decide)
  have hwhile : nextKind s.rest ≠ .whileWord := hs ▸ h.nextKind_ne hsemi (by decide)
  have hblames : Blames (properStatement room (blockWithin room)) s :=
    blames_properStatement (fun h => absurd h hif) fun h => absurd h hwhile
  have herrors := hblames.ok hok
  obtain ⟨_, htakes, d, rfl, -, hfits⟩ :=
    (reads_properStatement (reads_blockWithin room)).takes hok herrors
  rw [htakes.rest] at hs hif hwhile
  obtain ⟨ts, semi', hyield, hne⟩ := d.exists_semicolon hif hwhile
  rw [hyield, List.append_assoc] at hs
  obtain ⟨rfl, hsemi'⟩ := eq_of_append_semicolon hs hne (fun t ht => (h.inside t ht).1)
    semi'.property hsemi
  exact hnot ⟨d, by rw [hyield, hsemi'], (d.fits_iff.mp hfits).1⟩

theorem skips
    (hnot : ¬∃ d : StmtDeriv, d.yield = stray ++ [semi] ∧ d.levels ≤ maxExpressionDepth) :
    Skips (stray ++ [semi]) := by
  refine ⟨fun r hr => ?_, fun room r s hs _ => ?_⟩
  · rw [List.append_assoc] at hr
    exact h.nextKind_ne hsemi (List.mem_append_right [.ifWord, .whileWord] hr) rfl
  · rw [List.append_assoc] at hs
    cases hstmt : properStatement room (blockWithin room) s with
    | ok stmt s' => exact absurd hstmt (h.not_ok hsemi hs hnot)
    | error e s' =>
      refine ⟨none, (s'.record e).move (.resume s.position), ?_,
        h.reports_of_error hsemi hs hstmt, rfl⟩
      simp only [statementWith, hstmt]

end StrayTokens

/-! ## Statement boundaries -/

/-- The statement is made of the tokens `pre`, one of its blocks and the tokens `post`. -/
inductive StmtDeriv.Holds : StmtDeriv → (pre : List Token) → BlockDeriv → (post : List Token) → Prop
  | ifThen : Holds (.ifThen word c b) (word.val :: c.yield) b []
  | ifElse : Holds (.ifElse word c b other b') (word.val :: c.yield) b (other.val :: b'.yield)
  | otherwise :
    Holds (.ifElse word c b other b') (word.val :: (c.yield ++ (b.yield ++ [other.val]))) b' []
  | whileLoop : Holds (.whileLoop word c b) (word.val :: c.yield) b []

/-- Between the tokens `pre` and `post` of a block's statements is a statement boundary: just behind
the opening bracket of this block or of one inside it, or just behind a statement there. -/
inductive BodyDeriv.Boundary : BodyDeriv → (pre post : List Token) → Prop
  | here : Boundary body [] body.yield
  | inside {s us lb body rb vs pre post ss} (hs : s.Holds us (.mk lb body rb) vs)
    (h : Boundary body pre post) :
    Boundary (.cons s ss) (us ++ lb.val :: pre) (post ++ rb.val :: (vs ++ ss.yield))
  | later {s ss pre post} (h : Boundary ss pre post) :
    Boundary (.cons s ss) (s.yield ++ pre) post

namespace StmtDeriv.Holds

theorem yield_eq (h : Holds s pre b post) : s.yield = pre ++ (b.yield ++ post) := by
  cases h <;> simp [StmtDeriv.yield]

theorem fits (h : Holds s pre b post) (hs : s.Fits room) : b.Fits room := by
  cases h with
  | ifThen | whileLoop => exact hs.2
  | ifElse => exact hs.2.1
  | otherwise => exact hs.2.2

theorem nextKind_mem (h : Holds s pre b post) (r : List Token) :
    nextKind (pre ++ r) ∈ TokenKind.statementStarts := by
  cases h with
  | @ifThen word | @ifElse word | @otherwise word | @whileLoop word =>
    simp [word.property, TokenKind.statementStarts]

end StmtDeriv.Holds

theorem BodyDeriv.Boundary.yield_eq (h : BodyDeriv.Boundary d pre post) :
    d.yield = pre ++ post := by
  induction h with
  | here => rfl
  | inside hs h ih => simp [BodyDeriv.yield, hs.yield_eq, BlockDeriv.yield, ih]
  | later h ih => simp [BodyDeriv.yield, ih]

section
open Parser

variable {junk : List Token}

theorem Parser.Skips.length_pos (hj : Skips junk) : 0 < junk.length := by
  rw [List.length_pos_iff]
  rintro rfl
  exact hj.next [] (by decide)

/-- With `junk` at the boundary, the block goes on there. -/
theorem BodyDeriv.Boundary.nextKind_ne (h : BodyDeriv.Boundary d pre post) (hj : Skips junk)
    (hk : k ∈ .elseWord :: TokenKind.blockBoundaries) : nextKind (pre ++ (junk ++ r)) ≠ k := by
  cases h with
  | here =>
    rintro rfl
    exact hj.next _ hk
  | inside hs h =>
    rintro rfl
    rw [List.append_assoc] at hk
    have hdisjoint : ∀ k ∈ TokenKind.statementStarts,
        k ∉ .elseWord :: TokenKind.blockBoundaries := by decide
    exact hdisjoint _ (hs.nextKind_mem _) hk
  | @later s _ _ _ h =>
    rw [List.append_assoc]
    refine s.nextKind_ne ?_
    revert k
    decide

/-- A block is read in spite of an error among its statements. -/
theorem BlockDeriv.mends (lb : Terminal .leftBracket) (body : BodyDeriv)
    (rb : Terminal .rightBracket)
    (h : ∀ k, ts.length ≤ k →
      Mends junk 0 (statements (statementWith room (blockWithin room)) k) ts (rb.val :: r)
        (· = body.located)) :
    Mends junk 0 (blockWithin (room + 1)) (lb.val :: (ts ++ [rb.val])) r
      (· = (BlockDeriv.mk lb body rb).located) := by
  refine .visit_bind <| .consume_bind lb (by decide) <| .look_bind fun s hs _ => ?_
  refine (h s.rest.length (by simp [hs])).bind ?_
  rintro _ rfl
  refine .check_bind ?_
  simp only [List.cons_append, nextKind_cons, rb.property, decide_true, if_true]
  exact .advance_bind (by simp [rb.property]) (.pure rfl)

/-- A statement is read in spite of an error in one of its blocks. -/
theorem StmtDeriv.Holds.mends (h : Holds s pre d post) (hm : s.Fits room)
    (hr : nextKind r ≠ .elseWord) (hlast : ts.getLast? = some d.last)
    (hnext : ∀ r, nextKind (ts ++ r) = .leftBracket)
    (hd : ∀ r, Mends junk 0 (blockWithin room) ts r (· = d.located)) :
    Mends junk 0 (properStatement room (blockWithin room)) (pre ++ (ts ++ post)) r
      (· = s.located) := by
  cases h with
  | @ifThen word c =>
    refine .cursor_bind word fun s hs => ?_
    simp only [hs]
    refine .visit_bind <| .consume_bind word (by decide) <|
      .expression_bind c hm.1 (by simpa using hnext r) <|
      (hd _).bind_after hlast ?_
    rintro _ rfl
    rw [StmtDeriv.located, d.finish_located]
    exact .accept_bind_of_ne hr .spanFrom
  | @ifElse word c _ other b =>
    obtain ⟨hc, hb, hb'⟩ := hm
    refine .cursor_bind word fun s hs => ?_
    simp only [hs]
    refine .visit_bind <| .consume_bind word (by decide) <|
      .expression_bind c hc (by simpa using hnext _) <| (hd _).bind ?_
    rintro _ rfl
    rw [StmtDeriv.located, b.finish_located]
    exact .accept_bind other (by decide) <|
      (b.accepts hb').bind_spanFrom b.getLast?_yield
  | @otherwise word c b other =>
    obtain ⟨hc, hb, hb'⟩ := hm
    rw [List.append_nil, List.cons_append, List.append_assoc, List.append_assoc]
    refine .cursor_bind word fun s hs => ?_
    simp only [hs]
    refine .visit_bind <| .consume_bind word (by decide) <|
      .expression_bind c hc (by simpa using b.nextKind_yield _) <|
      (b.accepts hb).bind_mends ?_
    rintro _ rfl
    refine (Accepts.accept other (by decide)).bind_mends ?_
    rintro _ rfl
    rw [StmtDeriv.located, d.finish_located]
    exact (hd _).bind_spanFrom hlast
  | @whileLoop word c =>
    rw [List.append_nil]
    refine .cursor_bind word fun s hs => ?_
    simp only [hs]
    rw [StmtDeriv.located, d.finish_located]
    exact .visit_bind <| .consume_bind word (by decide) <|
      .expression_bind c hm.1 (by simpa using hnext r) <|
      (hd _).bind_spanFrom hlast

/-- With `junk` at a statement boundary, the statements of a block are read as they are without it,
and one error is put on record. -/
theorem BodyDeriv.Boundary.mends (h : BodyDeriv.Boundary d pre post) (hj : Skips junk)
    (hm : d.Fits room) (hk : (pre ++ (junk ++ post)).length ≤ k)
    (hr : nextKind r = .rightBracket) :
    Mends junk 0 (statements (statementWith room (blockWithin room)) k) (pre ++ (junk ++ post)) r
      (· = d.located) := by
  have hpos := hj.length_pos
  obtain ⟨k, rfl⟩ : ∃ m, k = m + 1 := by
    refine Nat.exists_eq_succ_of_ne_zero ?_
    simp only [List.length_append] at hk
    omega
  have hgo : nextKind (pre ++ (junk ++ post) ++ r) ∉ TokenKind.blockBoundaries := by
    rw [List.append_assoc, List.append_assoc]
    exact fun hmem => h.nextKind_ne hj (List.mem_cons_of_mem _ hmem) rfl
  refine .statements hgo ?_
  -- by recursion on the boundary; the statements beside it have none inside and are read as ever
  cases h with
  | here =>
    rw [List.nil_append, List.length_append] at hk
    refine (hj.mends room _).bind ?_
    rintro _ rfl
    exact (d.accepts hm (by omega) hr).bind_pure fun _ h => h
  | @inside s us lb body rb vs pre post ss hs h =>
    obtain ⟨hms, hmss⟩ := hm
    have htokens : us ++ lb.val :: pre ++ (junk ++ (post ++ rb.val :: (vs ++ ss.yield))) =
        us ++ (lb.val :: (pre ++ (junk ++ post) ++ [rb.val]) ++ vs) ++ ss.yield := by simp
    rw [htokens] at hk ⊢
    simp only [List.length_append, List.length_cons, List.length_nil] at hk
    have hfits := hs.fits hms
    cases room with
    | zero => exact hfits.elim
    | succ room =>
    have hblock (r) : Mends junk 0 (blockWithin (room + 1)) _ r _ :=
      BlockDeriv.mends lb body rb fun k hk => h.mends hj hfits hk rb.property
    have hlast : (lb.val :: (pre ++ (junk ++ post) ++ [rb.val])).getLast? = some rb.val := by
      rw [← List.cons_append, List.getLast?_concat]
    have hstmt := hs.mends (r := ss.yield ++ r) hms (ss.nextKind_ne_else hr) hlast
      (fun _ => lb.property) hblock
    refine hstmt.statementWith.bind ?_
    rintro _ ⟨_, rfl, rfl⟩
    exact (ss.accepts hmss (by omega) hr).bind_pure fun as has => by rw [has]; rfl
  | @later s ss pre post h =>
    obtain ⟨hms, hmss⟩ := hm
    have hs := s.length_yield_pos
    rw [List.append_assoc] at hk ⊢
    rw [List.length_append] at hk
    have hnext : nextKind (pre ++ (junk ++ post) ++ r) ≠ .elseWord := by
      rw [List.append_assoc, List.append_assoc]
      exact h.nextKind_ne hj (List.mem_cons_self ..)
    refine (accepts_statementWith (s.accepts hms hnext)).bind_mends ?_
    rintro _ ⟨_, rfl, rfl⟩
    exact (h.mends hj hmss (by omega) hr).bind_pure fun as has => by rw [has]; rfl

end

/-! ## Programs -/

/-- The tokens of a function in front of its body. -/
def FunctionDeriv.header (f : FunctionDeriv) : List Token :=
  f.word.val :: f.name.val :: f.lp.val ::
    (f.params.yield ++ [f.rp.val, f.arrow.val, f.result.val])

/-- Between the tokens `pre` and `post` of a program is a statement boundary of one of its
functions. -/
inductive ProgramDeriv.Boundary : ProgramDeriv → (pre post : List Token) → Prop
  | inside {f lb body rb pre post fs} (hf : f.body = .mk lb body rb)
    (h : body.Boundary pre post) : Boundary ⟨f :: fs⟩ (f.header ++ lb.val :: pre)
      (post ++ rb.val :: fs.flatMap FunctionDeriv.yield)
  | later {f fs pre post} (h : Boundary ⟨fs⟩ pre post) :
    Boundary ⟨f :: fs⟩ (f.yield ++ pre) post

namespace Parser

open ParserState

variable {junk : List Token}

/-- A function is read in spite of an error in its body. -/
theorem mends_function (d : FunctionDeriv) (hlast : ts.getLast? = some d.body.last)
    (hb : Mends junk 0 (blockWithin (room + 1)) ts r (· = d.body.located)) :
    Mends junk 0 (function room) (d.header ++ ts) r (· = d.located) := by
  have htokens : d.header ++ ts = d.word.val :: d.name.val :: d.lp.val ::
      (d.params.yield ++ d.rp.val :: d.arrow.val :: d.result.val :: ts) := by
    simp [FunctionDeriv.header]
  rw [htokens]
  refine .visit_bind <| .consume_bind d.word (by decide) <| .consume_bind d.name (by decide) <|
    .consume_bind d.lp (by decide) <| (accepts_params d.params ?_).bind_mends ?_
  · exact d.rp.property
  rintro _ rfl
  refine .consume_bind d.rp (by decide) <| .consume_bind d.arrow (by decide) <|
    (accepts_typeName d.result).bind_mends ?_
  rintro _ rfl
  rw [FunctionDeriv.located, d.body.finish_located]
  exact hb.bind_spanFrom hlast

/-- With `junk` at a statement boundary, the functions of a program are read as they are without it,
and one error is put on record. -/
theorem functions_of_boundary (h : ProgramDeriv.Boundary p pre post) (hj : Skips junk)
    (hm : p.Fits room) (hs : s.rest = pre ++ (junk ++ post) ++ r) (hd : s.depth = 0)
    (hr : nextKind r = .eof) (hn : s.rest.length ≤ n) :
    Reports junk s (pre ++ (junk ++ post)) (functions room n s).2 ∧
      (functions room n s).1 = p.functions.map FunctionDeriv.located := by
  induction h generalizing s n with
  | @inside f lb body rb pre post fs hf h =>
    obtain ⟨hmf, hmfs⟩ := List.forall_mem_cons.mp hm
    have htokens : f.header ++ lb.val :: pre ++
          (junk ++ (post ++ rb.val :: fs.flatMap FunctionDeriv.yield)) =
        f.header ++ (lb.val :: (pre ++ (junk ++ post) ++ [rb.val])) ++
          fs.flatMap FunctionDeriv.yield := by simp
    rw [htokens, List.append_assoc] at hs
    have hlast : (lb.val :: (pre ++ (junk ++ post) ++ [rb.val])).getLast? = some f.body.last := by
      rw [hf, ← List.cons_append, List.getLast?_concat, BlockDeriv.last]
    have hfits : body.Fits room := by
      rwa [FunctionDeriv.Fits, hf] at hmf
    have hblock : Mends junk 0 (blockWithin (room + 1)) _ (fs.flatMap FunctionDeriv.yield ++ r)
        (· = f.body.located) :=
      hf ▸ BlockDeriv.mends lb body rb fun _ hk => h.mends hj hfits hk rb.property
    obtain ⟨_, s₁, hok, hreports, rfl⟩ := mends_function f hlast hblock s hs hd
    have hnext : nextKind s.rest = .funcWord := hs ▸ f.word.property
    obtain ⟨m, hlen, hfunctions⟩ := functions_of_ok hnext hok hn
    obtain ⟨hfs, htrees⟩ := functions_of_derived fs hmfs (hreports.rest_eq hs)
      (hreports.depth.trans hd) hr hlen
    rw [htokens, hfunctions]
    exact ⟨hreports.trans_takes hfs, by simp [htrees]⟩
  | @later f fs pre post h ih =>
    obtain ⟨hmf, hmfs⟩ := List.forall_mem_cons.mp hm
    rw [List.append_assoc f.yield, List.append_assoc f.yield] at hs
    obtain ⟨_, s₁, hok, htakes, rfl⟩ := accepts_function f hmf s hs hd
    have hnext : nextKind s.rest = .funcWord := hs ▸ f.word.property
    obtain ⟨m, hlen, hfunctions⟩ := functions_of_ok hnext hok hn
    obtain ⟨hreports, htrees⟩ := ih hmfs (htakes.rest_eq hs) (htakes.depth.trans hd) hlen
    rw [List.append_assoc, hfunctions]
    exact ⟨htakes.trans_reports hreports, by simp [htrees]⟩

end Parser

namespace Parsed

open Parser

/-- Going on after an error is local to one statement. At a statement boundary of tokens that are
read without an error, put in stray tokens and a semicolon that together are no statement. Then the
same functions are read, spans included, and one error is put on record, which blames one of the
tokens put in. -/
theorem stray_statement_costs_one_error {d : ProgramDeriv} {pre rest stray : List Token}
    {semi : Token} (h : (ofTokens stack (pre ++ rest)).state.errors = [])
    (hd : d.yield = upToEof (pre ++ rest)) (hplace : d.Boundary pre (upToEof rest))
    (hstray : StrayTokens stray) (hsemi : semi.kind = .semicolon)
    (hnot : ¬∃ d : StmtDeriv, d.yield = stray ++ [semi] ∧ d.levels ≤ maxExpressionDepth) :
    (ofTokens stack (pre ++ stray ++ semi :: rest)).program.functions =
      (ofTokens stack (pre ++ rest)).program.functions ∧
    ∃ e, (ofTokens stack (pre ++ stray ++ semi :: rest)).state.errors = [e] ∧
      e.found ∈ stray ++ [semi] := by
  obtain ⟨d', hd', hm⟩ := exists_derived h
  obtain rfl := ProgramDeriv.eq_of_yield_eq (hd'.trans hd.symm)
  obtain ⟨r, hrest, hr⟩ := exists_eq_upToEof_append rest
  have htokens : pre ++ stray ++ semi :: rest = pre ++ (stray ++ [semi] ++ upToEof rest) ++ r :=
    (congrArg (pre ++ stray ++ semi :: ·) hrest).trans (by simp)
  obtain ⟨hreports, hfunctions⟩ := functions_of_boundary
    (s := .ofTokens (pre ++ stray ++ semi :: rest)) hplace (hstray.skips hsemi hnot) hm htokens rfl
    hr (Nat.le_refl _)
  obtain ⟨e, hfound, herrors⟩ := hreports.errors
  exact ⟨hfunctions.trans (located_of_derived d' hd hm).2.symm, e, herrors, hfound⟩

/-- Tokens on one line, with columns to tell them apart. -/
def tokenAt (k : TokenKind) (column : Int) : Token := ⟨k, k.spelling, none, ⟨"loop", 1, column, 0⟩⟩

/-- A function that loops forever. -/
def loopFunction : FunctionDeriv where
  word := ⟨tokenAt .funcWord 1, rfl⟩
  name := ⟨tokenAt .identifier 2, rfl⟩
  lp := ⟨tokenAt .leftParen 3, rfl⟩
  params := .none
  rp := ⟨tokenAt .rightParen 4, rfl⟩
  arrow := ⟨tokenAt .arrow 5, rfl⟩
  result := ⟨tokenAt .i32Word 6, by decide⟩
  body := .mk ⟨tokenAt .leftBracket 7, rfl⟩
    (.cons (.whileLoop ⟨tokenAt .whileWord 8, rfl⟩
      (.ofTruth ⟨tokenAt .trueWord 9, .inl rfl⟩)
      (.mk ⟨tokenAt .leftBracket 10, rfl⟩ .nil ⟨tokenAt .rightBracket 11, rfl⟩)) .nil)
    ⟨tokenAt .rightBracket 12, rfl⟩

/-- Its tokens up to the loop's block. -/
def loopStart : List Token :=
  [tokenAt .funcWord 1, tokenAt .identifier 2, tokenAt .leftParen 3, tokenAt .rightParen 4,
    tokenAt .arrow 5, tokenAt .i32Word 6, tokenAt .leftBracket 7, tokenAt .whileWord 8,
    tokenAt .trueWord 9, tokenAt .leftBracket 10]

def loopEnd : List Token := [tokenAt .rightBracket 11, tokenAt .rightBracket 12]

theorem stray_let_in_loop_costs_one_error :
    (ofTokens 100 (loopStart ++ loopEnd)).state.errors = [] ∧
    ProgramDeriv.Boundary ⟨[loopFunction]⟩ loopStart loopEnd ∧
    StrayTokens [tokenAt .letWord 20, tokenAt .leftBracket 21] ∧
    (ofTokens 100 (loopStart ++ [tokenAt .letWord 20, tokenAt .leftBracket 21] ++
        tokenAt .semicolon 22 :: loopEnd)).program.functions =
      (ofTokens 100 (loopStart ++ loopEnd)).program.functions ∧
    ∃ e, (ofTokens 100 (loopStart ++ [tokenAt .letWord 20, tokenAt .leftBracket 21] ++
        tokenAt .semicolon 22 :: loopEnd)).state.errors = [e] ∧
      e.found ∈ [tokenAt .letWord 20, tokenAt .leftBracket 21] ++ [tokenAt .semicolon 22] := by
  have herrors : (ofTokens 100 (loopStart ++ loopEnd)).state.errors = [] := by decide +kernel
  have hplace : ProgramDeriv.Boundary ⟨[loopFunction]⟩ loopStart loopEnd :=
    @ProgramDeriv.Boundary.inside loopFunction _ _ _ _ _ [] rfl (.inside .whileLoop .here)
  have hstray : StrayTokens [tokenAt .letWord 20, tokenAt .leftBracket 21] := by
    refine ⟨by decide, ?_, by decide⟩
    rintro _ ⟨⟩
    decide
  have hnot : ¬∃ d : StmtDeriv, d.yield =
      [tokenAt .letWord 20, tokenAt .leftBracket 21] ++ [tokenAt .semicolon 22] ∧
      d.levels ≤ maxExpressionDepth := by
    rintro ⟨d, hd, -⟩
    cases d with
    | letVar word x =>
      have hx := x.property
      rw [(List.cons.inj (List.cons.inj hd).2).1] at hx
      cases hx
    | assign t | ifThen t | ifElse t | whileLoop t | retNone t | ret t | print t =>
      have ht := t.property
      rw [(List.cons.inj hd).1] at ht
      cases ht
    | expr e semi =>
      have hstart := e.nextKind_yield [semi.val]
      rw [StmtDeriv.yield] at hd
      rw [hd] at hstart
      exact absurd hstart (by decide)
  exact ⟨herrors, hplace, hstray,
    stray_statement_costs_one_error herrors rfl hplace hstray rfl hnot⟩

end Parsed

end BracketLang
