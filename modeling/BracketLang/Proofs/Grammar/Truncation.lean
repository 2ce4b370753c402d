import BracketLang.Proofs.Grammar.Cuts

/-! Programs that break off. Where the input ends inside a block, what was begun is closed from the
inside out: at most one error is put on record for a statement that broke off, which is dropped, and
then one for each open block, which keeps its statements. `ParserState.RunsOut` says this of two
states and `Parser.RunsOut` of a parser; it is carried from the place of the cut
(`BodyDeriv.Cut.runsOut`) up to the function that it is in. -/

namespace BracketLang

namespace ParserState

/-- `s'` stands at the end of the input of `s`. The new errors are one if `broken`, which is not
that a block does not end, and then `n` that say so. -/
structure RunsOut (s : ParserState) (broken : Bool) (n : Nat) (s' : ParserState) : Prop
    extends s.Passes s.rest s' where
  errors : ∃ first unclosed, s'.errors = s.errors ++ (first ++ unclosed) ∧
    first.length = broken.toNat ∧ unclosed.length = n ∧
    (∀ e ∈ first, ¬e.IsUnclosed) ∧ ∀ e ∈ unclosed, e.IsUnclosed

variable {s s' s'' : ParserState} {ts : List Token}

theorem Passes.append_rest (h : s.Passes ts s') (h' : s'.Passes s'.rest s'') :
    s.Passes s.rest s'' := by
  have hpasses := h.trans h'
  rwa [← h.rest] at hpasses

namespace RunsOut

theorem rest_eq_nil (h : s.RunsOut broken n s') : s'.rest = [] :=
  h.toPasses.rest_eq (List.append_nil _).symm

theorem of_takes (h : s.Takes s.rest s') : s.RunsOut false 0 s' :=
  ⟨h.toPasses, [], [], by simp [h.errors], rfl, rfl, List.forall_mem_nil _, List.forall_mem_nil _⟩

/-- What a parser that failed leaves is skipped. -/
theorem of_skip {g : Cursor → Cursor} (h : s.Takes ts s') (he : ¬e.IsUnclosed)
    (hskip : g s'.toCursor = ⟨s'.rest.reverse ++ s'.before, []⟩) :
    s.RunsOut true 0 ((s'.record e).move g) := by
  have hpasses : s'.Passes s'.rest ((s'.record e).move g) := by
    refine ⟨?_, ?_, rfl⟩ <;> simp [ParserState.move, ParserState.record, hskip]
  refine ⟨h.append_rest hpasses, [e], [], ?_, rfl, rfl, by simpa using he, List.forall_mem_nil _⟩
  exact congrArg (· ++ [e]) h.errors

theorem trans_takes (h : s.RunsOut broken n s') (h' : s'.Takes [] s'') :
    s.RunsOut broken n s'' := by
  have hpasses := h.toPasses.trans h'.toPasses
  rw [List.append_nil] at hpasses
  exact ⟨hpasses, h'.errors ▸ h.errors⟩

/-- One more open block. -/
theorem record (h : s.RunsOut broken n s') (he : e.IsUnclosed) :
    s.RunsOut broken (n + 1) (s'.record e) := by
  obtain ⟨first, unclosed, herrors, hfirst, hn, hfirst', hunclosed⟩ := h.errors
  refine ⟨⟨h.rest, h.before, h.depth⟩, first, unclosed ++ [e], ?_, hfirst, by simp [hn],
    hfirst', ?_⟩
  · rw [ParserState.record, herrors]
    simp
  · simpa [or_imp, forall_and] using ⟨hunclosed, he⟩

end RunsOut

theorem Takes.trans_runsOut (h : s.Takes ts s') (h' : s'.RunsOut broken n s'') :
    s.RunsOut broken n s'' :=
  ⟨h.toPasses.append_rest h'.toPasses, h.errors ▸ h'.errors⟩

end ParserState

namespace Parser

open ParserState

section
variable {α β : Type} {x : Parser α} {f : α → Parser β} {P : α → Prop} {P' : β → Prop}

/-- At every state with no level open, in front of `ts` and then the end of input, the parser takes
all tokens, puts the errors of `n` open blocks on record, behind another one if `broken`, and gives
a result with `P`. -/
def RunsOut (x : Parser α) (ts : List Token) (broken : Bool) (n : Nat) (P : α → Prop) : Prop :=
  ∀ s : ParserState, s.rest = ts → s.depth = 0 →
    ∃ a s', x s = .ok a s' ∧ s.RunsOut broken n s' ∧ P a

theorem Accepts.runsOut (h : Accepts 0 x ts [] P) : RunsOut x ts false 0 P := by
  intro s hs hd
  obtain ⟨a, s', hok, htakes, ha⟩ := h s (by rw [hs, List.append_nil]) hd
  exact ⟨a, s', hok, .of_takes (hs ▸ htakes), ha⟩

theorem Accepts.bind_runsOut (hx : Accepts 0 x ts us P)
    (hf : ∀ a, P a → RunsOut (f a) us broken n P') :
    RunsOut (x >>= f) (ts ++ us) broken n P' := by
  intro s hs hd
  obtain ⟨a, s', hok, htakes, ha⟩ := hx s hs hd
  obtain ⟨b, s'', hok', hruns, hb⟩ := hf a ha s' (htakes.rest_eq hs) (htakes.depth.trans hd)
  exact ⟨b, s'', bind_eq_ok.mpr ⟨a, s', hok, hok'⟩, htakes.trans_runsOut hruns, hb⟩

namespace RunsOut

theorem bind (hx : RunsOut x ts broken n P) (hf : ∀ a, P a → Accepts 0 (f a) [] [] P') :
    RunsOut (x >>= f) ts broken n P' := by
  intro s hs hd
  obtain ⟨a, s', hok, hruns, ha⟩ := hx s hs hd
  obtain ⟨b, s'', hok', htakes, hb⟩ := hf a ha s' hruns.rest_eq_nil (hruns.depth.trans hd)
  exact ⟨b, s'', bind_eq_ok.mpr ⟨a, s', hok, hok'⟩, hruns.trans_takes htakes, hb⟩

theorem look_bind {g : ParserState → α}
    (hf : ∀ s : ParserState, s.rest = ts → RunsOut (f (g s)) ts broken n P') :
    RunsOut ((fun s => .ok (g s) s : Parser α) >>= f) ts broken n P' :=
  fun s hs hd => hf s hs s hs hd

theorem cursor_bind {f : Cursor → Parser β} (t : Terminal k)
    (hf : ∀ c : Cursor, c.peek.kind = k → RunsOut (f c) (t.val :: ts) broken n P') :
    RunsOut (cursor >>= f) (t.val :: ts) broken n P' :=
  look_bind fun s hs => hf s.toCursor (by rw [Cursor.kind_peek, hs]; exact t.property)

theorem visit_bind {f : Unit → Parser β} (hf : RunsOut (f ()) ts broken n P') :
    RunsOut (visit production >>= f) ts broken n P' :=
  (Accepts.visit production).bind_runsOut fun _ _ => hf

theorem consume_bind {f : Token → Parser β} (t : Terminal k) (hk : k ≠ .eof)
    (hf : RunsOut (f t.val) ts broken n P') :
    RunsOut (consume k >>= f) (t.val :: ts) broken n P' :=
  (Accepts.consume t hk).bind_runsOut fun _ ha => ha ▸ hf

theorem expression_bind {f : Expr → Parser β} (e : ExprDeriv .or)
    (hm : e.levels ≤ min room maxExpressionDepth) (hts : nextKind ts = .leftBracket)
    (hf : RunsOut (f e.located) ts broken n P') :
    RunsOut (expression room >>= f) (e.yield ++ ts) broken n P' :=
  (accepts_expression e hm (.inr hts)).bind_runsOut fun _ ha => ha ▸ hf

/-- A block that is open when the input ends. -/
theorem record_bind (hx : RunsOut x ts broken n P)
    (hf : ∀ a (s : ParserState), s.rest = [] → ∃ b e, f a s = .ok b (s.record e) ∧ e.IsUnclosed) :
    RunsOut (x >>= f) ts broken (n + 1) fun _ => True := by
  intro s hs hd
  obtain ⟨a, s', hok, hruns, -⟩ := hx s hs hd
  obtain ⟨b, e, hok', he⟩ := hf a s' hruns.rest_eq_nil
  exact ⟨b, s'.record e, bind_eq_ok.mpr ⟨a, s', hok, hok'⟩, hruns.record he, trivial⟩

end RunsOut

theorem accepts_spanFrom {g : Span → β} (start : Location) :
    Accepts 0 (do return g (← spanFrom start)) [] [] fun _ => True :=
  .look_bind fun _ _ _ => .pure trivial

end

/-! ## Statements -/

theorem RunsOut.statementWith {block : Parser Block} {P : Stmt → Prop}
    (h : RunsOut (properStatement room block) ts broken n P) :
    RunsOut (statementWith room block) ts broken n fun _ => True := by
  intro s hs hd
  obtain ⟨a, s', hok, hruns, -⟩ := h s hs hd
  exact ⟨some a, s', by simp [Parser.statementWith, hok], hruns, trivial⟩

/-- A statement that fails is dropped, with what is left of the input. -/
theorem GivesUp.statementWith {block : Parser Block}
    (h : GivesUp (properStatement room block) ts) :
    RunsOut (statementWith room block) ts true 0 fun _ => True := by
  intro s hs hd
  obtain ⟨e, s', us, herror, htakes, hskip, he⟩ := h s hs hd
  have hsync : s'.synchronize = ⟨s'.rest.reverse ++ s'.before, []⟩ := by
    have hall := Cursor.skipStatement_append s'.before [] hskip
    rw [List.append_nil] at hall
    exact hall
  have hresume : s'.toCursor.resume s.position = ⟨s'.rest.reverse ++ s'.before, []⟩ := by
    rw [Cursor.resume, hsync]
    exact if_neg fun hc => Bool.false_ne_true hc.2
  exact ⟨none, _, by simp only [Parser.statementWith, herror], .of_skip htakes he hresume, trivial⟩

theorem accepts_statements_nil (st : Parser (Option Stmt)) (k : Nat) :
    Accepts 0 (statements st k) [] [] fun _ => True :=
  fun s hs _ =>
    ⟨[], s, statements_stop (atBlockBoundary_of_length (by simp [hs])) st k, .refl s, trivial⟩

theorem RunsOut.statements {st : Parser (Option Stmt)} {P : List Stmt → Prop}
    (hgo : nextKind ts ∉ TokenKind.blockBoundaries)
    (h : RunsOut (do
      let a ← st
      let as ← statements st k
      return a.toList ++ as) ts broken n P) :
    RunsOut (statements st (k + 1)) ts broken n P := by
  refine look_bind fun s hs => ?_
  rw [← hs, ← Cursor.atBlockBoundary_iff] at hgo
  rw [if_neg hgo]
  exact h

/-- Behind a statement at which the input ends there is none. -/
theorem RunsOut.statements_of_last {st : Parser (Option Stmt)} {P : Option Stmt → Prop}
    (hgo : nextKind ts ∉ TokenKind.blockBoundaries) (h : RunsOut st ts broken n P) :
    RunsOut (Parser.statements st (k + 1)) ts broken n fun _ => True :=
  .statements hgo <| h.bind fun _ _ => (accepts_statements_nil st k).bind_pure fun _ _ => trivial

/-- A block that breaks off among its statements. -/
theorem runsOut_blockWithin (lb : Terminal .leftBracket)
    (h : ∀ k, ts.length ≤ k →
      RunsOut (statements (statementWith room (blockWithin room)) k) ts broken m fun _ => True) :
    RunsOut (blockWithin (room + 1)) (lb.val :: ts) broken (m + 1) fun _ => True := by
  refine .visit_bind <| .consume_bind lb (by decide) <| .look_bind fun s hs => ?_
  refine (h s.rest.length (by simp [hs])).record_bind fun body s hs => ?_
  have hcheck : s.check .rightBracket = false := by
    rw [Cursor.check_eq, hs]
    rfl
  refine ⟨⟨body, lb.val.location, s.previous.location⟩,
    ⟨.unterminatedBlock lb.val.location, s.peek⟩, ?_, rfl⟩
  simp only [bind, EStateM.bind, check_run, hcheck]
  rfl

end Parser

open Parser

/-- A statement that breaks off inside one of its blocks. -/
theorem StmtDeriv.Holds.runsOut (h : Holds s pre b post) (hm : s.Fits room)
    (hnext : nextKind ts = .leftBracket)
    (hb : RunsOut (blockWithin room) ts broken m fun _ => True) :
    RunsOut (properStatement room (blockWithin room)) (pre ++ ts) broken m fun _ => True := by
  have hif (start : Location) (c : Expr) (body : Block) : Accepts 0 (do
      if ← accept .elseWord then
        let otherwise ← blockWithin room
        return Stmt.ifElse c body.body body.span otherwise.body otherwise.span (← spanFrom start)
      else
        return Stmt.ifThen c body.body body.span (← spanFrom start)) [] [] fun _ => True :=
    .accept_bind_of_ne (by decide) (accepts_spanFrom start)
  cases h with
  | @ifThen word c =>
    refine .cursor_bind word fun s hs => ?_
    simp only [hs]
    exact .visit_bind <| .consume_bind word (by decide) <|
      .expression_bind c hm.1 hnext <| hb.bind fun _ _ => hif _ _ _
  | @ifElse word c =>
    refine .cursor_bind word fun s hs => ?_
    simp only [hs]
    exact .visit_bind <| .consume_bind word (by decide) <|
      .expression_bind c hm.1 hnext <| hb.bind fun _ _ => hif _ _ _
  | @otherwise word c b₁ other =>
    obtain ⟨hc, hb₁, -⟩ := hm
    rw [List.cons_append, List.append_assoc, List.append_assoc]
    refine .cursor_bind word fun s hs => ?_
    simp only [hs]
    refine .visit_bind <| .consume_bind word (by decide) <|
      .expression_bind c hc (by simpa using b₁.nextKind_yield _) <|
      (b₁.accepts hb₁).bind_runsOut ?_
    rintro _ rfl
    refine (Accepts.accept other (by decide)).bind_runsOut ?_
    rintro _ rfl
    exact hb.bind fun _ _ => accepts_spanFrom _
  | @whileLoop word c =>
    refine .cursor_bind word fun s hs => ?_
    simp only [hs]
    exact .visit_bind <| .consume_bind word (by decide) <|
      .expression_bind c hm.1 hnext <| hb.bind fun _ _ => accepts_spanFrom _

theorem givesUp_behindElse (word : Terminal .ifWord) (c : ExprDeriv .or) (b : BlockDeriv)
    (other : Terminal .elseWord) (hc : c.levels ≤ min room maxExpressionDepth)
    (hb : b.Fits room) :
    GivesUp (properStatement room (blockWithin room))
      (word.val :: (c.yield ++ (b.yield ++ [other.val]))) := by
  have hblock : GivesUp (blockWithin room) [] := by
    intro s hs _
    refine ⟨_, _, [], blockWithin_of_ne (by rw [hs]; decide) room, .visit s .block, ?_,
      SyntaxError.not_isUnclosed_unexpected⟩
    rw [show (s.visit .block).rest = [] from hs]
    exact List.forall_mem_nil _
  refine .cursor_bind word fun s hs => ?_
  simp only [hs]
  refine (Accepts.visit _).bind_givesUp fun _ _ =>
    (Accepts.consume word (by decide)).bind_givesUp fun _ _ =>
    (accepts_expression c hc (.inr (b.nextKind_yield _))).bind_givesUp fun _ _ =>
    (b.accepts hb).bind_givesUp fun _ _ =>
    (Accepts.accept other (by decide)).bind_givesUp ?_
  rintro _ rfl
  exact hblock.bind

namespace BodyDeriv.Cut

theorem nextKind_mem (h : Cut d ts broken n) (hne : ts ≠ []) :
    nextKind ts ∈ TokenKind.statementStarts ++ TokenKind.expressionStarts := by
  obtain ⟨t, us, rfl⟩ := List.exists_cons_of_ne_nil hne
  obtain ⟨r, hr⟩ := h.isPrefix
  cases d with
  | nil => cases hr
  | cons s ss =>
    have hmem := s.nextKind_yield ss.yield
    rw [show s.yield ++ ss.yield = t :: us ++ r from hr.symm] at hmem
    exact hmem

theorem nextKind_ne_else (h : Cut d ts broken n) : nextKind ts ≠ .elseWord := by
  by_cases hne : ts = []
  · rw [hne]
    decide
  · intro hk
    have hmem := h.nextKind_mem hne
    rw [hk] at hmem
    exact absurd hmem (by decide)

/-- The statements of a block that break off at such a place. -/
theorem runsOut (h : Cut d ts broken m) (hm : d.Fits room) (hk : ts.length ≤ k) :
    RunsOut (statements (statementWith room (blockWithin room)) k) ts broken m fun _ => True := by
  by_cases hne : ts = []
  · subst hne
    obtain rfl : broken = false := h.eq_false_iff.mpr endsWhole_nil
    obtain rfl : m = 0 := (Int.natCast_eq_zero.mp h.openBlocks_eq.symm)
    exact (accepts_statements_nil _ k).runsOut
  have hgo : nextKind ts ∉ TokenKind.blockBoundaries := by
    have hdisjoint : ∀ k ∈ TokenKind.statementStarts ++ TokenKind.expressionStarts,
        k ∉ TokenKind.blockBoundaries := by decide
    exact hdisjoint _ (h.nextKind_mem hne)
  have hpos := List.length_pos_iff.mpr hne
  obtain ⟨k, rfl⟩ : ∃ j, k = j + 1 := Nat.exists_eq_succ_of_ne_zero (by omega)
  -- by recursion on the place; the statements in front of it are read as ever
  cases h with
  | here => exact absurd rfl hne
  | fragment h => exact .statements_of_last hgo (h.givesUp room).statementWith
  | @beforeElse word c b other b' ss =>
    obtain ⟨⟨hc, hb, -⟩, -⟩ := hm
    have hs : Accepts 0 (properStatement room (blockWithin room))
        (word.val :: (c.yield ++ b.yield)) [] _ :=
      (StmtDeriv.ifThen word c b).accepts ⟨hc, hb⟩ (by decide)
    exact .statements_of_last hgo (accepts_statementWith hs).runsOut
  | @behindElse word c b other b' ss =>
    obtain ⟨⟨hc, hb, -⟩, -⟩ := hm
    exact .statements_of_last hgo (givesUp_behindElse word c b other hc hb).statementWith
  | @inside s pre lb body rb post ts broken m ss hs h =>
    have hfits := hs.fits hm.1
    cases room with
    | zero => exact hfits.elim
    | succ room =>
      have hblock : RunsOut (blockWithin (room + 1)) (lb.val :: ts) broken (m + 1) fun _ => True :=
        runsOut_blockWithin lb fun k hk => h.runsOut hfits hk
      have hnext : nextKind (lb.val :: ts) = .leftBracket := lb.property
      exact .statements_of_last hgo (hs.runsOut hm.1 hnext hblock).statementWith
  | @later s ss ts broken m h =>
    obtain ⟨hms, hmss⟩ := hm
    have hs := s.length_yield_pos
    simp only [List.length_append] at hk
    refine .statements hgo <|
      (accepts_statementWith (s.accepts hms h.nextKind_ne_else)).bind_runsOut fun _ _ => ?_
    exact (h.runsOut hmss (by omega)).bind fun _ _ => .pure trivial

end BodyDeriv.Cut

/-! ## Functions -/

/-- The function has the name, the parameters and the return type of another. -/
structure Function.SameHeader (f g : Function) : Prop where
  name : f.name = g.name
  params : f.params = g.params
  returnType : f.returnType = g.returnType

namespace Parser

open ParserState

variable {s : ParserState}

/-- A function that breaks off in its header is dropped, with what is left of the input. -/
theorem functionOrSkip_of_header (room : Nat) (hs : s.rest = t :: us) (ht : t.kind = .funcWord)
    (hus : ∀ u ∈ us, u.kind.Inner) :
    ∃ s', functionOrSkip room s = (none, s') ∧ s.RunsOut true 0 s' := by
  have hinner {k k' : TokenKind} (h : k.Inner) (hk : ¬k'.Inner) : k ≠ k' := fun heq => hk (heq ▸ h)
  have hbracket : ∀ u ∈ s.rest, u.kind ≠ .leftBracket := by
    rw [hs, List.forall_mem_cons, ht]
    exact ⟨by decide, fun u hu => hinner (hus u hu) (by decide)⟩
  obtain ⟨e, s', herror, ⟨vs, htakes, -⟩, he⟩ := function_fails room hbracket
  have hlt : s'.rest.length < s.rest.length :=
    (leads_function room).error_lt (by rw [Cursor.check_eq, hs]; exact decide_eq_true ht) herror
  have hmoved : s'.position ≠ s.position := by
    rw [htakes.position]
    rw [htakes.rest, List.length_append] at hlt
    omega
  have hskip : s'.toCursor.resumeAtFunction s.position = ⟨s'.rest.reverse ++ s'.before, []⟩ := by
    rw [Cursor.resumeAtFunction, if_neg hmoved]
    refine Cursor.skipFunction_of_forall _ fun u hu => ?_
    have hu := hus u (htakes.mem_of_length_lt hs hlt hu)
    exact ⟨hinner hu (by decide), hinner hu (by decide)⟩
  exact ⟨_, by simp only [functionOrSkip, herror], .of_skip htakes he hskip⟩

theorem runsOut_function (f : FunctionDeriv)
    (hb : RunsOut (blockWithin (room + 1)) ts broken n fun _ => True) :
    RunsOut (function room) (f.header ++ ts) broken n (·.SameHeader f.located) := by
  have htokens : f.header ++ ts = f.word.val :: f.name.val :: f.lp.val ::
      (f.params.yield ++ f.rp.val :: f.arrow.val :: f.result.val :: ts) := by
    simp [FunctionDeriv.header]
  rw [htokens]
  refine .visit_bind <| .consume_bind f.word (by decide) <| .consume_bind f.name (by decide) <|
    .consume_bind f.lp (by decide) <| (accepts_params f.params ?_).bind_runsOut ?_
  · exact f.rp.property
  rintro _ rfl
  refine .consume_bind f.rp (by decide) <| .consume_bind f.arrow (by decide) <|
    (accepts_typeName f.result).bind_runsOut ?_
  rintro _ rfl
  exact hb.bind fun body _ => .look_bind fun _ _ _ => .pure ⟨rfl, rfl, rfl⟩

end Parser

/-- A function that breaks off is read up to there if a block is open, and dropped if not. -/
theorem FunctionDeriv.Cut.functions_run (h : Cut f ts broken m)
    (hm : f.Fits room) (hs : s.rest = ts) (hd : s.depth = 0) (hn : s.rest.length ≤ n) :
    s.RunsOut broken m (functions room n s).2 ∧
    ∃ begun : Option Function, (functions room n s).1 = begun.toList ∧ (begun.isSome ↔ 1 ≤ m) ∧
      ∀ g ∈ begun, g.SameHeader f.located := by
  cases h with
  | start =>
    rw [functions_of_eof (by rw [hs]; rfl)]
    refine ⟨.of_takes ?_, none, rfl, by simp, by simp⟩
    rw [hs]
    exact .refl s
  | header h hne =>
    obtain ⟨us, rfl, hus⟩ := f.exists_of_prefix_header h hne
    obtain ⟨s', hskip, hruns⟩ := functionOrSkip_of_header room hs f.word.property hus
    have hend : s.atEnd = false := by
      rw [atEnd_eq, hs, nextKind_cons, f.word.property]
      rfl
    obtain ⟨n, rfl⟩ : ∃ j, n = j + 1 := by
      refine Nat.exists_eq_succ_of_ne_zero ?_
      rintro rfl
      rw [hs] at hn
      cases hn
    rw [functions_succ, hend, hskip, functions_of_eof (s := s') (by rw [hruns.rest_eq_nil]; rfl)]
    exact ⟨hruns, none, rfl, by simp, by simp⟩
  | @body lb body rb ts broken m hf h =>
    have hfits : body.Fits room := by
      rwa [FunctionDeriv.Fits, hf] at hm
    have hblock : RunsOut (blockWithin (room + 1)) (lb.val :: ts) broken (m + 1) fun _ => True :=
      runsOut_blockWithin lb fun k hk => h.runsOut hfits hk
    obtain ⟨g, s', hok, hruns, hg⟩ := runsOut_function f hblock s hs hd
    have hnext : nextKind s.rest = .funcWord := hs ▸ f.word.property
    obtain ⟨j, -, hfunctions⟩ := functions_of_ok hnext hok hn
    rw [hfunctions, functions_of_eof (s := s') (by rw [hruns.rest_eq_nil]; rfl)]
    refine ⟨hruns, some g, rfl, by simp, ?_⟩
    rintro _ ⟨⟩
    exact hg

/-! ## Programs -/

/-- A program that breaks off is read up to there. -/
theorem ProgramDeriv.Cut.functions_run {s : ParserState} {ended later : List FunctionDeriv}
    (h : Cut ended later s.rest broken m)
    (hm : ∀ f ∈ ended ++ later, f.Fits room) (hd : s.depth = 0) (hn : s.rest.length ≤ n) :
    s.RunsOut broken m (Parser.functions room n s).2 ∧
    ∃ begun : Option Function,
      (Parser.functions room n s).1 = ended.map FunctionDeriv.located ++ begun.toList ∧
      (begun.isSome ↔ 1 ≤ m) ∧ ∀ g ∈ begun, ∃ f ∈ later.head?, g.SameHeader f.located := by
  obtain ⟨hended, hlater⟩ := List.forall_mem_append.mp hm
  generalize hs : s.rest = ts at h
  cases h with
  | finish =>
    have hs : s.rest = ended.flatMap FunctionDeriv.yield ++ [] := by rw [hs, List.append_nil]
    obtain ⟨htakes, hfunctions⟩ := functions_of_derived ended hended hs hd rfl hn
    refine ⟨.of_takes ?_, none, by simp [hfunctions], by simp, by simp⟩
    rwa [hs, List.append_nil]
  | @inside f fs us broken m h =>
    obtain ⟨j, s', hlen, htakes, hfunctions⟩ :=
      functions_of_derived_append ended hended hs hd hn
    obtain ⟨hruns, begun, hbegun, hsome, hheader⟩ := h.functions_run
      (hlater f (List.mem_cons_self ..)) (htakes.rest_eq hs) (htakes.depth.trans hd) hlen
    rw [hfunctions]
    exact ⟨htakes.trans_runsOut hruns, begun, by rw [hbegun], hsome,
      fun g hg => ⟨f, rfl, hheader g hg⟩⟩

namespace Parsed

variable {tokens : List Token}

/-- What is read of the first `k` of the tokens of a program, where the functions `ended` of the
program end within them and the functions `later` do not. -/
structure Truncation (stack : Nat) (tokens : List Token) (k : Nat)
    (ended later : List FunctionDeriv) : Prop where
  yield : (ended ++ later).flatMap FunctionDeriv.yield = tokens
  functions : (ofTokens stack tokens).program.functions = (ended ++ later).map FunctionDeriv.located
  within : (ended.flatMap FunctionDeriv.yield).length ≤ k
  beyond : ∀ f ∈ later.head?, k < ((ended ++ [f]).flatMap FunctionDeriv.yield).length
  errors : ∃ first unclosed, (ofTokens stack (tokens.take k)).state.errors = first ++ unclosed ∧
    first.length ≤ 1 ∧ (∀ e ∈ first, e.kindName ≠ "UNTERMINATED_BLOCK") ∧
    (∀ e ∈ unclosed, e.kindName = "UNTERMINATED_BLOCK") ∧
    unclosed.length = openBlocks (tokens.take k) ∧
    (first = [] ↔ k = 0 ∨ ∃ t, tokens[k - 1]? = some t ∧
      t.kind ∈ [.leftBracket, .rightBracket, .semicolon])
  begun : ∃ begun : Option Function, (ofTokens stack (tokens.take k)).program.functions =
      ended.map FunctionDeriv.located ++ begun.toList ∧
    (begun.isSome ↔ 1 ≤ openBlocks (tokens.take k)) ∧
    ∀ g ∈ begun, ∃ f ∈ later.head?, g.SameHeader f.located

theorem endsWhole_take_iff (hk : k ≤ tokens.length) : EndsWhole (tokens.take k) ↔
    k = 0 ∨ ∃ t, tokens[k - 1]? = some t ∧ t.kind ∈ [.leftBracket, .rightBracket, .semicolon] := by
  cases k with
  | zero => simp [endsWhole_nil]
  | succ k =>
    have hlt : k < tokens.length := hk
    simp [EndsWhole, List.getLast?_take, hlt]

/-- Programs that break off degrade predictably. Take the first `k` of the tokens of a program that
is read without an error. There is at most one error other than that a block does not end, and
behind it one such error for each block that is open; the first is missing exactly if there are no
tokens or the last of them is a bracket of a block or a semicolon. The functions that end within the
tokens are read as before, spans included, and behind them, exactly if a block is open, a function
with the name, the parameters and the return type of the one that broke off. -/
theorem exists_truncation (heof : ∀ t ∈ tokens, t.kind ≠ .eof)
    (h : (ofTokens stack tokens).state.errors = []) (hk : k ≤ tokens.length) :
    ∃ ended later, Truncation stack tokens k ended later := by
  have htokens : upToEof tokens = tokens := by
    have happend := upToEof_append heof (r := []) rfl
    rwa [List.append_nil] at happend
  obtain ⟨d, hyield, hm⟩ := exists_derived h
  have hfunctions := (located_of_derived d hyield hm).2
  rw [htokens, ProgramDeriv.yield] at hyield
  have hbegins : tokens.take k <+: d.functions.flatMap FunctionDeriv.yield := by
    rw [hyield]
    exact List.take_prefix k tokens
  obtain ⟨ended, later, broken, n, hsplit, hcut⟩ := ProgramDeriv.exists_cut d.functions hbegins
  rw [ProgramDeriv.Fits, hsplit] at hm
  rw [hsplit] at hfunctions hyield
  have hlength : (tokens.take k).length = k := by rw [List.length_take, Nat.min_eq_left hk]
  have hopen := hcut.openBlocks_eq
  obtain ⟨hruns, begun, hread, hbegun, hheader⟩ :=
    hcut.functions_run (s := .ofTokens (tokens.take k)) hm rfl (Nat.le_refl _)
  obtain ⟨first, unclosed, herrors, hfirst, hunclosed, hother, hblocks⟩ := hruns.errors
  refine ⟨ended, later, hyield, hfunctions, hlength ▸ hcut.length_le,
    fun f hf => ?_, ⟨first, unclosed, herrors, ?_, hother, hblocks, ?_, ?_⟩,
    ⟨begun, hread, ?_, hheader⟩⟩
  · have hlt := hcut.length_lt hf
    rwa [hlength] at hlt
  · rw [hfirst]
    exact Bool.toNat_le broken
  · rw [hopen, hunclosed]
  · rw [← endsWhole_take_iff hk, ← hcut.eq_false_iff, ← List.length_eq_zero_iff, hfirst,
      Bool.toNat_eq_zero]
  · rw [hbegun, hopen]
    omega

/-- Two functions that loop forever. -/
def twoLoops : List Token := loopStart ++ loopEnd ++ (loopStart ++ loopEnd)

/-- The second one breaks off in front of the block of its loop. -/
theorem truncation_in_second_loop :
    (∀ t ∈ twoLoops, t.kind ≠ .eof) ∧ (ofTokens 100 twoLoops).state.errors = [] ∧
    21 ≤ twoLoops.length ∧ (∃ ended later, Truncation 100 twoLoops 21 ended later) ∧
    (ofTokens 100 (twoLoops.take 21)).state.errors.map SyntaxError.kindName =
      ["UNEXPECTED_TOKEN", "UNTERMINATED_BLOCK"] ∧
    (ofTokens 100 (twoLoops.take 21)).program.functions.length = 2 := by
  have heof : ∀ t ∈ twoLoops, t.kind ≠ .eof := by decide
  have herrors : (ofTokens 100 twoLoops).state.errors = [] := by decide +kernel
  have hk : 21 ≤ twoLoops.length := by decide
  exact ⟨heof, herrors, hk, exists_truncation heof herrors hk, by decide +kernel,
    by decide +kernel⟩

end Parsed

end BracketLang
