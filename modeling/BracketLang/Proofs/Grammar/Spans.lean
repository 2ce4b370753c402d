import BracketLang.Proofs.Grammar.Climbing
import BracketLang.Proofs.Grammar.Concatenation
import BracketLang.Proofs.Tree.Spans

/-! The spans of what is read. Every production, whether or not errors are put on record in it,
gives a tree whose nodes stand in a row among the tokens that it passed (`Parser.Covers`).
Expressions have no errors in them and are the trees of their derivations; a block that is cut short
ends with the token before the cut, and what is skipped leaves a gap. So the program spans the whole
list of tokens, and its spans are in order wherever the offsets of the tokens are. -/

namespace BracketLang

open Node

/-! ## Expressions -/

theorem Expr.span_node (e : Expr) : e.node.span = e.span := by cases e <;> rfl

mutual

theorem ExprDeriv.inRow_located : (d : ExprDeriv p) → InRow d.yield [d.located.node]
  | .tighter _ e => e.inRow_located
  | .binary _ l op r => by
    have hrow := l.inRow_located.join (k := .binary) (d := .text op.val.lexeme)
      (r.inRow_located.behind [op.val])
    rwa [Expr.span_node, Expr.span_node] at hrow
  | .unary op e => by
    have hrow := e.inRow_located.from_token (k := .unary) (d := .text op.val.lexeme) op.val
    rwa [Expr.span_node] at hrow
  | .integer t | .boolean t | .var t => (spans_leaf t.val).inRow
  | .call t lp args rp => ((args.inRow_located.behind [lp.val]).between t.val rp.val).inRow
  | .group lp e rp => (e.inRow_located.behind [lp.val]).before [rp.val]

theorem ArgsDeriv.inRow_located : (d : ArgsDeriv) → InRow d.yield (Expr.nodes d.located)
  | .none => .nil
  | .some e more => e.inRow_located.append more.inRow_located

theorem MoreArgsDeriv.inRow_located : (d : MoreArgsDeriv) → InRow d.yield (Expr.nodes d.located)
  | .nil => .nil
  | .cons comma e more => (e.inRow_located.behind [comma.val]).append more.inRow_located

end

namespace Parser

open ParserState

variable {α β : Type} {x : Parser α} {f : α → Parser β}

/-! ## What parsers cover -/

/-- The tokens that the parser passes, with or without an error on record, and its result are
related by `R`. -/
def Covers (x : Parser α) (R : List Token → α → Prop) : Prop :=
  ∀ ⦃s a s'⦄, x s = .ok a s' → ∃ ts, s.Passes ts s' ∧ R ts a

namespace Covers

variable {R : List Token → α → Prop} {R' : List Token → β → Prop}

theorem of_steady (hx : x.Steady) : Covers x fun _ _ => True := by
  intro s a s' h
  obtain ⟨ts, hts, -⟩ := (hx.ok h).passes
  exact ⟨ts, hts, trivial⟩

theorem pure {a : α} (h : R [] a) : Covers (pure a) R := by
  intro s b s' hb
  obtain ⟨rfl, rfl⟩ := pure_eq_ok.mp hb
  exact ⟨[], .refl _, h⟩

theorem throw (e : SyntaxError) : Covers (throw e) R := by
  intro s a s' h
  cases h

theorem bind (hx : Covers x R)
    (hf : ∀ a, Covers (f a) fun us b => ∀ ts, R ts a → R' (ts ++ us) b) : Covers (x >>= f) R' := by
  intro s b s'' h
  obtain ⟨a, s', h₁, h₂⟩ := bind_eq_ok.mp h
  obtain ⟨ts, hts, hR⟩ := hx h₁
  obtain ⟨us, hus, hR'⟩ := hf a h₂
  exact ⟨ts ++ us, hts.trans hus, hR' ts hR⟩

theorem mono {S : List Token → α → Prop} (hx : Covers x R) (h : ∀ ts a, R ts a → S ts a) :
    Covers x S := by
  intro s a s' hok
  obtain ⟨ts, hts, hR⟩ := hx hok
  exact ⟨ts, hts, h ts a hR⟩

theorem map {g : α → β} (hx : Covers x R) : Covers (g <$> x) fun ts b => ∃ a, b = g a ∧ R ts a := by
  intro s b s' h
  simp only [Functor.map, EStateM.map] at h
  split at h
  · next a s₁ hok =>
    cases h
    obtain ⟨ts, hts, hR⟩ := hx hok
    exact ⟨ts, hts, a, rfl, hR⟩
  · cases h

theorem ite {c : Prop} [Decidable c] {x y : Parser α} (hx : Covers x R) (hy : Covers y R) :
    Covers (if c then x else y) R := by
  split
  · exact hx
  · exact hy

/-- Looking at the state passes nothing. -/
theorem look_bind {g : ParserState → α} (hf : ∀ a, Covers (f a) R') :
    Covers ((fun s => .ok (g s) s : Parser α) >>= f) R' :=
  fun s _ _ h => hf (g s) h

theorem visit_bind {f : Unit → Parser β} (hf : Covers (f ()) R') :
    Covers (visit production >>= f) R' := by
  intro s b s' h
  obtain ⟨ts, hts, hR⟩ := hf (s := s.visit production) h
  exact ⟨ts, (Takes.visit s production).toPasses.trans hts, hR⟩

theorem consume_bind {f : Token → Parser β} (hk : k ≠ .eof)
    (hf : ∀ t, Covers (f t) fun ts b => R' (t :: ts) b) : Covers (consume k >>= f) R' := by
  intro s b s' h
  obtain ⟨t, s₁, h₁, h₂⟩ := bind_eq_ok.mp h
  obtain ⟨ts, hts, hR⟩ := hf t h₂
  exact ⟨t :: ts, (eq_of_consume hk h₁).2.toPasses.trans hts, hR⟩

/-- A span ends with the token that was passed last. -/
theorem bind_spanFrom {l : α → Location} {g : α → Span → β} (hx : Covers x R)
    (h : ∀ ts a, R ts a → ∃ t, ts.getLast? = some t ∧ R' ts (g a ⟨l a, t.location⟩)) :
    Covers (do
      let a ← x
      return g a (← spanFrom (l a))) R' := by
  intro s b s' hb
  obtain ⟨a, s₁, h₁, h₂⟩ := bind_eq_ok.mp hb
  obtain ⟨ts, hts, hR⟩ := hx h₁
  obtain ⟨t, hlast, hR'⟩ := h ts a hR
  cases h₂
  rw [previous_of_takes hts hlast]
  exact ⟨ts, hts, hR'⟩

theorem consume_spanFrom {l : Location} {g : Span → β} (hk : k ≠ .eof)
    (h : ∀ t, R' [t] (g ⟨l, t.location⟩)) :
    Covers (do
      let _ ← consume k
      return g (← spanFrom l)) R' := by
  refine bind_spanFrom (R := fun ts t => ts = [t]) ?_ ?_
  · intro s t s' ht
    exact ⟨[t], (eq_of_consume hk ht).2.toPasses, rfl⟩
  · rintro _ t rfl
    exact ⟨t, rfl, h t⟩

/-- Behind `x` there may be a token of kind `k`, and then `y`. -/
theorem bind_accept {y : α → Parser β} {l : α → Location} {g : α → Span → β} (hk : k ≠ .eof)
    (hx : Covers x R) (hy : ∀ a, Covers (y a) fun us b => ∀ ts t, R ts a → R' (ts ++ t :: us) b)
    (h : ∀ ts a, R ts a → ∃ t, ts.getLast? = some t ∧ R' ts (g a ⟨l a, t.location⟩)) :
    Covers (do
      let a ← x
      if ← accept k then y a else return g a (← spanFrom (l a))) R' := by
  intro s b s' hb
  obtain ⟨a, s₁, h₁, h₂⟩ := bind_eq_ok.mp hb
  obtain ⟨c, s₂, hc, h₃⟩ := bind_eq_ok.mp h₂
  cases c with
  | false =>
    obtain ⟨-, rfl⟩ := accept_eq_false.mp hc
    exact hx.bind_spanFrom h (bind_eq_ok.mpr ⟨a, s₂, h₁, h₃⟩)
  | true =>
    obtain ⟨t, ht⟩ := accept_eq_true.mp hc
    obtain ⟨ts, hts, hR⟩ := hx h₁
    obtain ⟨us, hus, hR'⟩ := hy a h₃
    exact ⟨ts ++ t :: us, hts.trans ((eq_of_consume hk ht).2.toPasses.trans hus), hR' ts t hR⟩

section
variable {g : α → Node} (hx : Covers x fun ts a => InRow ts [g a])
include hx

theorem moreItems (n : Nat) : Covers (moreItems x n) fun ts as => InRow ts (as.map g) := by
  induction n with
  | zero => exact .pure .nil
  | succ n ih =>
    refine (of_steady (steady_accept _)).bind fun c => ?_
    cases c with
    | false => exact .pure fun _ _ => .nil
    | true =>
      refine hx.bind fun a => ih.bind fun as => .pure fun us hus ts hts cs _ => ?_
      simpa using (hts.append hus).behind cs

theorem items : Covers (items x) fun ts as => InRow ts (as.map g) := by
  refine look_bind fun c => .ite (.pure .nil) (hx.bind fun a => look_bind fun n =>
    (hx.moreItems n).bind fun as => .pure fun us hus ts hts => ?_)
  simpa using hts.append hus

end

end Covers

/-! ## Statements -/

theorem covers_expression (room : Nat) :
    Covers (expression room) fun ts e => InRow ts [e.node] := by
  refine .look_bind fun _ => .visit_bind fun s e s' h => ?_
  obtain ⟨d, htakes, rfl⟩ := exists_located_of_climb (by decide) h
  exact ⟨d.yield, htakes.toPasses, d.inRow_located⟩

theorem covers_typeName : Covers typeName fun ts t => Spans ts t.node := by
  intro s t s' h
  obtain ⟨u, r, hrest, hu⟩ : ∃ u r, s.rest = u :: r ∧ u.kind ∈ TokenKind.typeStarts := by
    obtain ⟨_, htakes, u, rfl, -⟩ := reads_typeName.takes h ((spares_typeName s).ok h).errors
    exact ⟨u.val, s'.rest, htakes.rest, u.property⟩
  obtain ⟨s₁, hok, htakes⟩ := typeName_cons hrest hu
  cases hok.symm.trans h
  exact ⟨[u], htakes.toPasses, spans_leaf u⟩

theorem covers_letStatement (room : Nat) :
    Covers (letStatement room) fun ts s => InRow ts [s.node] := by
  refine .visit_bind <| .consume_bind (by decide) fun word => .consume_bind (by decide) fun x =>
    .consume_bind (by decide) fun colon => covers_typeName.bind fun t =>
    .consume_bind (by decide) fun eq => (covers_expression room).bind fun e =>
    .consume_spanFrom (by decide) fun semi ets he tts ht => ?_
  have hrow := (ht.inRow.append ((he.behind [eq]).before [semi])).behind [x, colon]
  exact (hrow.spans_cons word (by simp [List.getLast?_cons])).inRow

theorem covers_assignment (room : Nat) :
    Covers (assignment room) fun ts s => InRow ts [s.node] := by
  refine .visit_bind <| .consume_bind (by decide) fun x => .consume_bind (by decide) fun eq =>
    (covers_expression room).bind fun e => .consume_spanFrom (by decide) fun semi ets he => ?_
  exact ((he.behind [eq]).between x semi).inRow

theorem covers_returnStatement (room : Nat) :
    Covers (returnStatement room) fun ts s => InRow ts [s.node] := by
  have hrest (word : Token) (value : Option Expr) :
      Covers (do
        let _ ← consume .semicolon
        return Stmt.ret value (← spanFrom word.location))
      fun us s => ∀ ts, InRow ts (value.toList.map Expr.node) →
        InRow (word :: (ts ++ us)) [s.node] :=
    .consume_spanFrom (by decide) fun semi ts hts => (hts.between word semi).inRow
  have hvalue : Covers (some <$> expression room) fun ts value =>
      InRow ts (value.toList.map Expr.node) :=
    (covers_expression room).map.mono (by rintro ts _ ⟨e, rfl, he⟩; exact he)
  refine .visit_bind <| .consume_bind (by decide) fun word => .look_bind fun c => ?_
  split
  · exact Covers.bind (.pure .nil) (hrest word)
  · exact hvalue.bind (hrest word)

theorem covers_printStatement (room : Nat) :
    Covers (printStatement room) fun ts s => InRow ts [s.node] := by
  refine .visit_bind <| .consume_bind (by decide) fun word => (covers_expression room).bind fun e =>
    .consume_spanFrom (by decide) fun semi ets he => ?_
  exact (he.between word semi).inRow

theorem covers_expressionStatement (room : Nat) :
    Covers (expressionStatement room) fun ts s => InRow ts [s.node] := by
  refine .visit_bind <| (covers_expression room).bind fun e =>
    .consume_spanFrom (by decide) fun semi ets he => ?_
  rw [← Expr.span_node]
  exact he.to_token semi

section
variable {block : Parser Block} (hb : Covers block fun ts b => Spans ts b.node) (room : Nat)
include hb

theorem covers_ifStatement : Covers (ifStatement room block) fun ts s => InRow ts [s.node] := by
  refine .visit_bind <| .consume_bind (by decide) fun word => (covers_expression room).bind fun c =>
    hb.bind_accept (by decide) (fun b => hb.bind_spanFrom fun us b' hb' => ?_) fun ts b hb => ?_
  · obtain ⟨-, u, -, hlast, -⟩ := hb'.exists_ends
    refine ⟨u, hlast, fun ts t hb cts hc => ?_⟩
    have hrow := hc.append (hb.inRow.append (hb'.inRow.behind [t]))
    exact (hrow.spans_cons word (by simp [List.getLast?_cons, hlast])).inRow
  · obtain ⟨-, u, -, hlast, -⟩ := hb.exists_ends
    refine ⟨u, hlast, fun cts hc => ?_⟩
    exact ((hc.append hb.inRow).spans_cons word (by simp [hlast])).inRow

theorem covers_whileStatement :
    Covers (whileStatement room block) fun ts s => InRow ts [s.node] := by
  refine .visit_bind <| .consume_bind (by decide) fun word => (covers_expression room).bind fun c =>
    hb.bind_spanFrom fun ts b hb => ?_
  obtain ⟨-, u, -, hlast, -⟩ := hb.exists_ends
  refine ⟨u, hlast, fun cts hc => ?_⟩
  exact ((hc.append hb.inRow).spans_cons word (by simp [hlast])).inRow

theorem covers_properStatement :
    Covers (properStatement room block) fun ts s => InRow ts [s.node] := by
  refine .look_bind fun c => ?_
  split
  · exact covers_letStatement room
  · exact covers_ifStatement hb room
  · exact covers_whileStatement hb room
  · exact covers_returnStatement room
  · exact covers_printStatement room
  · exact .ite (covers_assignment room) (covers_expressionStatement room)
  · exact covers_expressionStatement room

/-- A statement with an error in it leaves no node. -/
theorem covers_statementWith (hsteady : block.Steady) :
    Covers (statementWith room block) fun ts o => InRow ts (Stmt.nodes o.toList) := by
  intro s o s' h
  have hreaches := (steady_statementWith hsteady room).ok h
  unfold statementWith at h
  split at h
  · next hok =>
    cases h
    exact covers_properStatement hb room hok
  · cases h
    obtain ⟨ts, hts, -⟩ := hreaches.passes
    exact ⟨ts, hts, .nil⟩

end

theorem covers_statements {statement : Parser (Option Stmt)}
    (hs : Covers statement fun ts o => InRow ts (Stmt.nodes o.toList)) (n : Nat) :
    Covers (statements statement n) fun ts ss => InRow ts (Stmt.nodes ss) := by
  induction n with
  | zero => exact .pure .nil
  | succ n ih =>
    refine .look_bind fun _ => .ite (.pure .nil) (hs.bind fun o => ih.bind fun ss =>
      .pure fun us hus ts hts => ?_)
    rw [List.append_nil]
    cases o with
    | none => exact hus.behind ts
    | some s => exact hts.append hus

/-- A block spans its tokens, from its opening bracket on, even if it is cut short. -/
theorem covers_blockWithin (room : Nat) :
    Covers (blockWithin room) fun ts b => Spans ts b.node := by
  induction room with
  | zero => exact .visit_bind <| .look_bind fun _ => .throw _
  | succ room ih =>
    intro s b s' h
    obtain ⟨opening, body, s₁, s₂, hopening, hbody, hend⟩ := blockWithin_cases h
    obtain ⟨ts, hts, hrow⟩ :=
      covers_statements (covers_statementWith ih room (steady_blockWithin room)) _ hbody
    have hpasses : s.Passes (opening :: ts) s₂ :=
      (Takes.visit s .block).toPasses.trans
        ((eq_of_consume (by decide) hopening).2.toPasses.trans hts)
    rcases hend with ⟨closing, hclosing, rfl⟩ | ⟨-, rfl, rfl⟩
    · exact ⟨opening :: ts ++ [closing],
        hpasses.trans (eq_of_consume (by decide) hclosing).2.toPasses, hrow.between opening closing⟩
    · have hlast : (opening :: ts).getLast? = some s₂.previous := by
        rw [List.getLast?_cons, previous_of_takes hpasses List.getLast?_cons]
      exact ⟨opening :: ts, ⟨hpasses.rest, hpasses.before, hpasses.depth⟩,
        .mk rfl hlast (hrow.behind [opening])⟩

/-! ## Programs -/

theorem covers_param : Covers param fun ts p => InRow ts [p.type.node] := by
  refine .visit_bind <| .consume_bind (by decide) fun x => .consume_bind (by decide) fun colon =>
    covers_typeName.bind fun t => .pure fun ts ht => ?_
  rw [List.append_nil]
  exact ht.inRow.behind [x, colon]

theorem covers_function (room : Nat) : Covers (function room) fun ts f => Spans ts f.node := by
  refine .visit_bind <| .consume_bind (by decide) fun word => .consume_bind (by decide) fun name =>
    .consume_bind (by decide) fun lp => covers_param.items.bind fun params =>
    .consume_bind (by decide) fun rp => .consume_bind (by decide) fun arrow =>
    covers_typeName.bind fun t => (covers_blockWithin (room + 1)).bind_spanFrom fun ts b hb => ?_
  obtain ⟨-, u, -, hlast, -⟩ := hb.exists_ends
  refine ⟨u, hlast, fun tts ht pts hp => ?_⟩
  have hrow := (hp.append ((ht.inRow.append hb.inRow).behind [rp, arrow])).behind [name, lp]
  exact hrow.spans_cons word (by simp [List.getLast?_cons, hlast])

theorem inRow_functionOrSkip (room : Nat) (s : ParserState) :
    ∃ ts, s.Passes ts (functionOrSkip room s).2 ∧
      InRow ts ((functionOrSkip room s).1.toList.map Function.node) := by
  obtain ⟨ts, hts, -⟩ := (reaches_functionOrSkip room s).passes
  unfold functionOrSkip at hts ⊢
  split
  · next hok =>
    obtain ⟨us, hus, hspans⟩ := covers_function room hok
    exact ⟨us, hus, hspans.inRow⟩
  · next herror =>
    rw [herror] at hts
    exact ⟨ts, hts, .nil⟩

theorem inRow_functions (room n : Nat) (s : ParserState) :
    ∃ ts, s.Passes ts (functions room n s).2 ∧
      InRow ts ((functions room n s).1.map Function.node) := by
  induction n generalizing s with
  | zero => exact ⟨[], .refl s, .nil⟩
  | succ n ih =>
    rw [functions_succ]
    split
    · exact ⟨[], .refl s, .nil⟩
    · obtain ⟨ts, hts, hrow⟩ := inRow_functionOrSkip room s
      obtain ⟨us, hus, hrows⟩ := ih (functionOrSkip room s).2
      refine ⟨ts ++ us, hts.trans hus, ?_⟩
      rw [List.map_append]
      exact hrow.append hrows

end Parser

namespace Parsed

open Parser

/-- The program spans all tokens. -/
theorem spans_program (stack : Nat) (hne : tokens ≠ []) :
    Spans tokens (ofTokens stack tokens).program.node := by
  let s := (functions stack tokens.length (.ofTokens tokens)).2
  obtain ⟨ts, hts, hrow⟩ := inRow_functions stack tokens.length (.ofTokens tokens)
  have htokens : s.tokens = tokens := hts.tokens
  have hrest : tokens = ts ++ s.rest := hts.rest
  have hnode : (ofTokens stack tokens).program.node = .mk .program (spanOf tokens) .nothing
      ((functions stack tokens.length (.ofTokens tokens)).1.map Function.node) :=
    congrArg (Node.mk .program · .nothing _) (congrArg spanOf htokens)
  have hchildren := hrow.before s.rest
  rw [← hrest] at hchildren
  rw [hnode]
  cases tokens with
  | nil => exact absurd rfl hne
  | cons t ts =>
    refine .mk rfl ?_ hchildren
    rw [List.getLastD_eq_getLast?, List.getLast?_cons]
    rfl

/-- Spans nest and come in order. Whatever errors there are, every node of the program starts and
ends with a token, its children lie inside it, and each of them ends before the next one starts. -/
theorem inOrder_of_increasing (stack : Nat) (tokens : List Token) (hne : tokens ≠ [])
    (hincreasing : Increasing tokens) (path : Path) (n : Node)
    (hn : (ofTokens stack tokens).program.node.at? path = some n) : n.InOrder tokens :=
  (spans_program stack hne).inOrder_of_at? hincreasing hn

/-- The function `f() -> i32 [ let ; print (1) + x; while x [ -(2);`, in which the name of a
variable and two closing brackets are missing. -/
def cutLoop : List Token :=
  [token .funcWord 1, token .identifier 2, token .leftParen 3, token .rightParen 4, token .arrow 5,
    token .i32Word 6, token .leftBracket 7, token .letWord 8, token .semicolon 9,
    token .printWord 10, token .leftParen 11, token .integer 12, token .rightParen 13,
    token .plus 14, token .identifier 15, token .semicolon 16, token .whileWord 17,
    token .identifier 18, token .leftBracket 19, token .minus 20, token .leftParen 21,
    token .integer 22, token .rightParen 23, token .semicolon 24]
where
  token (k : TokenKind) (offset : Int) : Token := ⟨k, k.spelling, none, place offset⟩
  place (offset : Int) : Location := ⟨"cut", 1, 1, offset⟩

/-- The sum starts behind its parenthesis, and the loop ends where it is cut. -/
theorem inOrder_cutLoop : cutLoop ≠ [] ∧ Increasing cutLoop ∧
    (ofTokens 100 cutLoop).state.errors.length = 3 ∧
    (∃ n, (ofTokens 100 cutLoop).program.node.at? [0, 0, 1, 0] = some n ∧
      n.span = ⟨cutLoop.place 12, cutLoop.place 15⟩ ∧ n.InOrder cutLoop) ∧
    ∃ n, (ofTokens 100 cutLoop).program.node.at? [1, 1, 1, 0] = some n ∧
      n.span = ⟨cutLoop.place 19, cutLoop.place 24⟩ ∧ n.InOrder cutLoop := by
  have hne : cutLoop ≠ [] := by decide
  have hincreasing : Increasing cutLoop := by unfold Increasing; decide
  have hsum : ((ofTokens 100 cutLoop).program.node.at? [0, 0, 1, 0]).map Node.span =
      some ⟨cutLoop.place 12, cutLoop.place 15⟩ := by decide +kernel
  have hbody : ((ofTokens 100 cutLoop).program.node.at? [1, 1, 1, 0]).map Node.span =
      some ⟨cutLoop.place 19, cutLoop.place 24⟩ := by decide +kernel
  obtain ⟨sum, hsum, hspan⟩ := Option.map_eq_some_iff.mp hsum
  obtain ⟨body, hbody, hspan'⟩ := Option.map_eq_some_iff.mp hbody
  exact ⟨hne, hincreasing, by decide +kernel,
    ⟨sum, hsum, hspan, inOrder_of_increasing 100 cutLoop hne hincreasing _ sum hsum⟩,
    body, hbody, hspan', inOrder_of_increasing 100 cutLoop hne hincreasing _ body hbody⟩

end Parsed

end BracketLang
