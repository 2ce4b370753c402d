import BracketLang.Proofs.Grammar.PredictedExpressions
import BracketLang.Proofs.Grammar.Programs

/-! The first error of a program blames the earliest token that no program goes on with: what was
read before it is the beginning of a program, and with it is not
(`Parsed.first_error_blames_first_misfit`). Every production of statements and functions takes and
blames tokens as its phrases ask for (`Parser.Predicts`), down to the loop over the functions. -/

namespace BracketLang

open Phrase

open TokenKind (Ends)

/-- The tokens of statements. -/
def StmtDeriv.phrase : Phrase := fun ts => ∃ d : StmtDeriv, d.yield = ts

/-- The tokens of blocks. -/
def BlockDeriv.phrase : Phrase := fun ts => ∃ d : BlockDeriv, d.yield = ts

/-- The tokens of the statements of a block. -/
def BodyDeriv.phrase : Phrase := fun ts => ∃ d : BodyDeriv, d.yield = ts

/-- An expression and a semicolon. -/
def valuePhrase : Phrase := (ExprDeriv.phrase .or).andThen (token .semicolon)

/-- The name of a type. -/
def typePhrase : Phrase := oneOf (· ∈ TokenKind.typeStarts)

def letPhrase : Phrase :=
  (token .letWord).andThen <| (token .identifier).andThen <| (token .colon).andThen <|
    typePhrase.andThen <| (token .assign).andThen valuePhrase

def assignPhrase : Phrase := (token .identifier).andThen <| (token .assign).andThen valuePhrase

def elsePhrase : Phrase := nil.or ((token .elseWord).andThen BlockDeriv.phrase)

def ifPhrase : Phrase :=
  (token .ifWord).andThen <| (ExprDeriv.phrase .or).andThen <| BlockDeriv.phrase.andThen elsePhrase

def whilePhrase : Phrase :=
  (token .whileWord).andThen <| (ExprDeriv.phrase .or).andThen BlockDeriv.phrase

def returnPhrase : Phrase := (token .returnWord).andThen <| (token .semicolon).or valuePhrase

def printPhrase : Phrase := (token .printWord).andThen valuePhrase

/-- The statements that begin with a token of kind `k`. -/
def stmtPhrase : (k : TokenKind) → Phrase
  | .letWord => letPhrase
  | .ifWord => ifPhrase
  | .whileWord => whilePhrase
  | .returnWord => returnPhrase
  | .printWord => printPhrase
  | .identifier => assignPhrase.or valuePhrase
  | _ => valuePhrase

theorem ExprDeriv.valuePhrase (e : ExprDeriv .or) (semi : Terminal .semicolon) :
    valuePhrase (e.yield ++ [semi.val]) :=
  ⟨e.yield, [semi.val], ⟨e, rfl⟩, ⟨semi.val, semi.property, rfl⟩, rfl⟩

theorem StmtDeriv.stmtPhrase (d : StmtDeriv) (r : List Token) :
    stmtPhrase (nextKind (d.yield ++ r)) d.yield := by
  cases d with
  | letVar word x colon t eq e semi =>
    rw [yield, List.cons_append, nextKind_cons, word.property]
    exact oneOf_cons word.property <| oneOf_cons x.property <| oneOf_cons colon.property <|
      oneOf_cons t.property <| oneOf_cons eq.property (e.valuePhrase semi)
  | assign x eq e semi =>
    rw [yield, List.cons_append, nextKind_cons, x.property]
    exact .inl <| oneOf_cons x.property <| oneOf_cons eq.property (e.valuePhrase semi)
  | ifThen word c b =>
    rw [yield, List.cons_append, nextKind_cons, word.property]
    exact oneOf_cons word.property ⟨_, _, ⟨c, rfl⟩, ⟨_, [], ⟨b, rfl⟩, .inl rfl, by simp⟩, rfl⟩
  | ifElse word c b other b' =>
    rw [yield, List.cons_append, nextKind_cons, word.property]
    exact oneOf_cons word.property ⟨_, _, ⟨c, rfl⟩, ⟨_, _, ⟨b, rfl⟩,
      .inr (oneOf_cons other.property ⟨b', rfl⟩), rfl⟩, rfl⟩
  | whileLoop word c b =>
    rw [yield, List.cons_append, nextKind_cons, word.property]
    exact oneOf_cons word.property ⟨_, _, ⟨c, rfl⟩, ⟨b, rfl⟩, rfl⟩
  | retNone word semi =>
    rw [yield, List.cons_append, nextKind_cons, word.property]
    exact oneOf_cons word.property (.inl ⟨semi.val, semi.property, rfl⟩)
  | ret word e semi =>
    rw [yield, List.cons_append, nextKind_cons, word.property]
    exact oneOf_cons word.property (.inr (e.valuePhrase semi))
  | print word e semi =>
    rw [yield, List.cons_append, nextKind_cons, word.property]
    exact oneOf_cons word.property (e.valuePhrase semi)
  | expr e semi =>
    rw [yield, List.append_assoc]
    have hstart := e.nextKind_yield ([semi.val] ++ r)
    generalize nextKind (e.yield ++ ([semi.val] ++ r)) = k at hstart
    have hvalue := e.valuePhrase semi
    simp only [TokenKind.expressionStarts, List.mem_cons, List.not_mem_nil, or_false] at hstart
    rcases hstart with rfl | rfl | rfl | rfl | rfl | rfl | rfl
    case inr.inr.inr.inl => exact .inr hvalue
    all_goals exact hvalue

theorem StmtDeriv.of_stmtPhrase (h : BracketLang.stmtPhrase k us) : phrase us := by
  unfold BracketLang.stmtPhrase at h
  split at h
  · obtain ⟨_, _, ⟨word, hword, rfl⟩, ⟨_, _, ⟨x, hx, rfl⟩, ⟨_, _, ⟨colon, hcolon, rfl⟩,
      ⟨_, _, ⟨t, ht, rfl⟩, ⟨_, _, ⟨eq, heq, rfl⟩, ⟨_, _, ⟨e, rfl⟩, ⟨semi, hsemi, rfl⟩, rfl⟩,
      rfl⟩, rfl⟩, rfl⟩, rfl⟩, rfl⟩ := h
    exact ⟨.letVar ⟨word, hword⟩ ⟨x, hx⟩ ⟨colon, hcolon⟩ ⟨t, ht⟩ ⟨eq, heq⟩ e ⟨semi, hsemi⟩, rfl⟩
  · obtain ⟨_, _, ⟨word, hword, rfl⟩, ⟨_, _, ⟨c, rfl⟩, ⟨_, _, ⟨b, rfl⟩, rfl | ⟨_, _,
      ⟨other, hother, rfl⟩, ⟨b', rfl⟩, rfl⟩, rfl⟩, rfl⟩, rfl⟩ := h
    · exact ⟨.ifThen ⟨word, hword⟩ c b, by simp [yield]⟩
    · exact ⟨.ifElse ⟨word, hword⟩ c b ⟨other, hother⟩ b', rfl⟩
  · obtain ⟨_, _, ⟨word, hword, rfl⟩, ⟨_, _, ⟨c, rfl⟩, ⟨b, rfl⟩, rfl⟩, rfl⟩ := h
    exact ⟨.whileLoop ⟨word, hword⟩ c b, rfl⟩
  · obtain ⟨_, _, ⟨word, hword, rfl⟩, ⟨semi, hsemi, rfl⟩ | ⟨_, _, ⟨e, rfl⟩, ⟨semi, hsemi, rfl⟩,
      rfl⟩, rfl⟩ := h
    · exact ⟨.retNone ⟨word, hword⟩ ⟨semi, hsemi⟩, rfl⟩
    · exact ⟨.ret ⟨word, hword⟩ e ⟨semi, hsemi⟩, rfl⟩
  · obtain ⟨_, _, ⟨word, hword, rfl⟩, ⟨_, _, ⟨e, rfl⟩, ⟨semi, hsemi, rfl⟩, rfl⟩, rfl⟩ := h
    exact ⟨.print ⟨word, hword⟩ e ⟨semi, hsemi⟩, rfl⟩
  · rcases h with ⟨_, _, ⟨x, hx, rfl⟩, ⟨_, _, ⟨eq, heq, rfl⟩, ⟨_, _, ⟨e, rfl⟩, ⟨semi, hsemi, rfl⟩,
      rfl⟩, rfl⟩, rfl⟩ | ⟨_, _, ⟨e, rfl⟩, ⟨semi, hsemi, rfl⟩, rfl⟩
    · exact ⟨.assign ⟨x, hx⟩ ⟨eq, heq⟩ e ⟨semi, hsemi⟩, rfl⟩
    · exact ⟨.expr e ⟨semi, hsemi⟩, rfl⟩
  · obtain ⟨_, _, ⟨e, rfl⟩, ⟨semi, hsemi, rfl⟩, rfl⟩ := h
    exact ⟨.expr e ⟨semi, hsemi⟩, rfl⟩

namespace Parser

variable {F : TokenKind → Prop} {c : Cursor}

/-! ## Statements -/

theorem predicts_typeName (n : Nat) : Predicts n typeName typePhrase F := by
  refine fun c _ => .oneOf steady_typeName ⟨.i32Word, by decide⟩ (fun h => ?_) fun h =>
    ⟨⟨.unexpected TokenKind.typeStarts none, c.peek⟩, rfl, fun s hs => ?_⟩
  · have hne : nextKind c.rest ≠ .eof := fun he => absurd (he ▸ h) (by decide)
    refine PredictsAt.congr
      (PredictsAt.bind_pure (g := fun _ => ⟨c.peek.lexeme, .point c.peek.location⟩)
        (.advance h hne)) steady_typeName fun s hs => ?_
    simp only [typeName, bind, EStateM.bind, peek_run, Cursor.kind_peek, hs, if_pos h]
  · simp only [typeName, bind, EStateM.bind, peek_run, Cursor.kind_peek, hs, if_neg h]
    rfl

theorem typeName_bind {β : Type} {f : TypeName → Parser β} {L : Phrase}
    (hf : ∀ t, Predicts (n - 1) (f t) L F) :
    Predicts n (typeName >>= f) (typePhrase.andThen L) F := by
  have hx : Predicts n typeName typePhrase fun _ => True := predicts_typeName n
  refine hx.bind ?_ fun _ _ _ _ => trivial
  rintro a _ ⟨t, -, rfl⟩
  exact hf a

/-- An expression, the semicolon behind it, and nothing else. -/
theorem predicts_value {start : Expr → Location} {g : Expr → Span → Stmt} (room n : Nat) :
    Predicts n (do
      let e ← expression room
      let _ ← consume .semicolon
      return g e (← spanFrom (start e))) valuePhrase F := by
  refine (predicts_expression room n).bind (fun e _ _ c _ => ?_) fun us r hus _ => ?_
  · exact (PredictsAt.consume (by decide) c).bind_nil fun _ _ => .spanFrom_bind fun _ => .pure _
  · rw [nextKind_token hus]
    decide

theorem predicts_letStatement (room n : Nat) :
    Predicts n (letStatement room) letPhrase F :=
  .visit_bind <| .consume_bind (by decide) fun _ => .consume_bind (by decide) fun _ =>
    .consume_bind (by decide) fun _ => typeName_bind fun _ => .consume_bind (by decide) fun _ =>
      predicts_value room _

theorem predicts_assignment (room n : Nat) :
    Predicts n (assignment room) assignPhrase F :=
  .visit_bind <| .consume_bind (by decide) fun _ => .consume_bind (by decide) fun _ =>
    predicts_value room _

theorem predicts_printStatement (room n : Nat) :
    Predicts n (printStatement room) printPhrase F :=
  .visit_bind <| .consume_bind (by decide) fun _ => predicts_value room _

theorem predicts_expressionStatement (room n : Nat) :
    Predicts n (expressionStatement room) valuePhrase F :=
  .visit_bind (predicts_value room _)

theorem nextKind_valuePhrase (h : valuePhrase ts) :
    nextKind (ts ++ r) ∈ TokenKind.expressionStarts := by
  obtain ⟨_, us, ⟨e, rfl⟩, -, rfl⟩ := h
  rw [List.append_assoc]
  exact e.nextKind_yield _

theorem predicts_returnStatement (room n : Nat) :
    Predicts n (returnStatement room) returnPhrase F := by
  have ending (start : Location) (value : Option Expr) (n : Nat) : Predicts n (do
      let _ ← consume .semicolon
      return Stmt.ret value (← spanFrom start)) (token .semicolon) F :=
    fun c _ => (PredictsAt.consume (by decide) c).bind_nil fun _ _ =>
      .spanFrom_bind fun _ => .pure _
  have hsteady (start : Location) (value : Option Expr) : Steady (do
      let _ ← consume .semicolon
      return Stmt.ret value (← spanFrom start)) := (ending start value 0).steady
  refine .visit_bind <| .consume_bind (by decide) fun start c _ => .look_bind ?_ fun s hs => ?_
  · exact (steady_check _).bind fun _ => .ite ((steady_pure _).bind fun _ => hsteady _ _)
      ((steady_expression room).map.bind fun _ => hsteady _ _)
  by_cases hsemi : nextKind c.rest = .semicolon
  · rw [if_pos (by simp [Cursor.check_eq, hs, hsemi])]
    refine (ending start.location none _ c (Nat.le_refl _)).restrict (fun _ h => .inl h) ?_
    rintro us r (hus | hus) - hnext
    · exact hus
    · have hstart := nextKind_valuePhrase (r := r) hus
      rw [hnext, hsemi] at hstart
      exact absurd hstart (by decide)
  · rw [if_neg (by simp [Cursor.check_eq, hs, hsemi])]
    refine .restrict (.bind (predicts_expression room _ c (Nat.le_refl _)).map
      (fun _ _ _ => ending _ _ _) ?_) (fun _ h => .inr h) ?_
    · intro us r hus _
      rw [nextKind_token hus]
      decide
    · rintro us r (hus | hus) - hnext
      · exact absurd (hnext.symm.trans (nextKind_token hus)) hsemi
      · exact hus

theorem nextKind_blockPhrase (h : BlockDeriv.phrase ts) : nextKind (ts ++ r) = .leftBracket := by
  obtain ⟨d, rfl⟩ := h
  exact d.nextKind_yield r

section
variable {block : Parser Block} (hb : Predicts n block BlockDeriv.phrase fun _ => True)
include hb

theorem predicts_ifStatement (room : Nat) :
    Predicts n (ifStatement room block) ifPhrase (· ≠ .elseWord) := by
  have hblock {m : Nat} (hm : m ≤ n) : Predicts m block BlockDeriv.phrase (· ≠ .elseWord) :=
    (hb.mono hm).follow fun _ _ => trivial
  refine .visit_bind <| .consume_bind (by decide) fun start => (predicts_expression room _).bind
    (fun condition _ _ => (hb.mono (by omega)).bind (fun body _ _ c hc => ?_)
      fun _ _ _ _ => trivial) ?_
  · have htrue : Predicts (c.rest.length - 1) (do
        let otherwise ← block
        return Stmt.ifElse condition body.body body.span otherwise.body otherwise.span
          (← spanFrom start.location)) BlockDeriv.phrase (· ≠ .elseWord) :=
      (hblock (by omega)).bind_nil fun _ _ => .spanFrom_bind fun _ => .pure _
    have hfalse (n : Nat) : Predicts n (do
        return Stmt.ifThen condition body.body body.span (← spanFrom start.location)) nil
          (· ≠ .elseWord) := .spanFrom_bind fun _ => .pure _
    by_cases helse : nextKind c.rest = .elseWord
    · refine .restrict (.accept_bind (by decide) helse (hfalse 0).steady htrue)
        (fun _ h => .inr h) ?_
      rintro us r (rfl | hus) hr hnext
      · exact absurd (hnext.trans helse) hr
      · exact hus
    · refine .restrict (.accept_bind_of_ne helse (hfalse _ c (Nat.le_refl _)) htrue.steady)
        (fun _ h => .inl h) ?_
      rintro us r (hus | hus) - hnext
      · exact hus
      · exact absurd (hnext.symm.trans (nextKind_andThen hus)) helse
  · rintro _ r ⟨us, vs, hus, -, rfl⟩ -
    rw [List.append_assoc, nextKind_blockPhrase hus]
    decide

theorem predicts_whileStatement (room : Nat) :
    Predicts n (whileStatement room block) whilePhrase F := by
  refine .visit_bind <| .consume_bind (by decide) fun _ => (predicts_expression room _).bind
    (fun _ _ _ => ?_) fun us r hus _ => ?_
  · exact ((hb.mono (by omega)).follow fun _ _ => trivial).bind_nil fun _ _ =>
      .spanFrom_bind fun _ => .pure _
  · rw [nextKind_blockPhrase hus]
    decide

omit hb in
/-- A name starts an assignment if `=` comes next, and else an expression. -/
theorem predicts_nameStatement (room : Nat) (hc : nextKind c.rest = .identifier) :
    PredictsAt c
      (if nextKind c.rest.tail = .assign then assignment room else expressionStatement room)
      (assignPhrase.or valuePhrase) (· ≠ .elseWord) := by
  by_cases hassign : nextKind c.rest.tail = .assign
  · rw [if_pos hassign]
    refine (predicts_assignment room _ c (Nat.le_refl _)).restrict_tail (fun _ h => .inl h) ?_ ?_ ?_
    · rintro ⟨_, _, ⟨x, hx, rfl⟩, -, ⟨⟩⟩
    · obtain ⟨us, hus⟩ := (predicts_assignment (F := fun _ => True) room 0).nonempty
      exact ⟨us, [], hus, by decide, (nextKind_andThen hus).trans hc.symm⟩
    · rintro us r (hus | ⟨_, _, ⟨e, rfl⟩, ⟨semi, hsemi, rfl⟩, rfl⟩) - - htail
      · exact hus
      · rw [List.append_assoc, hassign] at htail
        exact absurd htail (e.nextKind_tail_ne (by simp [hsemi]))
  · rw [if_neg hassign]
    refine (predicts_expressionStatement room _ c (Nat.le_refl _)).restrict_tail (fun _ h => .inr h)
      ?_ ?_ ?_
    · rintro ⟨_, _, -, ⟨semi, -, rfl⟩, h⟩
      simp at h
    · obtain ⟨e, he, -⟩ := (ExprDeriv.var ⟨⟨.identifier, "", none, .origin⟩, rfl⟩).exists_loosen
        (p := .or) (by decide) (by decide)
      refine ⟨_, [], e.valuePhrase ⟨⟨.semicolon, "", none, .origin⟩, rfl⟩, by decide, ?_⟩
      rw [he, hc]
      rfl
    · rintro us r (⟨_, _, ⟨x, hx, rfl⟩, ⟨_, _, ⟨eq, heq, rfl⟩, -, rfl⟩, rfl⟩ | hus) - - htail
      · exact absurd (htail.symm.trans heq) hassign
      · exact hus

theorem predicts_properStatement (room : Nat) :
    Predicts n (properStatement room block) StmtDeriv.phrase (· ≠ .elseWord) := by
  intro c hc
  suffices h :
      PredictsAt c (properStatement room block) (stmtPhrase (nextKind c.rest)) (· ≠ .elseWord) by
    refine h.restrict (fun _ => StmtDeriv.of_stmtPhrase) ?_
    rintro _ r ⟨d, rfl⟩ - hnext
    exact hnext ▸ d.stmtPhrase r
  refine .look_bind (moves_properStatement hb.steady room).steady fun s hs => ?_
  rw [Cursor.kind_peek, Cursor.kind_peekNext, hs]
  have hname := predicts_nameStatement (c := c) room
  generalize nextKind c.rest = k at hname
  split
  · exact predicts_letStatement room n c hc
  · exact predicts_ifStatement hb room c hc
  · exact predicts_whileStatement hb room c hc
  · exact predicts_returnStatement room n c hc
  · exact predicts_printStatement room n c hc
  · exact hname rfl
  · have hvalue : stmtPhrase k = valuePhrase := by
      grind [stmtPhrase]
    rw [hvalue]
    exact predicts_expressionStatement room n c hc

theorem predicts_statementWith (room : Nat) :
    Predicts n (statementWith room block) StmtDeriv.phrase (· ≠ .elseWord) :=
  fun c hc => (predicts_properStatement hb room c hc).recover (steady_statementWith hb.steady room)
    (fun h => by simp [statementWith, h])
    fun h => ⟨_, by simp only [statementWith, h]; rfl, rfl⟩

end

theorem nextKind_bodyPhrase_ne (h : BodyDeriv.phrase us) (hr : nextKind r = .rightBracket) :
    nextKind (us ++ r) ≠ .elseWord := by
  obtain ⟨d, rfl⟩ := h
  exact d.nextKind_ne_else hr

theorem predicts_statements {statement : Parser (Option Stmt)}
    (hx : Predicts n statement StmtDeriv.phrase (· ≠ .elseWord)) (hm : m ≤ n) :
    Predicts m (statements statement m) BodyDeriv.phrase (· = .rightBracket) := by
  have stop (c : Cursor) (hnext : nextKind c.rest ∈ TokenKind.blockBoundaries) :
      PredictsAt c (pure [] : Parser (List Stmt)) BodyDeriv.phrase (· = .rightBracket) := by
    refine (PredictsAt.pure [] c).restrict (by rintro _ rfl; exact ⟨.nil, rfl⟩) ?_
    rintro _ r ⟨_ | ⟨s, ss⟩, rfl⟩ hr heq
    · rfl
    · have hall : ∀ k ∈ TokenKind.blockBoundaries,
          k ∉ TokenKind.statementStarts ++ TokenKind.expressionStarts := by decide
      rw [BodyDeriv.yield, List.append_assoc] at heq
      exact absurd heq (s.nextKind_ne (hall _ hnext))
  induction m with
  | zero =>
    refine fun c hc => stop c ?_
    rw [List.length_eq_zero_iff.mp (Nat.le_zero.mp hc)]
    decide
  | succ m ih =>
    intro c hc
    refine .look_bind (steady_statements hx.steady (m + 1)) fun s hs => ?_
    rw [hs]
    by_cases hnext : nextKind c.rest ∈ TokenKind.blockBoundaries
    · rw [if_pos (c.atBlockBoundary_iff.mpr hnext)]
      exact stop c hnext
    · rw [if_neg (mt c.atBlockBoundary_iff.mp hnext)]
      refine .restrict (.bind (hx c (by omega)) ?_ fun us r => nextKind_bodyPhrase_ne) ?_ ?_
      · rintro a _ ⟨d, rfl⟩
        have hlen := d.length_yield_pos
        exact ((ih (by omega)).mono (by omega)).bind_pure
      · rintro _ ⟨_, _, ⟨d, rfl⟩, ⟨ds, rfl⟩, rfl⟩
        exact ⟨.cons d ds, rfl⟩
      · rintro _ r ⟨_ | ⟨d, ds⟩, rfl⟩ hr heq
        · rw [← heq, BodyDeriv.yield, List.nil_append, hr] at hnext
          exact absurd (by decide) hnext
        · exact ⟨d.yield, ds.yield, ⟨d, rfl⟩, ⟨ds, rfl⟩, rfl⟩

theorem BlockDeriv.phrase_eq : BlockDeriv.phrase =
    (token .leftBracket).andThen (BodyDeriv.phrase.andThen (token .rightBracket)) := by
  funext ts
  refine propext ⟨?_, ?_⟩
  · rintro ⟨⟨lb, body, rb⟩, rfl⟩
    exact oneOf_cons lb.property ⟨_, _, ⟨body, rfl⟩, ⟨rb.val, rb.property, rfl⟩, rfl⟩
  · rintro ⟨_, _, ⟨lb, hlb, rfl⟩, ⟨_, _, ⟨body, rfl⟩, ⟨rb, hrb, rfl⟩, rfl⟩, rfl⟩
    exact ⟨.mk ⟨lb, hlb⟩ body ⟨rb, hrb⟩, rfl⟩

/-- A block that is not closed is put on record where its bracket is missing. -/
theorem predicts_closeBlock (opening : Location) (body : List Stmt) (n : Nat) :
    Predicts n (do
      if ← check .rightBracket then
        let closing ← advance
        return (⟨body, ⟨opening, closing.location⟩⟩ : Block)
      else
        record ⟨.unterminatedBlock opening, ← peek⟩
        return ⟨body, ← spanFrom opening⟩) (token .rightBracket) F := by
  intro c _
  have hrecord (e : SyntaxError) : Steady (do
      record e
      return (⟨body, ← spanFrom opening⟩ : Block)) :=
    (steady_record e).bind fun _ => (steady_spanFrom _).bind fun _ => steady_pure _
  refine .look_bind ((steady_check _).bind fun _ =>
    .ite (steady_advance.bind fun _ => steady_pure _) (steady_peek.bind fun _ => hrecord _))
    fun s hs => ?_
  by_cases hnext : nextKind c.rest = .rightBracket
  · rw [if_pos (by simp [Cursor.check_eq, hs, hnext])]
    exact (PredictsAt.advance hnext (by rw [hnext]; decide)).bind_pure
  · rw [if_neg (by simp [Cursor.check_eq, hs, hnext])]
    refine .look_bind (steady_peek.bind fun _ => hrecord _) fun s' hs' =>
      .record_bind (by rw [hs']) (nonempty_oneOf rfl) ?_
        ((steady_spanFrom _).bind fun _ => steady_pure _)
    exact fun us r hus _ h => hnext (h.symm.trans (nextKind_token hus))

theorem BlockDeriv.nonempty_phrase : ∃ ts, BlockDeriv.phrase ts :=
  ⟨_, .mk ⟨⟨.leftBracket, "", none, .origin⟩, rfl⟩ .nil
    ⟨⟨.rightBracket, "", none, .origin⟩, rfl⟩, rfl⟩

/-- Where no block fits, a token that is blamed for anything but that opens none. -/
theorem predicts_blockWithin (room n : Nat) :
    Predicts n (blockWithin room) BlockDeriv.phrase fun _ => True := by
  induction room generalizing n with
  | zero =>
    intro c _
    refine .visit_bind <| .look_bind (steady_peek.bind fun _ => steady_throw _) fun s hs => ?_
    have hfound : s.peek = c.peek := by rw [hs]
    unfold noBlock
    split
    · exact .throw_nesting ⟨_, rfl⟩ BlockDeriv.nonempty_phrase
    · next hopen =>
      refine .throw hfound BlockDeriv.nonempty_phrase fun us r hus _ h => hopen ?_
      rw [hfound, Cursor.kind_peek, ← h, nextKind_blockPhrase hus]
  | succ room ih =>
    rw [BlockDeriv.phrase_eq]
    refine .visit_bind <| .consume_bind (by decide) fun opening c hc => ?_
    have hbody (m : Nat) :=
      steady_statements (steady_statementWith (steady_blockWithin room) room) m
    refine .look_bind (steady_remaining.bind fun m => (hbody m).bind fun body =>
      (predicts_closeBlock (F := fun _ => True) opening.location body 0).steady) fun s hs => ?_
    subst hs
    refine (predicts_statements (predicts_statementWith (ih _) room) (Nat.le_refl _)
      s.toCursor (Nat.le_refl _)).bind (fun body _ _ => predicts_closeBlock _ _ _) ?_
    exact fun us r hus _ => nextKind_token hus

/-! ## Functions -/

end Parser

/-- The tokens of parameters. -/
def ParamsDeriv.phrase : Phrase := fun ts => ∃ d : ParamsDeriv, d.yield = ts

def ParamDeriv.phrase : Phrase := (token .identifier).andThen <| (token .colon).andThen typePhrase

theorem ParamDeriv.mem_phrase (p : ParamDeriv) : phrase p.yield :=
  oneOf_cons p.x.property <| oneOf_cons p.colon.property ⟨p.t.val, p.t.property, rfl⟩

theorem ParamDeriv.of_phrase (h : phrase ts) : ∃ p : ParamDeriv, p.yield = ts := by
  obtain ⟨_, _, ⟨x, hx, rfl⟩, ⟨_, _, ⟨colon, hcolon, rfl⟩, ⟨t, ht, rfl⟩, rfl⟩, rfl⟩ := h
  exact ⟨⟨⟨x, hx⟩, ⟨colon, hcolon⟩, ⟨t, ht⟩⟩, rfl⟩

namespace ParamsDeriv

theorem more_phrase (more : List (Terminal .comma × ParamDeriv)) :
    ParamDeriv.phrase.more (more.flatMap fun q => q.1.val :: q.2.yield) := by
  refine more_of_moreItems (moreItems more) ?_
  rintro _ _ ⟨p, rfl, -⟩
  exact p.mem_phrase

theorem of_more (h : ParamDeriv.phrase.more ts) : ∃ more : List (Terminal .comma × ParamDeriv),
    more.flatMap (fun q => q.1.val :: q.2.yield) = ts := by
  induction h with
  | nil => exact ⟨[], rfl⟩
  | @cons comma ts us hcomma h _ ih =>
    obtain ⟨p, rfl⟩ := ParamDeriv.of_phrase h
    obtain ⟨more, rfl⟩ := ih
    exact ⟨(⟨comma, hcomma⟩, p) :: more, rfl⟩

theorem phrase_eq_items : phrase = ParamDeriv.phrase.items := by
  funext ts
  refine propext ⟨?_, ?_⟩
  · rintro ⟨_ | ⟨p, more⟩, rfl⟩
    · exact .inl rfl
    · exact .inr ⟨p.yield, _, p.mem_phrase, more_phrase more, rfl⟩
  · rintro (rfl | ⟨_, us, hp, hmore, rfl⟩)
    · exact ⟨.none, rfl⟩
    · obtain ⟨p, rfl⟩ := ParamDeriv.of_phrase hp
      obtain ⟨more, rfl⟩ := of_more hmore
      exact ⟨.some p more, rfl⟩

end ParamsDeriv

def FunctionDeriv.phrase : Phrase :=
  (token .funcWord).andThen <| (token .identifier).andThen <| (token .leftParen).andThen <|
    ParamsDeriv.phrase.andThen <| (token .rightParen).andThen <| (token .arrow).andThen <|
      typePhrase.andThen BlockDeriv.phrase

theorem FunctionDeriv.mem_phrase (f : FunctionDeriv) : phrase f.yield :=
  oneOf_cons f.word.property <| oneOf_cons f.name.property <| oneOf_cons f.lp.property
    ⟨_, _, ⟨f.params, rfl⟩, oneOf_cons f.rp.property <| oneOf_cons f.arrow.property <|
      oneOf_cons f.result.property ⟨f.body, rfl⟩, rfl⟩

theorem FunctionDeriv.of_phrase (h : phrase ts) : ∃ f : FunctionDeriv, f.yield = ts := by
  obtain ⟨_, _, ⟨word, hword, rfl⟩, ⟨_, _, ⟨name, hname, rfl⟩, ⟨_, _, ⟨lp, hlp, rfl⟩,
    ⟨_, _, ⟨params, rfl⟩, ⟨_, _, ⟨rp, hrp, rfl⟩, ⟨_, _, ⟨arrow, harrow, rfl⟩, ⟨_, _, ⟨t, ht, rfl⟩,
    ⟨body, rfl⟩, rfl⟩, rfl⟩, rfl⟩, rfl⟩, rfl⟩, rfl⟩, rfl⟩ := h
  exact ⟨⟨⟨word, hword⟩, ⟨name, hname⟩, ⟨lp, hlp⟩, params, ⟨rp, hrp⟩, ⟨arrow, harrow⟩, ⟨t, ht⟩,
    body⟩, rfl⟩

/-- The tokens of programs. -/
def ProgramDeriv.phrase : Phrase := fun ts => ∃ d : ProgramDeriv, d.yield = ts

namespace Parser

variable {F : TokenKind → Prop} {c : Cursor}

theorem predicts_param (n : Nat) : Predicts n param ParamDeriv.phrase F :=
  .visit_bind <| .consume_bind (by decide) fun _ => .consume_bind (by decide) fun _ =>
    (predicts_typeName _).bind_pure

theorem predicts_params (n : Nat) : Predicts n params ParamsDeriv.phrase (· = .rightParen) := by
  rw [ParamsDeriv.phrase_eq_items]
  have hparam : Predicts n param ParamDeriv.phrase fun _ => True := predicts_param n
  refine hparam.items (fun _ _ => trivial) fun us r hus => ?_
  rw [nextKind_andThen hus]
  exact nofun

theorem predicts_function (room n : Nat) :
    Predicts n (function room) FunctionDeriv.phrase F := by
  refine .visit_bind <| .consume_bind (by decide) fun _ => .consume_bind (by decide) fun _ =>
    .consume_bind (by decide) fun _ => (predicts_params _).bind (fun _ _ _ => ?_)
      fun us r hus _ => nextKind_andThen hus
  exact .consume_bind (by decide) fun _ => .consume_bind (by decide) fun _ => typeName_bind fun _ =>
    ((predicts_blockWithin (room + 1) _).follow fun _ _ => trivial).bind_nil fun _ _ =>
    .spanFrom_bind fun _ => .pure _

/-- A run that never fails. -/
def unfailing {α : Type} (x : StateM ParserState α) : Parser α := fun s => .ok (x s).1 (x s).2

theorem steady_unfailing {α : Type} {x : StateM ParserState α}
    (h : ∀ s : ParserState, s.Reaches (x s).2) : (unfailing x).Steady := by
  refine fun s => ⟨fun a s' hx => ?_, fun e s' hx => ?_⟩ <;> unfold unfailing at hx <;> cases hx
  exact h s

theorem predicts_functionOrSkip (room n : Nat) :
    Predicts n (unfailing (functionOrSkip room)) FunctionDeriv.phrase F :=
  fun c hc => (predicts_function room n c hc).recover
    (steady_unfailing (reaches_functionOrSkip room))
    (fun h => by simp [unfailing, functionOrSkip, h])
    fun h => ⟨_, by simp only [unfailing, functionOrSkip, h]; rfl, rfl⟩

theorem predicts_functions (room n : Nat) :
    Predicts n (unfailing (functions room n)) ProgramDeriv.phrase (· = .eof) := by
  have hsteady (n : Nat) : (unfailing (functions room n)).Steady :=
    steady_unfailing (reaches_functions room n)
  have stop (c : Cursor) (hnext : nextKind c.rest = .eof) :
      PredictsAt c (pure [] : Parser (List Function)) ProgramDeriv.phrase (· = .eof) := by
    refine (PredictsAt.pure [] c).restrict (by rintro _ rfl; exact ⟨⟨[]⟩, rfl⟩) ?_
    rintro _ r ⟨⟨_ | ⟨d, ds⟩⟩, rfl⟩ - heq
    · rfl
    · exact absurd (heq.symm.trans d.word.property) (by rw [hnext]; decide)
  induction n with
  | zero =>
    refine fun c hc => (stop c ?_).congr (hsteady 0) fun s _ => rfl
    rw [List.length_eq_zero_iff.mp (Nat.le_zero.mp hc)]
    rfl
  | succ n ih =>
    intro c hc
    by_cases hnext : nextKind c.rest = .eof
    · refine (stop c hnext).congr (hsteady _) fun s hs => ?_
      rw [unfailing, functions_succ, atEnd_eq, hs, if_pos (by simpa using hnext)]
      rfl
    · have hstep : PredictsAt c (do
          let f ← unfailing (functionOrSkip room)
          let fs ← unfailing (functions room n)
          return f.toList ++ fs) (FunctionDeriv.phrase.andThen ProgramDeriv.phrase) (· = .eof) := by
        have hx : PredictsAt c (unfailing (functionOrSkip room)) FunctionDeriv.phrase
            fun _ => True := predicts_functionOrSkip room _ c hc
        refine hx.bind ?_ fun _ _ _ _ => trivial
        rintro f _ ⟨_, us, ⟨t, -, rfl⟩, -, rfl⟩
        exact (ih.mono (by simp; omega)).bind_pure
      refine (hstep.congr (hsteady _) fun s hs => ?_).restrict ?_ ?_
      · rw [unfailing, functions_succ, atEnd_eq, hs, if_neg (by simpa using hnext)]
        rfl
      · rintro _ ⟨_, _, hd, ⟨ds, rfl⟩, rfl⟩
        obtain ⟨d, rfl⟩ := FunctionDeriv.of_phrase hd
        exact ⟨⟨d :: ds.functions⟩, rfl⟩
      · rintro _ r ⟨⟨_ | ⟨d, ds⟩⟩, rfl⟩ hr heq
        · exact absurd (heq.symm.trans hr) hnext
        · exact ⟨d.yield, _, d.mem_phrase, ⟨⟨ds⟩, rfl⟩, rfl⟩

end Parser

namespace Parsed

/-- The first error names the first token that cannot be right. Unless expressions or blocks nest
too deep, the tokens before the one that is blamed begin some program, together with it they begin
none, and where the end of input is blamed they are not a program themselves. -/
theorem first_error_blames_first_misfit (h : (ofTokens stack tokens).state.errors = e :: es)
    (he : ¬e.IsNesting) :
    ∃ seen rest, tokens = seen ++ rest ∧ e.found = Cursor.peek ⟨seen.reverse, rest⟩ ∧
      (∃ d : ProgramDeriv, seen <+: d.yield) ∧
      (∀ d : ProgramDeriv, ¬seen ++ [e.found] <+: d.yield) ∧
      (e.found.kind = .eof → ∀ d : ProgramDeriv, d.yield ≠ seen) := by
  have hpredicts := Parser.predicts_functions stack tokens.length (.ofTokens tokens) (Nat.le_refl _)
  obtain ⟨seen, rest, hrest, hfound, ⟨us, d, hd⟩, hstuck⟩ :=
    hpredicts.stuck (s := .ofTokens tokens) rfl ⟨es, h⟩ he
  rw [show (Cursor.ofTokens tokens).before = [] from rfl, List.append_nil] at hfound
  have hkind : e.found.kind = nextKind rest := by rw [hfound, Cursor.kind_peek]
  refine ⟨seen, rest, hrest, hfound, ⟨d, hd ▸ List.prefix_append ..⟩, ?_, fun heof d hseen => ?_⟩
  · rintro d ⟨ws, hws⟩
    refine hstuck d.yield [] (e.found :: ws) ⟨d, rfl⟩ rfl hkind ?_
    rw [List.append_nil, ← hws, List.append_assoc]
    rfl
  · exact hstuck d.yield rest rest ⟨d, rfl⟩ (hkind.symm.trans heof) rfl (by rw [hseen])

/-- A function with two errors: an operand is missing in front of a semicolon, and the block is not
closed. -/
def brokenTwice : List Token :=
  let token (k : TokenKind) (column : Int) : Token :=
    ⟨k, k.spelling, none, ⟨"broken", 1, column, 0⟩⟩
  [token .funcWord 1, ⟨.identifier, "f", none, ⟨"broken", 1, 2, 0⟩⟩, token .leftParen 3,
    token .rightParen 4, token .arrow 5, token .i32Word 6, token .leftBracket 7,
    token .printWord 8, token .trueWord 9, token .star 10, token .semicolon 11]

theorem first_error_brokenTwice :
    ∃ e e', (ofTokens 100 brokenTwice).state.errors = [e, e'] ∧ ¬e.IsNesting ∧
      e.found.location.column = 11 ∧
      ∃ seen rest, brokenTwice = seen ++ rest ∧ e.found = Cursor.peek ⟨seen.reverse, rest⟩ ∧
        (∃ d : ProgramDeriv, seen <+: d.yield) ∧
        (∀ d : ProgramDeriv, ¬seen ++ [e.found] <+: d.yield) ∧
        (e.found.kind = .eof → ∀ d : ProgramDeriv, d.yield ≠ seen) := by
  have herrors : (ofTokens 100 brokenTwice).state.errors =
      [⟨.unexpected TokenKind.expressionStarts (some "expression"),
          ⟨.semicolon, ";", none, ⟨"broken", 1, 11, 0⟩⟩⟩,
        ⟨.unterminatedBlock ⟨"broken", 1, 7, 0⟩, .eofAt ⟨"broken", 1, 11, 0⟩⟩] := by
    decide +kernel
  have hnesting : ¬SyntaxError.IsNesting
      ⟨.unexpected TokenKind.expressionStarts (some "expression"),
        ⟨.semicolon, ";", none, ⟨"broken", 1, 11, 0⟩⟩⟩ := by
    rintro ⟨limit, ⟨⟩⟩
  exact ⟨_, _, herrors, hnesting, rfl, first_error_blames_first_misfit herrors hnesting⟩

end Parsed

end BracketLang
