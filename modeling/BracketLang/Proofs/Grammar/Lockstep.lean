import BracketLang.Proofs.Grammar.Blame

/-! A parser in other surroundings. Tokens may stand in front of those that a parser reads, errors
may be on record before, and behind the last token the input may go on with another function. None
of this changes what is read: no production takes the word that starts a function, and where the end
of input would stop it, the word does. So two states that differ in their surroundings only
(`Surroundings.Embeds`) stay so, step by step, and the results are the same. An error that blames
the end of input blames the function in its place (`SyntaxError.cutBy`). -/

namespace BracketLang

/-- What is missing where a function starts in place of the end of input. -/
def SyntaxError.Cause.beforeFunction : Cause → Cause
  | unterminatedExpression expected =>
    if expected = "')'" then unexpected [.rightParen] none
    else unexpected TokenKind.expressionStarts (some "expression")
  | cause => cause

/-- What an error becomes if the tokens `behind` come at the end of the input: if it blames the end,
it blames the first of them. -/
def SyntaxError.cutBy (behind : List Token) (e : SyntaxError) : SyntaxError :=
  match behind with
  | [] => e
  | t :: _ => if e.found.kind = .eof then ⟨e.cause.beforeFunction, t⟩ else e

@[simp] theorem SyntaxError.cutBy_nil : cutBy [] = id := rfl

theorem SyntaxError.cutBy_of_ne {e : SyntaxError} (h : e.found.kind ≠ .eof)
    (behind : List Token) : e.cutBy behind = e := by
  cases behind with
  | nil => rfl
  | cons t ts => exact if_neg h

/-- Tokens in front of those that a parser reads, tokens behind them, and errors on record. -/
structure Surroundings where
  front : List Token
  behind : List Token
  errors : List SyntaxError

namespace Surroundings

variable {w : Surroundings} {s s' s₁ s₁' : ParserState}

/-- `s'` is the state `s` in the surroundings `w`. The tokens behind start with a function, and then
nothing else is the end of input. -/
structure Holds (w : Surroundings) (s s' : ParserState) : Prop where
  before : s'.before = s.before ++ w.front
  rest : s'.rest = s.rest ++ w.behind
  depth : s'.depth = s.depth
  errors : s'.errors = w.errors ++ s.errors.map (.cutBy w.behind)
  cut : w.behind = [] ∨ nextKind w.behind = .funcWord ∧ ∀ t ∈ s.rest, t.kind ≠ .eof

/-- And a token has been taken. -/
structure Embeds (w : Surroundings) (s s' : ParserState) : Prop extends w.Holds s s' where
  started : s.before ≠ []

/-- The tokens in front of two states: the same, or the end of input and the function behind. -/
inductive Front (behind : List Token) : Token → Token → Prop
  | same (h : behind = [] ∨ t.kind ≠ .eof) : Front behind t t
  | cut (ht : t.kind = .eof) (hb : b.kind = .funcWord) (h : behind = b :: bs) : Front behind t b

namespace Holds

theorem position (h : w.Holds s s') : s'.position = s.position + w.front.length := by
  rw [Cursor.position, h.before, List.length_append, Cursor.position]

/-- What cannot be seen is left open. -/
theorem front_of_ne (h : w.Holds s s') (hs : s.rest ≠ []) : Front w.behind s.peek s'.peek := by
  obtain ⟨t, r, hrest⟩ := List.exists_cons_of_ne_nil hs
  have hpeek : s.peek = t := by simp [Cursor.peek, hrest]
  have hpeek' : s'.peek = t := by simp [Cursor.peek, h.rest, hrest]
  rw [hpeek, hpeek']
  exact .same (h.cut.imp_right fun hcut => hcut.2 t (by simp [hrest]))

/-- Going on from related states. -/
theorem of_reaches (h : w.Holds s s') (hr : s.Reaches s₁)
    (hbefore : s₁'.before = s₁.before ++ w.front) (hrest : s₁'.rest = s₁.rest ++ w.behind)
    (hdepth : s₁'.depth = s₁.depth)
    (herrors : s₁'.errors = w.errors ++ s₁.errors.map (.cutBy w.behind)) : w.Holds s₁ s₁' := by
  refine ⟨hbefore, hrest, hdepth, herrors, h.cut.imp_right fun hcut => ⟨hcut.1, fun t ht => ?_⟩⟩
  obtain ⟨ts, hpasses, -⟩ := hr.passes
  exact hcut.2 t (hpasses.rest ▸ List.mem_append_right ts ht)

theorem record (h : w.Holds s s') (he : e' = e.cutBy w.behind) :
    w.Holds (s.record e) (s'.record e') := by
  refine h.of_reaches (.record s e) h.before h.rest h.depth ?_
  simp [ParserState.record, h.errors, he]

end Holds

namespace Embeds

theorem of_reaches (h : w.Embeds s s') (hr : s.Reaches s₁) (hs₁ : w.Holds s₁ s₁') :
    w.Embeds s₁ s₁' := by
  refine ⟨hs₁, ?_⟩
  obtain ⟨ts, hpasses, -⟩ := hr.passes
  rw [hpasses.before]
  exact List.append_ne_nil_of_right_ne_nil _ h.started

theorem front (h : w.Embeds s s') : Front w.behind s.peek s'.peek := by
  by_cases hs : s.rest = []
  · cases hb : w.behind with
    | nil =>
      have hpeek : s'.peek = s.peek := by
        obtain ⟨t, ts, hbefore⟩ := List.exists_cons_of_ne_nil h.started
        simp [Cursor.peek, Cursor.implicitEof, h.rest, h.before, hs, hb, hbefore]
      rw [hpeek]
      exact .same (.inl rfl)
    | cons b bs =>
      have hfunc : b.kind = .funcWord := by
        rcases h.cut with hnil | hcut
        · rw [hb] at hnil
          cases hnil
        · simpa [hb] using hcut.1
      have hpeek : s'.peek = b := by simp [Cursor.peek, h.rest, hs, hb]
      rw [hpeek]
      exact .cut (by rw [Cursor.kind_peek, hs]; rfl) hfunc rfl
  · exact h.toHolds.front_of_ne hs

theorem previous (h : w.Embeds s s') : s'.previous = s.previous := by
  obtain ⟨t, ts, hbefore⟩ := List.exists_cons_of_ne_nil h.started
  simp [Cursor.previous, h.before, hbefore]

end Embeds

namespace Front

variable {behind : List Token} {t t' : Token}

/-- A kind that is neither the end of input nor the start of a function is there or not there in
both. -/
theorem kind_eq_iff (h : Front behind t t') (hk : k ≠ .eof) (hk' : k ≠ .funcWord) :
    t'.kind = k ↔ t.kind = k := by
  cases h with
  | same => rfl
  | cut ht hb =>
    rw [ht, hb]
    exact ⟨fun h => absurd h.symm hk', fun h => absurd h.symm hk⟩

theorem eq_of_ne (h : Front behind t t') (ht : t.kind ≠ .eof) : t' = t := by
  cases h with
  | same => rfl
  | cut heof => exact absurd heof ht

theorem kind_of_eof (h : Front behind t t') (ht : t.kind = .eof) :
    t'.kind = .eof ∨ t'.kind = .funcWord := by
  cases h with
  | same => exact .inl ht
  | cut _ hb => exact .inr hb

theorem precedence_eq (h : Front behind t t') : t'.kind.precedence = t.kind.precedence := by
  cases h with
  | same => rfl
  | cut ht hb =>
    rw [ht, hb]
    rfl

/-- Errors that blame them, for the same reason unless an expression should have started here. -/
theorem cutBy_eq (h : Front behind t t') (c : SyntaxError.Cause) (hc : c.beforeFunction = c) :
    (⟨c, t⟩ : SyntaxError).cutBy behind = ⟨c, t'⟩ := by
  cases h with
  | same h =>
    rcases h with rfl | h
    · rfl
    · exact SyntaxError.cutBy_of_ne h behind
  | cut ht hb h =>
    subst h
    simp [SyntaxError.cutBy, ht, hc]

end Front

/-! ## Moving -/

/-- Skipping stops in front of the function behind as it stops at the end. -/
theorem skipStatement_append {front behind : List Token}
    (hb : behind = [] ∨ nextKind behind = .funcWord) (before rest : List Token) :
    Cursor.skipStatement (before ++ front) (rest ++ behind) =
      ⟨(Cursor.skipStatement before rest).before ++ front,
        (Cursor.skipStatement before rest).rest ++ behind⟩ := by
  induction rest generalizing before with
  | nil =>
    cases behind with
    | nil => rfl
    | cons b bs =>
      have hb : b.kind = .funcWord := by simpa using hb
      have hresume : TokenKind.isResumePoint .funcWord := by decide
      simp [Cursor.skipStatement, hb, hresume]
  | cons t ts ih =>
    simp only [List.cons_append, Cursor.skipStatement]
    split
    · rfl
    · split
      · rfl
      · exact ih (t :: before)

theorem skipFunction_append {front behind : List Token}
    (hb : behind = [] ∨ nextKind behind = .funcWord) (before rest : List Token) :
    Cursor.skipFunction (before ++ front) (rest ++ behind) =
      ⟨(Cursor.skipFunction before rest).before ++ front,
        (Cursor.skipFunction before rest).rest ++ behind⟩ := by
  induction rest generalizing before with
  | nil =>
    cases behind with
    | nil => rfl
    | cons b bs =>
      have hb : b.kind = .funcWord := by simpa using hb
      simp [Cursor.skipFunction, hb]
  | cons t ts ih =>
    simp only [List.cons_append, Cursor.skipFunction]
    split
    · rfl
    · exact ih (t :: before)

theorem Holds.cut_behind (h : w.Holds s s') : w.behind = [] ∨ nextKind w.behind = .funcWord :=
  h.cut.imp_right And.left

theorem Holds.advance (h : w.Holds s s') (hs : nextKind s.rest ≠ .eof) :
    w.Holds (s.move .advance) (s'.move .advance) := by
  obtain ⟨t, r, hrest, hkind⟩ := exists_cons_of_nextKind rfl hs
  have ht : t.kind ≠ .eof := hkind ▸ hs
  refine h.of_reaches (.advance s) ?_ ?_ h.depth h.errors <;>
    simp [ParserState.move, Cursor.advance, h.rest, h.before, hrest, ht]

/-- Blocks end in both or in neither. -/
theorem Holds.atBlockBoundary (h : w.Holds s s') :
    s'.atBlockBoundary = s.atBlockBoundary := by
  rw [Bool.eq_iff_iff, Cursor.atBlockBoundary_iff, Cursor.atBlockBoundary_iff, h.rest]
  cases s.rest with
  | nil => rcases h.cut_behind with hb | hb <;> simp [hb, TokenKind.blockBoundaries]
  | cons t r => rfl

theorem Holds.resume (h : w.Holds s s') (start : Nat) :
    w.Holds (s.move (.resume start)) (s'.move (.resume (start + w.front.length))) := by
  have hskip : s'.synchronize =
      ⟨s.synchronize.before ++ w.front, s.synchronize.rest ++ w.behind⟩ := by
    simp only [Cursor.synchronize, h.before, h.rest]
    exact skipStatement_append h.cut_behind _ _
  have hsync : w.Holds (s.move .synchronize) (s'.move .synchronize) := by
    refine h.of_reaches (.skipStatement ..) ?_ ?_ h.depth h.errors <;>
      simp [ParserState.move, hskip]
  have hboundary : s'.synchronize.atBlockBoundary = s.synchronize.atBlockBoundary :=
    hsync.atBlockBoundary
  have hposition : s'.synchronize.position = s.synchronize.position + w.front.length :=
    hsync.position
  simp only [ParserState.move, Cursor.resume, hboundary, hposition, Nat.add_right_cancel_iff]
  split
  · next hmove =>
    refine hsync.advance fun heof => ?_
    have hend : ¬ s.synchronize.atBlockBoundary = true := by simpa using hmove.2
    refine hend ((Cursor.atBlockBoundary_iff _).mpr ?_)
    rw [show nextKind s.synchronize.rest = .eof from heof]
    decide
  · exact hsync

theorem Holds.resumeAtFunction (h : w.Holds s s') (start : Nat)
    (hs : s.position = start → nextKind s.rest ≠ .eof) :
    w.Holds (s.move (.resumeAtFunction start))
      (s'.move (.resumeAtFunction (start + w.front.length))) := by
  have skip {s s' : ParserState} (h : w.Holds s s') :
      w.Holds (s.move fun c => .skipFunction c.before c.rest)
        (s'.move fun c => .skipFunction c.before c.rest) := by
    refine h.of_reaches (.skipFunction ..) ?_ ?_ h.depth h.errors <;>
      simp [ParserState.move, h.before, h.rest, skipFunction_append h.cut_behind]
  have hposition := h.position
  simp only [ParserState.move, Cursor.resumeAtFunction, hposition, Nat.add_right_cancel_iff]
  split
  · next hstart => exact skip (h.advance (hs hstart))
  · exact skip h

/-! ## Parsers -/

/-- The same result, or the same failure, in related states. -/
def Agree (w : Surroundings) {α : Type} :
    EStateM.Result SyntaxError ParserState α → EStateM.Result SyntaxError ParserState α → Prop
  | .ok a s, .ok a' s' => a' = a ∧ w.Embeds s s'
  | .error e s, .error e' s' => e' = e.cutBy w.behind ∧ w.Embeds s s'
  | _, _ => False

end Surroundings

namespace Parser

open ParserState Surroundings

variable {w : Surroundings} {s s' : ParserState} {α β : Type} {x x' : Parser α}
  {f f' : α → Parser β}

theorem agree_pure (h : w.Embeds s s') (a : α) :
    w.Agree ((pure a : Parser α) s) ((pure a : Parser α) s') :=
  ⟨rfl, h⟩

theorem agree_throw (h : w.Embeds s s') (he : e.cutBy w.behind = e') :
    w.Agree ((throw e : Parser α) s) ((throw e' : Parser α) s') :=
  ⟨he.symm, h⟩

end Parser

theorem Surroundings.Agree.bind {w : Surroundings} {α β : Type} {x x' : Parser α}
    {f f' : α → Parser β} (hx : w.Agree (x s) (x' s'))
    (hf : ∀ {a s₁ s₁'}, x s = .ok a s₁ → w.Embeds s₁ s₁' → w.Agree (f a s₁) (f' a s₁')) :
    w.Agree ((x >>= f) s) ((x' >>= f') s') := by
  simp only [Bind.bind, EStateM.bind]
  cases h : x s with
  | ok a s₁ =>
    cases h' : x' s' with
    | ok a' s₁' =>
      rw [h, h'] at hx
      obtain ⟨rfl, hs₁⟩ := hx
      exact hf h hs₁
    | error e' s₁' =>
      rw [h, h'] at hx
      exact hx.elim
  | error e s₁ =>
    cases h' : x' s' with
    | ok a' s₁' =>
      rw [h, h'] at hx
      exact hx.elim
    | error e' s₁' =>
      rw [h, h'] at hx
      exact hx

theorem Surroundings.Agree.map {w : Surroundings} {α β : Type} {x x' : Parser α} {g : α → β}
    (hx : w.Agree (x s) (x' s')) : w.Agree ((g <$> x) s) ((g <$> x') s') := by
  rw [← bind_pure_comp, ← bind_pure_comp]
  exact hx.bind fun _ h => Parser.agree_pure h _

namespace Parser

open ParserState Surroundings

variable {w : Surroundings} {s s' : ParserState} {α β : Type} {x x' : Parser α}
  {f f' : α → Parser β}

theorem agree_visit (h : w.Embeds s s') (production : Production) :
    w.Agree (visit production s) (visit production s') :=
  ⟨rfl, h.of_reaches (.visit ..)
    (h.toHolds.of_reaches (.visit ..) h.before h.rest h.depth h.errors)⟩

theorem agree_record (h : w.Embeds s s') (he : e.cutBy w.behind = e') :
    w.Agree (record e s) (record e' s') :=
  ⟨rfl, h.of_reaches (.record ..) (h.record he.symm)⟩

theorem agree_advance (h : w.Embeds s s') (hs : s.peek.kind ≠ .eof) :
    w.Agree (advance s) (advance s') := by
  rw [Cursor.kind_peek] at hs
  have hmove : w.Embeds (s.move .advance) (s'.move .advance) :=
    h.of_reaches (.advance s) (h.toHolds.advance hs)
  exact ⟨hmove.previous, hmove⟩

theorem check_eq_of_embeds (h : w.Embeds s s') (hk : k ≠ .eof) (hk' : k ≠ .funcWord) :
    s'.check k = s.check k := by
  rw [Bool.eq_iff_iff]
  simpa [Cursor.check] using h.front.kind_eq_iff hk hk'

theorem agree_consume (h : w.Embeds s s') (hk : k ≠ .eof) (hk' : k ≠ .funcWord) :
    w.Agree (consume k s) (consume k s') := by
  rw [consume_run, consume_run, check_eq_of_embeds h hk hk']
  split
  · next hcheck =>
    rw [← advance_run, ← advance_run]
    refine agree_advance h fun heof => hk ?_
    rw [← heof]
    exact (of_decide_eq_true hcheck).symm
  · exact agree_throw h (h.front.cutBy_eq _ rfl)

theorem agree_check_bind {f f' : Bool → Parser β} (h : w.Embeds s s') (hk : k ≠ .eof)
    (hk' : k ≠ .funcWord) (hf : ∀ b, s.check k = b → w.Agree (f b s) (f' b s')) :
    w.Agree ((check k >>= f) s) ((check k >>= f') s') := by
  have hcheck : check k s' = .ok (s.check k) s' := by rw [check_run, check_eq_of_embeds h hk hk']
  simp only [bind, EStateM.bind, check_run, check_eq_of_embeds h hk hk']
  exact hf _ rfl

theorem agree_accept (h : w.Embeds s s') (hk : k ≠ .eof) (hk' : k ≠ .funcWord) :
    w.Agree (accept k s) (accept k s') := by
  refine agree_check_bind h hk hk' fun b hb => ?_
  cases b with
  | false => exact agree_pure h false
  | true =>
    refine (agree_advance h fun heof => hk ?_).bind fun _ h => agree_pure h true
    rw [← heof]
    exact (of_decide_eq_true hb).symm

theorem agree_closeParen (h : w.Embeds s s') : w.Agree (closeParen s) (closeParen s') := by
  have hconsume := agree_consume (k := .rightParen) h (by decide) (by decide)
  have hfront := h.front
  rw [closeParen_run, closeParen_run]
  by_cases heof : s.check .eof = true
  · have hkind : s.peek.kind = .eof := of_decide_eq_true heof
    rw [if_pos heof]
    generalize hpeek' : s'.peek = t' at hfront
    generalize hpeek : s.peek = t at hfront hkind
    cases hfront with
    | same hsame =>
      have hb : w.behind = [] := hsame.resolve_right fun hne => hne hkind
      rw [if_pos (by simp [Cursor.check, hpeek', hkind])]
      exact ⟨by simp [hb], h⟩
    | cut _ hb hbehind =>
      rw [if_neg (by simp [Cursor.check, hpeek', hb]), consume_run,
        if_neg (by simp [Cursor.check, hpeek', hb])]
      refine ⟨?_, h⟩
      rw [hpeek', hbehind]
      simp [SyntaxError.cutBy, hkind, SyntaxError.Cause.beforeFunction]
  · rw [if_neg heof]
    generalize hpeek' : s'.peek = t' at hfront
    generalize hpeek : s.peek = t at hfront
    have hkind : t.kind ≠ .eof := by simpa [Cursor.check, hpeek] using heof
    cases hfront with
    | same => rwa [if_neg (by simp [Cursor.check, hpeek', hkind])]
    | cut ht => exact absurd ht hkind

theorem agree_peek_bind {f f' : Token → Parser β} (h : w.Embeds s s')
    (hf : Front w.behind s.peek s'.peek → w.Agree (f s.peek s) (f' s'.peek s')) :
    w.Agree ((peek >>= f) s) ((peek >>= f') s') :=
  hf h.front

theorem agree_cursor_bind {f f' : Cursor → Parser β}
    (hf : w.Agree (f s.toCursor s) (f' s'.toCursor s')) :
    w.Agree ((cursor >>= f) s) ((cursor >>= f') s') :=
  hf

theorem agree_typeName (h : w.Embeds s s') : w.Agree (typeName s) (typeName s') := by
  refine agree_peek_bind h fun hfront => ?_
  by_cases ht : s.peek.kind ∈ TokenKind.typeStarts
  · have hne : s.peek.kind ≠ .eof := fun heof => absurd (heof ▸ ht) (by decide)
    rw [hfront.eq_of_ne hne, if_pos ht]
    exact (agree_advance h hne).bind fun _ h => agree_pure h _
  · have ht' : s'.peek.kind ∉ TokenKind.typeStarts := by
      simpa [TokenKind.typeStarts, hfront.kind_eq_iff] using ht
    rw [if_neg ht, if_neg ht']
    exact agree_throw h (hfront.cutBy_eq _ rfl)

theorem agree_spanFrom (h : w.Embeds s s') (start : Location) :
    w.Agree (spanFrom start s) (spanFrom start s') :=
  ⟨by rw [h.previous], h⟩

theorem agree_nested (hx : ∀ {s s'}, w.Embeds s s' → w.Agree (x s) (x s')) (h : w.Embeds s s') :
    w.Agree (nested x s) (nested x s') := by
  have leveled {s s' : ParserState} (h : w.Embeds s s') (g : Nat → Nat) :
      w.Embeds { s with depth := g s.depth } { s' with depth := g s'.depth } :=
    ⟨⟨h.before, h.rest, congrArg g h.depth, h.errors, h.cut⟩, h.started⟩
  have hrun := hx (leveled h (· + 1))
  simp only [nested]
  revert hrun
  cases x { s with depth := s.depth + 1 } <;> cases x { s' with depth := s'.depth + 1 }
  · exact fun hrun => ⟨hrun.1, leveled hrun.2 (· - 1)⟩
  · exact False.elim
  · exact False.elim
  · exact fun hrun => ⟨hrun.1, leveled hrun.2 (· - 1)⟩

/-! ## Items -/

theorem moreItems_stop (hs : nextKind s.rest ≠ .comma) (n : Nat) :
    moreItems x n s = .ok [] s := by
  cases n with
  | zero => rfl
  | succ n =>
    simp only [moreItems, bind, EStateM.bind, accept_run, if_neg hs]
    rfl

/-- Neither the end nor the function behind it starts with anything else. -/
theorem nextKind_of_nil (h : w.Embeds s s') (hs : s.rest = []) :
    nextKind s'.rest = .eof ∨ nextKind s'.rest = .funcWord := by
  rw [h.rest, hs, List.nil_append]
  exact h.cut_behind.imp_left fun hb => by rw [hb]; rfl

section
variable (hsteady : x.Steady) (hx : ∀ {s s'}, w.Embeds s s' → w.Agree (x s) (x s'))
include hsteady hx

/-- The numbers of rounds may differ, if both are enough. -/
theorem agree_moreItems (h : w.Embeds s s') (hn : s.rest.length ≤ n) (hn' : s.rest.length ≤ n') :
    w.Agree (moreItems x n s) (moreItems x n' s') := by
  induction n generalizing n' s s' with
  | zero =>
    have hs := List.eq_nil_of_length_eq_zero (Nat.le_zero.mp hn)
    have hs' : nextKind s'.rest ≠ .comma := by rcases nextKind_of_nil h hs with h | h <;> simp [h]
    rw [moreItems_stop hs']
    exact agree_pure h []
  | succ n ih =>
    cases n' with
    | zero =>
      have hs := List.eq_nil_of_length_eq_zero (Nat.le_zero.mp hn')
      rw [moreItems_stop (by simp [hs])]
      exact agree_pure h []
    | succ n' =>
      refine (agree_accept h (by decide) (by decide)).bind fun {b s₁ s₁'} hok h₁ => ?_
      cases b with
      | false => exact agree_pure h₁ []
      | true =>
        obtain ⟨t, hok⟩ := accept_eq_true.mp hok
        have hlen := congrArg List.length (eq_of_consume (by decide) hok).2.rest
        refine (hx h₁).bind fun hok₂ h₂ => ?_
        have hle := (hsteady.ok hok₂).length_le
        simp only [List.length_append, List.length_singleton] at hlen
        exact (ih h₂ (by omega) (by omega)).bind fun _ h₃ => agree_pure h₃ _

theorem agree_items (h : w.Embeds s s') : w.Agree (items x s) (items x s') := by
  refine agree_check_bind h (by decide) (by decide) fun b _ => ?_
  cases b with
  | true => exact agree_pure h []
  | false =>
    refine (hx h).bind fun {a s₁ s₁'} _ h₁ => ?_
    refine (agree_moreItems hsteady hx h₁ (Nat.le_refl _) ?_).bind fun _ h₂ => agree_pure h₂ _
    simp [h₁.rest]

end

/-! ## Expressions -/

theorem cutBy_noExpression {behind : List Token} {t t' : Token} (h : Front behind t t') :
    (noExpression t).cutBy behind = noExpression t' := by
  cases h with
  | same h =>
    rcases h with rfl | h
    · rfl
    · exact SyntaxError.cutBy_of_ne (by rwa [found_noExpression]) behind
  | cut ht hb h =>
    subst h
    simp [noExpression, SyntaxError.cutBy, SyntaxError.Cause.beforeFunction, ht, hb]

section
variable {sub : Precedence → Parser Expr} (hsteady : ∀ p, (sub p).Steady)
variable (hsub : ∀ {p s s'}, p ≠ .none → w.Embeds s s' → w.Agree (sub p s) (sub p s'))
include hsub

theorem agree_wholeExpression (hp : p ≠ .none) (h : w.Embeds s s') :
    w.Agree (wholeExpression sub p s) (wholeExpression sub p s') :=
  (agree_visit h _).bind fun _ h => hsub hp h

include hsteady

theorem agree_callOf (name : Token) (h : w.Embeds s s') (hs : s.peek.kind = .leftParen) :
    w.Agree (callOf sub name s) (callOf sub name s') := by
  refine (agree_visit h _).bind fun {_ s₁ s₁'} hok h => ?_
  have hs₁ : s₁.peek.kind ≠ .eof := by
    cases hok
    rw [show (s.visit .call).peek.kind = .leftParen from hs]
    decide
  exact (agree_advance h hs₁).bind fun _ h =>
    (agree_items (steady_wholeExpression hsteady .or)
      (fun h => agree_wholeExpression hsub (by decide) h) h).bind fun _ h =>
      (agree_closeParen h).bind fun _ h => agree_pure h _

theorem agree_operand (h : w.Embeds s s') : w.Agree (operand sub s) (operand sub s') := by
  refine agree_peek_bind h fun hfront => ?_
  by_cases heof : s.peek.kind = .eof
  · have hthrow : w.Agree ((throw (noExpression s.peek) : Parser Expr) s)
        ((throw (noExpression s'.peek) : Parser Expr) s') :=
      agree_throw h (cutBy_noExpression hfront)
    rcases hfront.kind_of_eof heof with hkind | hkind <;> simpa only [heof, hkind] using hthrow
  · rw [hfront.eq_of_ne heof]
    have taken : w.Agree (advance s) (advance s') := agree_advance h heof
    generalize hk : s.peek.kind = k
    split
    · exact taken.bind fun _ h => agree_pure h _
    · exact taken.bind fun _ h => agree_pure h _
    · exact taken.bind fun _ h => agree_pure h _
    · refine taken.bind fun _ h => agree_check_bind h (by decide) (by decide) fun b hb => ?_
      cases b with
      | true => exact agree_callOf hsteady hsub _ h (of_decide_eq_true hb)
      | false => exact agree_pure h _
    · exact taken.bind fun _ h => (hsub (by decide) h).bind fun _ h => agree_pure h _
    · exact taken.bind fun _ h => (hsub (by decide) h).bind fun _ h => agree_pure h _
    · exact taken.bind fun _ h => (agree_wholeExpression hsub (by decide) h).bind fun _ h =>
        (agree_closeParen h).bind fun _ h => agree_pure h _
    · exact agree_throw h (cutBy_noExpression (.same (.inr heof)))

theorem agree_operators (hp : least ≠ .none) (left : Expr) (h : w.Embeds s s')
    (hn : s.rest.length < n) (hn' : s.rest.length < n') :
    w.Agree (operators sub least n left s) (operators sub least n' left s') := by
  induction n generalizing n' left s s' with
  | zero => omega
  | succ n ih =>
    obtain ⟨n', rfl⟩ : ∃ k, n' = k + 1 := Nat.exists_eq_succ_of_ne_zero (by omega)
    refine agree_peek_bind h fun hfront => ?_
    rw [hfront.precedence_eq]
    split
    · next hle =>
      rw [Cursor.kind_peek] at hle
      obtain ⟨t, r, hrest, ht, -⟩ := exists_cons_of_le hp hle
      have hpeek : s.peek.kind ≠ .eof := by rwa [Cursor.kind_peek, hrest]
      refine (agree_advance h hpeek).bind fun hok₁ h₁ => ?_
      refine (hsub (Precedence.tighter_ne_none _) h₁).bind fun hok₂ h₂ => ?_
      obtain ⟨s₁, hadv, htakes⟩ := advance_cons hrest ht
      cases hadv.symm.trans hok₁
      have hlen := congrArg List.length htakes.rest
      have hle := ((hsteady _).ok hok₂).length_le
      simp only [List.length_append, List.length_singleton] at hlen
      exact ih _ h₂ (by omega) (by omega)
    · exact agree_pure h left

theorem agree_spine (hp : least ≠ .none) (h : w.Embeds s s') :
    w.Agree (spine sub least s) (spine sub least s') := by
  refine (agree_operand hsteady hsub h).bind fun {left s₁ s₁'} _ h₁ => ?_
  refine agree_operators hsteady hsub hp left h₁ (Nat.lt_succ_self _) (Nat.lt_succ_of_le ?_)
  simp [h₁.rest]

end

theorem agree_climb (m : Nat) (hp : p ≠ .none) (h : w.Embeds s s') :
    w.Agree (climb m p s) (climb m p s') := by
  induction m generalizing p s s' with
  | zero =>
    refine agree_peek_bind h fun hfront => ?_
    by_cases hk : s.peek.kind ∈ TokenKind.expressionStarts
    · have hne : s.peek.kind ≠ .eof := fun heof => absurd (heof ▸ hk) (by decide)
      rw [hfront.eq_of_ne hne, if_pos hk]
      exact agree_throw h (SyntaxError.cutBy_of_ne hne _)
    · have hk' : s'.peek.kind ∉ TokenKind.expressionStarts := by
        simpa [TokenKind.expressionStarts, hfront.kind_eq_iff] using hk
      rw [if_neg hk, if_neg hk']
      exact agree_throw h (cutBy_noExpression hfront)
  | succ m ih => exact agree_nested (agree_spine (steady_climb m) ih hp) h

theorem agree_expression (room : Nat) (h : w.Embeds s s') :
    w.Agree (expression room s) (expression room s') := by
  have hlevels : maxExpressionDepth - s'.depth = maxExpressionDepth - s.depth := by rw [h.depth]
  have hrun (s : ParserState) : expression room s =
      wholeExpression (climb (min room (maxExpressionDepth - s.depth))) .or s := rfl
  rw [hrun, hrun, hlevels]
  exact agree_wholeExpression (agree_climb _) (by decide) h

/-! ## Statements -/

theorem agree_letStatement (room : Nat) (h : w.Embeds s s') :
    w.Agree (letStatement room s) (letStatement room s') :=
  (agree_visit h _).bind fun _ h => (agree_consume h (by decide) (by decide)).bind fun _ h =>
    (agree_consume h (by decide) (by decide)).bind fun _ h =>
    (agree_consume h (by decide) (by decide)).bind fun _ h => (agree_typeName h).bind fun _ h =>
    (agree_consume h (by decide) (by decide)).bind fun _ h =>
    (agree_expression room h).bind fun _ h =>
    (agree_consume h (by decide) (by decide)).bind fun _ h => (agree_spanFrom h _).bind fun _ h =>
    agree_pure h _

theorem agree_assignment (room : Nat) (h : w.Embeds s s') :
    w.Agree (assignment room s) (assignment room s') :=
  (agree_visit h _).bind fun _ h => (agree_consume h (by decide) (by decide)).bind fun _ h =>
    (agree_consume h (by decide) (by decide)).bind fun _ h =>
    (agree_expression room h).bind fun _ h =>
    (agree_consume h (by decide) (by decide)).bind fun _ h => (agree_spanFrom h _).bind fun _ h =>
    agree_pure h _

theorem agree_returnStatement (room : Nat) (h : w.Embeds s s') :
    w.Agree (returnStatement room s) (returnStatement room s') := by
  have ending {s s' : ParserState} (h : w.Embeds s s') (start : Location) (value : Option Expr) :
      w.Agree ((do
        let _ ← consume .semicolon
        return Stmt.ret value (← spanFrom start) : Parser Stmt) s) ((do
        let _ ← consume .semicolon
        return Stmt.ret value (← spanFrom start) : Parser Stmt) s') :=
    (agree_consume h (by decide) (by decide)).bind fun _ h => (agree_spanFrom h _).bind fun _ h =>
      agree_pure h _
  refine (agree_visit h _).bind fun _ h => (agree_consume h (by decide) (by decide)).bind fun _ h =>
    agree_check_bind h (by decide) (by decide) fun b _ => ?_
  cases b with
  | true => exact (agree_pure h none).bind fun _ h => ending h _ _
  | false => exact (agree_expression room h).map.bind fun _ h => ending h _ _

theorem agree_printStatement (room : Nat) (h : w.Embeds s s') :
    w.Agree (printStatement room s) (printStatement room s') :=
  (agree_visit h _).bind fun _ h => (agree_consume h (by decide) (by decide)).bind fun _ h =>
    (agree_expression room h).bind fun _ h =>
    (agree_consume h (by decide) (by decide)).bind fun _ h =>
    (agree_spanFrom h _).bind fun _ h => agree_pure h _

theorem agree_expressionStatement (room : Nat) (h : w.Embeds s s') :
    w.Agree (expressionStatement room s) (expressionStatement room s') :=
  (agree_visit h _).bind fun _ h => (agree_expression room h).bind fun _ h =>
    (agree_consume h (by decide) (by decide)).bind fun _ h => (agree_spanFrom h _).bind fun _ h =>
    agree_pure h _

section
variable {b : Parser Block} (hb : ∀ {s s'}, w.Embeds s s' → w.Agree (b s) (b s'))
include hb

theorem agree_whileStatement (room : Nat) (h : w.Embeds s s') :
    w.Agree (whileStatement room b s) (whileStatement room b s') :=
  (agree_visit h _).bind fun _ h => (agree_consume h (by decide) (by decide)).bind fun _ h =>
    (agree_expression room h).bind fun _ h => (hb h).bind fun _ h =>
    (agree_spanFrom h _).bind fun _ h => agree_pure h _

theorem agree_ifStatement (room : Nat) (h : w.Embeds s s') :
    w.Agree (ifStatement room b s) (ifStatement room b s') := by
  refine (agree_visit h _).bind fun _ h => (agree_consume h (by decide) (by decide)).bind fun _ h =>
    (agree_expression room h).bind fun _ h => (hb h).bind fun _ h =>
    (agree_accept h (by decide) (by decide)).bind fun {a _ _} _ h => ?_
  cases a with
  | true => exact (hb h).bind fun _ h => (agree_spanFrom h _).bind fun _ h => agree_pure h _
  | false => exact (agree_spanFrom h _).bind fun _ h => agree_pure h _

omit hb in
/-- The token behind the next one tells assignments apart in both. -/
theorem peekNext_eq_assign_iff (h : w.Embeds s s') (hs : s.rest ≠ []) :
    s'.peekNext.kind = .assign ↔ s.peekNext.kind = .assign := by
  obtain ⟨t, r, hrest⟩ := List.exists_cons_of_ne_nil hs
  rw [Cursor.kind_peekNext, Cursor.kind_peekNext, h.rest, hrest, List.cons_append, List.tail_cons,
    List.tail_cons]
  cases r with
  | nil => rcases h.cut_behind with hb | hb <;> simp [hb]
  | cons u us => rfl

theorem agree_properStatement (room : Nat) (h : w.Embeds s s') :
    w.Agree (properStatement room b s) (properStatement room b s') := by
  have hfront := h.front
  refine agree_cursor_bind ?_
  by_cases heof : s.peek.kind = .eof
  · rcases hfront.kind_of_eof heof with hkind | hkind <;>
      simpa only [heof, hkind] using agree_expressionStatement room h
  · have hnext := peekNext_eq_assign_iff h (by
      rintro hs
      rw [Cursor.kind_peek, hs] at heof
      exact heof rfl)
    rw [hfront.eq_of_ne heof]
    generalize s.peek.kind = k
    split
    · exact agree_letStatement room h
    · exact agree_ifStatement hb room h
    · exact agree_whileStatement hb room h
    · exact agree_returnStatement room h
    · exact agree_printStatement room h
    · simp only [hnext]
      split
      · exact agree_assignment room h
      · exact agree_expressionStatement room h
    · exact agree_expressionStatement room h

theorem agree_statementWith (room : Nat) (h : w.Embeds s s') :
    w.Agree (statementWith room b s) (statementWith room b s') := by
  have hrun := agree_properStatement hb room h
  simp only [statementWith, h.toHolds.position]
  revert hrun
  cases hok : properStatement room b s <;> cases properStatement room b s'
  · rintro ⟨rfl, h₁⟩
    exact ⟨rfl, h₁⟩
  · exact False.elim
  · exact False.elim
  · rintro ⟨he, h₁⟩
    exact ⟨rfl, h₁.of_reaches ((Reaches.record ..).trans (.resume ..)) ((h₁.record he).resume _)⟩

end

/-- Again both numbers of rounds have to be enough; every statement takes a token. -/
theorem agree_statements {st : Parser (Option Stmt)}
    (hst : ∀ {s s'}, w.Embeds s s' → w.Agree (st s) (st s'))
    (hlt : ∀ {s o s'}, s.atBlockBoundary = false → st s = .ok o s' →
      s'.rest.length < s.rest.length)
    (h : w.Embeds s s') (hk : s.rest.length ≤ k) (hk' : s.rest.length ≤ k') :
    w.Agree (statements st k s) (statements st k' s') := by
  induction k generalizing k' s s' with
  | zero =>
    have hs := atBlockBoundary_of_length (Nat.le_zero.mp hk)
    rw [statements_stop hs, statements_stop (h.atBlockBoundary.trans hs)]
    exact agree_pure h []
  | succ k ih =>
    cases k' with
    | zero =>
      have hs := atBlockBoundary_of_length (Nat.le_zero.mp hk')
      rw [statements_stop hs, statements_stop (h.atBlockBoundary.trans hs)]
      exact agree_pure h []
    | succ k' =>
      rw [statements_succ, statements_succ, h.atBlockBoundary]
      cases hs : s.atBlockBoundary with
      | true => exact agree_pure h []
      | false =>
        refine (hst h).bind fun hok h₁ => ?_
        have hlen := hlt hs hok
        exact (ih h₁ (by omega) (by omega)).bind fun _ h₂ => agree_pure h₂ _

theorem cutBy_noBlock {behind : List Token} {t t' : Token} (h : Front behind t t') :
    (noBlock t).cutBy behind = noBlock t' := by
  simp only [noBlock, h.kind_eq_iff (by decide : TokenKind.leftBracket ≠ .eof) (by decide)]
  split <;> exact h.cutBy_eq _ rfl

theorem agree_blockWithin (room : Nat) (h : w.Embeds s s') :
    w.Agree (blockWithin room s) (blockWithin room s') := by
  induction room generalizing s s' with
  | zero =>
    exact (agree_visit h _).bind fun _ h => agree_peek_bind h fun hfront =>
      agree_throw h (cutBy_noBlock hfront)
  | succ room ih =>
    refine (agree_visit h _).bind fun _ h =>
      (agree_consume h (by decide) (by decide)).bind fun {_ s₁ s₁'} _ h₁ => ?_
    have hlen : s₁.rest.length ≤ s₁'.rest.length := by simp [h₁.rest]
    have hbody := agree_statements (agree_statementWith ih room)
      (length_lt_of_statementWith (steady_blockWithin room) room) h₁ (Nat.le_refl _) hlen
    refine hbody.bind fun _ h₂ => agree_check_bind h₂ (by decide) (by decide) fun b hb => ?_
    cases b with
    | true =>
      refine (agree_advance h₂ ?_).bind fun _ h₃ => agree_pure h₃ _
      rw [show _ = TokenKind.rightBracket from of_decide_eq_true hb]
      decide
    | false =>
      refine agree_peek_bind h₂ fun hfront => ?_
      exact (agree_record h₂ (hfront.cutBy_eq _ rfl)).bind fun _ h₃ =>
        (agree_spanFrom h₃ _).bind fun _ h₄ => agree_pure h₄ _

/-! ## Functions -/

theorem agree_param (h : w.Embeds s s') : w.Agree (param s) (param s') :=
  (agree_visit h _).bind fun _ h => (agree_consume h (by decide) (by decide)).bind fun _ h =>
    (agree_consume h (by decide) (by decide)).bind fun _ h => (agree_typeName h).bind fun _ h =>
    agree_pure h _

/-- Behind its first token a function is read in any surroundings. -/
theorem agree_function (room : Nat) (hword : w.Agree (consume .funcWord (s.visit .function))
      (consume .funcWord (s'.visit .function))) : w.Agree (function room s) (function room s') := by
  refine hword.bind fun _ h => ?_
  exact (agree_consume h (by decide) (by decide)).bind fun _ h =>
    (agree_consume h (by decide) (by decide)).bind fun _ h =>
    (agree_items steady_param agree_param h).bind fun _ h =>
    (agree_consume h (by decide) (by decide)).bind fun _ h =>
    (agree_consume h (by decide) (by decide)).bind fun _ h => (agree_typeName h).bind fun _ h =>
    (agree_blockWithin (room + 1) h).bind fun _ h => (agree_spanFrom h _).bind fun _ h =>
    agree_pure h _

end Parser

end BracketLang
