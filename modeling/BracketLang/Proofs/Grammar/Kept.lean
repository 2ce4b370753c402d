import BracketLang.Proofs.Grammar.Blame
import BracketLang.Proofs.Tree.Plain

/-! What is kept of a program, whether or not there are errors in it. A statement or a function with
an error is dropped, and what stays is made of the tokens of the text: names are those of
identifiers, types those of type words, and every expression has a derivation. `Demands` asks
something of each of the three, and `Parsed.meets` says that a program meets what its tokens do. -/

namespace BracketLang

/-! ## What parsers make of tokens -/

namespace Parser

open ParserState

variable {α β : Type} {x : Parser α} {f : α → Parser β} {T : Token → Prop}

/-- All tokens of the state, taken or not, have `T`. -/
def Among (T : Token → Prop) (s : ParserState) : Prop := ∀ t ∈ s.tokens, T t

theorem Among.reaches {s s' : ParserState} (h : Among T s) (hr : s.Reaches s') : Among T s' := by
  unfold Among
  obtain ⟨ts, hpasses, -⟩ := hr.passes
  rwa [hpasses.tokens]

/-- Among tokens with `T`, the parser gives results with `P` only. -/
def Makes (T : Token → Prop) (x : Parser α) (P : α → Prop) : Prop :=
  ∀ s a s', Among T s → x s = .ok a s' → P a ∧ Among T s'

namespace Makes

variable {P P' : α → Prop} {Q : β → Prop}

theorem of_steady (hx : x.Steady) (h : ∀ s a s', Among T s → x s = .ok a s' → P a) :
    Makes T x P := by
  intro s a s' hs hok
  exact ⟨h s a s' hs hok, hs.reaches (hx.ok hok)⟩

/-- Where nothing is asked of the result. -/
theorem any (hx : x.Steady) : Makes T x fun _ => True := of_steady hx fun _ _ _ _ _ => trivial

theorem pure {a : α} (h : P a) : Makes T (pure a) P := by
  apply of_steady (steady_pure a)
  intro s b s' _ hok
  rw [← (pure_eq_ok.mp hok).1]
  exact h

theorem throw (e : SyntaxError) : Makes T (throw e) P := by
  apply of_steady (steady_throw e)
  intro s a s' _ hok
  cases hok

theorem bind (hx : Makes T x P) (hf : ∀ a, P a → Makes T (f a) Q) : Makes T (x >>= f) Q := by
  intro s b s'' hs hok
  obtain ⟨a, s', h₁, h₂⟩ := bind_eq_ok.mp hok
  obtain ⟨ha, hs'⟩ := hx s a s' hs h₁
  exact hf a ha s' b s'' hs' h₂

/-- What comes first may be of no account. -/
theorem any_bind (hx : x.Steady) (hf : ∀ a, Makes T (f a) Q) : Makes T (x >>= f) Q :=
  (any hx).bind fun a _ => hf a

theorem map {g : α → β} (hx : Makes T x P) (hg : ∀ a, P a → Q (g a)) : Makes T (g <$> x) Q := by
  intro s b s' hs hok
  simp only [Functor.map, EStateM.map] at hok
  split at hok
  · next a s₁ h₁ =>
    cases hok
    obtain ⟨ha, hs'⟩ := hx s a s' hs h₁
    exact ⟨hg a ha, hs'⟩
  · cases hok

theorem ite {c : Prop} [Decidable c] {y : Parser α} (hx : Makes T x P) (hy : Makes T y P) :
    Makes T (if c then x else y) P := by
  split
  · exact hx
  · exact hy

theorem moreItems (hx : Makes T x P) (n : Nat) :
    Makes T (moreItems x n) fun as => ∀ a ∈ as, P a := by
  induction n with
  | zero => exact pure (List.forall_mem_nil _)
  | succ n ih =>
    apply any_bind (steady_accept .comma)
    intro more
    refine ite ?_ (pure (List.forall_mem_nil _))
    apply hx.bind
    intro a ha
    apply ih.bind
    intro as has
    exact pure (List.forall_mem_cons.mpr ⟨ha, has⟩)

theorem items (hx : Makes T x P) : Makes T (items x) fun as => ∀ a ∈ as, P a := by
  apply any_bind (steady_check .rightParen)
  intro closed
  refine ite (pure (List.forall_mem_nil _)) ?_
  apply hx.bind
  intro a ha
  apply any_bind steady_remaining
  intro n
  apply (hx.moreItems n).bind
  intro as has
  exact pure (List.forall_mem_cons.mpr ⟨ha, has⟩)

end Makes

theorem makes_consume (hk : k ≠ .eof) : Makes T (consume k) fun t => T t ∧ t.kind = k := by
  apply Makes.of_steady (steady_consume k)
  intro s t s' hs hok
  obtain ⟨hkind, htakes⟩ := eq_of_consume hk hok
  refine ⟨hs t ?_, hkind⟩
  simp [Cursor.tokens, htakes.rest]

/-- A token whose result is not looked at. -/
theorem Makes.consume_bind {f : Token → Parser β} {Q : β → Prop} (k : TokenKind)
    (hf : ∀ t, Makes T (f t) Q) : Makes T (consume k >>= f) Q :=
  any_bind (steady_consume k) hf

/-! ## Statements and functions -/

/-- What tokens with `T` have to be good for. -/
structure Supplies (T : Token → Prop) (D : Demands) : Prop where
  expr {ts e} : (∀ t ∈ ts, T t) → e.bare.Derived .or maxExpressionDepth ts → D.expr e
  name {t} : T t → t.kind = .identifier → D.name t.lexeme
  type {t} : T t → t.kind ∈ TokenKind.typeStarts → ∀ span, D.type ⟨t.lexeme, span⟩

theorem makes_statements {statement : Parser (Option Stmt)}
    (hs : Makes T statement fun o => Stmt.AllMeet D o.toList) (n : Nat) :
    Makes T (statements statement n) (Stmt.AllMeet D) := by
  induction n with
  | zero => exact .pure trivial
  | succ n ih =>
    apply Makes.any_bind steady_cursor
    intro c
    refine .ite (.pure trivial) ?_
    apply hs.bind
    intro o ho
    apply ih.bind
    intro ss hss
    exact .pure (Stmt.allMeet_append ho hss)

section
variable {D : Demands} (H : Supplies T D)
include H

theorem makes_expression (room : Nat) : Makes T (expression room) D.expr := by
  apply Makes.of_steady (steady_expression room)
  intro s e s' hs hok
  obtain ⟨ts, htakes, d, hyield, htree, hlevels⟩ :=
    (reads_expression room).takes hok ((spares_expression room s).ok hok).errors
  refine H.expr (fun t ht => hs t ?_) ⟨d, hyield, htree, Nat.le_trans hlevels (Nat.min_le_right ..)⟩
  rw [Cursor.tokens, htakes.rest]
  exact List.mem_append_right _ (List.mem_append_left _ ht)

theorem makes_typeName : Makes T typeName D.type := by
  apply Makes.of_steady steady_typeName
  intro s y s' hs hok
  obtain ⟨ts, htakes, d, rfl, htree⟩ :=
    reads_typeName.takes hok ((spares_typeName s).ok hok).errors
  have hname : y.name = d.val.lexeme := congrArg TypeName.name htree.symm
  have hmem : d.val ∈ s.tokens := by simp [Cursor.tokens, htakes.rest]
  have hy := H.type (hs _ hmem) d.property y.span
  rwa [← hname] at hy

theorem makes_name : Makes T (consume .identifier) fun t => D.name t.lexeme := by
  intro s t s' hs hok
  obtain ⟨⟨ht, hkind⟩, hs'⟩ := makes_consume (by decide) s t s' hs hok
  exact ⟨H.name ht hkind, hs'⟩

theorem makes_letStatement (room : Nat) : Makes T (letStatement room) (·.Meets D) := by
  apply Makes.any_bind (steady_visit _)
  intro _
  apply Makes.consume_bind
  intro start
  apply (makes_name H).bind
  intro x hx
  apply Makes.consume_bind
  intro _
  apply (makes_typeName H).bind
  intro y hy
  apply Makes.consume_bind
  intro _
  apply (makes_expression H room).bind
  intro e he
  apply Makes.consume_bind
  intro _
  apply Makes.any_bind (steady_spanFrom _)
  intro span
  exact .pure ⟨hx, hy, he⟩

theorem makes_assignment (room : Nat) : Makes T (assignment room) (·.Meets D) := by
  apply Makes.any_bind (steady_visit _)
  intro _
  apply (makes_name H).bind
  intro x hx
  apply Makes.consume_bind
  intro _
  apply (makes_expression H room).bind
  intro e he
  apply Makes.consume_bind
  intro _
  apply Makes.any_bind (steady_spanFrom _)
  intro span
  exact .pure ⟨hx, he⟩

theorem makes_returnStatement (room : Nat) : Makes T (returnStatement room) (·.Meets D) := by
  apply Makes.any_bind (steady_visit _)
  intro _
  apply Makes.consume_bind
  intro start
  have rest (value : Option Expr) (h : ∀ span, (Stmt.ret value span).Meets D) : Makes T (do
      let _ ← consume .semicolon
      return Stmt.ret value (← spanFrom start.location)) (·.Meets D) := by
    apply Makes.consume_bind
    intro _
    apply Makes.any_bind (steady_spanFrom _)
    intro span
    exact .pure (h span)
  apply Makes.any_bind (steady_check _)
  intro bare
  split
  · exact (Makes.pure (P := (· = none)) rfl).bind fun _ h => rest _ (h ▸ fun _ => trivial)
  · exact ((makes_expression H room).map fun e he => fun _ => he).bind rest

theorem makes_printStatement (room : Nat) : Makes T (printStatement room) (·.Meets D) := by
  apply Makes.any_bind (steady_visit _)
  intro _
  apply Makes.consume_bind
  intro start
  apply (makes_expression H room).bind
  intro e he
  apply Makes.consume_bind
  intro _
  apply Makes.any_bind (steady_spanFrom _)
  intro span
  exact .pure he

theorem makes_expressionStatement (room : Nat) :
    Makes T (expressionStatement room) (·.Meets D) := by
  apply Makes.any_bind (steady_visit _)
  intro _
  apply (makes_expression H room).bind
  intro e he
  apply Makes.consume_bind
  intro _
  apply Makes.any_bind (steady_spanFrom _)
  intro span
  exact .pure he

section
variable {block : Parser Block} (hb : Makes T block fun b => Stmt.AllMeet D b.body)
include hb

theorem makes_ifStatement (room : Nat) : Makes T (ifStatement room block) (·.Meets D) := by
  apply Makes.any_bind (steady_visit _)
  intro _
  apply Makes.consume_bind
  intro start
  apply (makes_expression H room).bind
  intro c hc
  apply hb.bind
  intro b hbody
  apply Makes.any_bind (steady_accept _)
  intro other
  refine .ite ?_ ?_
  · apply hb.bind
    intro b' hbody'
    apply Makes.any_bind (steady_spanFrom _)
    intro span
    exact .pure ⟨hc, hbody, hbody'⟩
  · apply Makes.any_bind (steady_spanFrom _)
    intro span
    exact .pure ⟨hc, hbody⟩

theorem makes_whileStatement (room : Nat) : Makes T (whileStatement room block) (·.Meets D) := by
  apply Makes.any_bind (steady_visit _)
  intro _
  apply Makes.consume_bind
  intro start
  apply (makes_expression H room).bind
  intro c hc
  apply hb.bind
  intro b hbody
  apply Makes.any_bind (steady_spanFrom _)
  intro span
  exact .pure ⟨hc, hbody⟩

theorem makes_properStatement (room : Nat) : Makes T (properStatement room block) (·.Meets D) := by
  apply Makes.any_bind steady_cursor
  intro c
  split
  · exact makes_letStatement H room
  · exact makes_ifStatement H hb room
  · exact makes_whileStatement H hb room
  · exact makes_returnStatement H room
  · exact makes_printStatement H room
  · exact .ite (makes_assignment H room) (makes_expressionStatement H room)
  · exact makes_expressionStatement H room

/-- A statement with an error is dropped, and the tokens are what they were. -/
theorem makes_statementWith (hsteady : block.Steady) (room : Nat) :
    Makes T (statementWith room block) fun o => Stmt.AllMeet D o.toList := by
  intro s o s' hs hok
  have hreach := (steady_statementWith hsteady room).ok hok
  refine ⟨?_, hs.reaches hreach⟩
  unfold statementWith at hok
  split at hok
  · next h₁ =>
    cases hok
    exact ⟨(makes_properStatement H hb room s _ _ hs h₁).1, trivial⟩
  · cases hok
    trivial

end

theorem makes_blockWithin (room : Nat) :
    Makes T (blockWithin room) fun b => Stmt.AllMeet D b.body := by
  induction room with
  | zero =>
    apply Makes.any_bind (steady_visit _)
    intro _
    apply Makes.any_bind steady_peek
    intro token
    exact .throw _
  | succ room ih =>
    apply Makes.any_bind (steady_visit _)
    intro _
    apply Makes.consume_bind
    intro opening
    apply Makes.any_bind steady_remaining
    intro n
    apply (makes_statements (makes_statementWith H ih (steady_blockWithin room) room) n).bind
    intro body hbody
    apply Makes.any_bind (steady_check _)
    intro closed
    refine .ite ?_ ?_
    · exact Makes.any_bind steady_advance fun _ => .pure hbody
    · apply Makes.any_bind steady_peek
      intro found
      apply Makes.any_bind (steady_record _)
      intro _
      exact Makes.any_bind (steady_spanFrom _) fun _ => .pure hbody

theorem makes_param : Makes T param (·.Meets D) := by
  apply Makes.any_bind (steady_visit _)
  intro _
  apply (makes_name H).bind
  intro x hx
  apply Makes.consume_bind
  intro _
  apply (makes_typeName H).bind
  intro y hy
  exact .pure ⟨hx, hy⟩

theorem makes_function (room : Nat) : Makes T (function room) (·.Meets D) := by
  apply Makes.any_bind (steady_visit _)
  intro _
  apply Makes.consume_bind
  intro start
  apply (makes_name H).bind
  intro x hx
  apply Makes.consume_bind
  intro _
  apply (makes_param H).items.bind
  intro ps hps
  apply Makes.consume_bind
  intro _
  apply Makes.consume_bind
  intro _
  apply (makes_typeName H).bind
  intro y hy
  apply (makes_blockWithin H (room + 1)).bind
  intro b hb
  apply Makes.any_bind (steady_spanFrom _)
  intro span
  exact .pure ⟨hx, hps, hy, hb⟩

/-! ## Programs -/

theorem meets_functionOrSkip (room : Nat) (hs : Among T s) :
    ∀ f ∈ (functionOrSkip room s).1, f.Meets D := by
  unfold functionOrSkip
  split
  · next g s₁ h₁ =>
    intro f hf
    cases hf
    exact (makes_function H room s g s₁ hs h₁).1
  · intro f hf
    cases hf

theorem meets_functions (room n : Nat) (s : ParserState) (hs : Among T s) :
    ∀ f ∈ (functions room n s).1, f.Meets D := by
  induction n generalizing s with
  | zero => exact List.forall_mem_nil _
  | succ n ih =>
    rw [functions_succ]
    split
    · exact List.forall_mem_nil _
    · rw [List.forall_mem_append]
      refine ⟨?_, ih _ (hs.reaches (reaches_functionOrSkip room s))⟩
      intro f hf
      exact meets_functionOrSkip H room hs f (Option.mem_toList.mp hf)

end

end Parser

/-- A program is made of its tokens, with errors or without. -/
theorem Parsed.meets {T : Token → Prop} {D : Demands} (H : Parser.Supplies T D)
    (htokens : ∀ t ∈ tokens, T t) : (ofTokens stack tokens).program.Meets D :=
  Parser.meets_functions H _ _ _ htokens

end BracketLang
