import BracketLang.Proofs.Grammar.Statements

/-! Expressions and the statements without blocks put nothing on record. If they fail, the token in
front of the cursor is to blame, and no semicolon was taken yet (`Parser.Blames`): the statement is
still the one it was. -/

namespace BracketLang

namespace ParserState

/-- `s'` stands behind tokens of `s` among which there is no semicolon, and no error is new. -/
def SameStatement (s s' : ParserState) : Prop :=
  ∃ ts, s.Takes ts s' ∧ ∀ t ∈ ts, t.kind ≠ .semicolon

namespace SameStatement

variable {s s' s'' : ParserState}

theorem refl (s : ParserState) : s.SameStatement s := ⟨[], .refl s, List.forall_mem_nil _⟩

theorem trans (h : s.SameStatement s') (h' : s'.SameStatement s'') : s.SameStatement s'' := by
  obtain ⟨ts, hts, hsemi⟩ := h
  obtain ⟨us, hus, hsemi'⟩ := h'
  exact ⟨ts ++ us, hts.trans hus, List.forall_mem_append.mpr ⟨hsemi, hsemi'⟩⟩

theorem errors (h : s.SameStatement s') : s'.errors = s.errors :=
  let ⟨_, h, _⟩ := h
  h.errors

end SameStatement

end ParserState

namespace Parser

open ParserState

variable {α β : Type} {x y : Parser α} {f : α → Parser β} {s s' : ParserState}

/-- From `s` the parser puts nothing on record, and if it fails it blames the next token of the same
statement. -/
structure Blames (x : Parser α) (s : ParserState) : Prop where
  ok {a s'} : x s = .ok a s' → s'.errors = s.errors
  error {e s'} : x s = .error e s' → s.SameStatement s' ∧ e.found = s'.peek

/-- Whether or not it fails, the parser takes no semicolon. -/
structure Spares (x : Parser α) (s : ParserState) : Prop where
  ok {a s'} : x s = .ok a s' → s.SameStatement s'
  error {e s'} : x s = .error e s' → s.SameStatement s' ∧ e.found = s'.peek

theorem Spares.blames (h : Spares x s) : Blames x s := ⟨fun hok => (h.ok hok).errors, h.error⟩

namespace Blames

theorem bind (hx : Spares x s) (hf : ∀ {a s'}, x s = .ok a s' → Blames (f a) s') :
    Blames (x >>= f) s := by
  refine ⟨fun h => ?_, fun h => ?_⟩
  · obtain ⟨a, s₁, h₁, h₂⟩ := bind_eq_ok.mp h
    exact ((hf h₁).ok h₂).trans (hx.ok h₁).errors
  · rcases bind_eq_error.mp h with h | ⟨a, s₁, h₁, h₂⟩
    · exact hx.error h
    · exact ((hf h₁).error h₂).imp_left (hx.ok h₁).trans

theorem ite {c : Prop} [Decidable c] (hx : c → Blames x s) (hy : ¬c → Blames y s) :
    Blames (if c then x else y) s := by
  split
  · exact hx ‹_›
  · exact hy ‹_›

/-- Looking at the state and going on. -/
theorem look_bind {g : ParserState → α} (hf : Blames (f (g s)) s) :
    Blames ((fun s => .ok (g s) s : Parser α) >>= f) s :=
  ⟨fun h => hf.ok h, fun h => hf.error h⟩

/-- The semicolon at the end of a statement, or a token in its place. -/
theorem semicolon_spanFrom {g : Span → β} :
    Blames (do
      let _ ← consume .semicolon
      return g (← spanFrom start)) s := by
  by_cases hs : s.check .semicolon
  · refine ⟨fun h => ?_, fun h => ?_⟩ <;>
      simp only [Bind.bind, EStateM.bind, consume_run, hs, if_true] at h <;> cases h
    rfl
  · refine ⟨fun h => ?_, fun h => ?_⟩ <;>
      simp only [Bind.bind, EStateM.bind, consume_run, hs] at h <;> cases h
    exact ⟨.refl s, rfl⟩

end Blames

namespace Spares

theorem pure (a : α) (s : ParserState) : Spares (pure a) s := by
  refine ⟨fun h => ?_, nofun⟩
  obtain ⟨-, rfl⟩ := pure_eq_ok.mp h
  exact .refl _

theorem throw (h : e.found = s.peek) : Spares (throw e : Parser α) s := by
  refine ⟨nofun, ?_⟩
  rintro _ _ ⟨⟩
  exact ⟨.refl s, h⟩

theorem bind (hx : Spares x s) (hf : ∀ {a s'}, x s = .ok a s' → Spares (f a) s') :
    Spares (x >>= f) s := by
  refine ⟨fun h => ?_, (Blames.bind hx fun h => (hf h).blames).error⟩
  obtain ⟨a, s₁, h₁, h₂⟩ := bind_eq_ok.mp h
  exact (hx.ok h₁).trans ((hf h₁).ok h₂)

theorem ite {c : Prop} [Decidable c] (hx : c → Spares x s) (hy : ¬c → Spares y s) :
    Spares (if c then x else y) s := by
  split
  · exact hx ‹_›
  · exact hy ‹_›

theorem map {g : α → β} (hx : Spares x s) : Spares (g <$> x) s := by
  refine ⟨fun h => ?_, fun h => ?_⟩ <;>
    simp only [Functor.map, EStateM.map] at h <;> split at h <;> cases h
  · exact hx.ok ‹_›
  · exact hx.error ‹_›

theorem look_bind {g : ParserState → α} (hf : Spares (f (g s)) s) :
    Spares ((fun s => .ok (g s) s : Parser α) >>= f) s :=
  ⟨fun h => hf.ok h, fun h => hf.error h⟩

theorem visit (production : Production) (s : ParserState) : Spares (visit production) s := by
  refine ⟨?_, nofun⟩
  rintro _ _ ⟨⟩
  exact ⟨[], .visit .., List.forall_mem_nil _⟩

theorem advance (hs : nextKind s.rest ≠ .semicolon) (hne : nextKind s.rest ≠ .eof) :
    Spares advance s := by
  refine ⟨fun h => ?_, nofun⟩
  obtain ⟨t, r, hrest, ht⟩ := exists_cons_of_nextKind rfl hne
  rw [← ht] at hs hne
  obtain ⟨s₁, hadv, htakes⟩ := advance_cons hrest hne
  cases hadv.symm.trans h
  exact ⟨_, htakes, by simpa using hs⟩

theorem consume (hk : k ≠ .semicolon) (hne : k ≠ .eof) (s : ParserState) :
    Spares (consume k) s := by
  refine look_bind <| ite (fun h => ?_) fun _ => look_bind (throw rfl)
  rw [Cursor.check_eq, decide_eq_true_eq] at h
  exact advance (h ▸ hk) (h ▸ hne)

theorem accept (hk : k ≠ .semicolon) (hne : k ≠ .eof) (s : ParserState) :
    Spares (accept k) s := by
  refine look_bind <| ite (fun h => ?_) fun _ => pure _ _
  rw [Cursor.check_eq, decide_eq_true_eq] at h
  exact (advance (h ▸ hk) (h ▸ hne)).bind fun _ => pure _ _

theorem closeParen (s : ParserState) : Spares closeParen s :=
  look_bind <| ite (fun _ => look_bind (throw rfl)) fun _ => consume (by decide) (by decide) s

theorem nested (hx : ∀ s, Spares x s) (s : ParserState) : Spares (nested x) s := by
  have leave {s₁ : ParserState} (h : SameStatement { s with depth := s.depth + 1 } s₁) :
      s.SameStatement { s₁ with depth := s₁.depth - 1 } := by
    obtain ⟨ts, ht, hsemi⟩ := h
    exact ⟨ts, ⟨⟨ht.rest, ht.before, by simp [ht.depth]⟩, ht.errors⟩, hsemi⟩
  refine ⟨fun h => ?_, fun h => ?_⟩ <;>
    simp only [Parser.nested] at h <;> split at h <;> cases h
  · next heq => exact leave ((hx _).ok heq)
  · next heq =>
    obtain ⟨hsame, hfound⟩ := (hx _).error heq
    exact ⟨leave hsame, hfound⟩

theorem moreItems (hx : ∀ s, Spares x s) (n : Nat) (s : ParserState) :
    Spares (moreItems x n) s := by
  induction n generalizing s with
  | zero => exact pure _ _
  | succ n ih =>
    exact (accept (by decide) (by decide) _).bind fun _ => ite
      (fun _ => (hx _).bind fun _ => (ih _).bind fun _ => pure _ _) fun _ => pure _ _

theorem items (hx : ∀ s, Spares x s) (s : ParserState) : Spares (items x) s :=
  look_bind <| ite (fun _ => pure _ _) fun _ => (hx s).bind fun _ =>
    look_bind <| (moreItems hx _ _).bind fun _ => pure _ _

end Spares

/-! ## Expressions -/

section
variable {sub : Precedence → Parser Expr} (hsub : ∀ p s, p ≠ .none → Spares (sub p) s)
include hsub

theorem spares_wholeExpression (hp : p ≠ .none) (s : ParserState) :
    Spares (wholeExpression sub p) s :=
  (Spares.visit _ _).bind fun _ => hsub p _ hp

theorem spares_callOf (hs : nextKind s.rest = .leftParen) (name : Token) :
    Spares (callOf sub name) s := by
  refine (Spares.visit _ _).bind fun {_ s'} h => ?_
  cases h
  exact (Spares.advance (by simp [ParserState.visit, hs]) (by simp [ParserState.visit, hs])).bind
    fun _ => (Spares.items (spares_wholeExpression hsub (by decide)) _).bind fun _ =>
      (Spares.closeParen _).bind fun _ => .pure _ _

theorem spares_operand (s : ParserState) : Spares (operand sub) s := by
  refine .look_bind ?_
  have hadv (h : s.peek.kind ≠ .semicolon) (hne : s.peek.kind ≠ .eof) : Spares advance s := by
    rw [Cursor.kind_peek] at h hne
    exact .advance h hne
  generalize s.peek.kind = k at hadv
  split
  · exact (hadv (by decide) (by decide)).bind fun _ => .pure _ _
  · exact (hadv (by decide) (by decide)).bind fun _ => .pure _ _
  · exact (hadv (by decide) (by decide)).bind fun _ => .pure _ _
  · refine (hadv (by decide) (by decide)).bind fun _ => .look_bind <| .ite (fun h => ?_) fun _ =>
      .pure _ _
    rw [Cursor.check_eq, decide_eq_true_eq] at h
    exact spares_callOf hsub h _
  · exact (hadv (by decide) (by decide)).bind fun _ => (hsub _ _ (by decide)).bind fun _ =>
      .pure _ _
  · exact (hadv (by decide) (by decide)).bind fun _ => (hsub _ _ (by decide)).bind fun _ =>
      .pure _ _
  · exact (hadv (by decide) (by decide)).bind fun _ =>
      (spares_wholeExpression hsub (by decide) _).bind fun _ =>
        (Spares.closeParen _).bind fun _ => .pure _ _
  · exact .throw (found_noExpression _)

theorem spares_operators (hp : least ≠ .none) (n : Nat) (left : Expr) (s : ParserState) :
    Spares (operators sub least n left) s := by
  induction n generalizing left s with
  | zero => exact .pure _ _
  | succ n ih =>
    refine .look_bind <| .ite (fun h => ?_) fun _ => .pure _ _
    rw [Cursor.kind_peek] at h
    have hne {k : TokenKind} (hk : k.precedence = .none) : nextKind s.rest ≠ k := by
      rintro rfl
      rw [hk, Precedence.le_iff] at h
      exact absurd (Precedence.rank_pos hp) (Nat.not_lt.mpr h)
    exact (Spares.advance (hne rfl) (hne rfl)).bind fun _ =>
      (hsub _ _ (Precedence.tighter_ne_none _)).bind fun _ => ih _ _

theorem spares_spine (hp : p ≠ .none) (s : ParserState) : Spares (spine sub p) s :=
  (spares_operand hsub s).bind fun {left s'} _ =>
    .look_bind (g := fun s => s.rest.length) (spares_operators hsub hp _ left s')

end

theorem spares_climb (m : Nat) (hp : p ≠ .none) (s : ParserState) : Spares (climb m p) s := by
  induction m generalizing p s with
  | zero => exact .look_bind <| .ite (fun _ => .throw rfl) fun _ => .throw (found_noExpression _)
  | succ m ih => exact .nested (spares_spine (fun p s hp => ih hp s) hp) s

theorem spares_expressionAt (hp : p ≠ .none) (s : ParserState) : Spares (expressionAt p) s :=
  .look_bind <| spares_wholeExpression (fun _ s hp => spares_climb _ hp s) hp s

theorem spares_expression (room : Nat) (s : ParserState) : Spares (expression room) s :=
  .look_bind <| spares_wholeExpression (fun _ s hp => spares_climb _ hp s) (by decide) s

/-! ## Statements without blocks -/

theorem spares_typeName (s : ParserState) : Spares typeName s := by
  refine .look_bind <| .ite (fun h => ?_) fun _ => .throw rfl
  rw [Cursor.kind_peek] at h
  refine (Spares.advance ?_ ?_).bind fun _ => .pure _ _ <;>
    intro hk <;> rw [hk] at h <;> exact absurd h (by decide)

theorem blames_letStatement (room : Nat) (s : ParserState) : Blames (letStatement room) s :=
  .bind (.visit _ _) fun _ => .bind (.consume (by decide) (by decide) _) fun _ =>
    .bind (.consume (by decide) (by decide) _) fun _ =>
      .bind (.consume (by decide) (by decide) _) fun _ => .bind (spares_typeName _) fun _ =>
        .bind (.consume (by decide) (by decide) _) fun _ =>
          .bind (spares_expression room _) fun _ => .semicolon_spanFrom

theorem blames_assignment (room : Nat) (s : ParserState) : Blames (assignment room) s :=
  .bind (.visit _ _) fun _ => .bind (.consume (by decide) (by decide) _) fun _ =>
    .bind (.consume (by decide) (by decide) _) fun _ => .bind (spares_expression room _) fun _ =>
      .semicolon_spanFrom

theorem blames_returnStatement (room : Nat) (s : ParserState) : Blames (returnStatement room) s :=
  .bind (.visit _ _) fun _ => .bind (.consume (by decide) (by decide) _) fun _ =>
    .look_bind <| .ite (fun _ => .bind (.pure _ _) fun _ => .semicolon_spanFrom) fun _ =>
      .bind (spares_expression room _).map fun _ => .semicolon_spanFrom

theorem blames_printStatement (room : Nat) (s : ParserState) : Blames (printStatement room) s :=
  .bind (.visit _ _) fun _ => .bind (.consume (by decide) (by decide) _) fun _ =>
    .bind (spares_expression room _) fun _ => .semicolon_spanFrom

theorem blames_expressionStatement (room : Nat) (s : ParserState) :
    Blames (expressionStatement room) s :=
  .bind (.visit _ _) fun _ => .bind (spares_expression room _) fun _ => .semicolon_spanFrom

/-- Only `if` and `while` have blocks. -/
theorem blames_properStatement {block : Parser Block}
    (hif : nextKind s.rest = .ifWord → Blames (ifStatement room block) s)
    (hwhile : nextKind s.rest = .whileWord → Blames (whileStatement room block) s) :
    Blames (properStatement room block) s := by
  refine .look_bind ?_
  rw [← Cursor.kind_peek] at hif hwhile
  generalize s.toCursor.peek.kind = k at hif hwhile
  split
  · exact blames_letStatement room s
  · exact hif rfl
  · exact hwhile rfl
  · exact blames_returnStatement room s
  · exact blames_printStatement room s
  · exact .ite (fun _ => blames_assignment room s) fun _ => blames_expressionStatement room s
  · exact blames_expressionStatement room s

end Parser

end BracketLang
