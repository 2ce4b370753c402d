import BracketLang.Proofs.Grammar.Concatenation
import BracketLang.Proofs.Grammar.Fragments

/-! Errors come in the order of the tokens that they blame. A production that fails blames the token
in front of the cursor, and going on after the error either takes that token or stops at it. What it
can stop at starts a statement or a function, and is taken as such before anything else is blamed,
or it ends a block. So no token is blamed twice, but for the ends of the blocks that it cuts short.

The invariant is `ParserState.Orderly K`: the errors on record have places in order, and the next
token is not blamed yet unless it is of a kind in `K`. -/

namespace BracketLang

/-- The token at an index; behind the last one, the end of file that the tokens imply. -/
def tokenOrEof (tokens : List Token) (i : Nat) : Token :=
  tokens[i]?.getD (.eofAt ((tokens.getLast?.map Token.location).getD .origin))

theorem Cursor.peek_eq_tokenOrEof (c : Cursor) : c.peek = tokenOrEof c.tokens c.position := by
  obtain ⟨before, rest⟩ := c
  cases rest with
  | nil => cases before <;> simp [peek, implicitEof, tokenOrEof, tokens, position]
  | cons t r => simp [peek, tokenOrEof, tokens, position]

theorem Cursor.position_le_length (c : Cursor) : c.position ≤ c.tokens.length := by
  simp [position, tokens]

namespace TokenKind

/-- The kinds that stand in front of a function or at the end. -/
def functionBoundaries : List TokenKind := [funcWord, eof]

/-- The kinds in front of which reading goes on after an error in a statement. -/
def resumePoints : List TokenKind := statementStarts ++ blockBoundaries

theorem mem_functionBoundaries (k : TokenKind) :
    k ∈ functionBoundaries ↔ k = funcWord ∨ k = eof := by
  simp [functionBoundaries]

theorem mem_resumePoints_of_functionBoundaries : ∀ k ∈ functionBoundaries, k ∈ resumePoints := by
  decide

theorem isResumePoint_iff (k : TokenKind) : k.isResumePoint = true ↔ k ∈ resumePoints := by
  simp [isResumePoint, resumePoints]

end TokenKind

open TokenKind

/-! ## Going on -/

namespace Cursor

open ParserState

theorem length_rest_advance_le (c : Cursor) : c.advance.rest.length ≤ c.rest.length :=
  (Reaches.advance ⟨c, 0, [], []⟩).length_le

theorem length_skipFunction_le (before rest : List Token) :
    (skipFunction before rest).rest.length ≤ rest.length :=
  (Reaches.skipFunction before rest : Reaches ⟨⟨before, rest⟩, 0, [], []⟩ _).length_le

theorem length_skipStatement_lt (before : List Token) {rest : List Token}
    (h : nextKind rest ∉ resumePoints) :
    (skipStatement before rest).rest.length < rest.length := by
  cases rest with
  | nil => exact absurd (by decide) h
  | cons t r =>
    have hle : (skipStatement (t :: before) r).rest.length ≤ r.length :=
      (Reaches.skipStatement (t :: before) r : Reaches ⟨⟨t :: before, r⟩, 0, [], []⟩ _).length_le
    simp only [skipStatement, if_neg (mt (isResumePoint_iff t.kind).mp h)]
    split
    · exact Nat.lt_succ_self _
    · exact Nat.lt_succ_of_le hle

/-- Going on in a block takes a token, or stops where a statement may start or the block ends. -/
theorem length_resume_lt {c : Cursor} (h : nextKind c.rest ∉ resumePoints) (start : Nat) :
    (c.resume start).rest.length < c.rest.length := by
  refine Nat.lt_of_le_of_lt ?_ (length_skipStatement_lt c.before h)
  unfold resume
  dsimp only
  split
  · exact length_rest_advance_le _
  · exact Nat.le_refl _

theorem length_skipFunction_lt (before : List Token) {rest : List Token}
    (h : nextKind rest ∉ functionBoundaries) :
    (skipFunction before rest).rest.length < rest.length := by
  cases rest with
  | nil => exact absurd (by decide) h
  | cons t r =>
    rw [skipFunction, if_neg (mt (mem_functionBoundaries t.kind).mpr h)]
    exact Nat.lt_succ_of_le (length_skipFunction_le (t :: before) r)

/-- Going on between functions takes a token, or stops in front of a function or at the end. -/
theorem length_resumeAtFunction_lt {c : Cursor} (h : nextKind c.rest ∉ functionBoundaries)
    (start : Nat) : (c.resumeAtFunction start).rest.length < c.rest.length := by
  unfold resumeAtFunction
  dsimp only
  split
  · have hend : c.atEnd = false := by
      rw [atEnd, check_eq]
      exact decide_eq_false fun heof => h (by rw [heof]; decide)
    have hle := length_skipFunction_le c.advance.before c.advance.rest
    have hlength := length_rest_advance hend
    omega
  · exact length_skipFunction_lt c.before h

end Cursor

/-! ## States -/

/-- Of two errors, each with the index of a token, the second does not blame an earlier token, and
blames a later one unless one of the two is that a block does not end. -/
def SyntaxError.Follows (p q : SyntaxError × Nat) : Prop :=
  p.2 ≤ q.2 ∧ (¬p.1.IsUnclosed → ¬q.1.IsUnclosed → p.2 < q.2)

namespace ParserState

variable {s s' : ParserState}

/-- The errors on record, with the indices of the tokens they blame. The next token is not blamed
yet, other than for a block that does not end, unless it is of a kind in `K`. -/
structure Logs (s : ParserState) (K : List TokenKind) (log : List (SyntaxError × Nat)) :
    Prop where
  errors : log.map Prod.fst = s.errors
  ordered : log.Pairwise SyntaxError.Follows
  found : ∀ p ∈ log, p.1.found = tokenOrEof s.tokens p.2
  le : ∀ p ∈ log, p.2 ≤ s.position
  lt : nextKind s.rest ∉ K → ∀ p ∈ log, ¬p.1.IsUnclosed → p.2 < s.position

/-- The errors on record blame tokens in order, and the next token is not blamed yet unless it is of
a kind in `K`. -/
def Orderly (K : List TokenKind) (s : ParserState) : Prop := ∃ log, s.Logs K log

namespace Orderly

/-- Going on keeps the order. If no token is taken, the next token is the same. -/
theorem of_passes (h : s.Orderly K) (hts : s.Passes ts s') (he : s'.errors = s.errors)
    (hK : ts = [] → nextKind s.rest ∈ K → nextKind s.rest ∈ K') : s'.Orderly K' := by
  obtain ⟨log, h⟩ := h
  have hposition := hts.position
  refine ⟨log, h.errors.trans he.symm, h.ordered, ?_, fun p hp => ?_, fun hnext p hp hu => ?_⟩
  · rw [hts.tokens]
    exact h.found
  · exact Nat.le_trans (h.le p hp) (by omega)
  · cases ts with
    | nil =>
      have hrest : s.rest = s'.rest := hts.rest
      rw [← hrest] at hnext
      rw [hposition]
      exact h.lt (mt (hK rfl) hnext) p hp hu
    | cons t ts =>
      have hle := h.le p hp
      rw [List.length_cons] at hposition
      omega

theorem mono (h : s.Orderly K) (hK : nextKind s.rest ∈ K → nextKind s.rest ∈ K') :
    s.Orderly K' :=
  h.of_passes (.refl s) rfl fun _ => hK

theorem of_nil (h : s.Orderly []) : s.Orderly K := h.mono fun hmem => absurd hmem List.not_mem_nil

/-- Where some token is taken, the one behind it is not blamed yet. -/
theorem of_moved (h : s.Orderly K) (hts : s.Passes ts s') (he : s'.errors = s.errors)
    (hlt : s'.rest.length < s.rest.length) : s'.Orderly K' := by
  refine h.of_passes hts he ?_
  rintro rfl
  rw [hts.rest, List.nil_append] at hlt
  exact absurd hlt (Nat.lt_irrefl _)

theorem resume (h : s.Orderly K) (start : Nat) :
    (s.move (.resume start)).Orderly resumePoints := by
  obtain ⟨ts, hts, -⟩ := (Reaches.resume start s).passes
  by_cases hnext : nextKind s.rest ∈ resumePoints
  · exact h.of_passes hts rfl fun _ _ => hnext
  · exact h.of_moved hts rfl (Cursor.length_resume_lt hnext start)

theorem resumeAtFunction (h : s.Orderly K) (start : Nat) :
    (s.move (.resumeAtFunction start)).Orderly functionBoundaries := by
  obtain ⟨ts, hts, -⟩ := (Reaches.resumeAtFunction start s).passes
  by_cases hnext : nextKind s.rest ∈ functionBoundaries
  · exact h.of_passes hts rfl fun _ _ => hnext
  · exact h.of_moved hts rfl (Cursor.length_resumeAtFunction_lt hnext start)

/-- A new error that blames the next token, with what is known of the old ones. -/
theorem record_of (h : s.Orderly K) (he : e.found = s.peek)
    (hK : ¬e.IsUnclosed → nextKind s.rest ∉ K)
    (hK' : ¬e.IsUnclosed ∨ nextKind s.rest ∈ K → nextKind s.rest ∈ K') :
    (s.record e).Orderly K' := by
  obtain ⟨log, h⟩ := h
  have hfound : e.found = tokenOrEof s.tokens s.position := he.trans s.peek_eq_tokenOrEof
  refine ⟨log ++ [(e, s.position)], ?_, ?_, ?_, ?_, fun hnext => ?_⟩
  · rw [List.map_append, h.errors]
    rfl
  · refine List.pairwise_append.mpr ⟨h.ordered, List.pairwise_singleton .., fun p hp q hq => ?_⟩
    obtain rfl := List.mem_singleton.mp hq
    exact ⟨h.le p hp, fun hu hu' => h.lt (hK hu') p hp hu⟩
  · exact List.forall_mem_append.mpr ⟨h.found, List.forall_mem_singleton.mpr hfound⟩
  · exact List.forall_mem_append.mpr ⟨h.le, List.forall_mem_singleton.mpr (Nat.le_refl _)⟩
  · obtain ⟨hold, hnew⟩ := not_or.mp (mt hK' hnext)
    exact List.forall_mem_append.mpr
      ⟨h.lt hnew, List.forall_mem_singleton.mpr fun hu => absurd hu hold⟩

/-- Where the next token is not blamed yet, it can be. -/
theorem record (h : s.Orderly []) (he : e.found = s.peek) :
    (s.record e).Orderly [nextKind s.rest] :=
  h.record_of he (fun _ => List.not_mem_nil) fun _ => List.mem_singleton_self _

/-- That a block does not end can always be put on record. -/
theorem record_unclosed (h : s.Orderly K) (he : e.found = s.peek) (hu : e.IsUnclosed) :
    (s.record e).Orderly K :=
  h.record_of he (absurd hu) fun hK => hK.resolve_left (not_not_intro hu)

end Orderly

end ParserState

/-! ## Parsers -/

namespace Parser

open ParserState

variable {α β : Type} {x : Parser α} {f : α → Parser β}

/-- Whether or not a token was blamed, the one behind it is not yet. -/
theorem orderly_of_consume {s s' : ParserState} (h : s.Orderly K) (hk : k ≠ .eof)
    (hc : consume k s = .ok t s') : s'.Orderly K' := by
  have htakes := (eq_of_consume hk hc).2
  exact h.of_moved htakes.toPasses htakes.errors ((moves_consume hk).length_lt hc)

/-- From where the next token is blamed at most if it is of a kind in `K`, the parser gets to where
it is at most if it is of a kind in `K'`. If it fails, the next token is to blame and was not blamed
yet. -/
structure KeepsOrder (K K' : List TokenKind) (x : Parser α) : Prop where
  ok {s a s'} : s.Orderly K → x s = .ok a s' → s'.Orderly K'
  error {s e s'} : s.Orderly K → x s = .error e s' → s'.Orderly [] ∧ e.found = s'.peek

namespace KeepsOrder

theorem mono (hx : KeepsOrder K K' x) (hK : ∀ k ∈ L, k ∈ K) : KeepsOrder L K' x :=
  ⟨fun h => hx.ok (h.mono (hK _)), fun h => hx.error (h.mono (hK _))⟩

theorem weaken (hx : KeepsOrder K [] x) : KeepsOrder K K' x :=
  ⟨fun hs h => (hx.ok hs h).of_nil, hx.error⟩

theorem bind (hx : KeepsOrder K L x) (hf : ∀ a, KeepsOrder L K' (f a)) :
    KeepsOrder K K' (x >>= f) := by
  refine ⟨fun hs h => ?_, fun hs h => ?_⟩
  · obtain ⟨a, s₁, h₁, h₂⟩ := bind_eq_ok.mp h
    exact (hf a).ok (hx.ok hs h₁) h₂
  · rcases bind_eq_error.mp h with h | ⟨a, s₁, h₁, h₂⟩
    · exact hx.error hs h
    · exact (hf a).error (hx.ok hs h₁) h₂

theorem ite {c : Prop} [Decidable c] {x y : Parser α} (hx : c → KeepsOrder K K' x)
    (hy : ¬c → KeepsOrder K K' y) : KeepsOrder K K' (if c then x else y) := by
  split
  · exact hx ‹_›
  · exact hy ‹_›

theorem look {g : ParserState → α} : KeepsOrder K K fun s => .ok (g s) s := by
  refine ⟨fun hs h => ?_, fun _ h => ?_⟩ <;> cases h
  exact hs

theorem visit (production : Production) : KeepsOrder K K (visit production) := by
  refine ⟨fun {s _ _} hs h => ?_, fun _ h => ?_⟩ <;> cases h
  exact hs.of_passes (Takes.visit s production).toPasses rfl fun _ => id

/-- Looking at the next token, which is blamed only if it is of its own kind. -/
theorem cursor_bind {f : Cursor → Parser β}
    (hf : ∀ c L, (∀ k ∈ L, k ∈ K ∧ k = c.peek.kind) → KeepsOrder L K' (f c)) :
    KeepsOrder K K' (cursor >>= f) := by
  have hlook (s : ParserState) (hs : s.Orderly K) :
      ∃ L, s.Orderly L ∧ KeepsOrder L K' (f s.toCursor) := by
    refine ⟨K.filter (· = s.peek.kind), hs.mono fun h => ?_, hf _ _ fun k hk => by simpa using hk⟩
    rw [s.kind_peek]
    exact List.mem_filter.mpr ⟨h, decide_eq_true rfl⟩
  refine ⟨fun {s a s'} hs h => ?_, fun {s e s'} hs h => ?_⟩
  · obtain ⟨L, hL, hkeeps⟩ := hlook s hs
    exact hkeeps.ok hL h
  · obtain ⟨L, hL, hkeeps⟩ := hlook s hs
    exact hkeeps.error hL h

theorem of_blames (hx : x.Steady) (hb : ∀ s, Blames x s) : KeepsOrder [] [] x := by
  refine ⟨fun {s _ _} hs h => ?_, fun {s _ _} hs h => ?_⟩
  · obtain ⟨ts, hts, -⟩ := (hx.ok h).passes
    exact hs.of_passes hts ((hb s).ok h) fun _ => id
  · obtain ⟨⟨ts, hts, -⟩, hfound⟩ := (hb s).error h
    exact ⟨hs.of_passes hts.toPasses hts.errors fun _ => id, hfound⟩

/-- What leads with a token of a kind takes it even if it was blamed. -/
theorem of_leads (hx : x.Leads k) (hb : ∀ s, Blames x s) : KeepsOrder [k] [] x := by
  refine ⟨fun {s _ _} hs h => ?_, fun {s _ _} hs h => ?_⟩
  · obtain ⟨ts, hts, -⟩ := (hx.steady.ok h).passes
    exact hs.of_moved hts ((hb s).ok h) (hx.length_lt h)
  · obtain ⟨⟨ts, hts, -⟩, hfound⟩ := (hb s).error h
    refine ⟨?_, hfound⟩
    by_cases hk : nextKind s.rest = k
    · have hlt := hx.error_lt (by rw [Cursor.check_eq, decide_eq_true hk]) h
      exact hs.of_moved hts.toPasses hts.errors hlt
    · exact hs.of_passes hts.toPasses hts.errors fun _ hmem =>
        absurd (List.mem_singleton.mp hmem) hk

theorem consume (hk : k ≠ .eof) : KeepsOrder [k] [] (consume k) := by
  refine ⟨fun {s _ _} hs h => ?_, fun {s _ _} hs h => ?_⟩
  · exact orderly_of_consume hs hk h
  · rw [consume_run] at h
    split at h
    · cases h
    · next hcheck =>
      cases h
      rw [Cursor.check_eq, decide_eq_true_eq] at hcheck
      exact ⟨hs.mono fun hmem => absurd (List.mem_singleton.mp hmem) hcheck, rfl⟩

theorem accept_bind {f : Bool → Parser β} (hk : k ≠ .eof) (htrue : KeepsOrder [] K' (f true))
    (hfalse : KeepsOrder K K' (f false)) : KeepsOrder K K' (accept k >>= f) := by
  have htaken {s s₁ : ParserState} (hs : s.Orderly K) (hc : accept k s = .ok true s₁) :
      s₁.Orderly [] := by
    obtain ⟨t, ht⟩ := accept_eq_true.mp hc
    exact orderly_of_consume hs hk ht
  refine ⟨fun {s a s'} hs h => ?_, fun {s e s'} hs h => ?_⟩
  · obtain ⟨c, s₁, hc, h₁⟩ := bind_eq_ok.mp h
    cases c with
    | true => exact htrue.ok (htaken hs hc) h₁
    | false =>
      obtain ⟨-, rfl⟩ := accept_eq_false.mp hc
      exact hfalse.ok hs h₁
  · rcases bind_eq_error.mp h with hc | ⟨c, s₁, hc, h₁⟩
    · rw [accept_run] at hc
      split at hc <;> cases hc
    · cases c with
      | true => exact htrue.error (htaken hs hc) h₁
      | false =>
        obtain ⟨-, rfl⟩ := accept_eq_false.mp hc
        exact hfalse.error hs h₁

end KeepsOrder

/-! ## Statements -/

theorem keepsOrder_expression (room : Nat) : KeepsOrder [] [] (expression room) :=
  .of_blames (steady_expression room) fun s => (spares_expression room s).blames

section
variable {block : Parser Block} (hb : KeepsOrder [] functionBoundaries block)
include hb

theorem keepsOrder_ifStatement (room : Nat) :
    KeepsOrder [.ifWord] functionBoundaries (ifStatement room block) :=
  (KeepsOrder.visit _).bind fun _ => (KeepsOrder.consume (by decide)).bind fun _ =>
    (keepsOrder_expression room).bind fun _ => hb.bind fun _ => .accept_bind (by decide)
      (hb.bind fun _ => .look) .look

theorem keepsOrder_whileStatement (room : Nat) :
    KeepsOrder [.whileWord] functionBoundaries (whileStatement room block) :=
  (KeepsOrder.visit _).bind fun _ => (KeepsOrder.consume (by decide)).bind fun _ =>
    (keepsOrder_expression room).bind fun _ => hb.bind fun _ => .look

/-- A word that starts a statement is taken first, and nothing else was blamed before. -/
theorem keepsOrder_properStatement (room : Nat) :
    KeepsOrder statementStarts functionBoundaries (properStatement room block) := by
  refine .cursor_bind fun c L hL => ?_
  have honly (k : TokenKind) (h : c.peek.kind = k) : ∀ l ∈ L, l ∈ [k] := fun l hl =>
    List.mem_singleton.mpr ((hL l hl).2.trans h)
  have hnone (h : c.peek.kind ∉ statementStarts) : ∀ l ∈ L, l ∈ [] := fun l hl =>
    absurd ((hL l hl).2 ▸ (hL l hl).1) h
  have hexpression : KeepsOrder [] functionBoundaries (expressionStatement room) :=
    (KeepsOrder.of_blames (moves_expressionStatement room).steady
      (blames_expressionStatement room)).weaken
  split
  · next h =>
    exact (KeepsOrder.of_leads (leads_letStatement room)
      (blames_letStatement room)).weaken.mono (honly _ h)
  · next h => exact (keepsOrder_ifStatement hb room).mono (honly _ h)
  · next h => exact (keepsOrder_whileStatement hb room).mono (honly _ h)
  · next h =>
    exact (KeepsOrder.of_leads (leads_returnStatement room)
      (blames_returnStatement room)).weaken.mono (honly _ h)
  · next h =>
    exact (KeepsOrder.of_leads (leads_printStatement room)
      (blames_printStatement room)).weaken.mono (honly _ h)
  · next h =>
    have hnone := hnone (by rw [h]; decide)
    exact .ite (fun _ => (KeepsOrder.of_blames (moves_assignment room).steady
      (blames_assignment room)).weaken.mono hnone) fun _ => hexpression.mono hnone
  · exact hexpression.mono (hnone (by simp_all [statementStarts]))

theorem keepsOrder_statementWith (room : Nat) :
    KeepsOrder statementStarts resumePoints (statementWith room block) := by
  refine ⟨fun {s o s'} hs h => ?_, fun {s e s'} hs h => ?_⟩ <;> unfold statementWith at h <;>
    split at h <;> cases h
  · next hok =>
    exact ((keepsOrder_properStatement hb room).ok hs hok).mono
      (mem_resumePoints_of_functionBoundaries _)
  · next herror =>
    obtain ⟨horder, hfound⟩ := (keepsOrder_properStatement hb room).error hs herror
    exact (horder.record hfound).resume s.position

theorem keepsOrder_statements (room n : Nat) :
    KeepsOrder resumePoints resumePoints (statements (statementWith room block) n) := by
  induction n with
  | zero => exact .look
  | succ n ih =>
    refine .cursor_bind fun c L hL => .ite (fun _ => ?_) fun hgo => ?_
    · exact KeepsOrder.look.mono fun k hk => (hL k hk).1
    · have hstarts : ∀ k ∈ L, k ∈ statementStarts := by
        rw [Cursor.atBlockBoundary_iff, ← Cursor.kind_peek] at hgo
        intro k hk
        obtain ⟨hmem, rfl⟩ := hL k hk
        exact (List.mem_append.mp hmem).resolve_right hgo
      exact ((keepsOrder_statementWith hb room).mono hstarts).bind fun _ => ih.bind fun _ => .look

end

/-- With enough tokens the statements of a block end where the block does. -/
theorem statements_ends {block : Parser Block} (hb : block.Steady) {n : Nat}
    (h : statements (statementWith room block) n s = .ok ss s') (hn : s.rest.length ≤ n) :
    nextKind s'.rest ∈ blockBoundaries := by
  induction n generalizing s ss with
  | zero =>
    obtain ⟨-, rfl⟩ := pure_eq_ok.mp h
    exact (Cursor.atBlockBoundary_iff _).mp (atBlockBoundary_of_length (Nat.le_zero.mp hn))
  | succ n ih =>
    rw [statements_succ] at h
    cases hend : s.atBlockBoundary with
    | true =>
      rw [hend, if_pos rfl] at h
      obtain ⟨-, rfl⟩ := pure_eq_ok.mp h
      exact (Cursor.atBlockBoundary_iff _).mp hend
    | false =>
      rw [hend, if_neg (by decide)] at h
      obtain ⟨o, s₁, ho, h₁⟩ := bind_eq_ok.mp h
      obtain ⟨ss', s₂, hss, h₂⟩ := bind_eq_ok.mp h₁
      obtain ⟨-, rfl⟩ := pure_eq_ok.mp h₂
      have hlt := length_lt_of_statementWith hb room hend ho
      exact ih hss (by omega)

/-- A block that is cut short ends in front of a function or at the end, which may be blamed. -/
theorem keepsOrder_blockWithin (room : Nat) :
    KeepsOrder [] functionBoundaries (blockWithin room) := by
  have hvisit {s : ParserState} (hs : s.Orderly []) : (s.visit .block).Orderly [] :=
    (KeepsOrder.visit .block).ok hs rfl
  have herror {room e} {s s' : ParserState} (hs : s.Orderly [])
      (h : blockWithin room s = .error e s') : s'.Orderly [] ∧ e.found = s'.peek := by
    obtain ⟨rfl, rfl⟩ := eq_of_blockWithin_error h
    exact ⟨hvisit hs, found_noBlock _⟩
  induction room with
  | zero =>
    refine ⟨fun _ h => ?_, herror⟩
    cases h
  | succ room ih =>
    refine ⟨fun {s b s'} hs h => ?_, herror⟩
    obtain ⟨opening, body, s₁, s₂, hopening, hbody, hclose⟩ := blockWithin_cases h
    have horder := (keepsOrder_statements ih room _).ok
      (orderly_of_consume (hvisit hs) (by decide) hopening) hbody
    rcases hclose with ⟨closing, hclosing, -⟩ | ⟨hcut, rfl, -⟩
    · exact orderly_of_consume horder (by decide) hclosing
    · have hend := statements_ends (steady_blockWithin room) hbody (Nat.le_refl _)
      have hboundary : nextKind s₂.rest ∈ functionBoundaries :=
        (List.mem_cons.mp hend).resolve_left hcut
      exact (horder.mono fun _ => hboundary).record_unclosed rfl rfl

/-! ## Programs -/

theorem keepsOrder_function (room : Nat) :
    KeepsOrder [.funcWord] functionBoundaries (function room) := by
  have hconsume {k : TokenKind} (hk : k ≠ .eof) : KeepsOrder [] [] (consume k) :=
    (KeepsOrder.consume hk).mono (List.forall_mem_nil _)
  have htypeName : KeepsOrder [] [] typeName :=
    .of_blames steady_typeName fun s => (spares_typeName s).blames
  have hparam (s : ParserState) : Spares param s :=
    (Spares.visit _ _).bind fun _ => (Spares.consume (by decide) (by decide) _).bind fun _ =>
      (Spares.consume (by decide) (by decide) _).bind fun _ => (spares_typeName _).bind fun _ =>
        .pure _ _
  have hparams : KeepsOrder [] [] params :=
    .of_blames steady_param.items fun s => (Spares.items hparam s).blames
  exact (KeepsOrder.visit _).bind fun _ => (KeepsOrder.consume (by decide)).bind fun _ =>
    (hconsume (by decide)).bind fun _ => (hconsume (by decide)).bind fun _ => hparams.bind fun _ =>
      (hconsume (by decide)).bind fun _ => (hconsume (by decide)).bind fun _ =>
        htypeName.bind fun _ => (keepsOrder_blockWithin (room + 1)).bind fun _ => .look

theorem orderly_functionOrSkip (room : Nat) (h : s.Orderly functionBoundaries)
    (hs : nextKind s.rest ≠ .eof) : (functionOrSkip room s).2.Orderly functionBoundaries := by
  have hword : s.Orderly [.funcWord] := h.mono fun hmem =>
    List.mem_singleton.mpr (((mem_functionBoundaries _).mp hmem).resolve_right hs)
  unfold functionOrSkip
  split
  · next hok => exact (keepsOrder_function room).ok hword hok
  · next herror =>
    obtain ⟨horder, hfound⟩ := (keepsOrder_function room).error hword herror
    exact (horder.record hfound).resumeAtFunction s.position

theorem orderly_functions (room n : Nat) (h : s.Orderly functionBoundaries) :
    (functions room n s).2.Orderly functionBoundaries := by
  induction n generalizing s with
  | zero => exact h
  | succ n ih =>
    rw [functions_succ, atEnd_eq]
    split
    · exact h
    · next hs => exact ih (orderly_functionOrSkip room h (by simpa using hs))

end Parser

namespace Parsed

open Parser ParserState

/-- Errors come in the order of the tokens that they blame, and stand where those stand. No token is
blamed twice, other than for blocks that do not end. -/
theorem errors_in_order (stack : Nat) (tokens : List Token) : ∃ log : List (SyntaxError × Nat),
    log.map Prod.fst = (ofTokens stack tokens).state.errors ∧
    (∀ p ∈ log, p.2 ≤ tokens.length ∧ p.1.found = tokenOrEof tokens p.2 ∧
      p.1.location = (tokenOrEof tokens p.2).location) ∧
    (log.map Prod.snd).Pairwise (· ≤ ·) ∧
    ((log.filter (·.1.kindName ≠ "UNTERMINATED_BLOCK")).map Prod.snd).Pairwise (· < ·) := by
  have hstart : (ParserState.ofTokens tokens).Orderly functionBoundaries :=
    ⟨[], rfl, .nil, List.forall_mem_nil _, List.forall_mem_nil _, fun _ => List.forall_mem_nil _⟩
  obtain ⟨log, h⟩ := orderly_functions stack tokens.length hstart
  obtain ⟨ts, hts, -⟩ := (reaches_functions stack tokens.length (.ofTokens tokens)).passes
  have htokens : (functions stack tokens.length (.ofTokens tokens)).2.tokens = tokens := hts.tokens
  refine ⟨log, h.errors, fun p hp => ?_, ?_, ?_⟩
  · have hfound := h.found p hp
    rw [htokens] at hfound
    refine ⟨?_, hfound, congrArg Token.location hfound⟩
    rw [← htokens]
    exact Nat.le_trans (h.le p hp) (Cursor.position_le_length _)
  · exact List.pairwise_map.mpr (h.ordered.imp fun hpq => hpq.1)
  · refine List.pairwise_map.mpr (List.pairwise_filter.mpr (h.ordered.imp fun hpq hp hq => ?_))
    exact hpq.2 (by simpa [SyntaxError.IsUnclosed] using hp)
      (by simpa [SyntaxError.IsUnclosed] using hq)

end Parsed

end BracketLang
