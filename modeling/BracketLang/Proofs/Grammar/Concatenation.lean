import BracketLang.Proofs.Grammar.Lockstep
import BracketLang.Proofs.Grammar.Programs

/-! A syntax error never crosses the start of a function. Tokens behind which a function starts are
read as they are read alone, and so are the tokens from there on: the functions of the whole are
those of the two parts, and so are the errors, but for those at the end of the first part, which
blame the function that starts there. -/

namespace BracketLang

namespace Parser

open ParserState Surroundings

variable {w : Surroundings} {s s' : ParserState}

/-- What is not a function is blamed and skipped in the same way. -/
theorem function_of_ne (room : Nat) (hs : nextKind s.rest ≠ .funcWord) :
    function room s = .error ⟨.unexpected [.funcWord] none, s.peek⟩ (s.visit .function) := by
  have hcheck : (s.visit .function).check .funcWord = false := by
    rw [Cursor.check_eq]
    exact decide_eq_false hs
  have hconsume := consume_run .funcWord (s.visit .function)
  rw [hcheck] at hconsume
  exact bind_eq_error.mpr (.inr ⟨(), _, rfl, bind_eq_error.mpr (.inl hconsume)⟩)

/-- A function is read, or skipped, in any surroundings as it is alone. -/
theorem functionOrSkip_of_holds (room : Nat) (h : w.Holds s s') (hs : nextKind s.rest ≠ .eof) :
    (functionOrSkip room s').1 = (functionOrSkip room s).1 ∧
      w.Holds (functionOrSkip room s).2 (functionOrSkip room s').2 := by
  obtain ⟨t, r, hrest, hkind⟩ := exists_cons_of_nextKind rfl hs
  have hrest' : s'.rest = t :: (r ++ w.behind) := by rw [h.rest, hrest]; rfl
  have hvisit : w.Holds (s.visit .function) (s'.visit .function) :=
    h.of_reaches (.visit ..) h.before h.rest h.depth h.errors
  -- skipping starts from states that are related and took the same tokens
  have skip {e e' : SyntaxError} {s₁ s₁' : ParserState} (hr : s.Reaches s₁) (h₁ : w.Holds s₁ s₁')
      (he : e' = e.cutBy w.behind) :
      w.Holds ((s₁.record e).move (.resumeAtFunction s.position))
        ((s₁'.record e').move (.resumeAtFunction s'.position)) := by
    rw [h.position]
    refine (h₁.record he).resumeAtFunction _ fun hposition => ?_
    rcases hr.eq_or_moved with hcursor | ⟨-, hmoved⟩
    · rwa [show (s₁.record e).rest = s.rest from congrArg Cursor.rest hcursor]
    · exact absurd hposition hmoved
  by_cases hword : t.kind = .funcWord
  · have hagree : w.Agree (function room s) (function room s') := by
      have hadvance : w.Embeds ((s.visit .function).move .advance)
          ((s'.visit .function).move .advance) := by
        refine ⟨hvisit.advance hs, ?_⟩
        simp [ParserState.move, ParserState.visit, Cursor.advance, hrest, hword]
      have hcheck {s : ParserState} (hs : nextKind s.rest = .funcWord) :
          (s.visit .function).check .funcWord = true := by
        rw [Cursor.check_eq]
        exact decide_eq_true hs
      refine agree_function room ?_
      rw [consume_run, consume_run, if_pos (hcheck (by rw [hrest]; exact hword)),
        if_pos (hcheck (by rw [hrest']; exact hword))]
      exact ⟨hadvance.previous, hadvance⟩
    unfold functionOrSkip
    revert hagree
    cases hok : function room s <;> cases function room s'
    · rintro ⟨rfl, h₁⟩
      exact ⟨rfl, h₁.toHolds⟩
    · exact False.elim
    · exact False.elim
    · rintro ⟨he, h₁⟩
      exact ⟨rfl, skip ((steady_function room).error hok) h₁.toHolds he⟩
  · have hpeek : s.peek = t := by simp [Cursor.peek, hrest]
    have hpeek' : s'.peek = t := by simp [Cursor.peek, hrest']
    unfold functionOrSkip
    rw [function_of_ne (s := s) room (by rwa [hrest]),
      function_of_ne (s := s') room (by rwa [hrest'])]
    refine ⟨rfl, skip (.visit ..) hvisit ?_⟩
    rw [hpeek, hpeek', SyntaxError.cutBy_of_ne]
    rwa [← hkind] at hs

/-- The functions of a part are read as they are alone, and what is read behind it comes on top. -/
theorem functions_of_holds (room : Nat) (h : w.Holds s s') (hn : s.rest.length ≤ n)
    (hn' : s'.rest.length ≤ n') :
    nextKind (functions room n s).2.rest = .eof ∧
    ∃ s₁ m, w.Holds (functions room n s).2 s₁ ∧ s₁.rest.length ≤ m ∧
      functions room n' s' =
        ((functions room n s).1 ++ (functions room m s₁).1, (functions room m s₁).2) := by
  induction n generalizing n' s s' with
  | zero =>
    have hs : s.rest = [] := List.eq_nil_of_length_eq_zero (Nat.le_zero.mp hn)
    exact ⟨congrArg nextKind hs, s', n', h, hn', rfl⟩
  | succ n ih =>
    rw [functions_succ, atEnd_eq]
    by_cases hend : nextKind s.rest = .eof
    · rw [if_pos (decide_eq_true hend)]
      exact ⟨hend, s', n', h, hn', rfl⟩
    · obtain ⟨t, r, hrest, hkind⟩ := exists_cons_of_nextKind rfl hend
      have hrest' : s'.rest = t :: (r ++ w.behind) := by rw [h.rest, hrest]; rfl
      have hend' : s'.atEnd = false := by
        rw [atEnd_eq, hrest', nextKind_cons, hkind]
        exact decide_eq_false hend
      have hlt := length_lt_of_functionOrSkip room (s := s) (by
        rw [atEnd_eq]
        exact decide_eq_false hend)
      have hlt' := length_lt_of_functionOrSkip room hend'
      obtain ⟨n', rfl⟩ : ∃ k, n' = k + 1 := by
        cases n' with
        | zero => rw [hrest'] at hn'; cases hn'
        | succ k => exact ⟨k, rfl⟩
      obtain ⟨hsame, hholds⟩ := functionOrSkip_of_holds room h hend
      have hle' : (functionOrSkip room s').2.rest.length ≤ n' := by omega
      obtain ⟨heof, s₁, m, h₁, hm, heq⟩ := ih hholds (by omega) hle'
      rw [if_neg (by simp [hend]), functions_succ, hend']
      refine ⟨heof, s₁, m, h₁, hm, ?_⟩
      simp [heq, hsame]

end Parser

namespace Parsed

open Parser Surroundings

theorem errors_ofTokens (stack : Nat) (tokens : List Token) :
    (ofTokens stack tokens).state.errors =
      (functions stack tokens.length (.ofTokens tokens)).2.errors := rfl

theorem functions_ofTokens (stack : Nat) (tokens : List Token) :
    (ofTokens stack tokens).program.functions =
      (functions stack tokens.length (.ofTokens tokens)).1 := rfl

/-- Tokens and a function behind them are read one after the other. The functions are those of the
one, then those of the other, with their spans; the errors are those of the one, where the function
is blamed in place of the end of input, then those of the other. -/
theorem ofTokens_append_function (stack : Nat) (before behind : List Token)
    (hbefore : ∀ t ∈ before, t.kind ≠ .eof) (hbehind : nextKind behind = .funcWord) :
    (ofTokens stack (before ++ behind)).program.functions =
      (ofTokens stack before).program.functions ++ (ofTokens stack behind).program.functions ∧
    (ofTokens stack (before ++ behind)).state.errors =
      (ofTokens stack before).state.errors.map (.cutBy behind) ++
        (ofTokens stack behind).state.errors := by
  simp only [errors_ofTokens, functions_ofTokens]
  -- the first part, with the second behind it
  have hstart : Holds ⟨[], behind, []⟩ (.ofTokens before) (.ofTokens (before ++ behind)) :=
    ⟨rfl, rfl, rfl, rfl, .inr ⟨hbehind, hbefore⟩⟩
  obtain ⟨heof, s₁, m, h₁, hm, heq⟩ :=
    functions_of_holds stack (n := before.length) hstart (Nat.le_refl _) (Nat.le_refl _)
  obtain ⟨ts, hpasses, -⟩ := (reaches_functions stack before.length (.ofTokens before)).passes
  have hnil : (functions stack before.length (.ofTokens before)).2.rest = [] := by
    rcases h₁.cut with hnil | ⟨-, hrest⟩
    · rw [show behind = [] from hnil] at hbehind
      cases hbehind
    · cases hr : (functions stack before.length (.ofTokens before)).2.rest with
      | nil => rfl
      | cons t r =>
        rw [hr, nextKind_cons] at heof
        exact absurd heof (hrest t (by simp [hr]))
  -- the second part, with the first in front of it and its errors on record
  have hsecond : Holds ⟨s₁.before, [], s₁.errors⟩ (.ofTokens behind) s₁ := by
    refine ⟨rfl, ?_, h₁.depth.trans hpasses.depth, (List.append_nil _).symm, .inl rfl⟩
    rw [h₁.rest, hnil, List.nil_append, List.append_nil]
    rfl
  obtain ⟨heof₂, s₂, m₂, h₂, -, heq₂⟩ := functions_of_holds stack hsecond (Nat.le_refl _) hm
  have hend := functions_of_eof (s := s₂) (by rwa [h₂.rest, List.append_nil]) stack m₂
  have hsum : functions stack (before ++ behind).length (.ofTokens (before ++ behind)) = _ := heq
  rw [hsum, heq₂, hend]
  refine ⟨by rw [List.append_nil]; rfl, ?_⟩
  rw [h₂.errors, h₁.errors, SyntaxError.cutBy_nil, List.map_id]
  rfl

/-- The start of a function, up to an open parenthesis in an expression. -/
def cutFunction : List Token :=
  let token (k : TokenKind) (column : Int) : Token := ⟨k, k.spelling, none, ⟨"apart", 1, column, 0⟩⟩
  [token .funcWord 1, ⟨.identifier, "f", none, ⟨"apart", 1, 2, 0⟩⟩, token .leftParen 3,
    token .rightParen 4, token .arrow 5, token .i32Word 6, token .leftBracket 7,
    token .returnWord 8, token .leftParen 9, token .trueWord 10]

/-- A function without statements. -/
def emptyFunction : List Token :=
  let token (k : TokenKind) (column : Int) : Token := ⟨k, k.spelling, none, ⟨"apart", 2, column, 0⟩⟩
  [token .funcWord 1, ⟨.identifier, "g", none, ⟨"apart", 2, 2, 0⟩⟩, token .leftParen 3,
    token .rightParen 4, token .arrow 5, token .i32Word 6, token .leftBracket 7,
    token .rightBracket 8]

theorem ofTokens_cutFunction_append_emptyFunction :
    (∀ t ∈ cutFunction, t.kind ≠ .eof) ∧ nextKind emptyFunction = .funcWord ∧
    (ofTokens 100 (cutFunction ++ emptyFunction)).program.functions.map Function.name = ["f", "g"] ∧
    (ofTokens 100 (cutFunction ++ emptyFunction)).state.errors.map
      (fun e => (e.code, e.found.location.line)) = [("P001", 2), ("P004", 2)] ∧
    (ofTokens 100 cutFunction).state.errors.map (fun e => (e.code, e.found.location.line)) =
      [("P010", 1), ("P004", 1)] := by
  have hbefore : ∀ t ∈ cutFunction, t.kind ≠ .eof := by decide
  have hbehind : nextKind emptyFunction = .funcWord := by decide
  obtain ⟨hfunctions, herrors⟩ := 
    ofTokens_append_function 100 cutFunction emptyFunction hbefore hbehind
  refine ⟨hbefore, hbehind, ?_, ?_, by decide +kernel⟩
  · rw [hfunctions]
    decide +kernel
  · rw [herrors]
    decide +kernel

end Parsed

end BracketLang
