import BracketLang.Proofs.Grammar.Unambiguous

/-! Functions and whole programs against their grammar. A program is read without an error on
record exactly if the tokens up to the end of file have a derivation whose expressions stay within
`maxExpressionDepth` levels and whose functions fit on the stack, and then the tree that was read is
the one derived. -/

namespace BracketLang

/-- The tokens derive the bare parameter. -/
def Param.Derived (ts : List Token) (p : Param) : Prop :=
  ∃ d : ParamDeriv, d.yield = ts ∧ d.tree = p

/-- The tokens derive the parameter, places included. -/
def Param.DerivedAt (ts : List Token) (p : Param) : Prop :=
  ∃ d : ParamDeriv, d.yield = ts ∧ d.located = p

/-- The tokens derive the bare function. -/
def Function.Derived (room : Nat) (ts : List Token) (f : Function) : Prop :=
  ∃ d : FunctionDeriv, d.yield = ts ∧ d.tree = f ∧ d.Fits room

namespace ParamsDeriv

open Parser

theorem of_moreItems (h : MoreItems Param.Derived ts ps) :
    ∃ more : List (Terminal .comma × ParamDeriv),
      more.flatMap (fun q => q.1.val :: q.2.yield) = ts ∧ more.map (fun q => q.2.tree) = ps := by
  induction h with
  | nil => exact ⟨[], rfl, rfl⟩
  | cons comma h _ ih =>
    obtain ⟨d, rfl, rfl⟩ := h
    obtain ⟨more, rfl, rfl⟩ := ih
    exact ⟨(comma, d) :: more, by simp, rfl⟩

theorem of_items (h : Items Param.Derived ts ps) :
    ∃ d : ParamsDeriv, d.yield = ts ∧ d.trees = ps := by
  cases h with
  | none => exact ⟨.none, rfl, rfl⟩
  | some h hmore =>
    obtain ⟨d, rfl, rfl⟩ := h
    obtain ⟨more, rfl, rfl⟩ := of_moreItems hmore
    exact ⟨.some d more, rfl, rfl⟩

theorem moreItems (more : List (Terminal .comma × ParamDeriv)) :
    MoreItems Param.DerivedAt (more.flatMap fun q => q.1.val :: q.2.yield)
      (more.map fun q => q.2.located) := by
  induction more with
  | nil => exact .nil
  | cons q more ih => simpa using MoreItems.cons q.1 ⟨q.2, rfl, rfl⟩ ih

theorem items : (d : ParamsDeriv) → Items Param.DerivedAt d.yield d.located
  | none => .none
  | some p more => .some ⟨p, rfl, rfl⟩ (moreItems more)

end ParamsDeriv

namespace Parser

open ParserState

theorem reads_param : Reads param fun ts p => p.bare.Derived ts := by
  refine (reads_visit _).bind fun _ => (reads_consume (by decide)).bind fun x =>
    (reads_consume (by decide)).bind fun colon => reads_typeName.bind fun t => .pure ?_
  rintro _ ⟨dt, rfl, ht⟩ _ ⟨hcolon, rfl⟩ _ ⟨hx, rfl⟩ _ rfl
  exact ⟨⟨⟨x, hx⟩, ⟨colon, hcolon⟩, dt⟩, rfl, by simp [ParamDeriv.tree, Param.bare, ht]⟩

theorem reads_function (room : Nat) :
    Reads (function room) fun ts f => f.bare.Derived room ts := by
  refine (reads_visit _).bind fun _ => (reads_consume (by decide)).bind fun word =>
    (reads_consume (by decide)).bind fun name => (reads_consume (by decide)).bind fun lp =>
    reads_param.items.bind fun ps => (reads_consume (by decide)).bind fun rp =>
    (reads_consume (by decide)).bind fun arrow => reads_typeName.bind fun result =>
    (reads_blockWithin (room + 1)).bind fun b => (reads_spanFrom _).bind fun span => .pure ?_
  rintro _ rfl _ ⟨db, rfl, hb, hdb⟩ _ ⟨dt, rfl, ht⟩ _ ⟨harrow, rfl⟩ _ ⟨hrp, rfl⟩ _ hps
    _ ⟨hlp, rfl⟩ _ ⟨hname, rfl⟩ _ ⟨hword, rfl⟩ _ rfl
  obtain ⟨dps, rfl, htrees⟩ := ParamsDeriv.of_items hps
  refine ⟨⟨⟨word, hword⟩, ⟨name, hname⟩, ⟨lp, hlp⟩, dps, ⟨rp, hrp⟩, ⟨arrow, harrow⟩, dt, db⟩,
    ?_, ?_, hdb⟩
  · simp [FunctionDeriv.yield]
  · simp [FunctionDeriv.tree, Function.bare, htrees, ht, hb, Block.bare]

theorem accepts_param (d : ParamDeriv) : Accepts 0 param d.yield r (· = d.located) :=
  .visit_bind <| .consume_bind d.x (by decide) <| .consume_bind d.colon (by decide) <|
    .typeName_bind d.t (.pure rfl)

theorem accepts_params (d : ParamsDeriv) (hr : nextKind r = .rightParen) :
    Accepts 0 params d.yield r (· = d.located) := by
  refine d.items.accepts ?_ ?_ hr
  · rintro ts p r ⟨d, rfl, rfl⟩ _
    exact accepts_param d
  · rintro ts p r ⟨d, rfl, rfl⟩ h
    rw [ParamDeriv.yield, List.cons_append, nextKind_cons, d.x.property] at h
    cases h

theorem accepts_function (d : FunctionDeriv) (hm : d.Fits room) :
    Accepts 0 (function room) d.yield r (· = d.located) := by
  rw [FunctionDeriv.yield]
  refine .visit_bind <| .consume_bind d.word (by decide) <| .consume_bind d.name (by decide) <|
    .consume_bind d.lp (by decide) <| (accepts_params d.params ?_).bind ?_
  · exact d.rp.property
  · rintro _ rfl
    rw [FunctionDeriv.located, d.body.finish_located]
    exact .consume_bind d.rp (by decide) <| .consume_bind d.arrow (by decide) <|
      .typeName_bind d.result <| (d.body.accepts hm).bind_spanFrom d.body.getLast?_yield

/-! ## The loop over the functions -/

theorem functionOrSkip_of_ok (h : function room s = .ok f s') :
    functionOrSkip room s = (some f, s') := by
  simp [functionOrSkip, h]

/-- A function with an error in it is put on record. -/
theorem length_errors_functionOrSkip (h : function room s = .error e s') :
    s.errors.length < (functionOrSkip room s).2.errors.length := by
  have hle := ((steady_function room).error h).errors.length_le
  simp only [functionOrSkip, h, ParserState.move, ParserState.record, List.length_append,
    List.length_singleton]
  omega

theorem atEnd_eq (s : ParserState) : s.atEnd = decide (nextKind s.rest = .eof) :=
  s.check_eq .eof

/-- If no error is new, everything up to the end of file is derived, function by function. -/
theorem exists_derived_of_functions (he : (functions room n s).2.errors = s.errors)
    (hn : s.rest.length ≤ n) :
    ∃ ds : List FunctionDeriv, s.Takes (ds.flatMap FunctionDeriv.yield) (functions room n s).2 ∧
      ds.map FunctionDeriv.tree = (functions room n s).1.map Function.bare ∧
      (∀ d ∈ ds, d.Fits room) ∧ nextKind (functions room n s).2.rest = .eof := by
  induction n generalizing s with
  | zero =>
    have hrest : s.rest = [] := List.eq_nil_of_length_eq_zero (Nat.le_zero.mp hn)
    exact ⟨[], .refl s, rfl, List.forall_mem_nil _, congrArg nextKind hrest⟩
  | succ n ih =>
    rw [functions_succ, atEnd_eq] at he ⊢
    by_cases hend : nextKind s.rest = .eof
    · rw [if_pos (decide_eq_true hend)]
      exact ⟨[], .refl s, rfl, List.forall_mem_nil _, hend⟩
    · simp only [hend, decide_false] at he ⊢
      cases hf : function room s with
      | error e s₁ =>
        have hlt := length_errors_functionOrSkip hf
        have hle := (reaches_functions room n (functionOrSkip room s).2).errors.length_le
        have heq : (functions room n (functionOrSkip room s).2).2.errors.length = s.errors.length :=
          congrArg List.length he
        omega
      | ok f s₁ =>
        simp only [functionOrSkip_of_ok hf] at he ⊢
        obtain ⟨he₁, he₂⟩ :=
          ((steady_function room).ok hf).errors_eq (reaches_functions room n s₁) he
        obtain ⟨_, htakes, d, rfl, htree, hd⟩ := (reads_function room).takes hf he₁
        have hlen : s₁.rest.length ≤ n := by
          have hrest := congrArg List.length htakes.rest
          simp only [FunctionDeriv.yield, List.length_append, List.length_cons] at hrest
          omega
        obtain ⟨ds, hds, htrees, hfits, hnext⟩ := ih he₂ hlen
        refine ⟨d :: ds, htakes.trans hds, ?_, List.forall_mem_cons.mpr ⟨hd, hfits⟩, hnext⟩
        simp [htree, htrees]

/-- A function that is read comes before those behind it. -/
theorem functions_of_ok (hs : nextKind s.rest = .funcWord) (h : function room s = .ok f s')
    (hn : s.rest.length ≤ n) : ∃ m, s'.rest.length ≤ m ∧
      functions room n s = (f :: (functions room m s').1, (functions room m s').2) := by
  have hlt := (leads_function room).length_lt h
  obtain ⟨m, rfl⟩ : ∃ m, n = m + 1 := Nat.exists_eq_succ_of_ne_zero (by omega)
  refine ⟨m, by omega, ?_⟩
  rw [functions_succ, atEnd_eq, hs, if_neg (by decide), functionOrSkip_of_ok h]
  rfl

theorem functions_of_eof (hs : nextKind s.rest = .eof) (room n : Nat) :
    functions room n s = ([], s) := by
  cases n with
  | zero => rfl
  | succ n => rw [functions_succ, atEnd_eq, if_pos (decide_eq_true hs)]

/-- Functions that are derived are read, one after the other, and then what is behind them. -/
theorem functions_of_derived_append (ds : List FunctionDeriv)
    (hm : ∀ d ∈ ds, d.Fits room)
    (hs : s.rest = ds.flatMap FunctionDeriv.yield ++ r) (hd : s.depth = 0)
    (hn : s.rest.length ≤ n) :
    ∃ m s', s'.rest.length ≤ m ∧ s.Takes (ds.flatMap FunctionDeriv.yield) s' ∧
      functions room n s =
        (ds.map FunctionDeriv.located ++ (functions room m s').1, (functions room m s').2) := by
  induction ds generalizing s n with
  | nil => exact ⟨n, s, hn, .refl s, rfl⟩
  | cons d ds ih =>
    rw [List.flatMap_cons, List.append_assoc] at hs
    have hnext : nextKind s.rest = .funcWord := by
      rw [hs, FunctionDeriv.yield, List.cons_append, nextKind_cons, d.word.property]
    obtain ⟨hmd, hmds⟩ := List.forall_mem_cons.mp hm
    obtain ⟨_, s₁, hok, htakes, rfl⟩ := accepts_function d hmd s hs hd
    obtain ⟨m₁, hlen₁, hfirst⟩ := functions_of_ok hnext hok hn
    obtain ⟨m, s', hlen, hds, hothers⟩ :=
      ih hmds (htakes.rest_eq hs) (htakes.depth.trans hd) hlen₁
    exact ⟨m, s', hlen, htakes.trans hds, by simp [hfirst, hothers]⟩

theorem functions_of_derived (ds : List FunctionDeriv)
    (hm : ∀ d ∈ ds, d.Fits room)
    (hs : s.rest = ds.flatMap FunctionDeriv.yield ++ r) (hd : s.depth = 0)
    (hr : nextKind r = .eof) (hn : s.rest.length ≤ n) :
    s.Takes (ds.flatMap FunctionDeriv.yield) (functions room n s).2 ∧
      (functions room n s).1 = ds.map FunctionDeriv.located := by
  obtain ⟨m, s', -, htakes, hfunctions⟩ := functions_of_derived_append ds hm hs hd hn
  rw [functions_of_eof (s := s') (htakes.rest_eq hs ▸ hr), List.append_nil] at hfunctions
  rw [hfunctions]
  exact ⟨htakes, rfl⟩

end Parser

/-! ## Programs -/

/-- The tokens up to the first end of file. -/
def upToEof (tokens : List Token) : List Token := tokens.takeWhile (·.kind ≠ .eof)

theorem upToEof_append (hts : ∀ t ∈ ts, t.kind ≠ .eof) (hr : nextKind r = .eof) :
    upToEof (ts ++ r) = ts := by
  have hr' : r.takeWhile (·.kind ≠ .eof) = [] := by
    cases r with
    | nil => rfl
    | cons t r => simpa [List.takeWhile_cons] using hr
  rw [upToEof, List.takeWhile_append_of_pos (by simpa using hts), hr', List.append_nil]

theorem exists_eq_upToEof_append (tokens : List Token) :
    ∃ r, tokens = upToEof tokens ++ r ∧ nextKind r = .eof := by
  refine ⟨tokens.dropWhile (·.kind ≠ .eof), List.takeWhile_append_dropWhile.symm, ?_⟩
  have hhead := List.head?_dropWhile_not (fun t : Token => decide (t.kind ≠ .eof)) tokens
  cases h : tokens.dropWhile (·.kind ≠ .eof) with
  | nil => rfl
  | cons t r =>
    rw [h] at hhead
    simpa using hhead

namespace Parsed

open Parser

theorem exists_derived (h : (ofTokens stack tokens).state.errors = []) :
    ∃ d : ProgramDeriv, d.yield = upToEof tokens ∧ d.Fits stack := by
  obtain ⟨ds, htakes, -, hfits, hnext⟩ :=
    exists_derived_of_functions (s := .ofTokens tokens) h (Nat.le_refl _)
  refine ⟨⟨ds⟩, ?_, hfits⟩
  obtain ⟨ts, hpasses, hts⟩ := (reaches_functions stack tokens.length (.ofTokens tokens)).passes
  obtain rfl : ds.flatMap FunctionDeriv.yield = ts :=
    List.append_cancel_right (htakes.rest.symm.trans hpasses.rest)
  have hrest : tokens = _ := htakes.rest
  rw [hrest, upToEof_append hts hnext]
  rfl

/-- A program that is derived is read as it is derived, spans included. -/
theorem located_of_derived (d : ProgramDeriv) (hd : d.yield = upToEof tokens)
    (hm : d.Fits stack) :
    (ofTokens stack tokens).state.errors = [] ∧
      (ofTokens stack tokens).program.functions = d.functions.map FunctionDeriv.located := by
  obtain ⟨r, htokens, hr⟩ := exists_eq_upToEof_append tokens
  obtain ⟨htakes, hfunctions⟩ := functions_of_derived (s := .ofTokens tokens) d.functions hm
    (by rw [← hd] at htokens; exact htokens) rfl hr (Nat.le_refl _)
  exact ⟨htakes.errors, hfunctions⟩

theorem of_derived (d : ProgramDeriv) (hd : d.yield = upToEof tokens) (hm : d.Fits stack) :
    (ofTokens stack tokens).state.errors = [] ∧
      (ofTokens stack tokens).program.bare = d.tree := by
  obtain ⟨herrors, hfunctions⟩ := located_of_derived d hd hm
  have hbare : Function.bare ∘ FunctionDeriv.located = FunctionDeriv.tree :=
    funext FunctionDeriv.bare_located
  exact ⟨herrors, by rw [Program.bare, hfunctions, List.map_map, hbare, ProgramDeriv.tree]⟩

theorem errors_eq_nil_iff_fits (stack : Nat) (tokens : List Token) :
    (ofTokens stack tokens).state.errors = [] ↔
      ∃ d : ProgramDeriv, d.yield = upToEof tokens ∧ d.Fits stack := by
  refine ⟨exists_derived, ?_⟩
  rintro ⟨d, hd, hm⟩
  exact (of_derived d hd hm).1

end Parsed

/-! ## No stack is enough -/

/-- A token of fixed spelling. -/
def Terminal.spelled (k : TokenKind) : Terminal k := ⟨⟨k, k.spelling, none, .origin⟩, rfl⟩

/-- A truth value, as a condition. -/
def ExprDeriv.ofTruth (t : TruthTerminal) : ExprDeriv .or :=
  .tighter (by decide) <| .tighter (by decide) <| .tighter (by decide) <| .tighter (by decide) <|
    .tighter (by decide) <| .tighter (by decide) <| .boolean t

/-- The statements between brackets. -/
def BlockDeriv.around (body : BodyDeriv) : BlockDeriv :=
  .mk (.spelled .leftBracket) body (.spelled .rightBracket)

/-- The function `func f() -> i32` with the block as its body. -/
def FunctionDeriv.around (body : BlockDeriv) : FunctionDeriv where
  word := .spelled .funcWord
  name := ⟨⟨.identifier, "f", none, .origin⟩, rfl⟩
  lp := .spelled .leftParen
  params := .none
  rp := .spelled .rightParen
  arrow := .spelled .arrow
  result := ⟨(Terminal.spelled .i32Word).val, by decide⟩
  body

/-- A block that holds `n` loops, each but the last around the next. -/
def BlockDeriv.loops : (n : Nat) → BlockDeriv
  | 0 => around .nil
  | n + 1 => around <| .cons (.whileLoop (.spelled .whileWord)
      (.ofTruth ⟨(Terminal.spelled .trueWord).val, .inl rfl⟩) (loops n)) .nil

namespace BlockDeriv

end BlockDeriv

namespace ProgramDeriv

/-- A function around `n` loops. -/
def loops (n : Nat) : ProgramDeriv := ⟨[.around (.loops n)]⟩

end ProgramDeriv

namespace Parsed

end Parsed

end BracketLang
