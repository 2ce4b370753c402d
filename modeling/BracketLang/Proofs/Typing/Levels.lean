import BracketLang.Frontend
import BracketLang.Proofs.Grammar.Kept
import BracketLang.Proofs.Grammar.Programs
import BracketLang.Proofs.Tree.Nesting
import BracketLang.Proofs.Typing.Accounts

/-! The checker has levels enough for what is read. An expression that nests less than `n` deep is
checked to its end within `n` levels, however long its chains of operators are, and what the parser
keeps of a text nests less than `maxExpressionDepth` deep. So no text is reported to nest too deep;
that is left to trees that no text stands for. -/

namespace BracketLang

variable {levels : Nat}

namespace Check

variable {α β : Type} {x : Check α} {f : α → Check β}

/-- The check comes to its end, and so does everything in it. -/
structure Finishes (x : Check α) : Prop where
  total : x.Total
  complete : x.Complete

theorem finishes_pure (a : α) : (pure a : Check α).Finishes := ⟨total_pure a, List.forall_mem_nil _⟩

theorem finishes_annotate (path : Path) (t : Ty) : (annotate path t).Finishes :=
  ⟨⟨(), rfl⟩, List.forall_mem_nil _⟩

theorem finishes_report (h : e.cause ≠ .nestingTooDeep) : (report e).Finishes :=
  ⟨⟨(), rfl⟩, List.forall_mem_singleton.mpr h⟩

theorem Finishes.bind (hx : x.Finishes) (hf : ∀ a, x.result = some a → (f a).Finishes) :
    (x >>= f).Finishes := by
  obtain ⟨a, ha⟩ := hx.total
  rw [bind_of_some ha]
  exact ⟨(hf a ha).total, List.forall_mem_append.mpr ⟨hx.complete, (hf a ha).complete⟩⟩

/-- There is nothing to catch. -/
theorem Finishes.orExhausted (hx : x.Finishes) (b : α) (e : SemanticError) :
    (x.orExhausted b e).Finishes := by
  obtain ⟨a, ha⟩ := hx.total
  rw [Check.orExhausted, ha]
  exact hx

/-- An account that lists nothing, and only says that checks come to their end. -/
def finishing : Account Unit where
  Assumes _ := True
  Holds _ x := x.Finishes
  pure := finishes_pure
  bind hx hf := hx.bind fun a ha => hf a ha trivial
  perm hx _ := hx
  orExhausted a _ hx := hx.orExhausted a _

theorem untyped_finishing : finishing.Untyped := by
  intro t t' context l n
  refine finishes_report ?_
  rintro ⟨⟩

theorem unnamed_finishing : finishing.Unnamed := by
  intro e he
  refine finishes_report fun hcause => ?_
  rw [SemanticError.isNaming, hcause] at he
  cases he

end Check

open Check

/-! ## Checks with levels enough -/

/-- The operands and arguments of a chain have to do with one level less, a left operand has not. -/
theorem Expr.accounted_finishing (table : SymbolTable) :
    Accounted finishing (fun _ => []) (fun _ => []) (fun _ => []) table
      fun n _ e => e.nesting < n where
  split _ := rfl
  untyped := untyped_finishing
  exhausted he := absurd he (Nat.not_lt_zero _)
  noted t _ := finishes_annotate _ t
  raised _ := finishing.raise (finishes_pure ()) fun e h => unnamed_finishing e (of_fault? h).1
  operand he := Nat.lt_of_succ_lt_succ he
  left he := Nat.lt_of_le_of_lt (Nat.le_max_left ..) he
  right he := Nat.lt_of_succ_lt_succ (Nat.lt_of_le_of_lt (Nat.le_max_right ..) he)
  arg he ha := Nat.lt_of_lt_of_le (nesting_lt_of_mem (List.mem_of_getElem? ha))
    (Nat.le_of_lt_succ he)

theorem Expr.finishes_check {e : Expr} {table : SymbolTable} (path : Path)
    (he : e.nesting < levels) : (e.check levels table path).Finishes :=
  (accounted_finishing table).holds_check he

/-- Nothing is asked but that the checker has levels enough. -/
def Stmt.withinLevels (levels : Nat) : Demands :=
  ⟨(·.nesting < levels), fun _ => True, fun _ => True⟩

theorem Stmt.accounted_finishing (levels : Nat) :
    Accounted finishing (fun _ => []) levels fun _ _ _ ss => AllMeet (withinLevels levels) ss where
  mute _ := finishes_pure ()
  opening {table path i s ss} h hs := by
    refine holds_opening (fun _ => (List.append_nil []).symm) untyped_finishing _ hs
      (fun _ _ => finishes_pure ()) (fun j e he => Expr.finishes_check _ (h.1.value he)) ?_ ?_
    · cases s with
      | letVar => exact finishes_annotate ..
      | _ => exact finishes_pure ()
    · exact finishing.raise (finishes_pure ()) fun e he => unnamed_finishing e (of_fault? he).1
  body h hb := h.1.body hb
  tail h _ _ := h.2

theorem Program.accounted_finishing (p : Program) (hp : p.Meets (Stmt.withinLevels levels)) :
    Accounted finishing (fun _ => []) levels p (fun _ _ => []) (fun _ _ => [])
      fun _ _ _ ss => Stmt.AllMeet (Stmt.withinLevels levels) ss where
  statements := Stmt.accounted_finishing levels
  split _ _ _ := rfl
  declared := Function.holds_declareAll (l := fun _ _ => []) (fun t f i =>
    Function.holds_declare t f i (finishes_pure ()) fun e he => unnamed_finishing e he.isNaming) ..
  params _ _ := Function.holds_declareParams (fun e he => unnamed_finishing e he.isNaming) ..
  ready _ hf _ := (hp _ (List.fst_mem_of_mem_zipIdx hf)).body

theorem Program.finishes_check (p : Program) (hp : p.Meets (Stmt.withinLevels levels)) :
    (p.check levels).Finishes :=
  (p.accounted_finishing hp).holds_check

/-! ## Long chains of operators -/

namespace ExprDeriv

def one : ExprDeriv .unary := .integer ⟨⟨.integer, "1", some (.int 1), .origin⟩, rfl⟩

/-- The sum of `n + 1` ones. -/
def ones : Nat → ExprDeriv .term
  | 0 => .tighter (by decide) (.tighter (by decide) one)
  | n + 1 => .binary (by decide) (ones n) ⟨(Terminal.spelled .plus).val, rfl⟩
    (.tighter (by decide) one)

theorem spine_ones (n : Nat) : (ones n).located.spine = n := by
  induction n with
  | zero => rfl
  | succ n ih => exact congrArg (· + 1) ih

/-- However long it is, it takes two levels. -/
theorem levels_ones (n : Nat) : (ones n).levels ≤ 2 := by
  induction n with
  | zero => exact Nat.le_succ 1
  | succ n ih => exact Nat.max_le.mpr ⟨ih, Nat.le_refl 2⟩

theorem kind_of_mem_ones (n : Nat) : ∀ t ∈ (ones n).yield, t.kind ≠ .eof := by
  induction n with
  | zero => decide
  | succ n ih =>
    rw [ones, yield, List.forall_mem_append]
    exact ⟨ih, by decide⟩

end ExprDeriv

/-- The function `func f() -> i32 [ e; ]`. -/
def FunctionDeriv.evaluating (e : ExprDeriv .or) : FunctionDeriv :=
  .around (.around (.cons (.expr e (.spelled .semicolon)) .nil))

/-- Whatever there is a derivation and room for is read. -/
theorem Parsed.exists_reads_expr (d : ExprDeriv .or) (hne : ∀ t ∈ d.yield, t.kind ≠ .eof)
    (hd : d.levels ≤ min stack maxExpressionDepth) :
    ∃ tokens, (ofTokens stack tokens).state.errors = [] ∧
      ∃ f ∈ (ofTokens stack tokens).program.functions,
        ∃ span, .expr d.located span ∈ f.body.body := by
  let p : ProgramDeriv := ⟨[.evaluating d]⟩
  have hne : ∀ t ∈ p.yield, t.kind ≠ .eof := by
    simpa [p, ProgramDeriv.yield, FunctionDeriv.yield, FunctionDeriv.evaluating,
      FunctionDeriv.around, ParamsDeriv.yield, BlockDeriv.yield, BlockDeriv.around, BodyDeriv.yield,
      StmtDeriv.yield, Terminal.spelled, or_imp, forall_and] using hne
  have hyield : upToEof p.yield = p.yield := by
    conv => lhs; rw [← List.append_nil p.yield, upToEof_append hne rfl]
  have hfits : p.Fits stack := List.forall_mem_singleton.mpr ⟨hd, trivial⟩
  obtain ⟨herrors, hfunctions⟩ := located_of_derived p hyield.symm hfits
  refine ⟨p.yield, herrors, (FunctionDeriv.evaluating d).located, ?_, _, List.mem_singleton_self _⟩
  rw [hfunctions]
  exact List.mem_singleton_self _

/-! ## What is read -/

theorem SemanticError.cause_of_code {e : SemanticError} (h : e.code = "S090") :
    e.cause = .nestingTooDeep := by
  obtain ⟨cause, location, node⟩ := e
  cases cause with
  | nestingTooDeep => rfl
  | _ => simp [code] at h

theorem Parser.supplies_nesting {P : Expr → Prop}
    (h : ∀ e : Expr, e.nesting < maxExpressionDepth → P e) :
    Supplies (fun _ => True) ⟨P, fun _ => True, fun _ => True⟩ where
  expr _ hd := h _ (Expr.nesting_lt_of_derived hd)
  name _ _ := trivial
  type _ _ _ := trivial

theorem Parsed.allExprs_of_nesting {P : Expr → Prop} (stack : Nat) (tokens : List Token)
    (h : ∀ e : Expr, e.nesting < maxExpressionDepth → P e) :
    (ofTokens stack tokens).program.AllExprs P :=
  meets (Parser.supplies_nesting h) fun _ _ => trivial

namespace Frontend

theorem of_tokenize (h : tokenize source file = .ok scanned) :
    scanned.result = (Scan.ofSource file source.toList).tokens file ∧
      scanned.faults = (Scan.ofSource file source.toList).errors.map .lexical := by
  simp only [tokenize] at h
  split at h
  · cases h
  · cases h
    exact ⟨rfl, rfl⟩

theorem of_parse (h : parse stack source file = .ok parsed) :
    ∃ scanned, tokenize source file = .ok scanned ∧
      parsed.result = (Parsed.ofTokens stack scanned.result).program ∧
      parsed.faults =
        scanned.faults ++ (Parsed.ofTokens stack scanned.result).state.errors.map .syntactic := by
  cases hs : tokenize source file with
  | error e =>
    rw [parse, hs] at h
    cases h
  | ok scanned =>
    rw [parse, hs] at h
    cases h
    exact ⟨scanned, rfl, rfl, rfl⟩

theorem of_analyze (h : analyze stack levels source file = .ok analyzed) :
    ∃ parsed, parse stack source file = .ok parsed ∧
      analyzed.faults = parsed.faults ++ (parsed.result.check levels).errors.map .semantic := by
  cases hp : parse stack source file with
  | error e =>
    rw [analyze, hp] at h
    cases h
  | ok parsed =>
    rw [analyze, hp] at h
    cases h
    exact ⟨parsed, rfl, rfl⟩

/-- What is wrong with the meaning of a text is wrong with a program made of its tokens. -/
theorem exists_tokens_of_semantic (h : analyze stack levels source file = .ok analyzed)
    (he : .semantic e ∈ analyzed.faults) :
    ∃ tokens, e ∈ ((Parsed.ofTokens stack tokens).program.check levels).errors := by
  obtain ⟨parsed, hparse, hfaults⟩ := of_analyze h
  obtain ⟨scanned, htokenize, hresult, hfaults'⟩ := of_parse hparse
  obtain ⟨-, hlexical⟩ := of_tokenize htokenize
  refine ⟨scanned.result, ?_⟩
  simpa [hfaults, hfaults', hlexical, hresult] using he

/-- No text is reported to nest too deep. Whatever the tokens, an expression that is kept of them
goes at most 99 levels down, while the operators that follow one another to the left can be as many
as one likes; and with more than 120 levels, the checker goes through whatever is no more than 120
levels deep. -/
theorem never_nesting_too_deep :
    (∀ stack tokens, (Parsed.ofTokens stack tokens).program.AllExprs fun e =>
      ∀ n part, e.Contains n part → n ≤ 99) ∧
    (∀ stack ≥ 2, ∀ n, ∃ tokens, (Parsed.ofTokens stack tokens).state.errors = [] ∧
      ∃ f ∈ (Parsed.ofTokens stack tokens).program.functions,
        ∃ e span, .expr e span ∈ f.body.body ∧ e.spine = n) ∧
    (∀ levels > 120, ∀ table path (e : Expr), (∀ n part, e.Contains n part → n ≤ 120) →
      ∃ t, (e.check levels table path).result = some t) ∧
    ∀ levels > 120, ∀ stack source file analyzed,
      analyze stack levels source file = .ok analyzed →
        ∀ e, .semantic e ∈ analyzed.faults → e.code ≠ "S090" := by
  refine ⟨?_, ?_, ?_, ?_⟩
  · intro stack tokens
    apply Parsed.allExprs_of_nesting
    intro e he
    exact Expr.nesting_le_iff.mp (Nat.le_of_lt_succ he)
  · intro stack hstack n
    let d : ExprDeriv .or := .tighter (by decide) (.tighter (by decide) (.tighter (by decide)
      (.tighter (by decide) (.ones n))))
    have hd : d.levels ≤ min stack maxExpressionDepth :=
      Nat.le_trans (ExprDeriv.levels_ones n) (Nat.le_min.mpr ⟨hstack, by decide⟩)
    obtain ⟨tokens, herrors, f, hf, span, hmem⟩ :=
      Parsed.exists_reads_expr d (ExprDeriv.kind_of_mem_ones n) hd
    exact ⟨tokens, herrors, f, hf, d.located, span, hmem, ExprDeriv.spine_ones n⟩
  · intro levels hlevels table path e he
    have hnesting := Expr.nesting_le_iff.mpr he
    exact (Expr.finishes_check path (Nat.lt_of_le_of_lt hnesting hlevels)).total
  · intro levels hlevels stack source file analyzed h e he hcode
    obtain ⟨tokens, he⟩ := exists_tokens_of_semantic h he
    have hmeets : (Parsed.ofTokens stack tokens).program.Meets (Stmt.withinLevels levels) := by
      apply Parsed.allExprs_of_nesting
      intro e he
      have hmax : maxExpressionDepth ≤ 120 := by decide
      omega
    exact (Program.finishes_check _ hmeets).complete e he (SemanticError.cause_of_code hcode)

end Frontend

end BracketLang
