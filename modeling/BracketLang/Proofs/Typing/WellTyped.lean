import BracketLang.Proofs.Typing.Statements

/-! The checker accepts exactly the well-typed programs. Declaring functions or parameters in
silence is having different names for them, so the table that the bodies are checked in holds the
functions of the program; each body then falls to the agreement on statements. -/

namespace BracketLang

variable {levels : Nat}

open Check

@[simp] theorem Check.silent_orReport {α : Type} {a b : α} {y : Except SemanticError α} :
    (orReport b y).Silent a ↔ y = .ok a := by
  cases y with
  | ok c => simp [orReport]
  | error e => simp [orReport]

theorem Check.Total.silent {α : Type} {x : Check α} (hx : x.Total) (h : x.errors = []) :
    ∃ a, x.Silent a := by
  obtain ⟨a, ha⟩ := hx
  exact ⟨a, ha, h⟩

namespace Function

/-! ## Declarations -/

/-- The table with functions `fs` in the global scope. -/
def tableOf (fs : List Function) : SymbolTable :=
  ⟨⟨.global, "global", fs.map Function.symbol, none⟩, []⟩

theorem silent_declare {fs : List Function} {f : Function} :
    (f.declare (tableOf fs) path).Silent table ↔
      f.name ∉ fs.map Function.name ∧ table = tableOf (fs ++ [f]) := by
  have hfind : (tableOf fs).global.find? f.name = none ↔ f.name ∉ fs.map Function.name := by
    rw [Scope.find?, List.find?_eq_none]
    simp [tableOf, Function.symbol]
  rw [declare, silent_orReport, ← hfind]
  simp only [SymbolTable.defineFunction, Except.map, Scope.define]
  cases (tableOf fs).global.find? f.name with
  | some y => simp
  | none => simp [tableOf, Function.symbol, eq_comm]

/-- Functions are declared in silence if their names are different from each other and from those
declared before. -/
theorem silent_declareAll (i : Nat) (gs fs : List Function) (hg : (gs.map Function.name).Nodup) :
    (declareAll (tableOf gs) i fs).Silent table ↔
      ((gs ++ fs).map Function.name).Nodup ∧ table = tableOf (gs ++ fs) := by
  induction fs generalizing gs i with
  | nil => simp [declareAll, hg, eq_comm]
  | cons f fs ih =>
    have hsnoc : f.name ∉ gs.map Function.name ↔ ((gs ++ [f]).map Function.name).Nodup := by
      rw [List.map_append, List.map_singleton, ← List.concat_eq_append, List.nodup_concat]
      exact (and_iff_left hg).symm
    simp only [declareAll, silent_bind, silent_declare, hsnoc]
    constructor
    · rintro ⟨_, ⟨hf, rfl⟩, h⟩
      simpa using (ih _ _ hf).mp h
    · rintro ⟨hn, rfl⟩
      have hf : ((gs ++ [f]).map Function.name).Nodup := by
        refine hn.sublist ?_
        simp
      exact ⟨_, ⟨hf, rfl⟩, (ih _ _ hf).mpr ⟨by simpa using hn, by simp⟩⟩

section
variable {table table' : SymbolTable} {f : Function} {fs gs : List Function} {r : Ty}

theorem inside_of_silent_params (H : table.Inside fs r) (henv : table.env = φ :: Γ)
    (hp : ∀ p ∈ ps, p.Meets .plain) (hφ : (φ.map Prod.fst).Nodup)
    (h : (declareParams table ps).Silent table') :
    table'.Inside fs r ∧ table'.env = (φ ++ Param.frame ps) :: Γ ∧
      (φ.map Prod.fst ++ ps.map Param.name).Nodup := by
  induction ps generalizing table φ with
  | nil =>
    cases silent_pure.mp h
    exact ⟨H, by simp [Param.frame, henv], by simpa using hφ⟩
  | cons p ps ih =>
    rw [declareParams, silent_bind] at h
    obtain ⟨t, hd, h⟩ := h
    have hv := (hp p List.mem_cons_self).type.isValue
    obtain ⟨H', φ', Γ', henv', hx, henv''⟩ := H.declare hv (silent_orReport.mp hd)
    cases henv.symm.trans henv'
    have hφ' : ((φ ++ [(p.name, Ty.ofName p.type.name)]).map Prod.fst).Nodup := by
      rw [List.map_append, List.map_singleton, ← List.concat_eq_append, List.nodup_concat]
      exact ⟨hx, hφ⟩
    obtain ⟨H'', henv''', hn⟩ := ih H' henv'' (fun q hq => hp q (List.mem_cons_of_mem _ hq)) hφ' h
    exact ⟨H'', by simpa [Param.frame] using henv''', by simpa using hn⟩

theorem silent_params_of_nodup (H : table.Inside fs r) (henv : table.env = φ :: Γ)
    (hp : ∀ p ∈ ps, p.Meets .plain) (hn : (φ.map Prod.fst ++ ps.map Param.name).Nodup) :
    ∃ table', (declareParams table ps).Silent table' ∧ table'.Inside fs r ∧
      table'.env = (φ ++ Param.frame ps) :: Γ := by
  induction ps generalizing table φ with
  | nil => exact ⟨table, silent_pure.mpr rfl, H, by simp [Param.frame, henv]⟩
  | cons p ps ih =>
    have hx : p.name ∉ φ.map Prod.fst := by
      intro hmem
      exact (List.nodup_append.mp hn).2.2 _ hmem _ (by simp) rfl
    obtain ⟨t, hd⟩ := H.defineVar_of_fresh henv hx (.ofName p.type.name) p.location none
    obtain ⟨H', φ', Γ', henv', -, henv''⟩ := H.declare (hp p List.mem_cons_self).type.isValue hd
    cases henv.symm.trans henv'
    obtain ⟨table', hs, H'', henv'''⟩ := ih H' henv''
      (fun q hq => hp q (List.mem_cons_of_mem _ hq)) (by simpa using hn)
    refine ⟨table', silent_bind.mpr ⟨t, silent_orReport.mpr hd, hs⟩, H'', ?_⟩
    simpa [Param.frame] using henv'''

/-! ## Bodies -/

theorem inside_enter (H : table.Holds fs) (hr : r.IsValue) :
    (table.enter .function x (some r)).Inside fs r where
  toHolds := H.enter
  nonempty := List.cons_ne_nil _ _
  function := ⟨_, rfl, rfl⟩
  result := hr

theorem wellTyped_of_silent (H : table.Holds fs) (henv : table.env = []) (hp : f.Plain)
    (h : (f.check levels table path).Silent table') : f.WellTyped fs := by
  simp only [check, silent_bind] at h
  obtain ⟨t, hps, t', hss, -⟩ := h
  obtain ⟨H', henv', hn⟩ := inside_of_silent_params (φ := [])
    (inside_enter H hp.returnType.isValue) (SymbolTable.env_enter ..) hp.params List.nodup_nil hps
  obtain ⟨htys, -⟩ := Stmt.allTyped_of_silent H' _ _ _ hp.body hss
  rw [henv', henv] at htys
  exact ⟨by simpa using hn, _, htys⟩

theorem WellTyped.silent (H : table.Holds fs) (henv : table.env = []) (hp : f.Plain)
    (h : f.WellTyped fs) (hc : (f.check levels table path).Complete) :
    (f.check levels table path).Silent table := by
  obtain ⟨Γ, htys⟩ := h.body
  obtain ⟨t, hps, H', henv'⟩ := silent_params_of_nodup (φ := [])
    (inside_enter (x := f.name) H hp.returnType.isValue) (SymbolTable.env_enter ..) hp.params
    (by simpa using h.params)
  have hbody : Stmt.AllTyped fs f.resultType t.env f.body.body Γ := by
    rw [henv', henv]
    exact htys
  have hc := (hps.complete_bind.mp hc).of_bind
  obtain ⟨t', hss, -, -⟩ := hbody.silent H' _ _ _ hc
  have hs : (f.check levels table path).Silent t'.leave :=
    silent_bind.mpr ⟨t, hps, silent_bind.mpr ⟨t', hss, silent_pure.mpr rfl⟩⟩
  exact ⟨result_check table path f, hs.2⟩

theorem wellTyped_of_silent_all (H : table.Holds fs) (henv : table.env = [])
    (hp : ∀ f ∈ gs, f.Plain) (h : (checkAll levels table i gs).Silent table') :
    ∀ f ∈ gs, f.WellTyped fs := by
  induction gs generalizing i with
  | nil => simp
  | cons g gs ih =>
    rw [checkAll, silent_bind] at h
    obtain ⟨t, hg, hgs⟩ := h
    cases (result_check ..).symm.trans hg.1
    simp only [List.mem_cons, forall_eq_or_imp] at hp ⊢
    exact ⟨wellTyped_of_silent H henv hp.1 hg, ih hp.2 hgs⟩

theorem silent_all_of_wellTyped (H : table.Holds fs) (henv : table.env = [])
    (hp : ∀ f ∈ gs, f.Plain) (h : ∀ f ∈ gs, f.WellTyped fs)
    (hc : (checkAll levels table i gs).Complete) : (checkAll levels table i gs).Silent table := by
  induction gs generalizing i with
  | nil => exact silent_pure.mpr rfl
  | cons g gs ih =>
    simp only [List.mem_cons, forall_eq_or_imp] at hp h
    have hg := h.1.silent H henv hp.1 hc.of_bind
    exact silent_bind.mpr ⟨table, hg, ih hp.2 h.2 (hg.complete_bind.mp hc)⟩

end

theorem holds_tableOf {fs : List Function} (hn : (fs.map Function.name).Nodup)
    (hp : ∀ f ∈ fs, f.Plain) : (tableOf fs).Holds fs where
  vars _ hs := nomatch hs
  functions := rfl
  names := hn
  results f hf := (hp f hf).returnType.isValue
  params f hf t ht := by
    obtain ⟨p, hmem, rfl⟩ := List.mem_map.mp ht
    exact ((hp f hf).params p hmem).type.isValue

end Function

/-! ## Programs -/

theorem Program.wellTyped_of_silent {p : Program} (hp : p.Plain)
    (h : (p.check levels).Silent table) : p.WellTyped := by
  rw [check, silent_bind] at h
  obtain ⟨t, hd, hfs⟩ := h
  obtain ⟨hn, rfl⟩ := (Function.silent_declareAll 0 [] _ List.nodup_nil).mp hd
  have H := Function.holds_tableOf (by simpa using hn) hp
  exact ⟨by simpa using hn, Function.wellTyped_of_silent_all H rfl hp hfs⟩

theorem Program.WellTyped.errors_eq_nil {p : Program} (hp : p.Plain) (h : p.WellTyped)
    (hc : (p.check levels).Complete) : (p.check levels).errors = [] := by
  have hd := (Function.silent_declareAll 0 [] p.functions List.nodup_nil).mpr
    ⟨by simpa using h.names, rfl⟩
  have H := Function.holds_tableOf h.names hp
  have hc := hd.complete_bind.mp hc
  exact (silent_bind.mpr ⟨_, hd, Function.silent_all_of_wellTyped H rfl hp h.functions hc⟩).2

/-- The checker reports nothing in a plain program that it checks to its end exactly if the
program is well typed. -/
theorem Analysis.errors_eq_nil_iff_wellTyped (levels : Nat) (p : Program) (hp : p.Plain)
    (hc : ∀ e ∈ (ofProgram levels p).errors, e.cause ≠ .nestingTooDeep) :
    (ofProgram levels p).errors = [] ↔ p.WellTyped := by
  constructor
  · intro h
    obtain ⟨table, hs⟩ := p.total_check.silent h
    exact Program.wellTyped_of_silent hp hs
  · intro h
    exact h.errors_eq_nil hp hc

/-- Two functions: the first calls the second, hides its own variable in an inner block, and has a
variable of the second one's name. -/
def Program.halving : Program :=
  let s : Span := .point .origin
  let body : List Stmt :=
    [.letVar "half" ⟨"i32", s⟩ (.call "half" [.var "x" s] s) s,
      .ifThen (.binary (.var "half" s) "==" (.integer (some (.int 2)) s) s)
        [.letVar "half" ⟨"bool", s⟩ (.unary "!" (.boolean false s) s) s,
          .ret (some (.var "half" s)) s]
        s s,
      .ret (some (.boolean false s)) s]
  ⟨[⟨"main", [⟨"x", ⟨"i32", s⟩, .origin⟩], ⟨"bool", s⟩, ⟨body, s⟩, s⟩,
    ⟨"half", [⟨"n", ⟨"i32", s⟩, .origin⟩], ⟨"i32", s⟩,
      ⟨[.ret (some (.binary (.var "n" s) "/" (.integer (some (.int 2)) s) s)) s], s⟩, s⟩], s⟩

theorem Program.wellTyped_halving :
    halving.Plain ∧ (Analysis.ofProgram 100 halving).errors = [] ∧ halving.WellTyped := by
  have hp : halving.Plain := by
    intro f hf
    simp only [halving, List.mem_cons, List.not_mem_nil, or_false] at hf
    rcases hf with rfl | rfl <;>
      refine ⟨trivial, List.forall_mem_singleton.mpr ⟨trivial, .inl rfl⟩, ?_, ?_⟩ <;>
      simp [Stmt.AllMeet, Stmt.Meets, Demands.plain, Expr.Plain, Expr.AllPlain, TypeName.Plain,
        unaryOperators, binaryOperators]
  have he : (Analysis.ofProgram 100 halving).errors = [] := by decide
  exact ⟨hp, he, (Analysis.errors_eq_nil_iff_wellTyped 100 halving hp (by simp [he])).mp he⟩

end BracketLang
