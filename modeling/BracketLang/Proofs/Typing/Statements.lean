import BracketLang.Proofs.Typing.Expressions
import BracketLang.Proofs.Typing.Growth

/-! The checker and the typing rules agree on statements. In a function body, a plain statement
that checks in silence is typed and leaves the environment of the table it gives behind
(`Stmt.typed_of_silent`), and a typed statement that is checked to its end is silent and gives a
table of the environment that the rules leave behind (`Stmt.Typed.silent`). -/

namespace BracketLang

variable {levels : Nat}

/-- The table of a place in the body of a function that returns `r`. -/
structure SymbolTable.Inside (table : SymbolTable) (fs : List Function) (r : Ty) : Prop
    extends table.Holds fs where
  nonempty : table.inner ≠ []
  function : ∃ s, table.functionScope? = some s ∧ s.returnType = some r
  result : r.IsValue

namespace SymbolTable

variable {table table' : SymbolTable} {fs : List Function} {r : Ty}

theorem Inside.enter (H : table.Inside fs r) (hk : kind ≠ .function) :
    (table.enter kind name returnType).Inside fs r where
  toHolds := H.toHolds.enter
  nonempty := List.cons_ne_nil _ _
  function := by
    obtain ⟨s, hs, hr⟩ := H.function
    refine ⟨s, ?_, hr⟩
    rw [functionScope?, scopes, SymbolTable.enter, List.cons_append, List.find?_cons_of_neg]
    · exact hs
    · simpa using hk
  result := H.result

/-- Declaring a variable whose name is free adds it to the innermost frame. -/
theorem Inside.declare (H : table.Inside fs r) (ht : t.IsValue)
    (h : table.defineVar x t location node = .ok table') :
    table'.Inside fs r ∧ ∃ φ Γ, table.env = φ :: Γ ∧ x ∉ φ.map Prod.fst ∧
      table'.env = (φ ++ [(x, t)]) :: Γ := by
  obtain ⟨global, _ | ⟨s, ss⟩⟩ := table
  · exact (H.nonempty rfl).elim
  simp only [defineVar, define, Except.map] at h
  split at h <;> cases h
  next s' hs =>
  obtain ⟨hfree, rfl⟩ := Scope.define_eq_ok_iff.mp hs
  refine ⟨⟨⟨?_, H.functions, H.names, H.results, H.params⟩, List.cons_ne_nil _ _, ?_, H.result⟩,
    s.frame, ss.map Scope.frame, rfl, ?_, ?_⟩
  · intro s' hs' y hy
    rcases List.mem_cons.mp hs' with rfl | hs'
    · rcases List.mem_append.mp hy with hy | hy
      · exact H.vars s List.mem_cons_self y hy
      · cases List.mem_singleton.mp hy
        exact ⟨rfl, ht⟩
    · exact H.vars s' (List.mem_cons_of_mem _ hs') y hy
  · obtain ⟨s₀, hs₀, hr⟩ := H.function
    simp only [functionScope?, scopes, List.cons_append, List.find?_cons] at hs₀ ⊢
    cases hk : decide (s.kind = .function) with
    | true =>
      simp only [hk] at hs₀
      cases hs₀
      exact ⟨_, rfl, hr⟩
    | false => exact ⟨s₀, by simpa only [hk] using hs₀, hr⟩
  · rw [Scope.mem_map_fst_frame, hfree]
    simp
  · simp [env, Scope.frame]

theorem Inside.defineVar_of_fresh (H : table.Inside fs r) (henv : table.env = φ :: Γ)
    (hx : x ∉ φ.map Prod.fst) (t : Ty) (l : Location) (n : Option NodeRef) :
    ∃ table', table.defineVar x t l n = .ok table' := by
  obtain ⟨global, _ | ⟨s, ss⟩⟩ := table
  · exact (H.nonempty rfl).elim
  cases henv
  rw [Scope.mem_map_fst_frame, Option.not_isSome_iff_eq_none] at hx
  simp [defineVar, define, Scope.define, hx, Except.map]

end SymbolTable

namespace Stmt

open Check

/-! ## Values and conditions -/

theorem eq_of_silent_expectType (he : t.IsValue) (ha : t'.IsValue)
    (h : (expectType t t' context e path).Silent u) : t' = t := by
  unfold expectType Ty.compatible at h
  by_cases heq : t = t'
  · exact heq.symm
  · simp [he.ne_error, ha.ne_error, heq] at h

theorem expectType_self (t : Ty) (context : String) (e : Expr) (path : Path) :
    expectType t t context e path = pure () := by
  simp [expectType, Ty.compatible]

section
variable {table : SymbolTable} {fs : List Function} {r : Ty}

theorem hasType_of_silent_condition (H : table.Holds fs) (hp : e.Plain)
    (h : (checkCondition levels table path context e).Silent u) : HasType fs table.env e .bool := by
  simp only [checkCondition, silent_bind] at h
  obtain ⟨t, ht, hexp⟩ := h
  have hty := Expr.hasType_of_silent H hp ht
  rwa [← eq_of_silent_expectType (.inr rfl) (hty.isValue H) hexp]

theorem quiet_condition (H : table.Holds fs) (h : HasType fs table.env e .bool) :
    (checkCondition levels table path context e).Quiet () := by
  refine (h.quiet H path).bind ?_
  rw [expectType_self]
  exact quiet_pure ()

/-! ## Single statements -/

theorem typed_of_silent_let (H : table.Inside fs r) (ht : type.Plain) (hp : e.Plain)
    (h : (checkLet levels table n x type e).Silent table') :
    Typed fs r table.env (.letVar x type e s) table'.env ∧ table'.Inside fs r := by
  simp only [checkLet, silent_bind, silent_annotate, true_and] at h
  obtain ⟨t, he, _, hexp, _, hdef⟩ := h
  have hty := Expr.hasType_of_silent H.toHolds hp he
  rw [eq_of_silent_expectType ht.isValue (hty.isValue H.toHolds) hexp] at hty
  cases hd : table.defineVar x (.ofName type.name) n.span.start (some n) with
  | error err => simp [hd, orReport] at hdef
  | ok table₁ =>
    simp only [hd, orReport, silent_pure] at hdef
    subst hdef
    obtain ⟨H', φ, Γ, henv, hx, henv'⟩ := H.declare ht.isValue hd
    rw [henv'] at *
    rw [henv] at hty ⊢
    exact ⟨.letVar hty hx, H'⟩

theorem quiet_let (H : table.Inside fs r) (ht : (Ty.ofName type.name).IsValue)
    (henv : table.env = φ :: Γ) (hty : HasType fs (φ :: Γ) e (.ofName type.name))
    (hx : x ∉ φ.map Prod.fst) :
    ∃ table', (checkLet levels table n x type e).Quiet table' ∧ table'.Inside fs r ∧
      table'.env = (φ ++ [(x, .ofName type.name)]) :: Γ := by
  obtain ⟨table', hd⟩ := H.defineVar_of_fresh henv hx (.ofName type.name) n.span.start (some n)
  obtain ⟨H', φ', Γ', henv', -, henv''⟩ := H.declare ht hd
  cases henv.symm.trans henv'
  refine ⟨table', ?_, H', henv''⟩
  refine ((henv ▸ hty).quiet H.toHolds _).bind ?_
  rw [expectType_self, pure_bind, hd]
  exact (quiet_annotate ..).bind (quiet_pure _)

theorem typed_of_silent_assign (H : table.Holds fs) (hp : e.Plain)
    (h : (checkAssign levels table n x e).Silent u) :
    Typed fs r table.env (.assign x e s) table.env := by
  unfold checkAssign at h
  cases hy : table.findVar? x with
  | none => simp [hy] at h
  | some y =>
    simp only [hy, silent_bind] at h
    obtain ⟨t, ht, hexp⟩ := h
    have hty := Expr.hasType_of_silent H hp ht
    have hx := H.type?_eq_some_iff.mpr ⟨y, hy, rfl⟩
    rw [eq_of_silent_expectType (H.isValue_of_type? hx) (hty.isValue H) hexp] at hty
    exact .assign hx hty

theorem quiet_assign (H : table.Holds fs) (hx : table.env.type? x = some t)
    (hty : HasType fs table.env e t) : (checkAssign levels table n x e).Quiet () := by
  obtain ⟨y, hy, rfl⟩ := H.type?_eq_some_iff.mp hx
  simp only [checkAssign, hy]
  refine (hty.quiet H _).bind ?_
  rw [expectType_self]
  exact quiet_pure ()

/-- The function around a `return` is the one whose result type the table holds. -/
theorem checkReturn_eq (H : table.Inside fs r) (value : Option Expr) :
    ∃ err : Ty → SemanticError, checkReturn levels table n value =
      value.elim (pure .unit) (·.check levels table (0 :: n.path)) >>= fun t =>
        if !r.compatible t then report (err t) else pure () := by
  obtain ⟨⟨kind, name, symbols, returnType⟩, hs, hr⟩ := H.function
  cases hr
  cases value <;> exact ⟨_, by simp only [checkReturn, hs]; rfl⟩

theorem typed_of_silent_ret (H : table.Inside fs r) (hp : (Stmt.ret value s).Plain)
    (h : (checkReturn levels table n value).Silent u) :
    Typed fs r table.env (.ret value s) table.env := by
  obtain ⟨_, heq⟩ := checkReturn_eq (n := n) H value
  rw [heq, silent_bind] at h
  obtain ⟨t, ht, hcmp⟩ := h
  have hcompat : r.compatible t = true := by
    cases hc : r.compatible t with
    | true => rfl
    | false => simp [hc] at hcmp
  cases value with
  | none =>
    rw [← silent_pure.mp ht] at hcompat
    rcases H.result with rfl | rfl <;> simp [Ty.compatible] at hcompat
  | some e =>
    have hty := Expr.hasType_of_silent H.toHolds hp ht
    have hrt : r = t := by
      simpa [Ty.compatible, H.result.ne_error, (hty.isValue H.toHolds).ne_error] using hcompat
    exact .ret (hrt ▸ hty)

theorem quiet_ret (H : table.Inside fs r) (hty : HasType fs table.env e r) :
    (checkReturn levels table n (some e)).Quiet () := by
  obtain ⟨_, heq⟩ := checkReturn_eq (n := n) H (some e)
  rw [heq]
  refine (hty.quiet H.toHolds _).bind ?_
  simpa [Ty.compatible] using quiet_pure ()

end

/-! ## Soundness -/

mutual

/-- A plain statement that checks in silence is typed. -/
theorem typed_of_silent {table table' : SymbolTable} {fs : List Function} {r : Ty}
    (H : table.Inside fs r) (path : Path) (s : Stmt) (hp : s.Plain)
    (h : (s.check levels table path).Silent table') :
    Typed fs r table.env s table'.env ∧ table'.Inside fs r := by
  match s with
  | letVar .. =>
    rw [check, silent_orExhausted] at h
    exact typed_of_silent_let H hp.2.1 hp.2.2 h
  | assign .. =>
    rw [check, silent_orExhausted, silent_bind] at h
    obtain ⟨_, h, ht⟩ := h
    cases silent_pure.mp ht
    exact ⟨typed_of_silent_assign H.toHolds hp.2 h, H⟩
  | ifThen c ss .. | whileLoop c ss .. =>
    simp only [check, silent_orExhausted, silent_bind, silent_pure] at h
    obtain ⟨_, hc, t, hss, ht⟩ := h
    have hg := gives_checkAll _ _ _ _ _ hss.1
    cases hg.leave_of_enter.symm.trans ht
    have hty := hasType_of_silent_condition H.toHolds hp.1 hc
    have hbody := (allTyped_of_silent (H.enter (by simp)) _ _ ss hp.2 hss).1
    refine ⟨?_, H⟩
    constructor
    · exact hty
    · exact hbody
  | ifElse c ss _ ss' _ _ =>
    simp only [check, silent_orExhausted, silent_bind, silent_pure] at h
    obtain ⟨_, hc, t, hss, t', hss', ht⟩ := h
    have hg := gives_checkAll _ _ _ _ _ hss.1
    rw [hg.leave_of_enter] at hss'
    have hg' := gives_checkAll _ _ _ _ _ hss'.1
    cases hg'.leave_of_enter.symm.trans ht
    have hty := hasType_of_silent_condition H.toHolds hp.1 hc
    have hthen := (allTyped_of_silent (H.enter (by simp)) _ _ ss hp.2.1 hss).1
    have helse := (allTyped_of_silent (H.enter (by simp)) _ _ ss' hp.2.2 hss').1
    exact ⟨.ifElse hty hthen helse, H⟩
  | ret .. =>
    rw [check, silent_orExhausted, silent_bind] at h
    obtain ⟨_, h, ht⟩ := h
    cases silent_pure.mp ht
    exact ⟨typed_of_silent_ret H hp h, H⟩
  | print .. =>
    simp only [check, silent_orExhausted, silent_bind, silent_pure] at h
    obtain ⟨t, h, rfl⟩ := h
    exact ⟨.print (Expr.hasType_of_silent H.toHolds hp h), H⟩
  | expr .. =>
    simp only [check, silent_orExhausted, silent_bind, silent_pure] at h
    obtain ⟨t, h, rfl⟩ := h
    exact ⟨.expr (Expr.hasType_of_silent H.toHolds hp h), H⟩
  | block .. => exact hp.elim

theorem allTyped_of_silent {table table' : SymbolTable} {fs : List Function} {r : Ty}
    (H : table.Inside fs r) (path : Path) (i : Nat) (ss : List Stmt) (hp : AllMeet .plain ss)
    (h : (checkAll levels table path i ss).Silent table') :
    AllTyped fs r table.env ss table'.env ∧ table'.Inside fs r := by
  match ss with
  | [] =>
    cases silent_pure.mp h
    exact ⟨.nil, H⟩
  | s :: ss =>
    rw [checkAll, silent_bind] at h
    obtain ⟨t, hs, hss⟩ := h
    obtain ⟨hty, H'⟩ := typed_of_silent H _ s hp.1 hs
    obtain ⟨htys, H''⟩ := allTyped_of_silent H' _ _ ss hp.2 hss
    exact ⟨.cons hty htys, H''⟩

end

/-! ## Completeness -/

mutual

/-- A typed statement that is checked to its end checks in silence. -/
theorem Typed.silent {table : SymbolTable} {fs : List Function} {r : Ty} {Γ : Env}
    (H : table.Inside fs r) (path : Path) (s : Stmt) (h : Typed fs r table.env s Γ)
    (hc : (s.check levels table path).Complete) :
    ∃ table', (s.check levels table path).Silent table' ∧ table'.env = Γ ∧ table'.Inside fs r := by
  generalize henv : table.env = Γ₀ at h
  match s, h with
  | letVar .., .letVar hty hx =>
    have hv := (henv ▸ hty).isValue H.toHolds
    obtain ⟨table', hq, H', henv'⟩ := quiet_let H hv henv hty hx
    exact ⟨table', hq.silent_orExhausted hc rfl, henv', H'⟩
  | assign .., .assign hx hty =>
    subst henv
    exact ⟨table, ((quiet_assign H.toHolds hx hty).then_pure table).silent_orExhausted hc rfl,
      rfl, H⟩
  | ifThen c ss .., .ifThen hty hbody | whileLoop c ss .., .whileLoop hty hbody =>
    subst henv
    obtain ⟨hc, _, hr⟩ := hc.of_orExhausted rfl
    obtain ⟨_, hr, -⟩ := result_bind_eq_some hr
    have hcond := (quiet_condition H.toHolds hty).silent hr
    have hc := (hcond.complete_bind.mp hc).of_bind
    obtain ⟨t, hss, -, -⟩ := hbody.silent (H.enter (by simp)) _ _ ss hc
    have hleave := (gives_checkAll _ _ _ _ _ hss.1).leave_of_enter
    refine ⟨table, silent_orExhausted.mpr ?_, rfl, H⟩
    exact silent_bind.mpr ⟨_, hcond, silent_bind.mpr ⟨t, hss, silent_pure.mpr hleave⟩⟩
  | ifElse c ss _ ss' _ _, .ifElse hty hthen helse =>
    subst henv
    obtain ⟨hc, _, hr⟩ := hc.of_orExhausted rfl
    obtain ⟨_, hr, -⟩ := result_bind_eq_some hr
    have hcond := (quiet_condition H.toHolds hty).silent hr
    have hc := hcond.complete_bind.mp hc
    obtain ⟨t, hss, -, -⟩ := hthen.silent (H.enter (by simp)) _ _ ss hc.of_bind
    have hleave := (gives_checkAll _ _ _ _ _ hss.1).leave_of_enter
    have hc := hss.complete_bind.mp hc
    rw [hleave] at hc
    obtain ⟨t', hss', -, -⟩ := helse.silent (H.enter (by simp)) _ _ ss' hc.of_bind
    have hleave' := (gives_checkAll _ _ _ _ _ hss'.1).leave_of_enter
    refine ⟨table, silent_orExhausted.mpr ?_, rfl, H⟩
    refine silent_bind.mpr ⟨_, hcond, silent_bind.mpr ⟨t, hss, ?_⟩⟩
    rw [hleave]
    exact silent_bind.mpr ⟨t', hss', silent_pure.mpr hleave'⟩
  | ret .., .ret hty =>
    subst henv
    exact ⟨table, ((quiet_ret H hty).then_pure table).silent_orExhausted hc rfl, rfl, H⟩
  | print .., .print hty | expr .., .expr hty =>
    subst henv
    exact ⟨table, ((hty.quiet H.toHolds _).then_pure table).silent_orExhausted hc rfl, rfl, H⟩

theorem AllTyped.silent {table : SymbolTable} {fs : List Function} {r : Ty} {Γ : Env}
    (H : table.Inside fs r) (path : Path) (i : Nat) (ss : List Stmt)
    (h : AllTyped fs r table.env ss Γ) (hc : (checkAll levels table path i ss).Complete) :
    ∃ table', (checkAll levels table path i ss).Silent table' ∧ table'.env = Γ ∧
      table'.Inside fs r := by
  match ss, h with
  | [], .nil => exact ⟨table, silent_pure.mpr rfl, rfl, H⟩
  | s :: ss, .cons hty htys =>
    obtain ⟨t, hs, rfl, H'⟩ := hty.silent H _ s hc.of_bind
    obtain ⟨t', hss, henv, H''⟩ := htys.silent H' _ _ ss (hs.complete_bind.mp hc)
    exact ⟨t', silent_bind.mpr ⟨t, hs, hss⟩, henv, H''⟩

end

end Stmt

end BracketLang
