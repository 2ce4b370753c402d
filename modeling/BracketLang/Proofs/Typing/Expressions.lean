import BracketLang.Proofs.Typing.Silence
import BracketLang.Proofs.Typing.Tables
import BracketLang.Proofs.Typing.Walk

/-! The checker and the typing rules agree on expressions. A check that is silent gives the type
of a plain expression (`hasType_of_silent`), and the check of a typed expression is quiet at its
type (`HasType.quiet`): it reports nothing, and gives nothing else, unless it runs out of levels. -/

namespace BracketLang

variable {levels : Nat}

/-! ## Operators -/

theorem OperatorClass.of_mem_binaryOperators {op : String} (h : op ∈ binaryOperators) :
    (ofText? op = some arithmetic ∧ op ∈ ["+", "-", "*", "/"]) ∨
      (ofText? op = some relational ∧ op ∈ ["<", ">", "<=", ">="]) ∨
      (ofText? op = some equality ∧ op ∈ ["==", "!="]) ∨
      (ofText? op = some logical ∧ op ∈ ["&&", "||"]) := by
  simp only [binaryOperators, List.mem_cons, List.not_mem_nil, or_false] at h
  rcases h with rfl | rfl | rfl | rfl | rfl | rfl | rfl | rfl | rfl | rfl | rfl | rfl <;>
    simp [ofText?]

theorem BinaryRule.mem_binaryOperators (h : BinaryRule op t r) : op ∈ binaryOperators := by
  cases h <;> simp_all [binaryOperators] <;> grind

namespace Link

variable {l : Link}

theorem both_self (l : Link) (t r : Ty) : l.both t r t t = pure r := by simp [both]

theorem silent_both (h : (l.both t r tl tr).Silent r') : tl = t ∧ tr = t ∧ r = r' := by
  unfold both at h
  by_cases hl : tl = t
  · by_cases hr : tr = t
    · simp_all
    · simp [hl, hr] at h
  · simp [hl] at h

/-- The result of an operator that has a rule for the types of its operands. -/
theorem resultType_of_rule (h : BinaryRule l.operator t r) : l.resultType t t = pure r := by
  have hv : t.IsValue := by cases h <;> simp_all [Ty.IsValue]
  have he := hv.ne_error
  rcases OperatorClass.of_mem_binaryOperators h.mem_binaryOperators with
    ⟨ho, hm⟩ | ⟨ho, hm⟩ | ⟨ho, hm⟩ | ⟨ho, hm⟩ <;> cases h <;>
    simp_all [resultType, both_self] <;> grind

/-- An operator that gives a result in silence has a rule for the types of its operands. -/
theorem rule_of_silent (ho : l.operator ∈ binaryOperators) (hl : tl.IsValue)
    (hr : tr.IsValue) (h : (l.resultType tl tr).Silent r) :
    tl = tr ∧ BinaryRule l.operator tl r := by
  unfold resultType at h
  rw [if_neg (by simp [hl.ne_error, hr.ne_error])] at h
  rcases OperatorClass.of_mem_binaryOperators ho with ⟨ho, hm⟩ | ⟨ho, hm⟩ | ⟨ho, hm⟩ | ⟨ho, hm⟩ <;>
    simp only [ho] at h
  · obtain ⟨rfl, rfl, rfl⟩ := silent_both h
    exact ⟨rfl, .arithmetic hm⟩
  · obtain ⟨rfl, rfl, rfl⟩ := silent_both h
    exact ⟨rfl, .relational hm⟩
  · by_cases heq : tl = tr
    · subst heq
      rw [if_pos rfl, Check.silent_pure] at h
      exact ⟨rfl, h ▸ .equality hm hl⟩
    · simp [heq] at h
  · obtain ⟨rfl, rfl, rfl⟩ := silent_both h
    exact ⟨rfl, .logical hm⟩

end Link

namespace Expr

theorem rule_of_silent_unary (ho : op ∈ unaryOperators) (ht : t.IsValue)
    (h : (checkUnary op e t n).Silent r) : t = r ∧ UnaryRule op t := by
  simp only [unaryOperators, List.mem_cons, List.not_mem_nil, or_false] at ho
  rcases ho with rfl | rfl <;> rcases ht with rfl | rfl <;>
    simp [checkUnary] at h
  · exact ⟨h, .minus⟩
  · exact ⟨h, .not⟩

theorem checkUnary_of_rule (h : UnaryRule op t) : checkUnary op e t n = pure t := by
  cases h <;> rfl

/-! ## Arguments -/

theorem compareArgs_self (name : String) (path : Path) (i : Nat) (es : List Expr) (ts : List Ty) :
    compareArgs name path i es ts ts = pure () := by
  induction ts generalizing i es with
  | nil => cases es <;> rfl
  | cons t ts ih =>
    cases es with
    | nil => rfl
    | cons e es => simp [compareArgs, Ty.compatible, ih]

theorem eq_of_silent_compareArgs (hes : es.length = args.length)
    (hlen : params.length = args.length) (hp : ∀ t ∈ params, t.IsValue)
    (ha : ∀ t ∈ args, t.IsValue)
    (h : (compareArgs name path i es params args).Silent u) : args = params := by
  induction args generalizing i es params with
  | nil => exact (List.eq_nil_of_length_eq_zero hlen).symm
  | cons t args ih =>
    obtain ⟨e, es, rfl⟩ := List.exists_cons_of_length_eq_add_one hes
    obtain ⟨p, params, rfl⟩ := List.exists_cons_of_length_eq_add_one hlen
    simp only [List.mem_cons, forall_eq_or_imp] at hp ha
    have hpt : p = t := by
      by_contra hne
      simp [compareArgs, Ty.compatible, hp.1.ne_error, ha.1.ne_error, hne] at h
    subst hpt
    simp only [compareArgs, Ty.compatible, decide_true, Bool.or_true, Bool.not_true] at h
    rw [ih (by simpa using hes) (by simpa using hlen) hp.2 ha.2 h]

/-- Noting the type makes no difference to what is reported. -/
theorem silent_noted {x : Check Ty} (h : (noted path x).Silent t) : x.Silent t := by
  obtain ⟨_, hx, hrest⟩ := Check.silent_bind.mp h
  obtain ⟨_, -, hpure⟩ := Check.silent_bind.mp hrest
  exact Check.silent_pure.mp hpure ▸ hx

theorem quiet_noted {x : Check Ty} (h : x.Quiet t) : (noted path x).Quiet t :=
  h.bind ((Check.quiet_annotate ..).bind (Check.quiet_pure t))

end Expr

/-! ## Soundness -/

section
variable {table : SymbolTable} {fs : List Function} (H : table.Holds fs)
include H

theorem HasType.isValue (h : HasType fs table.env e t) : t.IsValue := by
  cases h with
  | integer => exact .inl rfl
  | boolean => exact .inr rfl
  | var h => exact H.isValue_of_type? h
  | unary h _ => cases h <;> simp [Ty.IsValue]
  | binary h _ _ => cases h <;> simp [Ty.IsValue]
  | call hf _ _ => exact H.results _ hf

namespace Expr

theorem hasType_of_silent_var (h : (checkVar table x n).Silent t) :
    HasType fs table.env (.var x s) t := by
  unfold checkVar at h
  cases hy : table.findVar? x with
  | none => simp [hy] at h
  | some y =>
    simp only [hy, Check.silent_pure] at h
    exact .var (H.type?_eq_some_iff.mpr ⟨y, hy, h⟩)

theorem hasType_of_silent_call {types : Check (List Ty)}
    (hes : ∀ ts, types.Silent ts → List.Forall₂ (HasType fs table.env) es ts)
    (h : (checkCallWith table x es types n).Silent t) : HasType fs table.env (.call x es s) t := by
  unfold checkCallWith at h
  cases hy : table.findFunction? x with
  | none => simp [hy] at h
  | some y =>
    obtain ⟨f, hf, rfl, rfl⟩ := H.mem_of_findFunction? hy
    simp only [hy] at h
    by_cases harity : f.symbol.arity = es.length
    · simp only [harity, if_true, Check.silent_bind, Check.silent_pure] at h
      obtain ⟨ts, hts, _, hcmp, rfl⟩ := h
      have hes := hes ts hts
      have hvals : ∀ t ∈ ts, t.IsValue := by
        intro t ht
        obtain ⟨i, hi, rfl⟩ := List.mem_iff_getElem.mp ht
        exact HasType.isValue H (List.Forall₂.get hes (hes.length_eq ▸ hi) hi)
      have hts : ts = f.paramTypes := eq_of_silent_compareArgs hes.length_eq
        (harity.trans hes.length_eq) (H.params f hf) hvals hcmp
      exact .call hf rfl (hts ▸ hes)
    · simp [harity] at h

/-- What is checked in silence is typed, if its parts are. -/
theorem walk_silent : Walk table
    (fun _ _ e x => ∀ t, e.Plain → x.Silent t → HasType fs table.env e t)
    (fun _ _ _ es x => ∀ ts, AllPlain es → x.Silent ts →
      List.Forall₂ (HasType fs table.env) es ts) where
  exhausted _ _ h := (Check.not_silent_exhausted h).elim
  integer _ _ h := by
    exact Check.silent_pure.mp (silent_noted h) ▸ .integer
  boolean _ _ h := by
    exact Check.silent_pure.mp (silent_noted h) ▸ .boolean
  typeName _ hp := hp.elim
  var _ _ h := hasType_of_silent_var H (silent_noted h)
  unary {n path op e s x} ih t hp h := by
    obtain ⟨te, he, ho⟩ := Check.silent_bind.mp (silent_noted h)
    have hte := ih te hp.2 he
    obtain ⟨rfl, hrule⟩ := rule_of_silent_unary hp.1 (hte.isValue H) ho
    exact .unary hrule hte
  binary {n path l op r s x y} ihl ihr t hp h := by
    obtain ⟨tl, hl, hrest⟩ := Check.silent_bind.mp (silent_noted h)
    obtain ⟨tr, hr, ho⟩ := Check.silent_bind.mp hrest
    have htl := ihl tl hp.2.1 hl
    have htr := ihr tr hp.2.2 hr
    obtain ⟨rfl, hrule⟩ := Link.rule_of_silent hp.1 (htl.isValue H) (htr.isValue H) ho
    exact .binary hrule htl htr
  call ih t hp h := hasType_of_silent_call H (fun ts hts => ih ts hp hts) (silent_noted h)
  nil ts _ h := by
    cases Check.silent_pure.mp h
    exact .nil
  cons {n path i e es x y} ihe ihes ts hp h := by
    simp only [Check.silent_bind, Check.silent_pure] at h
    obtain ⟨t, ht, ts', hts, rfl⟩ := h
    exact .cons (ihe t hp.1 ht) (ihes ts' hp.2 hts)

/-- A plain expression that checks in silence has the type that the check gives. -/
theorem hasType_of_silent (hp : e.Plain) (h : (e.check levels table path).Silent t) :
    HasType fs table.env e t := (walk_silent H).check levels path e t hp h

end Expr

/-! ## Completeness -/

namespace HasType

theorem quiet_call {types : Check (List Ty)} (hf : f ∈ fs)
    (hes : List.Forall₂ (HasType fs table.env) es f.paramTypes)
    (h : types.Quiet f.paramTypes) :
    (Expr.checkCallWith table f.name es types n).Quiet f.resultType := by
  have harity : f.symbol.arity = es.length := hes.length_eq.symm
  simp only [Expr.checkCallWith, H.findFunction?_of_mem hf, harity, if_true]
  refine h.bind ?_
  rw [show f.symbol.params = f.paramTypes from rfl, Expr.compareArgs_self, pure_bind]
  exact Check.quiet_pure _

/-- The check of a typed expression is quiet, if those of its parts are. -/
theorem walk_quiet : Expr.Walk table
    (fun _ _ e x => ∀ t, HasType fs table.env e t → x.Quiet t)
    (fun _ _ _ es x => ∀ ts, List.Forall₂ (HasType fs table.env) es ts → x.Quiet ts) where
  exhausted t _ := Check.quiet_exhausted t
  integer t h := by
    cases h
    exact Expr.quiet_noted (Check.quiet_pure _)
  boolean t h := by
    cases h
    exact Expr.quiet_noted (Check.quiet_pure _)
  typeName t h := by cases h
  var t h := by
    cases h with
    | var hx =>
      obtain ⟨y, hy, rfl⟩ := H.type?_eq_some_iff.mp hx
      refine Expr.quiet_noted ?_
      rw [Expr.checkVar, hy]
      exact Check.quiet_pure _
  unary ih t h := by
    cases h with
    | unary hrule he =>
      refine Expr.quiet_noted ((ih _ he).bind ?_)
      rw [Expr.checkUnary_of_rule hrule]
      exact Check.quiet_pure _
  binary ihl ihr t h := by
    cases h with
    | binary hrule hl hr =>
      refine Expr.quiet_noted ((ihl _ hl).bind ((ihr _ hr).bind ?_))
      rw [Link.resultType_of_rule hrule]
      exact Check.quiet_pure _
  call ih t h := by
    cases h with
    | call hf hx hes =>
      subst hx
      exact Expr.quiet_noted (quiet_call H hf hes (ih _ hes))
  nil ts h := by
    cases h
    exact Check.quiet_pure _
  cons ihe ihes ts h := by
    cases h with
    | cons ht hts => exact (ihe _ ht).bind ((ihes _ hts).bind (Check.quiet_pure _))

/-- Nothing is reported in a typed expression. -/
theorem quiet (path : Path) (h : HasType fs table.env e t) : (e.check levels table path).Quiet t :=
  (walk_quiet H).check levels path e t h

end HasType

end

end BracketLang
