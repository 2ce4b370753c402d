import BracketLang.Typing.Check

/-! Checks that report nothing. `x.Silent a` says that a check gives `a` and reports nothing;
`x.Quiet a` says the same of a check that may also run out of levels. Both are closed under
sequencing, and a check that catches running out of levels turns the second into the first. -/

namespace BracketLang.Check

variable {α β : Type} {x : Check α} {f : α → Check β}

/-- The check gives `a` and reports nothing. -/
def Silent (x : Check α) (a : α) : Prop := x.result = some a ∧ x.errors = []

/-- The check reports nothing, and gives `a` unless it runs out of levels. -/
def Quiet (x : Check α) (a : α) : Prop := x.errors = [] ∧ ∀ b, x.result = some b → b = a

/-- No expression was too deep to be checked. -/
def Complete (x : Check α) : Prop := ∀ e ∈ x.errors, e.cause ≠ .nestingTooDeep

/-! ## Sequencing -/

theorem bind_of_none (h : x.result = none) : x >>= f = ⟨none, x.errors, x.types⟩ := by
  simp [bind, h]

theorem bind_of_some (h : x.result = some a) :
    x >>= f = ⟨(f a).result, x.errors ++ (f a).errors, x.types ++ (f a).types⟩ := by
  simp [bind, h]

theorem result_bind_eq_some (h : (x >>= f).result = some b) :
    ∃ a, x.result = some a ∧ (f a).result = some b := by
  cases hx : x.result with
  | none => simp [bind_of_none hx] at h
  | some a => exact ⟨a, rfl, by simpa [bind_of_some hx] using h⟩

theorem errors_prefix_bind (x : Check α) (f : α → Check β) : x.errors <+: (x >>= f).errors := by
  cases h : x.result with
  | none => simp [bind_of_none h]
  | some a => simp [bind_of_some h]

theorem types_prefix_bind (x : Check α) (f : α → Check β) : x.types <+: (x >>= f).types := by
  cases h : x.result with
  | none => simp [bind_of_none h]
  | some a => simp [bind_of_some h]

theorem Complete.of_bind (h : (x >>= f).Complete) : x.Complete :=
  fun e he => h e ((errors_prefix_bind x f).subset he)

theorem Complete.bind_right (h : (x >>= f).Complete) (hx : x.result = some a) :
    (f a).Complete := by
  intro e he
  refine h e ?_
  rw [bind_of_some hx]
  exact List.mem_append_right _ he

@[simp] theorem silent_pure {a b : α} : (pure a : Check α).Silent b ↔ a = b := by
  simp [Silent, pure]

@[simp] theorem silent_annotate : (annotate path t).Silent u := ⟨rfl, rfl⟩

@[simp] theorem not_silent_report : ¬ (report e).Silent u := by simp [Silent, report]

@[simp] theorem not_silent_exhausted {a : α} : ¬ (exhausted : Check α).Silent a := by
  simp [Silent, exhausted]

@[simp] theorem silent_bind : (x >>= f).Silent b ↔ ∃ a, x.Silent a ∧ (f a).Silent b := by
  unfold Silent
  cases h : x.result with
  | none => simp [bind_of_none h]
  | some a =>
    simp only [bind_of_some h, Option.some.injEq, List.append_eq_nil_iff]
    constructor
    · rintro ⟨hb, hx, hf⟩
      exact ⟨a, ⟨rfl, hx⟩, hb, hf⟩
    · rintro ⟨_, ⟨rfl, hx⟩, hb, hf⟩
      exact ⟨hb, hx, hf⟩

@[simp] theorem silent_map {g : α → β} : (g <$> x).Silent b ↔ ∃ a, x.Silent a ∧ g a = b := by
  rw [← bind_pure_comp, silent_bind]
  simp only [silent_pure]

/-- What follows a silent check decides alone. -/
theorem Silent.errors_bind (h : x.Silent a) : (x >>= f).errors = (f a).errors := by
  rw [bind_of_some h.1, h.2]; rfl

theorem Silent.complete_bind (h : x.Silent a) : (x >>= f).Complete ↔ (f a).Complete := by
  unfold Complete
  rw [h.errors_bind]

theorem Silent.quiet (h : x.Silent a) : x.Quiet a := by
  refine ⟨h.2, fun b hb => ?_⟩
  rw [h.1] at hb
  exact (Option.some.inj hb).symm

theorem quiet_pure (a : α) : (pure a : Check α).Quiet a := (silent_pure.mpr rfl).quiet

theorem quiet_annotate (path : Path) (t : Ty) : (annotate path t).Quiet () := silent_annotate.quiet

theorem quiet_exhausted (a : α) : (exhausted : Check α).Quiet a := ⟨rfl, fun _ h => nomatch h⟩

theorem Quiet.bind (hx : x.Quiet a) (hf : (f a).Quiet b) : (x >>= f).Quiet b := by
  cases h : x.result with
  | none => rw [bind_of_none h]; exact ⟨hx.1, fun _ h => nomatch h⟩
  | some a' =>
    cases hx.2 _ h
    rw [bind_of_some h]
    exact ⟨List.append_eq_nil_iff.mpr ⟨hx.1, hf.1⟩, hf.2⟩

theorem Quiet.then_pure (hx : x.Quiet a) (b : β) : (x >>= fun _ => pure b).Quiet b :=
  hx.bind (quiet_pure b)

/-- A quiet check that gives something is silent. -/
theorem Quiet.silent (hx : x.Quiet a) (h : x.result = some b) : x.Silent a := by
  cases hx.2 _ h
  exact ⟨h, hx.1⟩

/-! ## Running out of levels -/

@[simp] theorem silent_orExhausted {b : α} : (x.orExhausted b e).Silent a ↔ x.Silent a := by
  unfold orExhausted
  cases h : x.result with
  | none => simp [Silent, h]
  | some c => rfl

/-- Where the report of running out of levels is missing, the check did not. -/
theorem Complete.of_orExhausted {b : α} (h : (x.orExhausted b e).Complete)
    (he : e.cause = .nestingTooDeep) : x.Complete ∧ ∃ a, x.result = some a := by
  unfold orExhausted at h
  cases hr : x.result with
  | none => exact absurd he (h e (by simp [hr]))
  | some a =>
    simp only [hr] at h
    exact ⟨h, a, rfl⟩

/-- Where the report of running out of levels is missing, nothing was caught. -/
theorem Complete.orExhausted_eq {b : α} (h : (x.orExhausted b e).Complete)
    (he : e.cause = .nestingTooDeep) : x.orExhausted b e = x := by
  obtain ⟨-, a, ha⟩ := h.of_orExhausted he
  simp [orExhausted, ha]

theorem types_orExhausted (b : α) (e : SemanticError) : (x.orExhausted b e).types = x.types := by
  unfold orExhausted
  split <;> rfl

theorem Quiet.silent_orExhausted {b : α} (hx : x.Quiet a)
    (h : (x.orExhausted b e).Complete) (he : e.cause = .nestingTooDeep) :
    (x.orExhausted b e).Silent a := by
  obtain ⟨-, c, hr⟩ := h.of_orExhausted he
  exact Check.silent_orExhausted.mpr (hx.silent hr)

end BracketLang.Check
