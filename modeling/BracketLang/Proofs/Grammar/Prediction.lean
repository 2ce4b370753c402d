import BracketLang.Proofs.Grammar.Unambiguous

/-! Parsers that blame the earliest token. A `Phrase` is a set of lists of tokens, those that a
production derives. `Parser.PredictsAt c x L F` says of the parser `x` at the place `c` that, with
`F` the kinds that may follow:

* if it gives a result without an error, the tokens that it took are in `L`, and no other beginning
  of what it has seen is, whatever comes behind;
* if there is an error, and the first one is not that an expression nests too deep, then what was
  taken by then goes on to some phrase of `L`, but no phrase of `L` goes on with the next token.

The first part says which tokens to give to a production in a sequence, so that the second carries
over from the parts of a sequence to the whole (`PredictsAt.bind`). -/

namespace BracketLang

/-- A set of lists of tokens. -/
abbrev Phrase := List Token → Prop

namespace Phrase

/-- No tokens. -/
def nil : Phrase := (· = [])

/-- One token of a kind in `K`. -/
def oneOf (K : TokenKind → Prop) : Phrase := fun ts => ∃ t, K t.kind ∧ ts = [t]

/-- One token of kind `k`. -/
def token (k : TokenKind) : Phrase := oneOf (· = k)

/-- A phrase of the one, then a phrase of the other. -/
def andThen (L L' : Phrase) : Phrase := fun ts => ∃ us vs, L us ∧ L' vs ∧ ts = us ++ vs

/-- A phrase of one of the two. -/
def or (L L' : Phrase) : Phrase := fun ts => L ts ∨ L' ts

/-- Phrases of `L`, each behind a comma. -/
inductive more (L : Phrase) : Phrase
  | nil : more L []
  | cons {comma ts us} (hcomma : comma.kind = .comma) (h : L ts) (hmore : more L us) :
    more L (comma :: (ts ++ us))

/-- Phrases of `L` with commas between them. -/
def items (L : Phrase) : Phrase := nil.or (L.andThen L.more)

theorem more_of_moreItems {S : List Token → α → Prop} (h : Parser.MoreItems S ts as)
    (hS : ∀ ts a, S ts a → L ts) : more L ts := by
  induction h with
  | nil => exact .nil
  | cons comma h _ ih => exact .cons comma.property (hS _ _ h) ih

theorem nonempty_oneOf {K : TokenKind → Prop} (h : K k) : ∃ ts, oneOf K ts :=
  ⟨_, ⟨k, "", none, .origin⟩, h, rfl⟩

theorem oneOf_cons {K : TokenKind → Prop} (h : K t.kind) (hL : L ts) :
    ((oneOf K).andThen L) (t :: ts) :=
  ⟨[t], ts, ⟨t, h, rfl⟩, hL, rfl⟩

theorem nextKind_token (h : token k ts) : nextKind (ts ++ r) = k := by
  obtain ⟨t, ht, rfl⟩ := h
  exact ht

theorem nextKind_andThen (h : ((token k).andThen L) ts) : nextKind (ts ++ r) = k := by
  obtain ⟨us, vs, hus, -, rfl⟩ := h
  rw [List.append_assoc]
  exact nextKind_token hus

end Phrase

instance : Nonempty Token := ⟨.eofAt .origin⟩
instance : Nonempty Expr := ⟨.integer none .nowhere⟩
instance : Nonempty TypeName := ⟨⟨"", .nowhere⟩⟩
instance : Nonempty Block := ⟨⟨[], .nowhere⟩⟩
instance : Nonempty Param := ⟨⟨"", ⟨"", .nowhere⟩, .origin⟩⟩

namespace SyntaxError

/-- Whether the error is that an expression nests too deep. -/
def IsNesting (e : SyntaxError) : Prop := ∃ limit, e.cause = .nestingTooDeep limit

end SyntaxError

namespace Parser

open ParserState Phrase

variable {α β : Type} {x : Parser α} {f : α → Parser β} {L L' L₁ L₂ : Phrase}
  {F F' F₁ : TokenKind → Prop} {c : Cursor} {s s' : ParserState}

/-- The errors on record at the end of a run, and the one that it failed with. -/
def reported : EStateM.Result SyntaxError ParserState α → List SyntaxError
  | .ok _ s => s.errors
  | .error e s => s.errors ++ [e]

/-- The first error that is new. -/
def FirstError (x : Parser α) (s : ParserState) (e : SyntaxError) : Prop :=
  ∃ es, reported (x s) = s.errors ++ e :: es

/-- The error blames a token such that what stands between the place `c` and the token begins a
phrase, but with the token begins none. -/
def Stuck (L : Phrase) (F : TokenKind → Prop) (c : Cursor) (e : SyntaxError) : Prop :=
  ∃ ts r, c.rest = ts ++ r ∧ e.found = Cursor.peek ⟨ts.reverse ++ c.before, r⟩ ∧
    (∃ us, L (ts ++ us)) ∧
    ∀ us r' q, L us → F (nextKind r') → nextKind q = nextKind r → us ++ r' ≠ ts ++ q

/-- At the place `c` the parser takes phrases of `L` in front of kinds in `F`, and blames the first
token that does not fit. -/
structure PredictsAt (c : Cursor) (x : Parser α) (L : Phrase) (F : TokenKind → Prop) : Prop where
  steady : x.Steady
  nonempty : ∃ ts, L ts
  takes {s a s'} : s.toCursor = c → x s = .ok a s' → s'.errors = s.errors →
    ∃ ts, s.Takes ts s' ∧ L ts ∧ ∀ us r q, L us → F (nextKind r) → nextKind q = nextKind s'.rest →
      us ++ r = ts ++ q → us = ts
  stuck {s e} : s.toCursor = c → FirstError x s e → ¬e.IsNesting → Stuck L F c e

/-- The same at every place with at most `n` tokens to come. -/
def Predicts (n : Nat) (x : Parser α) (L : Phrase) (F : TokenKind → Prop) : Prop :=
  ∀ c : Cursor, c.rest.length ≤ n → PredictsAt c x L F

theorem Predicts.mono (h : Predicts n x L F) (hm : m ≤ n) : Predicts m x L F :=
  fun c hc => h c (Nat.le_trans hc hm)

theorem Predicts.steady (h : Predicts n x L F) : x.Steady :=
  (h ⟨[], []⟩ (Nat.zero_le n)).steady

theorem Predicts.nonempty (h : Predicts n x L F) : ∃ ts, L ts :=
  (h ⟨[], []⟩ (Nat.zero_le n)).nonempty

/-! ## Errors in a sequence -/

theorem prefix_reported (h : x.Steady) (s : ParserState) : s.errors <+: reported (x s) := by
  cases hx : x s with
  | ok a s' => exact (h.ok hx).errors
  | error e s' => exact (h.error hx).errors.trans (List.prefix_append ..)

theorem FirstError.of_ok (h : FirstError x s e) (hx : x s = .ok a s') :
    ∃ es, s'.errors = s.errors ++ e :: es := by
  obtain ⟨es, hes⟩ := h
  rw [hx] at hes
  exact ⟨es, hes⟩

/-- The first error of a sequence is the first of its first part, or that part has none and the
error is the first of the rest. -/
theorem FirstError.bind_cases (h : FirstError (x >>= f) s e) (hx : x.Steady)
    (hf : ∀ a, (f a).Steady) : FirstError x s e ∨
      ∃ a s', x s = .ok a s' ∧ s'.errors = s.errors ∧ FirstError (f a) s' e := by
  obtain ⟨es, hes⟩ := h
  cases hok : x s with
  | error e' s' =>
    refine .inl ⟨es, ?_⟩
    rw [← hes]
    simp only [bind, EStateM.bind, hok, reported]
  | ok a s' =>
    have hrun : (x >>= f) s = f a s' := by simp only [bind, EStateM.bind, hok]
    rw [hrun] at hes
    obtain ⟨new, hnew⟩ := (hx.ok hok).errors
    obtain ⟨later, hlater⟩ := prefix_reported (hf a) s'
    cases new with
    | nil =>
      rw [List.append_nil] at hnew
      exact .inr ⟨a, s', rfl, hnew.symm, es, by rw [hes, hnew]⟩
    | cons e' new =>
      refine .inl ⟨new, ?_⟩
      rw [← hlater, ← hnew, List.append_assoc, List.append_cancel_left_eq, List.cons_append,
        List.cons.injEq] at hes
      rw [hok, reported, ← hnew, hes.1]

theorem not_firstError_of_ok (hx : x s = .ok a s') (he : s'.errors = s.errors) :
    ¬FirstError x s e := by
  intro h
  obtain ⟨es, hes⟩ := h.of_ok hx
  rw [he] at hes
  exact absurd (congrArg List.length hes) (by simp)

theorem eq_of_firstError_throw (h : FirstError (throw e : Parser α) s e') : e' = e := by
  obtain ⟨es, hes⟩ := h
  have hes : s.errors ++ [e] = s.errors ++ e' :: es := hes
  rw [List.append_cancel_left_eq, List.cons.injEq] at hes
  exact hes.1.symm

/-! ## Sequences -/

theorem nextKind_append_congr (h : nextKind q = nextKind r) (ts : List Token) :
    nextKind (ts ++ q) = nextKind (ts ++ r) := by
  cases ts with
  | nil => exact h
  | cons t ts => rfl

namespace PredictsAt

theorem pure (a : α) (c : Cursor) : PredictsAt c (pure a) nil F where
  steady := steady_pure a
  nonempty := ⟨[], rfl⟩
  takes := by
    rintro s b s' - h -
    obtain ⟨rfl, rfl⟩ := pure_eq_ok.mp h
    exact ⟨[], .refl _, rfl, fun us _ _ hus _ _ _ => hus⟩
  stuck _ h := absurd h (not_firstError_of_ok rfl rfl)

/-- A sequence, whose second part may depend on what the first one took. -/
theorem sequence (hx : PredictsAt c x L₁ F₁) (L₂ : List Token → Phrase)
    (hsteady : ∀ a, (f a).Steady)
    (hf : ∀ {s a s' ts}, s.toCursor = c → x s = .ok a s' → s.Takes ts s' → L₁ ts →
      PredictsAt s'.toCursor (f a) (L₂ ts) F)
    (hne : ∀ ts, L₁ ts → ∃ us, L₂ ts us) (hL : ∀ ts us, L₁ ts → L₂ ts us → L (ts ++ us))
    (hsplit : ∀ us r, L us → F (nextKind r) →
      ∃ us₁ us₂, us = us₁ ++ us₂ ∧ L₁ us₁ ∧ L₂ us₁ us₂ ∧ F₁ (nextKind (us₂ ++ r))) :
    PredictsAt c (x >>= f) L F where
  steady := hx.steady.bind hsteady
  nonempty := by
    obtain ⟨ts, hts⟩ := hx.nonempty
    obtain ⟨us, hus⟩ := hne ts hts
    exact ⟨ts ++ us, hL ts us hts hus⟩
  takes := by
    intro s b s'' hc h he
    obtain ⟨a, s', h₁, h₂⟩ := bind_eq_ok.mp h
    obtain ⟨he₁, he₂⟩ := (hx.steady.ok h₁).errors_eq ((hsteady a).ok h₂) he
    obtain ⟨ts, htakes, hts, hone⟩ := hx.takes hc h₁ he₁
    obtain ⟨us, htakes', hus, hone'⟩ := (hf hc h₁ htakes hts).takes rfl h₂ he₂
    refine ⟨ts ++ us, htakes.trans htakes', hL ts us hts hus, fun vs r q hvs hr hq heq => ?_⟩
    obtain ⟨vs₁, vs₂, rfl, hvs₁, hvs₂, hr₁⟩ := hsplit vs r hvs hr
    rw [List.append_assoc, List.append_assoc] at heq
    have hq' : nextKind (us ++ q) = nextKind s'.rest := by
      rw [htakes'.rest, nextKind_append_congr hq]
    obtain rfl := hone vs₁ _ _ hvs₁ hr₁ hq' heq
    rw [hone' vs₂ r q hvs₂ hr hq (List.append_cancel_left heq)]
  stuck := by
    intro s e hc h he
    rcases h.bind_cases hx.steady hsteady with h | ⟨a, s', hok, hclean, h⟩
    · obtain ⟨ts, r, hrest, hfound, ⟨us, hus⟩, hstuck⟩ := hx.stuck hc h he
      obtain ⟨vs, hvs⟩ := hne _ hus
      refine ⟨ts, r, hrest, hfound, ⟨us ++ vs, ?_⟩, fun ws r' q hws hr' hq heq => ?_⟩
      · simpa using hL _ vs hus hvs
      · obtain ⟨ws₁, ws₂, rfl, hws₁, -, hr₁⟩ := hsplit ws r' hws hr'
        exact hstuck ws₁ _ q hws₁ hr₁ hq (by rw [← heq, List.append_assoc])
    · obtain ⟨ts, htakes, hts, hone⟩ := hx.takes hc hok hclean
      obtain ⟨us, r, hrest, hfound, ⟨vs, hvs⟩, hstuck⟩ := (hf hc hok htakes hts).stuck rfl h he
      subst hc
      refine ⟨ts ++ us, r, ?_, ?_, ⟨vs, ?_⟩, fun ws r' q hws hr' hq heq => ?_⟩
      · rw [htakes.rest, hrest, List.append_assoc]
      · rw [hfound, htakes.before, List.reverse_append, List.append_assoc]
      · simpa using hL ts _ hts hvs
      · obtain ⟨ws₁, ws₂, rfl, hws₁, hws₂, hr₁⟩ := hsplit ws r' hws hr'
        rw [List.append_assoc, List.append_assoc] at heq
        have hq' : nextKind (us ++ q) = nextKind s'.rest := by
          rw [hrest, nextKind_append_congr hq]
        obtain rfl := hone ws₁ _ _ hws₁ hr₁ hq' heq
        exact hstuck ws₂ r' q hws₂ hr' hq (List.append_cancel_left heq)

/-- What takes nothing may come behind. -/
theorem bind_nil (hx : PredictsAt c x L F) (hf : ∀ a n, Predicts n (f a) nil F) :
    PredictsAt c (x >>= f) L F := by
  refine hx.sequence (fun _ => nil) (fun a => (hf a 0).steady)
    (fun _ _ _ _ => hf _ _ _ (Nat.le_refl _)) (fun _ _ => ⟨[], rfl⟩) ?_
    fun us r hus hr => ⟨us, [], ?_, hus, rfl, hr⟩
  · rintro ts _ hts rfl
    rwa [List.append_nil]
  · rw [List.append_nil]

theorem bind_pure {g : α → β} (hx : PredictsAt c x L F) :
    PredictsAt c (do return g (← x)) L F :=
  hx.bind_nil fun _ _ c _ => .pure _ c

/-- Where the tokens taken leave only some of the phrases, it is enough to read those. The tokens
`ts` taken, here with `Q`, are the phrase itself or all of it up to the error. -/
theorem restrict_of {Q : List Token → Prop} (hx : PredictsAt c x L' F) (hL : ∀ ts, L' ts → L ts)
    (hQ : ∀ ts, L' ts → Q ts)
    (hQ' : ∀ ts r, c.rest = ts ++ r → (∀ us r' q, L' us → F (nextKind r') →
      nextKind q = nextKind r → us ++ r' ≠ ts ++ q) → Q ts)
    (hnext : ∀ ts r us r' q, c.rest = ts ++ r → Q ts → L us → F (nextKind r') →
      nextKind q = nextKind r → us ++ r' = ts ++ q → L' us) :
    PredictsAt c x L F where
  steady := hx.steady
  nonempty := hx.nonempty.imp hL
  takes := by
    intro s a s' hc h he
    obtain ⟨ts, htakes, hts, hone⟩ := hx.takes hc h he
    have hrest : c.rest = ts ++ s'.rest := hc ▸ htakes.rest
    refine ⟨ts, htakes, hL ts hts, fun us r q hus hr hq heq => hone us r q ?_ hr hq heq⟩
    exact hnext ts s'.rest us r q hrest (hQ ts hts) hus hr hq heq
  stuck := by
    intro s e hc h he
    obtain ⟨ts, r, hrest, hfound, ⟨us, hus⟩, hstuck⟩ := hx.stuck hc h he
    refine ⟨ts, r, hrest, hfound, ⟨us, hL _ hus⟩, fun us r' q hus hr' hq heq => ?_⟩
    exact hstuck us r' q (hnext ts r us r' q hrest (hQ' ts r hrest hstuck) hus hr' hq heq) hr' hq
      heq

/-- Where the next token leaves only some of the phrases, it is enough to read those. -/
theorem restrict (hx : PredictsAt c x L' F) (hL : ∀ ts, L' ts → L ts)
    (hnext : ∀ us r, L us → F (nextKind r) → nextKind (us ++ r) = nextKind c.rest → L' us) :
    PredictsAt c x L F := by
  refine hx.restrict_of (Q := fun _ => True) hL (fun _ _ => trivial) (fun _ _ _ _ => trivial) ?_
  intro ts r us r' q hrest _ hus hr' hq heq
  refine hnext us r' hus hr' ?_
  rw [heq, hrest, nextKind_append_congr hq]

/-- Where the next two tokens leave only some of the phrases, it is enough to read those, if they do
not depend on the second token alone. -/
theorem restrict_tail (hx : PredictsAt c x L' F) (hL : ∀ ts, L' ts → L ts) (hne : ¬L' [])
    (hfits : ∃ us r, L' us ∧ F (nextKind r) ∧ nextKind (us ++ r) = nextKind c.rest)
    (hnext : ∀ us r, L us → F (nextKind r) → nextKind (us ++ r) = nextKind c.rest →
      nextKind (us ++ r).tail = nextKind c.rest.tail → L' us) :
    PredictsAt c x L F := by
  refine hx.restrict_of (Q := (· ≠ [])) hL (fun ts hts h => hne (h ▸ hts)) ?_ ?_
  · rintro _ r hrest hstuck rfl
    obtain ⟨us, r', hus, hr', heq⟩ := hfits
    exact hstuck us r' (us ++ r') hus hr' (heq.trans (congrArg nextKind hrest)) rfl
  · intro ts r us r' q hrest hts hus hr' hq heq
    refine hnext us r' hus hr' ?_ ?_
    · rw [heq, hrest, nextKind_append_congr hq]
    · rw [heq, hrest, List.tail_append_of_ne_nil hts, List.tail_append_of_ne_nil hts,
        nextKind_append_congr hq]

/-- Looking at the state and going on. -/
theorem look_bind {g : ParserState → α}
    (hsteady : ((fun s => .ok (g s) s : Parser α) >>= f).Steady)
    (hf : ∀ s : ParserState, s.toCursor = c → PredictsAt c (f (g s)) L F) :
    PredictsAt c ((fun s => .ok (g s) s : Parser α) >>= f) L F where
  steady := hsteady
  nonempty := (hf ⟨c, 0, [], []⟩ rfl).nonempty
  takes {s _ _} hc h he := (hf s hc).takes hc h he
  stuck {s _} hc h he := (hf s hc).stuck hc h he

theorem visit_bind {f : Unit → Parser β} (hf : PredictsAt c (f ()) L F) :
    PredictsAt c (visit production >>= f) L F where
  steady := (steady_visit production).bind fun _ => hf.steady
  nonempty := hf.nonempty
  takes {s _ _} hc h he := by
    obtain ⟨ts, htakes, hts⟩ := hf.takes (s := s.visit production) hc h he
    exact ⟨ts, (Takes.visit s production).trans htakes, hts⟩
  stuck {s _} hc h he := hf.stuck (s := s.visit production) hc h he

theorem nested (hx : PredictsAt c x L F) : PredictsAt c (nested x) L F where
  steady := hx.steady.nested
  nonempty := hx.nonempty
  takes {s a s'} hc h he := by
    obtain ⟨s₁, h₁, rfl⟩ := nested_eq_ok.mp h
    obtain ⟨ts, ht, hts⟩ := hx.takes (s := { s with depth := s.depth + 1 }) hc h₁ he
    exact ⟨ts, ⟨⟨ht.rest, ht.before, by simp [ht.depth]⟩, ht.errors⟩, hts⟩
  stuck {s e} hc h he := by
    refine hx.stuck (s := { s with depth := s.depth + 1 }) hc ?_ he
    obtain ⟨es, hes⟩ := h
    refine ⟨es, ?_⟩
    rw [← hes, Parser.nested]
    cases x { s with depth := s.depth + 1 } <;> rfl

/-- Fewer kinds may follow. -/
theorem follow (hx : PredictsAt c x L F') (h : ∀ k, F k → F' k) : PredictsAt c x L F where
  steady := hx.steady
  nonempty := hx.nonempty
  takes {s a s'} hc hok he := by
    obtain ⟨ts, htakes, hts, hone⟩ := hx.takes hc hok he
    exact ⟨ts, htakes, hts, fun us r q hus hr => hone us r q hus (h _ hr)⟩
  stuck {s e} hc herr he := by
    obtain ⟨ts, r, hrest, hfound, hgoes, hstuck⟩ := hx.stuck hc herr he
    exact ⟨ts, r, hrest, hfound, hgoes, fun us r' q hus hr => hstuck us r' q hus (h _ hr)⟩

/-- Only what the parser does at `c` counts. -/
theorem congr {y : Parser α} (hx : PredictsAt c x L F) (hy : y.Steady)
    (h : ∀ s : ParserState, s.toCursor = c → y s = x s) : PredictsAt c y L F where
  steady := hy
  nonempty := hx.nonempty
  takes {s _ _} hc hok he := hx.takes hc (h s hc ▸ hok) he
  stuck {s e} hc herr he := hx.stuck hc (by rwa [FirstError, h s hc] at herr) he

theorem map {g : α → β} (hx : PredictsAt c x L F) : PredictsAt c (g <$> x) L F := by
  refine (hx.bind_pure (g := g)).congr hx.steady.map fun s _ => ?_
  simp only [Functor.map, EStateM.map, Bind.bind, EStateM.bind]
  cases x s <;> rfl

/-- Going on after an error changes nothing, as long as the error is put on record. -/
theorem recover {y : Parser (Option α)} (hx : PredictsAt c x L F) (hy : y.Steady)
    (hok : ∀ {s a s'}, x s = .ok a s' → y s = .ok (some a) s')
    (herror : ∀ {s e s'}, x s = .error e s' → ∃ s'', y s = .ok none s'' ∧
      s''.errors = s'.errors ++ [e]) : PredictsAt c y L F where
  steady := hy
  nonempty := hx.nonempty
  takes {s o s'} hc h he := by
    cases hrun : x s with
    | ok a s₁ =>
      cases (hok hrun).symm.trans h
      exact hx.takes hc hrun he
    | error e s₁ =>
      obtain ⟨s₂, hs₂, herrors⟩ := herror hrun
      cases hs₂.symm.trans h
      have hlen := (hx.steady.error hrun).errors.length_le
      rw [← he, herrors, List.length_append, List.length_singleton] at hlen
      omega
  stuck {s e} hc h he := by
    refine hx.stuck hc ?_ he
    obtain ⟨es, hes⟩ := h
    refine ⟨es, ?_⟩
    rw [← hes]
    cases hrun : x s with
    | ok a s₁ => rw [hok hrun]; rfl
    | error e s₁ =>
      obtain ⟨s₂, hs₂, herrors⟩ := herror hrun
      rw [hs₂]
      exact herrors.symm

/-- Failing is right where no phrase begins with the next token. -/
theorem throw (he : e.found = c.peek) (hne : ∃ ts, L ts)
    (hL : ∀ us r, L us → F (nextKind r) → nextKind (us ++ r) ≠ nextKind c.rest) :
    PredictsAt c (throw e : Parser α) L F where
  steady := steady_throw e
  nonempty := hne
  takes _ h _ := nomatch h
  stuck := by
    rintro s e' rfl h -
    obtain rfl := eq_of_firstError_throw h
    refine ⟨[], s.rest, rfl, he, hne, fun us r q hus hr hq heq => hL us r hus hr ?_⟩
    rw [heq, ← hq]
    rfl

/-- Nothing is said of an expression that nests too deep. -/
theorem throw_nesting (he : e.IsNesting) (hne : ∃ ts, L ts) :
    PredictsAt c (MonadExcept.throw e : Parser α) L F where
  steady := steady_throw e
  nonempty := hne
  takes _ h _ := nomatch h
  stuck := by
    rintro s e' - h hnot
    obtain rfl := eq_of_firstError_throw h
    exact absurd he hnot

/-- The same for an error that is put on record. -/
theorem record_bind {f : Unit → Parser β} (he : e.found = c.peek) (hne : ∃ ts, L ts)
    (hL : ∀ us r, L us → F (nextKind r) → nextKind (us ++ r) ≠ nextKind c.rest)
    (hf : (f ()).Steady) : PredictsAt c (record e >>= f) L F where
  steady := (steady_record e).bind fun _ => hf
  nonempty := hne
  takes {s a s'} _ h heq := by
    have hlen := (hf.ok (s := s.record e) h).errors.length_le
    rw [heq, ParserState.record, List.length_append, List.length_singleton] at hlen
    omega
  stuck := by
    rintro s e' rfl h -
    obtain rfl : e' = e := by
      obtain ⟨later, hlater⟩ := prefix_reported hf (s.record e)
      obtain ⟨es, hes⟩ := h
      have hrun : reported (f () (s.record e)) = s.errors ++ e' :: es := hes
      rw [← hlater, ParserState.record, List.append_assoc, List.append_cancel_left_eq] at hrun
      exact (List.cons.inj hrun).1.symm
    refine ⟨[], s.rest, rfl, he, hne, fun us r q hus hr hq heq => hL us r hus hr ?_⟩
    rw [heq, ← hq]
    rfl

theorem advance {K : TokenKind → Prop} (hK : K (nextKind c.rest)) (hne : nextKind c.rest ≠ .eof) :
    PredictsAt c advance (oneOf K) F where
  steady := steady_advance
  nonempty := nonempty_oneOf hK
  takes := by
    rintro s a s' rfl h -
    obtain ⟨t, r, hrest, hkind⟩ := exists_cons_of_nextKind rfl hne
    rw [← hkind] at hK hne
    obtain ⟨s₁, hok, htakes⟩ := advance_cons hrest hne
    cases hok.symm.trans h
    refine ⟨[a], htakes, ⟨a, hK, rfl⟩, ?_⟩
    rintro _ r' q ⟨u, -, rfl⟩ - - heq
    rw [(List.cons.inj heq).1]
  stuck _ h := absurd h (not_firstError_of_ok (advance_run _) rfl)

/-- A parser for one token takes it or blames it. -/
theorem oneOf {K : TokenKind → Prop} (hx : x.Steady) (hne : ∃ k, K k)
    (hyes : K (nextKind c.rest) → PredictsAt c x (oneOf K) F)
    (hno : ¬K (nextKind c.rest) → ∃ e, e.found = c.peek ∧
      ∀ s : ParserState, s.toCursor = c → x s = .error e s) :
    PredictsAt c x (Phrase.oneOf K) F := by
  by_cases hK : K (nextKind c.rest)
  · exact hyes hK
  · obtain ⟨e, he, hrun⟩ := hno hK
    obtain ⟨k, hk⟩ := hne
    refine (throw he (nonempty_oneOf hk) ?_).congr hx hrun
    rintro _ r ⟨t, ht, rfl⟩ - h
    exact hK (h ▸ ht)

theorem consume (hk : k ≠ .eof) (c : Cursor) : PredictsAt c (consume k) (token k) F := by
  refine oneOf (steady_consume k) ⟨k, rfl⟩ (fun h => ?_) fun h =>
    ⟨⟨.unexpected [k] none, c.peek⟩, rfl, fun s hs => ?_⟩
  · refine (advance h (h ▸ hk)).congr (steady_consume k) fun s hs => ?_
    rw [consume_run, if_pos (by simp [Cursor.check_eq, hs, h])]
    rfl
  · rw [consume_run, if_neg (by simp [Cursor.check_eq, hs, h]), hs]

theorem closeParen (c : Cursor) : PredictsAt c closeParen (token .rightParen) F := by
  by_cases h : nextKind c.rest = .eof
  · refine (throw (L := token .rightParen) (e := ⟨.unterminatedExpression "')'", c.peek⟩) rfl
      (nonempty_oneOf rfl) ?_).congr steady_closeParen fun s hs => ?_
    · rintro _ r ⟨t, ht, rfl⟩ - hnext
      rw [List.cons_append, nextKind_cons, ht, h] at hnext
      cases hnext
    · rw [closeParen_run, if_pos (by simp [Cursor.check_eq, hs, h]), hs]
      rfl
  · refine (consume (by decide) c).congr steady_closeParen fun s hs => ?_
    rw [closeParen_run, if_neg (by simp [Cursor.check_eq, hs, h])]

theorem bind [Nonempty α] (hx : PredictsAt c x L₁ F₁)
    (hf : ∀ a ts, L₁ ts → Predicts (c.rest.length - ts.length) (f a) L₂ F)
    (hF : ∀ us r, L₂ us → F (nextKind r) → F₁ (nextKind (us ++ r))) :
    PredictsAt c (x >>= f) (L₁.andThen L₂) F := by
  obtain ⟨ts₀, hts₀⟩ := hx.nonempty
  refine hx.sequence (fun _ => L₂) (fun a => (hf a ts₀ hts₀).steady) ?_ ?_ ?_ ?_
  · intro s a s' ts hc hok htakes hts
    refine hf a ts hts s'.toCursor (Nat.le_of_eq ?_)
    rw [← hc, htakes.rest, List.length_append, Nat.add_sub_cancel_left]
  · exact fun ts hts => (hf (Classical.ofNonempty) ts hts).nonempty
  · exact fun ts us hts hus => ⟨ts, us, hts, hus, rfl⟩
  · rintro _ r ⟨us₁, us₂, hus₁, hus₂, rfl⟩ hr
    exact ⟨us₁, us₂, rfl, hus₁, hus₂, hF us₂ r hus₂ hr⟩

theorem advance_bind {f : Token → Parser β} {K : TokenKind → Prop} (hK : K (nextKind c.rest))
    (hne : nextKind c.rest ≠ .eof) (hf : ∀ t, Predicts (c.rest.length - 1) (f t) L F) :
    PredictsAt c (Parser.advance >>= f) ((Phrase.oneOf K).andThen L) F := by
  have hx : PredictsAt c Parser.advance (Phrase.oneOf K) fun _ => True := advance hK hne
  refine hx.bind ?_ fun _ _ _ _ => trivial
  rintro a _ ⟨t, -, rfl⟩
  exact hf a

theorem accept_bind {f : Bool → Parser β} (hk : k ≠ .eof) (hnext : nextKind c.rest = k)
    (hfalse : (f false).Steady) (htrue : Predicts (c.rest.length - 1) (f true) L F) :
    PredictsAt c (accept k >>= f) ((token k).andThen L) F := by
  have hx : PredictsAt c (Parser.consume k >>= fun _ => f true) ((token k).andThen L) F := by
    refine (consume (F := fun _ => True) hk c).bind ?_ fun _ _ _ _ => trivial
    rintro _ _ ⟨t, -, rfl⟩
    exact htrue
  refine hx.congr ((steady_accept k).bind (Bool.rec hfalse htrue.steady)) fun s hs => ?_
  simp [Bind.bind, EStateM.bind, accept_run, consume_run, Cursor.check_eq, hs, hnext]

theorem accept_bind_of_ne {f : Bool → Parser β} (hnext : nextKind c.rest ≠ k)
    (hfalse : PredictsAt c (f false) L F) (htrue : (f true).Steady) :
    PredictsAt c (accept k >>= f) L F := by
  refine hfalse.congr ((steady_accept k).bind (Bool.rec hfalse.steady htrue)) fun s hs => ?_
  simp [Bind.bind, EStateM.bind, accept_run, hs, hnext]

end PredictsAt

namespace Predicts

variable {n : Nat}

theorem pure (a : α) : Predicts n (pure a) nil F := fun c _ => .pure a c

theorem bind [Nonempty α] (hx : Predicts n x L₁ F₁)
    (hf : ∀ a ts, L₁ ts → Predicts (n - ts.length) (f a) L₂ F)
    (hF : ∀ us r, L₂ us → F (nextKind r) → F₁ (nextKind (us ++ r))) :
    Predicts n (x >>= f) (L₁.andThen L₂) F :=
  fun c hc => (hx c hc).bind (fun a ts hts => (hf a ts hts).mono (Nat.sub_le_sub_right hc _)) hF

theorem bind_pure {g : α → β} (hx : Predicts n x L F) : Predicts n (do return g (← x)) L F :=
  fun c hc => (hx c hc).bind_pure

theorem bind_nil (hx : Predicts n x L F) (hf : ∀ a n, Predicts n (f a) nil F) :
    Predicts n (x >>= f) L F :=
  fun c hc => (hx c hc).bind_nil hf

theorem follow (hx : Predicts n x L F') (h : ∀ k, F k → F' k) : Predicts n x L F :=
  fun c hc => (hx c hc).follow h

theorem visit_bind {f : Unit → Parser β} (hf : Predicts n (f ()) L F) :
    Predicts n (visit production >>= f) L F := fun c hc => (hf c hc).visit_bind

theorem spanFrom_bind {f : Span → Parser β} (hf : ∀ span, Predicts n (f span) L F) :
    Predicts n (spanFrom start >>= f) L F :=
  fun c hc => .look_bind (steady_look.bind fun span => (hf span).steady) fun _ _ => hf _ c hc

/-- One token, taken or blamed, and going on. -/
theorem consume_bind {f : Token → Parser β} (hk : k ≠ .eof) (hf : ∀ t, Predicts (n - 1) (f t) L F) :
    Predicts n (consume k >>= f) ((token k).andThen L) F := by
  have hx : Predicts n (consume k) (token k) fun _ => True := fun c _ => .consume hk c
  refine hx.bind ?_ fun _ _ _ _ => trivial
  rintro a _ ⟨t, -, rfl⟩
  exact hf a

/-! ## Items between commas -/

theorem nextKind_of_more (h : L.more us) (hr : nextKind r = .rightParen) :
    nextKind (us ++ r) ∈ itemEnds := by
  cases h with
  | nil => simp [itemEnds, hr]
  | cons hcomma => simp [itemEnds, hcomma]

section
variable [Nonempty α] (hx : Predicts n x L F₁) (hF₁ : ∀ k ∈ itemEnds, F₁ k)
include hx hF₁

theorem moreItems (hm : m ≤ n) : Predicts m (moreItems x m) L.more (· = .rightParen) := by
  have stop (c : Cursor) (hnext : nextKind c.rest ≠ .comma) :
      PredictsAt c (Pure.pure [] : Parser (List α)) L.more (· = .rightParen) := by
    refine (PredictsAt.pure [] c).restrict (by rintro _ rfl; exact .nil) fun us r hus hr heq => ?_
    cases hus with
    | nil => rfl
    | cons hcomma => exact absurd (heq.symm.trans hcomma) hnext
  induction m with
  | zero =>
    intro c hc
    refine stop c ?_
    rw [List.length_eq_zero_iff.mp (Nat.le_zero.mp hc)]
    decide
  | succ m ih =>
    intro c hc
    have hstep : Predicts (c.rest.length - 1) (do
        let a ← x
        let as ← Parser.moreItems x m
        return a :: as) (L.andThen L.more) (· = .rightParen) := by
      refine (hx.mono (by omega)).bind (fun a ts _ => ?_) fun us r hus hr => ?_
      · exact ((ih (by omega)).mono (by omega)).bind_pure
      · exact hF₁ _ (nextKind_of_more hus hr)
    by_cases hnext : nextKind c.rest = .comma
    · refine .restrict (.accept_bind (by decide) hnext (steady_pure _) hstep) ?_ ?_
      · rintro _ ⟨_, _, ⟨comma, hcomma, rfl⟩, ⟨ts, us, hts, hus, rfl⟩, rfl⟩
        change L.more (comma :: (ts ++ us))
        exact .cons hcomma hts hus
      · intro us r hus hr heq
        cases hus with
        | nil =>
          rw [List.nil_append, hr, hnext] at heq
          cases heq
        | @cons comma ts us hcomma hts hus =>
          exact ⟨[comma], ts ++ us, ⟨comma, hcomma, rfl⟩, ⟨ts, us, hts, hus, rfl⟩, rfl⟩
    · exact .accept_bind_of_ne hnext (stop c hnext) hstep.steady

theorem items (hL : ∀ us r, L us → nextKind (us ++ r) ≠ .rightParen) :
    Predicts n (items x) L.items (· = .rightParen) := by
  intro c hc
  have hrest : Predicts c.rest.length (do
      let a ← x
      let as ← Parser.moreItems x (← remaining)
      return a :: as) (L.andThen L.more) (· = .rightParen) := by
    refine (hx.mono hc).bind (fun a ts _ c' hc' => ?_) fun us r hus hr => ?_
    · refine .look_bind (steady_remaining.bind fun m => (hx.steady.moreItems m).bind fun _ =>
        steady_pure _) ?_
      rintro s rfl
      exact (moreItems hx hF₁ (by omega) s.toCursor (Nat.le_refl _)).bind_pure
    · exact hF₁ _ (nextKind_of_more hus hr)
  refine .look_bind hx.steady.items fun s hs => ?_
  by_cases hnext : nextKind c.rest = .rightParen
  · rw [if_pos (by simp [Cursor.check_eq, hs, hnext])]
    refine (PredictsAt.pure [] c).restrict (fun ts h => .inl h) fun us r hus hr heq => ?_
    rcases hus with hus | ⟨us, vs, hus, -, rfl⟩
    · exact hus
    · rw [List.append_assoc, hnext] at heq
      exact absurd heq (hL us _ hus)
  · rw [if_neg (by simp [Cursor.check_eq, hs, hnext])]
    refine (hrest c (Nat.le_refl _)).restrict (fun ts h => .inr h) fun us r hus hr heq => ?_
    rcases hus with rfl | hus
    · exact absurd (heq.symm.trans hr) hnext
    · exact hus

end

end Predicts

end Parser

end BracketLang
