import BracketLang.Proofs.Grammar.Derivation
import BracketLang.Proofs.Grammar.Steady

/-! Two relations between a parser and the tokens that it takes, each closed under sequencing.

`Parser.Reads x R` looks from the run: whenever `x` gives a result and puts no error on record, the
tokens it took and the result are related by `R`. `Parser.Accepts d x ts r P` looks from the tokens:
at every state with `d` levels open, in front of `ts` and then `r`, the parser `x` takes exactly
`ts`, puts no error on record and gives a result with `P`. -/

namespace BracketLang

/-- The kind of the first of these tokens; the end of file if there is none. -/
def nextKind : List Token → TokenKind
  | [] => .eof
  | t :: _ => t.kind

@[simp] theorem nextKind_nil : nextKind [] = .eof := rfl
@[simp] theorem nextKind_cons (t : Token) (ts : List Token) : nextKind (t :: ts) = t.kind := rfl

theorem Cursor.kind_peek (c : Cursor) : c.peek.kind = nextKind c.rest := by
  obtain ⟨before, _ | ⟨t, ts⟩⟩ := c <;> rfl

theorem Cursor.kind_peekNext (c : Cursor) : c.peekNext.kind = nextKind c.rest.tail := by
  obtain ⟨before, _ | ⟨t, _ | ⟨u, us⟩⟩⟩ := c <;> rfl

theorem Cursor.check_eq (c : Cursor) (k : TokenKind) :
    c.check k = decide (nextKind c.rest = k) := by
  rw [check, kind_peek]

theorem Cursor.atBlockBoundary_iff (c : Cursor) :
    c.atBlockBoundary = true ↔ nextKind c.rest ∈ TokenKind.blockBoundaries := by
  simp [atBlockBoundary, atFunctionBoundary, atEnd, check_eq, TokenKind.blockBoundaries]

/-- A token of any kind but the end of file is a token to come. -/
theorem exists_cons_of_nextKind (h : nextKind ts = k) (hk : k ≠ .eof) :
    ∃ t us, ts = t :: us ∧ t.kind = k := by
  cases ts with
  | nil => exact absurd h.symm hk
  | cons t us => exact ⟨t, us, rfl, h⟩

namespace ParserState

/-- `s'` stands behind the tokens `ts` of `s`, with as many levels open and no new error. -/
structure Takes (s : ParserState) (ts : List Token) (s' : ParserState) : Prop
    extends s.Passes ts s' where
  errors : s'.errors = s.errors

namespace Takes

variable {s s' s'' : ParserState} {ts us : List Token}

theorem refl (s : ParserState) : s.Takes [] s := ⟨.refl s, rfl⟩

theorem trans (h : s.Takes ts s') (h' : s'.Takes us s'') : s.Takes (ts ++ us) s'' :=
  ⟨h.toPasses.trans h'.toPasses, h'.errors.trans h.errors⟩

theorem visit (s : ParserState) (production : Production) : s.Takes [] (s.visit production) :=
  ⟨⟨rfl, rfl, rfl⟩, rfl⟩

end Takes

end ParserState

namespace Parser

open ParserState

variable {α β : Type} {x : Parser α} {f : α → Parser β}

/-- Taking a token in front of the end of file. -/
theorem advance_cons {s : ParserState} (hs : s.rest = t :: r) (ht : t.kind ≠ .eof) :
    ∃ s', advance s = .ok t s' ∧ s.Takes [t] s' := by
  obtain ⟨⟨before, rest⟩, d, es, vs⟩ := s
  subst hs
  have hadv : Cursor.advance ⟨before, t :: r⟩ = ⟨t :: before, r⟩ := if_neg ht
  refine ⟨⟨⟨t :: before, r⟩, d, es, vs⟩, ?_, ⟨rfl, rfl, rfl⟩, rfl⟩
  simp [move, hadv, Cursor.previous]

theorem consume_cons {s : ParserState} (hs : s.rest = t :: r) (ht : t.kind ≠ .eof) :
    ∃ s', consume t.kind s = .ok t s' ∧ s.Takes [t] s' := by
  obtain ⟨s', h, htakes⟩ := advance_cons hs ht
  refine ⟨s', ?_, htakes⟩
  rw [consume_run, if_pos (by simp [Cursor.check_eq, hs]), ← advance_run, h]

theorem eq_of_consume {s : ParserState} (hk : k ≠ .eof) (h : consume k s = .ok t s') :
    t.kind = k ∧ s.Takes [t] s' := by
  rw [consume_run] at h
  split at h
  next hc =>
    rw [Cursor.check_eq, decide_eq_true_eq] at hc
    obtain ⟨u, us, hs, hu⟩ := exists_cons_of_nextKind hc hk
    obtain ⟨s₁, h₁, htakes⟩ := advance_cons hs (hu ▸ hk)
    cases h₁.symm.trans h
    exact ⟨hu, htakes⟩
  next => cases h

theorem accept_run (k : TokenKind) (s : ParserState) :
    accept k s = if nextKind s.rest = k then .ok true (s.move .advance) else .ok false s := by
  unfold accept
  simp only [bind, EStateM.bind, check_run, Cursor.check_eq]
  by_cases h : nextKind s.rest = k <;> simp only [h, decide_true, decide_false] <;> rfl

theorem accept_eq_true {s : ParserState} :
    accept k s = .ok true s' ↔ ∃ t, consume k s = .ok t s' := by
  rw [accept_run, consume_run, Cursor.check_eq]
  by_cases h : nextKind s.rest = k <;> simp [h]

theorem accept_eq_false {s : ParserState} :
    accept k s = .ok false s' ↔ nextKind s.rest ≠ k ∧ s' = s := by
  rw [accept_run]
  by_cases h : nextKind s.rest = k <;> simp [h, eq_comm]

/-! ## From the run to the tokens -/

/-- What the parser takes without an error on record, and its result, are related by `R`. -/
structure Reads (x : Parser α) (R : List Token → α → Prop) : Prop where
  steady : x.Steady
  takes {s a s'} : x s = .ok a s' → s'.errors = s.errors → ∃ ts, s.Takes ts s' ∧ R ts a

namespace Reads

variable {R : List Token → α → Prop} {R' : List Token → β → Prop}

theorem pure {a : α} (h : R [] a) : Reads (pure a) R := by
  refine ⟨steady_pure a, fun {s b s'} hb _ => ?_⟩
  obtain ⟨rfl, rfl⟩ := pure_eq_ok.mp hb
  exact ⟨[], .refl _, h⟩

theorem throw (e : SyntaxError) : Reads (throw e) R :=
  ⟨steady_throw e, fun h _ => nomatch h⟩

theorem bind (hx : Reads x R) (hf : ∀ a, Reads (f a) fun us b => ∀ ts, R ts a → R' (ts ++ us) b) :
    Reads (x >>= f) R' := by
  refine ⟨hx.steady.bind fun a => (hf a).steady, fun {s b s''} h he => ?_⟩
  obtain ⟨a, s', h₁, h₂⟩ := bind_eq_ok.mp h
  obtain ⟨he₁, he₂⟩ := (hx.steady.ok h₁).errors_eq ((hf a).steady.ok h₂) he
  obtain ⟨ts, ht, hR⟩ := hx.takes h₁ he₁
  obtain ⟨us, hu, hR'⟩ := (hf a).takes h₂ he₂
  exact ⟨ts ++ us, ht.trans hu, hR' ts hR⟩

theorem mono {S : List Token → α → Prop} (hx : Reads x R) (h : ∀ ts a, R ts a → S ts a) :
    Reads x S :=
  ⟨hx.steady, fun hok he => let ⟨ts, ht, hR⟩ := hx.takes hok he; ⟨ts, ht, h ts _ hR⟩⟩

theorem map {g : α → β} (hx : Reads x R) : Reads (g <$> x) fun ts b => ∃ a, b = g a ∧ R ts a := by
  refine ⟨hx.steady.map, fun {s b s'} h he => ?_⟩
  simp only [Functor.map, EStateM.map] at h
  split at h
  · next a s₁ hok =>
    cases h
    obtain ⟨ts, ht, hR⟩ := hx.takes hok he
    exact ⟨ts, ht, a, rfl, hR⟩
  · cases h

theorem ite {c : Prop} [Decidable c] {x y : Parser α} (hx : c → Reads x R) (hy : ¬c → Reads y R) :
    Reads (if c then x else y) R := by
  split
  · exact hx ‹_›
  · exact hy ‹_›

/-- Where the state is only looked at, no token is taken. -/
theorem look {g : ParserState → α} : Reads (fun s => .ok (g s) s) fun ts _ => ts = [] := by
  refine ⟨steady_look, fun h _ => ?_⟩
  cases h
  exact ⟨[], .refl _, rfl⟩

end Reads

theorem reads_visit (production : Production) :
    Reads (visit production) fun ts _ => ts = [] := by
  refine ⟨steady_visit production, fun h _ => ?_⟩
  cases h
  exact ⟨[], .visit .., rfl⟩

theorem reads_consume (hk : k ≠ .eof) :
    Reads (consume k) fun ts t => ∃ h : t.kind = k, ts = [(⟨t, h⟩ : Terminal k).val] := by
  refine ⟨steady_consume k, fun h _ => ?_⟩
  obtain ⟨ht, htakes⟩ := eq_of_consume hk h
  exact ⟨_, htakes, ht, rfl⟩

theorem reads_accept (hk : k ≠ .eof) :
    Reads (accept k) fun ts b => if b then ∃ t : Terminal k, ts = [t.val] else ts = [] := by
  refine ⟨steady_accept k, fun {s b s'} h _ => ?_⟩
  cases b with
  | false =>
    obtain ⟨-, rfl⟩ := accept_eq_false.mp h
    exact ⟨[], .refl _, rfl⟩
  | true =>
    obtain ⟨t, h⟩ := accept_eq_true.mp h
    obtain ⟨ht, htakes⟩ := eq_of_consume hk h
    exact ⟨[t], htakes, ⟨t, ht⟩, rfl⟩

theorem closeParen_run (s : ParserState) :
    closeParen s = if s.check .eof then .error ⟨.unterminatedExpression "')'", s.peek⟩ s
      else consume .rightParen s := by
  unfold closeParen
  simp only [bind, EStateM.bind, check_run]
  cases s.check .eof <;> rfl

/-- A closing parenthesis is taken as any other token is. -/
theorem closeParen_eq_ok {s : ParserState} :
    closeParen s = .ok t s' ↔ consume .rightParen s = .ok t s' := by
  rw [closeParen_run, consume_run]
  split
  next h =>
    rw [Cursor.check_eq, decide_eq_true_eq] at h
    simp [Cursor.check_eq, h]
  next => rfl

theorem reads_closeParen :
    Reads closeParen fun ts t =>
      ∃ h : t.kind = .rightParen, ts = [(⟨t, h⟩ : Terminal .rightParen).val] :=
  ⟨steady_closeParen, fun h he => (reads_consume (by decide)).takes (closeParen_eq_ok.mp h) he⟩

theorem nested_eq_ok {s : ParserState} {a : α} :
    nested x s = .ok a s' ↔
      ∃ s₁, x { s with depth := s.depth + 1 } = .ok a s₁ ∧
        s' = { s₁ with depth := s₁.depth - 1 } := by
  simp only [nested]
  cases x { s with depth := s.depth + 1 } with
  | ok b s₁ => simp [and_assoc, eq_comm]
  | error e s₁ => simp

theorem Reads.nested {R : List Token → α → Prop} (hx : Reads x R) : Reads (nested x) R := by
  refine ⟨hx.steady.nested, fun h he => ?_⟩
  obtain ⟨s₁, h₁, rfl⟩ := nested_eq_ok.mp h
  obtain ⟨ts, ht, hR⟩ := hx.takes h₁ he
  exact ⟨ts, ⟨⟨ht.rest, ht.before, by simp [ht.depth]⟩, ht.errors⟩, hR⟩

/-! ### With the next token known -/

/-- What the parser reads in front of a token of kind `k`. -/
structure ReadsAt (k : TokenKind) (x : Parser α) (R : List Token → α → Prop) : Prop where
  steady : x.Steady
  takes {s a s'} : nextKind s.rest = k → x s = .ok a s' → s'.errors = s.errors →
    ∃ ts, s.Takes ts s' ∧ R ts a

namespace ReadsAt

variable {R : List Token → α → Prop} {R' : List Token → β → Prop}

theorem advance_bind {f : Token → Parser β} (hk : k ≠ .eof)
    (hf : ∀ t, Reads (f t) fun us b => ∀ h : t.kind = k, R' ((⟨t, h⟩ : Terminal k).val :: us) b) :
    ReadsAt k (advance >>= f) R' := by
  refine ⟨steady_advance.bind fun t => (hf t).steady, fun {s b s''} hs h he => ?_⟩
  obtain ⟨t, r, hrest, rfl⟩ := exists_cons_of_nextKind hs hk
  obtain ⟨s', hadv, ht⟩ := advance_cons hrest hk
  obtain ⟨a, s₁, h₁, h₂⟩ := bind_eq_ok.mp h
  cases hadv.symm.trans h₁
  obtain ⟨us, hu, hR⟩ := (hf t).takes h₂ (he.trans ht.errors.symm)
  exact ⟨t :: us, ht.trans hu, hR rfl⟩

theorem visit_bind {f : Unit → Parser β} (hf : ReadsAt k (f ()) R') :
    ReadsAt k (visit production >>= f) R' :=
  ⟨(steady_visit production).bind fun _ => hf.steady, fun {s _ _} hs h he =>
    let ⟨ts, ht, hR⟩ := hf.takes (s := s.visit production) hs h he
    ⟨ts, (Takes.visit s production).trans ht, hR⟩⟩

theorem throw (e : SyntaxError) : ReadsAt k (throw e) R :=
  ⟨steady_throw e, fun _ h _ => nomatch h⟩

end ReadsAt

namespace Reads

variable {R : List Token → α → Prop} {R' : List Token → β → Prop}

theorem peek_bind {f : Token → Parser β} (hf : ∀ t, ReadsAt t.kind (f t) R') :
    Reads (peek >>= f) R' :=
  ⟨steady_peek.bind fun t => (hf t).steady, fun {s _ _} h he =>
    (hf s.peek).takes s.kind_peek.symm h he⟩

theorem check_bind {y z : Parser α} (hy : ReadsAt k y R) (hz : Reads z R) :
    Reads (do if ← check k then y else z) R := by
  refine ⟨(steady_check k).bind fun _ => .ite hy.steady hz.steady, fun {s a s'} h he => ?_⟩
  obtain ⟨b, s₁, hb, h⟩ := bind_eq_ok.mp h
  cases hb
  rw [Cursor.check_eq] at h
  by_cases hs : nextKind s.rest = k
  · exact hy.takes hs (by simpa [hs] using h) he
  · exact hz.takes (by simpa [hs] using h) he

end Reads

/-! ## From the tokens to the run -/

/-- At every state with `d` levels open, in front of `ts` and then `r`, the parser takes `ts`, puts
no error on record and gives a result with `P`. -/
def Accepts (d : Nat) (x : Parser α) (ts r : List Token) (P : α → Prop) : Prop :=
  ∀ s : ParserState, s.rest = ts ++ r → s.depth = d →
    ∃ a s', x s = .ok a s' ∧ s.Takes ts s' ∧ P a

namespace Accepts

variable {P Q : α → Prop} {P' : β → Prop}

theorem pure {a : α} (h : P a) : Accepts d (pure a) [] r P :=
  fun s _ _ => ⟨a, s, rfl, .refl s, h⟩

theorem bind (hx : Accepts d x ts (us ++ r) P) (hf : ∀ a, P a → Accepts d (f a) us r P') :
    Accepts d (x >>= f) (ts ++ us) r P' := by
  intro s hs hd
  obtain ⟨a, s', hok, ht, ha⟩ := hx s (by rw [hs, List.append_assoc]) hd
  have hs' : s'.rest = us ++ r := ht.rest_eq (by rw [hs, List.append_assoc])
  obtain ⟨b, s'', hok', ht', hb⟩ := hf a ha s' hs' (ht.depth.trans hd)
  exact ⟨b, s'', bind_eq_ok.mpr ⟨a, s', hok, hok'⟩, ht.trans ht', hb⟩

theorem bind_pure {g : α → β} (hx : Accepts d x ts r P) (hg : ∀ a, P a → P' (g a)) :
    Accepts d (do return g (← x)) ts r P' := by
  rw [← List.append_nil ts]
  exact bind (by simpa using hx) fun a ha => .pure (hg a ha)

theorem map {g : α → β} (hx : Accepts d x ts r P) :
    Accepts d (g <$> x) ts r fun b => ∃ a, b = g a ∧ P a := by
  intro s hs hd
  obtain ⟨a, s', hok, ht, ha⟩ := hx s hs hd
  refine ⟨g a, s', ?_, ht, a, rfl, ha⟩
  simp only [Functor.map, EStateM.map, hok]

theorem consume (t : Terminal k) (hk : k ≠ .eof) :
    Accepts d (consume k) [t.val] r (· = t.val) := by
  obtain ⟨t, rfl⟩ := t
  intro s hs _
  obtain ⟨s', hok, ht⟩ := consume_cons hs hk
  exact ⟨t, s', hok, ht, rfl⟩

/-- Taking one token of the kind asked for, and going on. -/
theorem consume_bind {f : Token → Parser β} (t : Terminal k) (hk : k ≠ .eof)
    (hf : Accepts d (f t.val) us r P') :
    Accepts d (Parser.consume k >>= f) (t.val :: us) r P' :=
  bind (consume t hk) fun _ ha => ha ▸ hf

theorem closeParen_bind {f : Token → Parser β} (t : Terminal .rightParen)
    (hf : Accepts d (f t.val) us r P') :
    Accepts d (closeParen >>= f) (t.val :: us) r P' := by
  have hx : Accepts d closeParen [t.val] (us ++ r) (· = t.val) := by
    intro s hs hd
    obtain ⟨a, s', hok, h⟩ := consume t (by decide) s hs hd
    exact ⟨a, s', closeParen_eq_ok.mpr hok, h⟩
  exact bind hx fun _ ha => ha ▸ hf

theorem advance_bind {f : Token → Parser β} (ht : t.kind ≠ .eof) (hf : Accepts d (f t) us r P') :
    Accepts d (advance >>= f) (t :: us) r P' := by
  have hx : Accepts d advance [t] (us ++ r) (· = t) := by
    intro s hs _
    obtain ⟨s', hok, htakes⟩ := advance_cons hs ht
    exact ⟨t, s', hok, htakes, rfl⟩
  exact bind hx fun _ ha => ha ▸ hf

theorem accept (t : Terminal k) (hk : k ≠ .eof) : Accepts d (accept k) [t.val] r (· = true) := by
  intro s hs hd
  obtain ⟨a, s', hok, htakes, -⟩ := consume t hk s hs hd
  exact ⟨true, s', accept_eq_true.mpr ⟨a, hok⟩, htakes, rfl⟩

theorem accept_bind {f : Bool → Parser β} (t : Terminal k) (hk : k ≠ .eof)
    (hf : Accepts d (f true) us r P') : Accepts d (Parser.accept k >>= f) (t.val :: us) r P' :=
  bind (accept t hk) fun _ ha => ha ▸ hf

theorem accept_bind_of_ne {f : Bool → Parser β} (hk : nextKind (us ++ r) ≠ k)
    (hf : Accepts d (f false) us r P') : Accepts d (Parser.accept k >>= f) us r P' := by
  have hx : Accepts d (Parser.accept k) [] (us ++ r) (· = false) := by
    intro s hs _
    exact ⟨false, s, accept_eq_false.mpr ⟨by rwa [hs], rfl⟩, .refl s, rfl⟩
  exact bind hx fun _ ha => ha ▸ hf

theorem visit (production : Production) : Accepts d (visit production) [] r fun _ => True :=
  fun _ _ _ => ⟨(), _, rfl, .visit .., trivial⟩

theorem visit_bind {f : Unit → Parser β} (hf : Accepts d (f ()) us r P') :
    Accepts d (Parser.visit production >>= f) us r P' :=
  bind (visit production) fun _ _ => hf

/-- Looking at the state and going on. -/
theorem look_bind {g : ParserState → α}
    (hf : ∀ s : ParserState, s.rest = us ++ r → s.depth = d → Accepts d (f (g s)) us r P') :
    Accepts d ((fun s => .ok (g s) s : Parser α) >>= f) us r P' :=
  fun s hs hd => hf s hs hd s hs hd

/-- Looking at the state with a known token in front. -/
theorem cursor_bind {f : Cursor → Parser β} (t : Terminal k)
    (hf : ∀ s : Cursor, s.peek.kind = k → Accepts d (f s) (t.val :: us) r P') :
    Accepts d (cursor >>= f) (t.val :: us) r P' :=
  look_bind fun s hs _ => hf s.toCursor (by rw [Cursor.kind_peek, hs]; exact t.property)

theorem peek_bind {f : Token → Parser β} (hf : Accepts d (f t) (t :: us) r P') :
    Accepts d (peek >>= f) (t :: us) r P' :=
  look_bind fun s hs _ => by
    have hpeek : s.peek = t := by rw [Cursor.peek, hs]; rfl
    exact hpeek ▸ hf

theorem check_bind {f : Bool → Parser β}
    (hf : Accepts d (f (nextKind (us ++ r) = k)) us r P') :
    Accepts d (check k >>= f) us r P' :=
  look_bind fun s hs _ => by rw [Cursor.check_eq, hs]; exact hf

theorem nested (hx : Accepts (d + 1) x ts r P) : Accepts d (nested x) ts r P := by
  intro s hs hd
  obtain ⟨a, s', hok, ht, ha⟩ := hx { s with depth := s.depth + 1 } hs (by simp [hd])
  refine ⟨a, { s' with depth := s'.depth - 1 }, ?_, ?_, ha⟩
  · exact nested_eq_ok.mpr ⟨s', hok, rfl⟩
  · exact ⟨⟨ht.rest, ht.before, by simp [ht.depth]⟩, ht.errors⟩

end Accepts

/-- The same at states that have just taken the token `t`. -/
def AcceptsAfter (t : Token) (d : Nat) (x : Parser α) (ts r : List Token) (P : α → Prop) : Prop :=
  ∀ s : ParserState, s.previous = t → s.rest = ts ++ r → s.depth = d →
    ∃ a s', x s = .ok a s' ∧ s.Takes ts s' ∧ P a

section
variable {P : α → Prop} {P' : β → Prop}

theorem previous_of_takes {s s' : ParserState} (h : s.Passes ts s') (hts : ts.getLast? = some t) :
    s'.previous = t := by
  rw [← List.head?_reverse] at hts
  obtain ⟨us, hus⟩ := List.head?_eq_some_iff.mp hts
  rw [Cursor.previous, h.before, hus]
  rfl

theorem Accepts.bind_after (hx : Accepts d x ts (us ++ r) P) (hts : ts.getLast? = some t)
    (hf : ∀ a, P a → AcceptsAfter t d (f a) us r P') : Accepts d (x >>= f) (ts ++ us) r P' := by
  intro s hs hd
  obtain ⟨a, s', hok, ht, ha⟩ := hx s (by rw [hs, List.append_assoc]) hd
  have hs' : s'.rest = us ++ r := ht.rest_eq (by rw [hs, List.append_assoc])
  obtain ⟨b, s'', hok', ht', hb⟩ :=
    hf a ha s' (previous_of_takes ht.toPasses hts) hs' (ht.depth.trans hd)
  exact ⟨b, s'', bind_eq_ok.mpr ⟨a, s', hok, hok'⟩, ht.trans ht', hb⟩

theorem AcceptsAfter.accept_bind_of_ne {f : Bool → Parser β} (hk : nextKind (us ++ r) ≠ k)
    (hf : AcceptsAfter t d (f false) us r P') : AcceptsAfter t d (accept k >>= f) us r P' := by
  intro s ht hs hd
  obtain ⟨b, s', hok, htakes, hb⟩ := hf s ht hs hd
  exact ⟨b, s', bind_eq_ok.mpr ⟨false, s, accept_eq_false.mpr ⟨by rwa [hs], rfl⟩, hok⟩, htakes, hb⟩

end

/-! ## Items between commas -/

section
variable {S : List Token → β → Prop} {g : α → β}

/-- Items, each behind a comma, that are related by `S` to their tokens. -/
inductive MoreItems (S : List Token → β → Prop) : List Token → List β → Prop
  | nil : MoreItems S [] []
  | cons (comma : Terminal .comma) (h : S ts b) (more : MoreItems S us bs) :
    MoreItems S (comma.val :: (ts ++ us)) (b :: bs)

/-- Items with commas between them. -/
inductive Items (S : List Token → β → Prop) : List Token → List β → Prop
  | none : Items S [] []
  | some (h : S ts b) (more : MoreItems S us bs) : Items S (ts ++ us) (b :: bs)

theorem Reads.moreItems (hx : Reads x fun ts a => S ts (g a)) (n : Nat) :
    Reads (moreItems x n) fun ts as => MoreItems S ts (as.map g) := by
  induction n with
  | zero => exact .pure .nil
  | succ n ih =>
    refine (reads_accept (by decide)).bind fun b => ?_
    cases b with
    | false => exact .pure (by rintro _ rfl; exact .nil)
    | true =>
      refine hx.bind fun a => ih.bind fun as => .pure ?_
      rintro us hus ts hts _ ⟨comma, rfl⟩
      simpa using MoreItems.cons comma hts hus

theorem Reads.items (hx : Reads x fun ts a => S ts (g a)) :
    Reads (items x) fun ts as => Items S ts (as.map g) := by
  refine look.bind fun b => ?_
  cases b with
  | true => exact .pure (by rintro _ rfl; exact .none)
  | false =>
    refine hx.bind fun a => look.bind fun n => (hx.moreItems n).bind fun as => .pure ?_
    rintro us hus _ rfl ts hts _ rfl
    simpa using Items.some hts hus

/-- The kinds that end an item. -/
def itemEnds : List TokenKind := [.comma, .rightParen]

theorem MoreItems.nextKind_mem (h : MoreItems S us bs) (hr : nextKind r = .rightParen) :
    nextKind (us ++ r) ∈ itemEnds := by
  cases h with
  | nil => simp [itemEnds, hr]
  | cons comma => simp [itemEnds, comma.property]

end

section
variable {S : List Token → α → Prop}

theorem MoreItems.accepts
    (hx : ∀ {ts a r}, S ts a → nextKind r ∈ itemEnds → Accepts d x ts r (· = a))
    (h : MoreItems S us as) (hr : nextKind r = .rightParen) (hn : us.length ≤ n) :
    Accepts d (Parser.moreItems x n) us r (· = as) := by
  induction h generalizing n with
  | nil =>
    cases n with
    | zero => exact .pure rfl
    | succ n => exact .accept_bind_of_ne (by simp [hr]) (.pure rfl)
  | @cons ts a us as comma ha more ih =>
    obtain ⟨n, rfl⟩ : ∃ m, n = m + 1 := Nat.exists_eq_succ_of_ne_zero (by grind)
    have hn' : us.length ≤ n := by grind
    refine .accept_bind comma (by decide) <| (hx ha (more.nextKind_mem hr)).bind ?_
    rintro _ rfl
    exact (ih hn').bind_pure fun as' has => by rw [has]

theorem Items.accepts
    (hx : ∀ {ts a r}, S ts a → nextKind r ∈ itemEnds → Accepts d x ts r (· = a))
    (hS : ∀ {ts a r}, S ts a → nextKind (ts ++ r) ≠ .rightParen)
    (h : Items S us as) (hr : nextKind r = .rightParen) :
    Accepts d (Parser.items x) us r (· = as) := by
  refine .check_bind ?_
  cases h with
  | none => simpa [hr] using .pure rfl
  | @some ts a us as ha more =>
    rw [List.append_assoc, decide_eq_false (hS ha)]
    refine (hx ha (more.nextKind_mem hr)).bind ?_
    rintro _ rfl
    refine .look_bind fun s hs _ => ?_
    have hn : us.length ≤ s.rest.length := by rw [hs, List.length_append]; omega
    exact (more.accepts hx hr hn).bind_pure fun as' has => by rw [has]

end

end Parser

end BracketLang
