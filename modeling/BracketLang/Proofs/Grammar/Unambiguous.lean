import BracketLang.Proofs.Grammar.Statements

/-! The grammar is unambiguous: two derivations with the same tokens are the same. For this to go
through under a production, it is shown that tokens split in one way into those of a derivation and
a rest that cannot go on with it. A left-recursive derivation at the level of a binary operator is
unrolled into a chain, its first operand and the operators with their right operands behind it
(`ExprDeriv.ofChain`); chains are compared from the left. -/

namespace BracketLang

/-! ## Chains -/

/-- The tokens of operators and their right operands. -/
def linksYield (links : List (OperatorTerminal p × ExprDeriv p.tighter)) : List Token :=
  links.flatMap fun q => q.1.val :: q.2.yield

namespace ExprDeriv

/-- The left-associative derivation of a chain. -/
def ofChain (hp : p.IsBinary) (first : ExprDeriv p.tighter)
    (links : List (OperatorTerminal p × ExprDeriv p.tighter)) : ExprDeriv p :=
  links.foldl (fun l q => .binary hp l q.1 q.2) (.tighter hp first)

theorem yield_ofChain (hp : p.IsBinary) (first : ExprDeriv p.tighter)
    (links : List (OperatorTerminal p × ExprDeriv p.tighter)) :
    (ofChain hp first links).yield = first.yield ++ linksYield links := by
  have hfold (l : ExprDeriv p) : (links.foldl (fun l q => .binary hp l q.1 q.2) l).yield =
      l.yield ++ linksYield links := by
    induction links generalizing l with
    | nil => simp [linksYield]
    | cons q links ih => simp [ih, linksYield, yield]
  exact hfold _

theorem exists_chain : (hp : p.IsBinary) → (d : ExprDeriv p) →
    ∃ first links, d = ofChain hp first links
  | _, .tighter _ e => ⟨e, [], rfl⟩
  | hp, .binary _ l op r => by
    obtain ⟨first, links, rfl⟩ := exists_chain hp l
    exact ⟨first, links ++ [(op, r)], by simp [ofChain]⟩
  | hp, .unary .. | hp, .integer _ | hp, .boolean _ | hp, .var _ | hp, .call .. | hp, .group .. =>
    absurd rfl hp.2

end ExprDeriv

/-- Behind the first operand of a chain comes nothing that its level goes on with. -/
theorem not_le_linksYield (hp : p.IsBinary)
    (links : List (OperatorTerminal p × ExprDeriv p.tighter))
    (hr : (nextKind r).precedence ≤ p) :
    ¬ p.tighter ≤ (nextKind (linksYield links ++ r)).precedence := by
  have hrank := Precedence.rank_tighter hp
  rw [Precedence.le_iff] at hr ⊢
  cases links with
  | nil => simp only [linksYield, List.flatMap_nil, List.nil_append]; omega
  | cons q links =>
    simp only [linksYield, List.flatMap_cons, List.cons_append, nextKind_cons, q.1.property]
    omega

theorem Apart.linksYield (hp : p.IsBinary)
    {links : List (OperatorTerminal p × ExprDeriv p.tighter)}
    (h : Apart (ts ++ linksYield links) r) : Apart ts (linksYield links ++ r) := by
  cases links with
  | nil => simpa [BracketLang.linksYield] using h
  | cons q links =>
    refine .of_ne fun hq => hp.1 ?_
    rw [← q.1.property, show q.1.val.kind = .leftParen from hq]
    rfl

/-! ## Expressions -/

/-- Tokens split in one way into those of an expression of level `p`, no more than `n`, and a rest
that does not go on with it. -/
def SplitsOnce (p : Precedence) (n : Nat) : Prop :=
  ∀ {d d' : ExprDeriv p} {r r' : List Token}, d.yield.length ≤ n → d.yield ++ r = d'.yield ++ r' →
    ¬ p ≤ (nextKind r).precedence → ¬ p ≤ (nextKind r').precedence →
    Apart d.yield r → Apart d'.yield r' → d = d' ∧ r = r'

section
variable {n : Nat}

theorem links_unique (hp : p.IsBinary) (ih : ∀ m < n, SplitsOnce p.tighter m)
    {links links' : List (OperatorTerminal p × ExprDeriv p.tighter)}
    (hn : (linksYield links).length ≤ n) (h : linksYield links ++ r = linksYield links' ++ r')
    (hr : ¬ p ≤ (nextKind r).precedence) (hr' : ¬ p ≤ (nextKind r').precedence)
    (ha : Apart (linksYield links) r) (ha' : Apart (linksYield links') r') :
    links = links' ∧ r = r' := by
  -- an operator of the level cannot stand where the other chain has ended
  have hop (q : OperatorTerminal p × ExprDeriv p.tighter) : p ≤ q.1.val.kind.precedence := by
    rw [q.1.property]
    exact Nat.le_refl _
  induction links generalizing links' with
  | nil =>
    cases links' with
    | nil => exact ⟨rfl, h⟩
    | cons q' links' =>
      rw [show nextKind r = q'.1.val.kind from congrArg nextKind h] at hr
      exact absurd (hop q') hr
  | cons q links ihl =>
    cases links' with
    | nil =>
      rw [show nextKind r' = q.1.val.kind from congrArg nextKind h.symm] at hr'
      exact absurd (hop q) hr'
    | cons q' links' =>
      obtain ⟨op, e⟩ := q
      obtain ⟨op', e'⟩ := q'
      simp only [linksYield, List.flatMap_cons, List.cons_append, List.append_assoc,
        List.cons.injEq,
        List.length_cons, List.length_append] at h hn ha ha'
      obtain ⟨hop', h⟩ := h
      have ha₁ := ha.of_cons
      have ha₁' := ha'.of_cons
      obtain ⟨rfl, hrest⟩ := ih e.yield.length (by omega) (Nat.le_refl _) h
        (not_le_linksYield hp links (Precedence.le_of_not_le hr))
        (not_le_linksYield hp links' (Precedence.le_of_not_le hr'))
        (ha₁.linksYield hp) (ha₁'.linksYield hp)
      obtain ⟨rfl, rfl⟩ := ihl (by simp only [linksYield]; omega) hrest ha₁.of_append ha₁'.of_append
      exact ⟨by rw [Subtype.ext hop'], rfl⟩

theorem splitsOnce_binary (hp : p.IsBinary) (hn : SplitsOnce p.tighter n)
    (ih : ∀ m < n, SplitsOnce p.tighter m) : SplitsOnce p n := by
  intro d d' r r' hlen h hr hr' ha ha'
  obtain ⟨first, links, rfl⟩ := ExprDeriv.exists_chain hp d
  obtain ⟨first', links', rfl⟩ := ExprDeriv.exists_chain hp d'
  simp only [ExprDeriv.yield_ofChain, List.append_assoc, List.length_append] at hlen h ha ha'
  obtain ⟨rfl, hlinks⟩ := hn (by omega) h
    (not_le_linksYield hp links (Precedence.le_of_not_le hr))
    (not_le_linksYield hp links' (Precedence.le_of_not_le hr')) (ha.linksYield hp)
    (ha'.linksYield hp)
  obtain ⟨rfl, rfl⟩ := links_unique hp ih (by omega) hlinks hr hr' ha.of_append ha'.of_append
  exact ⟨rfl, rfl⟩

theorem MoreArgsDeriv.splits (ih : ∀ m < n, SplitsOnce .or m) (more more' : MoreArgsDeriv)
    (hn : more.yield.length ≤ n) (h : more.yield ++ r = more'.yield ++ r')
    (hr : nextKind r = .rightParen) (hr' : nextKind r' = .rightParen) : more = more' ∧ r = r' := by
  match more, more' with
  | .nil, .nil => exact ⟨rfl, h⟩
  | .nil, .cons comma' .. =>
    have hk : nextKind r = comma'.val.kind := congrArg nextKind h
    rw [hr, comma'.property] at hk
    cases hk
  | .cons comma .., .nil =>
    have hk : comma.val.kind = nextKind r' := congrArg nextKind h
    rw [hr', comma.property] at hk
    cases hk
  | .cons comma e more, .cons comma' e' more' =>
    simp only [MoreArgsDeriv.yield, List.cons_append, List.append_assoc, List.cons.injEq,
      List.length_cons, List.length_append] at h hn
    obtain ⟨hcomma, h⟩ := h
    obtain ⟨hle, hne⟩ :=
      not_le_of_mem_itemEnds ((more.moreItems (Nat.le_refl _)).nextKind_mem hr)
    obtain ⟨hle', hne'⟩ :=
      not_le_of_mem_itemEnds ((more'.moreItems (Nat.le_refl _)).nextKind_mem hr')
    obtain ⟨rfl, hmore⟩ := ih e.yield.length (by omega) (Nat.le_refl _) h hle hle' (.of_ne hne)
      (.of_ne hne')
    obtain ⟨rfl, rfl⟩ := more.splits ih more' (by omega) hmore hr hr'
    exact ⟨by rw [Subtype.ext hcomma], rfl⟩

theorem ArgsDeriv.splits (ih : ∀ m < n, SplitsOnce .or m) (args args' : ArgsDeriv)
    (hn : args.yield.length < n) (h : args.yield ++ r = args'.yield ++ r')
    (hr : nextKind r = .rightParen) (hr' : nextKind r' = .rightParen) : args = args' ∧ r = r' := by
  have hstart {e : ExprDeriv .or} {us : List Token} : nextKind (e.yield ++ us) ≠ .rightParen := by
    intro hk
    have hmem := e.nextKind_yield us
    rw [hk] at hmem
    exact absurd hmem (by decide)
  match args, args' with
  | .none, .none => exact ⟨rfl, h⟩
  | .none, .some e' more' =>
    simp only [ArgsDeriv.yield, List.nil_append, List.append_assoc] at h
    exact absurd (h ▸ hr) hstart
  | .some e more, .none =>
    simp only [ArgsDeriv.yield, List.nil_append, List.append_assoc] at h
    exact absurd (h ▸ hr') hstart
  | .some e more, .some e' more' =>
    simp only [ArgsDeriv.yield, List.append_assoc, List.length_append] at h hn
    obtain ⟨hle, hne⟩ :=
      not_le_of_mem_itemEnds ((more.moreItems (Nat.le_refl _)).nextKind_mem hr)
    obtain ⟨hle', hne'⟩ :=
      not_le_of_mem_itemEnds ((more'.moreItems (Nat.le_refl _)).nextKind_mem hr')
    obtain ⟨rfl, hmore⟩ := ih e.yield.length (by omega) (Nat.le_refl _) h hle hle' (.of_ne hne)
      (.of_ne hne')
    obtain ⟨rfl, rfl⟩ := more.splits ih more' (by omega) hmore hr hr'
    exact ⟨rfl, rfl⟩

theorem splitsOnce_unary (ih : ∀ m < n, ∀ p, SplitsOnce p m) : SplitsOnce .unary n := by
  intro d d' r r' hn h hr hr' ha ha'
  cases d with
  | tighter hp | binary hp => exact absurd rfl hp.2
  | unary op e =>
    cases d' with
    | tighter hp | binary hp => exact absurd rfl hp.2
    | unary op' e' =>
      simp only [ExprDeriv.yield, List.cons_append, List.cons.injEq, List.length_cons]
        at h hn ha ha'
      obtain ⟨hop, h⟩ := h
      obtain ⟨rfl, rfl⟩ := ih e.yield.length (by omega) .unary (Nat.le_refl _) h hr hr'
        ha.of_cons ha'.of_cons
      exact ⟨by rw [Subtype.ext hop], rfl⟩
    | _ => exact absurd (congrArg nextKind h) (by grind [ExprDeriv.yield, nextKind])
  | integer t =>
    cases d' with
    | tighter hp | binary hp => exact absurd rfl hp.2
    | integer t' =>
      obtain ⟨ht, hrest⟩ := List.cons.inj h
      exact ⟨by rw [Subtype.ext ht], hrest⟩
    | _ => exact absurd (congrArg nextKind h) (by grind [ExprDeriv.yield, nextKind])
  | boolean t =>
    cases d' with
    | tighter hp | binary hp => exact absurd rfl hp.2
    | boolean t' =>
      obtain ⟨ht, hrest⟩ := List.cons.inj h
      exact ⟨by rw [Subtype.ext ht], hrest⟩
    | _ => exact absurd (congrArg nextKind h) (by grind [ExprDeriv.yield, nextKind])
  | var t =>
    cases d' with
    | tighter hp | binary hp => exact absurd rfl hp.2
    | var t' =>
      obtain ⟨ht, hrest⟩ := List.cons.inj h
      exact ⟨by rw [Subtype.ext ht], hrest⟩
    | call t' lp' args' rp' =>
      obtain ⟨-, hrest⟩ := List.cons.inj h
      exact absurd t.property (ha ((congrArg nextKind hrest).trans lp'.property) t.val rfl)
    | _ => exact absurd (congrArg nextKind h) (by grind [ExprDeriv.yield, nextKind])
  | call t lp args rp =>
    cases d' with
    | tighter hp | binary hp => exact absurd rfl hp.2
    | var t' =>
      obtain ⟨-, hrest⟩ := List.cons.inj h
      exact absurd t'.property (ha' ((congrArg nextKind hrest).symm.trans lp.property) t'.val rfl)
    | call t' lp' args' rp' =>
      simp only [ExprDeriv.yield, List.cons_append, List.append_assoc, List.cons.injEq,
        List.length_cons, List.length_append, List.nil_append] at h hn
      obtain ⟨ht, hlp, h⟩ := h
      obtain ⟨rfl, hrest⟩ := args.splits (fun m hm => ih m hm .or) args' (by omega) h rp.property
        rp'.property
      obtain ⟨hrp, rfl⟩ := List.cons.inj hrest
      exact ⟨by rw [Subtype.ext ht, Subtype.ext hlp, Subtype.ext hrp], rfl⟩
    | _ => exact absurd (congrArg nextKind h) (by grind [ExprDeriv.yield, nextKind])
  | group lp e rp =>
    cases d' with
    | tighter hp | binary hp => exact absurd rfl hp.2
    | group lp' e' rp' =>
      simp only [ExprDeriv.yield, List.cons_append, List.append_assoc, List.cons.injEq,
        List.length_cons, List.length_append, List.nil_append] at h hn
      obtain ⟨hlp, h⟩ := h
      have hends (t : Terminal .rightParen) {us : List Token} :
          nextKind (t.val :: us) ∈ Parser.itemEnds := by
        rw [nextKind_cons, t.property]
        decide
      obtain ⟨hle, hne⟩ := not_le_of_mem_itemEnds (hends rp)
      obtain ⟨hle', hne'⟩ := not_le_of_mem_itemEnds (hends rp')
      obtain ⟨rfl, hrest⟩ := ih e.yield.length (by omega) .or (Nat.le_refl _) h hle hle'
        (.of_ne hne) (.of_ne hne')
      obtain ⟨hrp, rfl⟩ := List.cons.inj hrest
      exact ⟨by rw [Subtype.ext hlp, Subtype.ext hrp], rfl⟩
    | _ => exact absurd (congrArg nextKind h) (by grind [ExprDeriv.yield, nextKind])

end

/-- The induction is on the number of tokens and, for as many tokens, from the tightest level to
the loosest. -/
theorem splitsOnce (n : Nat) (p : Precedence) : SplitsOnce p n := by
  induction n using Nat.strongRecOn generalizing p with
  | _ n ih =>
    generalize hk : Precedence.unary.rank - p.rank = k
    induction k generalizing p with
    | zero =>
      obtain rfl : p = .unary :=
        Precedence.eq_of_rank_eq (Nat.le_antisymm p.rank_le (Nat.sub_eq_zero_iff_le.mp hk))
      exact splitsOnce_unary ih
    | succ k ihk =>
      intro d d' r r'
      have hb : p.IsBinary :=
        Precedence.isBinary_iff.mpr ⟨Precedence.rank_pos d.ne_none, by omega⟩
      have hrank := Precedence.rank_tighter hb
      exact splitsOnce_binary hb (ihk p.tighter (by omega)) fun m hm => ih m hm p.tighter

theorem ExprDeriv.splits (d d' : ExprDeriv p) (h : d.yield ++ r = d'.yield ++ r')
    (hr : ¬ p ≤ (nextKind r).precedence) (hr' : ¬ p ≤ (nextKind r').precedence)
    (ha : Apart d.yield r) (ha' : Apart d'.yield r') : d = d' ∧ r = r' :=
  splitsOnce _ p (Nat.le_refl _) h hr hr' ha ha'

/-! ## Statements -/

theorem ExprDeriv.splits_statement (e e' : ExprDeriv .or) (h : e.yield ++ r = e'.yield ++ r')
    (hr : nextKind r = .semicolon ∨ nextKind r = .leftBracket)
    (hr' : nextKind r' = .semicolon ∨ nextKind r' = .leftBracket) : e = e' ∧ r = r' := by
  obtain ⟨hle, hne⟩ := Parser.not_le_of_statement hr
  obtain ⟨hle', hne'⟩ := Parser.not_le_of_statement hr'
  exact e.splits e' h hle hle' (.of_ne hne) (.of_ne hne')

/-- An expression and the semicolon behind it. -/
theorem ExprDeriv.splits_semicolon (e e' : ExprDeriv .or) (semi semi' : Terminal .semicolon)
    (h : e.yield ++ semi.val :: r = e'.yield ++ semi'.val :: r') :
    e = e' ∧ semi = semi' ∧ r = r' := by
  obtain ⟨rfl, hrest⟩ := e.splits_statement e' h (.inl semi.property) (.inl semi'.property)
  obtain ⟨hsemi, rfl⟩ := List.cons.inj hrest
  exact ⟨rfl, Subtype.ext hsemi, rfl⟩

/-- No word that starts another statement starts an expression. -/
theorem ExprDeriv.ne_word (e : ExprDeriv .or) (word : Terminal k)
    (hk : k ∉ TokenKind.expressionStarts) : word.val :: ts ≠ e.yield ++ us := by
  intro h
  have hmem := e.nextKind_yield us
  rw [← h, nextKind_cons, word.property] at hmem
  exact hk hmem

/-- A condition ends where its block begins. -/
theorem ExprDeriv.splits_block (c c' : ExprDeriv .or) (b b' : BlockDeriv)
    (h : c.yield ++ (b.yield ++ r) = c'.yield ++ (b'.yield ++ r')) :
    c = c' ∧ b.yield ++ r = b'.yield ++ r' :=
  c.splits_statement c' h (.inr (b.nextKind_yield r)) (.inr (b'.nextKind_yield r'))

/-- No expression statement is an assignment. -/
theorem ExprDeriv.ne_assign (e : ExprDeriv .or) (semi : Terminal .semicolon)
    (x : Terminal .identifier) (eq : Terminal .assign) :
    (StmtDeriv.expr e semi).yield ++ r ≠ x.val :: eq.val :: ts := by
  intro h
  rw [StmtDeriv.yield, List.append_assoc] at h
  have hne := e.nextKind_tail_ne (r := [semi.val] ++ r) (by simp [semi.property])
  rw [h] at hne
  exact hne eq.property

mutual

theorem StmtDeriv.splits (d d' : StmtDeriv) (h : d.yield ++ r = d'.yield ++ r')
    (hr : nextKind r ≠ .elseWord) (hr' : nextKind r' ≠ .elseWord) : d = d' ∧ r = r' := by
  match d with
  | .letVar word x colon t eq e semi =>
    cases d' with
    | letVar word' x' colon' t' eq' e' semi' =>
      simp only [StmtDeriv.yield, List.cons_append, List.append_assoc, List.cons.injEq,
        List.nil_append] at h
      obtain ⟨hword, hx, hcolon, ht, heq, h⟩ := h
      obtain ⟨rfl, rfl, rfl⟩ := e.splits_semicolon e' semi semi' h
      exact ⟨by rw [Subtype.ext hword, Subtype.ext hx, Subtype.ext hcolon, Subtype.ext ht,
        Subtype.ext heq], rfl⟩
    | expr e' => exact absurd (by simpa [StmtDeriv.yield] using h) (e'.ne_word word (by decide))
    | _ => exact absurd (congrArg nextKind h) (by grind [StmtDeriv.yield, nextKind])
  | .assign x eq e semi =>
    cases d' with
    | assign x' eq' e' semi' =>
      simp only [StmtDeriv.yield, List.cons_append, List.append_assoc, List.cons.injEq,
        List.nil_append] at h
      obtain ⟨hx, heq, h⟩ := h
      obtain ⟨rfl, rfl, rfl⟩ := e.splits_semicolon e' semi semi' h
      exact ⟨by rw [Subtype.ext hx, Subtype.ext heq], rfl⟩
    | expr e' semi' => exact absurd h.symm (e'.ne_assign semi' x eq)
    | _ => exact absurd (congrArg nextKind h) (by grind [StmtDeriv.yield, nextKind])
  | .ifThen word c b =>
    cases d' with
    | ifThen word' c' b' =>
      simp only [StmtDeriv.yield, List.cons_append, List.append_assoc, List.cons.injEq] at h
      obtain ⟨hword, h⟩ := h
      obtain ⟨rfl, hb⟩ := c.splits_block c' b b' h
      obtain ⟨rfl, rfl⟩ := b.splits b' hb
      exact ⟨by rw [Subtype.ext hword], rfl⟩
    | ifElse word' c' b₁ other' b₂ =>
      simp only [StmtDeriv.yield, List.cons_append, List.append_assoc, List.cons.injEq] at h
      obtain ⟨rfl, hb⟩ := c.splits_block c' b b₁ h.2
      obtain ⟨rfl, rfl⟩ := b.splits b₁ hb
      exact absurd other'.property hr
    | expr e' => exact absurd (by simpa [StmtDeriv.yield] using h) (e'.ne_word word (by decide))
    | _ => exact absurd (congrArg nextKind h) (by grind [StmtDeriv.yield, nextKind])
  | .ifElse word c b other b₂ =>
    cases d' with
    | ifThen word' c' b' =>
      simp only [StmtDeriv.yield, List.cons_append, List.append_assoc, List.cons.injEq] at h
      obtain ⟨rfl, hb⟩ := c.splits_block c' b b' h.2
      obtain ⟨rfl, rfl⟩ := b.splits b' hb
      exact absurd other.property hr'
    | ifElse word' c' b' other' b₂' =>
      simp only [StmtDeriv.yield, List.cons_append, List.append_assoc, List.cons.injEq] at h
      obtain ⟨hword, h⟩ := h
      obtain ⟨rfl, hb⟩ := c.splits_block c' b b' h
      obtain ⟨rfl, hb₂⟩ := b.splits b' hb
      obtain ⟨hother, hb₂⟩ := List.cons.inj hb₂
      obtain ⟨rfl, rfl⟩ := b₂.splits b₂' hb₂
      exact ⟨by rw [Subtype.ext hword, Subtype.ext hother], rfl⟩
    | expr e' => exact absurd (by simpa [StmtDeriv.yield] using h) (e'.ne_word word (by decide))
    | _ => exact absurd (congrArg nextKind h) (by grind [StmtDeriv.yield, nextKind])
  | .whileLoop word c b =>
    cases d' with
    | whileLoop word' c' b' =>
      simp only [StmtDeriv.yield, List.cons_append, List.append_assoc, List.cons.injEq] at h
      obtain ⟨hword, h⟩ := h
      obtain ⟨rfl, hb⟩ := c.splits_block c' b b' h
      obtain ⟨rfl, rfl⟩ := b.splits b' hb
      exact ⟨by rw [Subtype.ext hword], rfl⟩
    | expr e' => exact absurd (by simpa [StmtDeriv.yield] using h) (e'.ne_word word (by decide))
    | _ => exact absurd (congrArg nextKind h) (by grind [StmtDeriv.yield, nextKind])
  | .retNone word semi =>
    cases d' with
    | retNone word' semi' =>
      simp only [StmtDeriv.yield, List.cons_append, List.cons.injEq, List.nil_append] at h
      obtain ⟨hword, hsemi, rfl⟩ := h
      exact ⟨by rw [Subtype.ext hword, Subtype.ext hsemi], rfl⟩
    | ret word' e' semi' =>
      simp only [StmtDeriv.yield, List.cons_append, List.append_assoc, List.cons.injEq] at h
      exact absurd h.2 (e'.ne_word semi (by decide))
    | expr e' => exact absurd (by simpa [StmtDeriv.yield] using h) (e'.ne_word word (by decide))
    | _ => exact absurd (congrArg nextKind h) (by grind [StmtDeriv.yield, nextKind])
  | .ret word e semi =>
    cases d' with
    | retNone word' semi' =>
      simp only [StmtDeriv.yield, List.cons_append, List.append_assoc, List.cons.injEq] at h
      exact absurd h.2.symm (e.ne_word semi' (by decide))
    | ret word' e' semi' =>
      simp only [StmtDeriv.yield, List.cons_append, List.append_assoc, List.cons.injEq,
        List.nil_append] at h
      obtain ⟨hword, h⟩ := h
      obtain ⟨rfl, rfl, rfl⟩ := e.splits_semicolon e' semi semi' h
      exact ⟨by rw [Subtype.ext hword], rfl⟩
    | expr e' => exact absurd (by simpa [StmtDeriv.yield] using h) (e'.ne_word word (by decide))
    | _ => exact absurd (congrArg nextKind h) (by grind [StmtDeriv.yield, nextKind])
  | .print word e semi =>
    cases d' with
    | print word' e' semi' =>
      simp only [StmtDeriv.yield, List.cons_append, List.append_assoc, List.cons.injEq,
        List.nil_append] at h
      obtain ⟨hword, h⟩ := h
      obtain ⟨rfl, rfl, rfl⟩ := e.splits_semicolon e' semi semi' h
      exact ⟨by rw [Subtype.ext hword], rfl⟩
    | expr e' => exact absurd (by simpa [StmtDeriv.yield] using h) (e'.ne_word word (by decide))
    | _ => exact absurd (congrArg nextKind h) (by grind [StmtDeriv.yield, nextKind])
  | .expr e semi =>
    cases d' with
    | expr e' semi' =>
      simp only [StmtDeriv.yield, List.append_assoc, List.cons_append, List.nil_append] at h
      obtain ⟨rfl, rfl, rfl⟩ := e.splits_semicolon e' semi semi' h
      exact ⟨rfl, rfl⟩
    | assign x' eq' e' semi' => exact absurd h (e.ne_assign semi x' eq')
    | letVar word' | ifThen word' | ifElse word' | whileLoop word' | retNone word' | ret word'
    | print word' =>
      exact absurd (by simpa [StmtDeriv.yield] using h.symm) (e.ne_word word' (by decide))

theorem BlockDeriv.splits (d d' : BlockDeriv) (h : d.yield ++ r = d'.yield ++ r') :
    d = d' ∧ r = r' := by
  match d, d' with
  | .mk lb body rb, .mk lb' body' rb' =>
    simp only [BlockDeriv.yield, List.cons_append, List.append_assoc, List.cons.injEq,
      List.nil_append] at h
    obtain ⟨hlb, h⟩ := h
    obtain ⟨rfl, hrest⟩ := body.splits body' h rb.property rb'.property
    obtain ⟨hrb, rfl⟩ := List.cons.inj hrest
    exact ⟨by rw [Subtype.ext hlb, Subtype.ext hrb], rfl⟩

theorem BodyDeriv.splits (d d' : BodyDeriv) (h : d.yield ++ r = d'.yield ++ r')
    (hr : nextKind r = .rightBracket) (hr' : nextKind r' = .rightBracket) : d = d' ∧ r = r' := by
  match d, d' with
  | .nil, .nil => exact ⟨rfl, h⟩
  | .nil, .cons s' ss' =>
    rw [BodyDeriv.yield, BodyDeriv.yield, List.nil_append, List.append_assoc] at h
    exact absurd (h ▸ hr) (s'.nextKind_ne (by decide))
  | .cons s ss, .nil =>
    rw [BodyDeriv.yield, BodyDeriv.yield, List.nil_append, List.append_assoc] at h
    exact absurd (h ▸ hr') (s.nextKind_ne (by decide))
  | .cons s ss, .cons s' ss' =>
    rw [BodyDeriv.yield, BodyDeriv.yield, List.append_assoc, List.append_assoc] at h
    obtain ⟨rfl, hss⟩ := s.splits s' h (ss.nextKind_ne_else hr) (ss'.nextKind_ne_else hr')
    obtain ⟨rfl, rfl⟩ := ss.splits ss' hss hr hr'
    exact ⟨rfl, rfl⟩

end

/-! ## Programs -/

theorem ParamDeriv.splits (d d' : ParamDeriv) (h : d.yield ++ r = d'.yield ++ r') :
    d = d' ∧ r = r' := by
  obtain ⟨x, colon, t⟩ := d
  obtain ⟨x', colon', t'⟩ := d'
  simp only [yield, List.cons_append, List.cons.injEq, List.nil_append] at h
  obtain ⟨hx, hcolon, ht, rfl⟩ := h
  exact ⟨by rw [Subtype.ext hx, Subtype.ext hcolon, Subtype.ext ht], rfl⟩

namespace ParamsDeriv

theorem splits_more {more more' : List (Terminal .comma × ParamDeriv)}
    (h : more.flatMap (fun q => q.1.val :: q.2.yield) ++ r =
      more'.flatMap (fun q => q.1.val :: q.2.yield) ++ r')
    (hr : nextKind r = .rightParen) (hr' : nextKind r' = .rightParen) : more = more' ∧ r = r' := by
  induction more generalizing more' with
  | nil =>
    cases more' with
    | nil => exact ⟨rfl, h⟩
    | cons q' more' =>
      have hk : nextKind r = q'.1.val.kind := congrArg nextKind h
      rw [hr, q'.1.property] at hk
      cases hk
  | cons q more ih =>
    cases more' with
    | nil =>
      have hk : q.1.val.kind = nextKind r' := congrArg nextKind h
      rw [hr', q.1.property] at hk
      cases hk
    | cons q' more' =>
      obtain ⟨comma, d⟩ := q
      obtain ⟨comma', d'⟩ := q'
      simp only [List.flatMap_cons, List.cons_append, List.append_assoc, List.cons.injEq] at h
      obtain ⟨hcomma, h⟩ := h
      obtain ⟨rfl, hmore⟩ := d.splits d' h
      obtain ⟨rfl, rfl⟩ := ih hmore
      exact ⟨by rw [Subtype.ext hcomma], rfl⟩

theorem splits (d d' : ParamsDeriv) (h : d.yield ++ r = d'.yield ++ r')
    (hr : nextKind r = .rightParen) (hr' : nextKind r' = .rightParen) : d = d' ∧ r = r' := by
  cases d with
  | none =>
    cases d' with
    | none => exact ⟨rfl, h⟩
    | some p' more' =>
      have hk : nextKind r = p'.x.val.kind := congrArg nextKind h
      rw [hr, p'.x.property] at hk
      cases hk
  | some p more =>
    cases d' with
    | none =>
      have hk : p.x.val.kind = nextKind r' := congrArg nextKind h
      rw [hr', p.x.property] at hk
      cases hk
    | some p' more' =>
      rw [yield, yield, List.append_assoc, List.append_assoc] at h
      obtain ⟨rfl, hmore⟩ := p.splits p' h
      obtain ⟨rfl, rfl⟩ := splits_more hmore hr hr'
      exact ⟨rfl, rfl⟩

end ParamsDeriv

theorem FunctionDeriv.splits (d d' : FunctionDeriv) (h : d.yield ++ r = d'.yield ++ r') :
    d = d' ∧ r = r' := by
  obtain ⟨word, name, lp, params, rp, arrow, result, body⟩ := d
  obtain ⟨word', name', lp', params', rp', arrow', result', body'⟩ := d'
  simp only [yield, List.cons_append, List.append_assoc, List.cons.injEq] at h
  obtain ⟨hword, hname, hlp, h⟩ := h
  obtain ⟨rfl, hrest⟩ := params.splits params' h rp.property rp'.property
  simp only [List.cons.injEq] at hrest
  obtain ⟨hrp, harrow, hresult, hbody⟩ := hrest
  obtain ⟨rfl, rfl⟩ := body.splits body' hbody
  exact ⟨by rw [Subtype.ext hword, Subtype.ext hname, Subtype.ext hlp, Subtype.ext hrp,
    Subtype.ext harrow, Subtype.ext hresult], rfl⟩

/-- The tokens of a program determine its derivation. -/
theorem ProgramDeriv.eq_of_yield_eq {d d' : ProgramDeriv} (h : d.yield = d'.yield) : d = d' := by
  obtain ⟨fs⟩ := d
  obtain ⟨fs'⟩ := d'
  congr 1
  induction fs generalizing fs' with
  | nil =>
    cases fs' with
    | nil => rfl
    | cons f' fs' => cases h
  | cons f fs ih =>
    cases fs' with
    | nil => cases h
    | cons f' fs' =>
      obtain ⟨rfl, hfs⟩ := f.splits f' h
      rw [ih fs' hfs]

end BracketLang
