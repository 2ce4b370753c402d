import BracketLang.Proofs.Grammar.Fragments

/-! The places at which the tokens of a block can end. They can end in front of a statement, inside
one or inside one of its blocks, and so on inside those: `BodyDeriv.Cut` lists the places, with the
number of blocks that are open there. Every beginning of a block's statements ends at such a place
(`BodyDeriv.exists_cut`), and the tokens up to it tell which it is: how many blocks are open
(`BodyDeriv.Cut.openBlocks_eq`), and whether a statement is (`BodyDeriv.Cut.eq_false_iff`). -/

namespace BracketLang

/-! ## Counting open blocks -/

/-- How many more blocks are opened than closed among the tokens. -/
def openBlocks (ts : List Token) : Int :=
  ts.countP (·.kind = .leftBracket) - ts.countP (·.kind = .rightBracket)

@[simp] theorem openBlocks_append (ts us : List Token) :
    openBlocks (ts ++ us) = openBlocks ts + openBlocks us := by
  simp only [openBlocks, List.countP_append, Int.natCast_add]
  omega

theorem openBlocks_cons (t : Token) (ts : List Token) :
    openBlocks (t :: ts) = openBlocks [t] + openBlocks ts := openBlocks_append [t] ts

theorem openBlocks_of_forall
    (h : ∀ t ∈ ts, t.kind ∉ [.leftBracket, .rightBracket, .semicolon]) : openBlocks ts = 0 := by
  have hcount {k : TokenKind} (hk : k ∈ [TokenKind.leftBracket, .rightBracket, .semicolon]) :
      ts.countP (·.kind = k) = 0 := by
    refine List.countP_eq_zero.mpr fun t ht hkind => h t ht ?_
    rwa [of_decide_eq_true hkind]
  rw [openBlocks, hcount (by decide), hcount (by decide)]
  rfl

@[simp] theorem openBlocks_leftBracket (t : Terminal .leftBracket) : openBlocks [t.val] = 1 := by
  simp [openBlocks, t.property]

@[simp] theorem openBlocks_rightBracket (t : Terminal .rightBracket) :
    openBlocks [t.val] = -1 := by
  simp [openBlocks, t.property]

theorem openBlocks_terminal (t : Terminal k) (hk : k ≠ .leftBracket ∧ k ≠ .rightBracket) :
    openBlocks [t.val] = 0 := by
  simp [openBlocks, t.property, hk]

/-! ## Where tokens end -/

/-- The tokens do not end inside a statement or a header: behind the last one a statement or a
function may start. -/
def EndsWhole (ts : List Token) : Prop :=
  ∀ t ∈ ts.getLast?, t.kind ∈ [.leftBracket, .rightBracket, .semicolon]

theorem endsWhole_nil : EndsWhole [] := by simp [EndsWhole]

theorem endsWhole_concat : EndsWhole (ts ++ [t]) ↔
    t.kind ∈ [.leftBracket, .rightBracket, .semicolon] := by
  simp [EndsWhole]

theorem EndsWhole.append (h : EndsWhole us) (hne : us ≠ []) : EndsWhole (ts ++ us) := by
  intro t ht
  rw [List.getLast?_append, List.getLast?_eq_some_getLast hne, Option.some_or,
    ← List.getLast?_eq_some_getLast] at ht
  exact h t ht

theorem EndsWhole.append_iff (h : EndsWhole ts) : EndsWhole (ts ++ us) ↔ EndsWhole us := by
  unfold EndsWhole
  rw [List.getLast?_append]
  cases us.getLast? with
  | none => simpa [EndsWhole] using h
  | some t => simp

theorem not_endsWhole_of_forall (hne : ts ≠ [])
    (h : ∀ t ∈ ts, t.kind ∉ [.leftBracket, .rightBracket, .semicolon]) : ¬EndsWhole ts := by
  intro hends
  refine h _ (List.getLast_mem hne) (hends _ ?_)
  rw [List.getLast?_eq_some_getLast hne]
  rfl

namespace Fragment

theorem not_mem_ends (h : Fragment ts) :
    ∀ t ∈ ts, t.kind ∉ [.leftBracket, .rightBracket, .semicolon] := by
  have hends : ∀ k ∈ [TokenKind.leftBracket, .rightBracket, .semicolon],
      k ∈ [.semicolon, .leftBracket] ++ TokenKind.blockBoundaries := by decide
  exact fun t ht hk => h.kind_not_mem ht (hends _ hk)

theorem openBlocks (h : Fragment ts) : openBlocks ts = 0 := openBlocks_of_forall h.not_mem_ends

theorem not_endsWhole (h : Fragment ts) : ¬EndsWhole ts := by
  refine not_endsWhole_of_forall ?_ h.not_mem_ends
  rintro rfl
  cases h

end Fragment

/-! ## The shapes of statements -/

theorem Terminal.inner (t : Terminal k) (hk : k.Inner) : t.val.kind.Inner := by rwa [t.property]

theorem TypeTerminal.inner (t : TypeTerminal) : t.val.kind.Inner := by
  have htypes : ∀ k ∈ TokenKind.typeStarts, k.Inner := by decide
  exact htypes _ t.property

theorem ExprDeriv.inner (e : ExprDeriv p) : ∀ t ∈ e.yield, t.kind.Inner :=
  fun t ht => (e.inExpression t ht).inner

theorem Fragment.of_word (t : Terminal k) (hk : k ∈ TokenKind.statementStarts) (e : ExprDeriv p) :
    Fragment (t.val :: e.yield) :=
  ⟨.inr (t.property.symm ▸ hk), e.inner⟩

/-- A statement ends in its only semicolon, or its only block, or it has two blocks with `else`
between them. -/
theorem StmtDeriv.shape (s : StmtDeriv) :
    (∃ ts, ∃ semi : Terminal .semicolon, Fragment ts ∧ s.yield = ts ++ [semi.val]) ∨
    (∃ ts b, Fragment ts ∧ s.Holds ts b []) ∨
    ∃ word c b other b', s = .ifElse word c b other b' ∧ Fragment (word.val :: c.yield) := by
  cases s with
  | letVar word x colon t eq e semi =>
    refine .inl ⟨word.val :: x.val :: colon.val :: t.val :: eq.val :: e.yield, semi, ?_, rfl⟩
    refine ⟨.inr (word.property.symm ▸ by decide), ?_⟩
    simp only [List.forall_mem_cons]
    exact ⟨x.inner (by decide), colon.inner (by decide), TypeTerminal.inner t,
      eq.inner (by decide), e.inner⟩
  | assign x eq e semi =>
    refine .inl ⟨x.val :: eq.val :: e.yield, semi, ⟨.inl (x.inner (by decide)), ?_⟩, rfl⟩
    exact List.forall_mem_cons.mpr ⟨eq.inner (by decide), e.inner⟩
  | ifThen word c b => exact .inr (.inl ⟨_, b, .of_word word (by decide) c, .ifThen⟩)
  | ifElse word c b other b' =>
    exact .inr (.inr ⟨word, c, b, other, b', rfl, .of_word word (by decide) c⟩)
  | whileLoop word c b => exact .inr (.inl ⟨_, b, .of_word word (by decide) c, .whileLoop⟩)
  | retNone word semi =>
    exact .inl ⟨[word.val], semi, ⟨.inr (word.property.symm ▸ by decide), by simp⟩, rfl⟩
  | ret word e semi => exact .inl ⟨_, semi, .of_word word (by decide) e, rfl⟩
  | print word e semi => exact .inl ⟨_, semi, .of_word word (by decide) e, rfl⟩
  | expr e semi =>
    obtain ⟨t, us, he⟩ := List.exists_cons_of_length_pos e.length_yield_pos
    have hall := e.inner
    rw [he, List.forall_mem_cons] at hall
    exact .inl ⟨e.yield, semi, he ▸ ⟨.inl hall.1, hall.2⟩, rfl⟩

/-- Statements can be taken from the inside out: those in a block before the statement that it is
part of. -/
theorem BodyDeriv.induction_inside {motive : BodyDeriv → Prop} (nil : motive .nil)
    (cons : ∀ s ss, (∀ pre lb body rb post, s.Holds pre (.mk lb body rb) post → motive body) →
      motive ss → motive (.cons s ss)) (d : BodyDeriv) : motive d := by
  induction hn : d.yield.length using Nat.strongRecOn generalizing d with
  | _ n ih =>
    cases d with
    | nil => exact nil
    | cons s ss =>
      have hpos := s.length_yield_pos
      rw [yield, List.length_append] at hn
      refine cons s ss (fun pre lb body rb post hs => ih _ ?_ body rfl) (ih _ ?_ ss rfl)
      · rw [hs.yield_eq, BlockDeriv.yield] at hn
        simp only [List.length_append, List.length_cons] at hn
        omega
      · omega

theorem BlockDeriv.yield_ne_nil (b : BlockDeriv) : b.yield ≠ [] := by
  obtain ⟨lb, body, rb⟩ := b
  exact List.cons_ne_nil _ _

theorem BlockDeriv.endsWhole (b : BlockDeriv) : EndsWhole b.yield := by
  obtain ⟨lb, body, rb⟩ := b
  rw [yield, ← List.cons_append, endsWhole_concat, rb.property]
  decide

theorem StmtDeriv.endsWhole (s : StmtDeriv) : EndsWhole s.yield := by
  have hblock {pre : List Token} {b : BlockDeriv} (hs : s.Holds pre b []) : EndsWhole s.yield := by
    rw [hs.yield_eq, List.append_nil]
    exact b.endsWhole.append b.yield_ne_nil
  obtain ⟨ts, semi, -, hs⟩ | ⟨ts, b, -, hs⟩ | ⟨word, c, b, other, b', rfl, -⟩ := s.shape
  · rw [hs, endsWhole_concat, semi.property]
    decide
  · exact hblock hs
  · exact hblock .otherwise

/-- Every block that a statement opens it also closes, if the statements inside do. -/
theorem StmtDeriv.openBlocks_of_inside
    (h : ∀ pre lb body rb post, Holds s pre (.mk lb body rb) post → openBlocks body.yield = 0) :
    openBlocks s.yield = 0 := by
  have hblock {pre b post} (hs : Holds s pre b post) : openBlocks b.yield = 0 := by
    obtain ⟨lb, body, rb⟩ := b
    rw [BlockDeriv.yield, openBlocks_cons, openBlocks_append, openBlocks_leftBracket,
      h pre lb body rb post hs, openBlocks_rightBracket]
    rfl
  obtain ⟨ts, semi, hts, hs⟩ | ⟨ts, b, hts, hs⟩ | ⟨word, c, b, other, b', rfl, hts⟩ := s.shape
  · rw [hs, openBlocks_append, hts.openBlocks, openBlocks_terminal semi (by decide)]
    rfl
  · rw [hs.yield_eq, openBlocks_append, openBlocks_append, hts.openBlocks, hblock hs]
    rfl
  · rw [yield, ← List.cons_append, openBlocks_append, openBlocks_append, openBlocks_cons other.val,
      hts.openBlocks, hblock .ifElse, hblock .otherwise, openBlocks_terminal other (by decide)]
    rfl

theorem BodyDeriv.openBlocks_yield (d : BodyDeriv) : openBlocks d.yield = 0 := by
  induction d using BodyDeriv.induction_inside with
  | nil => rfl
  | cons s ss inside later =>
    rw [yield, openBlocks_append, s.openBlocks_of_inside inside, later]
    rfl

theorem StmtDeriv.openBlocks_yield (s : StmtDeriv) : openBlocks s.yield = 0 :=
  s.openBlocks_of_inside fun _ _ body _ _ _ => body.openBlocks_yield

theorem BlockDeriv.openBlocks_yield (b : BlockDeriv) : openBlocks b.yield = 0 := by
  obtain ⟨lb, body, rb⟩ := b
  rw [yield, openBlocks_cons, openBlocks_append, openBlocks_leftBracket, body.openBlocks_yield,
    openBlocks_rightBracket]
  rfl

theorem StmtDeriv.Holds.openBlocks_pre (h : Holds s pre b post) : openBlocks pre = 0 := by
  have hpost : openBlocks post = 0 := by
    cases h with
    | @ifElse _ _ _ other b' =>
      rw [openBlocks_cons, openBlocks_terminal other (by decide), b'.openBlocks_yield]
      rfl
    | _ => rfl
  have hs := s.openBlocks_yield
  rw [h.yield_eq, openBlocks_append, openBlocks_append, b.openBlocks_yield, hpost] at hs
  omega

/-! ## Places inside a block -/

/-- The tokens `ts` begin a block's statements and end at a place with `n` blocks open, not counting
the block itself; `broken` says whether the place is inside a statement, outside its blocks. -/
inductive BodyDeriv.Cut : BodyDeriv → (ts : List Token) → (broken : Bool) → (n : Nat) → Prop
  | here : Cut body [] false 0
  | fragment {s ss ts} (h : Fragment ts) (hs : ts <+: s.yield) : Cut (.cons s ss) ts true 0
  | beforeElse {word c b other b' ss} :
    Cut (.cons (.ifElse word c b other b') ss) (word.val :: (c.yield ++ b.yield)) false 0
  | behindElse {word c b other b' ss} : Cut (.cons (.ifElse word c b other b') ss)
      (word.val :: (c.yield ++ (b.yield ++ [other.val]))) true 0
  | inside {s pre lb body rb post ts broken n ss} (hs : s.Holds pre (.mk lb body rb) post)
    (h : Cut body ts broken n) : Cut (.cons s ss) (pre ++ lb.val :: ts) broken (n + 1)
  | later {s ss ts broken n} (h : Cut ss ts broken n) : Cut (.cons s ss) (s.yield ++ ts) broken n

namespace BodyDeriv.Cut

theorem isPrefix (h : Cut d ts broken n) : ts <+: d.yield := by
  induction h with
  | here => exact List.nil_prefix
  | fragment h hs => exact hs.trans (List.prefix_append ..)
  | beforeElse | behindElse => simp [BodyDeriv.yield, StmtDeriv.yield]
  | inside hs h ih =>
    rw [BodyDeriv.yield, hs.yield_eq, BlockDeriv.yield]
    simpa using ih.trans (List.prefix_append ..)
  | later h ih => exact (List.prefix_append_right_inj _).mpr ih

theorem openBlocks_eq (h : Cut d ts broken n) : openBlocks ts = n := by
  induction h with
  | here => rfl
  | fragment h => exact h.openBlocks
  | @beforeElse word c b other b' =>
    have hs : (StmtDeriv.ifElse word c b other b').Holds _ b _ := .ifElse
    rw [← List.cons_append, openBlocks_append, hs.openBlocks_pre, b.openBlocks_yield]
    rfl
  | @behindElse word c b other b' =>
    have hs : (StmtDeriv.ifElse word c b other b').Holds _ b' _ := .otherwise
    exact hs.openBlocks_pre
  | @inside s pre lb body rb post ts broken n ss hs h ih =>
    rw [openBlocks_append, openBlocks_cons, hs.openBlocks_pre, openBlocks_leftBracket, ih]
    omega
  | @later s ss ts broken n h ih =>
    rw [openBlocks_append, s.openBlocks_yield, ih]
    omega

theorem eq_false_iff (h : Cut d ts broken n) : broken = false ↔ EndsWhole ts := by
  induction h with
  | here => exact ⟨fun _ => endsWhole_nil, fun _ => rfl⟩
  | fragment h => simp [h.not_endsWhole]
  | @beforeElse word c b other b' =>
    refine ⟨fun _ => ?_, fun _ => rfl⟩
    rw [← List.cons_append]
    exact b.endsWhole.append b.yield_ne_nil
  | @behindElse word c b other b' =>
    have hends : ¬EndsWhole (word.val :: (c.yield ++ (b.yield ++ [other.val]))) := by
      rw [← List.append_assoc, ← List.cons_append, endsWhole_concat, other.property]
      decide
    simp [hends]
  | @inside s pre lb body rb post ts broken n ss hs h ih =>
    have hpre : EndsWhole (pre ++ [lb.val]) := by
      rw [endsWhole_concat, lb.property]
      decide
    rw [ih, ← hpre.append_iff, List.append_assoc]
    rfl
  | @later s ss ts broken n h ih => rw [ih, s.endsWhole.append_iff]

end BodyDeriv.Cut

/-- The beginnings of two lists of tokens, one behind the other. -/
theorem prefix_append_cases (h : ts <+: us ++ vs) :
    ts <+: us ∨ ∃ ws, ts = us ++ ws ∧ ws <+: vs := by
  obtain ⟨r, hr⟩ := h
  rcases List.append_eq_append_iff.mp hr with ⟨as, rfl, -⟩ | ⟨ws, rfl, rfl⟩
  · exact .inl (List.prefix_append ..)
  · exact .inr ⟨ws, rfl, List.prefix_append ..⟩

section
variable {s : StmtDeriv} {ss : BodyDeriv}

theorem Fragment.exists_cut (h : Fragment us) (hus : us <+: s.yield) (hts : ts <+: us) :
    ∃ broken n, (BodyDeriv.cons s ss).Cut ts broken n := by
  by_cases hne : ts = []
  · subst hne
    exact ⟨_, _, .here⟩
  · exact ⟨_, _, .fragment (h.beginning hts hne) (hts.trans hus)⟩

theorem StmtDeriv.exists_cut_self (s : StmtDeriv) :
    ∃ broken n, (BodyDeriv.cons s ss).Cut s.yield broken n := by
  rw [← List.append_nil s.yield]
  exact ⟨_, _, .later .here⟩

variable (inside : ∀ pre lb body rb post, s.Holds pre (.mk lb body rb) post →
  ∀ ts, ts <+: body.yield → ∃ broken n, body.Cut ts broken n)
include inside

/-- In front of a block, and from there up to its end. -/
theorem StmtDeriv.Holds.exists_cut (hs : Holds s pre b post)
    (hpre : ∃ broken n, (BodyDeriv.cons s ss).Cut pre broken n) (hts : ts <+: b.yield) :
    ts = b.yield ∨ ∃ broken n, (BodyDeriv.cons s ss).Cut (pre ++ ts) broken n := by
  obtain ⟨lb, body, rb⟩ := b
  obtain rfl | ⟨us, rfl, hus⟩ := List.prefix_cons_iff.mp hts
  · rw [List.append_nil]
    exact .inr hpre
  · rcases List.prefix_concat_iff.mp hus with rfl | hus
    · exact .inl rfl
    · obtain ⟨broken, n, h⟩ := inside pre lb body rb post hs us hus
      exact .inr ⟨broken, n + 1, .inside hs h⟩

theorem StmtDeriv.exists_cut (h : ts <+: s.yield) :
    ∃ broken n, (BodyDeriv.cons s ss).Cut ts broken n := by
  obtain ⟨us, semi, hus, hs⟩ | ⟨us, b, hus, hs⟩ | ⟨word, c, b, other, b', rfl, hus⟩ := s.shape
  · rcases List.prefix_concat_iff.mp (hs ▸ h) with rfl | hts
    · rw [← hs]
      exact s.exists_cut_self
    · exact hus.exists_cut (hs ▸ List.prefix_append ..) hts
  · have hyield : s.yield = us ++ b.yield := by rw [hs.yield_eq, List.append_nil]
    have hhead {ts : List Token} (hts : ts <+: us) :
        ∃ broken n, (BodyDeriv.cons s ss).Cut ts broken n :=
      hus.exists_cut (hyield ▸ List.prefix_append ..) hts
    rcases prefix_append_cases (hyield ▸ h) with hts | ⟨vs, rfl, hvs⟩
    · exact hhead hts
    · rcases hs.exists_cut inside (hhead (List.prefix_refl _)) hvs with rfl | hcut
      · rw [← hyield]
        exact s.exists_cut_self
      · exact hcut
  · have hhead {ts : List Token} (hts : ts <+: word.val :: c.yield) :
        ∃ broken n, (BodyDeriv.cons (.ifElse word c b other b') ss).Cut ts broken n :=
      hus.exists_cut (List.prefix_append ..) hts
    have h : ts <+: word.val :: c.yield ++ (b.yield ++ other.val :: b'.yield) := h
    rcases prefix_append_cases h with hts | ⟨vs, rfl, hvs⟩
    · exact hhead hts
    rcases prefix_append_cases hvs with hvs | ⟨ws, rfl, hws⟩
    · rcases StmtDeriv.Holds.exists_cut inside .ifElse (hhead (List.prefix_refl _)) hvs with
        rfl | hcut
      · exact ⟨_, _, .beforeElse⟩
      · exact hcut
    -- behind the first block: in front of `else`, just behind it, or in the block there
    obtain rfl | ⟨xs, rfl, hxs⟩ := List.prefix_cons_iff.mp hws
    · rw [List.append_nil]
      exact ⟨_, _, .beforeElse⟩
    · rcases StmtDeriv.Holds.exists_cut inside .otherwise ⟨_, _, .behindElse⟩ hxs with rfl | hcut
      · exact StmtDeriv.exists_cut_self (.ifElse word c b other b')
      · simpa using hcut

end

/-- Wherever the statements of a block break off, there is such a place. -/
theorem BodyDeriv.exists_cut (d : BodyDeriv) (h : ts <+: d.yield) :
    ∃ broken n, d.Cut ts broken n := by
  induction d using BodyDeriv.induction_inside generalizing ts with
  | nil =>
    rw [List.prefix_nil.mp h]
    exact ⟨_, _, .here⟩
  | cons s ss inside later =>
    rcases prefix_append_cases h with hts | ⟨us, rfl, hus⟩
    · exact s.exists_cut
        (fun pre lb body rb post hs ts hts => inside pre lb body rb post hs hts) hts
    · obtain ⟨broken, n, hcut⟩ := later hus
      exact ⟨broken, n, .later hcut⟩

/-! ## Places inside a function -/

/-- The tokens `ts` begin a function and end in front of its end, with `n` blocks open; `broken`
says whether the place is in the header or inside a statement, outside its blocks. -/
inductive FunctionDeriv.Cut (f : FunctionDeriv) : (ts : List Token) → (broken : Bool) → (n : Nat) →
    Prop
  | start : Cut f [] false 0
  | header {ts} (h : ts <+: f.header) (hne : ts ≠ []) : Cut f ts true 0
  | body {lb body rb ts broken n} (hf : f.body = .mk lb body rb) (h : body.Cut ts broken n) :
    Cut f (f.header ++ lb.val :: ts) broken (n + 1)

theorem ParamsDeriv.inner (ps : ParamsDeriv) : ∀ t ∈ ps.yield, t.kind.Inner := by
  have hparam (p : ParamDeriv) : ∀ t ∈ p.yield, t.kind.Inner := by
    simp only [ParamDeriv.yield, List.forall_mem_cons]
    exact ⟨p.x.inner (by decide), p.colon.inner (by decide), TypeTerminal.inner p.t,
      List.forall_mem_nil _⟩
  cases ps with
  | none => exact List.forall_mem_nil _
  | some p more =>
    refine List.forall_mem_append.mpr ⟨hparam p, List.forall_mem_flatMap.mpr fun q _ => ?_⟩
    exact List.forall_mem_cons.mpr ⟨q.1.inner (by decide), hparam q.2⟩

namespace FunctionDeriv

theorem yield_eq (f : FunctionDeriv) : f.yield = f.header ++ f.body.yield := by
  simp [yield, header]

/-- The beginning of a header: its word, and then nothing that starts or ends anything. -/
theorem exists_of_prefix_header (f : FunctionDeriv) (h : ts <+: f.header) (hne : ts ≠ []) :
    ∃ us, ts = f.word.val :: us ∧ ∀ u ∈ us, u.kind.Inner := by
  obtain rfl | ⟨us, rfl, hus⟩ := List.prefix_cons_iff.mp h
  · exact absurd rfl hne
  refine ⟨us, rfl, fun u hu => ?_⟩
  have hall : ∀ t ∈ f.name.val :: f.lp.val ::
      (f.params.yield ++ [f.rp.val, f.arrow.val, f.result.val]), t.kind.Inner := by
    simp only [List.forall_mem_cons, List.forall_mem_append]
    exact ⟨f.name.inner (by decide), f.lp.inner (by decide), f.params.inner,
      f.rp.inner (by decide), f.arrow.inner (by decide), TypeTerminal.inner f.result,
      List.forall_mem_nil _⟩
  exact hall u (hus.subset hu)

theorem not_mem_ends_of_prefix_header (f : FunctionDeriv) (h : ts <+: f.header) :
    ∀ t ∈ ts, t.kind ∉ [.leftBracket, .rightBracket, .semicolon] := by
  intro t ht
  obtain ⟨us, rfl, hus⟩ := f.exists_of_prefix_header h (List.ne_nil_of_mem ht)
  rcases List.mem_cons.mp ht with rfl | ht
  · rw [f.word.property]
    decide
  · have hends : ∀ k ∈ [TokenKind.leftBracket, .rightBracket, .semicolon], ¬k.Inner := by decide
    exact fun hk => hends _ hk (hus t ht)

theorem openBlocks_header (f : FunctionDeriv) : openBlocks f.header = 0 :=
  openBlocks_of_forall (f.not_mem_ends_of_prefix_header (List.prefix_refl _))

theorem openBlocks_yield (f : FunctionDeriv) : openBlocks f.yield = 0 := by
  rw [f.yield_eq, openBlocks_append, f.openBlocks_header, f.body.openBlocks_yield]
  rfl

theorem endsWhole (f : FunctionDeriv) : EndsWhole f.yield := by
  rw [f.yield_eq]
  exact f.body.endsWhole.append f.body.yield_ne_nil

theorem exists_cut (f : FunctionDeriv) (h : ts <+: f.yield) (hne : ts ≠ f.yield) :
    ∃ broken n, f.Cut ts broken n := by
  have hheader {ts : List Token} (hts : ts <+: f.header) : ∃ broken n, f.Cut ts broken n := by
    by_cases hnil : ts = []
    · subst hnil
      exact ⟨_, _, .start⟩
    · exact ⟨_, _, .header hts hnil⟩
  cases hf : f.body with
  | mk lb body rb =>
    rw [yield_eq, hf, BlockDeriv.yield] at h hne
    rcases prefix_append_cases h with hts | ⟨us, rfl, hus⟩
    · exact hheader hts
    obtain rfl | ⟨vs, rfl, hvs⟩ := List.prefix_cons_iff.mp hus
    · rw [List.append_nil]
      exact hheader (List.prefix_refl _)
    · rcases List.prefix_concat_iff.mp hvs with rfl | hvs
      · exact absurd rfl hne
      · obtain ⟨broken, n, hcut⟩ := body.exists_cut hvs
        exact ⟨broken, n + 1, .body hf hcut⟩

namespace Cut

theorem openBlocks_eq (h : Cut f ts broken n) : openBlocks ts = n := by
  cases h with
  | start => rfl
  | header h => exact openBlocks_of_forall (f.not_mem_ends_of_prefix_header h)
  | body hf h =>
    rw [openBlocks_append, openBlocks_cons, f.openBlocks_header, openBlocks_leftBracket,
      h.openBlocks_eq]
    omega

theorem eq_false_iff (h : Cut f ts broken n) : broken = false ↔ EndsWhole ts := by
  cases h with
  | start => exact ⟨fun _ => endsWhole_nil, fun _ => rfl⟩
  | header h hne => simp [not_endsWhole_of_forall hne (f.not_mem_ends_of_prefix_header h)]
  | @body lb body rb ts broken n hf h =>
    have hopen : EndsWhole (f.header ++ [lb.val]) := by
      rw [endsWhole_concat, lb.property]
      decide
    rw [h.eq_false_iff, ← hopen.append_iff, List.append_assoc]
    rfl

theorem length_lt (h : Cut f ts broken n) : ts.length < f.yield.length := by
  rw [f.yield_eq, List.length_append]
  cases h with
  | start => exact Nat.lt_of_lt_of_le (Nat.succ_pos _) (Nat.le_add_right ..)
  | header h =>
    have hpos := List.length_pos_iff.mpr f.body.yield_ne_nil
    have hle := h.length_le
    omega
  | body hf h =>
    have hle := h.isPrefix.length_le
    rw [hf, BlockDeriv.yield]
    simp only [List.length_append, List.length_cons, List.length_nil]
    omega

end Cut

end FunctionDeriv

/-! ## Places inside a program -/

/-- The tokens `ts` begin a program of the functions `ended`, which they hold as a whole, and
`later`, which they do not, and end with `n` blocks open; `broken` says whether they end in a header
or inside a statement, outside its blocks. -/
inductive ProgramDeriv.Cut : (ended later : List FunctionDeriv) → (ts : List Token) →
    (broken : Bool) → (n : Nat) → Prop
  | finish {ended} : Cut ended [] (ended.flatMap FunctionDeriv.yield) false 0
  | inside {ended f fs ts broken n} (h : f.Cut ts broken n) :
    Cut ended (f :: fs) (ended.flatMap FunctionDeriv.yield ++ ts) broken n

theorem openBlocks_flatMap_yield (fs : List FunctionDeriv) :
    openBlocks (fs.flatMap FunctionDeriv.yield) = 0 := by
  induction fs with
  | nil => rfl
  | cons f fs ih =>
    rw [List.flatMap_cons, openBlocks_append, f.openBlocks_yield, ih]
    rfl

theorem endsWhole_flatMap_yield (fs : List FunctionDeriv) :
    EndsWhole (fs.flatMap FunctionDeriv.yield) := by
  induction fs with
  | nil => exact endsWhole_nil
  | cons f fs ih => exact f.endsWhole.append_iff.mpr ih

namespace ProgramDeriv

namespace Cut

variable {ended later : List FunctionDeriv}

/-- The same behind one more function. -/
theorem cons (h : Cut ended later ts broken n) (f : FunctionDeriv) :
    Cut (f :: ended) later (f.yield ++ ts) broken n := by
  cases h with
  | finish => exact .finish
  | inside h =>
    rw [← List.append_assoc]
    exact .inside h

theorem openBlocks_eq (h : Cut ended later ts broken n) : openBlocks ts = n := by
  cases h with
  | finish => exact openBlocks_flatMap_yield ended
  | inside h =>
    rw [openBlocks_append, openBlocks_flatMap_yield, h.openBlocks_eq]
    omega

theorem eq_false_iff (h : Cut ended later ts broken n) : broken = false ↔ EndsWhole ts := by
  cases h with
  | finish => exact ⟨fun _ => endsWhole_flatMap_yield ended, fun _ => rfl⟩
  | inside h => rw [h.eq_false_iff, (endsWhole_flatMap_yield ended).append_iff]

theorem length_le (h : Cut ended later ts broken n) :
    (ended.flatMap FunctionDeriv.yield).length ≤ ts.length := by
  cases h with
  | finish => exact Nat.le_refl _
  | inside h =>
    rw [List.length_append]
    omega

theorem length_lt (h : Cut ended later ts broken n) (hf : f ∈ later.head?) :
    ts.length < ((ended ++ [f]).flatMap FunctionDeriv.yield).length := by
  cases h with
  | finish => cases hf
  | inside h =>
    cases hf
    have hlt := h.length_lt
    rw [List.flatMap_append, List.length_append, List.length_append, List.flatMap_singleton]
    omega

end Cut

/-- Wherever a program breaks off, there is such a place. -/
theorem exists_cut (fs : List FunctionDeriv) (h : ts <+: fs.flatMap FunctionDeriv.yield) :
    ∃ ended later broken n, fs = ended ++ later ∧ Cut ended later ts broken n := by
  induction fs generalizing ts with
  | nil =>
    rw [List.prefix_nil.mp h]
    exact ⟨[], [], false, 0, rfl, .finish⟩
  | cons f fs ih =>
    have hwhole {us : List Token} (hus : us <+: fs.flatMap FunctionDeriv.yield) :
        ∃ ended later broken n, f :: fs = ended ++ later ∧
          Cut ended later (f.yield ++ us) broken n := by
      obtain ⟨ended, later, broken, n, rfl, hcut⟩ := ih hus
      exact ⟨f :: ended, later, broken, n, rfl, hcut.cons f⟩
    rcases prefix_append_cases h with hts | ⟨us, rfl, hus⟩
    · by_cases hne : ts = f.yield
      · rw [hne, ← List.append_nil f.yield]
        exact hwhole List.nil_prefix
      · obtain ⟨broken, n, hcut⟩ := f.exists_cut hts hne
        exact ⟨[], f :: fs, broken, n, rfl, .inside hcut⟩
    · exact hwhole hus

end ProgramDeriv

end BracketLang
