import BracketLang.Proofs.Tree.Places

/-! Spans and tokens. A node spans a list of tokens if its span runs from the first to the last of
them and its children stand in a row among them: each spans some of the tokens, and they come one
behind the other (`Node.Spans`, `Node.InRow`). Where the offsets of the tokens increase, the spans
in such a tree are as they should be (`Node.InOrder`): they lie inside each other and side by side
as the nodes do. -/

namespace BracketLang

/-- The offsets of the tokens increase. -/
def Increasing (ts : List Token) : Prop :=
  ts.Pairwise fun t u => t.location.offset < u.location.offset

namespace Increasing

theorem of_infix (h : Increasing tokens) (hts : ts <:+: tokens) : Increasing ts :=
  h.sublist hts.sublist

theorem head_le (h : Increasing ts) (ht : ts.head? = some t) (hu : u ∈ ts) :
    t.location.offset ≤ u.location.offset := by
  obtain ⟨us, rfl⟩ := List.head?_eq_some_iff.mp ht
  rcases List.mem_cons.mp hu with rfl | hu
  · exact Int.le_refl _
  · exact Int.le_of_lt ((List.pairwise_cons.mp h).1 u hu)

theorem le_last (h : Increasing ts) (ht : ts.getLast? = some t) (hu : u ∈ ts) :
    u.location.offset ≤ t.location.offset := by
  obtain ⟨us, rfl⟩ := List.getLast?_eq_some_iff.mp ht
  rcases List.mem_append.mp hu with hu | hu
  · exact Int.le_of_lt ((List.pairwise_append.mp h).2.2 u hu t (List.mem_singleton_self t))
  · obtain rfl := List.mem_singleton.mp hu
    exact Int.le_refl _

end Increasing

namespace Node

mutual

/-- The span of the node runs from the first to the last of the tokens, and its children stand in a
row among them. -/
inductive Spans : List Token → Node → Prop
  | mk (hfirst : ts.head? = some t) (hlast : ts.getLast? = some u) (h : InRow ts cs) :
    Spans ts (.mk k ⟨t.location, u.location⟩ d cs)

/-- Each of the nodes spans some of the tokens, one behind the other; there may be more tokens in
front of them, between them and behind them. -/
inductive InRow : List Token → List Node → Prop
  | nil : InRow ts []
  | cons (gap : List Token) (h : Spans ts n) (hs : InRow us ns) :
    InRow (gap ++ (ts ++ us)) (n :: ns)

end

/-! ## Rows -/

theorem Spans.inRow (h : Spans ts n) : InRow ts [n] := by
  have hrow := InRow.cons [] h (.nil : InRow [] [])
  rwa [List.nil_append, List.append_nil] at hrow

/-- The node of a single token. -/
theorem spans_leaf (t : Token) : Spans [t] (.leaf k (.point t.location) d) :=
  .mk rfl rfl .nil

namespace InRow

theorem append (h : InRow ts ns) (h' : InRow us ms) : InRow (ts ++ us) (ns ++ ms) := by
  induction ns generalizing ts with
  | nil =>
    cases h' with
    | nil => exact .nil
    | cons gap hm hms =>
      rw [← List.append_assoc]
      exact .cons (ts ++ gap) hm hms
  | cons n ns ih =>
    cases h with
    | cons gap hn hns =>
      rw [List.append_assoc, List.append_assoc]
      exact .cons gap hn (ih hns)

/-- More tokens in front. -/
theorem behind (h : InRow us ns) (ts : List Token) : InRow (ts ++ us) ns :=
  append (.nil : InRow ts []) h

/-- More tokens behind. -/
theorem before (h : InRow ts ns) (us : List Token) : InRow (ts ++ us) ns := by
  have hrow := h.append (.nil : InRow us [])
  rwa [List.append_nil] at hrow

theorem exists_spans (h : InRow ts [n]) : ∃ us vs ws, ts = us ++ (vs ++ ws) ∧ Spans vs n := by
  cases h with
  | cons gap hn hrest => exact ⟨gap, _, _, rfl, hn⟩

end InRow

theorem Spans.exists_ends (h : Spans ts n) : ∃ t u, ts.head? = some t ∧ ts.getLast? = some u ∧
    n.span = ⟨t.location, u.location⟩ ∧ InRow ts n.children := by
  cases h with
  | mk hfirst hlast h => exact ⟨_, _, hfirst, hlast, rfl, h⟩

/-- A node from a first token to a last one, with its children among those behind the first. -/
theorem InRow.spans_cons (t : Token) (h : InRow ts cs) (hlast : ts.getLast? = some u) :
    Spans (t :: ts) (.mk k ⟨t.location, u.location⟩ d cs) := by
  refine .mk rfl ?_ (h.behind [t])
  rw [List.getLast?_cons, hlast]
  rfl

/-- A node from a first token to a last one, with its children between them. -/
theorem InRow.between (t u : Token) (h : InRow ts cs) :
    Spans (t :: (ts ++ [u])) (.mk k ⟨t.location, u.location⟩ d cs) :=
  (h.before [u]).spans_cons t List.getLast?_concat

/-- A node from a first token on to the end of its only child. -/
theorem InRow.from_token (t : Token) (h : InRow ts [n]) :
    InRow (t :: ts) [.mk k ⟨t.location, n.span.finish⟩ d [n]] := by
  obtain ⟨us, vs, ws, rfl, hn⟩ := h.exists_spans
  obtain ⟨_, v, -, hlast, hspan, -⟩ := hn.exists_ends
  have hspans : Spans (t :: us ++ vs) (.mk k ⟨t.location, n.span.finish⟩ d [n]) := by
    rw [hspan]
    refine .mk rfl ?_ (hn.inRow.behind (t :: us))
    rw [List.getLast?_append, hlast]
    rfl
  have hrow := hspans.inRow.before ws
  rwa [List.append_assoc] at hrow

/-- A node from the start of its only child to a last token. -/
theorem InRow.to_token (u : Token) (h : InRow ts [n]) :
    InRow (ts ++ [u]) [.mk k ⟨n.span.start, u.location⟩ d [n]] := by
  obtain ⟨us, vs, ws, rfl, hn⟩ := h.exists_spans
  obtain ⟨t, _, hfirst, -, hspan, -⟩ := hn.exists_ends
  have hspans : Spans (vs ++ (ws ++ [u])) (.mk k ⟨n.span.start, u.location⟩ d [n]) := by
    rw [hspan]
    refine .mk ?_ ?_ (hn.inRow.before (ws ++ [u]))
    · rw [List.head?_append, hfirst]
      rfl
    · rw [← List.append_assoc, List.getLast?_concat]
  have hrow := hspans.inRow.behind us
  rwa [← List.append_assoc, ← List.append_assoc, List.append_assoc us] at hrow

/-- A node from the start of its first child to the end of its second. -/
theorem InRow.join (h : InRow ts [n]) (h' : InRow us [m]) :
    InRow (ts ++ us) [.mk k ⟨n.span.start, m.span.finish⟩ d [n, m]] := by
  obtain ⟨ts₁, ts₂, ts₃, rfl, hn⟩ := h.exists_spans
  obtain ⟨us₁, us₂, us₃, rfl, hm⟩ := h'.exists_spans
  obtain ⟨t, _, hfirst, -, hspan, -⟩ := hn.exists_ends
  obtain ⟨_, u, -, hlast, hspan', -⟩ := hm.exists_ends
  have hspans : Spans (ts₂ ++ (ts₃ ++ us₁ ++ us₂))
      (.mk k ⟨n.span.start, m.span.finish⟩ d [n, m]) := by
    rw [hspan, hspan']
    refine .mk ?_ ?_ (hn.inRow.append (hm.inRow.behind (ts₃ ++ us₁)))
    · rw [List.head?_append, hfirst]
      rfl
    · rw [← List.append_assoc, List.getLast?_append, hlast]
      rfl
  have hrow := (hspans.inRow.before us₃).behind ts₁
  simpa only [List.append_assoc] using hrow

/-! ## Trees in order -/

/-- The ends of the span are those of tokens, the children lie inside it, and of two children the
one further left ends before the other starts. -/
structure InOrder (tokens : List Token) (n : Node) : Prop where
  start_mem : n.span.start ∈ tokens.map Token.location
  finish_mem : n.span.finish ∈ tokens.map Token.location
  le : n.span.start.offset ≤ n.span.finish.offset
  within : ∀ c ∈ n.children, n.span.start.offset ≤ c.span.start.offset ∧
    c.span.finish.offset ≤ n.span.finish.offset
  apart : n.children.Pairwise fun c d => c.span.finish.offset < d.span.start.offset

theorem InRow.exists_of_mem (h : InRow ts ns) (hn : n ∈ ns) : ∃ us, us <:+: ts ∧ Spans us n := by
  induction ns generalizing ts with
  | nil => cases hn
  | cons m ns ih =>
    cases h with
    | @cons us _ vs _ gap hm hns =>
      rcases List.mem_cons.mp hn with rfl | hn
      · exact ⟨us, ⟨gap, vs, List.append_assoc ..⟩, hm⟩
      · obtain ⟨ws, hws, hspans⟩ := ih hns hn
        have hsuffix : vs <:+ gap ++ (us ++ vs) :=
          (List.suffix_append us vs).trans (List.suffix_append gap (us ++ vs))
        exact ⟨ws, hws.trans hsuffix.isInfix, hspans⟩

/-- Every node of a tree spans some of the tokens that the root spans. -/
theorem Spans.exists_of_at? {root n : Node} (h : Spans ts root) (hn : root.at? path = some n) :
    ∃ us, us <:+: ts ∧ Spans us n := by
  induction path generalizing n with
  | nil =>
    cases hn
    exact ⟨ts, List.infix_refl ts, h⟩
  | cons i path ih =>
    obtain ⟨parent, hparent, hchild⟩ := Option.bind_eq_some_iff.mp hn
    obtain ⟨us, hus, hspans⟩ := ih hparent
    obtain ⟨-, -, -, -, -, hrow⟩ := hspans.exists_ends
    obtain ⟨vs, hvs, hchild⟩ := hrow.exists_of_mem (List.mem_of_getElem? hchild)
    exact ⟨vs, hvs.trans hus, hchild⟩

/-- The children come in the order of the tokens they span. -/
theorem InRow.pairwise (h : InRow ts ns) (ht : Increasing ts) :
    ns.Pairwise fun c d => c.span.finish.offset < d.span.start.offset := by
  induction ns generalizing ts with
  | nil => exact .nil
  | cons n ns ih =>
    cases h with
    | @cons us _ vs _ gap hn hns =>
      obtain ⟨-, hlater, hlt⟩ := List.pairwise_append.mp (List.pairwise_append.mp ht).2.1
      obtain ⟨_, u, -, hlast, hspan, -⟩ := hn.exists_ends
      refine .cons (fun m hm => ?_) (ih hns hlater)
      obtain ⟨ws, hws, hspans⟩ := hns.exists_of_mem hm
      obtain ⟨t, _, hfirst, -, hspan', -⟩ := hspans.exists_ends
      rw [hspan, hspan']
      exact hlt u (List.mem_of_getLast? hlast) t (hws.subset (List.mem_of_head? hfirst))

theorem Spans.inOrder (h : Spans ts n) (hts : ts <:+: tokens) (ht : Increasing tokens) :
    n.InOrder tokens := by
  obtain ⟨t, u, hfirst, hlast, hspan, hrow⟩ := h.exists_ends
  have ht := ht.of_infix hts
  have hmem {v : Token} (hv : v ∈ ts) : v.location ∈ tokens.map Token.location :=
    List.mem_map_of_mem (hts.subset hv)
  have hhead := List.mem_of_head? hfirst
  have hfinal := List.mem_of_getLast? hlast
  refine ⟨?_, ?_, ?_, fun c hc => ?_, hrow.pairwise ht⟩ <;> rw [hspan]
  · exact hmem hhead
  · exact hmem hfinal
  · exact ht.head_le hfirst hfinal
  · obtain ⟨us, hus, hchild⟩ := hrow.exists_of_mem hc
    obtain ⟨t', u', hfirst', hlast', hspan', -⟩ := hchild.exists_ends
    rw [hspan']
    exact ⟨ht.head_le hfirst (hus.subset (List.mem_of_head? hfirst')),
      ht.le_last hlast (hus.subset (List.mem_of_getLast? hlast'))⟩

/-- Where the offsets increase, all of a tree that spans tokens is in order. -/
theorem Spans.inOrder_of_at? {root n : Node} (h : Spans tokens root) (ht : Increasing tokens)
    (hn : root.at? path = some n) : n.InOrder tokens := by
  obtain ⟨ts, hts, hspans⟩ := h.exists_of_at? hn
  exact hspans.inOrder hts ht

end Node

end BracketLang
