import BracketLang.Proofs.Lexeme.Scanning

/-! Words and how they are read back. A word spells a token (`Spells`) if, wherever layout or the
end of the text follows it, the scan makes that token of it and goes on behind it. Reserved words,
operators, names and decimal numbers spell the tokens they should; and scanning words with layout
between them (`Spaced`) gives their tokens, one for each word. -/

namespace BracketLang

/-- A letter or `_`, then letters, digits and `_`, but no reserved word. -/
def IsName (x : String) : Prop :=
  (∃ c cs, x.toList = c :: cs ∧ Lexeme.isWordStart c ∧ ∀ d ∈ cs, Lexeme.isWordChar d) ∧
    TokenKind.ofKeyword? x.toList = none

/-- A blank character comes next, or nothing at all. -/
def AtGap (cs : List Char) : Prop := ∀ c ∈ cs.head?, Layout.isBlank c

/-- In front of layout or the end, the word `w` is a token of this kind and value. -/
def Spells (w : String) (k : TokenKind) (v : Option Literal) : Prop :=
  ∃ c cs, w.toList = c :: cs ∧ ∀ rest, AtGap rest →
    Layout.split false (c :: (cs ++ rest)) = ([], c :: (cs ++ rest)) ∧
      Lexeme.split c (cs ++ rest) = (⟨c :: cs, .token k v⟩, rest)

/-- A word is read in one way. -/
theorem Spells.unique (h : Spells w k v) (h' : Spells w k' v') : k = k' ∧ v = v' := by
  obtain ⟨c, cs, hw, hs⟩ := h
  obtain ⟨c', cs', hw', hs'⟩ := h'
  cases hw.symm.trans hw'
  have heq := (hs [] nofun).2.symm.trans (hs' [] nofun).2
  simpa using congrArg Prod.fst heq

theorem Spells.ne_eof (h : Spells w k v) : k ≠ .eof := by
  obtain ⟨c, cs, -, hs⟩ := h
  have hkind : (Lexeme.split c (cs ++ [])).1.kind = .token k v := by rw [(hs [] nofun).2]
  exact Lexeme.ne_eof_of_split hkind

/-! ## Runs of word characters -/

namespace Lexeme

theorem not_isWordChar_of_isBlank (h : Layout.isBlank c) : isWordChar c = false := by
  simp only [Layout.isBlank, Bool.or_eq_true, decide_eq_true_eq] at h
  rcases h with ((rfl | rfl) | rfl) | rfl <;> decide

/-- A run is over at the first character that does not continue it. -/
theorem takeWhile_append_of_stop {cs rest : List Char} (hcs : ∀ d ∈ cs, isWordChar d)
    (hrest : ∀ d ∈ rest.head?, isWordChar d = false) :
    (cs ++ rest).takeWhile isWordChar = cs ∧ (cs ++ rest).dropWhile isWordChar = rest := by
  rw [List.takeWhile_append_of_pos hcs, List.dropWhile_append_of_pos hcs]
  cases rest with
  | nil => simp
  | cons c rest => simp [hrest c rfl]

theorem takeWhile_append_of_atGap (hcs : ∀ d ∈ cs, isWordChar d) (hrest : AtGap rest) :
    (cs ++ rest).takeWhile isWordChar = cs ∧ (cs ++ rest).dropWhile isWordChar = rest :=
  takeWhile_append_of_stop hcs fun d hd => not_isWordChar_of_isBlank (hrest d hd)

theorem isWordChar_of_isDigit (h : Char.isDigit c) : isWordChar c := by
  simp [isWordChar, Char.isAlphanum, h]

theorem isWordChar_of_isWordStart (h : isWordStart c) : isWordChar c := by
  simp only [isWordStart, Bool.or_eq_true] at h
  rcases h with h | h <;> simp [isWordChar, Char.isAlphanum, h]

/-- A word character is neither blank nor the start of a comment. -/
theorem layout_split_of_isWordChar (hc : isWordChar c) (cs : List Char) :
    Layout.split false (c :: cs) = ([], c :: cs) := by
  refine Layout.split_eq_nil (fun hb => ?_) fun cs' h => ?_
  · rw [not_isWordChar_of_isBlank hb] at hc
    cases hc
  · cases h
    cases hc

/-- The letters and `_` come behind the digits. -/
theorem lt_of_isWordStart (h : isWordStart c) : '9'.val < c.val := by
  rcases Bool.or_eq_true_iff.mp h with h | h
  · rcases Bool.or_eq_true_iff.mp h with h | h
    · exact Nat.lt_of_lt_of_le (by decide) (of_decide_eq_true h).1
    · exact Nat.lt_of_lt_of_le (by decide) (of_decide_eq_true (Bool.and_eq_true_iff.mp h).1)
  · rw [of_decide_eq_true h]
    decide

theorem not_isDigit_of_isWordStart (h : isWordStart c) : c.isDigit = false := by
  refine Bool.eq_false_iff.mpr fun hdigit => ?_
  exact absurd (of_decide_eq_true (Bool.and_eq_true_iff.mp hdigit).2)
    (Nat.not_le.mpr (lt_of_isWordStart h))

theorem decimal_toDigits (n : Nat) : decimal (Nat.toDigits 10 n) = n := by
  have h : decimal (Nat.toDigits 10 n) = Nat.ofDigitChars 10 (Nat.toDigits 10 n) 0 := by
    simp only [decimal, Nat.ofDigitChars_eq_foldl, Nat.mul_comm]
  rw [h, Nat.ofDigitChars_toDigits (by decide) (by decide)]

end Lexeme

open Lexeme

theorem spells_of_wordClass {w : String} (hw : w.toList = c :: cs) (hc : isWordStart c)
    (hcs : ∀ d ∈ cs, isWordChar d) (hclass : wordClass (c :: cs) = .token k v) : Spells w k v := by
  refine ⟨c, cs, hw, fun rest hrest =>
    ⟨layout_split_of_isWordChar (isWordChar_of_isWordStart hc) _, ?_⟩⟩
  obtain ⟨htake, hdrop⟩ := takeWhile_append_of_atGap hcs hrest
  simp [Lexeme.split, not_isDigit_of_isWordStart hc, hc, htake, hdrop, hclass]

theorem IsName.spells (h : IsName x) : Spells x .identifier none := by
  obtain ⟨⟨c, cs, hx, hc, hcs⟩, hkey⟩ := h
  refine spells_of_wordClass hx hc hcs ?_
  rw [hx] at hkey
  simp [wordClass, hkey]

theorem spells_number {w : String} (hne : w.toList ≠ []) (hw : ∀ d ∈ w.toList, d.isDigit)
    (hlen : w.toList.length ≤ digitLimit) (hmax : (decimal w.toList : Int) ≤ int32Max) :
    Spells w .integer (some (.int (decimal w.toList))) := by
  obtain ⟨c, cs, hcs⟩ := List.exists_cons_of_ne_nil hne
  rw [hcs] at hw hlen hmax ⊢
  have hc := hw c (List.mem_cons_self ..)
  refine ⟨c, cs, hcs, fun rest hrest =>
    ⟨layout_split_of_isWordChar (isWordChar_of_isDigit hc) _, ?_⟩⟩
  obtain ⟨htake, hdrop⟩ := takeWhile_append_of_atGap
    (fun d hd => isWordChar_of_isDigit (hw d (List.mem_cons_of_mem _ hd))) hrest
  have hall : (c :: cs).all Char.isDigit := List.all_eq_true.mpr hw
  simp only [Lexeme.split, hc, htake, hdrop, numberClass, hall, Bool.not_true, if_true,
    if_neg (Nat.not_lt.mpr hlen), if_neg (Int.not_lt.mpr hmax)]
  rfl

theorem spells_nat (n : Nat) (hn : (n : Int) ≤ int32Max) :
    Spells (toString n) .integer (some (.int n)) := by
  have hlist : (toString n).toList = Nat.toDigits 10 n := Nat.toList_repr
  have hlen : (Nat.toDigits 10 n).length ≤ 10 := by
    refine (Nat.length_toDigits_le_iff (by decide) (by decide)).mpr ?_
    simp only [int32Max] at hn
    omega
  have h : Spells (toString n) .integer (some (.int (decimal (toString n).toList))) := by
    refine spells_number ?_ ?_ ?_ ?_ <;> rw [hlist]
    · exact List.ne_nil_of_length_pos Nat.length_toDigits_pos
    · exact fun d hd => Nat.isDigit_of_mem_toDigits (by decide) (by decide) hd
    · exact Nat.le_trans hlen (by decide)
    · rwa [decimal_toDigits]
  rwa [hlist, decimal_toDigits] at h

/-! ## Reserved words and operators -/

/-- The value of a token with a fixed spelling. -/
def TokenKind.truth : TokenKind → Option Literal
  | .trueWord => some (.bool true)
  | .falseWord => some (.bool false)
  | _ => none

namespace TokenKind

theorem of_ofKeyword? (h : ofKeyword? cs = some k) : k ∈ keywords ∧ k.spelling.toList = cs := by
  have htext := List.find?_some h
  exact ⟨List.mem_of_find?_eq_some h, of_decide_eq_true htext⟩

theorem of_ofOperator? (h : ofOperator? cs = some k) :
    k ∈ operators ∧ k.spelling.toList = cs := by
  have htext := List.find?_some h
  exact ⟨List.mem_of_find?_eq_some h, of_decide_eq_true htext⟩

end TokenKind

theorem spells_keyword (hk : k ∈ TokenKind.keywords) : Spells k.spelling k k.truth := by
  have hstart : ∀ k ∈ TokenKind.keywords, k.spelling.toList.head?.any isWordStart := by decide
  have hchars : ∀ k ∈ TokenKind.keywords, k.spelling.toList.all isWordChar := by decide
  have hclass : ∀ k ∈ TokenKind.keywords,
      wordClass k.spelling.toList = .token k k.truth := by decide
  specialize hstart k hk
  specialize hchars k hk
  specialize hclass k hk
  cases hw : k.spelling.toList with
  | nil =>
    rw [hw] at hstart
    cases hstart
  | cons c cs =>
    rw [hw] at hstart hchars hclass
    rw [List.all_cons, Bool.and_eq_true] at hchars
    exact spells_of_wordClass hw hstart (List.all_eq_true.mp hchars.2) hclass

/-- No character of an operator could stand in a number, a word or layout. -/
theorem isSymbol_of_mem_operators (hk : k ∈ TokenKind.operators) (hc : c ∈ k.spelling.toList) :
    c.isDigit = false ∧ isWordStart c = false ∧ Layout.isBlank c = false := by
  have hall : ∀ k ∈ TokenKind.operators, k.spelling.toList.all fun c =>
    !c.isDigit && !isWordStart c && !Layout.isBlank c := by decide
  have h := List.all_eq_true.mp (hall k hk) c hc
  simp only [Bool.and_eq_true, Bool.not_eq_true'] at h
  exact ⟨h.1.1, h.1.2, h.2⟩

/-- No operator runs into a blank. -/
theorem ofOperator?_blank (hd : Layout.isBlank d) : TokenKind.ofOperator? [c, d] = none := by
  refine List.find?_eq_none.mpr fun k hk heq => ?_
  have hmem : d ∈ k.spelling.toList := by simp [of_decide_eq_true heq]
  rw [(isSymbol_of_mem_operators hk hmem).2.2] at hd
  cases hd

theorem ofOperator?_spelling (hk : k ∈ TokenKind.operators) :
    TokenKind.ofOperator? k.spelling.toList = some k := by
  have hall : ∀ k ∈ TokenKind.operators, TokenKind.ofOperator? k.spelling.toList = some k := by
    decide
  exact hall k hk

theorem spells_single (hk : k ∈ TokenKind.operators) (hw : k.spelling.toList = [c]) :
    Spells k.spelling k none := by
  obtain ⟨hdigit, hstart, hblank⟩ := isSymbol_of_mem_operators hk (c := c) (by simp [hw])
  have hop := ofOperator?_spelling hk
  rw [hw] at hop
  refine ⟨c, [], hw, fun rest hrest => ⟨Layout.split_eq_nil (by simp [hblank]) ?_, ?_⟩⟩
  · rintro cs' h
    obtain ⟨rfl, rfl⟩ := List.cons.inj h
    exact absurd (hrest '/' rfl) (by decide)
  · have hpair : pairOperator? c rest = none := by
      cases rest with
      | nil => rfl
      | cons d rest => simp [pairOperator?, ofOperator?_blank (hrest d rfl)]
    simp [Lexeme.split, hdigit, hstart, hpair, singleClass, hop]

/-- No longer operator begins like a comment. -/
theorem ne_slash_of_pair (hk : k ∈ TokenKind.operators) (hw : k.spelling.toList = [c, d]) :
    c ≠ '/' := by
  have hslash : ∀ k ∈ TokenKind.operators, k.spelling.toList.length = 2 →
      k.spelling.toList.head? ≠ some '/' := by decide
  specialize hslash k hk (by rw [hw]; rfl)
  rw [hw] at hslash
  exact fun hc => hslash (by rw [hc]; rfl)

theorem spells_pair (hk : k ∈ TokenKind.operators) (hw : k.spelling.toList = [c, d]) :
    Spells k.spelling k none := by
  obtain ⟨hdigit, hstart, hblank⟩ := isSymbol_of_mem_operators hk (c := c) (by simp [hw])
  have hop := ofOperator?_spelling hk
  rw [hw] at hop
  refine ⟨c, [d], hw, fun rest hrest => ⟨Layout.split_eq_nil (by simp [hblank]) ?_, ?_⟩⟩
  · exact fun cs' h => ne_slash_of_pair hk hw (List.cons.inj h).1
  · simp [Lexeme.split, hdigit, hstart, pairOperator?, hop]

/-- Operators have one character or two. -/
theorem spelling_of_mem_operators (hk : k ∈ TokenKind.operators) :
    (∃ c, k.spelling.toList = [c]) ∨ ∃ c d, k.spelling.toList = [c, d] := by
  have hlength : ∀ k ∈ TokenKind.operators,
      k.spelling.toList.length = 1 ∨ k.spelling.toList.length = 2 := by decide
  rcases hlength k hk with h | h
  · exact .inl (List.length_eq_one_iff.mp h)
  · obtain ⟨c, ds, hw⟩ := List.exists_cons_of_length_eq_add_one h
    obtain ⟨d, rfl⟩ : ∃ d, ds = [d] := List.length_eq_one_iff.mp (by simpa [hw] using h)
    exact .inr ⟨c, d, hw⟩

theorem spells_operator (hk : k ∈ TokenKind.operators) : Spells k.spelling k none := by
  rcases spelling_of_mem_operators hk with ⟨c, hw⟩ | ⟨c, d, hw⟩
  · exact spells_single hk hw
  · exact spells_pair hk hw

/-! ## Words with layout between them -/

/-- The words, in order, with layout in front of them, between them and behind them; what is
between two words begins with a blank. -/
inductive Spaced : List String → List Char → Prop
  | nil (hg : Layout.Stretch g []) : Spaced [] g
  | cons (w : String) (hg : Layout.Stretch g (w.toList ++ cs)) (hcs : AtGap cs)
    (h : Spaced ws cs) : Spaced (w :: ws) (g ++ (w.toList ++ cs))

theorem Spaced.blank (hc : Layout.isBlank c) (h : Spaced ws cs) : Spaced ws (c :: cs) := by
  cases h with
  | nil hg => exact .nil (.blank hc hg)
  | cons w hg hcs h => exact .cons w (.blank hc hg) hcs h

/-- Words with a blank behind each. -/
theorem spaced_flatMap (ws : List String) : Spaced ws (ws.flatMap fun w => w.toList ++ [' ']) := by
  induction ws with
  | nil => exact .nil .nil
  | cons w ws ih =>
    have h := Spaced.cons w .nil (by simp [AtGap, Layout.isBlank]) (ih.blank (c := ' ') rfl)
    simpa using h

/-- The tokens that words spell, one for each. -/
structure Written (ws : List String) (ts : List Token) : Prop where
  lexemes : ts.map Token.lexeme = ws
  spells : ∀ t ∈ ts, Spells t.lexeme t.kind t.value

namespace Written

theorem nil : Written [] [] := ⟨rfl, List.forall_mem_nil _⟩

theorem cons (hw : t.lexeme = w) (ht : Spells w t.kind t.value) (h : Written ws ts) :
    Written (w :: ws) (t :: ts) :=
  ⟨by simp [hw, h.lexemes], List.forall_mem_cons.mpr ⟨hw ▸ ht, h.spells⟩⟩

theorem eq_nil (h : Written [] ts) : ts = [] := List.map_eq_nil_iff.mp h.lexemes

theorem exists_append (h : Written (ws ++ ws') ts) :
    ∃ us us', ts = us ++ us' ∧ Written ws us ∧ Written ws' us' := by
  obtain ⟨us, us', rfl, hus, hus'⟩ := List.map_eq_append_iff.mp h.lexemes
  obtain ⟨hs, hs'⟩ := List.forall_mem_append.mp h.spells
  exact ⟨us, us', rfl, ⟨hus, hs⟩, ⟨hus', hs'⟩⟩

/-- The token of the first word, where it is known what the word spells. -/
theorem exists_cons (hw : Spells w k v) (h : Written (w :: ws) ts) :
    ∃ t us, ts = t :: us ∧ t.kind = k ∧ t.lexeme = w ∧ t.value = v ∧ Written ws us := by
  obtain ⟨t, us, rfl, rfl, hus⟩ := List.map_eq_cons_iff.mp h.lexemes
  obtain ⟨ht, hs⟩ := List.forall_mem_cons.mp h.spells
  obtain ⟨hk, hv⟩ := ht.unique hw
  exact ⟨t, us, rfl, hk, rfl, hv, hus, hs⟩

end Written

/-- Scanning words gives their tokens. -/
theorem Scan.run_of_spaced (h : Spaced ws cs) (hws : ∀ w ∈ ws, ∃ k v, Spells w k v)
    (file : String) (p : Position) :
    (run file p cs).ending = .endOfSource ∧
      ∃ ts, (run file p cs).pieces = ts.map .token ∧ Written ws ts := by
  induction h generalizing p with
  | @nil g hg =>
    have hsplit : Layout.split false g = (g, []) := by simpa using hg.split_append rfl
    rw [run_of_end (by rw [hsplit])]
    exact ⟨rfl, [], rfl, .nil⟩
  | @cons g cs ws w hg hcs _ ih =>
    obtain ⟨k, v, c, cs', hw, hspells⟩ := hws w (List.mem_cons_self ..)
    obtain ⟨hlayout, hlexeme⟩ := hspells cs hcs
    have hofList : String.ofList (c :: cs') = w := by rw [← hw, String.ofList_toList]
    rw [hw] at hg ⊢
    rw [run_of_piece (hg.split_append hlayout) hlexeme rfl]
    obtain ⟨hend, ts, hpieces, hts⟩ := ih (fun w hw => hws w (List.mem_cons_of_mem _ hw))
      ((p.after g).after (c :: cs'))
    refine ⟨hend, ⟨k, String.ofList (c :: cs'), v, (p.after g).location file⟩ :: ts, ?_,
      .cons hofList ⟨c, cs', hw, hspells⟩ hts⟩
    rw [hpieces]
    rfl

/-- A text of words has their tokens, then the end of file, and no errors. -/
theorem Scan.exists_tokens_of_spaced (h : Spaced ws cs) (hws : ∀ w ∈ ws, ∃ k v, Spells w k v)
    (file : String) :
    (ofSource file cs).ending = .endOfSource ∧ (ofSource file cs).errors = [] ∧
      ∃ ts, Written ws ts ∧ (ofSource file cs).tokens file =
        ts ++ [Token.eofAt ((ofSource file cs).stop.location file)] := by
  obtain ⟨hend, ts, hpieces, hts⟩ := run_of_spaced h hws file .start
  refine ⟨hend, ?_, ts, hts, ?_⟩
  · rw [errors, ofSource, hpieces, List.filterMap_map]
    exact List.filterMap_eq_nil_iff.mpr fun _ _ => rfl
  · simp only [tokens, ofSource, hend, hpieces, List.filterMap_map]
    exact congrArg (· ++ _) (List.filterMap_some ..)

end BracketLang
