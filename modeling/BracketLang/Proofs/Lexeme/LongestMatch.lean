import BracketLang.Proofs.Lexeme.Lexemes
import Mathlib.Data.List.Induction
import Mathlib.Data.Nat.Digits.Defs

/-! Lexemes are longest matches. `Longest P w cs` says that `w` is the longest beginning of `cs` for
which `P` holds, and `LongestMatch` says in these words, with no regard to how a text is split, what
the piece at the beginning of a text has to be. Every piece of a scan is such a match at its place
(`Lexeme.longestMatch_of_split`), and none begins where a comment does, so that a `/` never stands
in front of another. -/

namespace BracketLang

/-- Of the beginnings of `cs` for which `P` holds, `w` is the longest. -/
structure Longest (P : List Char → Prop) (w cs : List Char) : Prop where
  starts : w <+: cs
  holds : P w
  length_le : ∀ v, v <+: cs → P v → v.length ≤ w.length

theorem longest_takeWhile (p : Char → Bool) (cs : List Char) :
    Longest (∀ d ∈ ·, p d) (cs.takeWhile p) cs where
  starts := List.takeWhile_prefix p
  holds _ := List.mem_takeWhile_imp
  length_le := by
    rintro v ⟨rest, rfl⟩ hv
    rw [List.takeWhile_append_of_pos hv, List.length_append]
    exact Nat.le_add_right ..

namespace Lexeme

/-- Letters, digits and `_` alone. -/
def IsRun (w : List Char) : Prop := ∀ d ∈ w, isWordChar d

def IsOperator (w : List Char) : Prop := ∃ k ∈ TokenKind.operators, k.spelling.toList = w

/-- The number with these decimal digits. -/
def numeral (digits : List Char) : Nat :=
  Nat.ofDigits 10 (digits.reverse.map fun d => d.toNat - '0'.toNat)

theorem decimal_eq_numeral (digits : List Char) : decimal digits = numeral digits := by
  induction digits using List.reverseRecOn with
  | nil => rfl
  | append_singleton digits d ih =>
    rw [decimal, List.foldl_append, ← decimal, ih]
    simp [numeral, Nat.ofDigits_cons, Nat.add_comm, Nat.mul_comm]

end Lexeme

open Lexeme

/-- The piece at the beginning of a text, by its first character. The cases exclude each other. -/
inductive LongestMatch : (cs : List Char) → Piece → Prop
  | integer (hc : c.isDigit) (hw : Longest IsRun w (c :: cs)) (hdigits : ∀ d ∈ w, d.isDigit)
    (hmax : (numeral w : Int) ≤ int32Max) :
    LongestMatch (c :: cs) (.token ⟨.integer, String.ofList w, some (.int (numeral w)), location⟩)
  | overflow (hc : c.isDigit) (hw : Longest IsRun w (c :: cs)) (hdigits : ∀ d ∈ w, d.isDigit)
    (hmax : int32Max < (numeral w : Int)) (hlexeme : e.lexeme = String.ofList w)
    (hcode : e.code = "L007") : LongestMatch (c :: cs) (.error e)
  | malformed (hc : c.isDigit) (hw : Longest IsRun w (c :: cs)) (hdigits : ¬ ∀ d ∈ w, d.isDigit)
    (hlexeme : e.lexeme = String.ofList w) (hcode : e.code = "L003") :
    LongestMatch (c :: cs) (.error e)
  | keyword (hc : isWordStart c) (hw : Longest IsRun w (c :: cs)) (hk : k ∈ TokenKind.keywords)
    (hspelling : k.spelling.toList = w) :
    LongestMatch (c :: cs) (.token ⟨k, String.ofList w, k.truth, location⟩)
  | identifier (hc : isWordStart c) (hw : Longest IsRun w (c :: cs))
    (hkeywords : ∀ k ∈ TokenKind.keywords, k.spelling.toList ≠ w) :
    LongestMatch (c :: cs) (.token ⟨.identifier, String.ofList w, none, location⟩)
  | operator (hdigit : ¬ c.isDigit) (hstart : ¬ isWordStart c)
    (hw : Longest IsOperator w (c :: cs)) (hk : k ∈ TokenKind.operators)
    (hspelling : k.spelling.toList = w) :
    LongestMatch (c :: cs) (.token ⟨k, String.ofList w, none, location⟩)
  | stray (hdigit : ¬ c.isDigit) (hstart : ¬ isWordStart c)
    (hoperators : ∀ w, IsOperator w → ¬ w <+: c :: cs) (hlexeme : e.lexeme = String.ofList [c])
    (hcode : e.code = "L001") : LongestMatch (c :: cs) (.error e)

/-! ## One lexeme -/

namespace Lexeme

theorem longest_run (hc : isWordChar c) (cs : List Char) :
    Longest IsRun (c :: cs.takeWhile isWordChar) (c :: cs) := by
  have h := longest_takeWhile isWordChar (c :: cs)
  rwa [List.takeWhile_cons_of_pos hc] at h

theorem IsOperator.eq_pair_or_single (h : IsOperator w) (hw : w <+: c :: cs) :
    w = [c] ∨ ∃ d cs', cs = d :: cs' ∧ w = [c, d] := by
  obtain ⟨k, hk, rfl⟩ := h
  rcases spelling_of_mem_operators hk with ⟨d, hd⟩ | ⟨b, d, hd⟩
  · rw [hd, List.cons_prefix_cons] at hw
    exact .inl (by rw [hd, hw.1])
  · rw [hd, List.cons_prefix_cons] at hw
    obtain ⟨rfl, rest, rfl⟩ := hw
    exact .inr ⟨d, rest, rfl, hd⟩

theorem not_isOperator_of_eq_none (h : TokenKind.ofOperator? w = none) : ¬ IsOperator w := by
  rintro ⟨k, hk, rfl⟩
  rw [ofOperator?_spelling hk] at h
  cases h

/-- The longest operator is looked for first. -/
theorem longest_operator (h : IsOperator w) (hw : w <+: c :: cs)
    (hpair : pairOperator? c cs = none ∨ ∃ d, w = [c, d]) : Longest IsOperator w (c :: cs) where
  starts := hw
  holds := h
  length_le v hv hop := by
    rcases hop.eq_pair_or_single hv with rfl | ⟨d, cs', rfl, rfl⟩
    · rcases h.eq_pair_or_single hw with rfl | ⟨_, _, _, rfl⟩ <;> simp
    · rcases hpair with hpair | ⟨d', rfl⟩
      · exact absurd hop (not_isOperator_of_eq_none (Option.map_eq_none_iff.mp hpair))
      · exact Nat.le_refl 2

theorem longestMatch_of_number (hc : c.isDigit)
    (hpiece : Lexeme.piece? ⟨c :: cs.takeWhile isWordChar,
      numberClass (c :: cs.takeWhile isWordChar)⟩ location = some a) :
    LongestMatch (c :: cs) a := by
  have hw := longest_run (isWordChar_of_isDigit hc) cs
  revert hw hpiece
  generalize c :: cs.takeWhile isWordChar = w
  intro hpiece hw
  unfold numberClass at hpiece
  split at hpiece
  next hdigits =>
    cases hpiece
    exact .malformed hc hw (by simpa using hdigits) rfl rfl
  next hdigits =>
  have hdigits : ∀ d ∈ w, d.isDigit := by simpa using hdigits
  split at hpiece
  · cases hpiece
  split at hpiece
  next hmax =>
    cases hpiece
    rw [decimal_eq_numeral] at hmax
    exact .overflow hc hw hdigits hmax rfl rfl
  next hmax =>
    rw [decimal_eq_numeral] at hpiece hmax
    cases hpiece
    exact .integer hc hw hdigits (Int.not_lt.mp hmax)

theorem wordClass_of_keyword (h : TokenKind.ofKeyword? w = some k) :
    wordClass w = .token k k.truth := by
  obtain ⟨hk, rfl⟩ := TokenKind.of_ofKeyword? h
  have hall : ∀ k ∈ TokenKind.keywords, wordClass k.spelling.toList = .token k k.truth := by decide
  exact hall k hk

theorem longestMatch_of_word (hc : isWordStart c)
    (hpiece : Lexeme.piece? ⟨c :: cs.takeWhile isWordChar,
      wordClass (c :: cs.takeWhile isWordChar)⟩ location = some a) :
    LongestMatch (c :: cs) a := by
  have hw := longest_run (isWordChar_of_isWordStart hc) cs
  revert hw hpiece
  generalize c :: cs.takeWhile isWordChar = w
  intro hpiece hw
  cases hk : TokenKind.ofKeyword? w with
  | some k =>
    rw [wordClass_of_keyword hk] at hpiece
    cases hpiece
    obtain ⟨hmem, hspelling⟩ := TokenKind.of_ofKeyword? hk
    exact .keyword hc hw hmem hspelling
  | none =>
    simp only [wordClass, hk] at hpiece
    cases hpiece
    refine .identifier hc hw fun k hmem hspelling => ?_
    exact List.find?_eq_none.mp hk k hmem (decide_eq_true hspelling)

theorem longestMatch_of_symbol (hdigit : ¬ c.isDigit) (hstart : ¬ isWordStart c)
    (hsplit : (pairOperator? c cs).getD (⟨[c], singleClass c⟩, cs) = (l, rest))
    (hpiece : l.piece? location = some a) : LongestMatch (c :: cs) a := by
  cases hpair : pairOperator? c cs with
  | some q =>
    cases cs with
    | nil => cases hpair
    | cons d cs =>
      obtain ⟨k, hk, rfl⟩ := Option.map_eq_some_iff.mp hpair
      obtain ⟨hmem, hspelling⟩ := TokenKind.of_ofOperator? hk
      rw [hpair] at hsplit
      cases hsplit
      cases hpiece
      exact .operator hdigit hstart
        (longest_operator ⟨k, hmem, hspelling⟩ ⟨_, rfl⟩ (.inr ⟨d, rfl⟩)) hmem hspelling
  | none =>
    rw [hpair] at hsplit
    cases hsplit
    cases hk : TokenKind.ofOperator? [c] with
    | some k =>
      obtain ⟨hmem, hspelling⟩ := TokenKind.of_ofOperator? hk
      simp only [singleClass, hk] at hpiece
      cases hpiece
      exact .operator hdigit hstart
        (longest_operator ⟨k, hmem, hspelling⟩ ⟨cs, rfl⟩ (.inl hpair)) hmem hspelling
    | none =>
      simp only [singleClass, hk] at hpiece
      cases hpiece
      refine .stray hdigit hstart (fun w hop hw => ?_) rfl rfl
      rcases hop.eq_pair_or_single hw with rfl | ⟨d, cs', rfl, rfl⟩
      · exact not_isOperator_of_eq_none hk hop
      · exact not_isOperator_of_eq_none (Option.map_eq_none_iff.mp hpair) hop

/-- A lexeme is split off as the longest match. -/
theorem longestMatch_of_split (hsplit : split c cs = (l, rest))
    (hpiece : l.piece? location = some a) : LongestMatch (c :: cs) a := by
  unfold split at hsplit
  split at hsplit
  next hdigit =>
    cases hsplit
    exact longestMatch_of_number hdigit hpiece
  next hdigit =>
  split at hsplit
  next hstart =>
    cases hsplit
    exact longestMatch_of_word hstart hpiece
  next hstart => exact longestMatch_of_symbol hdigit hstart hsplit hpiece

end Lexeme

/-! ## The pieces of a scan -/

/-- Every piece is the longest match at its place, and no comment begins there. -/
theorem Scan.longestMatch_of_mem_run (file : String) (p : Position) (cs : List Char) :
    ∀ a ∈ (run file p cs).pieces, ∃ ds rest, cs = ds ++ rest ∧
      a.location = (p.after ds).location file ∧ LongestMatch rest a ∧
        ∀ cs', rest ≠ '/' :: '/' :: cs' := by
  refine run_induction (motive := fun p cs scan => ∀ a ∈ scan.pieces, ∃ ds rest, cs = ds ++ rest ∧
    a.location = (p.after ds).location file ∧ LongestMatch rest a ∧
      ∀ cs', rest ≠ '/' :: '/' :: cs') file ?_ ?_ ?_ p cs
  · intro p cs g _ a ha
    cases ha
  · intro p cs g c rest l rest' _ _ _ a ha
    cases ha
  · intro p cs g c rest l rest' piece scan hlayout hlexeme hpiece ih a ha
    obtain ⟨-, rfl⟩ := Layout.stretch_of_split hlayout
    rcases List.mem_cons.mp ha with rfl | ha
    · refine ⟨g, c :: rest, rfl, (lexeme_of_piece? hpiece).2,
        longestMatch_of_split hlexeme hpiece, fun cs' => ?_⟩
      have hne := Layout.split_ne_comment false (g ++ c :: rest) cs'
      rwa [hlayout] at hne
    · obtain ⟨ds, rest₁, rfl, hlocation, hmatch⟩ := ih a ha
      refine ⟨g ++ (l.text ++ ds), rest₁, ?_, ?_, hmatch⟩
      · rw [← (split_ne_nil hlexeme).2]
        simp
      · rw [hlocation, Position.after_append, Position.after_append]

/-- A `/` is read where one stands. -/
theorem LongestMatch.exists_slash (h : LongestMatch cs (.token t)) (ht : t.kind = .slash) :
    ∃ rest, cs = '/' :: rest := by
  cases h with
  | integer => cases ht
  | keyword _ _ hk =>
    obtain rfl := ht
    exact absurd hk (by decide)
  | identifier => cases ht
  | operator _ _ hw _ hspelling =>
    obtain rfl := ht
    obtain ⟨rest, hrest⟩ := hw.starts
    exact ⟨rest, by rw [← hrest, ← hspelling]; rfl⟩

/-! ## The tokens and errors of a text -/

/-- The tokens and the errors of a text are the longest matches at their places. -/
structure LongestMatches (source : String) (scanned : Staged (List Token)) : Prop where
  tokens : ∀ t ∈ scanned.result, t.kind ≠ .eof → ∃ o : Nat, t.location.offset = o ∧
    LongestMatch (source.toList.drop o) (.token t)
  errors : ∀ e : LexicalError, .lexical e ∈ scanned.faults → ∃ o : Nat, e.location.offset = o ∧
    LongestMatch (source.toList.drop o) (.error e)
  /-- No `/` has another behind it. -/
  slashes : ∀ t ∈ scanned.result, t.kind = .slash → ∃ o : Nat, t.location.offset = o ∧
    source.toList[o + 1]? ≠ some '/'

/-- The pieces of a text, by their offsets. -/
theorem Scan.longestMatch_of_mem_ofSource {file : String} {source : List Char} {a : Piece}
    (ha : a ∈ (ofSource file source).pieces) :
    ∃ o : Nat, a.location.offset = o ∧ LongestMatch (source.drop o) a ∧
      ∀ cs', source.drop o ≠ '/' :: '/' :: cs' := by
  obtain ⟨ds, rest, rfl, hlocation, hmatch, hcomment⟩ := longestMatch_of_mem_run _ _ _ a ha
  refine ⟨ds.length, ?_, ?_⟩
  · simp [hlocation, Position.location, Position.offset_after, Position.start]
  · rw [List.drop_left]
    exact ⟨hmatch, hcomment⟩

theorem Scan.mem_pieces_of_mem_tokens {s : Scan} (ht : t ∈ s.tokens file) (hkind : t.kind ≠ .eof) :
    .token t ∈ s.pieces := by
  rcases List.mem_append.mp ht with ht | ht
  · obtain ⟨a, ha, hat⟩ := List.mem_filterMap.mp ht
    cases a <;> cases hat
    exact ha
  · split at ht
    · exact absurd (congrArg Token.kind (List.mem_singleton.mp ht)) hkind
    · cases ht

namespace Frontend

/-- A text is read by longest match, and what is read is classified as it should be. -/
theorem tokens_are_longest_matches (source file : String) (scanned : Staged (List Token))
    (h : tokenize source file = .ok scanned) : LongestMatches source scanned := by
  simp only [tokenize] at h
  split at h
  · cases h
  next hend =>
  cases h
  refine ⟨fun t ht hkind => ?_, fun e he => ?_, fun t ht hslash => ?_⟩
  · obtain ⟨o, ho, hmatch, -⟩ :=
      Scan.longestMatch_of_mem_ofSource (Scan.mem_pieces_of_mem_tokens ht hkind)
    exact ⟨o, ho, hmatch⟩
  · obtain ⟨e', he', rfl⟩ : ∃ e' ∈ (Scan.ofSource file source.toList).errors, e' = e := by
      simpa using he
    obtain ⟨a, ha, hae⟩ := List.mem_filterMap.mp he'
    cases a <;> cases hae
    obtain ⟨o, ho, hmatch, -⟩ := Scan.longestMatch_of_mem_ofSource ha
    exact ⟨o, ho, hmatch⟩
  · have hkind : t.kind ≠ .eof := by rw [hslash]; decide
    obtain ⟨o, ho, hmatch, hcomment⟩ :=
      Scan.longestMatch_of_mem_ofSource (Scan.mem_pieces_of_mem_tokens ht hkind)
    obtain ⟨rest, hrest⟩ := hmatch.exists_slash hslash
    refine ⟨o, ho, fun hnext => ?_⟩
    rw [← List.getElem?_drop, hrest] at hnext
    cases rest with
    | nil => cases hnext
    | cons d rest =>
      obtain rfl : d = '/' := by simpa using hnext
      exact hcomment rest hrest

/-- Leading zeros, numbers too large or glued to names, halves of operators, and one at the end. -/
theorem longest_matches_mixed : ∃ scanned, ∃ errors : List LexicalError,
    tokenize "007 2147483648 1x_ truely true<=-1>&/ //\n&&&" "main" = .ok scanned ∧
      scanned.result.map (fun t => (t.kind, t.lexeme, t.value)) =
        [(.integer, "007", some (.int 7)), (.identifier, "truely", none),
          (.trueWord, "true", some (.bool true)), (.lessEqual, "<=", none), (.minus, "-", none),
          (.integer, "1", some (.int 1)), (.greater, ">", none), (.slash, "/", none),
          (.and, "&&", none), (.eof, "", none)] ∧
      scanned.faults = errors.map .lexical ∧
      errors.map (fun e => (e.code, e.lexeme)) =
        [("L007", "2147483648"), ("L003", "1x_"), ("L001", "&"), ("L001", "&")] ∧
      LongestMatches "007 2147483648 1x_ truely true<=-1>&/ //\n&&&" scanned := by
  let scan := Scan.ofSource "main" "007 2147483648 1x_ truely true<=-1>&/ //\n&&&".toList
  have hend : scan.ending = .endOfSource := by decide +kernel
  have h : tokenize "007 2147483648 1x_ truely true<=-1>&/ //\n&&&" "main" = .ok
      ⟨scan.tokens "main", scan.errors.map .lexical,
        [.scanned "main" (scan.tokens "main").length scan.errors.length]⟩ := by
    simp only [tokenize, show (Scan.ofSource ..).ending = _ from hend]
    rfl
  exact ⟨_, scan.errors, h, by decide +kernel, rfl, by decide +kernel,
    tokens_are_longest_matches _ _ _ h⟩

end Frontend

end BracketLang
