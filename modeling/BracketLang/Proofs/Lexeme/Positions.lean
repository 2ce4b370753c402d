import BracketLang.Proofs.Lexeme.Tiling
import Mathlib.Data.List.Basic
import Mathlib.Data.List.Induction

/-! Where tokens and errors stand. The scan moves its line and column on with every character;
`Location.ofOffset` counts them from all that is in front of an offset. The two agree wherever a
scan gets to (`Position.location_after_start`), so counting finds the place of every piece. -/

namespace BracketLang

/-- The index just behind the last line break, or 0 if there is none. -/
def lineStart (cs : List Char) : Nat := cs.length - cs.reverse.idxOf '\n'

theorem lineStart_append (before : List Char) (h : '\n' ∉ line) :
    lineStart (before ++ '\n' :: line) = before.length + 1 := by
  have hidx : (line.reverse ++ '\n' :: before.reverse).idxOf '\n' = line.length := by
    rw [List.idxOf_append_of_notMem (by simpa using h), List.idxOf_cons_self, List.length_reverse,
      Nat.add_zero]
  simp only [lineStart, List.reverse_append, List.reverse_cons, List.append_assoc,
    List.singleton_append, hidx, List.length_append, List.length_cons]
  omega

theorem lineStart_concat (cs : List Char) (h : c ≠ '\n') :
    lineStart (cs ++ [c]) = lineStart cs := by
  simp [lineStart, List.idxOf_cons_ne _ h]

/-- The place at an offset, found by counting the characters in front of it. -/
def Location.ofOffset (file : String) (source : List Char) (offset : Nat) : Location where
  file := file
  line := 1 + (source.take offset).count '\n'
  column := offset - lineStart (source.take offset) + 1
  offset := offset

namespace Position

theorem after_start (cs : List Char) :
    start.after cs = ⟨1 + cs.count '\n', cs.length - lineStart cs + 1, cs.length⟩ := by
  induction cs using List.reverseRecOn with
  | nil => rfl
  | append_singleton cs c ih =>
    have hle : lineStart cs ≤ cs.length := Nat.sub_le ..
    rw [after_append, ih, after_cons, after_nil, step]
    split
    next hc =>
      rw [hc, lineStart_append cs List.not_mem_nil]
      simp [Nat.add_assoc]
    next hc =>
      rw [lineStart_concat cs hc, List.count_append, List.count_singleton, List.length_append]
      simp only [beq_iff_eq, hc, if_false, List.length_singleton]
      congr 1
      omega

/-- Going through the characters in front of an offset leads to the place counted there. -/
theorem location_after_start (file : String) (cs ds : List Char) :
    (start.after cs).location file = Location.ofOffset file (cs ++ ds) cs.length := by
  have hle : lineStart cs ≤ cs.length := Nat.sub_le ..
  simp only [after_start, location, Location.ofOffset, List.take_left]
  congr 1
  omega

end Position

/-! ## The tokens and errors of a text -/

namespace Frontend

/-- The text is read to its end, with these tokens and errors. -/
def Tokenizes (source file : String) (ts : List Token) (es : List LexicalError) : Prop :=
  ∃ log, tokenize source file = .ok ⟨ts, es.map .lexical, log⟩

theorem tokenizes_of_ending (h : (Scan.ofSource file source.toList).ending = .endOfSource) :
    Tokenizes source file ((Scan.ofSource file source.toList).tokens file)
      (Scan.ofSource file source.toList).errors :=
  ⟨_, by simp only [tokenize, h]; rfl⟩

theorem tokenizes_iff : Tokenizes source file ts es ↔
    (Scan.ofSource file source.toList).ending = .endOfSource ∧
      ts = (Scan.ofSource file source.toList).pieces.filterMap Piece.token? ++
        [Token.eofAt ((Position.start.after source.toList).location file)] ∧
      es = (Scan.ofSource file source.toList).pieces.filterMap Piece.error? := by
  have htokens (hend : (Scan.ofSource file source.toList).ending = .endOfSource) :
      (Scan.ofSource file source.toList).tokens file =
        (Scan.ofSource file source.toList).pieces.filterMap Piece.token? ++
          [Token.eofAt ((Position.start.after source.toList).location file)] := by
    rw [← (Scan.tiles_run file .start source.toList hend).2]
    simp only [Scan.tokens, hend]
    rfl
  constructor
  · rintro ⟨log, h⟩
    simp only [tokenize] at h
    split at h
    · cases h
    next hend =>
    obtain ⟨hts, hes, -⟩ := Staged.mk.inj (Except.ok.inj h)
    have hinj : Function.Injective Fault.lexical := fun _ _ => Fault.lexical.inj
    exact ⟨hend, hts ▸ htokens hend, (List.map_injective_iff.mpr hinj hes).symm⟩
  · rintro ⟨hend, rfl, rfl⟩
    rw [← htokens hend]
    exact tokenizes_of_ending hend

theorem exists_tokenizes (h : tokenize source file = .ok scanned) :
    ∃ es, scanned.faults = es.map .lexical ∧ Tokenizes source file scanned.result es := by
  have hscanned := h
  simp only [tokenize] at h
  split at h
  · cases h
  cases h
  exact ⟨_, rfl, _, hscanned⟩

end Frontend

/-- Every token and error of a text stands where counting puts its offset. -/
structure ExactPlaces (source file : String) (scanned : Staged (List Token)) : Prop where
  tokens : ∀ t ∈ scanned.result, ∃ o ≤ source.length,
    t.location = Location.ofOffset file source.toList o
  errors : ∀ f ∈ scanned.faults, ∃ e : LexicalError, f = .lexical e ∧ ∃ o ≤ source.length,
    e.location = Location.ofOffset file source.toList o
  /-- The end of file comes last, behind all characters. -/
  eof : scanned.result.getLast? =
    some (Token.eofAt (Location.ofOffset file source.toList source.length))

theorem Tiles.exists_ofOffset {source : String} (h : Tiles file .start pieces source.toList)
    (ha : a ∈ pieces) :
    ∃ o ≤ source.length, a.location = Location.ofOffset file source.toList o := by
  obtain ⟨-, ds, ds', heq, hlocation⟩ := h.exists_eq_append ha
  rw [← String.length_toList, heq]
  exact ⟨ds.length, by simp, hlocation.trans (Position.location_after_start ..)⟩

namespace Frontend

/-- The places of a text's tokens and errors are exact. -/
theorem places_are_exact (source file : String) (scanned : Staged (List Token))
    (h : tokenize source file = .ok scanned) : ExactPlaces source file scanned := by
  obtain ⟨es, hfaults, hscanned⟩ := exists_tokenizes h
  obtain ⟨hend, htokens, rfl⟩ := tokenizes_iff.mp hscanned
  obtain ⟨htiles, -⟩ := Scan.tiles_run file .start source.toList hend
  have heof := Position.location_after_start file source.toList []
  rw [List.append_nil, String.length_toList] at heof
  rw [heof] at htokens
  refine ⟨fun t ht => ?_, fun f hf => ?_, ?_⟩
  · rw [htokens, List.mem_append, List.mem_singleton] at ht
    rcases ht with ht | rfl
    · obtain ⟨a, ha, hat⟩ := List.mem_filterMap.mp ht
      rw [Piece.location_of_token? hat]
      exact htiles.exists_ofOffset ha
    · exact ⟨_, Nat.le_refl _, rfl⟩
  · rw [hfaults] at hf
    obtain ⟨e, he, rfl⟩ := List.mem_map.mp hf
    obtain ⟨a, ha, hae⟩ := List.mem_filterMap.mp he
    refine ⟨e, rfl, ?_⟩
    rw [Piece.location_of_error? hae]
    exact htiles.exists_ofOffset ha
  · rw [htokens, List.getLast?_concat]

/-- Two tokens and two errors behind a comment, then one of each on a line with a tab. -/
theorem places_are_exact_mixed :
    ∃ scanned, tokenize "// no token\n\n x=12ab&\r\n\t@<=\n" "main" = .ok scanned ∧
      ExactPlaces "// no token\n\n x=12ab&\r\n\t@<=\n" "main" scanned := by
  have hend : (Scan.ofSource "main"
      "// no token\n\n x=12ab&\r\n\t@<=\n".toList).ending = .endOfSource := by
    decide +kernel
  obtain ⟨scanned, h⟩ : ∃ scanned,
      tokenize "// no token\n\n x=12ab&\r\n\t@<=\n" "main" = .ok scanned :=
    ⟨_, by simp only [tokenize, hend]; rfl⟩
  exact ⟨scanned, h, places_are_exact _ _ scanned h⟩

end Frontend

end BracketLang
