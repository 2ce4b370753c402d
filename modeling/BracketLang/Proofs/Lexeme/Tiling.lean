import BracketLang.Frontend
import BracketLang.Proofs.Lexeme.Scanning

/-! Nothing of a text is lost or read twice. `Tiles` says that a text is made of pieces, in order,
with layout before, between and behind them; a scan that reaches the end of a text gives pieces that
tile it (`Scan.tiles_run`). So each piece is a slice of the text, no two of them overlap, and the
tokens and errors come in the order of their places. -/

namespace BracketLang

namespace Piece

/-- The text of a piece. -/
def lexeme : Piece → String
  | token t => t.lexeme
  | error e => e.lexeme

def location : Piece → Location
  | token t => t.location
  | error e => e.location

theorem location_of_token? {a : Piece} (h : a.token? = some t) : t.location = a.location := by
  cases a <;> cases h
  rfl

theorem location_of_error? {a : Piece} (h : a.error? = some e) : e.location = a.location := by
  cases a <;> cases h
  rfl

end Piece

/-- The text `cs`, which begins at `p`, is made of the pieces, none of them empty, and of layout. -/
inductive Tiles (file : String) : (p : Position) → List Piece → (cs : List Char) → Prop
  | nil (hg : Layout.Stretch g []) : Tiles file p [] g
  | cons (hg : Layout.Stretch g (piece.lexeme.toList ++ cs)) (hne : piece.lexeme ≠ "")
    (hlocation : piece.location = (p.after g).location file)
    (h : Tiles file ((p.after g).after piece.lexeme.toList) pieces cs) :
    Tiles file p (piece :: pieces) (g ++ (piece.lexeme.toList ++ cs))

theorem Lexeme.lexeme_of_piece? {l : Lexeme} (h : l.piece? location = some piece) :
    piece.lexeme = String.ofList l.text ∧ piece.location = location := by
  unfold piece? at h
  split at h <;> cases h <;> exact ⟨rfl, rfl⟩

/-- The pieces of a scan that reaches the end tile the text, and the scan stops behind it. -/
theorem Scan.tiles_run (file : String) (p : Position) (cs : List Char)
    (h : (run file p cs).ending = .endOfSource) :
    Tiles file p (run file p cs).pieces cs ∧ (run file p cs).stop = p.after cs := by
  revert h
  refine run_induction (motive := fun p cs scan => scan.ending = .endOfSource →
    Tiles file p scan.pieces cs ∧ scan.stop = p.after cs) file ?_ ?_ ?_ p cs
  · rintro p cs g hlayout -
    obtain ⟨hg, rfl⟩ := Layout.stretch_of_split hlayout
    rw [List.append_nil]
    exact ⟨.nil hg, rfl⟩
  · intro p cs g c rest l rest' _ _ _ h
    cases h
  · intro p cs g c rest l rest' piece scan hlayout hlexeme hpiece ih h
    obtain ⟨hg, rfl⟩ := Layout.stretch_of_split hlayout
    obtain ⟨htext, hlocation⟩ := Lexeme.lexeme_of_piece? hpiece
    obtain ⟨htiles, hstop⟩ := ih h
    obtain ⟨hne, happend⟩ := Lexeme.split_ne_nil hlexeme
    have htoList : piece.lexeme.toList = l.text := by rw [htext, String.toList_ofList]
    rw [← htoList] at hne happend htiles hstop
    rw [← happend] at hg ⊢
    refine ⟨.cons hg (fun h => hne (by rw [h]; rfl)) hlocation htiles, ?_⟩
    rw [hstop, Position.after_append, Position.after_append]

namespace Tiles

/-- A piece stands in the text where its location says. -/
theorem exists_eq_append (h : Tiles file p pieces cs) (ha : a ∈ pieces) :
    a.lexeme ≠ "" ∧ ∃ ds ds', cs = ds ++ (a.lexeme.toList ++ ds') ∧
      a.location = (p.after ds).location file := by
  induction h with
  | nil => cases ha
  | @cons g cs pieces p piece hg hne hlocation h ih =>
    rcases List.mem_cons.mp ha with rfl | ha
    · exact ⟨hne, g, cs, rfl, hlocation⟩
    · obtain ⟨hne', ds, ds', rfl, hds⟩ := ih ha
      refine ⟨hne', g ++ (piece.lexeme.toList ++ ds), ds', by simp, ?_⟩
      rw [hds, Position.after_append, Position.after_append]

theorem le_offset (h : Tiles file p pieces cs) (ha : a ∈ pieces) :
    p.offset ≤ a.location.offset := by
  obtain ⟨-, ds, -, -, hlocation⟩ := h.exists_eq_append ha
  simp only [hlocation, Position.location, Position.offset_after]
  omega

theorem offset_lt (h : Tiles file p pieces cs) (ha : a ∈ pieces) :
    a.location.offset < (p.after cs).offset := by
  obtain ⟨hne, ds, ds', rfl, hlocation⟩ := h.exists_eq_append ha
  have hpos := mt String.length_eq_zero_iff.mp hne
  simp only [hlocation, Position.location, Position.offset_after, List.length_append,
    String.length_toList]
  omega

/-- The pieces come in the order of their places, and no two of them overlap. -/
theorem pairwise (h : Tiles file p pieces cs) :
    pieces.Pairwise fun a b => a.location.offset + (a.lexeme.length : Int) ≤ b.location.offset := by
  induction h with
  | nil => exact .nil
  | @cons g cs pieces p piece _ _ hlocation h ih =>
    refine .cons (fun b hb => ?_) ih
    have hle := h.le_offset hb
    simp only [Position.offset_after, String.length_toList] at hle
    simp only [hlocation, Position.location, Position.offset_after]
    omega

theorem pairwise_offset (h : Tiles file p pieces cs) :
    pieces.Pairwise fun a b => a.location.offset < b.location.offset := by
  refine h.pairwise.imp_of_mem fun ha _ hle => ?_
  have hne := mt String.length_eq_zero_iff.mp (h.exists_eq_append ha).1
  omega

/-- What comes of the pieces and keeps their places comes in the order of the text. -/
theorem pairwise_filterMap {f : Piece → Option β} {place : β → Location}
    (h : Tiles file p pieces cs) (hf : ∀ a b, f a = some b → place b = a.location) :
    (pieces.filterMap f).Pairwise fun b b' => (place b).offset < (place b').offset := by
  refine h.pairwise_offset.filterMap f fun a a' hlt b hb b' hb' => ?_
  rwa [hf a b hb, hf a' b' hb']

end Tiles

/-- The scan makes no end of file of any text. -/
theorem Scan.ne_eof_of_mem_run (file : String) (p : Position) (cs : List Char) :
    ∀ t ∈ (run file p cs).pieces.filterMap Piece.token?, t.kind ≠ .eof := by
  refine run_induction (motive := fun _ _ scan =>
    ∀ t ∈ scan.pieces.filterMap Piece.token?, t.kind ≠ .eof) file ?_ ?_ ?_ p cs
  · intro p cs g _ t ht
    cases ht
  · intro p cs g c rest l rest' _ _ _ t ht
    cases ht
  · intro p cs g c rest l rest' piece scan _ hlexeme hpiece ih t ht
    unfold Lexeme.piece? at hpiece
    split at hpiece
    · next hkind =>
      cases hpiece
      rcases List.mem_cons.mp ht with rfl | ht
      · exact Lexeme.ne_eof_of_split (by rw [hlexeme]; exact hkind)
      · exact ih t ht
    · cases hpiece
      exact ih t ht
    · cases hpiece

/-! ## The tokens and errors of a text -/

/-- The pieces of a text and what was made of them. -/
structure Covering (source file : String) (pieces : List Piece) (scanned : Staged (List Token)) :
    Prop where
  /-- The text is made of the pieces and of layout. -/
  tiles : Tiles file .start pieces source.toList
  /-- Each piece is a slice of the text, and not an empty one. -/
  slices : ∀ a ∈ pieces, a.lexeme ≠ "" ∧ ∃ o : Nat, a.location.offset = o ∧
    (source.toList.drop o).take a.lexeme.length = a.lexeme.toList
  /-- No piece begins before the one in front of it ends. -/
  disjoint : pieces.Pairwise fun a b =>
    a.location.offset + (a.lexeme.length : Int) ≤ b.location.offset
  /-- The tokens are those among the pieces, and one end of file at the end of the text. -/
  tokens : ∃ eof : Token, scanned.result = pieces.filterMap Piece.token? ++ [eof] ∧
    eof.kind = .eof ∧ eof.location.offset = (source.length : Int)
  ne_eof : ∀ t ∈ pieces.filterMap Piece.token?, t.kind ≠ .eof
  tokens_ordered : scanned.result.Pairwise fun t u => t.location.offset < u.location.offset
  /-- The errors are those among the pieces. -/
  errors : scanned.faults = (pieces.filterMap Piece.error?).map .lexical
  errors_ordered : (pieces.filterMap Piece.error?).Pairwise fun d e =>
    d.location.offset < e.location.offset

theorem Tiles.slice (h : Tiles file .start pieces cs) (ha : a ∈ pieces) :
    a.lexeme ≠ "" ∧ ∃ o : Nat, a.location.offset = o ∧
      (cs.drop o).take a.lexeme.length = a.lexeme.toList := by
  obtain ⟨hne, ds, ds', rfl, hlocation⟩ := h.exists_eq_append ha
  refine ⟨hne, ds.length, ?_, ?_⟩
  · simp [hlocation, Position.location, Position.offset_after, Position.start]
  · rw [List.drop_left, ← String.length_toList, List.take_left]

namespace Frontend

/-- Every character of a text is read exactly once. -/
theorem covering_of_tokenize (source file : String) (scanned : Staged (List Token))
    (h : tokenize source file = .ok scanned) : ∃ pieces, Covering source file pieces scanned := by
  simp only [tokenize] at h
  split at h
  · cases h
  next hend =>
  cases h
  obtain ⟨htiles, hstop⟩ := Scan.tiles_run file .start source.toList hend
  have hoffset : (Position.start.after source.toList).offset = source.length := by
    rw [Position.offset_after, String.length_toList]
    exact Nat.zero_add _
  have hresult : (Scan.ofSource file source.toList).tokens file =
      (Scan.ofSource file source.toList).pieces.filterMap Piece.token? ++
        [Token.eofAt ((Position.start.after source.toList).location file)] := by
    rw [← hstop]
    simp only [Scan.tokens, hend]
    rfl
  refine ⟨(Scan.ofSource file source.toList).pieces, htiles, fun a => htiles.slice,
    htiles.pairwise, ⟨_, hresult, rfl, congrArg _ hoffset⟩,
    Scan.ne_eof_of_mem_run file .start source.toList, ?_, rfl,
    htiles.pairwise_filterMap fun _ _ => Piece.location_of_error?⟩
  rw [hresult, List.pairwise_append]
  refine ⟨htiles.pairwise_filterMap fun _ _ => Piece.location_of_token?,
    List.pairwise_singleton .., ?_⟩
  intro t ht u hu
  obtain ⟨a, ha, hat⟩ := List.mem_filterMap.mp ht
  rw [List.mem_singleton.mp hu, Piece.location_of_token? hat]
  exact htiles.offset_lt ha

/-- Comments, blanks, a number with letters in it, and halves of operators. -/
theorem covering_mixed :
    ∃ scanned pieces, tokenize "x=-1//y\n\t12ab&||/ //" "main" = .ok scanned ∧
      Covering "x=-1//y\n\t12ab&||/ //" "main" pieces scanned := by
  have hend : (Scan.ofSource "main" "x=-1//y\n\t12ab&||/ //".toList).ending = .endOfSource := by
    decide +kernel
  obtain ⟨scanned, h⟩ : ∃ scanned, tokenize "x=-1//y\n\t12ab&||/ //" "main" = .ok scanned :=
    ⟨_, by simp only [tokenize, hend]; rfl⟩
  obtain ⟨pieces, hcovering⟩ := covering_of_tokenize _ _ scanned h
  exact ⟨scanned, pieces, h, hcovering⟩

end Frontend

end BracketLang
