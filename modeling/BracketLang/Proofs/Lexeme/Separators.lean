import BracketLang.Proofs.Lexeme.Positions
import BracketLang.Proofs.Lexeme.Surroundings

/-! Layout put between the pieces of a text. A separator is layout that begins with a blank and
leaves no comment open. Where a piece begins or ends, and at the end of the text, a separator can be
put in, and the scan finds the same pieces, if at other places (`Scan.moved_insert`). -/

namespace BracketLang

namespace Layout

/-- Blanks and comments, each comment with the line break that ends it. -/
inductive Closed : List Char → Prop
  | nil : Closed []
  | blank (hc : isBlank c) (h : Closed g) : Closed (c :: g)
  | comment (body : List Char) (hbody : '\n' ∉ body) (h : Closed g) :
    Closed ('/' :: '/' :: (body ++ '\n' :: g))

/-- A blank, then more blanks and whole comments. -/
inductive IsSeparator : List Char → Prop
  | intro (hc : isBlank c) (h : Closed g) : IsSeparator (c :: g)

theorem Closed.stretch (h : Closed g) (rest : List Char) : Stretch g rest := by
  induction h with
  | nil => exact .nil
  | blank hc _ ih => exact .blank hc ih
  | comment _ hbody _ ih => exact .comment hbody (atLineEnd_cons _) (.blank rfl ih)

/-- Closed layout is skipped to its end, also behind a comment that was left open. -/
theorem Closed.split_snd (h : Closed g) (inComment : Bool) : (split inComment g).2 = [] := by
  induction h generalizing inComment with
  | nil => cases inComment <;> rfl
  | blank hc _ ih =>
    cases inComment with
    | false => rw [split_blank hc]; exact ih false
    | true => simp [split, ih]
  | @comment g body hbody _ ih =>
    have hline := split_true_of_atLineEnd (atLineEnd_cons g)
    cases inComment with
    | false =>
      rw [split_comment hbody (atLineEnd_cons g), split_blank rfl]
      exact ih false
    | true =>
      have hslashes : '\n' ∉ '/' :: '/' :: body := by simpa using hbody
      have happend := split_true_append hslashes ('\n' :: g)
      rw [List.cons_append, List.cons_append] at happend
      rw [happend, hline, split_blank rfl]
      exact ih false

theorem split_append_closed (inComment : Bool) (cs : List Char) (hg : Closed g)
    (h : (split inComment cs).2 = []) : (split inComment (cs ++ g)).2 = [] := by
  fun_induction split inComment cs with
  | case1 inComment => exact hg.split_snd inComment
  | case2 c cs skipped rest heq ih => simpa [split] using ih (by simpa [heq] using h)
  | case3 cs skipped rest heq ih => simpa [split] using ih (by simpa [heq] using h)
  | case4 c cs hcomment hblank skipped rest heq ih =>
    rw [List.cons_append, split_blank hblank]
    exact ih (by simpa [heq] using h)
  | case5 c cs hcomment hblank => cases h

theorem Closed.blanks_append (h : Closed g) (hw : ∀ c ∈ w, isBlank c) : Closed (w ++ g) := by
  induction w with
  | nil => exact h
  | cons c w ih =>
    rw [List.forall_mem_cons] at hw
    exact .blank hw.1 (ih hw.2)

/-- Blanks are a separator, alone or with comments behind them. -/
theorem isSeparator_append (hne : w ≠ []) (hw : ∀ c ∈ w, isBlank c) (h : Closed g) :
    IsSeparator (w ++ g) := by
  obtain ⟨c, w, rfl⟩ := List.exists_cons_of_ne_nil hne
  rw [List.forall_mem_cons] at hw
  exact .intro hw.1 (h.blanks_append hw.2)

theorem IsSeparator.closed (h : IsSeparator g) : Closed g := by
  cases h with
  | intro hc h => exact .blank hc h

theorem IsSeparator.atGap (h : IsSeparator g) (cs : List Char) : AtGap (g ++ cs) := by
  cases h with
  | intro hc h =>
    intro d hd
    rwa [← Option.some.inj hd]

end Layout

/-! ## The scan of a text with a separator put in -/

/-- The piece begins or ends at this offset. -/
def Piece.HasEdge (a : Piece) (offset : Nat) : Prop :=
  a.location.offset = offset ∨ a.location.offset + (a.lexeme.length : Int) = offset

instance (a : Piece) (offset : Nat) : Decidable (a.HasEdge offset) :=
  inferInstanceAs (Decidable (_ ∨ _))

/-- A cut that does not come before the end of the first piece leaves that piece whole. -/
theorem exists_behind {g t rest a b : List Char} (h : g ++ (t ++ rest) = a ++ b)
    (hle : g.length + t.length ≤ a.length) : ∃ a', a = g ++ (t ++ a') ∧ rest = a' ++ b := by
  rw [← List.append_assoc] at h
  rcases List.append_eq_append_iff.mp h with ⟨a', rfl, rfl⟩ | ⟨c', hc', rfl⟩
  · exact ⟨a', by simp, rfl⟩
  · have hlength := congrArg List.length hc'
    simp only [List.length_append] at hlength
    obtain rfl : c' = [] := List.length_eq_zero_iff.mp (by omega)
    exact ⟨[], by simpa using hc'.symm, rfl⟩

/-- The text from `p` on can be cut between `a` and `b` without cutting one of the pieces. -/
def AtSeam (pieces : List Piece) (p : Position) (a b : List Char) : Prop :=
  a = [] ∨ b = [] ∨ ∃ x ∈ pieces, x.HasEdge (p.offset + a.length)

/-- A cut in a text lies in front of its first piece, or at a seam of what is behind that piece. -/
theorem AtSeam.cases_cons (h : AtSeam (piece :: pieces) p a b) (hab : g ++ (t ++ rest) = a ++ b)
    (hlexeme : piece.lexeme = String.ofList t)
    (hlocation : piece.location = (p.after g).location file)
    (htiles : Tiles file ((p.after g).after t) pieces rest) :
    a = [] ∨ a = g ∨ ∃ a', a = g ++ (t ++ a') ∧ rest = a' ++ b ∧
      AtSeam pieces ((p.after g).after t) a' b := by
  have hoffset : ((p.after g).after t).offset = p.offset + (g.length + t.length) := by
    simp only [Position.offset_after]
    omega
  rcases h with h | rfl | ⟨x, hx, hx'⟩
  · exact .inl h
  · rw [List.append_nil] at hab
    exact .inr (.inr ⟨rest, hab.symm, (List.append_nil rest).symm, .inr (.inl rfl)⟩)
  rcases List.mem_cons.mp hx with rfl | hx
  · simp only [Piece.HasEdge, hlexeme, hlocation, Position.location, Position.offset_after,
      String.length_ofList] at hx'
    rcases hx' with hx' | hx'
    · exact .inr (.inl (List.append_inj hab (by omega)).1.symm)
    · obtain ⟨a', rfl, rfl⟩ := exists_behind hab (by omega)
      simp only [List.length_append] at hx'
      refine .inr (.inr ⟨a', rfl, rfl, .inl (List.length_eq_zero_iff.mp (by omega))⟩)
  · have hle := htiles.le_offset hx
    rw [hoffset] at hle
    obtain ⟨a', rfl, rfl⟩ := exists_behind hab (by
      rcases hx' with hx' | hx' <;> omega)
    refine .inr (.inr ⟨a', rfl, rfl, .inr (.inr ⟨x, hx, ?_⟩)⟩)
    rw [Piece.HasEdge, hoffset]
    simpa [Piece.HasEdge, Nat.add_assoc] using hx'

namespace Scan

theorem moved_front (hg : Layout.Closed g) (file : String) (p p' : Position) (cs : List Char) :
    Moved file (fun _ _ => True) (run file p cs) (run file p' (g ++ cs)) := by
  rw [run_stretch (hg.stretch cs)]
  exact moved_run (fun _ _ _ _ => trivial) file cs trivial

/-- A separator put in at a seam changes no piece. -/
theorem moved_insert (hg : Layout.IsSeparator g) (file : String) (p : Position) (cs : List Char)
    (hend : (run file p cs).ending = .endOfSource) (hab : cs = a ++ b)
    (hseam : AtSeam (run file p cs).pieces p a b) (p' : Position) :
    Moved file (fun _ _ => True) (run file p cs) (run file p' (a ++ (g ++ b))) := by
  refine run_induction (motive := fun p cs _ => (run file p cs).ending = .endOfSource →
    ∀ a b, cs = a ++ b → AtSeam (run file p cs).pieces p a b → ∀ p',
      Moved file (fun _ _ => True) (run file p cs) (run file p' (a ++ (g ++ b))))
    file ?_ ?_ ?_ p cs hend a b hab hseam p'
  · rintro p cs g₀ hlayout - a b rfl hseam p'
    have hend : (Layout.split false (a ++ b)).2 = [] := by rw [hlayout]
    rw [run_of_end hend] at hseam
    rcases hseam with rfl | rfl | ⟨x, hx, -⟩
    · exact moved_front hg.closed ..
    · -- behind the last piece there may be an open comment
      rw [List.append_nil] at hend
      rw [List.append_nil, List.append_nil, run_of_end hend,
        run_of_end (Layout.split_append_closed false a hg.closed hend)]
      exact ⟨rfl, .nil⟩
    · cases hx
  · intro p cs g₀ c rest l rest' hlayout hlexeme hpiece hend
    rw [run_of_overlong hlayout hlexeme hpiece] at hend
    cases hend
  · rintro p cs g₀ c rest l rest' piece - hlayout hlexeme hpiece ih hend a b rfl hseam p'
    obtain ⟨hlexeme', hlocation⟩ := Lexeme.lexeme_of_piece? hpiece
    obtain ⟨hstretch, hab⟩ := Layout.stretch_of_split hlayout
    obtain ⟨-, htext⟩ := Lexeme.split_ne_nil hlexeme
    rw [run_of_piece hlayout hlexeme hpiece] at hend hseam
    have hcases := hseam.cases_cons (by rw [htext]; exact hab.symm) hlexeme' hlocation
      (tiles_run file _ rest' hend).1
    rcases hcases with rfl | rfl | ⟨a', rfl, rfl, hseam'⟩
    · exact moved_front hg.closed ..
    · obtain rfl := List.append_cancel_left hab
      -- the piece does not begin with a line break, so the layout in front of it is closed
      have hclosed : ¬ Layout.AtLineEnd (c :: rest) := by
        intro hline
        exact Layout.not_isBlank_of_split hlayout (by rw [hline c rfl]; rfl)
      rw [run_stretch hstretch, run_stretch (hstretch.mono fun h => absurd h hclosed)]
      exact moved_front hg.closed ..
    · have hrest := ih hend a' b rfl hseam' ((p'.after g₀).after l.text)
      have hmoved := Moved.cons hlayout hlexeme hpiece
        (Lexeme.replaces_append a' b (hg.atGap b)) trivial hrest
      rwa [← List.append_assoc l.text, ← List.append_assoc g₀ (l.text ++ a')] at hmoved

end Scan

/-! ## The pieces of a text in order -/

/-- The tokens and the errors of a text in the order of their offsets. -/
def byOffset (ts : List Token) (es : List LexicalError) : List Piece :=
  List.merge (ts.map .token) (es.map .error) fun a b => a.location.offset ≤ b.location.offset

theorem byOffset_cons_token (h : ∀ e ∈ es, t.location.offset ≤ e.location.offset) :
    byOffset (t :: ts) es = .token t :: byOffset ts es := by
  cases es with
  | nil => simp [byOffset]
  | cons e es =>
    have hle : (Piece.token t).location.offset ≤ (Piece.error e).location.offset :=
      h e List.mem_cons_self
    simp [byOffset, hle]

theorem byOffset_cons_error (h : ∀ t ∈ ts, e.location.offset < t.location.offset) :
    byOffset ts (e :: es) = .error e :: byOffset ts es := by
  cases ts with
  | nil => simp [byOffset]
  | cons t ts =>
    have hlt : ¬ (Piece.token t).location.offset ≤ (Piece.error e).location.offset :=
      Int.not_le.mpr (h t List.mem_cons_self)
    simp [byOffset, hlt]

/-- Pieces that come in order are found again from the tokens and the errors among them. -/
theorem byOffset_filterMap (pieces : List Piece)
    (h : pieces.Pairwise fun a b => a.location.offset < b.location.offset) :
    byOffset (pieces.filterMap Piece.token?) (pieces.filterMap Piece.error?) = pieces := by
  induction h with
  | nil => simp [byOffset]
  | @cons a pieces ha _ ih =>
    cases a with
    | token t =>
      change byOffset (t :: pieces.filterMap Piece.token?) (pieces.filterMap Piece.error?) = _
      rw [byOffset_cons_token, ih]
      intro e he
      obtain ⟨b, hb, hbe⟩ := List.mem_filterMap.mp he
      rw [Piece.location_of_error? hbe]
      exact Int.le_of_lt (ha b hb)
    | error e =>
      change byOffset (pieces.filterMap Piece.token?) (e :: pieces.filterMap Piece.error?) = _
      rw [byOffset_cons_error, ih]
      intro t ht
      obtain ⟨b, hb, hbt⟩ := List.mem_filterMap.mp ht
      rw [Piece.location_of_token? hbt]
      exact ha b hb

/-- A piece without its place. -/
def Piece.unplaced (a : Piece) : Piece := a.placed .origin

namespace Frontend

/-- The tokens and errors of a text, in order, are the pieces of its scan and the end of file. -/
theorem byOffset_of_tokenizes (h : Tokenizes source file ts es) :
    byOffset ts es = (Scan.ofSource file source.toList).pieces ++
      [.token (Token.eofAt ((Position.start.after source.toList).location file))] := by
  obtain ⟨hend, rfl, rfl⟩ := tokenizes_iff.mp h
  obtain ⟨htiles, -⟩ := Scan.tiles_run file .start source.toList hend
  have hpieces := byOffset_filterMap ((Scan.ofSource file source.toList).pieces ++
    [.token (Token.eofAt ((Position.start.after source.toList).location file))]) (by
      refine List.pairwise_append.mpr
        ⟨htiles.pairwise_offset, List.pairwise_singleton .., fun a ha b hb => ?_⟩
      rw [List.mem_singleton.mp hb]
      exact htiles.offset_lt ha)
  rw [List.filterMap_append, List.filterMap_append] at hpieces
  rw [← hpieces]
  exact congrArg _ (List.append_nil _).symm

theorem atSeam_of_hasEdge {a b : String} (h : Tokenizes (a ++ b) file ts es)
    (hx : x ∈ byOffset ts es) (hedge : x.HasEdge a.length) :
    AtSeam (Scan.ofSource file (a ++ b).toList).pieces .start a.toList b.toList := by
  rw [byOffset_of_tokenizes h, List.mem_append, List.mem_singleton] at hx
  rcases hx with hx | rfl
  · refine .inr (.inr ⟨x, hx, ?_⟩)
    rwa [String.length_toList, show Position.start.offset = 0 from rfl, Nat.zero_add]
  · -- the end of file has no text, so both of its edges are the end
    have heof : (Position.start.after (a ++ b).toList).offset = a.length + b.length := by
      rw [Position.offset_after, String.length_toList, String.length_append]
      exact Nat.zero_add _
    have hlength : a.length + b.length = a.length := by
      rw [← heof]
      rcases hedge with hedge | hedge <;> exact Int.ofNat.inj hedge
    exact .inr (.inl (by simpa using hlength))

/-- Layout put in where a token or error begins or ends, if it is a separator, changes neither the
tokens nor the errors, nor their order: only their places differ. -/
theorem separator_keeps_pieces (a b g file : String) (ts : List Token) (es : List LexicalError)
    (h : Tokenizes (a ++ b) file ts es) (hedge : ∃ x ∈ byOffset ts es, x.HasEdge a.length)
    (hg : Layout.IsSeparator g.toList) :
    ∃ ts' es', Tokenizes (a ++ g ++ b) file ts' es' ∧
      (byOffset ts' es').map Piece.unplaced = (byOffset ts es).map Piece.unplaced := by
  obtain ⟨hend, -, -⟩ := tokenizes_iff.mp h
  obtain ⟨x, hx, hedge⟩ := hedge
  have hmoved := Scan.moved_insert hg file .start (a ++ b).toList hend String.toList_append
    (atSeam_of_hasEdge h hx hedge) .start
  have happend : a.toList ++ (g.toList ++ b.toList) = (a ++ g ++ b).toList := by simp
  rw [happend] at hmoved
  have h' : Tokenizes (a ++ g ++ b) file _ _ :=
    tokenizes_iff.mpr ⟨hmoved.ending.trans hend, rfl, rfl⟩
  refine ⟨_, _, h', ?_⟩
  rw [byOffset_of_tokenizes h, byOffset_of_tokenizes h', List.map_append, List.map_append]
  exact congrArg (· ++ _) (hmoved.map_eq fun _ _ _ _ _ => Piece.placed_placed ..)

/-- Between a number with letters in it and half an operator. -/
theorem separator_keeps_halves :
    ∃ ts es ts' es', Tokenizes ("x=12ab" ++ "&|//y\n/") "main" ts es ∧
      (∃ x ∈ byOffset ts es, x.HasEdge 6) ∧ Layout.IsSeparator " \t//&\n".toList ∧
      Tokenizes ("x=12ab" ++ " \t//&\n" ++ "&|//y\n/") "main" ts' es' ∧
      (byOffset ts' es').map Piece.unplaced = (byOffset ts es).map Piece.unplaced := by
  have hend : (Scan.ofSource "main" ("x=12ab" ++ "&|//y\n/").toList).ending = .endOfSource := by
    decide +kernel
  obtain ⟨ts, es, h⟩ : ∃ ts es, Tokenizes ("x=12ab" ++ "&|//y\n/") "main" ts es :=
    ⟨_, _, tokenizes_iff.mpr ⟨hend, rfl, rfl⟩⟩
  have hedge : ∃ x ∈ (Scan.ofSource "main" ("x=12ab" ++ "&|//y\n/").toList).pieces,
      x.HasEdge 6 := by
    decide +kernel
  have hedge' : ∃ x ∈ byOffset ts es, x.HasEdge 6 := by
    obtain ⟨x, hx, hx'⟩ := hedge
    exact ⟨x, byOffset_of_tokenizes h ▸ List.mem_append_left _ hx, hx'⟩
  have hg : Layout.IsSeparator " \t//&\n".toList :=
    Layout.isSeparator_append (w := [' ', '\t']) (by decide) (List.all_eq_true.mp rfl)
      (.comment ['&'] (by decide) .nil)
  obtain ⟨ts', es', h', heq⟩ := separator_keeps_pieces _ _ _ _ _ _ h hedge' hg
  exact ⟨ts, es, ts', es', h, hedge', hg, h', heq⟩

end Frontend

end BracketLang
