import BracketLang.Lexeme.Scanner
import BracketLang.Proofs.Lexeme.LongestMatch
import BracketLang.Proofs.Lexeme.Surroundings

/-! Numbers too long to read. `Decomposes` cuts a text into layout and longest matches with no
regard to how it is scanned, and there is one way to cut it (`decomposes_iff`). The first piece of
more than `Lexeme.digitLimit` digits stops a scan, and nothing else does; what the scan has found by
then is what it finds in the text in front of that piece (`Scan.run_before_overlong`). -/

namespace BracketLang

theorem Longest.unique (h : Longest P w cs) (h' : Longest P w' cs) : w = w' := by
  have hle := h.length_le w' h'.starts h'.holds
  have hle' := h'.length_le w h.starts h.holds
  exact (List.prefix_of_prefix_length_le h.starts h'.starts hle').eq_of_length
    (Nat.le_antisymm hle' hle)

/-! ## Longest texts -/

namespace Lexeme

/-- What a lexeme looks like: letters, digits and `_`, or an operator. -/
def Matches (w : List Char) : Prop := w ≠ [] ∧ IsRun w ∨ IsOperator w

/-- The text that is read at the beginning of another: the longest that looks like a lexeme, or a
single character if none does. -/
inductive LongestText : (w cs : List Char) → Prop
  | lexeme (hw : Longest Matches w cs) : LongestText w cs
  | stray (h : ∀ w, Matches w → ¬ w <+: c :: cs) : LongestText [c] (c :: cs)

theorem LongestText.unique (h : LongestText w cs) (h' : LongestText w' cs) : w = w' := by
  cases h with
  | lexeme hw =>
    cases h' with
    | lexeme hw' => exact hw.unique hw'
    | stray hnone => exact absurd hw.starts (hnone w hw.holds)
  | stray hnone =>
    cases h' with
    | lexeme hw' => exact absurd hw'.starts (hnone w' hw'.holds)
    | stray => rfl

theorem isWordChar_iff : isWordChar c ↔ c.isDigit ∨ isWordStart c := by
  simp only [isWordChar, isWordStart, Char.isAlphanum, Bool.or_eq_true, decide_eq_true_eq]
  rw [or_comm (b := c.isDigit = true), or_assoc]

theorem not_isWordChar_of_isOperator (h : IsOperator w) (hc : c ∈ w) : ¬ isWordChar c := by
  obtain ⟨k, hk, rfl⟩ := h
  obtain ⟨hdigit, hstart, -⟩ := isSymbol_of_mem_operators hk hc
  simp [isWordChar_iff, hdigit, hstart]

theorem IsOperator.head_mem (h : IsOperator w) (hw : w <+: c :: cs) : c ∈ w := by
  rcases h.eq_pair_or_single hw with rfl | ⟨d, cs', -, rfl⟩ <;> exact List.mem_cons_self

theorem head_mem_of_starts (hne : w ≠ []) (hw : w <+: c :: cs) : c ∈ w := by
  obtain ⟨d, ds, rfl⟩ := List.exists_cons_of_ne_nil hne
  rw [(List.cons_prefix_cons.mp hw).1]
  exact List.mem_cons_self

/-- No operator begins as a run does. -/
theorem longest_matches_of_run (hc : isWordChar c) (hw : Longest IsRun w (c :: cs)) :
    Longest Matches w (c :: cs) where
  starts := hw.starts
  holds := by
    refine .inl ⟨?_, hw.holds⟩
    rintro rfl
    have hle := hw.length_le [c] ⟨cs, rfl⟩ (List.forall_mem_singleton.mpr hc)
    exact absurd hle (by simp)
  length_le v hv hmatches := by
    rcases hmatches with ⟨-, hrun⟩ | hop
    · exact hw.length_le v hv hrun
    · exact absurd hc (not_isWordChar_of_isOperator hop (hop.head_mem hv))

section
variable (hdigit : ¬ c.isDigit) (hstart : ¬ isWordStart c)
include hdigit hstart

/-- Nor does a run begin as an operator does. -/
theorem isOperator_of_matches (h : Matches w) (hw : w <+: c :: cs) : IsOperator w := by
  rcases h with ⟨hne, hrun⟩ | hop
  · rcases isWordChar_iff.mp (hrun c (head_mem_of_starts hne hw)) with hc | hc
    · exact absurd hc hdigit
    · exact absurd hc hstart
  · exact hop

theorem longest_matches_of_operator (hw : Longest IsOperator w (c :: cs)) :
    Longest Matches w (c :: cs) where
  starts := hw.starts
  holds := .inr hw.holds
  length_le v hv h := hw.length_le v hv (isOperator_of_matches hdigit hstart h hv)

end

end Lexeme

open Lexeme

theorem LongestMatch.longestText (h : LongestMatch cs a) : LongestText a.lexeme.toList cs := by
  have run {c : Char} {w cs : List Char} (hc : c.isDigit ∨ isWordStart c)
      (hw : Longest IsRun w (c :: cs)) : LongestText w (c :: cs) :=
    .lexeme (longest_matches_of_run (isWordChar_iff.mpr hc) hw)
  cases h with
  | integer hc hw => simpa [Piece.lexeme] using run (.inl hc) hw
  | overflow hc hw _ _ hlexeme | malformed hc hw _ hlexeme =>
    simpa [Piece.lexeme, hlexeme] using run (.inl hc) hw
  | keyword hc hw | identifier hc hw => simpa [Piece.lexeme] using run (.inr hc) hw
  | operator hdigit hstart hw =>
    simpa [Piece.lexeme] using
      LongestText.lexeme (longest_matches_of_operator hdigit hstart hw)
  | stray hdigit hstart hoperators hlexeme =>
    simpa [Piece.lexeme, hlexeme] using LongestText.stray fun w hmatches hw =>
      hoperators w (isOperator_of_matches hdigit hstart hmatches hw) hw

/-- A lexeme is the longest text, also if it cannot be read. -/
theorem Lexeme.longestText_of_split (h : split c cs = (l, rest)) :
    LongestText l.text (c :: cs) := by
  let place := Position.start.location ""
  cases hpiece : l.piece? place with
  | some a =>
    have hmatch := (longestMatch_of_split h hpiece).longestText
    rwa [(lexeme_of_piece? hpiece).1, String.toList_ofList] at hmatch
  | none =>
    have hnone : Scan.pieceAt? "" (.start, l) = none := hpiece
    have hdigit := isDigit_of_tooManyDigits h (Scan.pieceAt?_eq_none_iff.mp hnone)
    have hc := isWordChar_of_isDigit hdigit
    rw [split, if_pos hdigit] at h
    cases h
    exact .lexeme (longest_matches_of_run hc (longest_run hc cs))

/-! ## Decompositions -/

/-- The text `cs`, which stands at offset `o`, is made of these pieces and of layout: each piece
comes behind all the layout in front of it and is the longest text there. -/
inductive Decomposes : (o : Nat) → (cs : List Char) → List (Nat × List Char) → Prop
  | nil (hg : Layout.Stretch g []) : Decomposes o g []
  | cons (hg : Layout.Stretch g (w ++ rest)) (hblank : ∀ c ∈ (w ++ rest).head?, ¬ Layout.isBlank c)
    (hcomment : ∀ cs, w ++ rest ≠ '/' :: '/' :: cs) (hw : LongestText w (w ++ rest))
    (h : Decomposes (o + g.length + w.length) rest ps) :
    Decomposes o (g ++ (w ++ rest)) ((o + g.length, w) :: ps)

/-- A run is a piece in front of what does not continue it. -/
theorem Decomposes.run (hg : Layout.Stretch g (w ++ rest)) (hne : w ≠ []) (hw : IsRun w)
    (hrest : ∀ d ∈ rest.head?, isWordChar d = false)
    (h : Decomposes (o + g.length + w.length) rest ps) :
    Decomposes o (g ++ (w ++ rest)) ((o + g.length, w) :: ps) := by
  obtain ⟨c, cs, rfl⟩ := List.exists_cons_of_ne_nil hne
  have hc := hw c List.mem_cons_self
  have hlayout := layout_split_of_isWordChar hc (cs ++ rest)
  refine .cons hg ?_ ?_ ?_ h
  · rintro _ ⟨⟩
    exact Layout.not_isBlank_of_split hlayout
  · intro ds hds
    refine Layout.split_ne_comment false (c :: (cs ++ rest)) ds ?_
    rw [hlayout]
    exact hds
  · have hrun := longest_run hc (cs ++ rest)
    rw [(takeWhile_append_of_stop (fun d hd => hw d (List.mem_cons_of_mem c hd)) hrest).1] at hrun
    exact .lexeme (longest_matches_of_run hc hrun)

/-- Where a lexeme begins, and its text. -/
def Lexeme.extent (q : Position × Lexeme) : Nat × List Char := (q.1.offset, q.2.text)

theorem decomposes_all (p : Position) (cs : List Char) :
    Decomposes p.offset cs ((Lexeme.all p cs).map Lexeme.extent) := by
  fun_induction Lexeme.all p cs with
  | case1 p cs layout h =>
    have hlayout : Layout.split false cs = (layout.1, []) := Prod.ext rfl h
    obtain ⟨hg, hcs⟩ := Layout.stretch_of_split hlayout
    rw [hcs, List.append_nil]
    exact .nil hg
  | case2 p cs layout start c rest h lexeme ih =>
    have hlayout : Layout.split false cs = (layout.1, c :: rest) := Prod.ext rfl h
    obtain ⟨hg, hcs⟩ := Layout.stretch_of_split hlayout
    have happend : lexeme.1.text ++ lexeme.2 = c :: rest := split_append c rest
    rw [hcs, ← happend, List.map_cons, extent]
    have hstart : start.offset = p.offset + layout.1.length := Position.offset_after ..
    have hnext : (start.after lexeme.1.text).offset =
        p.offset + layout.1.length + lexeme.1.text.length := by
      rw [Position.offset_after, hstart]
    rw [hnext] at ih
    rw [hstart]
    refine .cons (by rwa [happend]) ?_ ?_ ?_ ih
    · rw [happend]
      rintro d ⟨⟩
      exact Layout.not_isBlank_of_split hlayout
    · rw [happend]
      intro ds
      have hne := Layout.split_ne_comment false cs ds
      rwa [hlayout] at hne
    · rw [happend]
      exact longestText_of_split rfl

theorem Decomposes.eq_all (h : Decomposes o cs ps) (hp : p.offset = o) :
    ps = (Lexeme.all p cs).map Lexeme.extent := by
  induction h generalizing p with
  | nil hg =>
    have hlayout := hg.split_append rfl
    rw [List.append_nil] at hlayout
    rw [all_of_end hlayout]
    rfl
  | @cons g w rest o ps hg hblank hcomment hw _ ih =>
    have hne : w ++ rest ≠ [] := by
      intro hnil
      rw [hnil] at hw
      cases hw with
      | lexeme hw =>
        rcases hw.holds with ⟨hw', -⟩ | ⟨k, hk, rfl⟩
        · exact hw' (List.prefix_nil.mp hw.starts)
        · rcases spelling_of_mem_operators hk with ⟨d, hd⟩ | ⟨d, d', hd⟩ <;>
            simp [hd] at hnil
    obtain ⟨c, cs, hcs⟩ := List.exists_cons_of_ne_nil hne
    rw [hcs] at hg hblank hcomment hw ⊢
    have hlayout := hg.split_append (Layout.split_eq_nil (hblank c rfl) hcomment)
    obtain ⟨l, rest', hsplit⟩ : ∃ l rest', split c cs = (l, rest') := ⟨_, _, rfl⟩
    obtain rfl := hw.unique (longestText_of_split hsplit)
    obtain rfl : rest = rest' :=
      List.append_cancel_left (hcs.trans (split_ne_nil hsplit).2.symm)
    have hstart : (p.after g).offset = o + g.length := by rw [Position.offset_after, hp]
    rw [all_of_lexeme hlayout hsplit, List.map_cons, extent, hstart,
      ih (by rw [Position.offset_after, hstart])]

/-- Every text is decomposed in one way: into its lexemes. -/
theorem decomposes_iff :
    Decomposes p.offset cs ps ↔ ps = (Lexeme.all p cs).map Lexeme.extent := by
  refine ⟨fun h => h.eq_all rfl, ?_⟩
  rintro rfl
  exact decomposes_all p cs

/-! ## In front of a number too long -/

/-- The scan of the text in front of the first number that is too long finds the same pieces, and
comes to its end. -/
theorem Scan.run_before_overlong (file : String) (p : Position) (cs : List Char)
    (hq : (Lexeme.all p cs).find? (·.2.kind = .tooManyDigits) = some q) :
    ∃ ds rest, cs = ds ++ (q.2.text ++ rest) ∧ q.1 = p.after ds ∧
      (run file p cs).stop = q.1.after q.2.text ∧
      run file p ds = ⟨(run file p cs).pieces, .endOfSource, q.1⟩ := by
  refine run_induction (motive := fun p cs scan =>
    (Lexeme.all p cs).find? (·.2.kind = .tooManyDigits) = some q →
      ∃ ds rest, cs = ds ++ (q.2.text ++ rest) ∧ q.1 = p.after ds ∧
        scan.stop = q.1.after q.2.text ∧
        run file p ds = ⟨scan.pieces, .endOfSource, q.1⟩) file ?_ ?_ ?_ p cs hq
  · intro p cs g hlayout hq
    rw [all_of_end hlayout] at hq
    cases hq
  · intro p cs g c rest l rest' hlayout hlexeme hpiece hq
    have hkind : l.kind = .tooManyDigits := (pieceAt?_eq_none_iff (q := (p.after g, l))).mp hpiece
    rw [all_of_lexeme hlayout hlexeme, List.find?_cons_of_pos (by simpa using hkind)] at hq
    cases hq
    obtain ⟨hg, hcs⟩ := Layout.stretch_of_split hlayout
    -- a comment that ends in front of the number ends in front of nothing as well
    have hend : Layout.Stretch g [] := hg.mono fun _ d hd => by cases hd
    have hsplit := hend.split_append rfl
    rw [List.append_nil] at hsplit
    refine ⟨g, rest', ?_, rfl, rfl, ?_⟩
    · rw [(split_ne_nil hlexeme).2]
      exact hcs
    · rw [run_of_end (by rw [hsplit]), hsplit]
  · intro p cs g c rest l rest' piece scan hlayout hlexeme hpiece ih hq
    have hkind : l.kind ≠ .tooManyDigits := by
      intro h
      have hnone : pieceAt? file (p.after g, l) = none := pieceAt?_eq_none_iff.mpr h
      cases hnone.symm.trans hpiece
    rw [all_of_lexeme hlayout hlexeme, List.find?_cons_of_neg (by simpa using hkind)] at hq
    obtain ⟨ds, rest'', rfl, hplace, hstop, hrun⟩ := ih hq
    have hgap : AtGap [] := by simp [AtGap]
    have hreplaces := replaces_append ds (q.2.text ++ rest'') hgap
    rw [List.append_nil] at hreplaces
    refine ⟨g ++ (l.text ++ ds), rest'', ?_, ?_, hstop, ?_⟩
    · rw [(Layout.stretch_of_split hlayout).2, ← (split_ne_nil hlexeme).2]
      simp
    · rw [hplace, Position.after_append, Position.after_append]
    · rw [run_of_replaces hlayout hlexeme hreplaces hpiece, hrun]

/-- A piece of digits alone that has too many of them. -/
def Lexeme.Overlong (w : List Char) : Prop := (∀ c ∈ w, c.isDigit) ∧ digitLimit < w.length

instance (w : List Char) : Decidable (Lexeme.Overlong w) :=
  inferInstanceAs (Decidable (_ ∧ _))

theorem Lexeme.kind_eq_tooManyDigits_iff (hq : q ∈ all p cs) :
    q.2.kind = .tooManyDigits ↔ Overlong q.2.text := by
  obtain ⟨c, rest, rest', hsplit⟩ := exists_split_of_mem_all _ _ q hq
  exact tooManyDigits_iff hsplit

theorem find?_map_eq_map_find? {α β : Type} {f : α → β} {P : β → Bool} {Q : α → Bool} {l : List α}
    (h : ∀ a ∈ l, P (f a) = Q a) : (l.map f).find? P = (l.find? Q).map f := by
  induction l with
  | nil => rfl
  | cons a l ih =>
    obtain ⟨ha, hl⟩ := List.forall_mem_cons.mp h
    rw [List.map_cons, List.find?_cons, List.find?_cons, ha, ih hl]
    cases Q a <;> rfl

/-- The first piece that is too long is the first lexeme that cannot be read. -/
theorem Lexeme.find?_extent (p : Position) (cs : List Char) :
    ((all p cs).map extent).find? (fun q => Overlong q.2) =
      ((all p cs).find? (·.2.kind = .tooManyDigits)).map extent :=
  find?_map_eq_map_find? fun _ hq => decide_eq_decide.mpr (kind_eq_tooManyDigits_iff hq).symm

/-! ## The scanner -/

namespace Scanner

/-- Scanning the text of `s` fails behind the piece `w` at offset `o`, with what is found in the
text in front of it, except for the end of file. -/
structure StopsAt (s : Scanner) (o : Nat) (w : List Char) : Prop where
  failure : s.tokenize.1 = .error (.tooManyDigits w.length)
  offset : s.tokenize.2.position.offset = o + w.length
  position : s.tokenize.2.position = Position.start.after (s.source.take (o + w.length))
  kept : ∃ eof stop, eof.kind = .eof ∧ (s.withSource (s.source.take o)).tokenize =
    (.ok (s.tokenize.2.tokens ++ [eof]),
      ⟨s.file, s.source.take o, stop, s.tokenize.2.tokens ++ [eof], s.tokenize.2.errors⟩)

theorem tokenize_of_endOfSource {s : Scanner} {pieces : List Piece} {stop : Position}
    (h : Scan.ofSource s.file s.source = ⟨pieces, .endOfSource, stop⟩) :
    s.tokenize = (.ok (pieces.filterMap Piece.token? ++ [.eofAt (stop.location s.file)]),
      ⟨s.file, s.source, stop,
        pieces.filterMap Piece.token? ++ [.eofAt (stop.location s.file)],
        pieces.filterMap Piece.error?⟩) := by
  simp only [tokenize, h]
  rfl

theorem tokenize_of_tooManyDigits {s : Scanner} {pieces : List Piece} {stop : Position}
    (h : Scan.ofSource s.file s.source = ⟨pieces, .tooManyDigits n, stop⟩) :
    s.tokenize = (.error (.tooManyDigits n), ⟨s.file, s.source, stop,
      pieces.filterMap Piece.token?, pieces.filterMap Piece.error?⟩) := by
  simp only [tokenize, h]
  simp [Scan.tokens, Scan.errors]

theorem stopsAt_of_find? {s : Scanner}
    (hq : (Lexeme.all .start s.source).find? (·.2.kind = .tooManyDigits) = some q) :
    s.StopsAt q.1.offset q.2.text := by
  obtain ⟨ds, rest, hsource, hplace, hstop, hrun⟩ := Scan.run_before_overlong s.file _ _ hq
  have hoffset : q.1.offset = ds.length := by
    rw [hplace, Position.offset_after]
    exact Nat.zero_add _
  have hscan : Scan.ofSource s.file s.source = ⟨(Scan.ofSource s.file s.source).pieces,
      .tooManyDigits q.2.text.length, q.1.after q.2.text⟩ := by
    have hending := Scan.ending_run s.file .start s.source
    rw [hq] at hending
    rw [← hstop]
    exact congrArg (Scan.mk _ · _) hending
  have htokenize := tokenize_of_tooManyDigits hscan
  have hcut := tokenize_of_endOfSource (s := s.withSource ds) hrun
  have htake : s.source.take q.1.offset = ds := by rw [hsource, hoffset, List.take_left]
  have htake' : s.source.take (q.1.offset + q.2.text.length) = ds ++ q.2.text := by
    rw [hsource, hoffset, ← List.length_append, ← List.append_assoc, List.take_left]
  refine ⟨?_, ?_, ?_, .eofAt (q.1.location s.file), q.1, rfl, ?_⟩
  · rw [htokenize]
  · rw [htokenize]
    exact Position.offset_after ..
  · rw [htokenize, htake', Position.after_append, ← hplace]
  · rw [htokenize, htake]
    exact hcut

/-- A text is decomposed in one way, and scanning it fails if and only if one of the pieces is a
number too long to read; it then stops behind the first of them. -/
theorem tokenize_fails_iff_overlong (s : Scanner) :
    ∃ pieces, (∀ ps, Decomposes 0 s.source ps ↔ ps = pieces) ∧
      ((∃ failure, s.tokenize.1 = .error failure) ↔ ∃ q ∈ pieces, Lexeme.Overlong q.2) ∧
      ∀ q, pieces.find? (fun q => Lexeme.Overlong q.2) = some q → s.StopsAt q.1 q.2 := by
  have hfind := Lexeme.find?_extent .start s.source
  refine ⟨(Lexeme.all .start s.source).map Lexeme.extent, fun ps => decomposes_iff (p := .start),
    ?_, fun q hq => ?_⟩
  · cases h : (Lexeme.all .start s.source).find? (·.2.kind = .tooManyDigits) with
    | none =>
      rw [h, Option.map_none, List.find?_eq_none] at hfind
      have hending := Scan.ending_run s.file .start s.source
      rw [h] at hending
      have htokenize := tokenize_of_endOfSource (s := s) (congrArg (Scan.mk _ · _) hending)
      constructor
      · rintro ⟨failure, hfailure⟩
        rw [htokenize] at hfailure
        cases hfailure
      · rintro ⟨q, hq, hlong⟩
        exact absurd (decide_eq_true hlong) (hfind q hq)
    | some q =>
      rw [h, Option.map_some] at hfind
      have hlong := List.find?_some hfind
      exact iff_of_true ⟨_, (stopsAt_of_find? h).failure⟩
        ⟨_, List.mem_of_find?_eq_some hfind, by simpa using hlong⟩
  · obtain ⟨r, hr, rfl⟩ := Option.map_eq_some_iff.mp (hfind.symm.trans hq)
    exact stopsAt_of_find? hr

/-- A comment, a name, and a digit too many. -/
theorem stopsAt_behind_name :
    (ofSource "main" ("// 1\nx ".toList ++ (List.replicate 4301 '9' ++ ['\n']))).StopsAt 7
      (List.replicate 4301 '9') := by
  have stops (ds : List Char) (hlong : Lexeme.Overlong ds) :
      (ofSource "main" ("// 1\nx ".toList ++ (ds ++ ['\n']))).StopsAt 7 ds := by
    have hne : ds ≠ [] := List.ne_nil_of_length_pos (Nat.zero_lt_of_lt hlong.2)
    have hnumber : Decomposes 6 (' ' :: (ds ++ ['\n'])) [(7, ds)] := by
      refine .run (g := [' ']) (.blank rfl .nil) hne ?_ ?_ (.nil (.blank rfl .nil))
      · exact fun d hd => Lexeme.isWordChar_of_isDigit (hlong.1 d hd)
      · rintro _ ⟨⟩
        rfl
    have hname : Decomposes 0 ("// 1\nx ".toList ++ (ds ++ ['\n'])) [(5, ['x']), (7, ds)] := by
      have hbody : '\n' ∉ [' ', '1'] := by simp
      refine .run (g := "// 1\n".toList) ?_ (List.cons_ne_nil 'x' []) ?_ ?_ hnumber
      · exact .comment hbody (Layout.atLineEnd_cons _) (.blank rfl .nil)
      · exact List.forall_mem_singleton.mpr rfl
      · rintro _ ⟨⟩
        rfl
    obtain ⟨pieces, hunique, -, hstops⟩ := tokenize_fails_iff_overlong
      (ofSource "main" ("// 1\nx ".toList ++ (ds ++ ['\n'])))
    obtain rfl := (hunique _).mp hname
    refine hstops (7, ds) ?_
    have hshort : ¬ Lexeme.Overlong ['x'] := fun h => absurd h.2 (by simp [Lexeme.digitLimit])
    simp [hshort, hlong]
  refine stops _ ⟨fun d hd => ?_, ?_⟩
  · rw [List.eq_of_mem_replicate hd]
    rfl
  · rw [List.length_replicate]
    exact Nat.lt_succ_self _

end Scanner

end BracketLang
