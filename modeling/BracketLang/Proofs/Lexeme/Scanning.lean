import BracketLang.Lexeme.Scan

/-! Layout, stated without the scan, and one step of the scan. `Layout.Stretch g rest` says that
`g`, with `rest` behind it, is made of blank characters and of comments, each of which runs up to
the end of its line or of the text. What the scan skips is such a stretch, and a stretch in front
of a lexeme is skipped as a whole. -/

namespace BracketLang

namespace Layout

/-- `rest` begins with a line break, or is empty. -/
def AtLineEnd (rest : List Char) : Prop := ∀ c ∈ rest.head?, c = '\n'

theorem atLineEnd_cons (cs : List Char) : AtLineEnd ('\n' :: cs) :=
  fun _ hc => (Option.some.inj hc).symm

/-- Blank characters and comments. -/
inductive Stretch : (g rest : List Char) → Prop
  | nil : Stretch [] rest
  | blank (hc : isBlank c) (h : Stretch g rest) : Stretch (c :: g) rest
  | comment (hbody : '\n' ∉ body) (hend : AtLineEnd (g ++ rest)) (h : Stretch g rest) :
    Stretch ('/' :: '/' :: (body ++ g)) rest

theorem split_blank (hc : isBlank c) (cs : List Char) :
    split false (c :: cs) = (c :: (split false cs).1, (split false cs).2) := by
  have hne : c ≠ '/' := by rintro rfl; cases hc
  rw [split]
  · simp [hc]
  · intro cs' h
    exact fun _ => hne h

/-- What is neither blank nor a comment is no layout. -/
theorem split_eq_nil (hc : ¬ isBlank c) (hcs : ∀ cs', c :: cs ≠ '/' :: '/' :: cs') :
    split false (c :: cs) = ([], c :: cs) := by
  rw [split]
  · simp [hc]
  · rintro cs' rfl rfl
    exact hcs cs' rfl

theorem split_true_append (hbody : '\n' ∉ body) (cs : List Char) :
    split true (body ++ cs) = (body ++ (split true cs).1, (split true cs).2) := by
  induction body with
  | nil => rfl
  | cons c body ih =>
    rw [List.mem_cons, not_or] at hbody
    simp [split, bne_iff_ne.mpr (Ne.symm hbody.1), ih hbody.2]

/-- At the end of its line a comment is over. -/
theorem split_true_of_atLineEnd (h : AtLineEnd cs) : split true cs = split false cs := by
  cases cs with
  | nil => rfl
  | cons c cs =>
    obtain rfl : c = '\n' := h c rfl
    rw [split_blank rfl]
    simp [split]

theorem split_comment (hbody : '\n' ∉ body) (hcs : AtLineEnd cs) :
    split false ('/' :: '/' :: (body ++ cs)) =
      ('/' :: '/' :: (body ++ (split false cs).1), (split false cs).2) := by
  rw [split, split_true_append hbody, split_true_of_atLineEnd hcs]

/-- The rest of a line, and what comes behind it. -/
theorem exists_line (cs : List Char) :
    ∃ body cs', cs = body ++ cs' ∧ '\n' ∉ body ∧ AtLineEnd cs' := by
  induction cs with
  | nil => exact ⟨[], [], rfl, nofun, nofun⟩
  | cons c cs ih =>
    by_cases hc : c = '\n'
    · exact ⟨[], c :: cs, rfl, nofun, by simp [AtLineEnd, hc]⟩
    · obtain ⟨body, cs', rfl, hbody, hcs'⟩ := ih
      exact ⟨c :: body, cs', rfl, by simp [hbody, Ne.symm hc], hcs'⟩

/-- What is skipped is a stretch of layout. -/
theorem stretch_split (cs : List Char) : Stretch (split false cs).1 (split false cs).2 := by
  match cs with
  | [] => exact .nil
  | c :: cs =>
    by_cases hc : isBlank c
    · rw [split_blank hc]
      exact .blank hc (stretch_split cs)
    by_cases hcomment : ∃ cs', c :: cs = '/' :: '/' :: cs'
    · obtain ⟨cs', h⟩ := hcomment
      obtain ⟨body, cs'', rfl, hbody, hend⟩ := exists_line cs'
      rw [h, split_comment hbody hend]
      refine .comment hbody ?_ (stretch_split cs'')
      rwa [split_append]
    · rw [split_eq_nil hc fun cs' h => hcomment ⟨cs', h⟩]
      exact .nil
termination_by cs.length
decreasing_by
  · simp
  · have := congrArg List.length h
    simp at this ⊢
    omega

theorem stretch_of_split (h : split false cs = (g, rest)) : Stretch g rest ∧ cs = g ++ rest := by
  have hstretch := stretch_split cs
  have happend := split_append false cs
  rw [h] at hstretch happend
  exact ⟨hstretch, happend.symm⟩

/-- A stretch is skipped, and the layout behind it. -/
theorem Stretch.split_eq (h : Stretch g rest) :
    split false (g ++ rest) = (g ++ (split false rest).1, (split false rest).2) := by
  induction h with
  | nil => rfl
  | blank hc _ ih => rw [List.cons_append, split_blank hc, ih, List.cons_append]
  | comment hbody hend _ ih =>
    rw [List.cons_append, List.cons_append, List.append_assoc, split_comment hbody hend, ih]
    simp

/-- A stretch in front of something that is no layout is skipped as a whole. -/
theorem Stretch.split_append (h : Stretch g rest) (hrest : split false rest = ([], rest)) :
    split false (g ++ rest) = (g, rest) := by
  rw [h.split_eq, hrest, List.append_nil]

/-- Of what stands behind a stretch it matters only whether it ends a line. -/
theorem Stretch.mono (h : Stretch g rest) (hrest : AtLineEnd rest → AtLineEnd rest') :
    Stretch g rest' := by
  induction h with
  | nil => exact .nil
  | blank hc _ ih => exact .blank hc (ih hrest)
  | @comment body g rest hbody hend _ ih =>
    refine .comment hbody ?_ (ih hrest)
    cases g with
    | nil => exact hrest hend
    | cons d g => exact hend

/-- Behind layout there is no more of it. -/
theorem split_split (inComment : Bool) (cs : List Char) :
    split false (split inComment cs).2 = ([], (split inComment cs).2) := by
  fun_induction split inComment cs with
  | case1 => rfl
  | case2 c cs skipped rest h ih => simpa [h] using ih
  | case3 cs skipped rest h ih => simpa [h] using ih
  | case4 c cs hcomment hblank skipped rest h ih => simpa [h] using ih
  | case5 c cs hcomment hblank =>
    refine split_eq_nil hblank fun cs' h => ?_
    obtain ⟨rfl, rfl⟩ := List.cons.inj h
    exact hcomment cs' rfl rfl

theorem split_ne_comment (inComment : Bool) (cs cs' : List Char) :
    (split inComment cs).2 ≠ '/' :: '/' :: cs' := by
  intro h
  have hsplit := split_split inComment cs
  rw [h, split] at hsplit
  cases hsplit

theorem not_isBlank_of_split (h : split inComment cs = (g, c :: rest)) : ¬ isBlank c := by
  intro hc
  have hsplit := split_split inComment cs
  rw [h, split_blank hc] at hsplit
  cases hsplit

end Layout

namespace Lexeme

theorem split_ne_nil (h : split c cs = (l, rest)) : l.text ≠ [] ∧ l.text ++ rest = c :: cs := by
  have happend := split_append c cs
  have hlen := length_split_snd_le c cs
  rw [h] at happend hlen
  refine ⟨fun hnil => ?_, happend⟩
  rw [hnil, List.nil_append] at happend
  rw [happend, List.length_cons] at hlen
  omega

theorem ne_eof_of_wordClass (h : wordClass cs = .token k v) : k ≠ .eof := by
  have hall : ∀ k ∈ TokenKind.keywords, k ≠ .eof := by decide
  unfold wordClass at h
  split at h
  · simp [← (LexemeClass.token.inj h).1]
  · simp [← (LexemeClass.token.inj h).1]
  · next hk =>
    rw [← (LexemeClass.token.inj h).1]
    exact hall _ (List.mem_of_find?_eq_some hk)
  · simp [← (LexemeClass.token.inj h).1]

theorem ne_eof_of_ofOperator? (h : TokenKind.ofOperator? cs = some k) : k ≠ .eof := by
  have hall : ∀ k ∈ TokenKind.operators, k ≠ .eof := by decide
  exact hall k (List.mem_of_find?_eq_some h)

/-- No text is an end of file. -/
theorem ne_eof_of_split (h : (split c cs).1.kind = .token k v) : k ≠ .eof := by
  unfold split at h
  split at h
  · simp only [numberClass] at h
    split at h
    · cases h
    split at h
    · cases h
    split at h
    · cases h
    · simp [← (LexemeClass.token.inj h).1]
  split at h
  · exact ne_eof_of_wordClass h
  cases hpair : pairOperator? c cs with
  | some l =>
    cases cs with
    | nil => cases hpair
    | cons d cs =>
      obtain ⟨k', hk', rfl⟩ := Option.map_eq_some_iff.mp hpair
      rw [hpair] at h
      rw [← (LexemeClass.token.inj h).1]
      exact ne_eof_of_ofOperator? hk'
  | none =>
    simp only [hpair, Option.getD_none, singleClass] at h
    split at h
    · next hk =>
      rw [← (LexemeClass.token.inj h).1]
      exact ne_eof_of_ofOperator? hk
    · cases h

end Lexeme

namespace Scan

theorem run_of_end (h : (Layout.split false cs).2 = []) :
    run file p cs = ⟨[], .endOfSource, p.after (Layout.split false cs).1⟩ := by
  fun_cases run file p cs with
  | case1 => rfl
  | case2 _ _ c rest h' => exact absurd (h.symm.trans h') nofun
  | case3 _ _ c rest h' => exact absurd (h.symm.trans h') nofun

/-- One step of the scan: layout, a lexeme that makes a piece, and the scan behind it. -/
theorem run_of_piece (hlayout : Layout.split false cs = (g, c :: rest))
    (hlexeme : Lexeme.split c rest = (l, rest'))
    (hpiece : l.piece? ((p.after g).location file) = some piece) :
    run file p cs =
      ⟨piece :: (run file ((p.after g).after l.text) rest').pieces,
        (run file ((p.after g).after l.text) rest').ending,
        (run file ((p.after g).after l.text) rest').stop⟩ := by
  have hsnd : (Layout.split false cs).2 = c :: rest := by rw [hlayout]
  fun_cases run file p cs with
  | case1 _ _ h => exact absurd (h.symm.trans hsnd) nofun
  | case2 layout start c' rest₁ h lexeme stop hnone =>
    cases h.symm.trans hsnd
    simp only [start, layout, lexeme, hlayout, hlexeme, hpiece] at hnone
    cases hnone
  | case3 layout start c' rest₁ h lexeme stop piece' hsome scan =>
    cases h.symm.trans hsnd
    simp only [start, layout, lexeme, hlayout, hlexeme, hpiece] at hsome
    cases hsome
    simp only [scan, stop, start, layout, lexeme, hlayout, hlexeme]

theorem run_of_overlong (hlayout : Layout.split false cs = (g, c :: rest))
    (hlexeme : Lexeme.split c rest = (l, rest'))
    (hpiece : l.piece? ((p.after g).location file) = none) :
    run file p cs = ⟨[], .tooManyDigits l.text.length, (p.after g).after l.text⟩ := by
  have hsnd : (Layout.split false cs).2 = c :: rest := by rw [hlayout]
  fun_cases run file p cs with
  | case1 _ _ h => cases h.symm.trans hsnd
  | case2 layout start c' rest₁ h lexeme stop hnone =>
    cases h.symm.trans hsnd
    simp only [stop, start, layout, lexeme, hlayout, hlexeme]
  | case3 layout start c' rest₁ h lexeme stop piece hsome scan =>
    cases h.symm.trans hsnd
    simp only [start, layout, lexeme, hlayout, hlexeme, hpiece] at hsome
    cases hsome

/-- Induction along a scan: it stops at the end of the text or at a number too long to read, and
otherwise makes a piece and goes on. -/
theorem run_induction {motive : Position → List Char → Scan → Prop} (file : String)
    (ending : ∀ p cs g, Layout.split false cs = (g, []) →
      motive p cs ⟨[], .endOfSource, p.after g⟩)
    (overlong : ∀ p cs g c rest l rest', Layout.split false cs = (g, c :: rest) →
      Lexeme.split c rest = (l, rest') → l.piece? ((p.after g).location file) = none →
      motive p cs ⟨[], .tooManyDigits l.text.length, (p.after g).after l.text⟩)
    (step : ∀ p cs g c rest l rest' piece scan, Layout.split false cs = (g, c :: rest) →
      Lexeme.split c rest = (l, rest') → l.piece? ((p.after g).location file) = some piece →
      motive ((p.after g).after l.text) rest' scan →
      motive p cs ⟨piece :: scan.pieces, scan.ending, scan.stop⟩)
    (p : Position) (cs : List Char) : motive p cs (run file p cs) := by
  fun_induction run file p cs with
  | case1 p cs layout start h => exact ending p cs layout.1 (Prod.ext rfl h)
  | case2 p cs layout start c rest h lexeme stop hnone =>
    exact overlong p cs layout.1 c rest lexeme.1 lexeme.2 (Prod.ext rfl h) rfl hnone
  | case3 p cs layout start c rest h lexeme stop piece hsome scan ih =>
    exact step p cs layout.1 c rest lexeme.1 lexeme.2 piece scan (Prod.ext rfl h) rfl hsome ih

end Scan

end BracketLang
