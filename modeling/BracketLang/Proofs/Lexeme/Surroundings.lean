import BracketLang.Proofs.Lexeme.Tiling
import BracketLang.Proofs.Lexeme.Words
import Mathlib.Data.List.Forall2
import Mathlib.Data.List.TakeWhile

/-! Lexemes in other surroundings. Splitting off a lexeme looks at the lexeme and at no more than
the character behind it, so whatever begins in the same way, or with a gap, can stand there instead
(`Lexeme.exists_split_of_replaces`); and the layout in front is skipped as a whole
(`Scan.run_stretch`). Where a text begins has no influence on its lexemes: two scans of it from
different places find the same pieces (`Scan.moved_run`). -/

namespace BracketLang

namespace Lexeme

theorem split_slash (cs : List Char) : split '/' cs = (⟨['/'], singleClass '/'⟩, cs) := by
  have hpair : pairOperator? '/' cs = none := by
    cases cs with
    | nil => rfl
    | cons d cs =>
      rw [pairOperator?, Option.map_eq_none_iff, Option.eq_none_iff_forall_ne_some]
      intro k hk
      obtain ⟨hmem, hspelling⟩ := TokenKind.of_ofOperator? hk
      exact ne_slash_of_pair hmem hspelling rfl
  rw [split, if_neg (by decide), if_neg (by decide), hpair]
  rfl

/-- Behind a lexeme `rest'` can stand in place of `rest`: it begins in the same way, or with a
gap. -/
def Replaces (rest' rest : List Char) : Prop := rest'.head? = rest.head? ∨ AtGap rest'

theorem replaces_append (rest ds' : List Char) (h : AtGap ds) :
    Replaces (rest ++ ds) (rest ++ ds') := by
  cases rest with
  | nil => exact .inr h
  | cons c rest => exact .inl rfl

theorem Replaces.stop {cs : List Char} (h : Replaces rest' (cs.dropWhile isWordChar)) :
    ∀ d ∈ rest'.head?, isWordChar d = false := by
  intro d hd
  rcases h with h | h
  · have hnot := List.head?_dropWhile_not isWordChar cs
    rw [← h, hd] at hnot
    exact hnot
  · exact not_isWordChar_of_isBlank (h d hd)

theorem Replaces.pairOperator? (h : Replaces rest' rest) (hrest : pairOperator? c rest = none) :
    pairOperator? c rest' = none := by
  cases rest' with
  | nil => rfl
  | cons d rest' =>
    refine Option.map_eq_none_iff.mpr ?_
    rcases h with h | h
    · obtain ⟨ds, rfl⟩ := List.head?_eq_some_iff.mp h.symm
      exact Option.map_eq_none_iff.mp hrest
    · exact ofOperator?_blank (h d rfl)

/-- The lexeme at the beginning of a text stays the same when the text behind it is replaced. -/
theorem exists_split_of_replaces (h : split c cs = (l, rest)) (hrest : Replaces rest' rest) :
    ∃ cs', c :: cs' = l.text ++ rest' ∧ split c cs' = (l, rest') := by
  have hchars : ∀ d ∈ cs.takeWhile isWordChar, isWordChar d := fun d => List.mem_takeWhile_imp
  unfold split at h
  split at h
  next hdigit =>
    cases h
    obtain ⟨htake, hdrop⟩ := takeWhile_append_of_stop hchars hrest.stop
    exact ⟨cs.takeWhile isWordChar ++ rest', rfl, by
      rw [split, if_pos hdigit, htake, hdrop]⟩
  next hdigit =>
  split at h
  next hstart =>
    cases h
    obtain ⟨htake, hdrop⟩ := takeWhile_append_of_stop hchars hrest.stop
    exact ⟨cs.takeWhile isWordChar ++ rest', rfl, by
      rw [split, if_neg hdigit, if_pos hstart, htake, hdrop]⟩
  next hstart =>
  cases hpair : pairOperator? c cs with
  | some q =>
    cases cs with
    | nil => cases hpair
    | cons d cs =>
      obtain ⟨k, hk, rfl⟩ := Option.map_eq_some_iff.mp hpair
      rw [hpair] at h
      cases h
      exact ⟨d :: rest', rfl, by rw [split, if_neg hdigit, if_neg hstart, pairOperator?, hk]; rfl⟩
  | none =>
    rw [hpair] at h
    cases h
    refine ⟨rest', rfl, ?_⟩
    rw [split, if_neg hdigit, if_neg hstart, hrest.pairOperator? hpair]
    rfl

/-- A lexeme that was found behind layout is no layout in other surroundings either. -/
theorem exists_reading (hlayout : Layout.split false cs = (g, c :: rest))
    (hlexeme : split c rest = (l, rest₁)) (hrest : Replaces rest' rest₁) :
    ∃ cs', c :: cs' = l.text ++ rest' ∧ split c cs' = (l, rest') ∧
      Layout.split false (c :: cs') = ([], c :: cs') := by
  obtain ⟨cs', hcs', hsplit'⟩ := exists_split_of_replaces hlexeme hrest
  refine ⟨cs', hcs', hsplit', ?_⟩
  refine Layout.split_eq_nil (Layout.not_isBlank_of_split hlayout) fun ds hds => ?_
  -- a `/` is a lexeme by itself, so that the second one would have to be a replacement
  obtain ⟨rfl, rfl⟩ := List.cons.inj hds
  rw [split_slash] at hlexeme hsplit'
  cases hlexeme
  cases hsplit'
  rcases hrest with hrest | hrest
  · obtain ⟨ds', rfl⟩ := List.head?_eq_some_iff.mp hrest.symm
    exact Layout.split_ne_comment false cs ds' (by rw [hlayout])
  · exact absurd (hrest '/' rfl) (by decide)

end Lexeme

namespace Scan

/-- A scan skips the layout in front of a text. -/
theorem run_stretch (h : Layout.Stretch g cs) (file : String) (p : Position) :
    run file p (g ++ cs) = run file (p.after g) cs := by
  obtain ⟨g', rest, hcs⟩ : ∃ g' rest, Layout.split false cs = (g', rest) := ⟨_, _, rfl⟩
  have hlayout : Layout.split false (g ++ cs) = (g ++ g', rest) := by rw [h.split_eq, hcs]
  cases rest with
  | nil =>
    rw [run_of_end (by rw [hlayout]), run_of_end (by rw [hcs]), hlayout, hcs, Position.after_append]
  | cons c rest =>
    obtain ⟨l, rest', hlexeme⟩ : ∃ l rest', Lexeme.split c rest = (l, rest') := ⟨_, _, rfl⟩
    have hp := p.after_append g g'
    cases hpiece : l.piece? (((p.after g).after g').location file) with
    | none =>
      rw [run_of_overlong hcs hlexeme hpiece, run_of_overlong hlayout hlexeme (hp ▸ hpiece), hp]
    | some piece =>
      rw [run_of_piece hcs hlexeme hpiece, run_of_piece hlayout hlexeme (hp ▸ hpiece), hp]

/-- A lexeme that a scan found is found again between other layout and another rest. -/
theorem run_of_replaces (hlayout : Layout.split false cs = (g, c :: rest))
    (hlexeme : Lexeme.split c rest = (l, rest₁)) (hrest : Lexeme.Replaces rest' rest₁)
    (hpiece : l.piece? ((p.after g).location file) = some piece) :
    run file p (g ++ (l.text ++ rest')) =
      ⟨piece :: (run file ((p.after g).after l.text) rest').pieces,
        (run file ((p.after g).after l.text) rest').ending,
        (run file ((p.after g).after l.text) rest').stop⟩ := by
  obtain ⟨cs', hcs', hsplit, hnone⟩ := Lexeme.exists_reading hlayout hlexeme hrest
  obtain ⟨hstretch, -⟩ := Layout.stretch_of_split hlayout
  have hg : Layout.Stretch g (c :: cs') := by
    refine hstretch.mono fun hend d hd => ?_
    cases hd
    exact hend c rfl
  rw [← hcs']
  exact run_of_piece (hg.split_append hnone) hsplit hpiece

end Scan

/-! ## Scans of one text from two places -/

namespace Piece

/-- The same piece at another place. -/
def placed (location : Location) : Piece → Piece
  | token t => .token { t with location }
  | error e => .error { e with location }

@[simp] theorem placed_placed (a : Piece) (l l' : Location) :
    (a.placed l).placed l' = a.placed l' := by
  cases a <;> rfl

end Piece

theorem Lexeme.piece?_placed (l : Lexeme) (loc loc' : Location) :
    l.piece? loc' = (l.piece? loc).map (Piece.placed loc') := by
  unfold piece?
  split <;> rfl

theorem Position.after_related {R : Position → Position → Prop}
    (hstep : ∀ p p' c, R p p' → R (p.step c) (p'.step c)) (h : R p p') (cs : List Char) :
    R (p.after cs) (p'.after cs) := by
  induction cs generalizing p p' with
  | nil => exact h
  | cons c cs ih => exact ih (hstep p p' c h)

namespace Scan

/-- The scans end in the same way and have the same pieces, at places that are related by `R`. -/
structure Moved (file : String) (R : Position → Position → Prop) (s s' : Scan) : Prop where
  ending : s'.ending = s.ending
  pieces : List.Forall₂ (fun a a' => ∃ q q', R q q' ∧ a.location = q.location file ∧
    a' = a.placed (q'.location file)) s.pieces s'.pieces

/-- A piece is kept if what is behind it is replaced, and the scans there are moved. -/
theorem Moved.cons {R : Position → Position → Prop}
    (hlayout : Layout.split false cs = (g, c :: rest)) (hlexeme : Lexeme.split c rest = (l, rest₁))
    (hpiece : l.piece? ((p.after g).location file) = some piece)
    (hrest : Lexeme.Replaces rest' rest₁) (hg : R (p.after g) (p'.after g))
    (h : Moved file R (run file ((p.after g).after l.text) rest₁)
      (run file ((p'.after g).after l.text) rest')) :
    Moved file R (run file p cs) (run file p' (g ++ (l.text ++ rest'))) := by
  have hpiece' : l.piece? ((p'.after g).location file) =
      some (piece.placed ((p'.after g).location file)) := by
    rw [l.piece?_placed, hpiece]
    rfl
  rw [run_of_piece hlayout hlexeme hpiece, run_of_replaces hlayout hlexeme hrest hpiece']
  exact ⟨h.ending, .cons ⟨_, _, hg, (Lexeme.lexeme_of_piece? hpiece).2, rfl⟩ h.pieces⟩

/-- What each character keeps of two places, the scans from there keep. -/
theorem moved_run {R : Position → Position → Prop}
    (hstep : ∀ p p' c, R p p' → R (p.step c) (p'.step c)) (file : String) (cs : List Char)
    (h : R p p') : Moved file R (run file p cs) (run file p' cs) := by
  refine run_induction (motive := fun p cs _ => ∀ p', R p p' →
    Moved file R (run file p cs) (run file p' cs)) file ?_ ?_ ?_ p cs p' h
  · intro p cs g hlayout p' _
    rw [run_of_end (by rw [hlayout]), run_of_end (by rw [hlayout])]
    exact ⟨rfl, .nil⟩
  · intro p cs g c rest l rest' hlayout hlexeme hpiece p' _
    rw [run_of_overlong hlayout hlexeme hpiece,
      run_of_overlong hlayout hlexeme (by rw [l.piece?_placed, hpiece]; rfl)]
    exact ⟨rfl, .nil⟩
  · intro p cs g c rest l rest' piece _ hlayout hlexeme hpiece ih p' h
    have hg := Position.after_related hstep h g
    have hrest := ih _ (Position.after_related hstep hg l.text)
    have hmoved := Moved.cons hlayout hlexeme hpiece (.inl rfl) hg hrest
    rwa [(Lexeme.split_ne_nil hlexeme).2, ← (Layout.stretch_of_split hlayout).2] at hmoved

theorem Moved.map_eq {R : Position → Position → Prop} {f k : Piece → β} (h : Moved file R s s')
    (hf : ∀ a q q', R q q' → a.location = q.location file →
      k (a.placed (q'.location file)) = f a) : s'.pieces.map k = s.pieces.map f := by
  refine List.forall₂_eq_eq_eq ▸ ?_
  rw [List.forall₂_map_left_iff, List.forall₂_map_right_iff]
  refine h.pieces.flip.imp ?_
  rintro a' a ⟨q, q', hq, hlocation, rfl⟩
  exact hf a q q' hq hlocation

end Scan

end BracketLang
