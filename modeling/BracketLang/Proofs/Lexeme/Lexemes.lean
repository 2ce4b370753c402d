import BracketLang.Proofs.Lexeme.Tiling
import BracketLang.Proofs.Lexeme.Words
import Mathlib.Data.List.TakeWhile

/-! The lexemes of a text, found without regard to whether they can be read. `Lexeme.all` lists them
with their places, and the scan is the same walk as far as the first number with too many digits
(`Scan.pieces_run`, `Scan.ending_run`). So the front end gets to the end of a text exactly if every
number in it has at most `Lexeme.digitLimit` digits, and then every lexeme is a token or is
reported, a number beyond `int32Max` once and with its own code. -/

namespace BracketLang

namespace Lexeme

/-- Every character is a digit. -/
def IsNumber (l : Lexeme) : Prop := ∀ c ∈ l.text, c.isDigit

instance (l : Lexeme) : Decidable l.IsNumber := inferInstanceAs (Decidable (∀ c ∈ l.text, _))

/-- The lexemes of a text that begins at `p`, each with its place, in order. A number is one lexeme
however long it is. -/
def all (p : Position) (cs : List Char) : List (Position × Lexeme) :=
  let layout := Layout.split false cs
  let start := p.after layout.1
  match _h : layout.2 with
  | [] => []
  | c :: rest =>
    let lexeme := split c rest
    (start, lexeme.1) :: all (start.after lexeme.1.text) lexeme.2
termination_by cs.length
decreasing_by
  have h₁ := Layout.length_split_snd_le false cs
  have h₂ := Lexeme.length_split_snd_le c rest
  rw [show (Layout.split false cs).2 = c :: rest from _h, List.length_cons] at h₁
  omega

theorem all_of_end (h : Layout.split false cs = (g, [])) : all p cs = [] := by
  have hsnd : (Layout.split false cs).2 = [] := by rw [h]
  fun_cases all p cs with
  | case1 => rfl
  | case2 _ _ c rest h' => cases hsnd.symm.trans h'

theorem all_of_lexeme (hlayout : Layout.split false cs = (g, c :: rest))
    (hlexeme : split c rest = (l, rest')) :
    all p cs = (p.after g, l) :: all ((p.after g).after l.text) rest' := by
  have hsnd : (Layout.split false cs).2 = c :: rest := by rw [hlayout]
  fun_cases all p cs with
  | case1 _ h => cases h.symm.trans hsnd
  | case2 layout start c' rest₁ h lexeme =>
    cases h.symm.trans hsnd
    simp only [start, layout, lexeme, hlayout, hlexeme]

/-! ## Numbers among the lexemes -/

/-- The first character of a lexeme is the one it was split off at. -/
theorem head_mem_text (h : split c cs = (l, rest)) : c ∈ l.text := by
  obtain ⟨hne, happend⟩ := split_ne_nil h
  obtain ⟨d, ds, hd⟩ := List.exists_cons_of_ne_nil hne
  rw [hd, List.cons_append] at happend
  rw [hd, (List.cons.inj happend).1]
  exact List.mem_cons_self

theorem kind_of_isDigit (h : split c cs = (l, rest)) (hc : c.isDigit) :
    l.kind = numberClass l.text := by
  rw [split, if_pos hc] at h
  cases h
  rfl

theorem kind_of_isNumber (h : split c cs = (l, rest)) (hl : l.IsNumber) :
    l.kind = numberClass l.text :=
  kind_of_isDigit h (hl c (head_mem_text h))

/-- Only what starts with a digit can have too many of them. -/
theorem isDigit_of_tooManyDigits (h : split c cs = (l, rest)) (hl : l.kind = .tooManyDigits) :
    c.isDigit := by
  have hword (text : List Char) : wordClass text ≠ .tooManyDigits := by
    unfold wordClass
    split <;> simp
  have hsingle (c : Char) : singleClass c ≠ .tooManyDigits := by
    unfold singleClass
    split <;> simp
  by_cases hc : c.isDigit
  · exact hc
  rw [split, if_neg hc] at h
  split at h
  · cases h
    exact absurd hl (hword _)
  · cases hpair : pairOperator? c cs with
    | none =>
      rw [hpair, Option.getD_none] at h
      cases h
      exact absurd hl (hsingle _)
    | some q =>
      rw [hpair, Option.getD_some] at h
      cases cs with
      | nil => cases hpair
      | cons d cs =>
        obtain ⟨k, -, rfl⟩ := Option.map_eq_some_iff.mp hpair
        cases h
        cases hl

theorem tooManyDigits_iff (h : split c cs = (l, rest)) :
    l.kind = .tooManyDigits ↔ l.IsNumber ∧ digitLimit < l.text.length := by
  constructor
  · intro hl
    rw [kind_of_isDigit h (isDigit_of_tooManyDigits h hl), numberClass] at hl
    split at hl
    · cases hl
    next hdigits =>
    split at hl
    next hlimit =>
      refine ⟨?_, hlimit⟩
      simpa [IsNumber] using hdigits
    · split at hl <;> cases hl
  · rintro ⟨hl, hlimit⟩
    have hall : l.text.all Char.isDigit := List.all_eq_true.mpr hl
    rw [kind_of_isNumber h hl, numberClass, if_neg (by simp [hall]), if_pos hlimit]

/-- A number that can be read but does not fit is an error of its own. -/
theorem kind_of_overflow (h : split c cs = (l, rest)) (hl : l.IsNumber)
    (hlimit : l.text.length ≤ digitLimit) (hmax : int32Max < decimal l.text) :
    l.kind = .error (.overflow int32Max) := by
  have hall : l.text.all Char.isDigit := List.all_eq_true.mpr hl
  rw [kind_of_isNumber h hl, numberClass, if_neg (by simp [hall]), if_neg (Nat.not_lt.mpr hlimit),
    if_pos hmax]

/-- Every lexeme of a text was split off somewhere. -/
theorem exists_split_of_mem_all (p : Position) (cs : List Char) :
    ∀ q ∈ all p cs, ∃ c rest rest', split c rest = (q.2, rest') := by
  fun_induction all p cs with
  | case1 => simp
  | case2 p cs layout start c rest h lexeme ih =>
    intro q hq
    rcases List.mem_cons.mp hq with rfl | hq
    · exact ⟨c, rest, lexeme.2, rfl⟩
    · exact ih q hq

/-- No lexeme is longer than the text it stands in. -/
theorem length_le_of_mem_all (p : Position) (cs : List Char) :
    ∀ q ∈ all p cs, q.2.text.length ≤ cs.length := by
  fun_induction all p cs with
  | case1 => simp
  | case2 p cs layout start c rest h lexeme ih =>
    have hlayout : Layout.split false cs = (layout.1, c :: rest) := Prod.ext rfl h
    have hcs := congrArg List.length (Layout.stretch_of_split hlayout).2
    have htext : lexeme.1.text.length + lexeme.2.length = (c :: rest).length := by
      rw [← List.length_append]
      exact congrArg List.length (split_append c rest)
    rw [List.length_append] at hcs
    intro q hq
    rcases List.mem_cons.mp hq with rfl | hq
    · change lexeme.1.text.length ≤ cs.length
      omega
    · have hle := ih q hq
      omega

/-- A text of digits alone is one number. -/
theorem all_of_digits (p : Position) (hds : ∀ d ∈ c :: ds, d.isDigit) :
    all p (c :: ds) = [(p, ⟨c :: ds, numberClass (c :: ds)⟩)] := by
  have hc := hds c List.mem_cons_self
  have hchars : ∀ d ∈ ds, isWordChar d := by
    intro d hd
    exact isWordChar_of_isDigit (hds d (List.mem_cons_of_mem c hd))
  have hgap : AtGap [] := by simp [AtGap]
  obtain ⟨htake, hdrop⟩ := takeWhile_append_of_atGap hchars hgap
  rw [List.append_nil] at htake hdrop
  have hsplit : split c ds = (⟨c :: ds, numberClass (c :: ds)⟩, []) := by
    rw [split, if_pos hc, htake, hdrop]
  rw [all_of_lexeme (layout_split_of_isWordChar (isWordChar_of_isDigit hc) ds) hsplit,
    all_of_end (g := []) rfl]
  rfl

end Lexeme

/-! ## The scan along the lexemes -/

namespace Scan

/-- The piece of a lexeme that stands at a place of a file. -/
def pieceAt? (file : String) (q : Position × Lexeme) : Option Piece :=
  q.2.piece? (q.1.location file)

theorem pieceAt?_eq_none_iff : pieceAt? file q = none ↔ q.2.kind = .tooManyDigits := by
  unfold pieceAt? Lexeme.piece?
  split <;> simp_all

/-- The pieces are those of the lexemes in front of the first number that is too long. -/
theorem pieces_run (file : String) (p : Position) (cs : List Char) :
    (run file p cs).pieces.map some =
      ((Lexeme.all p cs).map (pieceAt? file)).takeWhile Option.isSome := by
  apply run_induction (motive := fun p cs scan => scan.pieces.map some =
    ((Lexeme.all p cs).map (pieceAt? file)).takeWhile Option.isSome) file
  · intro p cs g hlayout
    rw [Lexeme.all_of_end hlayout]
    rfl
  · intro p cs g c rest l rest' hlayout hlexeme hpiece
    have hnone : pieceAt? file (p.after g, l) = none := hpiece
    rw [Lexeme.all_of_lexeme hlayout hlexeme, List.map_cons, hnone]
    rfl
  · intro p cs g c rest l rest' piece scan hlayout hlexeme hpiece ih
    have hsome : pieceAt? file (p.after g, l) = some piece := hpiece
    rw [Lexeme.all_of_lexeme hlayout hlexeme, List.map_cons, List.map_cons, hsome, ih]
    rfl

/-- The scan stops at the first number that is too long, or else at the end of the text. -/
theorem ending_run (file : String) (p : Position) (cs : List Char) :
    (run file p cs).ending =
      ((Lexeme.all p cs).find? (·.2.kind = .tooManyDigits)).elim .endOfSource
        fun q => .tooManyDigits q.2.text.length := by
  apply run_induction (motive := fun p cs scan => scan.ending =
    ((Lexeme.all p cs).find? (·.2.kind = .tooManyDigits)).elim .endOfSource
      fun q => .tooManyDigits q.2.text.length) file
  · intro p cs g hlayout
    rw [Lexeme.all_of_end hlayout]
    rfl
  · intro p cs g c rest l rest' hlayout hlexeme hpiece
    have hkind : l.kind = .tooManyDigits := (pieceAt?_eq_none_iff (q := (p.after g, l))).mp hpiece
    rw [Lexeme.all_of_lexeme hlayout hlexeme, List.find?_cons_of_pos (by simpa using hkind)]
    rfl
  · intro p cs g c rest l rest' piece scan hlayout hlexeme hpiece ih
    have hkind : l.kind ≠ .tooManyDigits := by
      intro h
      have hnone : pieceAt? file (p.after g, l) = none := pieceAt?_eq_none_iff.mpr h
      cases hnone.symm.trans hpiece
    rw [Lexeme.all_of_lexeme hlayout hlexeme, List.find?_cons_of_neg (by simpa using hkind)]
    exact ih

/-- A scan along lexemes that can all be read makes a piece of each. -/
theorem pieces_of_readable (file : String)
    (h : ∀ q ∈ Lexeme.all p cs, q.2.kind ≠ .tooManyDigits) :
    (run file p cs).ending = .endOfSource ∧
      (run file p cs).pieces.map some = (Lexeme.all p cs).map (pieceAt? file) := by
  constructor
  · have hfind : (Lexeme.all p cs).find? (·.2.kind = .tooManyDigits) = none := by
      rw [List.find?_eq_none]
      intro q hq
      simpa using h q hq
    rw [ending_run, hfind]
    rfl
  · have hsome : ∀ o ∈ (Lexeme.all p cs).map (pieceAt? file), o.isSome := by
      intro o ho
      obtain ⟨q, hq, rfl⟩ := List.mem_map.mp ho
      rw [Option.isSome_iff_ne_none]
      exact mt pieceAt?_eq_none_iff.mp (h q hq)
    rw [pieces_run, List.takeWhile_eq_self_iff.mpr hsome]

end Scan

/-- The places of the pieces differ, so at the place of a piece there is no other. -/
theorem Tiles.filter_location (h : Tiles file p pieces cs) (ha : a ∈ pieces) :
    pieces.filter (·.location = a.location) = [a] := by
  obtain ⟨before, behind, rfl⟩ := List.append_of_mem ha
  obtain ⟨-, hbehind, hbefore⟩ := List.pairwise_append.mp h.pairwise_offset
  have hne {b : Piece} (hb : b ∈ before ∨ b ∈ behind) : b.location ≠ a.location := by
    intro heq
    rcases hb with hb | hb
    · exact Int.ne_of_lt (hbefore b hb a List.mem_cons_self) (congrArg _ heq)
    · exact Int.ne_of_gt ((List.pairwise_cons.mp hbehind).1 b hb) (congrArg _ heq)
  rw [List.filter_append, List.filter_cons_of_pos (by simp),
    List.filter_eq_nil_iff.mpr fun b hb => by simpa using hne (.inl hb),
    List.filter_eq_nil_iff.mpr fun b hb => by simpa using hne (.inr hb)]
  rfl

/-! ## The front end -/

namespace Frontend

/-- What the stages give for a text that they read to its end, and the pieces of that text. -/
structure Outcome (stack levels : Nat) (source file : String) (pieces : List Piece)
    (scanned : Staged (List Token)) (parsed analyzed : Staged Program) : Prop where
  tokenizes : tokenize source file = .ok scanned
  parses : parse stack source file = .ok parsed
  analyzes : analyze stack levels source file = .ok analyzed
  /-- The text is made of the pieces and of layout, and every lexeme makes one piece. -/
  tiles : Tiles file .start pieces source.toList
  lexemes : (Lexeme.all .start source.toList).map (Scan.pieceAt? file) = pieces.map some
  /-- The tokens among the pieces are handed on, and the errors are reported. -/
  tokens : ∃ eof, scanned.result = pieces.filterMap Piece.token? ++ [eof]
  lexical : scanned.faults = (pieces.filterMap Piece.error?).map .lexical
  syntactic : parsed.faults =
    scanned.faults ++ (Parsed.ofTokens stack scanned.result).state.errors.map .syntactic
  semantic : analyzed.faults =
    parsed.faults ++ (Analysis.ofProgram levels parsed.result).errors.map .semantic
  /-- The one piece at the place of a number that does not fit says so. -/
  overflow : ∀ q ∈ Lexeme.all .start source.toList, q.2.IsNumber →
    int32Max < Lexeme.decimal q.2.text → ∃ e : LexicalError,
      pieces.filter (·.location = q.1.location file) = [.error e] ∧ e.code = "L007" ∧
        e.kindName = "MALFORMED_NUMERIC_LITERAL" ∧ e.lexeme.toList = q.2.text

theorem pieces_at_overflow (htiles : Tiles file p pieces cs)
    (hpieces : pieces.map some = (Lexeme.all p cs).map (Scan.pieceAt? file))
    (hq : q ∈ Lexeme.all p cs) (hnumber : q.2.IsNumber)
    (hlimit : q.2.text.length ≤ Lexeme.digitLimit)
    (hmax : int32Max < Lexeme.decimal q.2.text) :
    pieces.filter (·.location = q.1.location file) =
      [.error ⟨.overflow int32Max, String.ofList q.2.text, q.1.location file⟩] := by
  obtain ⟨c, rest, rest', hsplit⟩ := Lexeme.exists_split_of_mem_all p cs q hq
  have hpiece : Scan.pieceAt? file q =
      some (.error ⟨.overflow int32Max, String.ofList q.2.text, q.1.location file⟩) := by
    rw [Scan.pieceAt?, Lexeme.piece?, Lexeme.kind_of_overflow hsplit hnumber hlimit hmax]
  have hmem : some (.error ⟨.overflow int32Max, String.ofList q.2.text, q.1.location file⟩) ∈
      pieces.map some := by
    rw [hpieces, ← hpiece]
    exact List.mem_map_of_mem hq
  obtain ⟨a, ha, hae⟩ := List.mem_map.mp hmem
  obtain rfl := Option.some.inj hae
  exact htiles.filter_location ha

theorem exists_outcome (stack levels : Nat) {source : String} (file : String)
    (h : ∀ q ∈ Lexeme.all .start source.toList, q.2.kind ≠ .tooManyDigits) :
    ∃ pieces scanned parsed analyzed,
      Outcome stack levels source file pieces scanned parsed analyzed := by
  obtain ⟨hend, hpieces⟩ := Scan.pieces_of_readable file h
  obtain ⟨htiles, -⟩ := Scan.tiles_run file .start source.toList hend
  have htokenize : ∃ scanned, tokenize source file = .ok scanned ∧
      (∃ eof, scanned.result =
        (Scan.run file .start source.toList).pieces.filterMap Piece.token? ++ [eof]) ∧
      scanned.faults = (Scan.ofSource file source.toList).errors.map .lexical := by
    have hend' : (Scan.ofSource file source.toList).ending = .endOfSource := hend
    refine ⟨_, by simp only [tokenize, hend']; rfl,
      ⟨.eofAt ((Scan.ofSource file source.toList).stop.location file), ?_⟩, rfl⟩
    simp only [Scan.tokens, hend']
    rfl
  obtain ⟨scanned, hscanned, htokens, hlexical⟩ := htokenize
  have hparse : ∃ parsed, parse stack source file = .ok parsed ∧ parsed.faults =
      scanned.faults ++ (Parsed.ofTokens stack scanned.result).state.errors.map .syntactic := by
    refine ⟨_, by rw [parse, hscanned]; rfl, rfl⟩
  obtain ⟨parsed, hparsed, hsyntactic⟩ := hparse
  have hanalyze : ∃ analyzed, analyze stack levels source file = .ok analyzed ∧
      analyzed.faults =
        parsed.faults ++ (Analysis.ofProgram levels parsed.result).errors.map .semantic := by
    refine ⟨_, by rw [analyze, hparsed]; rfl, rfl⟩
  obtain ⟨analyzed, hanalyzed, hsemantic⟩ := hanalyze
  refine ⟨_, scanned, parsed, analyzed, hscanned, hparsed, hanalyzed, htiles, hpieces.symm,
    htokens, hlexical, hsyntactic, hsemantic, ?_⟩
  intro q hq hnumber hmax
  obtain ⟨c, rest, rest', hsplit⟩ := Lexeme.exists_split_of_mem_all _ _ q hq
  have hlimit : q.2.text.length ≤ Lexeme.digitLimit := by
    refine Nat.not_lt.mp fun hlt => h q hq ?_
    exact (Lexeme.tooManyDigits_iff hsplit).mpr ⟨hnumber, hlt⟩
  exact ⟨_, pieces_at_overflow htiles hpieces hq hnumber hlimit hmax, rfl, rfl,
    String.toList_ofList⟩

/-- Where the scan stops early, so does every stage. -/
theorem stops_of_tooManyDigits {source file : String} (stack levels : Nat)
    (h : (Scan.ofSource file source.toList).ending = .tooManyDigits n) :
    tokenize source file = .error ⟨n⟩ ∧ parse stack source file = .error ⟨n⟩ ∧
      analyze stack levels source file = .error ⟨n⟩ := by
  have htokenize : tokenize source file = .error ⟨n⟩ := by simp only [tokenize, h]
  have hparse : parse stack source file = .error ⟨n⟩ := by
    rw [parse, htokenize]
    rfl
  refine ⟨htokenize, hparse, ?_⟩
  rw [analyze, hparse]
  rfl

/-- Every stage gets to the end of a text, with all errors reported, if the numbers in it can be
read, and none does if one of them is too long. -/
theorem finishes_unless_number_overlong (stack levels : Nat) (source file : String) :
    ((∀ q ∈ Lexeme.all .start source.toList, q.2.IsNumber →
        q.2.text.length ≤ Lexeme.digitLimit) →
      ∃ pieces scanned parsed analyzed,
        Outcome stack levels source file pieces scanned parsed analyzed) ∧
    ∀ q, (Lexeme.all .start source.toList).find?
        (fun q => q.2.IsNumber ∧ Lexeme.digitLimit < q.2.text.length) = some q →
      tokenize source file = .error ⟨q.2.text.length⟩ ∧
        parse stack source file = .error ⟨q.2.text.length⟩ ∧
          analyze stack levels source file = .error ⟨q.2.text.length⟩ := by
  have hiff (q) (hq : q ∈ Lexeme.all .start source.toList) : q.2.kind = .tooManyDigits ↔
      q.2.IsNumber ∧ Lexeme.digitLimit < q.2.text.length := by
    obtain ⟨c, rest, rest', hsplit⟩ := Lexeme.exists_split_of_mem_all _ _ q hq
    exact Lexeme.tooManyDigits_iff hsplit
  constructor
  · intro h
    apply exists_outcome
    intro q hq hkind
    obtain ⟨hnumber, hlimit⟩ := (hiff q hq).mp hkind
    exact absurd (h q hq hnumber) (Nat.not_le.mpr hlimit)
  · intro q hfind
    apply stops_of_tooManyDigits
    have hfind' : (Lexeme.all .start source.toList).find? (·.2.kind = .tooManyDigits) = some q := by
      rw [← hfind, ← List.head?_filter, ← List.head?_filter]
      refine congrArg List.head? (List.filter_congr ?_)
      intro r hr
      simp only [hiff r hr]
    rw [Scan.ofSource, Scan.ending_run, hfind']
    rfl

/-- The number does not fit and is one error at its place; the name behind it is read. -/
theorem finishes_behind_overflow : ∃ pieces scanned parsed analyzed,
    Outcome 100 121 "2147483648 x" "main" pieces scanned parsed analyzed ∧
      (∃ e : LexicalError, pieces.filter (·.location = ⟨"main", 1, 1, 0⟩) = [.error e] ∧
        e.code = "L007" ∧ e.lexeme.toList = "2147483648".toList) ∧
      scanned.result.map (fun t => (t.kind, t.lexeme)) = [(.identifier, "x"), (.eof, "")] := by
  have hread (q) (hq : q ∈ Lexeme.all .start "2147483648 x".toList) (_ : q.2.IsNumber) :
      q.2.text.length ≤ Lexeme.digitLimit :=
    Nat.le_trans (Lexeme.length_le_of_mem_all _ _ q hq) (by decide)
  obtain ⟨pieces, scanned, parsed, analyzed, h⟩ :=
    (finishes_unless_number_overlong 100 121 "2147483648 x" "main").1 hread
  have hmem : (Position.start, ⟨"2147483648".toList, .error (.overflow int32Max)⟩) ∈
      Lexeme.all .start "2147483648 x".toList := by
    have hlayout : Layout.split false "2147483648 x".toList =
        ([], '2' :: "147483648 x".toList) := rfl
    rw [Lexeme.all_of_lexeme hlayout rfl]
    exact List.mem_cons_self
  have hresult : (tokenize "2147483648 x" "main").toOption.map
      (fun scanned => scanned.result.map fun t => (t.kind, t.lexeme)) =
        some [(.identifier, "x"), (.eof, "")] := by
    decide +kernel
  rw [h.tokenizes] at hresult
  refine ⟨pieces, scanned, parsed, analyzed, h, ?_, Option.some.inj hresult⟩
  obtain ⟨e, hfilter, hcode, -, hlexeme⟩ :=
    h.overflow _ hmem (List.all_eq_true.mp rfl) (by decide +kernel)
  exact ⟨e, hfilter, hcode, hlexeme⟩

theorem tokenize_of_digits (file : String) (hds : ∀ d ∈ c :: ds, d.isDigit)
    (hlimit : Lexeme.digitLimit < (c :: ds).length) :
    tokenize (String.ofList (c :: ds)) file = .error ⟨(c :: ds).length⟩ := by
  have hkind : Lexeme.numberClass (c :: ds) = .tooManyDigits := by
    rw [Lexeme.numberClass, if_neg (by simpa using hds), if_pos hlimit]
  have hend : (Scan.ofSource file (String.ofList (c :: ds)).toList).ending =
      .tooManyDigits (c :: ds).length := by
    rw [String.toList_ofList, Scan.ofSource, Scan.ending_run, Lexeme.all_of_digits _ hds, hkind]
    rfl
  exact (stops_of_tooManyDigits 0 0 hend).1

/-- So not every text is read to its end: this one has a digit too many. -/
theorem not_forall_tokenize_ok :
    ¬ ∀ source file : String, ∃ scanned, tokenize source file = .ok scanned := by
  intro h
  obtain ⟨scanned, hscanned⟩ := h (String.ofList ('9' :: List.replicate 4300 '9')) "main"
  have hdigits : ∀ d ∈ '9' :: List.replicate 4300 '9', d.isDigit := by
    rw [← List.replicate_succ]
    intro d hd
    rw [List.eq_of_mem_replicate hd]
    rfl
  have hlength : Lexeme.digitLimit < ('9' :: List.replicate 4300 '9').length := by
    rw [← List.replicate_succ, List.length_replicate]
    exact Nat.lt_succ_self _
  cases hscanned.symm.trans (tokenize_of_digits "main" hdigits hlength)

end Frontend

end BracketLang
