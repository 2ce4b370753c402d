import BracketLang.Proofs.Lexeme.Lexemes
import BracketLang.Proofs.Lexeme.Positions
import BracketLang.Proofs.Lexeme.Surroundings

/-! Lines are read by themselves. A line break ends every lexeme and every comment, so the scan
comes to it in the same state whatever stood before (`Scan.run_append`), and from then on it differs
from a scan that begins there only by the lines and characters passed (`Scan.run_shift`). -/

namespace BracketLang

/-! ## Places further down -/

/-- The place in the same column, so many lines and characters further on. -/
def Position.shift (lines chars : Nat) (p : Position) : Position :=
  ⟨p.line + lines, p.column, p.offset + chars⟩

/-- The place in the same column, so many lines and characters further on. -/
def Location.shift (lines chars : Nat) (l : Location) : Location :=
  { l with line := l.line + lines, offset := l.offset + chars }

def Token.shift (lines chars : Nat) (t : Token) : Token :=
  { t with location := t.location.shift lines chars }

def LexicalError.shift (lines chars : Nat) (e : LexicalError) : LexicalError :=
  { e with location := e.location.shift lines chars }

def Piece.shift (lines chars : Nat) (a : Piece) : Piece :=
  a.placed (a.location.shift lines chars)

theorem Piece.token?_shift (lines chars : Nat) (a : Piece) :
    (a.shift lines chars).token? = a.token?.map (Token.shift lines chars) := by
  cases a <;> rfl

theorem Piece.error?_shift (lines chars : Nat) (a : Piece) :
    (a.shift lines chars).error? = a.error?.map (LexicalError.shift lines chars) := by
  cases a <;> rfl

namespace Position

theorem step_shift (lines chars : Nat) (p : Position) (c : Char) :
    (p.shift lines chars).step c = (p.step c).shift lines chars := by
  unfold step
  split <;> simp [shift] <;> omega

theorem after_shift (lines chars : Nat) (p : Position) (cs : List Char) :
    (p.shift lines chars).after cs = (p.after cs).shift lines chars := by
  refine after_related (R := fun p p' => p' = p.shift lines chars) ?_ rfl cs
  rintro p _ c rfl
  exact step_shift lines chars p c

theorem location_shift (lines chars : Nat) (p : Position) (file : String) :
    (p.shift lines chars).location file = (p.location file).shift lines chars := by
  simp [location, shift, Location.shift]

/-- Behind a line break everything is as at the start, only further down. -/
theorem after_line (cs : List Char) :
    (start.after cs).step '\n' = start.shift (cs.count '\n' + 1) (cs.length + 1) := by
  have h := after_start (cs ++ ['\n'])
  rw [after_append, lineStart_append cs List.not_mem_nil] at h
  simp only [after_cons, after_nil] at h
  rw [h]
  simp [start, shift]

end Position

/-! ## The scan across a line break -/

namespace Scan

theorem run_shift (file : String) (lines chars : Nat) (p : Position) (cs : List Char) :
    (run file (p.shift lines chars) cs).ending = (run file p cs).ending ∧
      (run file (p.shift lines chars) cs).pieces =
        (run file p cs).pieces.map (Piece.shift lines chars) := by
  have hmoved := moved_run (R := fun p p' => p' = p.shift lines chars) (p := p)
    (fun p _ c h => h ▸ Position.step_shift lines chars p c) file cs rfl
  refine ⟨hmoved.ending, ?_⟩
  rw [← hmoved.map_eq (k := id), List.map_id]
  rintro a q _ rfl hlocation
  rw [Piece.shift, hlocation, Position.location_shift]
  rfl

/-- A scan that comes to its end can go on from there, if a line ends or the text does. -/
theorem run_append (file : String) (p : Position) (cs : List Char) (hrest : Layout.AtLineEnd rest)
    (hend : (run file p cs).ending = .endOfSource) :
    run file p (cs ++ rest) =
      ⟨(run file p cs).pieces ++ (run file (p.after cs) rest).pieces,
        (run file (p.after cs) rest).ending, (run file (p.after cs) rest).stop⟩ := by
  have hgap : AtGap rest := fun c hc => by rw [hrest c hc]; rfl
  revert hend
  refine run_induction (motive := fun p cs scan => scan.ending = .endOfSource →
    run file p (cs ++ rest) = ⟨scan.pieces ++ (run file (p.after cs) rest).pieces,
      (run file (p.after cs) rest).ending, (run file (p.after cs) rest).stop⟩) file ?_ ?_ ?_ p cs
  · rintro p cs g hlayout -
    obtain ⟨hg, rfl⟩ := Layout.stretch_of_split hlayout
    -- an open comment is closed by the line break
    rw [List.append_nil, run_stretch (hg.mono fun _ => hrest), List.nil_append]
  · intro p cs g c rest l rest' _ _ _ h
    cases h
  · intro p cs g c rest₁ l rest' piece scan hlayout hlexeme hpiece ih hend
    obtain ⟨-, rfl⟩ := Layout.stretch_of_split hlayout
    obtain ⟨-, htext⟩ := Lexeme.split_ne_nil hlexeme
    have hreplaces := Lexeme.replaces_append rest' [] hgap
    rw [List.append_nil] at hreplaces
    rw [← htext, List.append_assoc, List.append_assoc,
      run_of_replaces hlayout hlexeme hreplaces hpiece, ih hend, Position.after_append,
      Position.after_append]
    rfl

/-- Behind a line break the scan finds what it would find in a text that begins there. -/
theorem ofSource_line_break (file : String) (a b : List Char)
    (hend : (ofSource file a).ending = .endOfSource) :
    (ofSource file (a ++ '\n' :: b)).ending = (ofSource file b).ending ∧
      (ofSource file (a ++ '\n' :: b)).pieces = (ofSource file a).pieces ++
        (ofSource file b).pieces.map (Piece.shift (a.count '\n' + 1) (a.length + 1)) := by
  have hskip : run file (Position.start.after a) ('\n' :: b) =
      run file (Position.start.shift (a.count '\n' + 1) (a.length + 1)) b := by
    rw [← Position.after_line]
    exact run_stretch (g := ['\n']) (.blank rfl .nil) file _
  obtain ⟨hending, hpieces⟩ := run_shift file (a.count '\n' + 1) (a.length + 1) .start b
  rw [ofSource, run_append file .start a (Layout.atLineEnd_cons b) hend, hskip, hending, hpieces]
  exact ⟨rfl, rfl⟩

/-- A scan comes to the end of a text if the numbers in it can be read. -/
theorem ending_of_short_numbers (file : String)
    (h : ∀ q ∈ Lexeme.all p cs, q.2.IsNumber → q.2.text.length ≤ Lexeme.digitLimit) :
    (run file p cs).ending = .endOfSource := by
  refine (pieces_of_readable file fun q hq hkind => ?_).1
  obtain ⟨c, rest, rest', hsplit⟩ := Lexeme.exists_split_of_mem_all p cs q hq
  obtain ⟨hnumber, hlimit⟩ := (Lexeme.tooManyDigits_iff hsplit).mp hkind
  exact absurd (h q hq hnumber) (Nat.not_le.mpr hlimit)

end Scan

/-! ## The tokens and errors of a text with a line break -/

namespace Frontend

/-- A text with a line break in it has the tokens and errors of the two parts, those of the second
part with their lines and offsets moved on. -/
theorem tokenizes_line_break (a b file : String)
    (ha : ∀ q ∈ Lexeme.all .start a.toList, q.2.IsNumber → q.2.text.length ≤ Lexeme.digitLimit)
    (hb : ∀ q ∈ Lexeme.all .start b.toList, q.2.IsNumber → q.2.text.length ≤ Lexeme.digitLimit) :
    ∃ ts eof es us es', Tokenizes a file (ts ++ [eof]) es ∧ eof.kind = .eof ∧
      Tokenizes b file us es' ∧
      Tokenizes (a ++ "\n" ++ b) file
        (ts ++ us.map (Token.shift (a.toList.count '\n' + 1) (a.length + 1)))
        (es ++ es'.map (LexicalError.shift (a.toList.count '\n' + 1) (a.length + 1))) := by
  have hea := Scan.ending_of_short_numbers file ha
  have heb := Scan.ending_of_short_numbers file hb
  obtain ⟨hending, hpieces⟩ := Scan.ofSource_line_break file a.toList b.toList hea
  rw [String.length_toList] at hpieces
  have hab : (a ++ "\n" ++ b).toList = a.toList ++ '\n' :: b.toList := by simp
  refine ⟨_, _, _, _, _, tokenizes_iff.mpr ⟨hea, rfl, rfl⟩, rfl, tokenizes_iff.mpr ⟨heb, rfl, rfl⟩,
    tokenizes_iff.mpr ⟨?_, ?_, ?_⟩⟩
  · rw [hab, hending]
    exact heb
  · have heof : Position.start.after (a.toList ++ '\n' :: b.toList) =
        (Position.start.after b.toList).shift (a.toList.count '\n' + 1) (a.length + 1) := by
      rw [Position.after_append, Position.after_cons, Position.after_line, Position.after_shift,
        String.length_toList]
    rw [hab, hpieces, heof, Position.location_shift]
    simp [List.filterMap_map, Piece.token?_shift, List.map_filterMap, Token.shift, Token.eofAt]
  · rw [hab, hpieces]
    simp [List.filterMap_map, Piece.error?_shift, List.map_filterMap]

/-- The first part ends in an open comment, the second in half an operator. -/
theorem tokenizes_line_break_in_comment :
    ∃ ts eof es us es', Tokenizes "x = 12ab\n// a & b" "main" (ts ++ [eof]) es ∧ eof.kind = .eof ∧
      Tokenizes "\t// c\n@ <= 0&" "main" us es' ∧
      Tokenizes ("x = 12ab\n// a & b" ++ "\n" ++ "\t// c\n@ <= 0&") "main"
        (ts ++ us.map (Token.shift 2 18)) (es ++ es'.map (LexicalError.shift 2 18)) := by
  refine tokenizes_line_break "x = 12ab\n// a & b" "\t// c\n@ <= 0&" "main"
    (fun q hq _ => ?_) fun q hq _ => ?_
  · exact Nat.le_trans (Lexeme.length_le_of_mem_all _ _ q hq) (by decide)
  · exact Nat.le_trans (Lexeme.length_le_of_mem_all _ _ q hq) (by decide)

end Frontend

end BracketLang
