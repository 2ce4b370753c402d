import BracketLang.Proofs.Lexeme.LongestMatch
import BracketLang.Proofs.Lexeme.Separators

/-! Tokens written down and read back. Every well-formed token is spelled by its own text, so the
texts of tokens with separators between them (`render`) are words with layout between them, and
scanning them gives the tokens again, but for their places. -/

namespace BracketLang

namespace Token

/-- The token has a text of its kind, and the value of that text. -/
inductive WellFormed : Token → Prop
  | keyword (hk : k ∈ TokenKind.keywords) : WellFormed ⟨k, k.spelling, k.truth, l⟩
  | operator (hk : k ∈ TokenKind.operators) : WellFormed ⟨k, k.spelling, none, l⟩
  | identifier (hx : IsName x) : WellFormed ⟨.identifier, x, none, l⟩
  | integer (hne : w ≠ "") (hdigits : ∀ d ∈ w.toList, d.isDigit)
    (hlength : w.length ≤ Lexeme.digitLimit) (hmax : (Lexeme.numeral w.toList : Int) ≤ int32Max) :
    WellFormed ⟨.integer, w, some (.int (Lexeme.numeral w.toList)), l⟩

theorem WellFormed.spells (h : WellFormed t) : Spells t.lexeme t.kind t.value := by
  cases h with
  | keyword hk => exact spells_keyword hk
  | operator hk => exact spells_operator hk
  | identifier hx => exact hx.spells
  | integer hne hdigits hlength hmax =>
    rw [← String.length_toList] at hlength
    rw [← Lexeme.decimal_eq_numeral] at hmax ⊢
    exact spells_number (mt String.toList_eq_nil_iff.mp hne) hdigits hlength hmax

/-- A token without its place. -/
def unplaced (t : Token) : Token := { t with location := .origin }

end Token

/-- What words spell is determined, but for the places. -/
theorem Written.unplaced_eq {ts us : List Token} (h : Written (ts.map Token.lexeme) us)
    (hts : ∀ t ∈ ts, Spells t.lexeme t.kind t.value) :
    us.map Token.unplaced = ts.map Token.unplaced := by
  induction ts generalizing us with
  | nil => rw [h.eq_nil]
  | cons t ts ih =>
    obtain ⟨ht, hts⟩ := List.forall_mem_cons.mp hts
    obtain ⟨u, us, rfl, hk, hl, hv, hus⟩ := h.exists_cons ht
    rw [List.map_cons, List.map_cons, ih hus hts, Token.unplaced, Token.unplaced, hk, hl, hv]

/-! ## Texts with separators between them -/

namespace Spaced

theorem comment (hbody : '\n' ∉ body) (hend : Layout.AtLineEnd cs) (h : Spaced ws cs) :
    Spaced ws ('/' :: '/' :: (body ++ cs)) := by
  cases h with
  | nil hg => exact .nil (.comment hbody (by rwa [List.append_nil]) hg)
  | cons w hg hcs h =>
    rw [← List.append_assoc]
    exact .cons w (.comment hbody hend hg) hcs h

/-- More layout in front of the words, if it leaves no comment open. -/
theorem closed_append (hg : Layout.Closed g) (h : Spaced ws cs) : Spaced ws (g ++ cs) := by
  induction hg with
  | nil => exact h
  | blank hc _ ih => exact ih.blank hc
  | comment _ hbody _ ih =>
    rw [List.cons_append, List.cons_append, List.append_assoc]
    exact (ih.blank rfl).comment hbody (Layout.atLineEnd_cons _)

end Spaced

/-- The texts of the tokens, with `sep 0` behind the first, `sep 1` behind the second and so on, but
nothing behind the last. -/
def render (sep : Nat → String) : List Token → String
  | [] => ""
  | [t] => t.lexeme
  | t :: u :: ts => t.lexeme ++ sep 0 ++ render (fun n => sep (n + 1)) (u :: ts)

theorem spaced_render (ts : List Token) {sep : Nat → String}
    (hsep : ∀ n, Layout.IsSeparator (sep n).toList) :
    Spaced (ts.map Token.lexeme) (render sep ts).toList := by
  induction ts generalizing sep with
  | nil => exact .nil .nil
  | cons t ts ih =>
    cases ts with
    | nil =>
      have hlast := Spaced.cons t.lexeme .nil (by simp [AtGap]) (.nil .nil)
      rwa [List.nil_append, List.append_nil] at hlast
    | cons u ts =>
      have hmore := Spaced.closed_append (hsep 0).closed (ih fun n => hsep (n + 1))
      have hfirst := Spaced.cons t.lexeme .nil ((hsep 0).atGap _) hmore
      rw [render, String.toList_append, String.toList_append, List.append_assoc]
      exact hfirst

namespace Frontend

/-- Well-formed tokens, written down with any separators between them, are read back as they were,
without errors, and the end of file behind them. -/
theorem tokenizes_render (ts : List Token) (sep : Nat → String) (file : String)
    (hts : ∀ t ∈ ts, t.WellFormed) (hsep : ∀ n, Layout.IsSeparator (sep n).toList) :
    ∃ us location, Tokenizes (render sep ts) file (us ++ [Token.eofAt location]) [] ∧
      us.map Token.unplaced = ts.map Token.unplaced := by
  have hspells : ∀ t ∈ ts, Spells t.lexeme t.kind t.value := fun t ht => (hts t ht).spells
  have hwords : ∀ w ∈ ts.map Token.lexeme, ∃ k v, Spells w k v := by
    intro w hw
    obtain ⟨t, ht, rfl⟩ := List.mem_map.mp hw
    exact ⟨t.kind, t.value, hspells t ht⟩
  obtain ⟨hend, herrors, us, hus, htokens⟩ :=
    Scan.exists_tokens_of_spaced (spaced_render ts hsep) hwords file
  have htokenizes := tokenizes_of_ending hend
  rw [htokens, herrors] at htokenizes
  exact ⟨us, _, htokenizes, hus.unplaced_eq hspells⟩

/-- `trueish / / < = 007 true`, which would be read otherwise without separators. -/
def touchy : List Token :=
  [⟨.identifier, "trueish", none, .origin⟩, ⟨.slash, "/", none, .origin⟩,
    ⟨.slash, "/", none, .origin⟩, ⟨.less, "<", none, .origin⟩, ⟨.assign, "=", none, .origin⟩,
    ⟨.integer, "007", some (.int 7), .origin⟩, ⟨.trueWord, "true", some (.bool true), .origin⟩]

/-- A comment that ends its line, or a tab, by turns. -/
def commentOrTab (n : Nat) : String := if n % 2 = 0 then " //,\n" else "\t"

theorem tokenizes_render_touchy :
    (∀ t ∈ touchy, t.WellFormed) ∧ (∀ n, Layout.IsSeparator (commentOrTab n).toList) ∧
      ∃ us location,
        Tokenizes (render commentOrTab touchy) "main" (us ++ [Token.eofAt location]) [] ∧
        us.map Token.unplaced = touchy.map Token.unplaced := by
  have hname : IsName "trueish" := ⟨⟨'t', _, rfl, by decide, List.all_eq_true.mp rfl⟩, by decide⟩
  have hnumber : Token.WellFormed ⟨.integer, "007", some (.int 7), .origin⟩ :=
    .integer (w := "007") (by decide) (List.all_eq_true.mp rfl) (by decide) (by decide)
  have hts : ∀ t ∈ touchy, t.WellFormed := by
    simp only [touchy, List.forall_mem_cons]
    exact ⟨.identifier hname, .operator (by decide), .operator (by decide), .operator (by decide),
      .operator (by decide), hnumber, .keyword (by decide), List.forall_mem_nil _⟩
  have hsep (n : Nat) : Layout.IsSeparator (commentOrTab n).toList := by
    unfold commentOrTab
    split
    · exact Layout.isSeparator_append (w := [' ']) (by decide) (List.all_eq_true.mp rfl)
        (.comment [','] (by decide) .nil)
    · exact Layout.isSeparator_append (w := ['\t']) (by decide) (List.all_eq_true.mp rfl) .nil
  exact ⟨hts, hsep, tokenizes_render touchy commentOrTab "main" hts hsep⟩

end Frontend

end BracketLang
