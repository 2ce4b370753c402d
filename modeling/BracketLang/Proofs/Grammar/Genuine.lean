import BracketLang.Proofs.Grammar.Kept
import BracketLang.Proofs.Lexeme.Lexemes
import BracketLang.Proofs.Tree.Printing

/-! What the texts of tokens are worth. The scan hands on a text and a value with each kind, and the
parser puts them into the tree without looking at them. `Token.Genuine` says that they go with the
kind: a name is no reserved word, a number fits, and everything else is spelled as it should be. The
scan makes genuine tokens only (`Scan.genuine_of_mem_tokens`), and of genuine tokens come plain
trees in which all names and numbers can be written (`Parsed.plain_and_spelled`). -/

namespace BracketLang

/-- The text and the value of the token are those of its kind. -/
structure Token.Genuine (t : Token) : Prop where
  name : t.kind = .identifier → IsName t.lexeme
  number : t.kind = .integer → ∃ n : Nat, t.value = some (.int n) ∧ (n : Int) ≤ int32Max
  spelled : t.kind ∈ TokenKind.keywords ++ TokenKind.operators → t.lexeme = t.kind.spelling

/-! ## The scan -/

namespace Token

theorem genuine_of_number {t : Token} {n : Nat} (hk : t.kind = .integer)
    (hv : t.value = some (.int n)) (hn : (n : Int) ≤ int32Max) : t.Genuine where
  name h := by cases hk.symm.trans h
  number _ := ⟨n, hv, hn⟩
  spelled h := absurd (hk ▸ h) (by decide)

theorem genuine_of_name {t : Token} (hk : t.kind = .identifier) (h : IsName t.lexeme) :
    t.Genuine where
  name _ := h
  number h := by cases hk.symm.trans h
  spelled h := absurd (hk ▸ h) (by decide)

theorem genuine_of_spelling {t : Token} (hk : t.kind ∈ TokenKind.keywords ++ TokenKind.operators)
    (h : t.kind.spelling.toList = t.lexeme.toList) : t.Genuine where
  name h := absurd (h ▸ hk) (by decide)
  number h := absurd (h ▸ hk) (by decide)
  spelled _ := String.toList_inj.mp h.symm

theorem genuine_eofAt (l : Location) : (eofAt l).Genuine where
  name h := by cases h
  number h := by cases h
  spelled h := by
    have hnot : TokenKind.eof ∉ TokenKind.keywords ++ TokenKind.operators := by decide
    exact absurd h hnot

end Token

namespace Lexeme

open Token TokenKind

theorem genuine_of_numberClass (h : numberClass cs = .token k v) (l : Location) :
    Genuine ⟨k, String.ofList cs, v, l⟩ := by
  unfold numberClass at h
  split at h
  · cases h
  · split at h
    · cases h
    · split at h
      · cases h
      · next hmax =>
        cases h
        exact genuine_of_number rfl rfl (Int.not_lt.mp hmax)

theorem genuine_of_wordClass (hc : isWordStart c) (hcs : ∀ d ∈ cs, isWordChar d)
    (h : wordClass (c :: cs) = .token k v) (l : Location) :
    Genuine ⟨k, String.ofList (c :: cs), v, l⟩ := by
  have hname (hnone : ofKeyword? (c :: cs) = none) : IsName (String.ofList (c :: cs)) := by
    rw [IsName, String.toList_ofList]
    exact ⟨⟨c, cs, rfl, hc, hcs⟩, hnone⟩
  have hword {k : TokenKind} (v : Option Literal) (hk : ofKeyword? (c :: cs) = some k) :
      Genuine ⟨k, String.ofList (c :: cs), v, l⟩ := by
    obtain ⟨hmem, hspelling⟩ := of_ofKeyword? hk
    refine genuine_of_spelling (List.mem_append_left _ hmem) ?_
    rw [String.toList_ofList]
    exact hspelling
  unfold wordClass at h
  split at h
  · next hk =>
    cases h
    exact hword _ hk
  · next hk =>
    cases h
    exact hword _ hk
  · next hk =>
    cases h
    exact hword _ hk
  · next hk =>
    cases h
    exact genuine_of_name rfl (hname hk)

theorem genuine_of_operator (hk : ofOperator? cs = some k) (v : Option Literal) (l : Location) :
    Genuine ⟨k, String.ofList cs, v, l⟩ := by
  obtain ⟨hmem, hspelling⟩ := of_ofOperator? hk
  refine genuine_of_spelling (List.mem_append_right _ hmem) ?_
  rw [String.toList_ofList]
  exact hspelling

theorem genuine_of_split (hs : split c cs = (l, rest)) (hk : l.kind = .token k v)
    (p : Location) : Genuine ⟨k, String.ofList l.text, v, p⟩ := by
  have hword : ∀ d ∈ cs.takeWhile isWordChar, isWordChar d := fun d hd => List.mem_takeWhile_imp hd
  unfold split at hs
  split at hs
  · cases hs
    exact genuine_of_numberClass hk p
  · split at hs
    · next hc =>
      cases hs
      exact genuine_of_wordClass hc hword hk p
    · cases hpair : pairOperator? c cs with
      | none =>
        rw [hpair] at hs
        cases hs
        unfold singleClass at hk
        split at hk
        · next hop =>
          cases hk
          exact genuine_of_operator hop none p
        · cases hk
      | some q =>
        rw [hpair] at hs
        cases hs
        cases cs with
        | nil => cases hpair
        | cons d cs =>
          obtain ⟨k', hop, heq⟩ := Option.map_eq_some_iff.mp hpair
          cases heq
          cases hk
          exact genuine_of_operator hop none p

end Lexeme

/-- Whatever the text, its tokens are genuine. -/
theorem Scan.genuine_of_mem_tokens (file : String) (source : List Char) :
    ∀ t ∈ (ofSource file source).tokens file, t.Genuine := by
  intro t ht
  rcases List.mem_append.mp ht with ht | ht
  · obtain ⟨piece, hpiece, htoken⟩ := List.mem_filterMap.mp ht
    have hsome : some piece ∈ (ofSource file source).pieces.map some := List.mem_map_of_mem hpiece
    rw [ofSource, pieces_run] at hsome
    obtain ⟨q, hq, hat⟩ := List.mem_map.mp ((List.takeWhile_subset _) hsome)
    obtain ⟨c, cs, rest, hsplit⟩ := Lexeme.exists_split_of_mem_all _ _ q hq
    unfold pieceAt? Lexeme.piece? at hat
    split at hat
    · next hkind =>
      cases hat
      cases htoken
      exact Lexeme.genuine_of_split hsplit hkind _
    · cases hat
      cases htoken
    · cases hat
  · split at ht
    · cases List.mem_singleton.mp ht
      exact Token.genuine_eofAt _
    · cases ht

/-! ## Trees -/

namespace TokenKind

theorem of_isBinary {k : TokenKind} (h : k.precedence.IsBinary) :
    k ∈ operators ∧ k.spelling ∈ binaryOperators := by
  revert h
  cases k <;> decide

theorem of_sign {k : TokenKind} (h : k = .minus ∨ k = .not) :
    k ∈ operators ∧ k.spelling ∈ unaryOperators := by
  rcases h with rfl | rfl <;> decide

theorem of_typeStart {k : TokenKind} (h : k ∈ typeStarts) :
    k ∈ keywords ∧ (k.spelling = "i32" ∨ k.spelling = "bool") := by
  revert h
  cases k <;> decide

end TokenKind

namespace Token.Genuine

theorem lexeme_of_operator {t : Token} (h : t.Genuine) (hk : t.kind ∈ TokenKind.operators) :
    t.lexeme = t.kind.spelling :=
  h.spelled (List.mem_append_right _ hk)

theorem plain {t : Token} (h : t.Genuine) (hk : t.kind ∈ TokenKind.typeStarts) (s : Span) :
    TypeName.Plain ⟨t.lexeme, s⟩ := by
  obtain ⟨hmem, hspelling⟩ := TokenKind.of_typeStart hk
  rw [TypeName.Plain, h.spelled (List.mem_append_left _ hmem)]
  exact hspelling

end Token.Genuine

mutual

theorem Expr.plain_bare (e : Expr) : e.bare.Plain ↔ e.Plain := by
  match e with
  | .integer .. | .boolean .. | .var .. | .typeName _ => exact Iff.rfl
  | .unary op e _ => rw [Expr.bare, Expr.Plain, Expr.Plain, Expr.plain_bare e]
  | .binary l op r _ =>
    rw [Expr.bare, Expr.Plain, Expr.Plain, Expr.plain_bare l, Expr.plain_bare r]
  | .call _ args _ => rw [Expr.bare, Expr.Plain, Expr.Plain, Expr.allPlain_bareAll args]

theorem Expr.allPlain_bareAll (es : List Expr) :
    Expr.AllPlain (Expr.bareAll es) ↔ Expr.AllPlain es := by
  match es with
  | [] => exact Iff.rfl
  | e :: es =>
    rw [Expr.bareAll, Expr.AllPlain, Expr.AllPlain, Expr.plain_bare e, Expr.allPlain_bareAll es]

end

mutual

theorem Expr.spelled_bare (e : Expr) : e.bare.Spelled ↔ e.Spelled := by
  match e with
  | .integer .. | .boolean .. | .var .. | .typeName _ => exact Iff.rfl
  | .unary op e _ => rw [Expr.bare, Expr.Spelled, Expr.Spelled, Expr.spelled_bare e]
  | .binary l op r _ =>
    rw [Expr.bare, Expr.Spelled, Expr.Spelled, Expr.spelled_bare l, Expr.spelled_bare r]
  | .call _ args _ => rw [Expr.bare, Expr.Spelled, Expr.Spelled, Expr.allSpelled_bareAll args]

theorem Expr.allSpelled_bareAll (es : List Expr) :
    Expr.AllSpelled (Expr.bareAll es) ↔ Expr.AllSpelled es := by
  match es with
  | [] => exact Iff.rfl
  | e :: es =>
    rw [Expr.bareAll, Expr.AllSpelled, Expr.AllSpelled, Expr.spelled_bare e,
      Expr.allSpelled_bareAll es]

end

mutual

theorem ExprDeriv.plain_and_spelled (d : ExprDeriv p) (h : ∀ t ∈ d.yield, t.Genuine) :
    d.tree.Plain ∧ d.tree.Spelled := by
  match d with
  | .tighter _ e => exact e.plain_and_spelled h
  | .group _ e _ =>
    exact e.plain_and_spelled fun t ht => h t (by simp [ExprDeriv.yield, ht])
  | .binary hp l op r =>
    obtain ⟨hl, hl'⟩ := l.plain_and_spelled fun t ht => h t (by simp [ExprDeriv.yield, ht])
    obtain ⟨hr, hr'⟩ := r.plain_and_spelled fun t ht => h t (by simp [ExprDeriv.yield, ht])
    obtain ⟨hmem, hspelling⟩ := TokenKind.of_isBinary (op.property ▸ hp)
    have hop := (h op.val (by simp [ExprDeriv.yield])).lexeme_of_operator hmem
    exact ⟨⟨hop ▸ hspelling, hl, hr⟩, hl', hr'⟩
  | .unary op e =>
    obtain ⟨he, he'⟩ := e.plain_and_spelled fun t ht => h t (List.mem_cons_of_mem _ ht)
    obtain ⟨hmem, hspelling⟩ := TokenKind.of_sign op.property
    have hop := (h op.val List.mem_cons_self).lexeme_of_operator hmem
    exact ⟨⟨hop ▸ hspelling, he⟩, he'⟩
  | .integer t => exact ⟨trivial, (h t.val List.mem_cons_self).number t.property⟩
  | .boolean t => exact ⟨trivial, trivial⟩
  | .var t => exact ⟨trivial, (h t.val List.mem_cons_self).name t.property⟩
  | .call t _ args _ =>
    obtain ⟨hargs, hargs'⟩ := args.plain_and_spelled fun t ht => h t (by simp [ExprDeriv.yield, ht])
    exact ⟨hargs, (h t.val List.mem_cons_self).name t.property, hargs'⟩

theorem ArgsDeriv.plain_and_spelled (d : ArgsDeriv) (h : ∀ t ∈ d.yield, t.Genuine) :
    Expr.AllPlain d.trees ∧ Expr.AllSpelled d.trees := by
  match d with
  | .none => exact ⟨trivial, trivial⟩
  | .some e more =>
    obtain ⟨he, hmore⟩ := List.forall_mem_append.mp h
    obtain ⟨hplain, hspelled⟩ := e.plain_and_spelled he
    obtain ⟨hplain', hspelled'⟩ := more.plain_and_spelled hmore
    exact ⟨⟨hplain, hplain'⟩, hspelled, hspelled'⟩

theorem MoreArgsDeriv.plain_and_spelled (d : MoreArgsDeriv) (h : ∀ t ∈ d.yield, t.Genuine) :
    Expr.AllPlain d.trees ∧ Expr.AllSpelled d.trees := by
  match d with
  | .nil => exact ⟨trivial, trivial⟩
  | .cons _ e more =>
    obtain ⟨he, hmore⟩ := List.forall_mem_append.mp (List.forall_mem_cons.mp h).2
    obtain ⟨hplain, hspelled⟩ := e.plain_and_spelled he
    obtain ⟨hplain', hspelled'⟩ := more.plain_and_spelled hmore
    exact ⟨⟨hplain, hplain'⟩, hspelled, hspelled'⟩

end

/-- What genuine tokens are good for. -/
def Demands.genuine : Demands := ⟨fun e => e.Plain ∧ e.Spelled, IsName, TypeName.Plain⟩

theorem Parser.supplies_genuine : Supplies Token.Genuine .genuine where
  expr hts hd := by
    obtain ⟨d, rfl, htree, -⟩ := hd
    have h := d.plain_and_spelled hts
    rw [htree, Expr.plain_bare, Expr.spelled_bare] at h
    exact h
  name h hk := h.name hk
  type h hk s := h.plain hk s

/-- Of genuine tokens come plain programs with names and numbers that can be written, with errors
or without. -/
theorem Parsed.plain_and_spelled (stack : Nat) (h : ∀ t ∈ tokens, t.Genuine) :
    (ofTokens stack tokens).program.Plain ∧ (ofTokens stack tokens).program.Spelled := by
  have hmeets : (ofTokens stack tokens).program.Meets .genuine := meets Parser.supplies_genuine h
  exact ⟨hmeets.mono ⟨And.left, fun _ => trivial, id⟩,
    hmeets.mono ⟨And.right, id, fun _ => trivial⟩⟩

end BracketLang
