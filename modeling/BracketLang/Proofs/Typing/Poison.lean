import BracketLang.Proofs.Grammar.Genuine
import BracketLang.Proofs.Typing.Expressions
import BracketLang.Proofs.Typing.Levels

/-! No type is unknown without a reason. An expression whose type is noted as `error` has, at or
below its node, a node that a report names: a name that nothing declares, or a value of the wrong
type. `Check.Blames` says this of the types that a check notes; it is closed under sequencing, and
holds of expressions, statements and functions as long as all types that are written are types and
all operators are operators. That is so in every program that is read from a text. -/

namespace BracketLang

variable {levels : Nat}

/-- A report that leaves the type of a node unknown names this node. -/
def Marked (errors : List SemanticError) (node : NodeRef) : Prop :=
  ∃ e ∈ errors, e.code ∈ ["S010", "S015", "S001"] ∧ e.node = some node

/-- One of these nodes is named in this way. -/
def Accused (errors : List SemanticError) (places : List (Path × Node)) : Prop :=
  ∃ q ∈ places, Marked errors (q.2.ref q.1)

theorem Accused.mono (h : Accused errors places) (he : errors ⊆ errors')
    (hp : places ⊆ places') : Accused errors' places' := by
  obtain ⟨q, hq, e, hmem, hcode, hnode⟩ := h
  exact ⟨q, hp hq, e, he hmem, hcode, hnode⟩

theorem Accused.of_marked (n : Node) (h : Marked errors (n.ref path)) :
    Accused errors (n.places path) := ⟨(path, n), n.mem_places_self path, h⟩

namespace Check

variable {α β : Type} {x : Check α} {f : α → Check β} {ps ps' : List (Path × Node)}

/-- Where a type is noted as unknown there is one of the nodes `ps`, and a report says why. -/
structure Blames (x : Check α) (ps : List (Path × Node)) : Prop where
  reason : ∀ π, (π, .error) ∈ x.types → ∃ n, (π, n) ∈ ps ∧ Accused x.errors (n.places π)

theorem blames_of_types (h : x.types = []) : x.Blames ps := by
  constructor
  intro π hπ
  rw [h] at hπ
  cases hπ

theorem blames_pure (a : α) : (pure a : Check α).Blames ps := blames_of_types rfl

theorem blames_report (e : SemanticError) : (report e).Blames ps := blames_of_types rfl

theorem blames_annotate (path : Path) (ht : t ≠ .error) : (annotate path t).Blames ps := by
  constructor
  intro π hπ
  cases List.mem_singleton.mp hπ
  exact absurd rfl ht

namespace Blames

theorem mono (h : x.Blames ps) (hps : ps ⊆ ps') : x.Blames ps' := by
  constructor
  intro π hπ
  obtain ⟨n, hn, hacc⟩ := h.reason π hπ
  exact ⟨n, hps hn, hacc⟩

theorem bind (hx : x.Blames ps) (hf : ∀ a, x.result = some a → (f a).Blames ps) :
    (x >>= f).Blames ps := by
  constructor
  intro π hπ
  cases hr : x.result with
  | none =>
    rw [bind_of_none hr] at hπ ⊢
    exact hx.reason π hπ
  | some a =>
    rw [bind_of_some hr] at hπ ⊢
    rcases List.mem_append.mp hπ with hπ | hπ
    · obtain ⟨n, hn, hacc⟩ := hx.reason π hπ
      exact ⟨n, hn, hacc.mono (List.subset_append_left ..) (List.Subset.refl _)⟩
    · obtain ⟨n, hn, hacc⟩ := (hf a hr).reason π hπ
      exact ⟨n, hn, hacc.mono (List.subset_append_right ..) (List.Subset.refl _)⟩

theorem orExhausted (hx : x.Blames ps) (b : α) (e : SemanticError) :
    (x.orExhausted b e).Blames ps := by
  unfold Check.orExhausted
  split
  · exact hx
  · constructor
    intro π hπ
    obtain ⟨n, hn, hacc⟩ := hx.reason π hπ
    exact ⟨n, hn, hacc.mono (List.subset_append_left ..) (List.Subset.refl _)⟩

end Blames

/-- An account of the nodes that are blamed for a type that is unknown. -/
def blaming : Account (Path × Node) where
  Assumes _ := True
  Holds ps x := x.Blames ps
  pure := blames_pure
  bind hx hf := (hx.mono (List.subset_append_left ..)).bind fun a ha =>
    (hf a ha trivial).mono (List.subset_append_right ..)
  perm hx h := hx.mono h.subset
  orExhausted a _ hx := hx.orExhausted a _

theorem untyped_blaming : blaming.Untyped := fun _ _ _ _ _ => blames_report _

/-- The check of an expression with node `n`: also a result that is unknown has its reason. -/
structure Owns (x : Check Ty) (path : Path) (n : Node) : Prop where
  blames : x.Blames (n.places path)
  result : x.result = some .error → Accused x.errors (n.places path)

theorem owns_pure (path : Path) (n : Node) (ht : t ≠ .error) : (pure t : Check Ty).Owns path n where
  blames := blames_pure t
  result h := absurd (Option.some.inj h) ht

theorem owns_exhausted (path : Path) (n : Node) : (exhausted : Check Ty).Owns path n where
  blames := blames_of_types rfl
  result h := by cases h

theorem owns_bind {g : α → Check Ty} (hx : x.Blames (n.places path))
    (hg : ∀ a, x.result = some a → (g a).Blames (n.places path))
    (herror : ∀ a, x.result = some a → (g a).result = some .error →
      Accused (x.errors ++ (g a).errors) (n.places path)) : (x >>= g).Owns path n where
  blames := hx.bind hg
  result h := by
    obtain ⟨a, ha, hga⟩ := result_bind_eq_some h
    rw [bind_of_some ha]
    exact herror a ha hga

/-- The type of the expression itself is noted last. -/
theorem Owns.noted {x : Check Ty} (h : x.Owns path n) : (Expr.noted path x).Owns path n := by
  have hself := Node.mem_places_self n path
  constructor
  · constructor
    intro π hπ
    cases hr : x.result with
    | none =>
      rw [Expr.noted, bind_of_none hr] at hπ ⊢
      exact h.blames.reason π hπ
    | some t =>
      rw [Expr.noted, bind_of_some hr] at hπ ⊢
      rcases List.mem_append.mp hπ with hπ | hπ
      · obtain ⟨m, hm, hacc⟩ := h.blames.reason π hπ
        exact ⟨m, hm, hacc.mono (List.subset_append_left ..) (List.Subset.refl _)⟩
      · cases List.mem_singleton.mp hπ
        exact ⟨n, hself, (h.result hr).mono (List.subset_append_left ..) (List.Subset.refl _)⟩
  · intro hr
    obtain ⟨t, ht, hpure⟩ := result_bind_eq_some hr
    cases hpure
    exact (h.result ht).mono (errors_prefix_bind ..).subset (List.Subset.refl _)

/-- The check notes no types, and a result that is unknown is down to `P` or to a report that names
`node`. -/
structure Excuses (x : Check Ty) (P : Prop) (node : NodeRef) : Prop where
  types : x.types = []
  result : x.result = some .error → P ∨ Marked x.errors node

theorem Verdict.excuses {x : Path → Check Ty} (h : Verdict k s Says U x) (path : Path) :
    (x path).Excuses U ⟨path, k, s⟩ := by
  cases h with
  | gives r hr hx =>
    rw [hx]
    exact ⟨rfl, fun h => .inl (hr (Option.some.inj h))⟩
  | reports expected actual context l _ _ _ _ hx =>
    rw [hx]
    refine ⟨rfl, fun _ => .inr ⟨_, List.mem_cons_self, ?_, rfl⟩⟩
    simp [SemanticError.code, SemanticError.mismatch]

end Check

open Check

/-! ## Symbol tables -/

/-- All names stand for something of a type that values have. -/
structure SymbolTable.Clean (table : SymbolTable) : Prop where
  values : ∀ s ∈ table.scopes, ∀ y ∈ s.symbols, y.type.IsValue

namespace SymbolTable.Clean

variable {table : SymbolTable}

theorem enter (H : table.Clean) (kind : ScopeKind) (name : String) (returnType : Option Ty) :
    (table.enter kind name returnType).Clean := by
  constructor
  intro s hs
  rcases List.mem_cons.mp hs with rfl | hs
  · exact List.forall_mem_nil _
  · exact H.values s hs

theorem type_findVar? (H : table.Clean) (h : table.findVar? x = some y) : y.type ≠ .error := by
  obtain ⟨hfind, -⟩ := Option.filter_eq_some_iff.mp h
  obtain ⟨s, hs, hy⟩ := List.exists_of_findSome?_eq_some hfind
  exact (H.values s hs y (List.mem_of_find?_eq_some hy)).ne_error

theorem type_findFunction? (H : table.Clean) (h : table.findFunction? f = some y) :
    y.type ≠ .error := by
  obtain ⟨hfind, -⟩ := Option.filter_eq_some_iff.mp h
  have hmem : table.global ∈ table.scopes := List.mem_append_right _ List.mem_cons_self
  exact (H.values _ hmem y (List.mem_of_find?_eq_some hfind)).ne_error

theorem values_define {s s' : Scope} (hs : ∀ y ∈ s.symbols, y.type.IsValue)
    (ht : symbol.type.IsValue) (h : s.define symbol node = .ok s') :
    ∀ y ∈ s'.symbols, y.type.IsValue := by
  obtain ⟨-, rfl⟩ := Scope.define_eq_ok_iff.mp h
  exact List.forall_mem_append.mpr ⟨hs, List.forall_mem_singleton.mpr ht⟩

theorem defineVar (H : table.Clean) (ht : type.IsValue)
    (h : table.defineVar name type location node = .ok table') : table'.Clean := by
  obtain ⟨hinner, hglobal⟩ := List.forall_mem_append.mp H.values
  have hglobal := List.forall_mem_singleton.mp hglobal
  obtain ⟨global, _ | ⟨s, ss⟩⟩ := table
  · simp only [SymbolTable.defineVar, define, Except.map] at h
    split at h
    · cases h
    · next hd =>
      cases h
      exact ⟨List.forall_mem_singleton.mpr (values_define hglobal ht hd)⟩
  · simp only [SymbolTable.defineVar, define, Except.map] at h
    split at h
    · cases h
    · next hd =>
      cases h
      obtain ⟨hs, hss⟩ := List.forall_mem_cons.mp hinner
      refine ⟨List.forall_mem_cons.mpr ⟨values_define hs ht hd, ?_⟩⟩
      exact List.forall_mem_append.mpr ⟨hss, List.forall_mem_singleton.mpr hglobal⟩

theorem defineFunction (H : table.Clean) (ht : type.IsValue)
    (h : table.defineFunction name type params location node = .ok table') : table'.Clean := by
  obtain ⟨hinner, hglobal⟩ := List.forall_mem_append.mp H.values
  simp only [SymbolTable.defineFunction, Except.map] at h
  split at h
  · cases h
  · next hd =>
    cases h
    refine ⟨List.forall_mem_append.mpr ⟨hinner, List.forall_mem_singleton.mpr ?_⟩⟩
    exact values_define (List.forall_mem_singleton.mp hglobal) ht hd

end SymbolTable.Clean

/-! ## Expressions -/

theorem OperatorClass.ofText?_ne_none (h : op ∈ binaryOperators) : ofText? op ≠ none := by
  rcases of_mem_binaryOperators h with ⟨ho, -⟩ | ⟨ho, -⟩ | ⟨ho, -⟩ | ⟨ho, -⟩ <;> simp [ho]

namespace SymbolTable.Clean

variable {table : SymbolTable} (H : table.Clean)
include H

/-- A variable of unknown type is reported. -/
theorem marked_varFault? (h : table.varType x = .error) (n : NodeRef) :
    Marked (raise (table.varFault? x n)).errors n := by
  unfold varType at h
  unfold varFault?
  cases hy : table.findVar? x with
  | none => exact ⟨_, List.mem_cons_self, by simp [SemanticError.code], rfl⟩
  | some y =>
    rw [hy] at h
    exact absurd h (H.type_findVar? hy)

/-- A call of unknown type is reported. -/
theorem marked_callFault? (h : table.callType f = .error) (count : Nat) (n : NodeRef) :
    Marked (raise (table.callFault? f count n)).errors n := by
  unfold callType at h
  unfold callFault?
  cases hy : table.findFunction? f with
  | none => exact ⟨_, List.mem_cons_self, by simp [SemanticError.code], rfl⟩
  | some y =>
    rw [hy] at h
    exact absurd h (H.type_findFunction? hy)

end SymbolTable.Clean

namespace Expr

theorem places_part {e c : Expr} (path : Path) (h : e.node.children[i]? = some c.node) :
    c.node.places (i :: path) ⊆ e.node.places path := by
  refine Node.places_child path h fun hk => ?_
  cases e <;> cases hk.1

theorem owns_unary {x : Check Ty} (hx : x.Owns (0 :: path) e.node) :
    (do let t ← x; checkUnary op e t ⟨path, .unary, s⟩ : Check Ty).Owns path
      (unary op e s).node := by
  have hpart : e.node.places (0 :: path) ⊆ (unary op e s).node.places path :=
    places_part path rfl
  have hverdict (t : Ty) := (verdict_checkUnary op e s t).excuses path
  refine owns_bind (hx.blames.mono hpart) (fun t _ => blames_of_types (hverdict t).types) ?_
  intro t ht herror
  rcases (hverdict t).result herror with rfl | hmarked
  · exact (hx.result ht).mono (List.subset_append_left ..) hpart
  · have haccused := Accused.of_marked (unary op e s).node hmarked
    exact haccused.mono (List.subset_append_right ..) (List.Subset.refl _)

/-- A result is unknown if an operand is, or if the operator is reported. -/
theorem owns_binary {x y : Check Ty} (hop : op ∈ binaryOperators)
    (hx : x.Owns (0 :: path) l.node) (hy : y.Owns (1 :: path) r.node) :
    (do let t ← x; let t' ← y; Link.resultType ⟨path, l, op, r, s⟩ t t' : Check Ty).Owns path
      (binary l op r s).node := by
  have hl : l.node.places (0 :: path) ⊆ (binary l op r s).node.places path :=
    places_part path rfl
  have hr : r.node.places (1 :: path) ⊆ (binary l op r s).node.places path :=
    places_part path rfl
  have hverdict (t t' : Ty) := (Link.verdict_resultType l op r s t t').excuses path
  refine owns_bind (hx.blames.mono hl) ?_ ?_
  · intro t _
    exact (hy.blames.mono hr).bind fun t' _ => blames_of_types (hverdict t t').types
  · intro t ht herror
    obtain ⟨t', ht', herror⟩ := result_bind_eq_some herror
    rw [bind_of_some ht']
    rcases (hverdict t t').result herror with (rfl | rfl | hnone) | hmarked
    · exact (hx.result ht).mono (List.subset_append_left ..) hl
    · refine (hy.result ht').mono ?_ hr
      exact List.subset_append_of_subset_right _ (List.subset_append_left ..)
    · exact absurd hnone (OperatorClass.ofText?_ne_none hop)
    · have haccused := Accused.of_marked (binary l op r s).node hmarked
      refine haccused.mono ?_ (List.Subset.refl _)
      exact List.subset_append_of_subset_right _ (List.subset_append_right ..)

section
variable {table : SymbolTable} (H : table.Clean)
include H

theorem owns_checkVar (name : String) (path : Path) (span : Span) :
    (checkVar table name ⟨path, .var, span⟩).Owns path (var name span).node := by
  rw [checkVar_eq_bind]
  refine owns_bind ?_ (fun _ _ => blames_pure _) fun _ _ herror => ?_
  · cases table.varFault? name ⟨path, .var, span⟩ with
    | none => exact blames_pure ()
    | some e => exact blames_report e
  · have hmarked := H.marked_varFault? (Option.some.inj herror) ⟨path, .var, span⟩
    exact (Accused.of_marked (var name span).node hmarked).mono (List.subset_append_left ..)
      (List.Subset.refl _)

theorem owns_call {types : Check (List Ty)} (path : Path) (f : String) (es : List Expr) (s : Span)
    (h : types.Blames (Node.placesFrom false path 0 (nodes es))) :
    (checkCallWith table f es types ⟨path, .call, s⟩).Owns path (call f es s).node := by
  have hpart : Node.placesFrom false path 0 (nodes es) ⊆ (call f es s).node.places path :=
    List.subset_cons_self ..
  have hcompare (ts : List Ty) : blaming.Holds [] (do
      compareArgs f path 0 es (table.wanted f es.length) ts
      return table.callType f) :=
    blaming.bind_pure (untyped_blaming.compareArgs ..) _
  rw [checkCallWith_eq_bind]
  refine owns_bind ?_ (fun _ _ => ?_) fun _ _ herror => ?_
  · cases table.callFault? f es.length ⟨path, .call, s⟩ with
    | none => exact blames_pure ()
    | some e => exact blames_report e
  · exact (h.mono hpart).bind fun ts _ => (hcompare ts).mono (List.nil_subset _)
  · obtain ⟨ts, -, herror⟩ := result_bind_eq_some herror
    obtain ⟨_, -, herror⟩ := result_bind_eq_some herror
    have hmarked := H.marked_callFault? (Option.some.inj herror) es.length ⟨path, .call, s⟩
    exact (Accused.of_marked (call f es s).node hmarked).mono (List.subset_append_left ..)
      (List.Subset.refl _)

theorem walk_owns : Walk table (fun _ path e x => e.Plain → x.Owns path e.node)
    (fun _ path i es x => AllPlain es → x.Blames (Node.placesFrom false path i (nodes es))) where
  exhausted _ := owns_exhausted ..
  integer _ := (owns_pure _ _ (by rintro ⟨⟩)).noted
  boolean _ := (owns_pure _ _ (by rintro ⟨⟩)).noted
  typeName he := he.elim
  var _ := (owns_checkVar H ..).noted
  unary hx he := (owns_unary (hx he.2)).noted
  binary hx hy he := (owns_binary he.1 (hx he.2.1) (hy he.2.2)).noted
  call hx he := (owns_call H _ _ _ _ (hx he)).noted
  nil _ := blames_pure []
  cons hx hy he := by
    rw [placesFrom_nodes_cons]
    exact blaming.seq (hx he.1).blames fun _ => blaming.bind_pure (hy he.2) _

theorem blames_check {e : Expr} (he : e.Plain) :
    (e.check levels table path).Blames (e.node.places path) :=
  ((walk_owns H).check levels path e he).blames

end

end Expr

/-! ## Statements -/

namespace Stmt

variable {table : SymbolTable}

/-- The table behind a statement is as clean as the one in front of it. -/
theorem gives_clean {s : Stmt} (H : table.Clean) (path : Path) (hs : s.Plain) :
    (s.check levels table path).Gives SymbolTable.Clean := by
  cases s with
  | letVar x t e span =>
    have hlet : (checkLet levels table ⟨path, .letVar, span⟩ x t e).Gives SymbolTable.Clean :=
      gives_bind_of_forall fun _ => gives_bind_of_forall fun _ => gives_bind_of_forall fun _ =>
        gives_orReport (fun _ h => H.defineVar hs.2.1.isValue h) H
    intro table' h
    obtain ⟨table'', hr, hclean⟩ := hlet.orExhausted (e := tooDeep ⟨path, .letVar, span⟩) H
    cases hr.symm.trans h
    exact hclean
  | _ =>
    intro table' h
    have heq := gives_self table path (by intro hk; cases hk) table' h
    rw [heq]
    exact H

theorem accounted_blaming (levels : Nat) : Accounted blaming (fun q => [q]) levels
    fun table _ _ ss => table.Clean ∧ AllMeet .plain ss where
  mute _ := blames_pure ()
  opening {table path i s ss} h hs := by
    refine holds_opening (fun q => (List.append_nil [q]).symm) untyped_blaming (i :: path) hs
      (fun _ _ => blames_pure ()) (fun j e he => ?_) ?_ ?_
    · rw [List.flatMap_singleton']
      exact Expr.blames_check h.1 (h.2.1.value he)
    · cases s with
      | letVar => exact blames_annotate _ h.2.1.2.1.isValue.ne_error
      | _ => exact blames_pure ()
    · exact blaming.raise (blames_pure ()) fun e _ => blames_report e
  body h hbody := ⟨h.1.enter .., h.2.1.body hbody⟩
  tail h ht _ := ⟨gives_clean h.1 _ h.2.1 _ ht, h.2.2⟩

end Stmt

/-! ## Programs -/

namespace Function

variable {table : SymbolTable}

theorem gives_clean_declareParams (H : table.Clean) (hps : ∀ p ∈ ps, p.Meets .plain) :
    (declareParams table ps).Gives SymbolTable.Clean := by
  induction ps generalizing table with
  | nil => exact gives_pure H
  | cons p ps ih =>
    obtain ⟨hp, hps⟩ := List.forall_mem_cons.mp hps
    refine (gives_orReport (fun _ h => H.defineVar hp.type.isValue h) H).bind fun t ht => ?_
    exact ih ht hps

theorem gives_clean_declareAll (H : table.Clean) (i : Nat) (hfs : ∀ f ∈ fs, f.Plain) :
    (declareAll table i fs).Gives SymbolTable.Clean := by
  induction fs generalizing table i with
  | nil => exact gives_pure H
  | cons f fs ih =>
    obtain ⟨hf, hfs⟩ := List.forall_mem_cons.mp hfs
    refine (gives_orReport (fun _ h => H.defineFunction hf.returnType.isValue h) H).bind ?_
    exact fun t ht => ih ht (i + 1) hfs

end Function

theorem Program.accounted_blaming (levels : Nat) (p : Program) (hp : p.Plain) :
    Accounted blaming (fun q => [q]) levels p (fun f i => [([i], f.node)]) (fun _ _ => [])
      fun table _ _ ss => table.Clean ∧ Stmt.AllMeet .plain ss where
  statements := Stmt.accounted_blaming levels
  split _ _ _ := rfl
  declared := Function.holds_declareAll (l := fun f i => [([i], f.node)]) (fun t f i =>
    Function.holds_declare t f i (blames_pure ()) fun e _ => blames_report e) ..
  params _ _ := Function.holds_declareParams (fun e _ => blames_report e) ..
  ready {t f i t'} ht hf ht' := by
    have hempty : SymbolTable.empty.Clean := ⟨by simp [SymbolTable.empty, SymbolTable.scopes]⟩
    have hplain := hp f (List.fst_mem_of_mem_zipIdx hf)
    have hclean := Function.gives_clean_declareAll hempty 0 hp t ht
    exact ⟨Function.gives_clean_declareParams (hclean.enter ..) hplain.params t' ht', hplain.body⟩

theorem Program.blames_check (levels : Nat) (p : Program) (hp : p.Plain) :
    (p.check levels).Blames (p.node.places []) := by
  have hblames : (p.check levels).Blames ((p.node.places []).flatMap fun q => [q]) :=
    (p.accounted_blaming levels hp).holds_check
  rwa [List.flatMap_singleton'] at hblames

namespace Frontend

theorem plain_and_spelled_of_parse (h : parse stack source file = .ok parsed) :
    parsed.result.Plain ∧ parsed.result.Spelled := by
  obtain ⟨scanned, htokenize, hresult, -⟩ := of_parse h
  rw [hresult, (of_tokenize htokenize).1]
  exact Parsed.plain_and_spelled stack (Scan.genuine_of_mem_tokens file source.toList)

/-- Types are never unknown in silence. Whatever the text, the program that is read from it is
plain, and its names and numbers can be written; so no type, no operator and no expression in it is
one that the checker would pass over. Where it notes the type of a node as unknown, a report of an
undeclared name or a mismatch names a node at or below that one, and where there is no report, no
type is unknown. -/
theorem unknown_types_are_reported (stack levels : Nat) (source file : String)
    (parsed : Staged Program) (h : parse stack source file = .ok parsed) :
    parsed.result.Plain ∧ parsed.result.Spelled ∧
    (∀ t : TypeName, t.Plain → Ty.ofName t.name ≠ .error) ∧
    (∀ op ∈ binaryOperators, OperatorClass.ofText? op ≠ none) ∧
    (∀ t, ¬ (Expr.typeName t).Plain) ∧
    (∀ path, (path, .error) ∈ (Analysis.ofProgram levels parsed.result).types →
      ∃ n, (path, n) ∈ parsed.result.node.places [] ∧
        ∃ q ∈ n.places path, ∃ e ∈ (Analysis.ofProgram levels parsed.result).errors,
          e.code ∈ ["S010", "S015", "S001"] ∧ e.node = some (q.2.ref q.1)) ∧
    ((Analysis.ofProgram levels parsed.result).errors = [] →
      ∀ path, (path, .error) ∉ (Analysis.ofProgram levels parsed.result).types) := by
  obtain ⟨hplain, hspelled⟩ := plain_and_spelled_of_parse h
  have hblames := parsed.result.blames_check levels hplain
  refine ⟨hplain, hspelled, fun t ht => ht.isValue.ne_error,
    fun op => OperatorClass.ofText?_ne_none, fun t h => h, hblames.reason, ?_⟩
  intro hnil path hpath
  obtain ⟨n, -, q, -, e, he, -⟩ := hblames.reason path hpath
  have he : e ∈ (Analysis.ofProgram levels parsed.result).errors := he
  rw [hnil] at he
  cases he

/-- The declaration cannot be read and is dropped; in the sum behind it, nothing declares `y`. -/
theorem unknown_sum_is_reported :
    ∃ parsed, parse 100 "func f() -> i32 [ let x = 2; return -y + 1; ]" "main" = .ok parsed ∧
      ([0, 0, 1, 0], .error) ∈ (Analysis.ofProgram 100 parsed.result).types ∧
      ∃ n, ([0, 0, 1, 0], n) ∈ parsed.result.node.places [] ∧
        ∃ q ∈ n.places [0, 0, 1, 0], ∃ e ∈ (Analysis.ofProgram 100 parsed.result).errors,
          e.code ∈ ["S010", "S015", "S001"] ∧ e.node = some (q.2.ref q.1) := by
  have hsum : ((parse 100 "func f() -> i32 [ let x = 2; return -y + 1; ]" "main").toOption.any
      fun parsed => ([0, 0, 1, 0], .error) ∈ (Analysis.ofProgram 100 parsed.result).types) =
        true := by
    decide +kernel
  cases hparse : parse 100 "func f() -> i32 [ let x = 2; return -y + 1; ]" "main" with
  | error e =>
    rw [hparse] at hsum
    cases hsum
  | ok parsed =>
    rw [hparse] at hsum
    have hmem := of_decide_eq_true hsum
    obtain ⟨-, -, -, -, -, hreported, -⟩ := unknown_types_are_reported _ 100 _ _ parsed hparse
    exact ⟨parsed, rfl, hmem, hreported _ hmem⟩

end Frontend

end BracketLang
