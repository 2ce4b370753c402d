import BracketLang.Proofs.Typing.Hints
import BracketLang.Proofs.Typing.NameErrors

/-! Suggestions in the reports on a program. The checker opens and closes scopes and declares names
by the operations of a history, and what its table finds at a place is in scope there
(`SymbolTable.At`), whether or not some expression nests too deep. A report that a name is not
declared lists the similar names of such a table, so each of them is in scope where the error is. -/

namespace BracketLang

variable {levels : Nat}

/-- A name can be used at a place as a variable, or as a function. -/
def Node.Offers (root : Node) (path : Path) (x : String) : SymbolKind → Prop
  | .var => root.Resolves x path
  | .function => root.children.any (·.isFunction x)

/-- The kind and the name that are declared, if any are. -/
def TableOp.declared? : TableOp → Option (SymbolKind × String)
  | defineVar name .. => some (.var, name)
  | defineFunction name .. => some (.function, name)
  | _ => none

/-! ## What a table finds -/

theorem Scope.mem_namesOf_declare {s : Scope} {kind : SymbolKind}
    (h : x ∈ (s.declare y).namesOf kind) : x ∈ s.namesOf kind ∨ y.kind = kind ∧ y.name = x := by
  obtain ⟨ys, hys, hdeclare⟩ := s.exists_declare_eq y
  rw [hdeclare, namesOf, List.filter_append, List.map_append, List.mem_append] at h
  rcases h with h | h
  · exact .inl h
  · obtain ⟨z, hz, hname⟩ := List.mem_map.mp h
    obtain ⟨hz, hkind⟩ := List.mem_filter.mp hz
    rw [hys z hz] at hname hkind
    exact .inr ⟨of_decide_eq_true hkind, hname⟩

namespace SymbolTable

/-- What is found after an operation was found before, or is declared by it. -/
theorem mem_namesOf_apply {t : SymbolTable} {kind : SymbolKind} (op : TableOp)
    (h : x ∈ (t.apply op).scopes.flatMap (·.namesOf kind)) :
    x ∈ t.scopes.flatMap (·.namesOf kind) ∨ op.declared? = some (kind, x) := by
  obtain ⟨global, inner⟩ := t
  cases op with
  | enter => exact .inl h
  | leave =>
    refine .inl ?_
    obtain ⟨s, hs, hx⟩ := List.mem_flatMap.mp h
    refine List.mem_flatMap.mpr ⟨s, ?_, hx⟩
    exact List.mem_append.mpr ((List.mem_append.mp hs).imp_left List.mem_of_mem_tail)
  | defineVar name type location node =>
    cases inner with
    | nil =>
      rw [apply_defineVar_nil] at h
      simp only [scopes, List.nil_append, List.flatMap_singleton] at h ⊢
      refine (Scope.mem_namesOf_declare h).imp_right ?_
      rintro ⟨rfl, rfl⟩
      rfl
    | cons s ss =>
      rw [apply_defineVar_cons] at h
      simp only [scopes, List.cons_append, List.flatMap_cons, List.mem_append (a := x)] at h ⊢
      rcases h with h | h
      · rcases Scope.mem_namesOf_declare h with h | ⟨rfl, rfl⟩
        · exact .inl (.inl h)
        · exact .inr rfl
      · exact .inl (.inr h)
  | defineFunction name returnType params location node =>
    rw [apply_defineFunction] at h
    simp only [scopes, List.flatMap_append, List.flatMap_singleton, List.mem_append (a := x)] at h ⊢
    rcases h with h | h
    · exact .inl (.inl h)
    · rcases Scope.mem_namesOf_declare h with h | ⟨rfl, rfl⟩
      · exact .inl (.inr h)
      · exact .inr rfl

/-- A table that a history leads to and that finds nothing but what a place offers. -/
structure At (t : SymbolTable) (root : Node) (path : Path) : Prop where
  reached : ∃ ops, SymbolTable.empty.run ops = t
  offered : ∀ kind x, (t.lookup? kind x).isSome → root.Offers path x kind

namespace At

variable {t : SymbolTable} {root : Node}

theorem wellScoped (H : t.At root path) : t.WellScoped := by
  obtain ⟨ops, rfl⟩ := H.reached
  exact wellScoped_run ops

theorem apply (H : t.At root path) (op : TableOp)
    (hmono : ∀ kind x, root.Offers path x kind → root.Offers path' x kind)
    (hop : ∀ kind x, op.declared? = some (kind, x) → root.Offers path' x kind) :
    (t.apply op).At root path' := by
  obtain ⟨ops, hops⟩ := H.reached
  have hreached : SymbolTable.empty.run (ops ++ [op]) = t.apply op := by
    rw [run_append, hops]
    rfl
  refine ⟨⟨ops ++ [op], hreached⟩, fun kind x hx => ?_⟩
  have hscoped : (t.apply op).WellScoped := by
    rw [← hreached]
    exact wellScoped_run _
  rw [hscoped.isSome_lookup?] at hx
  rcases mem_namesOf_apply op hx with hx | hx
  · exact hmono kind x (H.offered kind x (H.wellScoped.isSome_lookup? kind |>.mpr hx))
  · exact hop kind x hx

theorem mono (H : t.At root path)
    (hmono : ∀ kind x, root.Offers path x kind → root.Offers path' x kind) : t.At root path' :=
  ⟨H.reached, fun kind x hx => hmono kind x (H.offered kind x hx)⟩

/-- What is in scope at a node is in scope below it. -/
theorem child (H : t.At root path) (i : Nat) : t.At root (i :: path) := by
  refine H.mono fun kind x h => ?_
  cases kind with
  | var => exact .inr h
  | function => exact h

theorem enter (H : t.At root path) (kind : ScopeKind) (name : String) (returnType : Option Ty) :
    (t.enter kind name returnType).At root path := by
  refine H.apply (.enter kind name returnType) (fun _ _ h => h) ?_
  rintro _ _ ⟨⟩

/-- What is in scope at a statement is in scope at the next one. -/
theorem offers_succ {n : Node} (hb : root.at? block = some (.mk .block s d cs))
    (hn : root.at? (k :: block) = some n) (kind : SymbolKind) (x : String)
    (h : root.Offers (k :: block) x kind) : root.Offers ((k + 1) :: block) x kind := by
  cases kind with
  | var =>
    refine h.imp_left fun hdecl => ?_
    rw [Node.declarations_succ hb hn]
    exact List.append_ne_nil_of_left_ne_nil hdecl _
  | function => exact h

end At

/-- An operation that is refused is reported and leaves the table as it is. -/
theorem result_orReport_attempt (t : SymbolTable) (op : TableOp) :
    (Check.orReport t (t.attempt op)).result = some (t.apply op) := by
  rw [apply]
  cases t.attempt op <;> rfl

end SymbolTable

/-! ## Errors with hints -/

namespace SemanticError

/-- What was looked up and not found, with the names suggested for it. -/
def hint? (e : SemanticError) : Option (SymbolKind × String × List String) :=
  match e.cause with
  | .undeclaredVariable x similar => some (.var, x, similar)
  | .undeclaredFunction x similar => some (.function, x, similar)
  | _ => none

theorem isSome_hint? (e : SemanticError) :
    e.hint?.isSome ↔ e.code = "S010" ∨ e.code = "S015" := by
  obtain ⟨_ | _ | _ | _ | _ | _, location, node⟩ := e <;> simp [hint?, code]

/-- The names suggested are the similar ones of a table of the place, and the name itself is not
found there. -/
def Hinted (root : Node) (e : SemanticError) : Prop :=
  ∀ kind x similar, e.hint? = some (kind, x, similar) →
    ∃ (node : NodeRef) (t : SymbolTable), e.node = some node ∧ t.At root node.path ∧
      t.lookup? kind x = none ∧
      similar = t.similarNames x (some kind) SymbolTable.suggestionLimit

theorem hinted_of_hint?_eq_none {e : SemanticError} (h : e.hint? = none) : e.Hinted root := by
  intro kind x similar hsome
  cases h.symm.trans hsome

theorem Refuses.hinted {e : SemanticError} (h : e.Refuses n) : e.Hinted root := by
  obtain ⟨-, name, noun, earlier, hcause⟩ := h
  apply hinted_of_hint?_eq_none
  rw [hint?, hcause]

/-- A name that a table of the place was asked for in vain. -/
theorem hinted_of_at (kind : SymbolKind) {t : SymbolTable} {e : SemanticError} {n : NodeRef}
    (H : t.At root n.path) (hnone : t.lookup? kind x = none) (hnode : e.node = some n)
    (hhint : e.hint? =
      some (kind, x, t.similarNames x (some kind) SymbolTable.suggestionLimit)) :
    e.Hinted root := by
  intro kind' x' similar hsome
  cases hhint.symm.trans hsome
  exact ⟨n, t, hnode, H, hnone, rfl⟩

end SemanticError

namespace Check

variable {α β : Type} {x : Check α} {f : α → Check β} {root : Node}

/-- All errors that suggest names do so from what is in scope. -/
structure Hinted (root : Node) (x : Check α) : Prop where
  errors : ∀ e ∈ x.errors, e.Hinted root

theorem hinted_pure (a : α) : (pure a : Check α).Hinted root := ⟨List.forall_mem_nil _⟩

theorem hinted_report (h : e.Hinted root) : (report e).Hinted root :=
  ⟨List.forall_mem_singleton.mpr h⟩

theorem Hinted.bind (hx : x.Hinted root) (hf : ∀ a, x.result = some a → (f a).Hinted root) :
    (x >>= f).Hinted root := by
  cases h : x.result with
  | none =>
    rw [bind_of_none h]
    exact ⟨hx.errors⟩
  | some a =>
    rw [bind_of_some h]
    exact ⟨List.forall_mem_append.mpr ⟨hx.errors, (hf a h).errors⟩⟩

theorem Hinted.orExhausted (hx : x.Hinted root) (b : α) (n : NodeRef) :
    (x.orExhausted b (Stmt.tooDeep n)).Hinted root := by
  unfold Check.orExhausted
  split
  · exact hx
  · refine ⟨List.forall_mem_append.mpr ⟨hx.errors, List.forall_mem_singleton.mpr ?_⟩⟩
    exact SemanticError.hinted_of_hint?_eq_none rfl

/-- An account that lists nothing, and only says that suggestions come from what is in scope. -/
def hinting (root : Node) : Account Unit where
  Assumes _ := True
  Holds _ x := x.Hinted root
  pure := hinted_pure
  bind hx hf := hx.bind fun a ha => hf a ha trivial
  perm hx _ := hx
  orExhausted a n hx := hx.orExhausted a n

theorem untyped_hinting (root : Node) : (hinting root).Untyped := by
  intro t t' context l n
  exact hinted_report (SemanticError.hinted_of_hint?_eq_none rfl)

end Check

open Check

/-! ## Expressions and statements -/

namespace SymbolTable.At

variable {t : SymbolTable} {root : Node}

theorem hinted_varFault? (H : t.At root n.path) (h : t.varFault? x n = some e) :
    e.Hinted root := by
  unfold varFault? at h
  split at h
  · cases h
  · next hnone =>
    cases h
    exact SemanticError.hinted_of_at .var H hnone rfl rfl

theorem hinted_callFault? (H : t.At root n.path) (h : t.callFault? x count n = some e) :
    e.Hinted root := by
  unfold callFault? at h
  split at h
  · next hnone =>
    cases h
    exact SemanticError.hinted_of_at .function H hnone rfl rfl
  · split at h
    · cases h
    · cases h
      exact SemanticError.hinted_of_hint?_eq_none rfl

end SymbolTable.At

theorem Expr.hinted_fault? {table : SymbolTable} {e : Expr} (H : table.At root path)
    (h : e.fault? table path = some err) : err.Hinted root := by
  cases e with
  | var x s => exact SymbolTable.At.hinted_varFault? (n := ⟨path, .var, s⟩) H h
  | call f args s => exact SymbolTable.At.hinted_callFault? (n := ⟨path, .call, s⟩) H h
  | _ => cases h

theorem Expr.accounted_hinting (table : SymbolTable) (root : Node) :
    Accounted (hinting root) (fun _ => []) (fun _ => []) (fun _ => []) table
      fun _ path _ => table.At root path where
  split _ := rfl
  untyped := untyped_hinting root
  exhausted _ := ⟨List.forall_mem_nil _⟩
  noted _ _ := ⟨List.forall_mem_nil _⟩
  raised H := (hinting root).raise (hinted_pure ()) fun _ he => hinted_report (hinted_fault? H he)
  operand H := H.child 0
  left H := H.child 0
  right H := H.child 1
  arg H _ := H.child _

namespace Stmt

theorem hinted_fault? {table : SymbolTable} {s : Stmt} (H : table.At root path)
    (h : s.fault? table path = some e) : e.Hinted root := by
  cases s with
  | letVar => exact (SymbolTable.refuses_of_defineVar h).hinted
  | assign x v span => exact SymbolTable.At.hinted_varFault? (n := ⟨path, .assign, span⟩) H h
  | _ => cases h

/-- What a statement gives is a table of the next place. -/
theorem gives_at {table : SymbolTable} {root : Node} {block : Path}
    (H : table.At root (k :: block)) (hb : root.at? block = some (.mk .block sb d cs))
    (s : Stmt) (hat : root.at? (k :: block) = some s.node) :
    (s.check levels table (k :: block)).Gives (·.At root ((k + 1) :: block)) := by
  have hmono := SymbolTable.At.offers_succ hb hat
  by_cases hs : s.kind = .letVar
  · cases s with
    | letVar x type e span =>
      have hlet : (checkLet levels table ⟨k :: block, .letVar, span⟩ x type e).Gives
          (·.At root ((k + 1) :: block)) := by
        refine gives_bind_of_forall fun _ => gives_bind_of_forall fun _ => gives_bind_of_forall
          fun _ t ht => ?_
        obtain rfl := Option.some.inj
          ((table.result_orReport_attempt (.defineVar x ..)).symm.trans ht)
        refine H.apply _ hmono ?_
        rintro _ _ ⟨⟩
        refine .inl ?_
        rw [Node.declarations_succ hb hat]
        simp [Node.declares, node, Node.kind, Node.detail]
      obtain ⟨t, ht, hnext⟩ := hlet.orExhausted (H.mono hmono)
      intro t' ht'
      rwa [← Option.some.inj (ht.symm.trans ht')]
    | _ => cases hs
  · intro t ht
    rw [gives_self table _ hs t ht]
    exact H.mono hmono

/-- The table is one of the place of the first of these statements. -/
structure Placed (root : Node) (table : SymbolTable) (block : Path) (k : Nat) (ss : List Stmt) :
    Prop where
  place : table.At root (k :: block)
  at_block : ∃ s d cs, root.at? block = some (.mk .block s d cs)
  statements : root.HasFrom block k (nodes ss)

theorem accounted_hinting (levels : Nat) (root : Node) :
    Accounted (hinting root) (fun _ => []) levels (Placed root) where
  mute _ := hinted_pure ()
  opening {table path i s ss} H hs := by
    refine holds_opening (fun _ => (List.append_nil []).symm) (untyped_hinting root) (i :: path)
      hs (fun _ _ => hinted_pure ())
      (fun j e _ => (Expr.accounted_hinting table root).holds_check (H.place.child j)) ?_ ?_
    · cases s <;> exact ⟨List.forall_mem_nil _⟩
    · exact (hinting root).raise (hinted_pure ()) fun _ he =>
        hinted_report (hinted_fault? H.place he)
  body {table path i s ss j kind name ss'} H hbody := by
    obtain ⟨r, hchild⟩ := hbody.children
    have hblock := Node.at?_child H.statements.head hchild
    exact ⟨((H.place.child j).child 0).enter .., ⟨_, _, _, hblock⟩, Node.hasFrom_zero hblock⟩
  tail {table path i s ss t} H ht _ := by
    obtain ⟨hplace, ⟨sb, d, cs, hb⟩, hfrom⟩ := H
    exact ⟨gives_at hplace hb s hfrom.head t ht, ⟨sb, d, cs, hb⟩, hfrom.tail⟩

end Stmt

/-! ## Programs -/

/-- Parameters that a place offers may be declared in a table of it. -/
theorem Function.gives_at_declareParams {table : SymbolTable} (H : table.At root path)
    (ps : List Param) (hps : ∀ p ∈ ps, root.Resolves p.name path) :
    (declareParams table ps).Gives (·.At root path) := by
  induction ps generalizing table with
  | nil => exact gives_pure H
  | cons p ps ih =>
    rw [List.forall_mem_cons] at hps
    refine Gives.bind (P := (·.At root path)) (fun t ht => ?_) fun t ht => ih ht hps.2
    obtain rfl := Option.some.inj
      ((table.result_orReport_attempt (.defineVar p.name ..)).symm.trans ht)
    refine H.apply _ (fun _ _ h => h) ?_
    rintro _ _ ⟨⟩
    exact hps.1

/-- Functions of the program may be declared in a table of the outermost place. -/
theorem Function.gives_at_declareAll {table : SymbolTable} (H : table.At root []) (i : Nat)
    (fs : List Function) (hfs : ∀ f ∈ fs, f.node ∈ root.children) :
    (declareAll table i fs).Gives (·.At root []) := by
  induction fs generalizing table i with
  | nil => exact gives_pure H
  | cons f fs ih =>
    rw [List.forall_mem_cons] at hfs
    refine Gives.bind (P := (·.At root [])) (fun t ht => ?_) fun t ht => ih ht (i + 1) hfs.2
    obtain rfl := Option.some.inj
      ((table.result_orReport_attempt (.defineFunction f.name ..)).symm.trans ht)
    refine H.apply _ (fun _ _ h => h) ?_
    rintro _ _ ⟨⟩
    exact List.any_eq_true.mpr ⟨f.node, hfs.1, by simp [node, Node.isFunction]⟩

theorem SymbolTable.at_empty (root : Node) : SymbolTable.empty.At root [] := by
  refine ⟨⟨[], rfl⟩, fun kind x h => ?_⟩
  have hmem : x ∈ ([] : List String) := ((wellScoped_run []).isSome_lookup? kind).mp h
  cases hmem

namespace Program

/-- The body of a function starts in a table of its place. -/
theorem placed_body (p : Program) {t : SymbolTable}
    (ht : (Function.declareAll .empty 0 p.functions).result = some t)
    (hf : (f, i) ∈ p.functions.zipIdx)
    (ht' : (Function.declareParams (t.enter .function f.name (some f.resultType))
      f.params).result = some t') :
    Stmt.Placed p.node t' [f.params.length + 1, i] 0 f.body.body := by
  have hat := p.at?_function hf
  have hbody := f.at?_body hat
  have hparams : ∀ q ∈ f.params, p.node.Resolves q.name [0, f.params.length + 1, i] := by
    intro q hq
    refine .inl (List.ne_nil_of_mem (a := q.location) ?_)
    simp only [Node.declarations, hbody, Block.node, List.tail_cons, hat, Option.elim_some]
    refine List.mem_append_left _ (List.mem_map_of_mem (List.mem_filter.mpr ⟨hq, ?_⟩))
    exact decide_eq_true rfl
  have H : t.At p.node [] := Function.gives_at_declareAll (SymbolTable.at_empty p.node) 0
    p.functions (fun f hf => List.mem_map_of_mem hf) t ht
  have Hbody := (((H.child i).child (f.params.length + 1)).child 0).enter .function f.name
    (some f.resultType)
  exact ⟨Function.gives_at_declareParams Hbody f.params hparams t' ht', ⟨_, _, _, hbody⟩,
    Node.hasFrom_zero hbody⟩

theorem accounted_hinting (levels : Nat) (p : Program) :
    Accounted (hinting p.node) (fun _ => []) levels p (fun _ _ => []) (fun _ _ => [])
      (Stmt.Placed p.node) where
  statements := Stmt.accounted_hinting levels p.node
  split _ _ _ := rfl
  declared := Function.holds_declareAll (l := fun _ _ => []) (fun t f i =>
    Function.holds_declare t f i (hinted_pure ()) fun _ he => hinted_report he.hinted) ..
  params _ _ := Function.holds_declareParams (fun _ he => hinted_report he.hinted) ..
  ready := p.placed_body

/-- All names that the check of a program suggests come from tables of their places. -/
theorem hinted_check (p : Program) : (p.check levels).Hinted p.node :=
  (p.accounted_hinting levels).holds_check

end Program

namespace Analysis

/-- After any history the table lists, once each, the names that it finds; those it suggests are the
five nearest within two edits. So what the report of an unknown variable or function suggests is
found by the table that was asked, is in scope there, and is not the name reported. -/
theorem hints_ranked_and_in_scope (ops : List TableOp) (levels : Nat) (p : Program) :
    (∀ kind, ((SymbolTable.empty.run ops).visibleNames (some kind)).Nodup ∧
      (∀ x, x ∈ (SymbolTable.empty.run ops).visibleNames (some kind) ↔
        ((SymbolTable.empty.run ops).lookup? kind x).isSome) ∧
      ∀ name, ∃ ranked, (SymbolTable.empty.run ops).Ranked name kind 2 ranked ∧
        (SymbolTable.empty.run ops).similarNames name (some kind) 2 = ranked.take 5) ∧
    ∀ e ∈ (ofProgram levels p).errors, e.code = "S010" ∨ e.code = "S015" →
      ∃ kind x similar, ∃ (node : NodeRef) (t : SymbolTable),
        e.hint? = some (kind, x, similar) ∧ e.node = some node ∧ t.At p.node node.path ∧
        t.lookup? kind x = none ∧ similar = t.similarNames x (some kind) 2 ∧
        ∀ y ∈ similar, y ≠ x ∧ (t.lookup? kind y).isSome ∧ p.node.Offers node.path y kind := by
  refine ⟨fun kind => ?_, fun e he hcode => ?_⟩
  · have hscoped := SymbolTable.wellScoped_run ops
    exact ⟨SymbolTable.nodup_visibleNames _ kind, fun x => hscoped.mem_visibleNames kind,
      fun name => hscoped.exists_ranked name kind 2⟩
  · obtain ⟨⟨kind, x, similar⟩, hhint⟩ := Option.isSome_iff_exists.mp (e.isSome_hint?.mpr hcode)
    obtain ⟨node, t, hnode, hat, hnone, hsimilar⟩ :=
      p.hinted_check.errors e he kind x similar hhint
    refine ⟨kind, x, similar, node, t, hhint, hnode, hat, hnone, hsimilar, fun y hy => ?_⟩
    obtain ⟨ranked, hranked, htake⟩ := hat.wellScoped.exists_ranked x kind 2
    rw [hsimilar] at hy
    have hfound := ((hranked.mem y).mp (List.mem_of_mem_take (htake ▸ hy))).1
    refine ⟨?_, hfound, hat.offered kind y hfound⟩
    rintro rfl
    rw [hnone] at hfound
    cases hfound

/-- The report of the unknown `g` suggests `f`. -/
theorem hints_of_muddled : ∃ e ∈ (ofProgram 100 .muddled).errors, e.code = "S015" ∧
    ∃ kind, ∃ node : NodeRef, e.hint? = some (kind, "g", ["f"]) ∧ e.node = some node ∧
      Program.muddled.node.Offers node.path "f" kind := by
  let s : Span := .point ⟨"muddled", 1, 9, 9⟩
  let e : SemanticError :=
    ⟨.undeclaredFunction "g" ["f"], s.start, some ⟨[0, 0, 2, 3, 0], .call, s⟩⟩
  have he : e ∈ (ofProgram 100 .muddled).errors := by decide +kernel
  obtain ⟨kind, x, similar, node, t, hhint, hnode, -, -, -, hscope⟩ :=
    (hints_ranked_and_in_scope [] 100 .muddled).2 e he (.inr rfl)
  cases hhint
  exact ⟨e, he, rfl, _, node, rfl, hnode, (hscope "f" List.mem_cons_self).2.2⟩

end Analysis

end BracketLang
