import BracketLang.Proofs.Typing.Coverage
import BracketLang.Proofs.Typing.Mismatches
import BracketLang.Proofs.Typing.NameErrors

/-! One report for each cause. A part of a program that is reported gets the type `error`, which
agrees with every other, so that what is around it does not report it again. `Check.Careful` carries
this through a check: no node is blamed twice for the same kind of error, the nodes that are blamed
are among those that the check goes over, and every mismatch is between types that are known, one of
which was noted for the child that it is about. -/

namespace BracketLang

variable {levels : Nat}

/-! ## Careful checks -/

namespace Check

variable {α β : Type} {x : Check α} {f : α → Check β} {root : Node} {types : List (Path × Ty)}
  {P Q : Path × String → Prop} {l l' : List (Path × Node)}

/-- What the check blames, and for what. -/
def keys (x : Check α) : List (Path × String) := x.errors.filterMap SemanticError.key?

theorem keys_bind (h : x.result = some a) : (x >>= f).keys = x.keys ++ (f a).keys := by
  rw [keys, bind_of_some h]
  exact List.filterMap_append

/-- No node is blamed twice for the same, all that is blamed is in `region`, and the reports are
founded. -/
structure Reported (x : Check α) (root : Node) (types : List (Path × Ty))
    (region : Path × String → Prop) : Prop where
  once : x.keys.Nodup
  within : ∀ k ∈ x.keys, region k
  founded : ∀ e ∈ x.errors, e.Founded root types

theorem reported_of_errors (h : x.errors = []) : x.Reported root types P := by
  have hkeys : x.keys = [] := by rw [keys, h]; rfl
  refine ⟨?_, ?_, ?_⟩
  · rw [hkeys]
    exact List.nodup_nil
  · rw [hkeys]
    exact List.forall_mem_nil _
  · rw [h]
    exact List.forall_mem_nil _

theorem reported_report (he : e.Founded root types) (hkey : ∀ k ∈ e.key?, P k) :
    (report e).Reported root types P := by
  have hkeys : (report e).keys = e.key?.toList := by
    cases h : e.key? <;> simp [keys, report, h]
  refine ⟨?_, ?_, List.forall_mem_singleton.mpr he⟩
  · rw [hkeys]
    cases e.key? with
    | none => exact List.nodup_nil
    | some k => exact List.nodup_singleton k
  · rw [hkeys]
    exact fun k hk => hkey k (Option.mem_toList.mp hk)

theorem Reported.mono (hx : x.Reported root types P) (h : ∀ k, P k → Q k) :
    x.Reported root types Q :=
  ⟨hx.once, fun k hk => h k (hx.within k hk), hx.founded⟩

/-- Two checks, the second of which blames nothing that the first has blamed. -/
theorem Reported.bind (hx : x.Reported root types P)
    (hf : ∀ a, x.result = some a → (f a).Reported root types fun k => P k ∧ k ∉ x.keys) :
    (x >>= f).Reported root types P := by
  cases ha : x.result with
  | none =>
    rw [bind_of_none ha]
    exact ⟨hx.once, hx.within, hx.founded⟩
  | some a =>
    obtain ⟨honce, hwithin, hfounded⟩ := hf a ha
    refine ⟨?_, ?_, ?_⟩
    · rw [keys_bind ha]
      refine List.nodup_append.mpr ⟨hx.once, honce, ?_⟩
      rintro k hk _ hk' rfl
      exact (hwithin k hk').2 hk
    · rw [keys_bind ha]
      exact List.forall_mem_append.mpr ⟨hx.within, fun k hk => (hwithin k hk).1⟩
    · rw [bind_of_some ha]
      exact List.forall_mem_append.mpr ⟨hx.founded, hfounded⟩

/-- What the check reports is founded on the types that it and others note, and blames nodes that
are listed, which all stand at different paths. -/
structure Careful (x : Check α) (root : Node) (types : List (Path × Ty))
    (l : List (Path × Node)) : Prop where
  reported : x.types ⊆ types → (l.map Prod.fst).Nodup →
    x.Reported root types fun k => k.1 ∈ l.map Prod.fst

theorem careful_of_errors (h : x.errors = []) : x.Careful root types l :=
  ⟨fun _ _ => reported_of_errors h⟩

theorem careful_pure (a : α) : (pure a : Check α).Careful root types l := careful_of_errors rfl

theorem careful_report (he : e.Founded root types)
    (hnode : ∀ n ∈ e.node, n.path ∈ l.map Prod.fst) : (report e).Careful root types l := by
  refine ⟨fun _ _ => reported_report he fun k hk => ?_⟩
  obtain ⟨n, hn, rfl⟩ := Option.map_eq_some_iff.mp hk
  exact hnode n hn

/-- Reports about names need no foundation. -/
theorem careful_naming (he : e.isNaming) (hnode : ∀ n ∈ e.node, n.path ∈ l.map Prod.fst) :
    (report e).Careful root types l := by
  refine careful_report (SemanticError.founded_of_cause fun t t' c hcause => ?_) hnode
  rw [SemanticError.isNaming, hcause] at he
  cases he

namespace Careful

theorem perm (hx : x.Careful root types l) (h : l.Perm l') : x.Careful root types l' := by
  refine ⟨fun ht hnodup => ?_⟩
  have hpaths := h.map Prod.fst
  exact (hx.reported ht (hpaths.nodup_iff.mpr hnodup)).mono fun k hk => hpaths.mem_iff.mp hk

/-- What follows may blame the same nodes, but for nothing else that they were blamed for. -/
theorem bind_within (hx : x.Careful root types l)
    (hf : ∀ a, x.result = some a → x.types ⊆ types → (l.map Prod.fst).Nodup →
      (f a).Reported root types fun k => k.1 ∈ l.map Prod.fst ∧ k ∉ x.keys) :
    (x >>= f).Careful root types l := by
  refine ⟨fun ht hnodup => ?_⟩
  have htx := List.Subset.trans (types_prefix_bind x f).subset ht
  exact (hx.reported htx hnodup).bind fun a ha => hf a ha htx hnodup

/-- What follows may blame other nodes. -/
theorem bind (hx : x.Careful root types l)
    (hf : ∀ a, x.result = some a → x.types ⊆ types → (f a).Careful root types l') :
    (x >>= f).Careful root types (l ++ l') := by
  refine ⟨fun ht hnodup => ?_⟩
  rw [List.map_append] at hnodup
  obtain ⟨hl, hl', hdisjoint⟩ := List.nodup_append.mp hnodup
  have htx := List.Subset.trans (types_prefix_bind x f).subset ht
  have hreported := hx.reported htx hl
  refine (hreported.mono fun k hk => ?_).bind fun a ha => ?_
  · rw [List.map_append]
    exact List.mem_append_left _ hk
  · rw [bind_of_some ha] at ht
    refine ((hf a ha htx).reported (List.append_subset.mp ht).2 hl').mono fun k hk => ⟨?_, ?_⟩
    · rw [List.map_append]
      exact List.mem_append_right _ hk
    · exact fun hkx => hdisjoint _ (hreported.within k hkx) _ hk rfl

theorem bind_pure (hx : x.Careful root types l) (g : α → β) :
    (do let a ← x; return g a).Careful root types l := by
  have h := hx.bind fun a _ _ => careful_pure (l := []) (g a)
  rwa [List.append_nil] at h

theorem cons (hx : x.Careful root types l) (q : Path × Node) :
    x.Careful root types (q :: l) := by
  have h := (careful_pure (l := [q]) ()).bind fun _ _ _ => hx
  rwa [LawfulMonad.pure_bind] at h

end Careful

/-- An account of the nodes that may be blamed, as long as nothing runs out of levels. -/
def caring (root : Node) (types : List (Path × Ty)) : Account (Path × Node) :=
  .ofComplete (fun l x => x.Careful root types l) careful_pure
    (fun hx hf => hx.bind fun a ha _ => hf a ha) .perm

end Check

open Check SemanticError

/-! ## Expressions -/

theorem Node.not_cons_suffix (i : Nat) (path : Path) : ¬ i :: path <:+ path := by
  intro h
  exact absurd h.length_le (by simp)

theorem Node.not_mem_paths_child (n : Node) (i : Nat) (path : Path) :
    path ∉ (n.places (i :: path)).map Prod.fst := by
  intro hmem
  obtain ⟨q, hq, rfl⟩ := List.mem_map.mp hmem
  exact not_cons_suffix i q.1 (suffix_of_mem_places n q hq)

theorem Node.not_mem_paths_children (cs : List Node) (i : Nat) (path : Path) :
    path ∉ (placesFrom false path i cs).map Prod.fst := by
  intro hmem
  obtain ⟨q, hq, rfl⟩ := List.mem_map.mp hmem
  obtain ⟨j, -, hj⟩ := suffix_of_mem_placesFrom cs q hq
  exact not_cons_suffix j q.1 hj

theorem Node.not_mem_paths_sibling (n : Node) (path : Path) (h : i ≠ j) :
    j :: path ∉ (n.places (i :: path)).map Prod.fst := by
  intro hmem
  obtain ⟨⟨_, m⟩, hq, rfl⟩ := List.mem_map.mp hmem
  exact h (eq_of_cons_suffix (suffix_of_mem_places n _ hq) (List.suffix_refl _))

theorem Node.not_mem_paths_behind (cs : List Node) (path : Path) (h : j < i) :
    j :: path ∉ (placesFrom false path i cs).map Prod.fst := by
  intro hmem
  obtain ⟨⟨_, m⟩, hq, rfl⟩ := List.mem_map.mp hmem
  obtain ⟨k, hk, hsuffix⟩ := suffix_of_mem_placesFrom cs _ hq
  have heq := eq_of_cons_suffix hsuffix (List.suffix_refl _)
  omega

namespace Check

variable {root : Node} {types : List (Path × Ty)}

/-- The check of the expression with node `n` is careful, its result is noted, and if the type is
known, the expression itself is not blamed for a mismatch. -/
structure Settles (x : Check Ty) (root : Node) (types : List (Path × Ty)) (path : Path)
    (n : Node) : Prop where
  careful : x.Careful root types (n.places path)
  noted {t} : x.result = some t → (path, t) ∈ x.types
  unblamed {t} : x.result = some t → t ≠ .error → x.types ⊆ types →
    (path, "TYPE_MISMATCH") ∉ x.keys

/-- The same for arguments, the first of which has the given index. -/
structure SettlesAll (x : Check (List Ty)) (root : Node) (types : List (Path × Ty)) (path : Path)
    (i : Nat) (es : List Expr) : Prop where
  careful : x.Careful root types (Node.placesFrom false path i (Expr.nodes es))
  noted {ts} : x.result = some ts → ∀ q ∈ ts.zipIdx i, (q.2 :: path, q.1) ∈ x.types
  unblamed {ts} : x.result = some ts → x.types ⊆ types → ∀ q ∈ ts.zipIdx i, q.1 ≠ .error →
    (q.2 :: path, "TYPE_MISMATCH") ∉ x.keys

/-- What is not in the expression is not blamed with it. -/
theorem Settles.not_mem_keys {x : Check Ty} {n : Node} (h : x.Settles root types path n)
    (ht : x.types ⊆ types) (hpath : path' ∉ (n.places path).map Prod.fst) :
    (path', kind) ∉ x.keys := by
  intro hmem
  exact hpath ((h.careful.reported ht (n.nodup_places _)).within _ hmem)

theorem SettlesAll.not_mem_keys {x : Check (List Ty)} (h : x.SettlesAll root types path i es)
    (ht : x.types ⊆ types)
    (hpath : path' ∉ (Node.placesFrom false path i (Expr.nodes es)).map Prod.fst) :
    (path', kind) ∉ x.keys := by
  intro hmem
  exact hpath ((h.careful.reported ht (Node.nodup_placesFrom ..)).within _ hmem)

/-- The type is noted behind all else. -/
theorem settles_noted {x : Check Ty} {n : Node} (hx : x.Careful root types (n.places path))
    (hself : ∀ t, x.result = some t → t ≠ .error → x.types ⊆ types →
      (path, "TYPE_MISMATCH") ∉ x.keys) :
    (Expr.noted path x).Settles root types path n where
  careful := hx.bind_within fun _ _ _ _ => reported_of_errors rfl
  noted {t} h := by
    obtain ⟨t', ht', hresult⟩ := result_bind_eq_some h
    obtain rfl : t' = t := Option.some.inj hresult
    rw [Expr.noted, bind_of_some ht']
    exact List.mem_append_right _ List.mem_cons_self
  unblamed {t} h hknown hsub := by
    obtain ⟨t', ht', hresult⟩ := result_bind_eq_some h
    obtain rfl : t' = t := Option.some.inj hresult
    have hsub : x.types ⊆ types := List.Subset.trans (types_prefix_bind ..).subset hsub
    have hkeys : (Expr.noted path x).keys = x.keys := by
      rw [Expr.noted, keys_bind ht']
      exact List.append_nil _
    rw [hkeys]
    exact hself t' ht' hknown hsub

/-- Operands are compared with the blame on their operator. -/
theorem Verdict.careful {x : Path → Check Ty} (h : Verdict k s Says U x) (path : Path) (n : Node)
    (hfounded : ∀ t t' context l, ¬ U → t ≠ .error → t' ≠ .error → Says context →
      (mismatch t t' context l ⟨path, k, s⟩).Founded root types) :
    (x path).Careful root types [(path, n)] := by
  cases h with
  | gives r _ hx =>
    rw [hx]
    exact careful_pure r
  | reports t t' context l hknown ht ht' hcontext hx =>
    rw [hx]
    have hreport : (report (mismatch t t' context l ⟨path, k, s⟩)).Careful root types
        [(path, n)] := by
      refine careful_report (hfounded t t' context l hknown ht ht' hcontext) ?_
      rintro _ ⟨⟩
      exact List.mem_singleton_self path
    exact hreport.bind_within fun _ _ _ _ => reported_of_errors rfl

theorem Verdict.keys_eq_nil {x : Path → Check Ty} (h : Verdict k s Says U x)
    (hr : (x path).result = some t) (ht : t ≠ .error) : (x path).keys = [] := by
  cases h with
  | gives r _ hx =>
    rw [hx]
    rfl
  | reports t t' context l _ _ _ _ hx =>
    rw [hx] at hr
    exact absurd (Option.some.inj hr).symm ht

end Check

theorem SemanticError.kindName_of_isNaming {e : SemanticError} (h : e.isNaming) :
    e.kindName ≠ "TYPE_MISMATCH" := by
  obtain ⟨_ | _ | _ | _ | _ | _, location, node⟩ := e <;> simp_all [kindName, isNaming]

namespace Expr

theorem ref_node (path : Path) (e : Expr) : e.node.ref path = e.ref path := by
  cases e <;> rfl

section
variable {root : Node} {types : List (Path × Ty)} {table : SymbolTable}

theorem settles_nameless (path : Path) (n : Node) (t : Ty) :
    (noted path (pure t)).Settles root types path n :=
  settles_noted (careful_pure t) fun _ _ _ _ => List.not_mem_nil

theorem careful_fault? (e : Expr) (path : Path) (n : Node) :
    (raise (e.fault? table path)).Careful root types [(path, n)] := by
  cases h : e.fault? table path with
  | none => exact careful_pure ()
  | some err =>
    obtain ⟨hnaming, hnode⟩ := of_fault? h
    refine careful_naming hnaming ?_
    rw [hnode]
    rintro _ ⟨⟩
    exact List.mem_singleton_self path

theorem not_mem_keys_fault? (e : Expr) (path : Path) :
    (path, "TYPE_MISMATCH") ∉ (raise (e.fault? table path)).keys := by
  cases h : e.fault? table path with
  | none => exact List.not_mem_nil
  | some err =>
    obtain ⟨hnaming, hnode⟩ := of_fault? h
    have hkeys : (raise (some err)).keys = [(path, err.kindName)] := by
      simp [raise, keys, report, key?, hnode, ref]
    rw [hkeys, List.mem_singleton]
    intro heq
    exact kindName_of_isNaming hnaming (Prod.mk.inj heq).2.symm

theorem settles_var (path : Path) (x : String) (s : Span) :
    (noted path (checkVar table x ⟨path, .var, s⟩)).Settles root types path (var x s).node := by
  have hraise : (raise (table.varFault? x ⟨path, .var, s⟩)).Careful root types
      [(path, (var x s).node)] := careful_fault? (var x s) path _
  rw [checkVar_eq_bind]
  refine settles_noted (hraise.bind_within fun _ _ _ _ => reported_of_errors rfl) ?_
  intro t ht _ _
  obtain ⟨_, hr, -⟩ := result_bind_eq_some ht
  rw [keys_bind hr]
  exact List.not_mem_append (not_mem_keys_fault? (var x s) path) List.not_mem_nil

theorem settles_unary {x : Check Ty} (hat : root.at? path = some (unary op e s).node)
    (hx : x.Settles root types (0 :: path) e.node) :
    (noted path do
      let t ← x
      checkUnary op e t ⟨path, .unary, s⟩).Settles root types path (unary op e s).node := by
  have hverdict (t : Ty) := verdict_checkUnary op e s t
  have hfounded (t : Ty) (hnoted : (0 :: path, t) ∈ types) (expected actual : Ty)
      (context : String) (l : Location) (ht : t ≠ .error) (hexpected : expected ≠ .error)
      (hactual : actual ≠ .error) (hcontext : context = s!"operand of unary '{op}'") :
      (mismatch expected actual context l ⟨path, .unary, s⟩).Founded root types := by
    subst hcontext
    refine founded_itself hexpected hactual hat (i := 0) rfl .unary rfl fun i c hc => ?_
    match i with
    | 0 => exact ⟨t, ht, hnoted⟩
    | i + 1 => cases hc
  refine settles_noted ?_ fun r hr hknown hsub => ?_
  · rw [places_unary]
    refine Careful.perm (hx.careful.bind fun t ht hsub => ?_) (List.perm_append_singleton ..)
    exact (hverdict t).careful path _ (hfounded t (hsub (hx.noted ht)))
  · obtain ⟨t, ht, hv⟩ := result_bind_eq_some hr
    have hsub : x.types ⊆ types := List.Subset.trans (types_prefix_bind ..).subset hsub
    rw [keys_bind ht, (hverdict t).keys_eq_nil hv hknown, List.append_nil]
    exact hx.not_mem_keys hsub (Node.not_mem_paths_child _ _ _)

/-- An operator reports a mismatch if both operands have a type. -/
theorem settles_binary {x y : Check Ty} (hat : root.at? path = some (binary l op r s).node)
    (hx : x.Settles root types (0 :: path) l.node) (hy : y.Settles root types (1 :: path) r.node) :
    (noted path do
      let t ← x
      let t' ← y
      Link.resultType ⟨path, l, op, r, s⟩ t t').Settles root types path
        (binary l op r s).node := by
  have hverdict (t t' : Ty) := Link.verdict_resultType l op r s t t'
  have hfounded (t t' : Ty) (ht : (0 :: path, t) ∈ types) (ht' : (1 :: path, t') ∈ types)
      (expected actual : Ty) (context : String) (location : Location)
      (hknown : ¬ Link.Unknown op t t') (hexpected : expected ≠ .error)
      (hactual : actual ≠ .error) (hcontext : Link.Says op context) :
      (mismatch expected actual context location ⟨path, .binary, s⟩).Founded root types := by
    obtain ⟨hl, hrest⟩ := not_or.mp hknown
    obtain ⟨hr, -⟩ := not_or.mp hrest
    have hw : (binary l op r s).node.Wants 0 context := by
      rcases hcontext with rfl | rfl
      · exact .operand
      · exact .operands
    refine founded_itself hexpected hactual hat rfl hw rfl fun i c hc => ?_
    match i with
    | 0 => exact ⟨t, hl, ht⟩
    | 1 => exact ⟨t', hr, ht'⟩
    | i + 2 => cases hc
  refine settles_noted ?_ fun type hr hknown hsub => ?_
  · rw [places_binary]
    refine Careful.perm (hx.careful.bind fun t ht hsub => hy.careful.bind fun t' ht' hsub' => ?_)
      (.trans (.of_eq (List.append_assoc ..).symm) (List.perm_append_singleton ..))
    exact (hverdict t t').careful path _
      (hfounded t t' (hsub (hx.noted ht)) (hsub' (hy.noted ht')))
  · obtain ⟨t, ht, hr⟩ := result_bind_eq_some hr
    obtain ⟨t', ht', hv⟩ := result_bind_eq_some hr
    rw [bind_of_some ht, bind_of_some ht', List.append_subset, List.append_subset] at hsub
    rw [keys_bind ht, keys_bind ht', (hverdict t t').keys_eq_nil hv hknown, List.append_nil]
    exact List.not_mem_append (hx.not_mem_keys hsub.1 (Node.not_mem_paths_child _ _ _))
      (hy.not_mem_keys hsub.2.1 (Node.not_mem_paths_child _ _ _))

/-- A child that a type is asked of is blamed for a mismatch if its own type is known. -/
theorem reported_expectType {n : Node} {e : Expr} (hat : root.at? path = some n)
    (hc : root.at? (i :: path) = some e.node) (hw : n.Wants i context)
    (hself : n.blamesItself = false) (hnoted : (i :: path, t) ∈ types) (expected : Ty) :
    (Stmt.expectType expected t context e (i :: path)).Reported root types
      fun k => t ≠ .error ∧ k = (i :: path, "TYPE_MISMATCH") := by
  rcases Stmt.expectType_cases expected t context e with heq | ⟨hexpected, ht, heq⟩
  · rw [heq]
    exact reported_of_errors rfl
  · rw [heq]
    have hfounded (l : Location) := founded_child (l := l) hexpected ht hat hc hw hself hnoted
    rw [ref_node] at hfounded
    refine reported_report (hfounded _) ?_
    rintro _ ⟨⟩
    exact ⟨ht, rfl⟩

/-- Arguments are blamed one by one, and only those that have a type. -/
theorem reported_compareArgs (hat : root.at? path = some (.mk .call s (.text f) cs)) (i : Nat)
    (es : List Expr) (params ts : List Ty) (hfrom : root.HasFrom path i (nodes es))
    (hnoted : ∀ q ∈ ts.zipIdx i, (q.2 :: path, q.1) ∈ types) :
    (compareArgs f path i es params ts).Reported root types fun k =>
      k.1 ∈ (Node.placesFrom false path i (nodes es)).map Prod.fst ∧
        ∃ q ∈ ts.zipIdx i, q.1 ≠ .error ∧ k = (q.2 :: path, "TYPE_MISMATCH") := by
  induction params generalizing i es ts with
  | nil =>
    rw [compareArgs_nil]
    exact reported_of_errors rfl
  | cons param params ih =>
    match es, ts with
    | [], _ | _ :: _, [] => exact reported_of_errors rfl
    | e :: es, t :: ts =>
      rw [List.zipIdx_cons, List.forall_mem_cons] at hnoted
      have hfirst := reported_expectType hat hfrom.head .argument rfl hnoted.1 param
      have hrest := ih (i + 1) es ts hfrom.tail hnoted.2
      rw [compareArgs_cons, placesFrom_nodes_cons, List.map_append]
      refine (hfirst.mono ?_).bind fun _ _ => hrest.mono ?_
      · rintro _ ⟨hknown, rfl⟩
        refine ⟨List.mem_append_left _ ?_, (t, i), List.mem_cons_self, hknown, rfl⟩
        exact List.mem_map_of_mem (Node.mem_places_self e.node (i :: path))
      · rintro _ ⟨hmem, q, hq, hknown, rfl⟩
        refine ⟨⟨List.mem_append_right _ hmem, q, List.mem_cons_of_mem _ hq, hknown, rfl⟩, ?_⟩
        -- the first argument has an index of its own
        intro hmem
        obtain ⟨-, hkey⟩ := hfirst.within _ hmem
        obtain ⟨hi, -⟩ := List.cons.inj (Prod.mk.inj hkey).1
        have hle := List.le_snd_of_mem_zipIdx hq
        omega

/-- An argument that is blamed itself has no type, and so it is not blamed for that of its
parameter. -/
theorem settles_call {x : Check (List Ty)} (hat : root.at? path = some (call f es s).node)
    (hx : x.SettlesAll root types path 0 es) :
    (noted path (checkCallWith table f es x ⟨path, .call, s⟩)).Settles root types path
      (call f es s).node := by
  have hraise : (raise (table.callFault? f es.length ⟨path, .call, s⟩)).Careful root types
      [(path, (call f es s).node)] := careful_fault? (call f es s) path _
  have hcompare (ts : List Ty) (hts : x.result = some ts) (hsub : x.types ⊆ types) :=
    reported_compareArgs hat 0 es (table.wanted f es.length) ts (Node.hasFrom_zero hat)
      fun q hq => hsub (hx.noted hts q hq)
  rw [checkCallWith_eq_bind]
  refine settles_noted ?_ fun t hr hknown hsub => ?_
  · refine hraise.bind fun _ _ _ => hx.careful.bind_within fun ts hts hsub _ => ?_
    have hcompared := (hcompare ts hts hsub).mono (Q := fun k =>
      k.1 ∈ (Node.placesFrom false path 0 (nodes es)).map Prod.fst ∧ k ∉ x.keys) <| by
        rintro _ ⟨hmem, q, hq, hknown, rfl⟩
        exact ⟨hmem, hx.unblamed hts hsub q hq hknown⟩
    exact hcompared.bind fun _ _ => reported_of_errors rfl
  · obtain ⟨_, hr₀, hr⟩ := result_bind_eq_some hr
    obtain ⟨ts, hts, hr⟩ := result_bind_eq_some hr
    obtain ⟨_, hr₁, -⟩ := result_bind_eq_some hr
    rw [bind_of_some hr₀, bind_of_some hts, List.append_subset, List.append_subset] at hsub
    rw [keys_bind hr₀, keys_bind hts, keys_bind hr₁]
    refine List.not_mem_append (not_mem_keys_fault? (call f es s) path) ?_
    refine List.not_mem_append (hx.not_mem_keys hsub.2.1 (Node.not_mem_paths_children _ _ _)) ?_
    refine List.not_mem_append (fun hmem => ?_) List.not_mem_nil
    obtain ⟨hbelow, -⟩ := (hcompare ts hts hsub.2.1).within _ hmem
    exact Node.not_mem_paths_children _ 0 path hbelow

theorem settlesAll_cons {x : Check Ty} {y : Check (List Ty)}
    (hx : x.Settles root types (i :: path) e.node)
    (hy : y.SettlesAll root types path (i + 1) es) :
    (do let t ← x; let ts ← y; return t :: ts : Check (List Ty)).SettlesAll root types path i
      (e :: es) where
  careful := by
    rw [placesFrom_nodes_cons]
    exact hx.careful.bind fun _ _ _ => hy.careful.bind_within fun _ _ _ _ => reported_of_errors rfl
  noted {ts} h := by
    obtain ⟨t, ht, h⟩ := result_bind_eq_some h
    obtain ⟨ts', hts, hpure⟩ := result_bind_eq_some h
    obtain rfl := Option.some.inj hpure
    rw [bind_of_some ht, bind_of_some hts, List.zipIdx_cons, List.forall_mem_cons]
    refine ⟨List.mem_append_left _ (hx.noted ht), fun q hq => ?_⟩
    exact List.mem_append_right _ (List.mem_append_left _ (hy.noted hts q hq))
  unblamed {ts} h hsub := by
    obtain ⟨t, ht, h⟩ := result_bind_eq_some h
    obtain ⟨ts', hts, hpure⟩ := result_bind_eq_some h
    obtain rfl := Option.some.inj hpure
    rw [bind_of_some ht, bind_of_some hts, List.append_subset, List.append_subset] at hsub
    rw [keys_bind ht, keys_bind hts, List.zipIdx_cons, List.forall_mem_cons]
    refine ⟨fun hknown => ?_, fun q hq hknown => ?_⟩
    · refine List.not_mem_append (hx.unblamed ht hknown hsub.1) ?_
      refine List.not_mem_append (hy.not_mem_keys hsub.2.1 ?_) List.not_mem_nil
      exact Node.not_mem_paths_behind _ path (Nat.lt_succ_self i)
    · have hi : i ≠ q.2 := Nat.ne_of_lt (List.le_snd_of_mem_zipIdx hq)
      refine List.not_mem_append (hx.not_mem_keys hsub.1 (Node.not_mem_paths_sibling _ path hi)) ?_
      exact List.not_mem_append (hy.unblamed hts hsub.2.1 q hq hknown) List.not_mem_nil

theorem walk_settles (table : SymbolTable) (root : Node) (types : List (Path × Ty)) : Walk table
    (fun _ path e x => root.at? path = some e.node → x.Settles root types path e.node)
    (fun _ path i es x => root.HasFrom path i (nodes es) → x.SettlesAll root types path i es) where
  exhausted _ := {
    careful := careful_of_errors rfl
    noted := fun h => by cases h
    unblamed := fun h => by cases h }
  integer _ := settles_nameless ..
  boolean _ := settles_nameless ..
  typeName _ := settles_nameless ..
  var _ := settles_var ..
  unary hx hat := settles_unary hat (hx (Node.hasFrom_zero hat).head)
  binary hx hy hat := settles_binary hat (hx (Node.hasFrom_zero hat).head)
    (hy (Node.hasFrom_zero hat).tail.head)
  call hx hat := settles_call hat (hx (Node.hasFrom_zero hat))
  nil _ := {
    careful := careful_pure []
    noted := fun h => by
      cases h
      exact List.forall_mem_nil _
    unblamed := fun h _ => by
      cases h
      exact List.forall_mem_nil _ }
  cons hx hy hfrom := settlesAll_cons (hx hfrom.head) (hy hfrom.tail)

/-- The reports on an expression lie in it, and if it gets a type, it is not blamed. -/
theorem settles_check (levels : Nat) (table : SymbolTable) (types : List (Path × Ty)) {e : Expr}
    (hat : root.at? path = some e.node) :
    (e.check levels table path).Settles root types path e.node :=
  (walk_settles table root types).check levels path e hat

end

end Expr

/-! ## Statements and programs -/

namespace Stmt

section
variable {root : Node} {types : List (Path × Ty)} {table : SymbolTable}

theorem careful_fault? (s : Stmt) (path : Path) (n : Node) :
    (raise (s.fault? table path)).Careful root types [(path, n)] := by
  cases h : s.fault? table path with
  | none => exact careful_pure ()
  | some err =>
    obtain ⟨hnaming, hnode⟩ := of_fault? h
    refine careful_naming hnaming ?_
    rw [hnode]
    rintro _ ⟨⟩
    exact List.mem_singleton_self path

/-- A child that a type is asked of is blamed for a mismatch if it was not blamed itself. -/
theorem careful_expected (levels : Nat) (table : SymbolTable) (types : List (Path × Ty))
    {n : Node} {e : Expr} (hat : root.at? path = some n) (hc : n.children[i]? = some e.node)
    (hw : n.Wants i context) (hself : n.blamesItself = false) (expected : Ty) : Careful (do
      let t ← e.check levels table (i :: path)
      expectType expected t context e (i :: path)) root types (e.node.places (i :: path)) := by
  have hchild := Node.at?_child hat hc
  have he := Expr.settles_check levels table types hchild
  refine he.careful.bind_within fun t ht hsub _ => ?_
  refine (Expr.reported_expectType hat hchild hw hself (hsub (he.noted ht)) expected).mono ?_
  rintro _ ⟨hknown, rfl⟩
  refine ⟨?_, he.unblamed ht hknown hsub⟩
  exact List.mem_map_of_mem (Node.mem_places_self e.node (i :: path))

/-- A `return` blames itself, with a value or without. -/
theorem careful_checkReturn (hat : root.at? path = some (ret value s).node) :
    (checkReturn levels table ⟨path, .ret, s⟩ value).Careful root types
      ((ret value s).openingPlaces path) := by
  have hcompare (actual : Ty) (l : Location)
      (h : ∀ (f : String) (expected : Ty), expected ≠ .error → actual ≠ .error →
        (mismatch expected actual s!"return from '{f}'" l ⟨path, .ret, s⟩).Founded root types) :
      (compareResult table.functionScope? ⟨path, .ret, s⟩ l actual).Careful root types
        [(path, (ret value s).node)] := by
    rcases compareResult_cases table.functionScope? actual with
      heq | ⟨hactual, f, expected, hexpected, heq⟩
    · rw [heq]
      exact careful_pure ()
    · rw [heq]
      refine careful_report (h f expected hexpected hactual) ?_
      rintro _ ⟨⟩
      exact List.mem_singleton_self path
  rw [checkReturn_eq_bind]
  cases value with
  | none =>
    rw [Option.elim_none, pure_bind]
    refine hcompare .unit s.start fun f t ht _ => ?_
    rintro _ _ _ ⟨⟩
    exact ⟨Ty.text_ne ht, by decide, path, _, hat, .inl ⟨rfl, rfl, rfl, f, _, _, rfl⟩⟩
  | some e =>
    have he := Expr.settles_check levels table types (Node.hasFrom_zero hat).head
    refine Careful.perm (he.careful.bind fun t' ht' hsub => hcompare t' e.span.start
      fun f t ht hknown => ?_) (List.perm_append_singleton ..)
    refine founded_itself ht hknown hat (i := 0) rfl (.returned f) rfl fun i c hc => ?_
    match i with
    | 0 => exact ⟨t', hknown, hsub (he.noted ht')⟩
    | i + 1 => cases hc

/-- A declaration is blamed for its name, after its initializer. -/
theorem careful_checkLet (hat : root.at? path = some (letVar x type e s).node) :
    (checkLet levels table ⟨path, .letVar, s⟩ x type e).Careful root types
      ((letVar x type e s).openingPlaces path) := by
  have hinit := careful_expected levels table types hat (i := 1) rfl .initializer rfl
    (.ofName type.name)
  have hdefine : Careful (do
      annotate path (.ofName type.name)
      orReport table (table.defineVar x (.ofName type.name) s.start (some ⟨path, .letVar, s⟩)))
        root types [(path, (letVar x type e s).node)] := by
    refine Careful.bind (l := []) (careful_of_errors rfl) fun _ _ _ => ?_
    rw [orReport_eq_bind]
    exact (careful_fault? (letVar x type e s) path _).bind_pure _
  unfold checkLet
  -- the check of the initializer and what is expected of it belong together
  rw [← bind_assoc]
  have hlet := (hinit.bind fun _ _ _ => hdefine).perm (List.perm_append_singleton ..)
  exact (hlet.cons (0 :: path, type.node)).perm (.swap ..)

theorem careful_opening {s : Stmt} (hs : s.kind ≠ .block) (hat : root.at? path = some s.node) :
    (s.opening levels table path).Careful root types (s.openingPlaces path) := by
  cases s with
  | letVar => exact careful_checkLet hat
  | assign x e s =>
    have hvalue := careful_expected levels table types hat (i := 0) rfl .assigned rfl
      (table.varType x)
    have hraise : (raise (table.varFault? x ⟨path, .assign, s⟩)).Careful root types
        [(path, (assign x e s).node)] := careful_fault? (assign x e s) path _
    rw [opening, checkAssign_eq_bind]
    exact (hraise.bind fun _ _ _ => hvalue).bind_pure _
  | ifThen | ifElse =>
    have hcondition := careful_expected levels table types hat (i := 0) rfl .ifCondition rfl .bool
    exact (hcondition.bind_pure _).cons _
  | whileLoop =>
    have hcondition := careful_expected levels table types hat (i := 0) rfl .whileCondition rfl
      .bool
    exact (hcondition.bind_pure _).cons _
  | ret => exact (careful_checkReturn hat).bind_pure _
  | print e | expr e =>
    have he := Expr.settles_check levels table types (Node.hasFrom_zero hat).head
    exact (he.careful.bind_pure _).cons _
  | block => exact absurd rfl hs

end

theorem accounted_caring (levels : Nat) (root : Node) (types : List (Path × Ty)) :
    Accounted (caring root types) (fun q => [q]) levels
      fun _ path i ss => root.HasFrom path i (nodes ss) where
  mute _ _ := careful_pure ()
  opening {table path i s ss} hfrom hs := by
    rw [List.flatMap_singleton']
    exact fun _ => careful_opening hs hfrom.head
  body hfrom hbody := by
    obtain ⟨r, hchild⟩ := hbody.children
    exact Node.hasFrom_zero (Node.at?_child hfrom.head hchild)
  tail hfrom _ _ := hfrom.tail

end Stmt

namespace Program

theorem accounted_caring (levels : Nat) (p : Program) (types : List (Path × Ty)) :
    Accounted (caring p.node types) (fun q => [q]) levels p (fun f i => [([i], f.node)])
      (fun _ _ => []) fun _ path i ss => p.node.HasFrom path i (Stmt.nodes ss) where
  statements := Stmt.accounted_caring levels p.node types
  split _ _ _ := rfl
  declared := by
    refine Function.holds_declareAll (l := fun f i => [([i], f.node)]) (fun t f i =>
      Function.holds_declare t f i (fun _ => careful_pure ()) fun e he _ =>
        careful_naming he.isNaming ?_) ..
    rw [he.1]
    rintro _ ⟨⟩
    exact List.mem_singleton_self _
  params _ _ := by
    refine Function.holds_declareParams (fun e he _ => careful_naming he.isNaming ?_) ..
    rw [he.1]
    rintro _ ⟨⟩
  ready _ hf _ := Node.hasFrom_zero (Function.at?_body _ (p.at?_function hf))

/-- The headers and the bodies of functions are blamed apart. -/
theorem careful_check (p : Program) (types : List (Path × Ty)) (hc : (p.check levels).Complete) :
    (p.check levels).Careful p.node types (p.node.places []) := by
  have hcareful := (p.accounted_caring levels types).holds_check hc
  rwa [List.flatMap_singleton'] at hcareful

end Program

namespace Analysis

/-- There is one report for each cause. If no expression nests too deep, no two errors blame the
same node for the same kind of thing; no mismatch names the type of what is reported already, as the
expected type or as the actual one; and no mismatch is raised against a child of that type, by the
statement, the operator or the call that the child belongs to. Every mismatch is raised by one of
these, but for those of a `return` without a value. -/
theorem one_report_for_each_cause (levels : Nat) (p : Program)
    (h : ∀ e ∈ (ofProgram levels p).errors, e.cause ≠ .nestingTooDeep) :
    (ofProgram levels p).errors.Pairwise (fun e e' => ∀ n ∈ e.node, ∀ n' ∈ e'.node,
      n.path = n'.path → e.kindName ≠ e'.kindName) ∧
    ∀ e ∈ (ofProgram levels p).errors, ∀ expected actual context,
      e.cause = .typeMismatch expected actual context →
      expected ≠ "<error>" ∧ actual ≠ "<error>" ∧
      (∀ path n i, p.node.at? path = some n → n.Raises path i e →
        ∃ t, t ≠ .error ∧ (ofProgram levels p).typeAt? (i :: path) = some t) ∧
      ∃ path n, p.node.at? path = some n ∧ (n.RaisesBare path e ∨ ∃ i, n.Raises path i e) := by
  have hc : (p.check levels).Complete := h
  obtain ⟨honce, -, hfounded⟩ := (p.careful_check (p.check levels).types hc).reported
    (List.Subset.refl _) (p.node.nodup_places [])
  constructor
  · refine (List.pairwise_filterMap.mp honce).imp fun {e e'} hne n hn n' hn' hpath hkind => ?_
    refine hne (n.path, e.kindName) ?_ (n'.path, e'.kindName) ?_ (Prod.ext hpath hkind)
    · rw [SemanticError.key?, hn]
      rfl
    · rw [SemanticError.key?, hn']
      rfl
  · intro e he expected actual context hcause
    obtain ⟨hexpected, hactual, path, n, hat, hraised⟩ := hfounded e he _ _ _ hcause
    refine ⟨hexpected, hactual, fun path n i hat hn => ?_, path, n, hat, hraised.imp_right And.left⟩
    obtain ⟨t, hknown, hmem⟩ := (hfounded e he).exists_type hat hn
    exact ⟨t, hknown, typeAt?_of_mem (p.nodup_types levels) hmem⟩

/-- The function `f` with a declaration of type `bool` whose initializer is `1 + true`, one of type
`i32` whose initializer is `x`, a condition `!x(y)` and a `return` without a value. -/
def misfits : Program :=
  let one : Expr := .integer (some (.int 1)) .nowhere
  let condition : Expr := .unary "!" (.call "x" [.var "y" .nowhere] .nowhere) .nowhere
  ⟨[⟨"f", [], ⟨"i32", .nowhere⟩,
    ⟨[.letVar "x" ⟨"bool", .nowhere⟩
        (.binary one "+" (.boolean true .nowhere) .nowhere) .nowhere,
      .letVar "y" ⟨"i32", .nowhere⟩ (.var "x" .nowhere) .nowhere,
      .whileLoop condition [.ret none .nowhere] .nowhere .nowhere], .nowhere⟩, .nowhere⟩], .nowhere⟩

/-- The sum and the call are blamed, and are not blamed again by what holds them; the initializer of
`y` and the `return` are blamed for types that are known. -/
theorem one_report_misfits :
    (∀ e ∈ (ofProgram 100 misfits).errors, e.cause ≠ .nestingTooDeep) ∧
    (ofProgram 100 misfits).errors.map (fun e => (e.kindName, e.node.map NodeRef.path)) =
      [("TYPE_MISMATCH", some [1, 0, 1, 0]), ("TYPE_MISMATCH", some [1, 1, 1, 0]),
        ("UNDECLARED_FUNCTION", some [0, 0, 2, 1, 0]),
        ("TYPE_MISMATCH", some [0, 1, 2, 1, 0])] ∧
    (ofProgram 100 misfits).errors.Pairwise fun e e' => ∀ n ∈ e.node, ∀ n' ∈ e'.node,
      n.path = n'.path → e.kindName ≠ e'.kindName := by
  have h : ∀ e ∈ (ofProgram 100 misfits).errors, e.cause ≠ .nestingTooDeep := by decide +kernel
  exact ⟨h, by decide +kernel, (one_report_for_each_cause 100 misfits h).1⟩

end Analysis

end BracketLang
