import BracketLang.Proofs.Text.Levenshtein
import BracketLang.Proofs.Typing.Histories
import Mathlib.Data.List.Nodup

/-! The names that a report suggests. Names are listed by going through all open scopes, and looked
up by stopping at the first scope that has them. The two agree in every table that a history leads
to, since functions are in the global scope only and hide no variable
(`SymbolTable.WellScoped.isSome_lookup?`). Of the names that are close to the one meant, the
nearest come first, and of those at the same distance the ones declared further inside, or earlier
in the same scope (`SymbolTable.Ranked`). -/

namespace BracketLang

/-! ## Ranking -/

namespace Text

theorem idxOf_lt_of_sublist {α : Type} [DecidableEq α] {l : List α} {a b : α}
    (h : l.Nodup) (hab : [a, b].Sublist l) : l.idxOf a < l.idxOf b := by
  have hpairs : l.Pairwise fun a b => l.idxOf a < l.idxOf b := by
    rw [List.pairwise_iff_getElem]
    intro i j hi hj hij
    rwa [h.idxOf_getElem, h.idxOf_getElem]
  exact List.pairwise_iff_forall_sublist.mp hpairs hab

theorem pair_sublist_or {α : Type} {l : List α} {a b : α} (ha : a ∈ l) (hb : b ∈ l) (h : a ≠ b) :
    [a, b].Sublist l ∨ [b, a].Sublist l := by
  obtain ⟨p, q, rfl⟩ := List.append_of_mem ha
  rcases List.mem_append.mp hb with hb | hb
  · have hpair := (List.singleton_sublist.mpr hb).append
      (List.singleton_sublist.mpr (List.mem_cons_self (a := a) (l := q)))
    exact .inr hpair
  · obtain hb := (List.mem_cons.mp hb).resolve_left (Ne.symm h)
    have hpair := (List.singleton_sublist.mpr hb).cons_cons a
    exact .inl (hpair.trans (List.sublist_append_right p (a :: q)))

/-- Sorting keeps the order of what is equal. -/
theorem pairwise_mergeSort_stable {α : Type} [DecidableEq α] (le : α → α → Bool)
    {R : α → α → Prop} {l : List α} (trans : ∀ a b c, le a b → le b c → le a c)
    (total : ∀ a b, le a b || le b a) (hl : l.Nodup) (h : l.Pairwise R) :
    (l.mergeSort le).Pairwise fun a b => le a b ∧ (le b a → R a b) := by
  have hperm := List.mergeSort_perm l le
  have hnodup : (l.mergeSort le).Nodup := hperm.nodup_iff.mpr hl
  have hsorted := List.pairwise_mergeSort trans total l
  rw [List.pairwise_iff_forall_sublist]
  intro a b hab
  refine ⟨List.pairwise_iff_forall_sublist.mp hsorted hab, fun hle => ?_⟩
  have hne : a ≠ b := by
    rintro rfl
    exact Nat.lt_irrefl _ (idxOf_lt_of_sublist hnodup hab)
  have ha : a ∈ l := hperm.mem_iff.mp (hab.subset List.mem_cons_self)
  have hb : b ∈ l := hperm.mem_iff.mp (hab.subset (List.mem_cons_of_mem a List.mem_cons_self))
  rcases pair_sublist_or ha hb hne with hpair | hpair
  · exact List.pairwise_iff_forall_sublist.mp h hpair
  · -- the pair would come out in both orders
    have hba := List.pair_sublist_mergeSort trans total hle hpair
    exact absurd (idxOf_lt_of_sublist hnodup hab)
      (Nat.lt_asymm (idxOf_lt_of_sublist hnodup hba))

section
variable (word : String) (limit : Int) (key : String → String) {candidates : List String}

theorem mem_nearest : x ∈ nearest word limit key candidates ↔
    x ∈ candidates ∧ (editDistance (lower word) (key x) : Int) ≤ limit := by
  simp [nearest]

/-- Candidates are ranked by their distance, and otherwise stay in order. -/
theorem pairwise_nearest {R : String → String → Prop} (hl : candidates.Nodup)
    (h : candidates.Pairwise R) : (nearest word limit key candidates).Pairwise fun a b =>
      editDistance (lower word) (key a) < editDistance (lower word) (key b) ∨
        editDistance (lower word) (key a) = editDistance (lower word) (key b) ∧ R a b := by
  let measured : List (String × Nat) :=
    candidates.map fun c => (c, editDistance (lower word) (key c))
  let near : List (String × Nat) := measured.filter fun q => q.2 ≤ limit
  have hmeasured : measured.Nodup := hl.map fun a b hab => congrArg Prod.fst hab
  have hR : near.Pairwise fun p q => R p.1 q.1 := by
    refine List.Pairwise.filter _ ?_
    rw [List.pairwise_map]
    exact h
  have hdistance : ∀ p ∈ near, p.2 = editDistance (lower word) (key p.1) := by
    intro p hp
    obtain ⟨c, -, rfl⟩ := List.mem_map.mp (List.mem_of_mem_filter hp)
    rfl
  have hstable := pairwise_mergeSort_stable (fun p q => p.2 ≤ q.2)
    (fun a b c hab hbc => by simp only [decide_eq_true_eq] at *; omega)
    (fun a b => by simp only [Bool.or_eq_true, decide_eq_true_eq]; omega)
    (hmeasured.filter _) hR
  have hnearest : nearest word limit key candidates =
    (near.mergeSort fun p q => p.2 ≤ q.2).map Prod.fst := rfl
  rw [hnearest, List.pairwise_map]
  refine hstable.imp_of_mem ?_
  rintro p q hp hq ⟨hle, hR⟩
  rw [List.mem_mergeSort] at hp hq
  simp only [decide_eq_true_eq] at hle hR
  rw [← hdistance p hp, ← hdistance q hq]
  rcases Nat.lt_or_eq_of_le hle with hlt | heq
  · exact .inl hlt
  · exact .inr ⟨heq, hR (Nat.le_of_eq heq.symm)⟩

end

/-! ## The first of each kind -/

theorem eraseDups_concat (l : List String) (b : String) :
    (l ++ [b]).eraseDups = l.eraseDups ++ if b ∈ l then [] else [b] := by
  rw [List.eraseDups_append]
  by_cases h : b ∈ l <;> simp [List.removeAll, h, List.eraseDups_cons]

/-- In the list without repetitions, what was there first comes first. -/
theorem pairwise_eraseDups {R : String → String → Prop} {l : List String}
    (h : ∀ p b q, l = p ++ b :: q → b ∉ p → ∀ a ∈ p, R a b) :
    l.eraseDups.Pairwise R := by
  induction l using List.reverseRecOn with
  | nil => exact .nil
  | append_singleton l b ih =>
    rw [eraseDups_concat, List.pairwise_append]
    refine ⟨ih fun p c q hl => h p c (q ++ [b]) (by rw [hl]; simp), ?_, fun a ha c hc => ?_⟩
    · split
      · exact .nil
      · exact List.pairwise_singleton ..
    · split at hc
      · cases hc
      next hb =>
      rw [List.mem_singleton.mp hc]
      exact h l b [] rfl hb a (List.mem_eraseDups.mp ha)

theorem nodup_eraseDups (l : List String) : l.eraseDups.Nodup := by
  refine pairwise_eraseDups fun p b q _ hb a ha => ?_
  rintro rfl
  exact hb ha

end Text

/-! ## Names and what they stand for -/

/-- The names of one kind, in the order of their declarations. -/
def Scope.namesOf (s : Scope) (kind : SymbolKind) : List String :=
  (s.symbols.filter (·.kind = kind)).map Symbol.name

theorem Scope.mem_namesOf {s : Scope} {kind : SymbolKind}
    (h : (s.symbols.map Symbol.name).Nodup) :
    x ∈ s.namesOf kind ↔ ∃ y, s.find? x = some y ∧ y.kind = kind := by
  have hfind (y : Symbol) : s.find? x = some y ↔ y ∈ s.symbols ∧ y.name = x :=
    find?_eq_some_iff_of_nodup h
  simp only [namesOf, List.mem_map, List.mem_filter, decide_eq_true_eq, hfind]
  constructor
  · rintro ⟨y, ⟨hy, hkind⟩, hname⟩
    exact ⟨y, ⟨hy, hname⟩, hkind⟩
  · rintro ⟨y, ⟨hy, hname⟩, hkind⟩
    exact ⟨y, ⟨hy, hkind⟩, hname⟩

namespace SymbolTable

/-- What a name stands for where a symbol of this kind is meant. -/
def lookup? (t : SymbolTable) : SymbolKind → String → Option Symbol
  | .var => t.findVar?
  | .function => t.findFunction?

theorem visibleNames_some (t : SymbolTable) (kind : SymbolKind) :
    t.visibleNames (some kind) = (t.scopes.flatMap (·.namesOf kind)).eraseDups := by
  simp only [visibleNames, Scope.namesOf, List.filter_flatMap, List.map_flatMap, Option.all_some]

/-- The scopes from the inside out declare `a` before `b`: in a scope further inside, or earlier in
the same scope. -/
inductive Precedes (kind : SymbolKind) (a b : String) : List Scope → Prop
  | earlier (h : [a, b].Sublist (s.namesOf kind)) : Precedes kind a b (s :: ss)
  | inside (ha : a ∈ s.namesOf kind) (hb : b ∉ s.namesOf kind) : Precedes kind a b (s :: ss)
  | outside (ha : a ∉ s.namesOf kind) (hb : b ∉ s.namesOf kind) (h : Precedes kind a b ss) :
    Precedes kind a b (s :: ss)

/-- What comes first in all scopes is declared first. -/
theorem precedes_of_flatMap_eq {scopes : List Scope}
    (h : scopes.flatMap (·.namesOf kind) = p ++ b :: q) (hb : b ∉ p) (ha : a ∈ p) :
    Precedes kind a b scopes := by
  induction scopes generalizing p with
  | nil => simp at h
  | cons s ss ih =>
    rw [List.flatMap_cons, List.append_eq_append_iff] at h
    obtain ⟨p', rfl, h⟩ | ⟨q', hs, h⟩ := h
    · rw [List.mem_append, not_or] at hb
      by_cases has : a ∈ s.namesOf kind
      · exact .inside has hb.1
      · exact .outside has hb.1 (ih h hb.2 ((List.mem_append.mp ha).resolve_left has))
    · cases q' with
      | nil =>
        rw [List.append_nil] at hs
        subst hs
        exact .inside ha hb
      | cons c q' =>
        obtain ⟨rfl, rfl⟩ := List.cons.inj h
        refine .earlier ?_
        rw [hs]
        exact (List.singleton_sublist.mpr ha).append
          (List.singleton_sublist.mpr List.mem_cons_self)

namespace WellScoped

variable {t : SymbolTable}

theorem mem_namesOf (H : t.WellScoped) (hs : s ∈ t.scopes) :
    x ∈ s.namesOf kind ↔ ∃ y, s.find? x = some y ∧ y.kind = kind :=
  Scope.mem_namesOf (H.names s hs)

theorem namesOf_function (H : t.WellScoped) (hs : s ∈ t.inner) : s.namesOf .function = [] := by
  have hfilter : s.symbols.filter (·.kind = .function) = [] := by
    rw [List.filter_eq_nil_iff]
    intro y hy
    simp [H.vars s hs y hy]
  rw [Scope.namesOf, hfilter, List.map_nil]

theorem isSome_findVar? (H : t.WellScoped) :
    (t.findVar? x).isSome ↔ x ∈ t.scopes.flatMap (·.namesOf .var) := by
  have hglobal : t.global ∈ t.scopes := List.mem_append_right _ List.mem_cons_self
  have hfind : t.find? x = (t.inner.findSome? (·.find? x)).or (t.global.find? x) := by
    rw [find?, scopes, List.findSome?_append]
    simp
  rw [findVar?, hfind, List.mem_flatMap]
  cases h : t.inner.findSome? (·.find? x) with
  | some y =>
    obtain ⟨s, hs, hy⟩ := List.exists_of_findSome?_eq_some h
    have hkind := H.vars s hs y (List.mem_of_find?_eq_some hy)
    have hscope : s ∈ t.scopes := List.mem_append_left _ hs
    have hmem : x ∈ s.namesOf .var := (H.mem_namesOf hscope).mpr ⟨y, hy, hkind⟩
    simp only [Option.some_or, Option.filter_some, hkind, decide_true, if_true, Option.isSome_some,
      true_iff]
    exact ⟨s, hscope, hmem⟩
  | none =>
    rw [List.findSome?_eq_none_iff] at h
    -- no scope but the global one has the name
    have honly : (∃ s ∈ t.scopes, x ∈ s.namesOf .var) ↔ x ∈ t.global.namesOf .var := by
      refine ⟨fun hscope => ?_, fun hx => ⟨t.global, hglobal, hx⟩⟩
      obtain ⟨s, hs, hx⟩ := hscope
      obtain ⟨y, hy, -⟩ := (H.mem_namesOf hs).mp hx
      rcases List.mem_append.mp hs with hinner | hs
      · cases (h s hinner).symm.trans hy
      · rwa [← List.mem_singleton.mp hs]
    rw [honly, H.mem_namesOf hglobal, Option.none_or]
    cases t.global.find? x <;> simp

theorem isSome_findFunction? (H : t.WellScoped) :
    (t.findFunction? x).isSome ↔ x ∈ t.scopes.flatMap (·.namesOf .function) := by
  have hglobal : t.global ∈ t.scopes := List.mem_append_right _ List.mem_cons_self
  have hinner : t.inner.flatMap (·.namesOf .function) = [] := by
    rw [List.flatMap_eq_nil_iff]
    exact fun s hs => H.namesOf_function hs
  rw [scopes, List.flatMap_append, hinner, List.nil_append, List.flatMap_singleton,
    H.mem_namesOf hglobal, findFunction?]
  cases t.global.find? x <;> simp

/-- A name is listed if and only if it is found. -/
theorem isSome_lookup? (H : t.WellScoped) (kind : SymbolKind) :
    (t.lookup? kind x).isSome ↔ x ∈ t.scopes.flatMap (·.namesOf kind) := by
  cases kind with
  | var => exact H.isSome_findVar?
  | function => exact H.isSome_findFunction?

theorem mem_visibleNames (H : t.WellScoped) (kind : SymbolKind) :
    x ∈ t.visibleNames (some kind) ↔ (t.lookup? kind x).isSome := by
  rw [visibleNames_some, List.mem_eraseDups, H.isSome_lookup?]

end WellScoped

theorem nodup_visibleNames (t : SymbolTable) (kind : SymbolKind) :
    (t.visibleNames (some kind)).Nodup := by
  rw [visibleNames_some]
  exact Text.nodup_eraseDups _

theorem pairwise_visibleNames (t : SymbolTable) (kind : SymbolKind) :
    (t.visibleNames (some kind)).Pairwise (Precedes kind · · t.scopes) := by
  rw [visibleNames_some]
  exact Text.pairwise_eraseDups fun p b q h hb a ha => precedes_of_flatMap_eq h hb ha

/-! ## Similar names -/

/-- The distance of two names whatever the case of their letters. -/
def nameDistance (x y : String) : Nat :=
  Text.levenshtein (Text.lower x).toList (Text.lower y).toList

/-- The names of a kind that are within `limit` edits of `name`: nearest first, and at the same
distance in the order in which the scopes declare them. -/
structure Ranked (t : SymbolTable) (name : String) (kind : SymbolKind) (limit : Int)
    (ranked : List String) : Prop where
  mem x : x ∈ ranked ↔ (t.lookup? kind x).isSome ∧ (nameDistance name x : Int) ≤ limit
  ordered : ranked.Pairwise fun a b => nameDistance name a < nameDistance name b ∨
    nameDistance name a = nameDistance name b ∧ Precedes kind a b t.scopes

theorem WellScoped.exists_ranked {t : SymbolTable} (H : t.WellScoped) (name : String)
    (kind : SymbolKind) (limit : Int) : ∃ ranked, t.Ranked name kind limit ranked ∧
      t.similarNames name (some kind) limit = ranked.take 5 := by
  have hdistance (x : String) :
      Text.editDistance (Text.lower name) (Text.lower x) = nameDistance name x :=
    Text.distance_eq_levenshtein _ _
  refine ⟨Text.nearest name limit Text.lower (t.visibleNames (some kind)), ⟨fun x => ?_, ?_⟩, rfl⟩
  · rw [Text.mem_nearest, H.mem_visibleNames, hdistance]
  · have hranked := Text.pairwise_nearest name limit Text.lower
      (t.nodup_visibleNames kind) (t.pairwise_visibleNames kind)
    simpa only [hdistance] using hranked

end SymbolTable

end BracketLang
