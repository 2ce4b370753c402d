import BracketLang.Proofs.Tree.Bare
import BracketLang.Proofs.Typing.Alike
import BracketLang.Proofs.Typing.NameErrors
import BracketLang.Proofs.Typing.WellTyped
import Mathlib.Data.List.Induction
import Mathlib.Data.List.Perm.Basic

/-! Bodies are checked apart. What is reported in the body of a function follows from the function
and from the signatures around it: those of the functions that are first of their name, in order.
The reports of a program are those on functions declared again, and then those of one body after
another (`Analysis.bodies_checked_apart`). -/

namespace BracketLang

variable {levels : Nat}

/-! ## The first of each name -/

/-- Of those that have the same name, the first. -/
def firstsBy {α : Type} (name : α → String) (l : List α) : List α :=
  (l.zipIdx.filter fun q => name q.1 ∉ (l.take q.2).map name).map Prod.fst

section
variable {α β : Type} {name : α → String} {l : List α}

theorem firstsBy_concat (name : α → String) (l : List α) (a : α) :
    firstsBy name (l ++ [a]) = firstsBy name l ++ if name a ∈ l.map name then [] else [a] := by
  have htake : ∀ q ∈ l.zipIdx, (l ++ [a]).take q.2 = l.take q.2 := by
    intro q hq
    exact List.take_append_of_le_length (Nat.le_of_lt (List.snd_lt_of_mem_zipIdx hq))
  rw [firstsBy, List.zipIdx_append, List.filter_append, List.map_append]
  congr 1
  · rw [firstsBy]
    congr 1
    apply List.filter_congr
    intro q hq
    rw [htake q hq]
  · rw [Nat.zero_add, List.zipIdx_singleton]
    by_cases h : name a ∈ l.map name
    · rw [if_pos h, List.filter_cons_of_neg]
      · rfl
      · simpa [List.take_left] using h
    · rw [if_neg h, List.filter_cons_of_pos]
      · rfl
      · simpa [List.take_left] using h

theorem find?_name_eq_none_iff : l.find? (name · = x) = none ↔ x ∉ l.map name := by
  simp only [List.find?_eq_none, decide_eq_true_iff, List.mem_map, not_exists, not_and]

theorem mem_map_of_find? (h : l.find? (name · = x) = some a) : x ∈ l.map name := by
  have hname := List.find?_some h
  exact List.mem_map.mpr ⟨a, List.mem_of_find?_eq_some h, of_decide_eq_true hname⟩

theorem find?_firstsBy (l : List α) (x : String) :
    (firstsBy name l).find? (name · = x) = l.find? (name · = x) := by
  induction l using List.reverseRecOn with
  | nil => rfl
  | append_singleton l a ih =>
    rw [firstsBy_concat, List.find?_append, List.find?_append, ih]
    by_cases h : name a ∈ l.map name
    · rw [if_pos h]
      by_cases hx : name a = x
      · obtain ⟨b, hb, hname⟩ := List.mem_map.mp h
        have hsome : (l.find? (name · = x)).isSome :=
          List.find?_isSome.mpr ⟨b, hb, decide_eq_true (hname.trans hx)⟩
        obtain ⟨c, hc⟩ := Option.isSome_iff_exists.mp hsome
        rw [hc]
        rfl
      · simp [hx]
    · rw [if_neg h]

theorem firstsBy_of_nodup (h : (l.map name).Nodup) : firstsBy name l = l := by
  induction l using List.reverseRecOn with
  | nil => rfl
  | append_singleton l a ih =>
    rw [List.map_append, List.map_singleton, ← List.concat_eq_append, List.nodup_concat] at h
    rw [firstsBy_concat, ih h.2, if_neg h.1]

theorem firstsBy_map (g : β → α) (l : List β) :
    firstsBy name (l.map g) = (firstsBy (name ∘ g) l).map g := by
  induction l using List.reverseRecOn with
  | nil => rfl
  | append_singleton l b ih =>
    rw [List.map_append, List.map_singleton, firstsBy_concat, firstsBy_concat, ih, List.map_append,
      List.map_map, apply_ite (List.map g)]
    rfl

/-- Where names differ, they find the same in any order. -/
theorem find?_eq_some_iff_of_nodup (h : (l.map name).Nodup) :
    l.find? (name · = x) = some a ↔ a ∈ l ∧ name a = x := by
  induction l with
  | nil => simp
  | cons b l ih =>
    obtain ⟨hb, hl⟩ := List.nodup_cons.mp h
    by_cases hx : name b = x
    · rw [List.find?_cons_of_pos (by simpa using hx), Option.some.injEq, List.mem_cons]
      constructor
      · rintro rfl
        exact ⟨.inl rfl, hx⟩
      · rintro ⟨ha | ha, hname⟩
        · exact ha.symm
        · exact absurd (List.mem_map.mpr ⟨a, ha, hname.trans hx.symm⟩) hb
    · rw [List.find?_cons_of_neg (by simpa using hx), ih hl, List.mem_cons]
      constructor
      · rintro ⟨ha, hname⟩
        exact ⟨.inr ha, hname⟩
      · rintro ⟨rfl | ha, hname⟩
        · exact absurd hname hx
        · exact ⟨ha, hname⟩

theorem find?_of_perm {l' : List α} (hp : l.Perm l') (h : (l.map name).Nodup) (x : String) :
    l'.find? (name · = x) = l.find? (name · = x) := by
  have h' : (l'.map name).Nodup := (hp.map name).nodup_iff.mp h
  apply Option.ext
  intro a
  rw [find?_eq_some_iff_of_nodup h, find?_eq_some_iff_of_nodup h', hp.mem_iff]

theorem map_modify_of_eq {s : α → β} {g : α → α} (h : ∀ a, s (g a) = s a) (l : List α) (j : Nat) :
    (l.modify j g).map s = l.map s := by
  apply List.ext_getElem?
  intro i
  rw [List.getElem?_map, List.getElem?_map, List.getElem?_modify]
  split <;> cases l[i]? <;> simp [h]

theorem flatMap_ite_singleton (P : α → Prop) [DecidablePred P] (g : α → β) (l : List α) :
    (l.flatMap fun a => if P a then [g a] else []) = (l.filter P).map g := by
  induction l with
  | nil => rfl
  | cons a l ih =>
    rw [List.flatMap_cons, ih, List.filter_cons]
    by_cases ha : P a <;> simp [ha]

end

/-! ## Signatures -/

/-- What a call needs to know of a function. -/
structure Signature where
  name : String
  params : List Ty
  result : Ty
deriving DecidableEq, Repr

/-- A symbol with this signature, declared nowhere in particular. -/
def Signature.symbol (s : Signature) : Symbol := ⟨s.name, .function, s.result, .origin, s.params⟩

/-- A global scope with these signatures. -/
def Signature.scope (sigs : List Signature) : Scope :=
  ⟨.global, "global", sigs.map symbol, none⟩

namespace Function

open Check

def signature (f : Function) : Signature := ⟨f.name, f.paramTypes, f.resultType⟩

/-- The signatures that calls meet: of several functions of one name, that of the first. -/
def signatures (fs : List Function) : List Signature := firstsBy Signature.name (fs.map signature)

/-- The check of a body on its own, against signatures. -/
def bodyCheck (levels : Nat) (sigs : List Signature) (f : Function) : Check SymbolTable :=
  f.check levels ⟨Signature.scope sigs, []⟩ []

theorem signatures_eq (fs : List Function) :
    signatures fs = (firstsBy Function.name fs).map signature :=
  firstsBy_map signature fs

/-- To a body, functions are no more than their signatures. -/
theorem servesAlike_tableOf (fs : List Function) :
    (Signature.scope (fs.map signature)).ServesAlike id (tableOf fs).global where
  kinds := ⟨rfl, rfl⟩
  functions := by
    constructor
    · simp [Signature.scope, Signature.symbol]
    · simp [tableOf, symbol]
  signatures x := by
    simp only [Scope.find?, Signature.scope, tableOf, List.find?_map, Option.map_map]
    rfl
  hints inner x l n := by
    simp [SymbolTable.similarNames, SymbolTable.visibleNames, SymbolTable.scopes, Signature.scope,
      tableOf, Signature.symbol, signature, symbol, List.filter_map, Function.comp_def]

end Function

/-- The error without the functions that it suggests. -/
def SemanticError.withoutCallHints (e : SemanticError) : SemanticError :=
  match e.cause with
  | .undeclaredFunction x _ => { e with cause := .undeclaredFunction x [] }
  | _ => e

theorem Signature.servesAlike_of_perm {sigs sigs' : List Signature} (hp : sigs.Perm sigs')
    (h : (sigs.map name).Nodup) :
    (scope sigs).ServesAlike SemanticError.withoutCallHints (scope sigs') where
  kinds := ⟨rfl, rfl⟩
  functions := by simp [scope, symbol]
  signatures x := by
    have hfind := find?_of_perm hp h x
    simp only [Scope.find?, scope, List.find?_map, Option.map_map]
    exact congrArg (Option.map _) hfind
  hints _ _ _ _ := rfl

/-! ## Programs -/

namespace Function

open Check

/-- A body is checked among the functions as it is on its own, apart from its place. -/
theorem check_tableOf (fs : List Function) (f : Function) (i : Nat) :
    (f.check levels (tableOf (firstsBy Function.name fs)) [i]).errors =
        (f.bodyCheck levels (signatures fs)).errors.map (·.under [i]) ∧
      (f.check levels (tableOf (firstsBy Function.name fs)) [i]).types =
        (f.bodyCheck levels (signatures fs)).types.map fun r => (r.1 ++ [i], r.2) := by
  have hagree :=
    agree_check (q := [i]) levels (servesAlike_tableOf (firstsBy Function.name fs)) [] f
  have herrors := hagree.errors
  rw [List.map_id] at herrors
  rw [signatures_eq]
  exact ⟨herrors, hagree.types⟩

theorem declare_firsts (done : List Function) (f : Function) (i : Nat) :
    f.declare (tableOf (firstsBy Function.name done)) [i] =
      ⟨some (tableOf (firstsBy Function.name (done ++ [f]))), repeatedFunction done f i, []⟩ := by
  have hfind : (tableOf (firstsBy Function.name done)).global.find? f.name =
      (done.find? (·.name = f.name)).map symbol := by
    rw [← find?_firstsBy, Scope.find?, tableOf, List.find?_map]
    rfl
  rw [declare, SymbolTable.defineFunction, Scope.define, repeatedFunction, firstsBy_concat, hfind]
  cases hdone : done.find? (·.name = f.name) with
  | none =>
    rw [if_neg (find?_name_eq_none_iff.mp hdone)]
    simp only [Option.map_none, tableOf, List.map_append]
    rfl
  | some first =>
    rw [if_pos (mem_map_of_find? hdone), List.append_nil]
    rfl

theorem declareAll_firsts (done fs : List Function) :
    declareAll (tableOf (firstsBy Function.name done)) done.length fs =
      ⟨some (tableOf (firstsBy Function.name (done ++ fs))),
        (fs.zipIdx done.length).flatMap fun q => repeatedFunction ((done ++ fs).take q.2) q.1 q.2,
        []⟩ := by
  induction fs generalizing done with
  | nil => rw [List.append_nil]; rfl
  | cons f fs ih =>
    have hrest := ih (done ++ [f])
    rw [List.length_append, List.length_singleton, List.append_assoc, List.singleton_append]
      at hrest
    rw [declareAll, declare_firsts, bind_of_some rfl, hrest]
    simp

theorem checkAll_eq (table : SymbolTable) (i : Nat) (fs : List Function) :
    checkAll levels table i fs =
      ⟨some table, (fs.zipIdx i).flatMap fun q => (q.1.check levels table [q.2]).errors,
        (fs.zipIdx i).flatMap fun q => (q.1.check levels table [q.2]).types⟩ := by
  induction fs generalizing i with
  | nil => rfl
  | cons f fs ih =>
    rw [checkAll, bind_of_some (result_check ..), ih]
    rfl

theorem signatures_of_nodup (h : (fs.map Function.name).Nodup) :
    signatures fs = fs.map signature :=
  firstsBy_of_nodup (by rw [List.map_map]; exact h)

theorem under_nil (e : SemanticError) : e.under [] = e := by
  obtain ⟨cause, l, _ | ⟨path, kind, span⟩⟩ := e
  · rfl
  · simp [SemanticError.under, NodeRef.under]

/-- The order of the signatures shows in what is suggested, and nowhere else. -/
theorem bodyCheck_of_perm {sigs sigs' : List Signature} (hp : sigs.Perm sigs')
    (h : (sigs.map Signature.name).Nodup) (f : Function) :
    (f.bodyCheck levels sigs').errors.map SemanticError.withoutCallHints =
        (f.bodyCheck levels sigs).errors.map SemanticError.withoutCallHints ∧
      (f.bodyCheck levels sigs').types = (f.bodyCheck levels sigs).types := by
  have hagree := agree_check (q := []) levels (Signature.servesAlike_of_perm hp h) [] f
  constructor
  · have herrors := hagree.errors
    simp only [under_nil] at herrors
    exact herrors
  · have htypes := hagree.types
    simp only [List.append_nil, List.map_id'] at htypes
    exact htypes

/-- The reports on functions that are declared again, in order. -/
def redeclarations (fs : List Function) : List SemanticError :=
  fs.zipIdx.flatMap fun q => repeatedFunction (fs.take q.2) q.1 q.2

theorem redeclarations_map {g : Function → Function} (hname : ∀ f, (g f).name = f.name)
    (hspan : ∀ f, (g f).span = f.span) (fs : List Function) :
    redeclarations (fs.map g) = redeclarations fs := by
  have hrepeated (earlier : List Function) (f : Function) (i : Nat) :
      repeatedFunction (earlier.map g) (g f) i = repeatedFunction earlier f i := by
    have hfind : (earlier.map g).find? (·.name = (g f).name) =
        (earlier.find? (·.name = f.name)).map g := by
      have hcomp : (fun h : Function => decide (h.name = (g f).name)) ∘ g =
          fun h => decide (h.name = f.name) := by
        funext h
        simp only [Function.comp_apply, hname]
      rw [List.find?_map, hcomp]
    rw [repeatedFunction, repeatedFunction, hfind, hname, hspan]
    cases earlier.find? (·.name = f.name) with
    | none => rfl
    | some first => simp [hspan]
  simp only [redeclarations, List.zipIdx_map, List.flatMap_map, Prod.map, id, ← List.map_take,
    hrepeated]

/-- One report for each function whose name an earlier one has. -/
theorem map_redeclarations (fs : List Function) :
    ((redeclarations fs).map fun e => (e.code, e.node)) =
      (fs.zipIdx.filter fun q => q.1.name ∈ (fs.take q.2).map Function.name).map fun q =>
        ("S011", some (q.1.node.ref [q.2])) := by
  have hrepeated (q : Function × Nat) :
      ((repeatedFunction (fs.take q.2) q.1 q.2).map fun e => (e.code, e.node)) =
        if q.1.name ∈ (fs.take q.2).map Function.name then
          [("S011", some (q.1.node.ref [q.2]))] else [] := by
    rw [repeatedFunction]
    cases hfind : (fs.take q.2).find? (·.name = q.1.name) with
    | none =>
      rw [if_neg (find?_name_eq_none_iff.mp hfind)]
      rfl
    | some first =>
      rw [if_pos (mem_map_of_find? hfind)]
      rfl
  rw [redeclarations, List.map_flatMap]
  simp only [hrepeated]
  exact flatMap_ite_singleton _ _ fs.zipIdx

theorem redeclarations_of_nodup (h : (fs.map Function.name).Nodup) : redeclarations fs = [] := by
  have hsilent := (silent_declareAll 0 [] fs List.nodup_nil).mpr ⟨h, rfl⟩
  have hall := declareAll_firsts [] fs
  exact (congrArg Check.errors hall).symm.trans hsilent.2

end Function

namespace Program

/-- The reports in the bodies, a list for each function. -/
def blocks (levels : Nat) (p : Program) : List (List SemanticError) :=
  p.functions.zipIdx.map fun q =>
    (q.1.bodyCheck levels (Function.signatures p.functions)).errors.map (·.under [q.2])

/-- The program with another body for one of its functions. -/
def withBody (p : Program) (j : Nat) (b : Block) : Program :=
  { p with functions := p.functions.modify j fun f => { f with body := b } }

theorem getElem?_blocks (levels : Nat) (p : Program) (i : Nat) :
    (p.blocks levels)[i]? = p.functions[i]?.map fun f =>
      (f.bodyCheck levels (Function.signatures p.functions)).errors.map (·.under [i]) := by
  rw [blocks, List.getElem?_map, List.getElem?_zipIdx, Option.map_map, Nat.zero_add]
  rfl

theorem check_eq (levels : Nat) (p : Program) :
    (p.check levels).errors = Function.redeclarations p.functions ++ (p.blocks levels).flatten ∧
      (p.check levels).types = p.functions.zipIdx.flatMap fun q =>
        (q.1.bodyCheck levels (Function.signatures p.functions)).types.map
          fun r => (r.1 ++ [q.2], r.2) := by
  have hdeclare := Function.declareAll_firsts [] p.functions
  have hresult : (Function.declareAll .empty 0 p.functions).result =
      some (Function.tableOf (firstsBy Function.name p.functions)) := congrArg Check.result hdeclare
  have herrors : (Function.declareAll .empty 0 p.functions).errors =
      Function.redeclarations p.functions := congrArg Check.errors hdeclare
  have htypes : (Function.declareAll .empty 0 p.functions).types = [] :=
    congrArg Check.types hdeclare
  rw [Program.check, Check.bind_of_some hresult, Function.checkAll_eq]
  constructor
  · simp only [herrors, Function.check_tableOf, blocks, List.flatMap_def]
  · simp only [htypes, Function.check_tableOf, List.nil_append]

theorem signatures_withBody (p : Program) (j : Nat) (b : Block) :
    Function.signatures (p.withBody j b).functions = Function.signatures p.functions := by
  rw [Function.signatures, Function.signatures, withBody, map_modify_of_eq]
  intro f
  rfl

theorem redeclarations_withBody (p : Program) (j : Nat) (b : Block) :
    Function.redeclarations (p.withBody j b).functions = Function.redeclarations p.functions := by
  -- without their bodies, the functions are the same
  let header (f : Function) : Function := { f with body := ⟨[], f.span⟩ }
  have hheader : (p.withBody j b).functions.map header = p.functions.map header :=
    map_modify_of_eq (g := fun f => { f with body := b }) (fun _ => rfl) p.functions j
  rw [← Function.redeclarations_map (g := header) (fun _ => rfl) (fun _ => rfl), hheader,
    Function.redeclarations_map (g := header) (fun _ => rfl) fun _ => rfl]

end Program

/-! ## Types of nodes -/

theorem lookup_map_append_singleton (l : List (Path × Ty)) (path : Path) (i j : Nat) :
    (l.map fun r => (r.1 ++ [i], r.2)).lookup (path ++ [j]) =
      if i = j then l.lookup path else none := by
  induction l with
  | nil => simp
  | cons r l ih =>
    rw [List.map_cons, List.lookup_cons, List.lookup_cons, ih]
    by_cases hij : i = j
    · simp [hij]
    · have hne : (path ++ [j] == r.1 ++ [i]) = false := by
        simp [Ne.symm hij]
      simp [hij, hne]

/-- Below the root, the last step up says which function a node is in. -/
theorem lookup_flatMap_zipIdx (types : Function → List (Path × Ty)) (fs : List Function)
    (path : Path) (i k : Nat) :
    ((fs.zipIdx i).flatMap fun q => (types q.1).map fun r => (r.1 ++ [q.2], r.2)).lookup
        (path ++ [k]) =
      if i ≤ k then fs[k - i]?.bind fun f => (types f).lookup path else none := by
  induction fs generalizing i with
  | nil => simp
  | cons f fs ih =>
    rw [List.zipIdx_cons, List.flatMap_cons, List.lookup_append, lookup_map_append_singleton, ih]
    rcases Nat.lt_trichotomy i k with hik | rfl | hki
    · obtain ⟨m, rfl⟩ := Nat.exists_eq_add_of_lt hik
      have hindex : i + m + 1 - i = m + 1 := by omega
      have hindex' : i + m + 1 - (i + 1) = m := by omega
      rw [if_neg (Nat.ne_of_lt hik), if_pos (Nat.succ_le_of_lt hik), if_pos (Nat.le_of_lt hik),
        hindex, hindex', List.getElem?_cons_succ, Option.none_or]
    · rw [if_pos rfl, if_neg (Nat.not_succ_le_self i), if_pos (Nat.le_refl i), Nat.sub_self,
        List.getElem?_cons_zero, Option.or_none, Option.bind_some]
    · rw [if_neg (Nat.ne_of_gt hki), if_neg (by omega), if_neg (Nat.not_le.mpr hki)]
      rfl

theorem Analysis.typeAt?_append (p : Program) (path : Path) (i : Nat) :
    (ofProgram levels p).typeAt? (path ++ [i]) = p.functions[i]?.bind fun f =>
      (f.bodyCheck levels (Function.signatures p.functions)).types.lookup path := by
  have htypes : (ofProgram levels p).types = (p.check levels).types := rfl
  rw [typeAt?, htypes, (p.check_eq levels).2, lookup_flatMap_zipIdx
    (fun f => (f.bodyCheck levels (Function.signatures p.functions)).types)]
  simp

namespace Analysis

open SemanticError

/-- Bodies are checked apart. The reports are one for each function whose name an earlier one has,
in order, and then those of one body after another, which follow from the function and from the
signatures of those that are first of their name: another body elsewhere leaves them as they are.
Where names differ and the functions change places, the reports in their bodies go with them and
only differ in what they suggest in place of an unknown function, and every node keeps its type. -/
theorem bodies_checked_apart (levels : Nat) (p : Program) :
    (ofProgram levels p).errors = Function.redeclarations p.functions ++ (p.blocks levels).flatten ∧
    ((Function.redeclarations p.functions).map fun e => (e.code, e.node)) =
      ((p.functions.zipIdx.filter fun q =>
        q.1.name ∈ (p.functions.take q.2).map Function.name).map fun q =>
          ("S011", some (q.1.node.ref [q.2]))) ∧
    (∀ j b,
      Function.redeclarations (p.withBody j b).functions = Function.redeclarations p.functions ∧
      ∀ i, i ≠ j → ((p.withBody j b).blocks levels)[i]? = (p.blocks levels)[i]?) ∧
    ∀ p' : Program, p.functions.Perm p'.functions → (p.functions.map Function.name).Nodup →
      Function.redeclarations p.functions = [] ∧ Function.redeclarations p'.functions = [] ∧
      ∀ i j f, p.functions[i]? = some f → p'.functions[j]? = some f →
        ∃ es es' : List SemanticError, (p.blocks levels)[i]? = some (es.map (·.under [i])) ∧
          (p'.blocks levels)[j]? = some (es'.map (·.under [j])) ∧
          es'.map withoutCallHints = es.map withoutCallHints ∧
          ∀ path, (ofProgram levels p').typeAt? (path ++ [j]) =
            (ofProgram levels p).typeAt? (path ++ [i]) := by
  refine ⟨(p.check_eq levels).1, Function.map_redeclarations p.functions, ?_, ?_⟩
  · intro j b
    refine ⟨p.redeclarations_withBody j b, ?_⟩
    intro i hij
    have hfunction : (p.withBody j b).functions[i]? = p.functions[i]? := by
      simp [Program.withBody, Ne.symm hij]
    rw [Program.getElem?_blocks, Program.getElem?_blocks, hfunction, p.signatures_withBody j b]
  · intro p' hperm hnodup
    have hnodup' : (p'.functions.map Function.name).Nodup :=
      (hperm.map Function.name).nodup_iff.mp hnodup
    refine ⟨Function.redeclarations_of_nodup hnodup, Function.redeclarations_of_nodup hnodup', ?_⟩
    intro i j f hi hj
    have hsignatures :
        (Function.signatures p.functions).Perm (Function.signatures p'.functions) := by
      rw [Function.signatures_of_nodup hnodup, Function.signatures_of_nodup hnodup']
      exact hperm.map Function.signature
    have hnames : ((Function.signatures p.functions).map Signature.name).Nodup := by
      rw [Function.signatures_of_nodup hnodup, List.map_map]
      exact hnodup
    obtain ⟨herrors, htypes⟩ := Function.bodyCheck_of_perm hsignatures hnames f
    refine ⟨_, _, ?_, ?_, herrors, ?_⟩
    · rw [Program.getElem?_blocks, hi]
      rfl
    · rw [Program.getElem?_blocks, hj]
      rfl
    · intro path
      rw [typeAt?_append, typeAt?_append, hi, hj, Option.bind_some, Option.bind_some, htypes]

end Analysis

/-- The function `func ga() -> i32 [ return g(); ]`, in which nothing declares `g`. -/
def Function.asking : Function :=
  ⟨"ga", [], ⟨"i32", .nowhere⟩, ⟨[.ret (some (.call "g" [] .nowhere)) .nowhere], .nowhere⟩,
    .nowhere⟩

/-- The function `func gb() -> i32 []`. -/
def Function.idle : Function := ⟨"gb", [], ⟨"i32", .nowhere⟩, ⟨[], .nowhere⟩, .nowhere⟩

/-- The call of `g` is reported wherever its function stands. Both names are suggested for `g`, in
the order of the functions, and this is what the comparison leaves out. -/
theorem Analysis.asking_checked_apart :
    [Function.asking, .idle].Perm [.idle, .asking] ∧
    ([Function.asking, .idle].map Function.name).Nodup ∧
    ∃ es es' : List SemanticError,
      (Program.blocks 100 ⟨[.asking, .idle], .nowhere⟩)[0]? = some (es.map (·.under [0])) ∧
      (Program.blocks 100 ⟨[.idle, .asking], .nowhere⟩)[1]? = some (es'.map (·.under [1])) ∧
      es'.map SemanticError.withoutCallHints = es.map SemanticError.withoutCallHints ∧
      ∀ path, (ofProgram 100 ⟨[.idle, .asking], .nowhere⟩).typeAt? (path ++ [1]) =
        (ofProgram 100 ⟨[.asking, .idle], .nowhere⟩).typeAt? (path ++ [0]) := by
  have hperm : [Function.asking, .idle].Perm [.idle, .asking] := List.Perm.swap ..
  have hnodup : ([Function.asking, .idle].map Function.name).Nodup := by decide
  obtain ⟨-, -, -, hmoved⟩ := bodies_checked_apart 100 ⟨[.asking, .idle], .nowhere⟩
  obtain ⟨-, -, hblocks⟩ := hmoved ⟨[.idle, .asking], .nowhere⟩ hperm hnodup
  exact ⟨hperm, hnodup, hblocks 0 1 .asking rfl rfl⟩

end BracketLang
