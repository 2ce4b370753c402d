import BracketLang.Proofs.Typing.Naming
import BracketLang.Proofs.Typing.Tables

/-! The errors about names in a whole program. Functions are declared before any body is checked, so
the reports on their headers come first; the reports on parameters and bodies follow, function by
function. Up to order they are what `Node.diagnose` says of the nodes of the program. -/

namespace BracketLang

variable {levels : Nat}

/-! ## Parameters -/

namespace Function

/-- The report on a parameter whose name an earlier one has. -/
def repeatedParam : Param × Param → SemanticError
  | (p, first) => ⟨.redeclaration p.name "variable" (some first.location), p.location, none⟩

/-- Parameters declared behind those of `done`: each that has the name of an earlier one is
reported, and the scope holds what is declared by then. -/
theorem declareParams_in_scope (g : Scope) {s : Scope} (ss : List Scope) (done ps : List Param)
    (h : s.Lists fun x => (done.filter (·.name = x)).map Param.location) :
    ∃ ys, (∀ y ∈ ys, y.kind = .var) ∧
      (declareParams ⟨g, s :: ss⟩ ps).result =
        some ⟨g, { s with symbols := s.symbols ++ ys } :: ss⟩ ∧
      ({ s with symbols := s.symbols ++ ys } : Scope).Lists
        (fun x => ((done ++ ps).filter (·.name = x)).map Param.location) ∧
      (declareParams ⟨g, s :: ss⟩ ps).names = ((ps.zipIdx done.length).filterMap fun (p, i) =>
        (((done ++ ps).take i).find? (·.name = p.name)).map (p, ·)).map repeatedParam := by
  induction ps generalizing s done with
  | nil =>
    refine ⟨[], List.forall_mem_nil _, ?_, ?_, rfl⟩
    · simp only [List.append_nil]
      rfl
    · simpa only [List.append_nil] using h
  | cons p ps ih =>
    obtain ⟨ys, hys, hresult, hlists, hnames⟩ := SymbolTable.declare_in_scope g ss h p.name
      (.ofName p.type.name) p.location none
    have hlists : ({ s with symbols := s.symbols ++ ys } : Scope).Lists
        fun x => ((done ++ [p]).filter (·.name = x)).map Param.location := by
      intro x
      rw [hlists x]
      by_cases hx : p.name = x <;> simp [List.filter_append, hx]
    obtain ⟨zs, hzs, hresult', hlists', hnames'⟩ := ih (done ++ [p]) hlists
    refine ⟨ys ++ zs, fun y hy => ?_, ?_, ?_, ?_⟩
    · exact (List.mem_append.mp hy).elim (hys y) (hzs y)
    · rw [declareParams, Check.bind_of_some hresult, hresult']
      simp only [List.append_assoc]
    · simpa only [List.append_assoc, List.singleton_append] using hlists'
    · have hhead : ((done.filter (·.name = p.name)).map Param.location).head? =
          (done.find? (·.name = p.name)).map Param.location := by
        rw [List.head?_map, List.head?_filter]
      rw [declareParams, Check.names_bind hresult, hnames, hnames', hhead]
      simp only [List.append_assoc, List.singleton_append, List.length_append,
        List.length_singleton, List.zipIdx_cons, List.filterMap_cons, List.take_left]
      cases done.find? (·.name = p.name) <;> rfl

end Function

/-! ## Functions -/

/-- Outside of all functions, the table holds the first function of each name. -/
structure SymbolTable.Declares (table : SymbolTable) (fs : List Function) : Prop where
  inner : table.inner = []
  globals : ∀ y ∈ table.global.symbols, y.kind = .function
  find? x : table.global.find? x = (fs.find? (·.name = x)).map Function.symbol

namespace Function

open Check

/-- The report on a function whose name one of `earlier` has. -/
def repeatedFunction (earlier : List Function) (f : Function) (i : Nat) : List SemanticError :=
  (earlier.find? (·.name = f.name)).toList.map fun first =>
    ⟨.redeclaration f.name "function" (some first.span.start), f.span.start,
      some ⟨[i], .function, f.span⟩⟩

theorem declare_behind {table : SymbolTable} (H : table.Declares done) (f : Function) (i : Nat) :
    ∃ table', (f.declare table [i]).result = some table' ∧ table'.Declares (done ++ [f]) ∧
      (f.declare table [i]).names = repeatedFunction done f i := by
  have hfind := H.find? f.name
  simp only [declare, SymbolTable.defineFunction, Scope.define, repeatedFunction]
  cases hdone : done.find? (·.name = f.name) with
  | some first =>
    rw [hdone, Option.map_some] at hfind
    rw [hfind]
    refine ⟨table, rfl, ⟨H.inner, H.globals, fun x => ?_⟩, rfl⟩
    rw [H.find? x, List.find?_append]
    by_cases hx : f.name = x
    · rw [← hx, hdone]
      rfl
    · simp [hx]
  | none =>
    rw [hdone, Option.map_none] at hfind
    rw [hfind]
    refine ⟨_, rfl, ⟨H.inner, fun y hy => ?_, fun x => ?_⟩, rfl⟩
    · rcases List.mem_append.mp hy with hy | hy
      · exact H.globals y hy
      · rw [List.mem_singleton.mp hy]
    · have hx := H.find? x
      simp only [Scope.find?] at hx ⊢
      rw [List.find?_append, hx, List.find?_append, Option.map_or]
      congr 1
      by_cases hx : f.name = x <;> simp [hx, symbol]

/-- The headers are declared in order, each behind those before it. -/
theorem declareAll_behind {table : SymbolTable} (done fs : List Function)
    (H : table.Declares done) :
    ∃ table', (declareAll table done.length fs).result = some table' ∧
      table'.Declares (done ++ fs) ∧ (declareAll table done.length fs).names =
        (fs.zipIdx done.length).flatMap fun (f, i) =>
          repeatedFunction ((done ++ fs).take i) f i := by
  induction fs generalizing table done with
  | nil => exact ⟨table, rfl, by rwa [List.append_nil], rfl⟩
  | cons f fs ih =>
    obtain ⟨table', hresult, hdecl, hnames⟩ := declare_behind H f done.length
    obtain ⟨table'', hresult', hdecl', hnames'⟩ := ih (done ++ [f]) hdecl
    rw [List.length_append, List.length_singleton] at hresult' hnames'
    refine ⟨table'', ?_, ?_, ?_⟩
    · rw [declareAll, bind_of_some hresult, hresult']
    · simpa only [List.append_assoc, List.singleton_append] using hdecl'
    · rw [declareAll, names_bind hresult, hnames, hnames']
      simp only [List.append_assoc, List.singleton_append, List.zipIdx_cons, List.flatMap_cons,
        List.take_left]

section
variable {p : Program} {table : SymbolTable}

theorem find?_children (x : String) : p.node.children.find? (·.isFunction x) =
    (p.functions.find? (·.name = x)).map Function.node := by
  rw [Program.node, Node.children, List.find?_map]
  rfl

theorem arity_findFunction? (H : table.Declares p.functions) (x : String) :
    (table.findFunction? x).map Symbol.arity =
      (p.node.children.find? (·.isFunction x)).map (·.params.length) := by
  rw [SymbolTable.findFunction?, H.find? x, find?_children]
  cases p.functions.find? (·.name = x) <;>
    simp [symbol, Symbol.arity, paramTypes, node, Node.params]

theorem at?_body {root : Node} (f : Function) (hat : root.at? path = some f.node) :
    root.at? ((f.params.length + 1) :: path) = some f.body.node := by
  rw [Node.at?, hat]
  simp [node, Node.children]

/-- The parameters are in front of the first statement of the body. -/
theorem inFront_body (H : table.Declares p.functions) (f : Function)
    (hat : p.node.at? [i] = some f.node) :
    ∃ table', (declareParams (table.enter .function f.name (some f.resultType)) f.params).result =
        some table' ∧
      table'.InFront p.node [f.params.length + 1, i] 0 ∧
      (declareParams (table.enter .function f.name (some f.resultType)) f.params).names =
        (Node.repeatedParams f.params).map repeatedParam := by
  have hbody := at?_body f hat
  have harity := arity_findFunction? H
  obtain ⟨ys, hys, hresult, hlists, hnames⟩ := declareParams_in_scope table.global
    (s := ⟨.function, f.name, [], some f.resultType⟩) [] [] f.params fun x => rfl
  simp only [SymbolTable.enter, H.inner]
  refine ⟨_, hresult, ⟨harity, H.globals, fun s hs y hy => ?_,
    List.cons_ne_nil _ _, fun x => ?_, fun x => ?_⟩, hnames⟩
  · rw [List.mem_singleton.mp hs] at hy
    exact hys y hy
  · simp only [Node.declarations, hbody]
    simpa [Block.node, hat, node, Node.params, SymbolTable.current] using hlists x
  · have hroot : p.node.at? [] = some p.node := rfl
    rw [Node.resolves_cons_of_ne_block hat (by rintro ⟨⟩),
      Node.resolves_cons_of_ne_block hroot (by rintro ⟨⟩)]
    simp [Node.Resolves]

/-- What is wrong with the node of a function is what is wrong with its name and its parameters. -/
theorem diagnose_node (f : Function) (i : Nat) : p.node.diagnose ([i], f.node) =
    repeatedFunction (p.functions.take i) f i ++
      (Node.repeatedParams f.params).map repeatedParam := by
  have hearlier : (p.node.children.take i).find? (·.isFunction f.name) =
      ((p.functions.take i).find? (·.name = f.name)).map node := by
    rw [Program.node, Node.children, ← List.map_take, List.find?_map]
    rfl
  simp only [Node.diagnose, node, Node.unresolved, Node.redeclared, Node.unknown, Node.miscounted,
    hearlier, List.append_nil, List.nil_append]
  cases h : (p.functions.take i).find? (·.name = f.name) <;>
    simp [repeatedFunction, repeatedParam, h, Node.ref, Node.kind, Node.span, node]

end

end Function

/-! ## Programs -/

namespace Program

open Check

theorem at?_function (p : Program) (hf : (f, i) ∈ p.functions.zipIdx) :
    p.node.at? [i] = some f.node := by
  refine Node.at?_child (show p.node.at? [] = some p.node from rfl) ?_
  rw [node, Node.children, List.getElem?_map, List.mk_mem_zipIdx_iff_getElem?.mp hf]
  rfl

/-- The headers are declared in front of all bodies, and the parameters in front of each. -/
theorem accounted_telling (levels : Nat) (p : Program) :
    Accounted telling p.node.diagnose levels p
      (fun f i => Function.repeatedFunction (p.functions.take i) f i)
      (fun f _ => (Node.repeatedParams f.params).map Function.repeatedParam)
      (Stmt.Fronted p.node) := by
  obtain ⟨table, hresult, hdeclares, hnames⟩ := Function.declareAll_behind [] p.functions
    (⟨rfl, List.forall_mem_nil _, fun _ => rfl⟩ : SymbolTable.empty.Declares [])
  have hdeclares {t} (ht : (Function.declareAll .empty 0 p.functions).result = some t) :
      t.Declares p.functions := by
    obtain rfl := Option.some.inj (hresult.symm.trans ht)
    exact hdeclares
  refine ⟨Stmt.accounted_telling levels p.node, fun f i _ => Function.diagnose_node f i,
    fun _ => .of_names hnames, fun {t f i} ht hf => ?_, fun {t f i t'} ht hf ht' => ?_⟩
  · obtain ⟨_, -, -, hnames⟩ := Function.inFront_body (hdeclares ht) f (p.at?_function hf)
    exact fun _ => .of_names hnames
  · obtain ⟨_, hresult, hfront, -⟩ := Function.inFront_body (hdeclares ht) f (p.at?_function hf)
    obtain rfl := Option.some.inj (hresult.symm.trans ht')
    have hbody := Function.at?_body f (p.at?_function hf)
    exact ⟨hfront, ⟨_, _, _, hbody⟩, Node.hasFrom_zero hbody⟩

/-- Checking a program to its end tells what is wrong with the names in its nodes. -/
theorem tells_check (p : Program) (hc : (p.check levels).Complete) :
    (p.check levels).Tells ((p.node.places []).flatMap p.node.diagnose) :=
  (p.accounted_telling levels).holds_check hc

end Program

namespace Node

variable {root : Node} {q : Path × Node}

theorem code_of_mem_unresolved : ∀ e ∈ root.unresolved q.1 q.2, e.code = "S010" := by
  intro e he
  unfold unresolved at he
  split at he
  · split at he
    · cases he
    · rw [List.mem_singleton.mp he]
      rfl
  · split at he
    · cases he
    · rw [List.mem_singleton.mp he]
      rfl
  · cases he

theorem code_of_mem_redeclared : ∀ e ∈ root.redeclared q.1 q.2, e.code = "S011" := by
  intro e he
  unfold redeclared at he
  split at he
  · obtain ⟨_, -, rfl⟩ := List.mem_map.mp he
    rfl
  · rcases List.mem_append.mp he with he | he
    all_goals
      obtain ⟨_, -, rfl⟩ := List.mem_map.mp he
      rfl
  · cases he

theorem code_of_mem_unknown : ∀ e ∈ root.unknown q.1 q.2, e.code = "S015" := by
  intro e he
  unfold unknown at he
  split at he
  · split at he
    · cases he
    · rw [List.mem_singleton.mp he]
      rfl
  · cases he

theorem code_of_mem_miscounted : ∀ e ∈ root.miscounted q.1 q.2, e.code = "S050" := by
  intro e he
  unfold miscounted at he
  split at he
  · split at he
    · split at he
      · cases he
      · rw [List.mem_singleton.mp he]
        rfl
    · cases he
  · cases he

/-- Each of the parts of a diagnosis has a code of its own. -/
theorem filter_diagnose (root : Node) (q : Path × Node) (code : String) :
    (root.diagnose q).filter (·.code = code) =
      (if code = "S010" then root.unresolved q.1 q.2 else []) ++
      (if code = "S011" then root.redeclared q.1 q.2 else []) ++
      (if code = "S015" then root.unknown q.1 q.2 else []) ++
      (if code = "S050" then root.miscounted q.1 q.2 else []) := by
  have part {l : List SemanticError} {c : String} (h : ∀ e ∈ l, e.code = c) :
      l.filter (·.code = code) = if code = c then l else [] := by
    split
    · next heq => exact List.filter_eq_self.mpr fun e he => by simp [h e he, heq]
    · next hne => exact List.filter_eq_nil_iff.mpr fun e he => by simpa [h e he] using Ne.symm hne
  simp only [diagnose, List.filter_append, part code_of_mem_unresolved, part code_of_mem_redeclared,
    part code_of_mem_unknown, part code_of_mem_miscounted]

end Node

namespace Analysis

/-- The errors with a code, without the names that they suggest. -/
def errorsWithCode (a : Analysis) (code : String) : List SemanticError :=
  (a.errors.filter (·.code = code)).map SemanticError.withoutHints

theorem errorsWithCode_eq_filter_names (p : Program) (hcode : code ≠ "S001" ∧ code ≠ "S090") :
    (ofProgram levels p).errorsWithCode code = (p.check levels).names.filter (·.code = code) := by
  have hcodes (e : SemanticError) : e.withoutHints.code = e.code := by
    obtain ⟨_ | _ | _ | _ | _ | _, l, n⟩ := e <;> rfl
  have hnaming (e : SemanticError) (he : e.code = code) : e.isNaming := by
    obtain ⟨_ | _ | _ | _ | _ | _, l, n⟩ := e
    case typeMismatch => exact absurd he.symm hcode.1
    case nestingTooDeep => exact absurd he.symm hcode.2
    all_goals rfl
  rw [Check.names, List.filter_map, List.filter_filter]
  refine congrArg (List.map _) (List.filter_congr fun e _ => ?_)
  by_cases he : e.code = code
  · simp [hcodes, he, hnaming e he]
  · simp [hcodes, he]

/-- Unless an expression nests too deep, what is reported about names is what lexical scoping says,
once for each node that shows it. -/
theorem name_errors_perm_of_lexical_scoping (levels : Nat) (p : Program)
    (h : ∀ e ∈ (ofProgram levels p).errors, e.cause ≠ .nestingTooDeep) :
    ((p.node.places []).map Prod.fst).Nodup ∧
    ((ofProgram levels p).errorsWithCode "S010").Perm
      ((p.node.places []).flatMap fun q => p.node.unresolved q.1 q.2) ∧
    ((ofProgram levels p).errorsWithCode "S011").Perm
      ((p.node.places []).flatMap fun q => p.node.redeclared q.1 q.2) ∧
    ((ofProgram levels p).errorsWithCode "S015").Perm
      ((p.node.places []).flatMap fun q => p.node.unknown q.1 q.2) ∧
    ((ofProgram levels p).errorsWithCode "S050").Perm
      ((p.node.places []).flatMap fun q => p.node.miscounted q.1 q.2) := by
  obtain ⟨table, htable⟩ := p.total_check
  have hperm := (p.tells_check h).names_perm htable
  have hcode (code : String) (hne : code ≠ "S001" ∧ code ≠ "S090") :
      ((ofProgram levels p).errorsWithCode code).Perm
        ((p.node.places []).flatMap fun q => (p.node.diagnose q).filter (·.code = code)) := by
    rw [errorsWithCode_eq_filter_names p hne, ← List.filter_flatMap]
    exact hperm.filter _
  refine ⟨p.node.nodup_places [], ?_, ?_, ?_, ?_⟩
  · simpa [Node.filter_diagnose] using hcode "S010" (by decide)
  · simpa [Node.filter_diagnose] using hcode "S011" (by decide)
  · simpa [Node.filter_diagnose] using hcode "S015" (by decide)
  · simpa [Node.filter_diagnose] using hcode "S050" (by decide)

end Analysis

/-- Two functions of one name. The first has two parameters of one name and declares that name once
more; `z` is in scope in the inner block but not in its own initializer. -/
def Program.muddled : Program :=
  let s (column : Int) : Span := .point ⟨"muddled", 1, column, column⟩
  let i32 : TypeName := ⟨"i32", s 0⟩
  let body : List Stmt :=
    [.letVar "x" ⟨"bool", s 0⟩ (.var "y" (s 4)) (s 3), .letVar "z" i32 (.var "z" (s 6)) (s 5),
      .assign "w" (.call "f" [.call "g" [] (s 9)] (s 8)) (s 7),
      .whileLoop (.integer none (s 11)) [.letVar "z" i32 (.var "z" (s 13)) (s 12)] (s 11) (s 10)]
  ⟨[⟨"f", [⟨"x", i32, (s 1).start⟩, ⟨"x", i32, (s 2).start⟩], i32, ⟨body, s 3⟩, s 0⟩,
    ⟨"f", [], i32, ⟨[], s 15⟩, s 14⟩], s 0⟩

/-- The columns of errors and those of the places related to them. -/
def SemanticError.columns (es : List SemanticError) : List (Int × List Int) :=
  es.map fun e => (e.location.column, e.related.map Location.column)

theorem Analysis.name_errors_muddled :
    (∀ e ∈ (ofProgram 100 .muddled).errors, e.cause ≠ .nestingTooDeep) ∧
    (SemanticError.columns ((ofProgram 100 .muddled).errorsWithCode "S010")).Perm
      [(4, []), (6, []), (7, [])] ∧
    (SemanticError.columns ((ofProgram 100 .muddled).errorsWithCode "S011")).Perm
      [(2, [1]), (3, [1]), (14, [0])] ∧
    (SemanticError.columns ((ofProgram 100 .muddled).errorsWithCode "S015")).Perm [(9, [])] ∧
    (SemanticError.columns ((ofProgram 100 .muddled).errorsWithCode "S050")).Perm [(8, [])] := by
  have h : ∀ e ∈ (ofProgram 100 .muddled).errors, e.cause ≠ .nestingTooDeep := by decide +kernel
  obtain ⟨-, h10, h11, h15, h50⟩ := name_errors_perm_of_lexical_scoping 100 .muddled h
  refine ⟨h, (h10.map _).trans ?_, (h11.map _).trans ?_, (h15.map _).trans ?_, (h50.map _).trans ?_⟩
  all_goals decide +kernel

end BracketLang
