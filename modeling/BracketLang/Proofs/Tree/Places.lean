import BracketLang.Tree.Node

/-! The nodes of a tree with their paths. `Node.at?` follows a path from the root, and `Node.places`
lists the nodes, each with its path, from the root down and from left to right. A block that stands
among the statements of another block is no statement and is left aside with all that it holds. -/

namespace BracketLang.Node

def detail : Node → Detail
  | mk _ _ d _ => d

/-- A node as reports name it. -/
def ref (path : Path) (n : Node) : NodeRef := ⟨path, n.kind, n.span⟩

/-- The node that a path leads to. -/
def at? (root : Node) : Path → Option Node
  | [] => some root
  | i :: path => (root.at? path).bind (·.children[i]?)

mutual

/-- The nodes of a tree whose root has the given path. -/
def places (path : Path) : Node → List (Path × Node)
  | mk kind span detail children =>
    (path, mk kind span detail children) :: placesFrom (kind = .block) path 0 children

/-- The nodes below the children of a node, the first of which has the given index. Where the
children are the statements of a block, those that are blocks themselves are left aside. -/
def placesFrom (statements : Bool) (path : Path) (index : Nat) : List Node → List (Path × Node)
  | [] => []
  | c :: cs =>
    (if statements ∧ c.kind = .block then [] else c.places (index :: path)) ++
      placesFrom statements path (index + 1) cs

end

theorem placesFrom_append (statements : Bool) (path : Path) (i : Nat) (cs cs' : List Node) :
    placesFrom statements path i (cs ++ cs') =
      placesFrom statements path i cs ++ placesFrom statements path (i + cs.length) cs' := by
  induction cs generalizing i with
  | nil => rfl
  | cons c cs ih =>
    simp only [List.cons_append, placesFrom, ih, List.append_assoc, List.length_cons]
    rw [Nat.add_assoc, Nat.add_comm 1]

/-! ## Paths -/

theorem at?_child {root n c : Node} (h : root.at? path = some n) (hc : n.children[i]? = some c) :
    root.at? (i :: path) = some c := by
  rw [at?, h, Option.bind_some, hc]

/-- The node at `path` has the children `cs` from index `i` on. -/
def HasFrom (root : Node) (path : Path) (i : Nat) (cs : List Node) : Prop :=
  ∃ n before, root.at? path = some n ∧ n.children = before ++ cs ∧ before.length = i

theorem hasFrom_zero {root n : Node} (h : root.at? path = some n) :
    root.HasFrom path 0 n.children :=
  ⟨n, [], h, rfl, rfl⟩

theorem HasFrom.head {root : Node} (h : root.HasFrom path i (c :: cs)) :
    root.at? (i :: path) = some c := by
  obtain ⟨n, before, hn, hcs, rfl⟩ := h
  simp [at?, hn, hcs]

theorem HasFrom.tail {root : Node} (h : root.HasFrom path i (c :: cs)) :
    root.HasFrom path (i + 1) cs := by
  obtain ⟨n, before, hn, hcs, rfl⟩ := h
  exact ⟨n, before ++ [c], hn, by simp [hcs], by simp⟩

mutual

theorem suffix_of_mem_places {path : Path} : (n : Node) → ∀ q ∈ n.places path, path <:+ q.1
  | mk kind span detail cs => by
    rw [places, List.forall_mem_cons]
    refine ⟨List.suffix_refl path, fun q hq => ?_⟩
    obtain ⟨j, -, hj⟩ := suffix_of_mem_placesFrom cs q hq
    exact (List.suffix_cons j path).trans hj

theorem suffix_of_mem_placesFrom {statements : Bool} {path : Path} {i : Nat} :
    (cs : List Node) → ∀ q ∈ placesFrom statements path i cs, ∃ j ≥ i, j :: path <:+ q.1
  | [] => by simp [placesFrom]
  | c :: cs => by
    rw [placesFrom, List.forall_mem_append]
    refine ⟨fun q hq => ?_, fun q hq => ?_⟩
    · split at hq
      · cases hq
      · exact ⟨i, Nat.le_refl i, suffix_of_mem_places c q hq⟩
    · obtain ⟨j, hj, hq⟩ := suffix_of_mem_placesFrom cs q hq
      exact ⟨j, Nat.le_of_succ_le hj, hq⟩

end

theorem eq_of_cons_suffix {path π : Path} (hi : i :: path <:+ π) (hj : j :: path <:+ π) :
    i = j := by
  have h := List.suffix_of_suffix_length_le hi hj (by simp)
  have h' := h.eq_of_length (by simp)
  exact (List.cons.inj h').1

mutual

/-- No two nodes of a tree have the same path. -/
theorem nodup_places (path : Path) : (n : Node) → ((n.places path).map Prod.fst).Nodup
  | mk kind span detail cs => by
    rw [places, List.map_cons, List.nodup_cons]
    refine ⟨fun hmem => ?_, nodup_placesFrom _ path 0 cs⟩
    obtain ⟨q, hq, heq⟩ := List.mem_map.mp hmem
    obtain ⟨j, -, hj⟩ := suffix_of_mem_placesFrom cs q hq
    have hlen := hj.length_le
    rw [show q.1 = path from heq, List.length_cons] at hlen
    omega

theorem nodup_placesFrom (statements : Bool) (path : Path) (i : Nat) :
    (cs : List Node) → ((placesFrom statements path i cs).map Prod.fst).Nodup
  | [] => List.nodup_nil
  | c :: cs => by
    rw [placesFrom, List.map_append]
    refine List.nodup_append.mpr ⟨?_, nodup_placesFrom statements path (i + 1) cs, ?_⟩
    · split
      · exact List.nodup_nil
      · exact nodup_places (i :: path) c
    · -- paths below different children differ in the child's index
      rintro _ hl _ hr rfl
      obtain ⟨q, hq, hqe⟩ := List.mem_map.mp hl
      obtain ⟨r, hr, hre⟩ := List.mem_map.mp hr
      obtain ⟨j, hj, hr⟩ := suffix_of_mem_placesFrom cs r hr
      split at hq
      · cases hq
      · have hq := suffix_of_mem_places c q hq
        rw [hqe] at hq
        rw [hre] at hr
        have := eq_of_cons_suffix hq hr
        omega

end

/-! ## Places in places -/

theorem mem_places_self (n : Node) (path : Path) : (path, n) ∈ n.places path := by
  cases n
  exact List.mem_cons_self

theorem places_subset_placesFrom {c : Node} (h : cs[j]? = some c)
    (hc : ¬ (b = true ∧ c.kind = .block)) :
    c.places ((i + j) :: path) ⊆ placesFrom b path i cs := by
  induction cs generalizing i j with
  | nil => cases h
  | cons d cs ih =>
    rw [placesFrom]
    cases j with
    | zero =>
      cases h
      rw [if_neg hc]
      exact List.subset_append_left ..
    | succ j =>
      have hrest := ih (i := i + 1) h
      rw [Nat.add_right_comm] at hrest
      exact List.subset_append_of_subset_right _ hrest

/-- What stands in a child stands in the node. -/
theorem places_child {n c : Node} (path : Path) (h : n.children[j]? = some c)
    (hc : ¬ (n.kind = .block ∧ c.kind = .block)) : c.places (j :: path) ⊆ n.places path := by
  obtain ⟨kind, span, detail, cs⟩ := n
  have hc' : ¬ (decide (kind = .block) = true ∧ c.kind = .block) := by
    rw [decide_eq_true_iff]
    exact hc
  have hsub : c.places ((0 + j) :: path) ⊆ _ := places_subset_placesFrom h hc'
  rw [Nat.zero_add] at hsub
  exact List.subset_cons_of_subset _ hsub

mutual

/-- A path among the places of a node leads to the node that stands there. -/
theorem at?_of_mem_places {root : Node} {path : Path} (n : Node) (h : root.at? path = some n) :
    ∀ q ∈ n.places path, root.at? q.1 = some q.2 := by
  match n with
  | mk kind span detail cs =>
    rw [places, List.forall_mem_cons]
    exact ⟨h, at?_of_mem_placesFrom cs (hasFrom_zero h)⟩

theorem at?_of_mem_placesFrom {root : Node} {path : Path} {i : Nat} {b : Bool} (cs : List Node)
    (h : root.HasFrom path i cs) : ∀ q ∈ placesFrom b path i cs, root.at? q.1 = some q.2 := by
  match cs with
  | [] => exact List.forall_mem_nil _
  | c :: cs =>
    rw [placesFrom, List.forall_mem_append]
    refine ⟨?_, at?_of_mem_placesFrom cs h.tail⟩
    split
    · exact List.forall_mem_nil _
    · exact at?_of_mem_places c h.head

end

mutual

/-- What stands at a place of a node stands in the node. -/
theorem places_subset_of_mem {path : Path} (n : Node) :
    ∀ q ∈ n.places path, q.2.places q.1 ⊆ n.places path := by
  match n with
  | mk kind span detail cs =>
    rw [places, List.forall_mem_cons]
    refine ⟨List.Subset.refl _, fun q hq => ?_⟩
    exact List.subset_cons_of_subset _ (placesFrom_subset_of_mem cs q hq)

theorem placesFrom_subset_of_mem {path : Path} {i : Nat} {b : Bool} (cs : List Node) :
    ∀ q ∈ placesFrom b path i cs, q.2.places q.1 ⊆ placesFrom b path i cs := by
  match cs with
  | [] => exact List.forall_mem_nil _
  | c :: cs =>
    rw [placesFrom, List.forall_mem_append]
    refine ⟨?_, fun q hq => ?_⟩
    · split
      · exact List.forall_mem_nil _
      · exact fun q hq => List.subset_append_of_subset_left _ (places_subset_of_mem c q hq)
    · exact List.subset_append_of_subset_right _ (placesFrom_subset_of_mem cs q hq)

end

/-- No block in the tree stands among the statements of another. -/
inductive Flat : Node → Prop
  | mk {k s d cs} (hself : k = .block → ∀ c ∈ cs, c.kind ≠ .block) (hbelow : ∀ c ∈ cs, c.Flat) :
    Flat (.mk k s d cs)

theorem Flat.leaf (k : NodeKind) (s : Span) (d : Detail) : Flat (.mk k s d []) :=
  .mk (fun _ => List.forall_mem_nil _) (List.forall_mem_nil _)

/-- In a flat tree nothing is left aside. -/
theorem Flat.mem_places {root n : Node} (hroot : root.Flat) (h : root.at? path = some n) :
    n.Flat ∧ (path, n) ∈ root.places [] := by
  induction path generalizing n with
  | nil =>
    cases h
    exact ⟨hroot, root.mem_places_self []⟩
  | cons i path ih =>
    obtain ⟨m, hm, hn⟩ := Option.bind_eq_some_iff.mp h
    obtain ⟨hflat, hmem⟩ := ih hm
    cases hflat with
    | mk hself hbelow =>
      have hc := List.mem_of_getElem? hn
      refine ⟨hbelow n hc, places_subset_of_mem root _ hmem ?_⟩
      exact places_child path hn (fun h => hself h.1 n hc h.2) (n.mem_places_self _)

end BracketLang.Node
