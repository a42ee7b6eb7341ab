import Mathlib.Logic.ExistsUnique
import StubCatalog.Stub.Scan

/-! # Parts of a file that could not be parsed

A node is told apart from equal ones by its place, the numbers of the children on the way to it;
`walk` lists all nodes with their places. A file has one problem for each outermost fault of its
tree. -/

namespace StubCatalog

open List

namespace SyntaxNode

/-! ### Nodes and their places -/

/-- The place below the child with the given number. -/
def under (i : Nat) (x : List Nat × SyntaxNode) : List Nat × SyntaxNode := (i :: x.1, x.2)

mutual

/-- The nodes of a tree with their places, each node in front of its children. -/
def walk : SyntaxNode → List (List Nat × SyntaxNode)
  | .mk kind start stop field named missing hasError children =>
    ([], .mk kind start stop field named missing hasError children) :: walkFrom 0 children

/-- The nodes below children that are counted from the given number on. -/
def walkFrom (i : Nat) : List SyntaxNode → List (List Nat × SyntaxNode)
  | [] => []
  | child :: rest => child.walk.map (under i) ++ walkFrom (i + 1) rest

end

theorem walk_eq (node : SyntaxNode) : node.walk = ([], node) :: walkFrom 0 node.children := by
  cases node
  rw [walk]

theorem le_of_mem_walkFrom {i : Nat} {nodes : List SyntaxNode} {x : List Nat × SyntaxNode}
    (h : x ∈ walkFrom i nodes) : ∃ j place, x.1 = j :: place ∧ i ≤ j := by
  induction nodes generalizing i with
  | nil => simp [walkFrom] at h
  | cons child rest ih =>
    rw [walkFrom, mem_append, mem_map] at h
    rcases h with ⟨y, -, rfl⟩ | h
    · exact ⟨i, y.1, rfl, Nat.le_refl i⟩
    · obtain ⟨j, place, hx, hj⟩ := ih h
      exact ⟨j, place, hx, by omega⟩

mutual

/-- The places of a tree come in lexicographic order, that of a node before those below it. -/
theorem walk_sorted : ∀ node : SyntaxNode, (node.walk.map Prod.fst).Pairwise (· < ·)
  | .mk kind start stop field named missing hasError children => by
    rw [walk, map_cons, pairwise_cons]
    refine ⟨fun place hplace => ?_, walkFrom_sorted 0 children⟩
    obtain ⟨x, hx, rfl⟩ := mem_map.mp hplace
    obtain ⟨j, place, hplace, -⟩ := le_of_mem_walkFrom hx
    rw [hplace]
    exact nil_lt_cons j place

theorem walkFrom_sorted (i : Nat) : ∀ nodes : List SyntaxNode,
    ((walkFrom i nodes).map Prod.fst).Pairwise (· < ·)
  | [] => by simp [walkFrom]
  | child :: rest => by
    have hchild : ((child.walk.map (under i)).map Prod.fst).Pairwise (· < ·) := by
      have hsorted := child.walk_sorted
      rw [pairwise_map] at hsorted
      rw [pairwise_map, pairwise_map]
      exact hsorted.imp fun h => cons_lt_cons_self.mpr h
    rw [walkFrom, map_append, pairwise_append]
    refine ⟨hchild, walkFrom_sorted (i + 1) rest, fun p hp q hq => ?_⟩
    simp only [mem_map] at hp hq
    obtain ⟨_, ⟨x, -, rfl⟩, rfl⟩ := hp
    obtain ⟨y, hy, rfl⟩ := hq
    obtain ⟨j, place, hplace, hj⟩ := le_of_mem_walkFrom hy
    rw [hplace]
    exact cons_lt_cons_iff.mpr (Or.inl (by omega))

end

/-! ### Faults -/

/-- A node is marked exactly if there is a fault in its subtree. -/
def MarksErrors (node : SyntaxNode) : Prop := node.hasError ↔ ∃ x ∈ node.walk, x.2.isFault

/-- Every node of a tree is marked exactly if there is a fault in its subtree. -/
def IsMarked (root : SyntaxNode) : Prop := ∀ x ∈ root.walk, x.2.MarksErrors

theorem IsMarked.self {node : SyntaxNode} (h : node.IsMarked) : node.MarksErrors :=
  h ([], node) (walk_eq node ▸ mem_cons_self)

theorem faults_eq (node : SyntaxNode) : node.faults = if node.isFault then [node] else
    node.children.flatMap fun child =>
      if child.hasError || child.missing then child.faults else [] := by
  rw [faults]
  simp

/-! ### Outermost faults -/

/-- Neither place lies below the other. -/
def Apart (x y : List Nat × SyntaxNode) : Prop := ¬ x.1 <+: y.1 ∧ ¬ y.1 <+: x.1

/-- **The outermost faults** among nodes in their order: faults, none of them below another, and
each fault lies below exactly one of them. -/
structure Outermost (nodes found : List (List Nat × SyntaxNode)) : Prop where
  sublist : found.Sublist nodes
  fault : ∀ x ∈ found, x.2.isFault
  apart : found.Pairwise Apart
  covers : ∀ x ∈ nodes, x.2.isFault → ∃! y, y ∈ found ∧ y.1 <+: x.1

section
variable {node : SyntaxNode} {nodes others found more : List (List Nat × SyntaxNode)}

theorem Outermost.nil : Outermost [] [] := ⟨nil_sublist _, by simp, .nil, by simp⟩

theorem outermost_self (h : node.isFault) : Outermost node.walk [([], node)] := by
  refine ⟨?_, by simpa using h, pairwise_singleton .., fun x _ _ => ⟨([], node), by simp, ?_⟩⟩
  · rw [walk_eq]
    simp
  · rintro y ⟨hy, -⟩
    simpa using hy

theorem Outermost.cons (h : Outermost nodes found) {x : List Nat × SyntaxNode}
    (hx : x.2.isFault = false) : Outermost (x :: nodes) found := by
  refine ⟨h.sublist.cons x, h.fault, h.apart, fun y hy hfault => ?_⟩
  rcases mem_cons.mp hy with rfl | hy
  · rw [hx] at hfault
    cases hfault
  · exact h.covers y hy hfault

theorem Outermost.under (h : Outermost nodes found) (i : Nat) :
    Outermost (nodes.map (under i)) (found.map (under i)) := by
  refine ⟨h.sublist.map _, ?_, ?_, ?_⟩
  · rintro _ hx
    obtain ⟨x, hx', rfl⟩ := mem_map.mp hx
    exact h.fault x hx'
  · rw [pairwise_map]
    exact h.apart.imp fun hxy => ⟨fun hpre => hxy.1 (cons_prefix_cons.mp hpre).2,
      fun hpre => hxy.2 (cons_prefix_cons.mp hpre).2⟩
  · intro x hx hfault
    obtain ⟨x, hx', rfl⟩ := mem_map.mp hx
    obtain ⟨y, ⟨hy, hpre⟩, hunique⟩ := h.covers x hx' hfault
    refine ⟨SyntaxNode.under i y, ⟨mem_map_of_mem hy, cons_prefix_cons.mpr ⟨rfl, hpre⟩⟩, ?_⟩
    rintro z ⟨hz, hpre⟩
    obtain ⟨z, hz', rfl⟩ := mem_map.mp hz
    rw [hunique z ⟨hz', (cons_prefix_cons.mp hpre).2⟩]

theorem Outermost.append (h : Outermost nodes found) (h' : Outermost others more)
    (hapart : ∀ x ∈ nodes, ∀ y ∈ others, Apart x y) : Outermost (nodes ++ others) (found ++ more) := by
  refine ⟨h.sublist.append h'.sublist, ?_, ?_, fun x hx hfault => ?_⟩
  · intro x hx
    rcases mem_append.mp hx with hx | hx
    · exact h.fault x hx
    · exact h'.fault x hx
  · exact pairwise_append.mpr ⟨h.apart, h'.apart, fun x hx y hy =>
      hapart x (h.sublist.subset hx) y (h'.sublist.subset hy)⟩
  · rcases mem_append.mp hx with hx | hx
    · obtain ⟨y, ⟨hy, hpre⟩, hunique⟩ := h.covers x hx hfault
      refine ⟨y, ⟨mem_append_left _ hy, hpre⟩, ?_⟩
      rintro z ⟨hz, hzpre⟩
      rcases mem_append.mp hz with hz | hz
      · exact hunique z ⟨hz, hzpre⟩
      · exact absurd hzpre (hapart x hx z (h'.sublist.subset hz)).2
    · obtain ⟨y, ⟨hy, hpre⟩, hunique⟩ := h'.covers x hx hfault
      refine ⟨y, ⟨mem_append_right _ hy, hpre⟩, ?_⟩
      rintro z ⟨hz, hzpre⟩
      rcases mem_append.mp hz with hz | hz
      · exact absurd hzpre (hapart z (h.sublist.subset hz) x hx).1
      · exact hunique z ⟨hz, hzpre⟩

theorem Outermost.eq_nil (h : Outermost node.walk found) (hmarks : node.MarksErrors)
    (herror : ¬ node.hasError) : found = [] := by
  refine eq_nil_iff_forall_not_mem.mpr fun x hx => ?_
  exact herror (hmarks.mpr ⟨x, h.sublist.subset hx, h.fault x hx⟩)

end

mutual

theorem exists_outermost : ∀ node : SyntaxNode, node.IsMarked →
    ∃ found, found.map Prod.snd = node.faults ∧ Outermost node.walk found
  | .mk kind start stop field named missing hasError children, hmarked => by
    rw [faults_eq]
    split
    · next h => exact ⟨[([], _)], rfl, outermost_self h⟩
    · next h =>
      rw [IsMarked, walk_eq] at hmarked
      obtain ⟨found, hfound, houtermost⟩ :=
        exists_outermostFrom 0 children (forall_mem_cons.mp hmarked).2
      rw [walk_eq]
      exact ⟨found, hfound, houtermost.cons (Bool.eq_false_iff.mpr h)⟩

theorem exists_outermostFrom (i : Nat) : ∀ nodes : List SyntaxNode,
    (∀ x ∈ walkFrom i nodes, x.2.MarksErrors) → ∃ found,
    found.map Prod.snd = (nodes.flatMap fun child =>
      if child.hasError || child.missing then child.faults else []) ∧
      Outermost (walkFrom i nodes) found
  | [], _ => ⟨[], rfl, .nil⟩
  | child :: rest, hmarked => by
    rw [walkFrom, forall_mem_append, forall_mem_map] at hmarked
    obtain ⟨hchild, hrest⟩ := hmarked
    obtain ⟨found, hfound, houtermost⟩ := exists_outermost child hchild
    obtain ⟨more, hmore, houtermost'⟩ := exists_outermostFrom (i + 1) rest hrest
    refine ⟨found.map (under i) ++ more, ?_, ?_⟩
    · have hkept : (if child.hasError || child.missing then child.faults else []) =
          found.map Prod.snd := by
        split
        · exact hfound.symm
        · next h =>
          have herror : ¬ child.hasError := fun herror => h (by simp [herror])
          rw [houtermost.eq_nil (IsMarked.self hchild) herror, map_nil]
      rw [flatMap_cons, hkept, map_append, hmore, map_map]
      rfl
    · rw [walkFrom]
      refine (houtermost.under i).append houtermost' fun x hx y hy => ?_
      obtain ⟨x, -, rfl⟩ := mem_map.mp hx
      obtain ⟨j, place, hplace, hj⟩ := le_of_mem_walkFrom hy
      simp only [Apart, under, hplace, cons_prefix_cons]
      exact ⟨fun h => by omega, fun h => by omega⟩

end

end SyntaxNode

namespace Stub.Source

open SyntaxNode

/-- **One problem for each outermost fault.** In a tree whose nodes are marked exactly if there is a
fault below, the faults that are found are in the order of the nodes, none below another, and every
fault lies below exactly one of them; a file has their problems and no others, so it has one exactly
if the root is marked. -/
theorem problems_outermost (src : Source) {root : SyntaxNode} (hmarked : root.IsMarked) :
    (root.walk.map Prod.fst).Pairwise (· < ·) ∧
    (root.hasError = true ↔ ∃ x ∈ root.walk, x.2.isFault = true) ∧
    (∃ found, found.map Prod.snd = root.faults ∧ Outermost root.walk found) ∧
    (src.scan root).problems = root.faults.map src.problem ∧
    ((src.scan root).problems ≠ [] ↔ root.hasError = true) := by
  obtain ⟨found, hfound, houtermost⟩ := exists_outermost root hmarked
  have hnil : root.faults = [] ↔ ¬ root.hasError := by
    rw [← hfound, map_eq_nil_iff]
    refine ⟨fun h herror => ?_, houtermost.eq_nil hmarked.self⟩
    obtain ⟨x, hx, hfault⟩ := hmarked.self.mp herror
    obtain ⟨y, ⟨hy, -⟩, -⟩ := houtermost.covers x hx hfault
    rw [h] at hy
    cases hy
  have hproblems : (src.scan root).problems = root.faults.map src.problem := by
    have hscan : (src.scan root).problems = src.problems root := rfl
    rw [hscan, problems]
    split
    · next h =>
      split
      · next hfaults => exact absurd h (hnil.mp hfaults)
      · rfl
    · next h => rw [hnil.mpr h, map_nil]
  refine ⟨root.walk_sorted, hmarked.self, ⟨found, hfound, houtermost⟩, hproblems, ?_⟩
  rw [hproblems, ne_eq, map_eq_nil_iff, hnil, Bool.not_eq_true, Bool.not_eq_false]

/-- A node of the given kind with the given children, marked as one with an error in it. -/
def faultyNode (kind : String) (missing : Bool) (children : List SyntaxNode) : SyntaxNode :=
  { kind, start := 0, stop := 0, field := none, named := true, missing, hasError := true, children }

/-- A part that could not be parsed with a missing sign in it, and a missing sign behind it. -/
def faultyTree : SyntaxNode :=
  faultyNode "program" false
    [faultyNode "ERROR" false [faultyNode ";" true []], faultyNode ")" true []]

/-- The missing sign inside the part that could not be parsed is no problem of its own. -/
theorem problems_outermost_faultyTree : faultyTree.IsMarked ∧
    (({ path := "a.php", bytes := ⟨#[]⟩ } : Source).scan faultyTree).problems.length = 2 := by
  have hmarked : faultyTree.IsMarked := by
    unfold IsMarked MarksErrors
    decide
  obtain ⟨-, -, -, hproblems, -⟩ := problems_outermost { path := "a.php", bytes := ⟨#[]⟩ } hmarked
  rw [hproblems, length_map]
  exact ⟨hmarked, by cbv⟩

end Stub.Source

end StubCatalog
