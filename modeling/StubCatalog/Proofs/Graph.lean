import Mathlib.Data.Finset.Card
import Mathlib.Data.List.Dedup
import Mathlib.Data.List.Perm.Subperm
import Mathlib.Logic.Relation
import Mathlib.Order.Nat
import StubCatalog.Graph
import StubCatalog.Proofs.Table

/-! # What the search for components finds

A node on the stack leads to all that lie above it, and back to a node on the path that the search
is following; the nodes off the path have all their successors met (`Search.Valid`). So when the
search leaves a node whose low number is its own, the nodes above it are its component
(`Search.Following.strong`). -/

namespace StubCatalog.Graph

open List Relation

/-- One step in the graph. -/
def Step (successors : String → List String) (a b : String) : Prop := b ∈ successors a

/-- The second node can be reached from the first in any number of steps. -/
abbrev Reach (successors : String → List String) : String → String → Prop :=
  ReflTransGen (Step successors)

namespace Search

variable {nodes : List String} {successors : String → List String} {path : List String}
  {s s' : Search} {node x : String}

/-- The node has been met. -/
def Met (s : Search) (node : String) : Prop := s.index.contains node = true

theorem met_enter : (s.enter node).Met x ↔ x = node ∨ s.Met x := by
  unfold Met enter Table.contains
  rw [Table.get?_insert]
  by_cases h : x = node <;> simp [h]

theorem indexOf_enter_self : (s.enter node).indexOf node = s.counter := by
  simp [indexOf, enter, Table.get?_insert]

theorem indexOf_enter (h : x ≠ node) : (s.enter node).indexOf x = s.indexOf x := by
  simp [indexOf, enter, Table.get?_insert, h]

theorem lowOf_enter_self : (s.enter node).lowOf node = s.counter := by
  simp [lowOf, enter, Table.get?_insert]

theorem lowOf_enter (h : x ≠ node) : (s.enter node).lowOf x = s.lowOf x := by
  simp [lowOf, enter, Table.get?_insert, h]

theorem lowOf_lower_self {bound : Nat} :
    (s.lower node bound).lowOf node = min (s.lowOf node) bound := by
  simp [lowOf, lower, Table.get?_insert]

theorem lowOf_lower {bound : Nat} (h : x ≠ node) : (s.lower node bound).lowOf x = s.lowOf x := by
  simp [lowOf, lower, Table.get?_insert, h]

/-! ### The invariant -/

/-- What holds between the steps of a search that is following the nodes of a path. -/
structure Valid (nodes : List String) (successors : String → List String) (path : List String)
    (s : Search) : Prop where
  onStack_iff (x : String) : x ∈ s.onStack ↔ x ∈ s.stack
  met_iff (x : String) : s.Met x ↔ x ∈ s.stack ++ s.components.flatten
  nodup : (s.stack ++ s.components.flatten).Nodup
  counter_eq : s.counter = (s.stack ++ s.components.flatten).length
  is_node {x : String} : s.Met x → x ∈ nodes
  lt_counter {x : String} : s.Met x → s.indexOf x < s.counter
  ordered : s.stack.Pairwise fun upper lower =>
    s.indexOf lower < s.indexOf upper ∧ Reach successors lower upper
  of_path {x : String} : x ∈ path → x ∈ s.stack
  leads_back {x : String} : x ∈ s.stack →
    ∃ p ∈ path, s.indexOf p ≤ s.indexOf x ∧ Reach successors x p
  followed {x y : String} : s.Met x → x ∉ path → Step successors x y → s.Met y
  strong {c : List String} {a : String} : c ∈ s.components → a ∈ c →
    ∀ b, b ∈ c ↔ Reach successors a b ∧ Reach successors b a

theorem Valid.met_of_mem_stack (h : Valid nodes successors path s) (hx : x ∈ s.stack) : s.Met x :=
  (h.met_iff x).mpr (mem_append_left _ hx)

theorem Valid.notMem (h : Valid nodes successors path s) (hfresh : ¬ s.Met node) :
    node ∉ s.stack ++ s.components.flatten := fun hmem => hfresh ((h.met_iff node).mpr hmem)

theorem Valid.lower (h : Valid nodes successors path s) (node : String) (bound : Nat) :
    Valid nodes successors path (s.lower node bound) := { h with }

/-- The second state comes later in a search. -/
structure Extends (s s' : Search) : Prop where
  met {x : String} : s.Met x → s'.Met x
  indexOf_eq {x : String} : s.Met x → s'.indexOf x = s.indexOf x
  lowOf_eq {x : String} : s.Met x → s'.lowOf x = s.lowOf x
  counter_le : s.counter ≤ s'.counter

theorem Extends.trans {s'' : Search} (h : Extends s s') (h' : Extends s' s'') : Extends s s'' where
  met hx := h'.met (h.met hx)
  indexOf_eq hx := (h'.indexOf_eq (h.met hx)).trans (h.indexOf_eq hx)
  lowOf_eq hx := (h'.lowOf_eq (h.met hx)).trans (h.lowOf_eq hx)
  counter_le := h.counter_le.trans h'.counter_le

/-- What a search from a node comes to: its component is complete, or the node is on the stack and
leads to the node of its low number there. No node above the old stack has a step to a smaller
number on it. -/
structure Visited (nodes : List String) (successors : String → List String) (path : List String)
    (s : Search) (node : String) (s' : Search) : Prop where
  valid : Valid nodes successors path s'
  later : Extends s s'
  met : s'.Met node
  outcome : ∃ above, s'.stack = above ++ s.stack ∧
    (∀ x ∈ above, ∀ y ∈ s.stack, Step successors x y → s'.lowOf node ≤ s.indexOf y) ∧
    (s.counter ≤ s'.lowOf node ∨
      ∃ z ∈ s'.stack, s'.indexOf z = s'.lowOf node ∧ Reach successors node z)

/-- What holds from the time when the search meets a node, in the state `s`, until it leaves it. -/
structure Entered (nodes : List String) (successors : String → List String) (path : List String)
    (s : Search) (node : String) (s' : Search) : Prop where
  valid : Valid nodes successors (node :: path) s'
  later : Extends s s'
  fresh : ¬ s.Met node
  counter_lt : s.counter < s'.counter
  indexOf_node : s'.indexOf node = s.counter
  low_le : s'.lowOf node ≤ s.counter
  low_reached : ∃ z ∈ s'.stack, s'.indexOf z = s'.lowOf node ∧ Reach successors node z

/-- What holds while the successors of a node are followed; `done` are those followed so far. -/
structure Following (nodes : List String) (successors : String → List String) (path : List String)
    (s : Search) (node : String) (done : List String) (s' : Search) : Prop
    extends Entered nodes successors path s node s' where
  met {y : String} : y ∈ done → s'.Met y
  outcome : ∃ above, s'.stack = above ++ node :: s.stack ∧ ∀ y ∈ s.stack,
    (y ∈ done ∨ ∃ x ∈ above, Step successors x y) → s'.lowOf node ≤ s.indexOf y

theorem valid_enter (h : Valid nodes successors path s) (hfresh : ¬ s.Met node)
    (hnode : node ∈ nodes) (hpath : ∀ p ∈ path, Reach successors p node) :
    Valid nodes successors (node :: path) (s.enter node) := by
  have hindex : ∀ {x}, s.Met x → (s.enter node).indexOf x = s.indexOf x :=
    fun hx => indexOf_enter fun heq => hfresh (heq ▸ hx)
  have hold : ∀ {x}, x ∈ s.stack → s.Met x := h.met_of_mem_stack
  refine
    { onStack_iff := fun x => ?_
      met_iff := fun x => ?_
      nodup := nodup_cons.mpr ⟨h.notMem hfresh, h.nodup⟩
      counter_eq := congrArg (· + 1) h.counter_eq
      is_node := fun hx => ?_
      lt_counter := fun hx => ?_
      ordered := pairwise_cons.mpr ⟨fun lower hlower => ?_, ?_⟩
      of_path := fun hx => ?_
      leads_back := fun hx => ?_
      followed := fun hx hoff hstep => ?_
      strong := h.strong }
  · simp only [enter, mem_cons, h.onStack_iff]
  · rw [met_enter, h.met_iff]
    exact mem_cons.symm
  · rcases met_enter.mp hx with rfl | hx
    · exact hnode
    · exact h.is_node hx
  · rcases met_enter.mp hx with rfl | hx
    · exact indexOf_enter_self.trans_lt (Nat.lt_succ_self _)
    · exact (hindex hx).trans_lt (Nat.lt_succ_of_lt (h.lt_counter hx))
  · obtain ⟨p, hp, -, hreach⟩ := h.leads_back hlower
    rw [indexOf_enter_self, hindex (hold hlower)]
    exact ⟨h.lt_counter (hold hlower), hreach.trans (hpath p hp)⟩
  · refine h.ordered.imp_of_mem fun {upper lower} hupper hlower hlt => ?_
    rwa [hindex (hold hupper), hindex (hold hlower)]
  · rcases mem_cons.mp hx with rfl | hx
    · exact mem_cons_self
    · exact mem_cons_of_mem _ (h.of_path hx)
  · rcases mem_cons.mp hx with rfl | hx
    · exact ⟨_, mem_cons_self, le_rfl, .refl⟩
    · obtain ⟨p, hp, hle, hreach⟩ := h.leads_back hx
      refine ⟨p, mem_cons_of_mem _ hp, ?_, hreach⟩
      rwa [hindex (hold hx), hindex (hold (h.of_path hp))]
  · obtain ⟨hne', hoff⟩ := not_or.mp (mt mem_cons.mpr hoff)
    exact met_enter.mpr (.inr (h.followed ((met_enter.mp hx).resolve_left hne') hoff hstep))

theorem following_enter (h : Valid nodes successors path s) (hfresh : ¬ s.Met node)
    (hnode : node ∈ nodes) (hpath : ∀ p ∈ path, Reach successors p node) :
    Following nodes successors path s node [] (s.enter node) where
  valid := valid_enter h hfresh hnode hpath
  later :=
    { met := fun hx => met_enter.mpr (.inr hx)
      indexOf_eq := fun hx => indexOf_enter fun heq => hfresh (heq ▸ hx)
      lowOf_eq := fun hx => lowOf_enter fun heq => hfresh (heq ▸ hx)
      counter_le := Nat.le_succ _ }
  fresh := hfresh
  counter_lt := Nat.lt_succ_self _
  indexOf_node := indexOf_enter_self
  low_le := lowOf_enter_self.le
  low_reached := ⟨node, mem_cons_self, indexOf_enter_self.trans lowOf_enter_self.symm, .refl⟩
  met := by simp
  outcome := ⟨[], rfl, by simp⟩

/-! ### Following a successor -/

section
variable {done : List String} {target : String}

/-- The low number of the node may be lowered to a number on the stack that the node leads to, or to
one that is not given yet, which changes nothing. -/
theorem Entered.lower (h : Entered nodes successors path s node s') {bound : Nat}
    (hbound : s.counter ≤ bound ∨ ∃ z ∈ s'.stack, s'.indexOf z = bound ∧ Reach successors node z) :
    Entered nodes successors path s node (s'.lower node bound) where
  valid := h.valid.lower node bound
  later :=
    { h.later with
      lowOf_eq := fun {x} hx =>
        (lowOf_lower fun heq : x = node => h.fresh (heq ▸ hx)).trans (h.later.lowOf_eq hx) }
  fresh := h.fresh
  counter_lt := h.counter_lt
  indexOf_node := h.indexOf_node
  low_le := lowOf_lower_self.trans_le ((min_le_left _ _).trans h.low_le)
  low_reached := by
    rw [lowOf_lower_self]
    by_cases hle : s'.lowOf node ≤ bound
    · rw [min_eq_left hle]
      exact h.low_reached
    · rw [min_eq_right (not_le.mp hle).le]
      exact hbound.resolve_left fun hcounter => hle (h.low_le.trans hcounter)

theorem Entered.met_node (h : Entered nodes successors path s node s') : s'.Met node :=
  h.valid.met_of_mem_stack (h.valid.of_path mem_cons_self)

theorem Entered.visit {s'' : Search} (h : Entered nodes successors path s node s')
    (hvisited : Visited nodes successors (node :: path) s' target s'') :
    Entered nodes successors path s node s'' := by
  have hlow : s''.lowOf node = s'.lowOf node := hvisited.later.lowOf_eq h.met_node
  obtain ⟨above, hstack, -⟩ := hvisited.outcome
  obtain ⟨z, hz, hindex, hreach⟩ := h.low_reached
  exact
    { valid := hvisited.valid
      later := h.later.trans hvisited.later
      fresh := h.fresh
      counter_lt := h.counter_lt.trans_le hvisited.later.counter_le
      indexOf_node := (hvisited.later.indexOf_eq h.met_node).trans h.indexOf_node
      low_le := hlow.trans_le h.low_le
      low_reached := ⟨z, hstack ▸ mem_append_right _ hz, by
        rw [hvisited.later.indexOf_eq (h.valid.met_of_mem_stack hz), hindex, hlow], hreach⟩ }

/-- **One step**: the search follows an edge from the node to a successor. -/
theorem Following.follow {visit : Search → String → Search}
    (h : Following nodes successors path s node done s') (hstart : Valid nodes successors path s)
    (hstep : Step successors node target)
    (hvisit : ¬ s'.Met target →
      Visited nodes successors (node :: path) s' target (visit s' target)) :
    Following nodes successors path s node (done ++ [target]) (follow visit node s' target) := by
  obtain ⟨above, hstack, hlow⟩ := h.outcome
  have hcases : ∀ {y}, y ∈ done ++ [target] → y ∈ done ∨ y = target := fun hy =>
    (mem_append.mp hy).imp_right mem_singleton.mp
  have hkept : ∀ {y}, y ∈ s.stack → y ∈ s'.stack := fun hy =>
    hstack ▸ mem_append_right _ (mem_cons_of_mem _ hy)
  unfold Search.follow
  by_cases hmet : s'.Met target
  · have hdone : ∀ {y}, y ∈ done ++ [target] → s'.Met y := fun hy =>
      (hcases hy).elim h.met fun heq => heq ▸ hmet
    rw [if_neg (by simpa [Met] using hmet)]
    by_cases hon : s'.onStack.contains target
    · have htarget : target ∈ s'.stack := (h.valid.onStack_iff _).mp (contains_iff_mem.mp hon)
      rw [if_pos hon]
      refine
        { h.toEntered.lower (.inr ⟨target, htarget, rfl, .single hstep⟩) with
          met := hdone, outcome := ⟨above, hstack, fun y hy hcase => ?_⟩ }
      rw [lowOf_lower_self]
      rcases hcase with hy' | hx
      · rcases hcases hy' with hy' | rfl
        · exact (min_le_left _ _).trans (hlow y hy (.inl hy'))
        · exact (min_le_right _ _).trans (h.later.indexOf_eq (hstart.met_of_mem_stack hy)).le
      · exact (min_le_left _ _).trans (hlow y hy (.inr hx))
    · rw [if_neg hon]
      refine { h with met := hdone, outcome := ⟨above, hstack, fun y hy hcase => ?_⟩ }
      refine hlow y hy (hcase.imp_left fun hy' => (hcases hy').resolve_right ?_)
      rintro rfl
      exact hon (contains_iff_mem.mpr ((h.valid.onStack_iff _).mpr (hkept hy)))
  · rw [if_pos (by simpa [Met] using hmet)]
    have hvisited := hvisit hmet
    generalize visit s' target = inner at hvisited ⊢
    obtain ⟨more, hmore, hlow', hreached⟩ := hvisited.outcome
    have hlowNode : inner.lowOf node = s'.lowOf node := hvisited.later.lowOf_eq h.met_node
    have hbound : s.counter ≤ inner.lowOf target ∨
        ∃ z ∈ inner.stack, inner.indexOf z = inner.lowOf target ∧ Reach successors node z :=
      hreached.imp h.counter_lt.le.trans fun ⟨z, hz, hindex, hreach⟩ =>
        ⟨z, hz, hindex, .head hstep hreach⟩
    refine
      { (h.toEntered.visit hvisited).lower hbound with
        met := fun hy => (hcases hy).elim (fun hy => hvisited.later.met (h.met hy))
          fun heq => heq ▸ hvisited.met
        outcome := ⟨more ++ above, ?_, fun y hy hcase => ?_⟩ }
    · rw [append_assoc, ← hstack]
      exact hmore
    rw [lowOf_lower_self, hlowNode]
    have hindex : s'.indexOf y = s.indexOf y := h.later.indexOf_eq (hstart.met_of_mem_stack hy)
    rcases hcase with hy' | ⟨x, hx, hxy⟩
    · rcases hcases hy' with hy' | rfl
      · exact (min_le_left _ _).trans (hlow y hy (.inl hy'))
      · exact absurd (h.later.met (hstart.met_of_mem_stack hy)) hmet
    · rcases mem_append.mp hx with hx | hx
      · exact (min_le_right _ _).trans ((hlow' x hx y (hkept hy) hxy).trans hindex.le)
      · exact (min_le_left _ _).trans (hlow y hy (.inr ⟨x, hx, hxy⟩))

theorem Following.foldl_follow {visit : Search → String → Search} {targets : List String}
    (h : Following nodes successors path s node done s') (hstart : Valid nodes successors path s)
    (hsteps : ∀ target ∈ targets, Step successors node target)
    (hvisit : ∀ {t done target}, Following nodes successors path s node done t →
      Step successors node target → ¬ t.Met target →
      Visited nodes successors (node :: path) t target (visit t target)) :
    Following nodes successors path s node (done ++ targets)
      (targets.foldl (Search.follow visit node) s') := by
  induction targets generalizing done s' with
  | nil => rwa [append_nil]
  | cons target rest ih =>
    obtain ⟨hstep, hrest⟩ := forall_mem_cons.mp hsteps
    rw [append_cons]
    exact ih (h.follow hstart hstep (hvisit h hstep)) hrest

end

/-! ### Leaving a node -/

theorem popTo_append {above below : List String} (h : node ∉ above) :
    popTo node (above ++ node :: below) = (above ++ [node], below) := by
  induction above with
  | nil => simp [popTo]
  | cons top rest ih =>
    obtain ⟨hne, hrest⟩ := not_or.mp (mt mem_cons.mpr h)
    simp [popTo, Ne.symm hne, ih hrest]

section
variable {above : List String}

theorem Entered.nodup_stack (h : Entered nodes successors path s node s')
    (hstack : s'.stack = above ++ node :: s.stack) : (above ++ [node] ++ s.stack).Nodup := by
  rw [← append_cons, ← hstack]
  exact (nodup_append.mp h.valid.nodup).1

/-- Once its successors are followed, the node need not be on the path. -/
theorem Following.followed_off_path {y : String}
    (h : Following nodes successors path s node (successors node) s') (hx : s'.Met x)
    (hoff : x ∉ path) (hstep : Step successors x y) : s'.Met y := by
  by_cases hnode : x = node
  · exact h.met (hnode ▸ hstep)
  · exact h.valid.followed hx (fun hmem => (mem_cons.mp hmem).elim hnode hoff) hstep

/-- The nodes above the node and the node itself, if none of them has a step to a smaller number on
the stack, are the strongly connected component of each of them. -/
theorem Following.strong (h : Following nodes successors path s node (successors node) s')
    (hstart : Valid nodes successors path s) (hstack : s'.stack = above ++ node :: s.stack)
    (hlow : ∀ y ∈ s.stack, (y ∈ successors node ∨ ∃ x ∈ above, Step successors x y) →
      s.counter ≤ s.indexOf y) {a : String} (ha : a ∈ above ++ [node]) (b : String) :
    b ∈ above ++ [node] ↔ Reach successors a b ∧ Reach successors b a := by
  have hordered := h.valid.ordered
  rw [hstack, pairwise_append] at hordered
  obtain ⟨-, hbelow, habove⟩ := hordered
  have hon : ∀ {x}, x ∈ above ++ [node] → x ∈ s'.stack := fun hx => by
    rw [hstack, append_cons]
    exact mem_append_left _ hx
  have hdown : ∀ {x}, x ∈ above ++ [node] → Reach successors node x := fun {x} hx => by
    rcases mem_append.mp hx with hx | hx
    · exact (habove x hx node mem_cons_self).2
    · rw [mem_singleton.mp hx]
  have hback : ∀ {x}, x ∈ above ++ [node] → Reach successors x node := fun {x} hx => by
    obtain ⟨p, hp, -, hreach⟩ := h.valid.leads_back (hon hx)
    rcases mem_cons.mp hp with rfl | hp
    · exact hreach
    · exact hreach.trans ((pairwise_cons.mp hbelow).1 p (hstart.of_path hp)).2
  -- A step to a node that leads back does not leave the component: the end of the step has been
  -- met, is in no other component, and is not below the node on the stack.
  have hclosed : ∀ {x y}, x ∈ above ++ [node] → Step successors x y → Reach successors y node →
      y ∈ above ++ [node] := fun {x y} hx hxy hynode => by
    have hcase : y ∈ successors node ∨ ∃ x ∈ above, Step successors x y := by
      rcases mem_append.mp hx with hx | hx
      · exact .inr ⟨x, hx, hxy⟩
      · exact .inl (mem_singleton.mp hx ▸ hxy)
    have hoff : x ∉ path := fun hpath =>
      disjoint_of_nodup_append (h.nodup_stack hstack) hx (hstart.of_path hpath)
    have hmet : s'.Met y := h.followed_off_path (h.valid.met_of_mem_stack (hon hx)) hoff hxy
    rcases mem_append.mp ((h.valid.met_iff y).mp hmet) with hy | hy
    · rw [hstack, append_cons] at hy
      refine (mem_append.mp hy).resolve_right fun hy => ?_
      exact (hlow y hy hcase).not_gt (hstart.lt_counter (hstart.met_of_mem_stack hy))
    · obtain ⟨c, hc, hy⟩ := mem_flatten.mp hy
      have hnode : node ∈ c := (h.valid.strong hc hy node).mpr ⟨hynode, (hdown hx).tail hxy⟩
      have hdisjoint := disjoint_of_nodup_append h.valid.nodup
      exact (hdisjoint (hon (by simp)) (mem_flatten.mpr ⟨c, hc, hnode⟩)).elim
  constructor
  · exact fun hb => ⟨(hback ha).trans (hdown hb), (hback hb).trans (hdown ha)⟩
  · rintro ⟨hab, hba⟩
    have hbnode := hba.trans (hback ha)
    clear hba
    induction hab with
    | refl => exact ha
    | tail _ hxy ih => exact hclosed (ih (.head hxy hbnode)) hxy hbnode

/-- The node is the first of its component, which comes off the stack. -/
theorem Following.valid_pop (h : Following nodes successors path s node (successors node) s')
    (hstart : Valid nodes successors path s) (hstack : s'.stack = above ++ node :: s.stack)
    (hlow : ∀ y ∈ s.stack, (y ∈ successors node ∨ ∃ x ∈ above, Step successors x y) →
      s.counter ≤ s.indexOf y) :
    Valid nodes successors path
      { s' with
        onStack := s'.onStack.filter fun member => !(above ++ [node]).contains member
        stack := s.stack
        components := s'.components ++ [above ++ [node]] } := by
  have hperm : (s.stack ++ (s'.components ++ [above ++ [node]]).flatten).Perm
      (s'.stack ++ s'.components.flatten) := by
    have hflatten : (s'.components ++ [above ++ [node]]).flatten =
        s'.components.flatten ++ (above ++ [node]) := by simp
    rw [hstack, hflatten, ← append_assoc, append_cons above node s.stack,
      append_assoc (above ++ [node])]
    exact perm_append_comm
  have hapart : ∀ {x}, x ∈ s.stack → x ∉ above ++ [node] := fun hx hmem =>
    disjoint_of_nodup_append (h.nodup_stack hstack) hmem hx
  have hindex : ∀ {x}, x ∈ s.stack → s'.indexOf x = s.indexOf x := fun hx =>
    h.later.indexOf_eq (hstart.met_of_mem_stack hx)
  refine
    { onStack_iff := fun x => ?_
      met_iff := fun x => (h.valid.met_iff x).trans hperm.mem_iff.symm
      nodup := hperm.nodup_iff.mpr h.valid.nodup
      counter_eq := h.valid.counter_eq.trans hperm.length_eq.symm
      is_node := h.valid.is_node
      lt_counter := h.valid.lt_counter
      ordered := hstart.ordered.imp_of_mem fun {upper lower} hupper hlower hlt => ?_
      of_path := hstart.of_path
      leads_back := fun hx => ?_
      followed := h.followed_off_path
      strong := fun {c a} hc ha b => ?_ }
  · rw [mem_filter, h.valid.onStack_iff, hstack, append_cons, mem_append]
    constructor
    · rintro ⟨hx, hout⟩
      exact hx.resolve_left (by simpa using hout)
    · exact fun hx => ⟨.inr hx, by simpa using hapart hx⟩
  · exact ⟨(hindex hlower).trans_lt (hlt.1.trans_eq (hindex hupper).symm), hlt.2⟩
  · obtain ⟨p, hp, hle, hreach⟩ := hstart.leads_back hx
    have hp' := hindex (hstart.of_path hp)
    exact ⟨p, hp, hp'.trans_le (hle.trans_eq (hindex hx).symm), hreach⟩
  · rcases mem_append.mp hc with hc | hc
    · exact h.valid.strong hc ha b
    · obtain rfl := mem_singleton.mp hc
      exact h.strong hstart hstack hlow ha b

/-- The node leads to a smaller number, so it stays on the stack. -/
theorem Following.valid_stay (h : Following nodes successors path s node (successors node) s')
    (hlow : s'.lowOf node < s.counter) : Valid nodes successors path s' where
  __ := h.valid
  of_path hx := h.valid.of_path (mem_cons_of_mem _ hx)
  followed := h.followed_off_path
  leads_back {x} hx := by
    obtain ⟨p, hp, hle, hreach⟩ := h.valid.leads_back hx
    rcases mem_cons.mp hp with rfl | hp
    · obtain ⟨z, hz, hindex, hreach'⟩ := h.low_reached
      obtain ⟨q, hq, hle', hreach''⟩ := h.valid.leads_back hz
      have hlt : s'.indexOf q < s'.indexOf p := by
        rw [h.indexOf_node]
        exact (hle'.trans_eq hindex).trans_lt hlow
      refine ⟨q, (mem_cons.mp hq).resolve_left ?_, hlt.le.trans hle,
        hreach.trans (hreach'.trans hreach'')⟩
      rintro rfl
      exact lt_irrefl _ hlt
    · exact ⟨p, hp, hle, hreach⟩

theorem Following.visited_leave (h : Following nodes successors path s node (successors node) s')
    (hstart : Valid nodes successors path s) :
    Visited nodes successors path s node (s'.leave node) := by
  obtain ⟨above, hstack, hlow⟩ := h.outcome
  have hnot : node ∉ above := fun hmem => disjoint_of_nodup_append
    (h.nodup_stack hstack).of_append_left hmem (mem_singleton_self _)
  unfold leave
  rw [h.indexOf_node]
  by_cases hfirst : s'.lowOf node = s.counter
  · rw [if_pos hfirst, hstack, popTo_append hnot]
    exact
      { valid := h.valid_pop hstart hstack fun y hy hcase => hfirst ▸ hlow y hy hcase
        later := { h.later with }
        met := h.met_node
        outcome := ⟨[], rfl, by simp, .inl hfirst.ge⟩ }
  · rw [if_neg hfirst]
    refine
      { valid := h.valid_stay (lt_of_le_of_ne h.low_le hfirst)
        later := h.later
        met := h.met_node
        outcome := ⟨above ++ [node], ?_, fun x hx y hy hxy => hlow y hy ?_, .inr h.low_reached⟩ }
    · rw [hstack, append_cons]
    · rcases mem_append.mp hx with hx | hx
      · exact .inr ⟨x, hx, hxy⟩
      · exact .inl (mem_singleton.mp hx ▸ hxy)

end

/-! ### Searching -/

theorem Valid.counter_lt (h : Valid nodes successors path s) (hfresh : ¬ s.Met node)
    (hnode : node ∈ nodes) : s.counter < nodes.length := by
  have hsub : node :: (s.stack ++ s.components.flatten) ⊆ nodes := by
    refine cons_subset.mpr ⟨hnode, fun x hx => h.is_node ((h.met_iff x).mpr hx)⟩
  have hsubperm := subperm_of_subset (nodup_cons.mpr ⟨h.notMem hfresh, h.nodup⟩) hsub
  rw [h.counter_eq]
  exact hsubperm.length_le

/-- **A search from a new node**, deep enough for all nodes that have not been met. -/
theorem visited_visit (hnodes : ∀ a b, Step successors a b → b ∈ nodes) {depth : Nat}
    (hdepth : nodes.length ≤ s.counter + depth) (h : Valid nodes successors path s)
    (hfresh : ¬ s.Met node) (hnode : node ∈ nodes) (hpath : ∀ p ∈ path, Reach successors p node) :
    Visited nodes successors path s node (visit successors depth s node) := by
  induction depth generalizing path s node with
  | zero => exact absurd (h.counter_lt hfresh hnode) (by omega)
  | succ depth ih =>
    have hentered := following_enter h hfresh hnode hpath
    refine (hentered.foldl_follow h (fun _ => id) fun {t done target} ht hstep hnew => ?_)
      |>.visited_leave h
    refine ih (by have := ht.counter_lt; omega) ht.valid hnew (hnodes node target hstep) ?_
    refine forall_mem_cons.mpr ⟨.single hstep, fun p hp => (hpath p hp).tail hstep⟩

end Search

variable {nodes : List String} {successors : String → List String}

open Search in
/-- **The search from all nodes in turn** ends on no path, and meets every node. -/
theorem valid_foldl_visitNew (hnodes : ∀ a b, Step successors a b → b ∈ nodes) {rest : List String}
    (hrest : rest ⊆ nodes) {s : Search} (h : Valid nodes successors [] s) :
    let final := rest.foldl (visitNew successors nodes.length) s
    Valid nodes successors [] final ∧ (∀ x ∈ rest, final.Met x) ∧ ∀ x, s.Met x → final.Met x := by
  induction rest generalizing s with
  | nil => exact ⟨h, by simp, fun _ => id⟩
  | cons node rest ih =>
    obtain ⟨hnode, hrest⟩ := cons_subset.mp hrest
    have hnext : Valid nodes successors [] (visitNew successors nodes.length s node) ∧
        (visitNew successors nodes.length s node).Met node ∧
        ∀ x, s.Met x → (visitNew successors nodes.length s node).Met x := by
      unfold visitNew
      split
      · next hmet => exact ⟨h, hmet, fun _ => id⟩
      · next hmet =>
        have hvisited := visited_visit hnodes (Nat.le_add_left _ _) h hmet hnode (by simp)
        exact ⟨hvisited.valid, hvisited.met, fun _ => hvisited.later.met⟩
    obtain ⟨hvalid, hmet, hlater⟩ := hnext
    obtain ⟨hfinal, hall, hkept⟩ := ih hrest hvalid
    exact ⟨hfinal, forall_mem_cons.mpr ⟨hkept node hmet, hall⟩,
      fun x hx => hkept x (hlater x hx)⟩

/-- **The components** hold every node once, and a component is what any of its members leads to and
back from. -/
theorem components_strong (hnodes : ∀ a b, Step successors a b → b ∈ nodes) :
    (components nodes successors).flatten.Nodup ∧
    (∀ x, x ∈ (components nodes successors).flatten ↔ x ∈ nodes) ∧
    ∀ c ∈ components nodes successors, ∀ a ∈ c, ∀ b,
      b ∈ c ↔ Reach successors a b ∧ Reach successors b a := by
  have hempty : Search.Valid nodes successors [] {} := by
    constructor <;> simp [Search.Met, Table.contains, Table.get?]
  obtain ⟨h, hmet, -⟩ := valid_foldl_visitNew hnodes (List.Subset.refl nodes) hempty
  unfold components
  generalize nodes.foldl _ ({} : Search) = final at h hmet
  -- With nothing left on the path, nothing can be left on the stack.
  have hstack : final.stack = [] := eq_nil_iff_forall_not_mem.mpr fun x hx => by
    obtain ⟨p, hp, -⟩ := h.leads_back hx
    simp at hp
  have hmem : ∀ x, final.Met x ↔ x ∈ final.components.flatten := fun x => by
    rw [h.met_iff, hstack, nil_append]
  have hnodup := h.nodup
  rw [hstack, nil_append] at hnodup
  refine ⟨hnodup, fun x => ⟨fun hx => h.is_node ((hmem x).mpr hx), fun hx => ?_⟩,
    fun c hc a ha => h.strong hc ha⟩
  exact (hmem x).mp (hmet x hx)

theorem lt_of_transGen {α : Type} {r : α → α → Prop} {height : α → Nat}
    (hdown : ∀ a b, r a b → height b < height a) {a b : α} (h : TransGen r a b) :
    height b < height a := by
  induction h with
  | single hab => exact hdown _ _ hab
  | tail _ hbc ih => exact (hdown _ _ hbc).trans ih

open Classical in
/-- In a graph without cycles whose steps all lead to one of finitely many nodes, the number of
nodes that can be reached from a node is a height that falls with every step. -/
theorem exists_height_of_acyclic {α : Type} {r : α → α → Prop} {targets : List α}
    (htargets : ∀ a b, r a b → b ∈ targets) (hacyclic : ∀ a, ¬ TransGen r a a) :
    ∃ height : α → Nat, (∀ a b, r a b → height b < height a) ∧
      ∀ a, height a ≤ targets.length := by
  let behind (a : α) := targets.toFinset.filter (TransGen r a)
  refine ⟨fun a => (behind a).card, fun a b hab => Finset.card_lt_card ?_, fun a => ?_⟩
  · refine Finset.ssubset_iff_subset_ne.mpr ⟨fun c hc => ?_, fun heq => ?_⟩
    · obtain ⟨hmem, hbc⟩ := Finset.mem_filter.mp hc
      exact Finset.mem_filter.mpr ⟨hmem, TransGen.head hab hbc⟩
    · have hself : b ∈ behind b := heq ▸ Finset.mem_filter.mpr
        ⟨mem_toFinset.mpr (htargets a b hab), TransGen.single hab⟩
      exact hacyclic b (Finset.mem_filter.mp hself).2
  · exact (Finset.card_filter_le _ _).trans (toFinset_card_le _)

end StubCatalog.Graph
