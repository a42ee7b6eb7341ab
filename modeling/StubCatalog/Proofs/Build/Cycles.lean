import StubCatalog.Build.Inheritance
import StubCatalog.Proofs.Graph
import StubCatalog.Proofs.Table

/-! # Breaking cycles

The cycles are broken component by component. The components hold every class once, so a class loses
what it names on a common cycle with it (`get?_breakCycles`) and is reported once (`cyclicKeys`). -/

namespace StubCatalog.Build

open List Relation

variable {classes : Classes} {a b key : String} {component : List String}

/-- One step from a class to one that it names, by key. -/
abbrev Steps (classes : Classes) : String → String → Prop := Graph.Step (successorKeys classes)

/-- The classes that a class names are all declared. -/
def Closed (classes : Classes) : Prop := ∀ a b, Steps classes a b → b ∈ classes.keys

/-- The two classes lead to each other. -/
def OnCommonCycle (classes : Classes) (a b : String) : Prop :=
  TransGen (Steps classes) a b ∧ TransGen (Steps classes) b a

open Classical in
/-- A class without what it names on a common cycle with it. -/
noncomputable def dropCyclicEdges (classes : Classes) (key : String) : ClassEntry → ClassEntry :=
  keepEdges fun name => !decide (OnCommonCycle classes key (Name.symbolKey name))

theorem mem_keys_of_step (h : Steps classes a b) : a ∈ classes.keys := by
  rw [Table.mem_keys_iff]
  unfold Steps Graph.Step successorKeys at h
  split at h
  · next entry hentry => exact ⟨entry, hentry⟩
  · simp at h

theorem insertSorted_perm (text : String) (texts : List String) :
    (insertSorted text texts).Perm (text :: texts) := by
  induction texts with
  | nil => exact .refl _
  | cons first rest ih =>
    unfold insertSorted
    split
    · exact .refl _
    · exact (ih.cons first).trans (.swap text first rest)

theorem sorted_perm (texts : List String) : (sorted texts).Perm texts := by
  induction texts with
  | nil => exact .refl _
  | cons text rest ih => exact (insertSorted_perm text _).trans (ih.cons text)

/-! ### The components -/

/-- The strongly connected components of the classes. -/
def componentsOf (classes : Classes) : List (List String) :=
  Graph.components (sorted classes.keys) (successorKeys classes)

theorem componentsOf_strong (hclosed : Closed classes) :
    (componentsOf classes).flatten.Nodup ∧
    (∀ key, key ∈ (componentsOf classes).flatten ↔ key ∈ classes.keys) ∧
    ∀ c ∈ componentsOf classes, ∀ a ∈ c, ∀ b, b ∈ c ↔
      ReflTransGen (Steps classes) a b ∧ ReflTransGen (Steps classes) b a := by
  have hnodes : ∀ a b, Steps classes a b → b ∈ sorted classes.keys := fun a b hab =>
    (sorted_perm _).mem_iff.mpr (hclosed a b hab)
  obtain ⟨hnodup, hmem, hstrong⟩ := Graph.components_strong hnodes
  exact ⟨hnodup, fun key => (hmem key).trans (sorted_perm _).mem_iff, hstrong⟩

theorem isCycle_iff (hnodup : component.Nodup) (hstrong : ∀ b, b ∈ component ↔
      ReflTransGen (Steps classes) a b ∧ ReflTransGen (Steps classes) b a) :
    isCycle classes component ↔ TransGen (Steps classes) a a := by
  have ha : a ∈ component := (hstrong a).mpr ⟨.refl, .refl⟩
  unfold isCycle
  split
  · next key =>
    obtain rfl := mem_singleton.mp ha
    rw [contains_iff_mem]
    refine ⟨fun h => .single h, fun h => ?_⟩
    obtain ⟨c, hac, hca⟩ := TransGen.head'_iff.mp h
    exact mem_singleton.mp ((hstrong c).mpr ⟨.single hac, hca⟩) ▸ hac
  · next hmany =>
    refine iff_of_true rfl ?_
    obtain ⟨b, hb, hne⟩ : ∃ b ∈ component, b ≠ a := by
      by_contra! hall
      exact hmany a (perm_singleton.mp
        ((perm_ext_iff_of_nodup hnodup (nodup_singleton a)).mpr fun b =>
          ⟨fun hb => mem_singleton.mpr (hall b hb), fun hb => mem_singleton.mp hb ▸ ha⟩))
    obtain ⟨hab, hba⟩ := (hstrong b).mp hb
    have hpath := (reflTransGen_iff_eq_or_transGen.mp hab).resolve_left hne
    exact hpath.trans_left hba

/-- On a cycle, the members of the component are the classes on a common cycle with one of them. -/
theorem mem_component_iff (hcycle : TransGen (Steps classes) a a) :
    ReflTransGen (Steps classes) a b ∧ ReflTransGen (Steps classes) b a ↔
      OnCommonCycle classes a b := by
  refine ⟨fun ⟨hab, hba⟩ => ⟨hcycle.trans_left hab, hcycle.trans_right hba⟩, ?_⟩
  exact fun h => ⟨h.1.to_reflTransGen, h.2.to_reflTransGen⟩

/-! ### Breaking one component -/

variable {classes' : Classes} {state : Classes × List Diagnostic}

/-- What a class of a cycle keeps. -/
abbrev keepOutside (members : List String) : ClassEntry → ClassEntry :=
  keepEdges fun name => !members.contains (Name.symbolKey name)

theorem breakMember_eq (members names : List String) (state : Classes × List Diagnostic)
    (key : String) : breakMember members names state key =
      (state.1.modify key (keepOutside members),
        state.2 ++ (state.1.get? key).toList.map (cycleDiagnostic names)) := by
  unfold breakMember Table.modify
  cases state.1.get? key with
  | none => simp
  | some entry => rfl

theorem foldl_breakMember (members names : List String) {keys : List String} (hnodup : keys.Nodup)
    (state : Classes × List Diagnostic) :
    let final := keys.foldl (breakMember members names) state
    (∀ key, final.1.get? key =
      if key ∈ keys then (state.1.get? key).map (keepOutside members) else state.1.get? key) ∧
    final.2 = state.2 ++ (keys.filterMap state.1.get?).map (cycleDiagnostic names) := by
  induction keys generalizing state with
  | nil => simp
  | cons first rest ih =>
    obtain ⟨hfirst, hrest⟩ := nodup_cons.mp hnodup
    obtain ⟨hget, hreports⟩ := ih hrest (breakMember members names state first)
    rw [breakMember_eq] at hget hreports
    simp only [foldl_cons, breakMember_eq]
    refine ⟨fun key => ?_, ?_⟩
    · rw [hget, Table.get?_modify]
      by_cases hkey : key = first
      · rw [hkey, if_neg hfirst, if_pos rfl, if_pos mem_cons_self]
      · simp only [hkey, if_false, mem_cons, false_or]
    · have hlater : rest.filterMap (state.1.modify first (keepOutside members)).get? =
          rest.filterMap state.1.get? := by
        refine filterMap_congr fun key hkey => ?_
        rw [Table.get?_modify, if_neg fun heq : key = first => hfirst (heq ▸ hkey)]
      rw [hreports, hlater, append_assoc, filterMap_cons]
      cases state.1.get? first <;> rfl

/-- What is reported of a component. -/
def componentReports (classes : Classes) (component : List String) : List Diagnostic :=
  if isCycle classes component then
    ((sorted component).filterMap classes.get?).map
      (cycleDiagnostic (memberNames classes component))
  else []

theorem breakComponent_eq (hnodup : component.Nodup) (state : Classes × List Diagnostic) :
    (∀ key, (breakComponent state component).1.get? key =
      if key ∈ component ∧ isCycle state.1 component then
        (state.1.get? key).map (keepOutside component) else state.1.get? key) ∧
    (breakComponent state component).2 = state.2 ++ componentReports state.1 component := by
  unfold breakComponent componentReports
  by_cases hcycle : isCycle state.1 component
  · simp only [hcycle, if_true, and_true]
    have hperm := sorted_perm component
    simpa only [hperm.mem_iff] using foldl_breakMember component (memberNames state.1 component)
      (hperm.nodup_iff.mpr hnodup) state
  · simp [hcycle]

/-! ### Breaking all components -/

theorem isCycle_congr (h : ∀ key ∈ component, classes.get? key = classes'.get? key) :
    isCycle classes component = isCycle classes' component := by
  unfold isCycle
  split
  · next key => rw [successorKeys, successorKeys, h key (mem_singleton_self key)]
  · rfl

theorem componentReports_congr (h : ∀ key ∈ component, classes.get? key = classes'.get? key) :
    componentReports classes component = componentReports classes' component := by
  have hsorted : ∀ key ∈ sorted component, classes.get? key = classes'.get? key :=
    fun key hkey => h key ((sorted_perm component).mem_iff.mp hkey)
  rw [componentReports, componentReports, isCycle_congr h, memberNames, memberNames,
    filterMap_congr h, filterMap_congr hsorted]

/-- **Breaking all components**: a component is as it was when its turn comes, since the components
before it have no class in common with it. -/
theorem foldl_breakComponent {components : List (List String)}
    (hnodup : components.flatten.Nodup) (state : Classes × List Diagnostic) :
    let final := components.foldl breakComponent state
    (∀ key ∉ components.flatten, final.1.get? key = state.1.get? key) ∧
    (∀ c ∈ components, ∀ key ∈ c, final.1.get? key =
      if isCycle state.1 c then (state.1.get? key).map (keepOutside c) else state.1.get? key) ∧
    final.2 = state.2 ++ components.flatMap (componentReports state.1) := by
  induction components generalizing state with
  | nil => simp
  | cons first rest ih =>
    obtain ⟨hfirst, hrest, hdisjoint⟩ := nodup_append.mp hnodup
    obtain ⟨hget, hreports⟩ := breakComponent_eq hfirst state
    obtain ⟨hout, hin, hreports'⟩ := ih hrest (breakComponent state first)
    have hsame : ∀ key ∉ first, (breakComponent state first).1.get? key = state.1.get? key :=
      fun key hkey => by rw [hget, if_neg fun h => hkey h.1]
    have hlater : ∀ c ∈ rest, ∀ key ∈ c,
        (breakComponent state first).1.get? key = state.1.get? key := fun c hc key hkey =>
      hsame key fun hmem => hdisjoint key hmem key (mem_flatten.mpr ⟨c, hc, hkey⟩) rfl
    simp only [foldl_cons]
    refine ⟨fun key hkey => ?_, fun c hc key hkey => ?_, ?_⟩
    · obtain ⟨hkey, hkey'⟩ := not_or.mp (mt mem_append.mpr hkey)
      rw [hout key hkey', hsame key hkey]
    · rcases mem_cons.mp hc with rfl | hc
      · rw [hout key fun hmem => hdisjoint key hkey key hmem rfl, hget]
        simp only [hkey, true_and]
      · rw [hin c hc key hkey, isCycle_congr (hlater c hc), hlater c hc key hkey]
    · rw [hreports', hreports, append_assoc, flatMap_cons]
      congr 2
      exact flatMap_congr fun c hc => componentReports_congr (hlater c hc)

theorem keepEdges_true (entry : ClassEntry) : keepEdges (fun _ => true) entry = entry := by
  have hparent : entry.parent.filter (fun _ => true) = entry.parent := by cases entry.parent <;> rfl
  rw [keepEdges, hparent, filter_true, filter_true]

/-- **A class loses what it names on a common cycle with it**, and nothing else. -/
theorem get?_breakCycles (hclosed : Closed classes) (key : String) :
    (breakCycles classes).1.get? key = (classes.get? key).map (dropCyclicEdges classes key) := by
  obtain ⟨hnodup, hmem, hstrong⟩ := componentsOf_strong hclosed
  obtain ⟨hout, hin, -⟩ := foldl_breakComponent hnodup (classes, [])
  show ((componentsOf classes).foldl breakComponent (classes, [])).1.get? key = _
  cases hentry : classes.get? key with
  | none =>
    have hkey : key ∉ (componentsOf classes).flatten := fun hkey => by
      obtain ⟨entry, hsome⟩ := Table.mem_keys_iff.mp ((hmem key).mp hkey)
      simp [hentry] at hsome
    exact (hout key hkey).trans hentry
  | some entry =>
    have hkey := (hmem key).mpr (Table.mem_keys_iff.mpr ⟨entry, hentry⟩)
    obtain ⟨c, hc, hkey⟩ := mem_flatten.mp hkey
    have hcycle := isCycle_iff ((nodup_flatten.mp hnodup).1 c hc) (hstrong c hc key hkey)
    rw [hin c hc key hkey, hentry]
    by_cases h : TransGen (Steps classes) key key
    · rw [if_pos (hcycle.mpr h)]
      refine congrArg (fun keep => some (keepEdges keep entry)) (funext fun name => ?_)
      have hname := (hstrong c hc key hkey (Name.symbolKey name)).trans (mem_component_iff h)
      simp [← hname]
    · -- Nothing is on a common cycle with a class that does not lead to itself.
      rw [if_neg (mt hcycle.mp h), Option.map_some, dropCyclicEdges]
      have hnone : ∀ b, ¬ OnCommonCycle classes key b := fun b hb => h (hb.1.trans hb.2)
      simp only [hnone, decide_false, Bool.not_false, keepEdges_true]

theorem breakCycles_keeps {P : Classes → Prop}
    (hstep : ∀ table key keep, P table → P (table.modify key (keepEdges keep))) (h : P classes) :
    P (breakCycles classes).1 := by
  refine List.foldlRecOn (motive := fun state : Classes × List Diagnostic => P state.1)
    (componentsOf classes) breakComponent h fun state hstate component _ => ?_
  unfold breakComponent
  split
  · refine List.foldlRecOn (motive := fun state : Classes × List Diagnostic => P state.1)
      (sorted component) _ hstate fun state hstate key _ => ?_
    rw [breakMember_eq]
    exact hstep state.1 key _ hstate
  · exact hstate

/-! ### Reports -/

/-- The classes on cycles, in the order in which they are reported up to order within a cycle. -/
def cyclicKeys (classes : Classes) : List String :=
  ((componentsOf classes).filter (isCycle classes)).flatten

theorem nodup_cyclicKeys (hclosed : Closed classes) : (cyclicKeys classes).Nodup := by
  obtain ⟨hnodup, hdisjoint⟩ := nodup_flatten.mp (componentsOf_strong hclosed).1
  exact nodup_flatten.mpr
    ⟨fun c hc => hnodup c (mem_of_mem_filter hc), hdisjoint.filter _⟩

theorem mem_cyclicKeys_iff (hclosed : Closed classes) :
    key ∈ cyclicKeys classes ↔ TransGen (Steps classes) key key := by
  obtain ⟨hnodup, hmem, hstrong⟩ := componentsOf_strong hclosed
  have hcycle : ∀ c ∈ componentsOf classes, key ∈ c →
      (isCycle classes c ↔ TransGen (Steps classes) key key) := fun c hc hkey =>
    isCycle_iff ((nodup_flatten.mp hnodup).1 c hc) (hstrong c hc key hkey)
  simp only [cyclicKeys, mem_flatten, mem_filter]
  constructor
  · rintro ⟨c, ⟨hc, hon⟩, hkey⟩
    exact (hcycle c hc hkey).mp hon
  · intro h
    obtain ⟨b, hstep, -⟩ := TransGen.head'_iff.mp h
    obtain ⟨c, hc, hkey⟩ := mem_flatten.mp ((hmem key).mpr (mem_keys_of_step hstep))
    exact ⟨c, ⟨hc, (hcycle c hc hkey).mpr h⟩, hkey⟩

theorem reports_breakCycles (hclosed : Closed classes) : (breakCycles classes).2 =
      (componentsOf classes).flatMap (componentReports classes) :=
  (foldl_breakComponent (componentsOf_strong hclosed).1 (classes, [])).2.2

end StubCatalog.Build
