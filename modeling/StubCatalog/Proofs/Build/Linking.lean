import Mathlib
import StubCatalog.Build.Finish
import StubCatalog.Proofs.Build.Cycles

/-! # Linking leaves the acyclic part

The graph of what the classes name as they come in (`Edge`) is compared with the one that linking
leaves (`Named`). -/

namespace StubCatalog.Build

open List Relation

variable {entry : ClassEntry} {name v : String} {d : Diagnostic} {tie : Tie}

/-- The ways in which a class names another one. -/
inductive Tie where
  | parent | interface | trait
  deriving DecidableEq, Repr

/-- The names that a class gives. -/
def ties (entry : ClassEntry) : Tie → List String
  | .parent => entry.parent.toList
  | .interface => entry.interfaces
  | .trait => entry.traits

/-- Each class is found under the key of its name. -/
def WellKeyed (classes : Classes) : Prop :=
  ∀ key entry, classes.get? key = some entry → entry.key = key

instance : DecidablePred WellKeyed := fun classes =>
  inferInstanceAs (Decidable (classes.Holds fun key entry => entry.key = key))

/-- The class of key `u` names the declared class of key `v`. A parent with the empty name does not
count. -/
def Named (classes : Classes) (tie : Tie) (u v : String) : Prop :=
  ∃ entry target, classes.get? u = some entry ∧ classes.get? v = some target ∧
    v ∈ (ties entry tie).map Name.symbolKey ∧ (tie = .parent → target.name ≠ "")

/-- The key of the interface that an enumeration implies. -/
def impliedKey (classes : Classes) (entry : ClassEntry) : String :=
  if entry.backingType.isSome && classes.contains "backedenum" then "backedenum" else "unitenum"

/-- The class of key `u` is an enumeration that implies the declared interface of key `v`. -/
def Implied (classes : Classes) (u v : String) : Prop :=
  ∃ entry, classes.get? u = some entry ∧ entry.kind = .enumeration ∧ v = impliedKey classes entry ∧
    v ∈ classes.keys

/-- **The inheritance graph**: a class leads to the declared classes that it names, and an
enumeration to the interface that it implies. -/
def Edge (settings : Settings) (classes : Classes) (tie : Tie) (u v : String) : Prop :=
  Named classes tie u v ∨
    settings.implicitEnumInterfaces ∧ tie = .interface ∧ Implied classes u v

/-- The second class follows from the first by an edge of some kind. -/
def Leads (settings : Settings) (classes : Classes) (u v : String) : Prop :=
  ∃ tie, Edge settings classes tie u v

variable {settings : Settings} {classes : Classes}

/-! ### Looking up names -/

/-- A class with the interface that it implies, where the settings ask for it. -/
def extended (settings : Settings) (classes : Classes) (entry : ClassEntry) : ClassEntry :=
  if settings.implicitEnumInterfaces then addImpliedInterface classes entry else entry

theorem declaration_addImpliedInterface (entry : ClassEntry) :
    (addImpliedInterface classes entry).declaration = entry.declaration := by
  unfold addImpliedInterface
  split
  · split
    · split <;> rfl
    · rfl
  · rfl

theorem resolveEdges_map {f : ClassEntry → ClassEntry}
    (hf : ∀ entry, (f entry).declaration = entry.declaration) (entry : ClassEntry) :
    resolveEdges (classes.map f) entry = resolveEdges classes entry := by
  have hname : declaredName? (classes.map f) = declaredName? classes := by
    funext name
    simp [declaredName?, Function.comp_def, ClassEntry.name, hf]
  simp only [resolveEdges, declaredNames, hname]

theorem get?_resolveAll (key : String) : (resolveAll settings classes).1.get? key =
      (classes.get? key).map fun entry =>
        resolveEdges classes (extended settings classes entry) := by
  unfold resolveAll extended
  cases settings.implicitEnumInterfaces with
  | false => simp
  | true => simp [Function.comp_def, resolveEdges_map declaration_addImpliedInterface]

theorem mem_ties_resolveEdges : name ∈ ties (resolveEdges classes entry) tie ↔
      ∃ given ∈ ties entry tie, declaredName? classes given = some name := by
  cases tie with
  | parent => cases h : entry.parent <;> simp [ties, resolveEdges, h]
  | interface => simp [ties, resolveEdges, declaredNames]
  | trait => simp [ties, resolveEdges, declaredNames]

theorem declaredName?_eq_some_iff {given : String} : declaredName? classes given = some name ↔
      ∃ target, classes.get? (Name.symbolKey given) = some target ∧ target.name = name := by
  simp [declaredName?]

/-- Each name that a class gives is the name of a declared class. -/
def Resolved (classes : Classes) : Prop :=
  ∀ key entry tie name, classes.get? key = some entry → name ∈ ties entry tie →
    ∃ target, classes.get? (Name.symbolKey name) = some target ∧ target.name = name

theorem name_resolveEdges_extended (entry : ClassEntry) :
    (resolveEdges classes (extended settings classes entry)).name = entry.name := by
  unfold extended
  split
  · exact congrArg Declaration.qualifiedName (declaration_addImpliedInterface entry)
  · rfl

theorem wellKeyed_resolveAll (hkeyed : WellKeyed classes) :
    WellKeyed (resolveAll settings classes).1 := by
  intro key entry hentry
  rw [get?_resolveAll, Option.map_eq_some_iff] at hentry
  obtain ⟨source, hsource, rfl⟩ := hentry
  rw [ClassEntry.key, name_resolveEdges_extended]
  exact hkeyed key source hsource

theorem resolved_resolveAll (hkeyed : WellKeyed classes) :
    Resolved (resolveAll settings classes).1 := by
  intro key entry tie name hentry hname
  rw [get?_resolveAll, Option.map_eq_some_iff] at hentry
  obtain ⟨source, -, rfl⟩ := hentry
  obtain ⟨given, -, hgiven⟩ := mem_ties_resolveEdges.mp hname
  obtain ⟨target, htarget, rfl⟩ := declaredName?_eq_some_iff.mp hgiven
  have hkey : Name.symbolKey target.name = Name.symbolKey given := hkeyed _ target htarget
  refine ⟨resolveEdges classes (extended settings classes target), ?_,
    name_resolveEdges_extended target⟩
  rw [get?_resolveAll, hkey, htarget]
  rfl

theorem impliedInterface?_eq (entry : ClassEntry) :
    impliedInterface? classes entry = classes.get? (impliedKey classes entry) := by
  unfold impliedInterface? impliedKey Table.contains
  cases entry.backingType.isSome <;> cases h : classes.get? "backedenum" <;> simp [h]

theorem mem_ties_extended (hkeyed : WellKeyed classes) (hv : v ∈ classes.keys) :
    v ∈ (ties (extended settings classes entry) tie).map Name.symbolKey ↔
      v ∈ (ties entry tie).map Name.symbolKey ∨
        settings.implicitEnumInterfaces ∧ tie = .interface ∧ entry.kind = .enumeration ∧
          v = impliedKey classes entry := by
  unfold extended
  cases settings.implicitEnumInterfaces with
  | false => simp
  | true =>
    simp only [if_true, true_and]
    unfold addImpliedInterface
    by_cases hkind : entry.kind = .enumeration
    · rw [if_pos hkind, impliedInterface?_eq]
      cases himplied : classes.get? (impliedKey classes entry) with
      | none =>
        have hne : v ≠ impliedKey classes entry := by
          rintro rfl
          obtain ⟨target, htarget⟩ := Table.mem_keys_iff.mp hv
          simp [himplied] at htarget
        simp [hne]
      | some implied =>
        have hkey : implied.key = impliedKey classes entry := hkeyed _ implied himplied
        by_cases hpresent : (entry.interfaces.map Name.symbolKey).contains implied.key
        · -- The implied interface is named already, so nothing is added.
          simp only [hpresent, if_true]
          refine ⟨Or.inl, ?_⟩
          rintro (h | ⟨rfl, -, rfl⟩)
          · exact h
          · exact hkey ▸ contains_iff_mem.mp hpresent
        · simp only [hpresent]
          cases tie with
          | parent => simp [ties]
          | trait => simp [ties]
          | interface =>
            have hname : Name.symbolKey implied.name = impliedKey classes entry := hkey
            simp [ties, hname, hkind]
    · simp [hkind]

theorem mem_keys_resolveEdges (hkeyed : WellKeyed classes) (hv : v ∈ classes.keys) :
    v ∈ (ties (resolveEdges classes entry) tie).map Name.symbolKey ↔
      v ∈ (ties entry tie).map Name.symbolKey := by
  simp only [mem_map, mem_ties_resolveEdges, declaredName?_eq_some_iff]
  constructor
  · rintro ⟨name, ⟨given, hgiven, target, htarget, rfl⟩, rfl⟩
    exact ⟨given, hgiven, (hkeyed _ target htarget).symm⟩
  · rintro ⟨given, hgiven, rfl⟩
    obtain ⟨target, htarget⟩ := Table.mem_keys_iff.mp hv
    exact ⟨target.name, ⟨given, hgiven, target, htarget, rfl⟩, hkeyed _ target htarget⟩

theorem named_resolveAll_iff (hkeyed : WellKeyed classes) (tie : Tie) (u v : String) :
    Named (resolveAll settings classes).1 tie u v ↔ Edge settings classes tie u v := by
  have hties : ∀ {entry target}, classes.get? v = some target →
      (v ∈ (ties (resolveEdges classes (extended settings classes entry)) tie).map Name.symbolKey ↔
        v ∈ (ties entry tie).map Name.symbolKey ∨
          settings.implicitEnumInterfaces ∧ tie = .interface ∧ entry.kind = .enumeration ∧
            v = impliedKey classes entry) := fun {entry target} htarget => by
    have hv : v ∈ classes.keys := Table.mem_keys_iff.mpr ⟨target, htarget⟩
    rw [mem_keys_resolveEdges hkeyed hv, mem_ties_extended hkeyed hv]
  unfold Named Edge
  simp only [get?_resolveAll, Option.map_eq_some_iff]
  constructor
  · rintro ⟨-, -, ⟨entry, hentry, rfl⟩, ⟨target, htarget, rfl⟩, hnamed, hempty⟩
    rw [name_resolveEdges_extended] at hempty
    rcases (hties htarget).mp hnamed with h | ⟨himplicit, htie, hkind, hkey⟩
    · exact Or.inl ⟨entry, target, hentry, htarget, h, hempty⟩
    · exact Or.inr ⟨himplicit, htie, entry, hentry, hkind, hkey,
        Table.mem_keys_iff.mpr ⟨target, htarget⟩⟩
  · rintro (⟨entry, target, hentry, htarget, hnamed, hempty⟩ |
      ⟨himplicit, htie, entry, hentry, hkind, hkey, hv⟩)
    · refine ⟨_, _, ⟨entry, hentry, rfl⟩, ⟨target, htarget, rfl⟩,
        (hties htarget).mpr (Or.inl hnamed), ?_⟩
      rwa [name_resolveEdges_extended]
    · obtain ⟨target, htarget⟩ := Table.mem_keys_iff.mp hv
      refine ⟨_, _, ⟨entry, hentry, rfl⟩, ⟨target, htarget, rfl⟩,
        (hties htarget).mpr (Or.inr ⟨himplicit, htie, hkind, hkey⟩), ?_⟩
      rintro rfl
      exact absurd htie (by decide)

/-! ### Removing cycles -/

theorem step_iff (hresolved : Resolved classes) (u v : String) :
    Steps classes u v ↔ ∃ tie, Named classes tie u v := by
  unfold Steps Graph.Step successorKeys ancestorKeys
  cases hentry : classes.get? u with
  | none => simp [Named, hentry]
  | some entry =>
    simp only [mem_map, ClassEntry.supertypes, mem_append]
    constructor
    · rintro ⟨name, hname, rfl⟩
      have hnamed : ∀ tie, name ∈ ties entry tie → (tie = .parent → name ≠ "") →
          ∃ tie, Named classes tie u (Name.symbolKey name) := fun tie hname hempty => by
        obtain ⟨target, htarget, htname⟩ := hresolved u entry tie name hentry hname
        exact ⟨tie, entry, target, hentry, htarget, mem_map.mpr ⟨name, hname, rfl⟩,
          htname ▸ hempty⟩
      rcases hname with (hname | hname) | hname
      · have hparent : entry.parent = some name ∧ name ≠ "" := by
          simpa [ClassEntry.parentName?] using hname
        exact hnamed .parent (by simp [ties, hparent.1]) fun _ => hparent.2
      · exact hnamed .interface hname (by simp)
      · exact hnamed .trait hname (by simp)
    · rintro ⟨tie, entry', target, hentry', htarget, hv, hempty⟩
      obtain rfl : entry = entry' := by simpa [hentry] using hentry'
      obtain ⟨name, hname, rfl⟩ := mem_map.mp hv
      refine ⟨name, ?_, rfl⟩
      cases tie with
      | interface => exact Or.inl (Or.inr hname)
      | trait => exact Or.inr hname
      | parent =>
        obtain ⟨target', htarget', rfl⟩ := hresolved u entry .parent name hentry hname
        obtain rfl : target = target' := by simpa [htarget] using htarget'
        have hparent : entry.parent = some target.name := by simpa [ties] using hname
        exact Or.inl (Or.inl (by simp [ClassEntry.parentName?, hparent, hempty rfl]))

theorem closed_of_resolved (hresolved : Resolved classes) : Closed classes := by
  intro u v h
  obtain ⟨tie, entry, target, -, htarget, -⟩ := (step_iff hresolved u v).mp h
  exact Table.mem_keys_iff.mpr ⟨target, htarget⟩

theorem mem_ties_dropCyclicEdges {key : String} :
    name ∈ ties (dropCyclicEdges classes key entry) tie ↔
      name ∈ ties entry tie ∧ ¬ OnCommonCycle classes key (Name.symbolKey name) := by
  cases tie <;> simp [ties, dropCyclicEdges, keepEdges]

theorem resolved_breakCycles (hresolved : Resolved classes) : Resolved (breakCycles classes).1 := by
  have hget := get?_breakCycles (closed_of_resolved hresolved)
  intro key entry tie name hentry hname
  rw [hget, Option.map_eq_some_iff] at hentry
  obtain ⟨source, hsource, rfl⟩ := hentry
  obtain ⟨target, htarget, htname⟩ :=
    hresolved key source tie name hsource (mem_ties_dropCyclicEdges.mp hname).1
  refine ⟨dropCyclicEdges classes (Name.symbolKey name) target, ?_, htname⟩
  rw [hget, htarget]
  rfl

/-- **An edge stays unless its end leads back to its start.** -/
theorem named_breakCycles_iff (hresolved : Resolved classes) (tie : Tie) (u v : String) :
    Named (breakCycles classes).1 tie u v ↔
      Named classes tie u v ∧ ¬ ReflTransGen (Steps classes) v u := by
  have hget := get?_breakCycles (closed_of_resolved hresolved)
  have hcycle : Named classes tie u v →
      (¬ OnCommonCycle classes u v ↔ ¬ ReflTransGen (Steps classes) v u) := by
    intro hnamed
    have hstep : Steps classes u v := (step_iff hresolved u v).mpr ⟨tie, hnamed⟩
    rw [not_iff_not]
    refine ⟨fun h => h.2.to_reflTransGen, fun h => ⟨.single hstep, ?_⟩⟩
    rcases reflTransGen_iff_eq_or_transGen.mp h with rfl | h
    · exact .single hstep
    · exact h
  constructor
  · rintro ⟨kept, keptTarget, hkept, hkeptTarget, hv, hempty⟩
    rw [hget, Option.map_eq_some_iff] at hkept hkeptTarget
    obtain ⟨entry, hentry, rfl⟩ := hkept
    obtain ⟨target, htarget, rfl⟩ := hkeptTarget
    obtain ⟨name, hname, rfl⟩ := mem_map.mp hv
    obtain ⟨hname, hkeep⟩ := mem_ties_dropCyclicEdges.mp hname
    have hnamed : Named classes tie u (Name.symbolKey name) :=
      ⟨entry, target, hentry, htarget, mem_map.mpr ⟨name, hname, rfl⟩, hempty⟩
    exact ⟨hnamed, (hcycle hnamed).mp hkeep⟩
  · rintro ⟨hnamed, hback⟩
    have hkeep := (hcycle hnamed).mpr hback
    obtain ⟨entry, target, hentry, htarget, hv, hempty⟩ := hnamed
    obtain ⟨name, hname, rfl⟩ := mem_map.mp hv
    refine ⟨dropCyclicEdges classes u entry, dropCyclicEdges classes (Name.symbolKey name) target,
      ?_, ?_, ?_, hempty⟩
    · rw [hget, hentry]
      rfl
    · rw [hget, htarget]
      rfl
    · exact mem_map.mpr ⟨name, mem_ties_dropCyclicEdges.mpr ⟨hname, hkeep⟩, rfl⟩

/-! ### Taking in traits -/

theorem Composition.compose_keeps {P : Classes → Prop}
    (hstep : ∀ table key other source, P table → table.get? other = some source →
      P (table.modify key (takeTrait · source))) (depth : Nat) {state : Composition} (key : String)
    (h : P state.classes) : P (compose depth state key).classes := by
  induction depth generalizing state key with
  | zero => exact h
  | succ depth ih =>
    unfold compose
    split
    · exact h
    · split
      · next entry _ =>
        refine List.foldlRecOn (motive := fun state : Composition => P state.classes) entry.traits _
          h fun state hstate name _ => ?_
        have hinner := ih (Name.symbolKey name) hstate
        unfold useTrait
        dsimp only
        split
        · next source hsource => exact hstep _ key _ source hinner hsource
        · exact hinner
      · exact h

theorem composeAll_keeps {P : Classes → Prop}
    (hstep : ∀ table key other source, P table → table.get? other = some source →
      P (table.modify key (takeTrait · source))) (h : P classes) : P (composeAll classes) :=
  List.foldlRecOn (motive := fun state : Composition => P state.classes) classes.keys _ h
    fun _ hstate key _ => Composition.compose_keeps hstep _ key hstate

/-- The two classes have the same declaration and name the same classes. -/
def SameEdges (a b : ClassEntry) : Prop := a.declaration = b.declaration ∧ ties a = ties b

theorem sameEdges_takeTrait (entry source : ClassEntry) :
    SameEdges (takeTrait entry source) entry :=
  ⟨rfl, funext fun tie => by cases tie <;> rfl⟩

theorem sameEdges_foldl_takeTrait (sources : List ClassEntry) (entry : ClassEntry) :
    SameEdges (sources.foldl takeTrait entry) entry := by
  induction sources generalizing entry with
  | nil => exact ⟨rfl, rfl⟩
  | cons source rest ih =>
    obtain ⟨hdecl, hties⟩ := ih (takeTrait entry source)
    obtain ⟨hdecl', hties'⟩ := sameEdges_takeTrait entry source
    exact ⟨hdecl.trans hdecl', hties.trans hties'⟩

theorem keys_composeAll (classes : Classes) : (composeAll classes).keys = classes.keys :=
  composeAll_keeps (P := fun table => table.keys = classes.keys)
    (fun _ _ _ _ h _ => (Table.keys_modify ..).trans h) rfl

theorem exists_composeAll (classes : Classes) :
    ∃ f : String → ClassEntry → ClassEntry, (∀ key entry, SameEdges (f key entry) entry) ∧
      ∀ key, (composeAll classes).get? key = (classes.get? key).map (f key) := by
  refine composeAll_keeps (P := fun table => ∃ f : String → ClassEntry → ClassEntry,
    (∀ key entry, SameEdges (f key entry) entry) ∧
      ∀ key, table.get? key = (classes.get? key).map (f key))
    (fun table changed _ source ⟨f, hf, hget⟩ _ => ?_)
    ⟨fun _ => id, fun _ _ => ⟨rfl, rfl⟩, fun key => by simp⟩
  refine ⟨fun key entry => if key = changed then takeTrait (f key entry) source else f key entry,
    fun key entry => ?_, fun key => ?_⟩
  · dsimp only
    split
    · exact ⟨(hf key entry).1, (sameEdges_takeTrait _ source).2.trans (hf key entry).2⟩
    · exact hf key entry
  · rw [Table.get?_modify, hget]
    by_cases h : key = changed <;> simp [h, Function.comp_def]

theorem named_composeAll_iff (tie : Tie) (u v : String) :
    Named (composeAll classes) tie u v ↔ Named classes tie u v := by
  obtain ⟨f, hf, hget⟩ := exists_composeAll classes
  have hname : ∀ key entry, (f key entry).name = entry.name := fun key entry =>
    congrArg Declaration.qualifiedName (hf key entry).1
  unfold Named
  simp only [hget, Option.map_eq_some_iff]
  constructor
  · rintro ⟨-, -, ⟨entry, hentry, rfl⟩, ⟨target, htarget, rfl⟩, hv, hempty⟩
    rw [(hf u entry).2] at hv
    rw [hname] at hempty
    exact ⟨entry, target, hentry, htarget, hv, hempty⟩
  · rintro ⟨entry, target, hentry, htarget, hv, hempty⟩
    refine ⟨_, _, ⟨entry, hentry, rfl⟩, ⟨target, htarget, rfl⟩, ?_, ?_⟩
    · rwa [(hf u entry).2]
    · rwa [hname]

theorem resolved_composeAll (hresolved : Resolved classes) : Resolved (composeAll classes) := by
  obtain ⟨f, hf, hget⟩ := exists_composeAll classes
  intro key entry tie name hentry hname
  rw [hget, Option.map_eq_some_iff] at hentry
  obtain ⟨source, hsource, rfl⟩ := hentry
  rw [(hf key source).2] at hname
  obtain ⟨target, htarget, htname⟩ := hresolved key source tie name hsource hname
  refine ⟨f (Name.symbolKey name) target, ?_,
    (congrArg Declaration.qualifiedName (hf _ target).1).trans htname⟩
  rw [hget, htarget]
  rfl

/-! ### Reports of cycles -/

/-- The symbols that are reported to lie on cycles. -/
def reportedCycles (diagnostics : List Diagnostic) : List (Option String) :=
  (diagnostics.filter fun d => d.kind = .inheritanceCycle).map (·.symbol)

theorem kind_of_mem_undeclared {relation : String} {names : List String}
    (h : d ∈ undeclared classes entry relation names) : d.kind = .unresolvedName := by
  obtain ⟨name, -, rfl⟩ := mem_map.mp h
  rfl

theorem kind_of_mem_resolveAll (h : d ∈ (resolveAll settings classes).2) :
    d.kind = .unresolvedName := by
  obtain ⟨entry, -, h⟩ := mem_flatMap.mp h
  simp only [unresolvedEdges, mem_append] at h
  rcases h with (h | h) | h <;> exact kind_of_mem_undeclared h

theorem kind_of_mem_breakCycles (hresolved : Resolved classes) (h : d ∈ (breakCycles classes).2) :
    d.kind = .inheritanceCycle := by
  rw [reports_breakCycles (closed_of_resolved hresolved)] at h
  obtain ⟨component, -, h⟩ := mem_flatMap.mp h
  unfold componentReports at h
  split at h
  · obtain ⟨entry, -, rfl⟩ := mem_map.mp h
    rfl
  · simp at h

theorem reportedCycles_link (hkeyed : WellKeyed classes) :
    reportedCycles (link settings classes).2 =
      (breakCycles (resolveAll settings classes).1).2.map (·.symbol) := by
  have hlookup :
      (resolveAll settings classes).2.filter (fun d => d.kind = .inheritanceCycle) = [] :=
    filter_eq_nil_iff.mpr fun d hd => by simp [kind_of_mem_resolveAll hd]
  have hcycles : (breakCycles (resolveAll settings classes).1).2.filter
      (fun d => d.kind = .inheritanceCycle) = (breakCycles (resolveAll settings classes).1).2 :=
    filter_eq_self.mpr fun d hd => by
      simp [kind_of_mem_breakCycles (resolved_resolveAll hkeyed) hd]
  simp only [reportedCycles, link, filter_append, hlookup, hcycles, nil_append]

theorem symbols_componentReports_perm (components : List (List String)) :
    ((components.flatMap (componentReports classes)).map (·.symbol)).Perm
      ((components.filter (isCycle classes)).flatten.filterMap fun key =>
        (classes.get? key).map fun entry => some entry.name) := by
  induction components with
  | nil => exact .refl _
  | cons component rest ih =>
    rw [flatMap_cons, map_append, componentReports, filter_cons]
    split
    · rw [List.map_map, List.map_filterMap, List.flatten_cons, List.filterMap_append]
      exact ((sorted_perm component).filterMap _).append ih
    · exact ih

theorem reported_breakCycles_perm (hresolved : Resolved classes) :
    ((breakCycles classes).2.map (·.symbol)).Perm ((cyclicKeys classes).filterMap fun key =>
      (classes.get? key).map fun entry => some entry.name) := by
  rw [reports_breakCycles (closed_of_resolved hresolved)]
  exact symbols_componentReports_perm _

theorem reported_breakCycles (hkeyed : WellKeyed classes) (hresolved : Resolved classes) :
    ((breakCycles classes).2.map (·.symbol)).Nodup ∧
    ∀ symbol, symbol ∈ (breakCycles classes).2.map (·.symbol) ↔
      ∃ key entry, classes.get? key = some entry ∧ TransGen (Steps classes) key key ∧
        symbol = some entry.name := by
  have hperm := reported_breakCycles_perm hresolved
  constructor
  · refine hperm.nodup_iff.mpr (List.Nodup.filterMap (fun a b symbol ha hb => ?_)
      (nodup_cyclicKeys (closed_of_resolved hresolved)))
    obtain ⟨entry, hentry, rfl⟩ := Option.map_eq_some_iff.mp ha
    obtain ⟨other, hother, hname⟩ := Option.map_eq_some_iff.mp hb
    have hkey : other.key = entry.key := congrArg Name.symbolKey (Option.some.inj hname)
    rw [← hkeyed a entry hentry, ← hkeyed b other hother, hkey]
  · intro symbol
    simp only [hperm.mem_iff, mem_filterMap, Option.map_eq_some_iff,
      mem_cyclicKeys_iff (closed_of_resolved hresolved)]
    constructor
    · rintro ⟨key, hcycle, entry, hentry, rfl⟩
      exact ⟨key, entry, hentry, hcycle, rfl⟩
    · rintro ⟨key, entry, hentry, hcycle, rfl⟩
      exact ⟨key, hcycle, entry, hentry, rfl⟩

/-! ### Linking -/

theorem acyclic_of_no_return {α : Type} {r s : α → α → Prop}
    (hs : ∀ a b, s a b → r a b ∧ ¬ ReflTransGen r b a) (a : α) : ¬ TransGen s a a := by
  intro h
  obtain ⟨b, hab, hba⟩ := TransGen.head'_iff.mp h
  exact (hs a b hab).2 (ReflTransGen.mono (fun x y hxy => (hs x y hxy).1) b a hba)

theorem classes_link :
    (link settings classes).1 = composeAll (breakCycles (resolveAll settings classes).1).1 := rfl

theorem keys_link : (link settings classes).1.keys = classes.keys := by
  have hkeys : (resolveAll settings classes).1.keys = classes.keys := by
    unfold resolveAll
    cases settings.implicitEnumInterfaces <;> simp
  rw [classes_link, keys_composeAll, ← hkeys]
  exact breakCycles_keeps (P := fun table => table.keys = (resolveAll settings classes).1.keys)
    (fun _ _ _ h => (Table.keys_modify ..).trans h) rfl

theorem steps_resolveAll_iff (hkeyed : WellKeyed classes) (u v : String) :
    Steps (resolveAll settings classes).1 u v ↔ Leads settings classes u v := by
  rw [step_iff (resolved_resolveAll hkeyed)]
  exact exists_congr fun tie => named_resolveAll_iff hkeyed tie u v

/-- **Linking leaves the acyclic part of the inheritance graph.** An edge stays exactly when its end
does not lead back to its start; what stays has no cycle, and each name that is left belongs to a
declared class. The classes on cycles are reported once each, and no others. -/
theorem link_leaves_acyclic_part (settings : Settings) {classes : Classes}
    (hkeyed : WellKeyed classes) :
    (link settings classes).1.keys = classes.keys ∧
    (∀ tie u v, Named (link settings classes).1 tie u v ↔
      Edge settings classes tie u v ∧ ¬ ReflTransGen (Leads settings classes) v u) ∧
    (∀ u, ¬ TransGen (fun a b => ∃ tie, Named (link settings classes).1 tie a b) u u) ∧
    (∀ u entry tie name, (link settings classes).1.get? u = some entry → name ∈ ties entry tie →
      ∃ target, (link settings classes).1.get? (Name.symbolKey name) = some target ∧
        target.name = name) ∧
    (reportedCycles (link settings classes).2).Nodup ∧
    (∀ symbol, symbol ∈ reportedCycles (link settings classes).2 ↔
      ∃ u entry, classes.get? u = some entry ∧ TransGen (Leads settings classes) u u ∧
        symbol = some entry.name) := by
  have hresolved : Resolved (resolveAll settings classes).1 := resolved_resolveAll hkeyed
  have hsteps : Steps (resolveAll settings classes).1 = Leads settings classes :=
    funext fun u => funext fun v => propext (steps_resolveAll_iff hkeyed u v)
  have hedges : ∀ tie u v, Named (link settings classes).1 tie u v ↔
      Edge settings classes tie u v ∧ ¬ ReflTransGen (Leads settings classes) v u := by
    intro tie u v
    rw [classes_link, named_composeAll_iff, named_breakCycles_iff hresolved,
      named_resolveAll_iff hkeyed, hsteps]
  obtain ⟨hnodup, hreported⟩ := reported_breakCycles (wellKeyed_resolveAll hkeyed) hresolved
  refine ⟨keys_link, hedges, ?_, resolved_composeAll (resolved_breakCycles hresolved), ?_, ?_⟩
  · exact acyclic_of_no_return (r := Leads settings classes) fun u v ⟨tie, hnamed⟩ =>
      ⟨⟨tie, ((hedges tie u v).mp hnamed).1⟩, ((hedges tie u v).mp hnamed).2⟩
  · rwa [reportedCycles_link hkeyed]
  · intro symbol
    rw [reportedCycles_link hkeyed, hreported, hsteps]
    simp only [get?_resolveAll, Option.map_eq_some_iff]
    constructor
    · rintro ⟨u, -, ⟨entry, hentry, rfl⟩, hcycle, rfl⟩
      exact ⟨u, entry, hentry, hcycle, by rw [name_resolveEdges_extended]⟩
    · rintro ⟨u, entry, hentry, hcycle, rfl⟩
      exact ⟨u, _, ⟨entry, hentry, rfl⟩, hcycle, by rw [name_resolveEdges_extended]⟩

/-- A class of the given name that extends the given parent. -/
def heir (name parent : String) : ClassEntry where
  declaration := { name, qualifiedName := name, kind := .plainClass }
  kind := .plainClass
  parent := some parent

/-- Two classes that extend each other, and a third that extends one of them. -/
def lasso : Classes where
  pairs := [("a", heir "A" "B"), ("b", heir "B" "A"), ("c", heir "C" "A")]
  nodup := by decide

theorem link_leaves_acyclic_part_lasso : WellKeyed lasso ∧ Named (link {} lasso).1 .parent "c" "a" ∧
      ¬ Named (link {} lasso).1 .parent "a" "b" ∧ some "B" ∈ reportedCycles (link {} lasso).2 := by
  have hkeyed : WellKeyed lasso := by decide
  obtain ⟨-, hedges, -, -, -, hreported⟩ := link_leaves_acyclic_part {} hkeyed
  have hab : Edge {} lasso .parent "a" "b" :=
    Or.inl ⟨heir "A" "B", heir "B" "A", rfl, rfl, by decide, by decide⟩
  have hba : Edge {} lasso .parent "b" "a" :=
    Or.inl ⟨heir "B" "A", heir "A" "B", rfl, rfl, by decide, by decide⟩
  have hca : Edge {} lasso .parent "c" "a" :=
    Or.inl ⟨heir "C" "A", heir "A" "B", rfl, rfl, by decide, by decide⟩
  have hnone : ∀ u, ¬ Leads {} lasso u "c" := by
    rintro u ⟨tie, ⟨entry, -, hentry, -, hc, -⟩ | ⟨-, -, entry, -, -, hc, -⟩⟩
    · have hall : ∀ pair ∈ lasso.pairs, ∀ tie ∈ [Tie.parent, .interface, .trait],
          "c" ∉ (ties pair.2 tie).map Name.symbolKey := by decide
      exact hall _ (Table.mem_pairs_iff.mpr hentry) tie (by cases tie <;> decide) hc
    · unfold impliedKey at hc
      split at hc <;> exact absurd hc (by decide)
  refine ⟨hkeyed, (hedges _ _ _).mpr ⟨hca, fun h => ?_⟩, fun h => ?_, ?_⟩
  · rcases ReflTransGen.cases_tail h with h | ⟨u, -, h⟩
    · exact absurd h (by decide)
    · exact hnone u h
  · exact ((hedges _ _ _).mp h).2 (.single ⟨.parent, hba⟩)
  · exact (hreported _).mpr ⟨"b", heir "B" "A", rfl,
      .head ⟨.parent, hba⟩ (.single ⟨.parent, hab⟩), rfl⟩

/-- A class and one with the empty name that extend each other. -/
def namelessCycle : Classes where
  pairs := [("a", heir "A" ""), ("", heir "" "A")]
  nodup := by decide

theorem breakCycles_nameless : breakCycles (resolveAll {} namelessCycle).1 =
      ((resolveAll {} namelessCycle).1, []) := by
  have hcomponents : componentsOf (resolveAll {} namelessCycle).1 = [["a"], [""]] := by cbv
  have hsingle : isCycle (resolveAll {} namelessCycle).1 ["a"] = false ∧
      isCycle (resolveAll {} namelessCycle).1 [""] = false := ⟨by cbv, by cbv⟩
  show (componentsOf _).foldl breakComponent _ = _
  simp [hcomponents, breakComponent, hsingle]

/-- An empty name is taken for no parent when cycles are looked for, and is kept all the same: the
two classes go on extending each other, and nothing is reported. -/
theorem link_keeps_nameless_cycle : WellKeyed namelessCycle ∧
      ((link {} namelessCycle).1.get? "a").map (·.parent) = some (some "") ∧
      ((link {} namelessCycle).1.get? "").map (·.parent) = some (some "A") ∧
      (link {} namelessCycle).2 = [] := by
  simp only [link, breakCycles_nameless]
  exact ⟨by decide, by cbv, by cbv, by cbv⟩

end StubCatalog.Build
