import StubCatalog.Proofs.Build.Declarations
import StubCatalog.Proofs.Build.Following
import StubCatalog.Proofs.Build.Linking
import StubCatalog.Proofs.Signature.Instantiation

/-! # The types of a built catalog

The classes that are collected are made of types that are read (`IsReadClass`), and stay so while
they are linked, take in the members of traits and have their constants settled. -/

namespace StubCatalog.Build

open List

open TypeExpr (ReadForm RegularForm)

variable {d : Terms} {settings : Settings} {entry : ClassEntry} {classes : Classes}
  {state : Constants} {catalog : Catalog}

/-- The classes are made of types that are read, and each is found under its own key. -/
def IsReadClasses (d : Terms) (classes : Classes) : Prop :=
  classes.Holds fun key entry => IsReadClass d entry ∧ entry.key = key

theorem IsReadClass.congr {entry' : ClassEntry} (h : IsReadClass d entry)
    (htemplates : entry'.templates = entry.templates)
    (harguments : entry'.ancestorArguments = entry.ancestorArguments)
    (hmethods : entry'.methods = entry.methods) (hproperties : entry'.properties = entry.properties)
    (hconstants : entry'.constants = entry.constants)
    (hbacking : entry'.backingType = entry.backingType) : IsReadClass d entry' where
  arguments := by
    rw [harguments, htemplates]
    exact h.arguments
  properties := by
    rw [hproperties]
    exact h.properties
  regular :=
    { bounds := htemplates ▸ h.regular.bounds
      arguments := harguments ▸ h.regular.arguments
      methods := hmethods ▸ h.regular.methods
      properties := hproperties ▸ h.regular.properties
      constants := hconstants ▸ h.regular.constants
      backing := hbacking ▸ h.regular.backing }

/-! ### Edges -/

theorem isReadClass_extended (h : IsReadClass d entry) :
    IsReadClass d (extended settings classes entry) := by
  unfold extended addImpliedInterface
  split
  · split
    · split
      · split
        · exact h
        · exact h.congr rfl rfl rfl rfl rfl rfl
      · exact h
    · exact h
  · exact h

theorem isRead_resolveAll (h : IsReadClasses d classes) :
    IsReadClasses d (resolveAll settings classes).1 := by
  intro key entry hentry
  rw [get?_resolveAll, Option.map_eq_some_iff] at hentry
  obtain ⟨source, hsource, rfl⟩ := hentry
  obtain ⟨hread, hkey⟩ := h key source hsource
  refine ⟨(isReadClass_extended hread).congr rfl rfl rfl rfl rfl rfl, ?_⟩
  rw [ClassEntry.key, name_resolveEdges_extended]
  exact hkey

theorem isRead_breakCycles (h : IsReadClasses d classes) :
    IsReadClasses d (breakCycles classes).1 := by
  refine breakCycles_keeps (fun table changed keep htable => ?_) h
  exact Table.Holds.modify htable fun entry ⟨hread, hkey⟩ =>
    ⟨hread.congr rfl rfl rfl rfl rfl rfl, hkey⟩

/-! ### Traits -/

theorem readForm_substitute {bindings : Table TypeExpr} {t : TypeExpr}
    (hbindings : bindings.Holds fun _ => ReadForm anyName d.ints) (ht : ReadForm anyName d.ints t) :
    ReadForm anyName d.ints (TypeExpr.substitute bindings t) :=
  TypeExpr.formed_substitute (canonicalClass_readForm anyName d.ints)
    (fun h heq htemplate => h.of_frame heq htemplate) hbindings ht

theorem mem_take_of_mem_zip {α β : Type} {xs : List α} {ys : List β} {pair : α × β}
    (h : pair ∈ xs.zip ys) : pair.2 ∈ ys.take xs.length := by
  induction xs generalizing ys with
  | nil => simp at h
  | cons x xs ih =>
    cases ys with
    | nil => simp at h
    | cons y ys =>
      rcases mem_cons.mp h with rfl | h
      · simp
      · exact mem_cons_of_mem _ (ih h)

theorem holds_bindTemplates {templates : List TemplateParameter} {args : List TypeExpr}
    {p : TypeExpr → Prop} (h : ∀ t ∈ args.take templates.length, p t) :
    (bindTemplates templates args).Holds fun _ => p := by
  refine Table.holds_ofList fun pair hpair => h pair.2 ?_
  simpa using mem_take_of_mem_zip hpair

theorem mem_pairs_filter {α : Type} {t : Table α} {keep : String → α → Bool} {key : String}
    {value : α} (h : (t.filter keep).get? key = some value) : t.get? key = some value :=
  Table.mem_pairs_iff.mp (mem_of_mem_filter (Table.mem_pairs_iff.mpr h))

theorem regularForm_instantiateOuter {bindings : Table TypeExpr} {s : Signature}
    (hbindings : bindings.Holds fun _ => RegularForm) (hs : ∀ t ∈ s.types, RegularForm t) :
    ∀ t ∈ (s.instantiateOuter bindings).types, RegularForm t := by
  unfold Signature.instantiateOuter
  dsimp only
  split
  · exact hs
  · intro t ht
    rcases Signature.mem_types_iff.mp ht with ht | ht
    · obtain ⟨u, hu, rfl⟩ := mem_map.mp (Signature.bodyTypes_mapTypes _ s ▸ ht)
      exact TypeExpr.regularForm_substitute
        (fun name v hv => hbindings name v (mem_pairs_filter hv))
        (hs u (Signature.mem_types_iff.mpr (.inl hu)))
    · exact hs t (Signature.mem_types_iff.mpr (.inr ht))

theorem holds_fillFrom {α : Type} {p : String → α → Prop} {own other : Table α} {f : α → α}
    (hown : own.Holds p) (hother : other.Holds p) (hf : ∀ name v, p name v → p name (f v)) :
    (fillFrom own other f).Holds p :=
  hown.insertNewAll fun pair hpair => hf _ _ (hother pair.1 pair.2 (Table.mem_pairs_iff.mp hpair))

theorem isReadClass_takeTrait {source : ClassEntry} (h : IsReadClass d entry)
    (hsource : IsReadClass d source) : IsReadClass d (takeTrait entry source) := by
  have hargs : ∀ t ∈ (entry.ancestorArguments.get? source.key).getD [],
      ReadForm anyName d.ints t := by
    cases hget : entry.ancestorArguments.get? source.key with
    | none => simp
    | some args =>
      exact fun t ht => readForm_mono_names (h.arguments _ args hget t ht) fun _ _ => trivial
  have hbindings : (bindTemplates source.templates
      ((entry.ancestorArguments.get? source.key).getD [])).Holds
        fun _ => ReadForm anyName d.ints :=
    holds_bindTemplates fun t ht => hargs t (mem_of_mem_take ht)
  have hregular := fun name t ht => (hbindings name t ht).regularForm
  refine ⟨h.arguments, h.properties.insertNewAll fun pair hpair => ?_, { h.regular with
    methods := holds_fillFrom h.regular.methods hsource.regular.methods
      fun _ method hmethod s hs => ?_
    properties := holds_fillFrom h.regular.properties hsource.regular.properties
      fun _ property hproperty t ht => ?_
    constants := holds_fillFrom h.regular.constants hsource.regular.constants fun _ _ h => h }⟩
  · exact readForm_substitute hbindings
      (hsource.properties pair.1 pair.2 (Table.mem_pairs_iff.mp hpair))
  · obtain ⟨original, horiginal, rfl⟩ := mem_map.mp hs
    exact regularForm_instantiateOuter hregular (hmethod original horiginal)
  · rcases mem_cons.mp ht with rfl | ht
    · exact TypeExpr.regularForm_substitute hregular (hproperty _ mem_cons_self)
    · exact hproperty t (mem_cons_of_mem _ ht)

theorem isRead_composeAll (h : IsReadClasses d classes) : IsReadClasses d (composeAll classes) := by
  refine composeAll_keeps (fun table changed other source htable hsource => ?_) h
  exact Table.Holds.modify htable fun entry ⟨hread, hkey⟩ =>
    ⟨isReadClass_takeTrait hread (htable other source hsource).1, hkey⟩

theorem isRead_link (h : IsReadClasses d classes) : IsReadClasses d (link settings classes).1 :=
  isRead_composeAll (isRead_breakCycles (isRead_resolveAll h))

/-! ### Constants -/

/-- The classes are made of types that are read, and so are the constants outside of classes. -/
structure IsReadState (d : Terms) (state : Constants) : Prop where
  classes : IsReadClasses d state.classes
  globals : state.globals.Holds fun _ constant => RegularForm constant.type

theorem IsReadState.get? (h : IsReadState d state) {site : ConstantSite} {constant : ConstantEntry}
    (hget : state.get? site = some constant) : RegularForm constant.type := by
  cases site with
  | global key => exact h.globals key constant hget
  | member owner name =>
    obtain ⟨entry, hentry, hconstant⟩ := Option.bind_eq_some_iff.mp hget
    exact (h.classes owner entry hentry).1.regular.constants name constant hconstant

theorem IsReadState.modify (h : IsReadState d state) (site : ConstantSite)
    {f : ConstantEntry → ConstantEntry}
    (hf : ∀ constant, RegularForm constant.type → RegularForm (f constant).type) :
    IsReadState d (state.modify site f) := by
  cases site with
  | global key => exact { h with globals := h.globals.modify hf }
  | member owner name =>
    refine { h with classes := Table.Holds.modify h.classes fun entry hentry => ⟨?_, hentry.2⟩ }
    exact { hentry.1 with
      regular := { hentry.1.regular with constants := hentry.1.regular.constants.modify hf } }

theorem regularForm_takeOver {hasDeclaredType : Bool} {target constant : ConstantEntry}
    (htarget : RegularForm target.type) (h : RegularForm constant.type) :
    RegularForm (Constants.takeOver hasDeclaredType target constant).type := by
  unfold Constants.takeOver
  split <;> split <;> assumption

theorem IsReadState.follow (h : IsReadState d state) (p : Pending) (site : ConstantSite) :
    IsReadState d (state.follow p site) := by
  unfold Constants.follow
  split
  · next htarget => exact h.modify _ fun _ => regularForm_takeOver (h.get? htarget)
  · exact h

theorem isRead_settleAll {pending : List Pending} (h : IsReadState d state) :
    IsReadState d (state.settleAll pending) :=
  Constants.settleAll_keeps (fun _ _ p site _ _ _ hstate => hstate.follow p site) (fun _ hp => hp) h

/-! ### Catalogs -/

/-- Nothing is asked of the texts, and anything may stop the build. -/
def anyTerms (settings : Settings) : Terms where
  settings := settings
  ints _ := True
  fault _ := True
  type _ := True
  value _ := True
  read _ _ := ⟨fun _ _ => ⟨trivial, trivial⟩, fun _ _ => trivial⟩
  write _ _ _ := trivial
  evaluate _ _ := trivial

/-- What is collected from files; nothing if the build stops. -/
def Draft.ofFiles (settings : Settings) (files : List Stub.File) : Draft :=
  ((foldChecked (Draft.addFile settings) {} files).run.toOption.map Prod.fst).getD {}

theorem exists_catalog {settings : Settings} {files : List Stub.File} {earlier : List Diagnostic}
    {P : Catalog → Prop} [DecidablePred P]
    (h : (Catalog.build settings files earlier).toOption.any (fun c => decide (P c))) :
    ∃ catalog, Catalog.build settings files earlier = .ok catalog ∧ P catalog := by
  cases hbuild : Catalog.build settings files earlier with
  | error e =>
    rw [hbuild] at h
    cases h
  | ok catalog =>
    rw [hbuild] at h
    exact ⟨catalog, rfl, of_decide_eq_true h⟩

section
variable {files : List Stub.File} {earlier : List Diagnostic}

theorem of_build {fault : BuildError → Prop} {P : Draft → Prop}
    (hmeets : Checked.Meets (collect settings files) fault P)
    (h : Catalog.build settings files earlier = .ok catalog) :
    P (Draft.ofFiles settings files) ∧
      ∃ found, catalog = (Draft.ofFiles settings files).finish settings found := by
  unfold Catalog.build at h
  unfold Checked.Meets at hmeets
  unfold Draft.ofFiles
  generalize (foldChecked (Draft.addFile settings) {} files).run = result at h hmeets
  cases result with
  | error e => cases h
  | ok result =>
    cases h
    exact ⟨hmeets, earlier ++ result.2, rfl⟩

theorem isRead_addFiles : Checked.Meets (collect settings files)
    (fun _ => True) (IsReadDraft (anyTerms settings)) :=
  meets_addFiles (d := anyTerms settings) fun _ _ _ => ⟨fun _ _ => trivial, fun _ _ => trivial⟩

theorem isReadState_build (h : Catalog.build settings files earlier = .ok catalog) :
    IsReadState (anyTerms settings) ⟨catalog.classes, catalog.constants⟩ := by
  obtain ⟨hdraft, found, rfl⟩ := of_build isRead_addFiles h
  exact isRead_settleAll ⟨isRead_link hdraft.classes, hdraft.constants⟩

/-- **The classes of a built catalog** are made of types that are read, whatever the files say. -/
theorem isRead_build (h : Catalog.build settings files earlier = .ok catalog) :
    IsReadClasses (anyTerms settings) catalog.classes :=
  (isReadState_build h).classes

theorem IsRegularClass.types (h : IsRegularClass entry) : ∀ t ∈ entry.types, RegularForm t := by
  intro t ht
  simp only [ClassEntry.types, mem_append, mem_flatten, mem_flatMap, mem_map,
    Option.mem_toList] at ht
  rcases ht with ((((ht | ⟨args, hargs, ht⟩) | ⟨method, hmethod, s, hs, ht⟩) |
    ⟨property, hproperty, ht⟩) | ⟨constant, hconstant, rfl⟩) | ht
  · exact h.bounds t ht
  · exact h.arguments.of_mem_values hargs t ht
  · exact h.methods.of_mem_values hmethod s hs t ht
  · exact h.properties.of_mem_values hproperty t ht
  · exact h.constants.of_mem_values hconstant
  · exact h.backing t ht

/-- **The types of a built catalog** are in canonical form and regular, whatever the files say. -/
theorem regularForm_build (h : Catalog.build settings files earlier = .ok catalog) :
    ∀ t ∈ catalog.types, RegularForm t := by
  intro t ht
  obtain ⟨hclasses, hglobals⟩ := isReadState_build h
  obtain ⟨hdraft, found, rfl⟩ := of_build isRead_addFiles h
  simp only [Catalog.types, mem_append, mem_flatMap, mem_map] at ht
  rcases ht with (⟨entry, hentry, ht⟩ | ⟨function, hfunction, s, hs, ht⟩) |
    ⟨constant, hconstant, rfl⟩
  · obtain ⟨pair, hpair, rfl⟩ := mem_map.mp hentry
    exact (hclasses pair.1 pair.2 (Table.mem_pairs_iff.mp hpair)).1.regular.types t ht
  · exact hdraft.functions.of_mem_values hfunction s hs t ht
  · exact hglobals.of_mem_values hconstant

end

end StubCatalog.Build
