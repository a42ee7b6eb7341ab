import StubCatalog.Proofs.Build.TraitConstants

/-! # What is kept of a declaration

Linking and following references keep what a declaration itself says: members stay under their
names, and a constant is changed only if its value is open (`ClassEntry.Completes`,
`ConstantEntry.Completes`). -/

namespace StubCatalog

/-- The constant is the declared one, with nothing but an open value and its type filled in. -/
structure ConstantEntry.Completes (entry declared : ConstantEntry) : Prop where
  declaration : entry.declaration = declared.declaration
  owner : entry.owner = declared.owner
  expression : entry.expression = declared.expression
  known : declared.isValueKnown → entry = declared

theorem ConstantEntry.Completes.refl (c : ConstantEntry) : c.Completes c :=
  ⟨rfl, rfl, rfl, fun _ => rfl⟩

/-- The class is the declared one: apart from its ancestors it has all that is declared, and its
members include the declared ones. -/
structure ClassEntry.Completes (entry declared : ClassEntry) : Prop where
  declaration : entry.declaration = declared.declaration
  kind : entry.kind = declared.kind
  templates : entry.templates = declared.templates
  ancestorArguments : entry.ancestorArguments = declared.ancestorArguments
  cases : entry.cases = declared.cases
  backingType : entry.backingType = declared.backingType
  methods : ∀ name m, declared.methods.get? name = some m → entry.methods.get? name = some m
  properties : ∀ name p,
    declared.properties.get? name = some p → entry.properties.get? name = some p
  constants : ∀ name c, declared.constants.get? name = some c →
    ∃ c', entry.constants.get? name = some c' ∧ c'.Completes c

/-- The classes differ in nothing but their ancestors. -/
def ClassEntry.SameButAncestors (a b : ClassEntry) : Prop :=
  a = { b with parent := a.parent, interfaces := a.interfaces, traits := a.traits }

theorem ClassEntry.SameButAncestors.completes {a b : ClassEntry} (h : a.SameButAncestors b) :
    a.Completes b := by
  rw [h]
  exact ⟨rfl, rfl, rfl, rfl, rfl, rfl, fun _ _ h => h, fun _ _ h => h,
    fun _ c h => ⟨c, h, .refl c⟩⟩

namespace Build

variable {settings : Settings} {classes : Classes}

/-! ### Linking -/

theorem sameButAncestors_addImpliedInterface (entry : ClassEntry) :
    (addImpliedInterface classes entry).SameButAncestors entry := by
  unfold addImpliedInterface
  split
  · split
    · split <;> rfl
    · rfl
  · rfl

theorem sameButAncestors_extended (entry : ClassEntry) :
    (extended settings classes entry).SameButAncestors entry := by
  unfold extended
  split
  · exact sameButAncestors_addImpliedInterface entry
  · rfl

theorem completes_takeTrait {entry declared : ClassEntry} (source : ClassEntry)
    (h : entry.Completes declared) : (takeTrait entry source).Completes declared := by
  refine { h with methods := fun name m hm => ?_, properties := fun name p hp => ?_,
                  constants := fun name c hc => ?_ }
  · exact (get?_fillFrom ..).trans (by rw [h.methods name m hm, Option.some_or])
  · exact (get?_fillFrom ..).trans (by rw [h.properties name p hp, Option.some_or])
  · obtain ⟨c', hc', hcompletes⟩ := h.constants name c hc
    exact ⟨c', (get?_fillFrom ..).trans (by rw [hc', Option.some_or]), hcompletes⟩

/-- The classes of a table are the declared ones. -/
def CompletesAll (declared table : Classes) : Prop :=
  ∀ key, Option.Rel ClassEntry.Completes (table.get? key) (declared.get? key)

theorem CompletesAll.modify {declared table : Classes} (h : CompletesAll declared table)
    {f : ClassEntry → ClassEntry} (hf : ∀ entry own, entry.Completes own → (f entry).Completes own)
    (key : String) : CompletesAll declared (table.modify key f) := by
  intro other
  rw [Table.get?_modify]
  split
  · exact rel_map_left (h other) fun entry own _ hentry => hf entry own hentry
  · exact h other

theorem completes_link (settings : Settings) (classes : Classes) :
    CompletesAll classes (link settings classes).1 := by
  have hresolved : CompletesAll classes (resolveAll settings classes).1 := fun key => by
    rw [get?_resolveAll]
    cases classes.get? key with
    | none => exact .none
    | some entry => exact .some { (sameButAncestors_extended entry).completes with }
  rw [classes_link]
  refine composeAll_keeps (fun table key other source h _ => ?_)
    (breakCycles_keeps (fun table key keep h => ?_) hresolved)
  · exact h.modify (fun _ _ hentry => completes_takeTrait source hentry) key
  · exact h.modify (f := keepEdges keep) (fun _ _ hentry => { hentry with }) key

/-! ### Following references -/

namespace Constants

theorem completes_takeOver {entry declared : ConstantEntry} (hasDeclaredType : Bool)
    (target : ConstantEntry) (h : entry.Completes declared)
    (hopen : declared.isValueKnown = false) :
    (takeOver hasDeclaredType target entry).Completes declared := by
  have hkept : (takeOver hasDeclaredType target entry).declaration = entry.declaration ∧
      (takeOver hasDeclaredType target entry).owner = entry.owner ∧
      (takeOver hasDeclaredType target entry).expression = entry.expression := by
    unfold takeOver
    split <;> split <;> exact ⟨rfl, rfl, rfl⟩
  obtain ⟨hdeclaration, howner, hexpression⟩ := hkept
  exact ⟨hdeclaration.trans h.declaration, howner.trans h.owner, hexpression.trans h.expression,
    fun hknown => absurd hknown (by simp [hopen])⟩

/-- Every class and constant is the declared one, as far as it was known. -/
structure Completed (declared state : Constants) : Prop where
  classes : ∀ key,
    Option.Rel ClassEntry.Completes (state.classes.get? key) (declared.classes.get? key)
  globals : ∀ key,
    Option.Rel ConstantEntry.Completes (state.globals.get? key) (declared.globals.get? key)

variable {declared state : Constants}

theorem Completed.modify (h : Completed declared state) {site : ConstantSite}
    {f : ConstantEntry → ConstantEntry}
    (hf : ∀ c d, declared.get? site = some d → c.Completes d → (f c).Completes d) :
    Completed declared (state.modify site f) := by
  cases site with
  | global key =>
    refine { h with globals := fun key' => ?_ }
    rw [Constants.modify, Table.get?_modify]
    split
    · next heq =>
      subst heq
      exact rel_map_left (h.globals key') fun c d hd => hf c d hd
    · exact h.globals key'
  | member owner name =>
    refine { h with classes := fun key' => ?_ }
    rw [Constants.modify, Table.get?_modify]
    split
    · next heq =>
      subst heq
      refine rel_map_left (h.classes key') fun entry own hown hentry => ?_
      refine { hentry with constants := fun name' d hd => ?_ }
      obtain ⟨c, hc, hcompletes⟩ := hentry.constants name' d hd
      rw [Table.get?_modify]
      split
      · next hname =>
        subst hname
        refine ⟨f c, by rw [hc, Option.map_some], hf c d ?_ hcompletes⟩
        rw [get?, hown, Option.bind_some, hd]
      · exact ⟨c, hc, hcompletes⟩
    · exact h.classes key'

theorem Completed.follow (h : Completed declared state) {p : Pending} (site : ConstantSite)
    (hopen : ∀ d, declared.get? p.site = some d → d.isValueKnown = false) :
    Completed declared (state.follow p site) := by
  unfold Constants.follow
  split
  · exact h.modify fun c d hd hc => completes_takeOver _ _ hc (hopen d hd)
  · exact h

end Constants

theorem completed_build {files : List Stub.File} {earlier : List Diagnostic} {catalog : Catalog}
    (hbuild : Catalog.build settings files earlier = .ok catalog) :
    Constants.Completed (Draft.ofFiles settings files).sites
      ⟨catalog.classes, catalog.constants⟩ := by
  obtain ⟨hopen, found, rfl⟩ := of_build isOpen_addFiles hbuild
  have hstart : Constants.Completed (Draft.ofFiles settings files).sites
      ((Draft.ofFiles settings files).linked settings) :=
    ⟨completes_link settings _, fun _ => rel_refl ConstantEntry.Completes.refl _⟩
  refine Constants.settleAll_keeps (fun _ state p site hp _ _ hstate => ?_) (fun _ hp => hp) hstart
  refine hstate.follow site fun d hd => ?_
  obtain ⟨entry, hentry, hleaves⟩ := hopen p hp
  obtain rfl := Option.some.inj (hentry.symm.trans hd)
  exact hleaves.value

end Build

end StubCatalog
