import StubCatalog.Proofs.Build.References
import StubCatalog.Proofs.Build.Traits
import StubCatalog.Query.Ancestry

/-! # Constants from traits

A class has the constants of its traits as copies that are made before references are followed. So a
copy agrees with the constant of the trait unless following a reference says something new
(`traitConstant_agrees_iff`). -/

namespace StubCatalog.Build

open List Relation

variable {settings : Settings} {classes : Classes}

theorem constants_extended (entry : ClassEntry) :
    (extended settings classes entry).constants = entry.constants := by
  unfold extended addImpliedInterface
  split
  · split
    · split
      · split <;> rfl
      · rfl
    · rfl
  · rfl

theorem get?_constants_link (hkeyed : WellKeyed classes) {key : String} {entry : ClassEntry}
    (hentry : (link settings classes).1.get? key = some entry) :
    ∃ own, classes.get? key = some own ∧ ∀ name, entry.constants.get? name =
      (own.constants.get? name).or ((entry.traits.findSome? fun trait =>
        ((link settings classes).1.get? (Name.symbolKey trait)).bind (·.constants.get? name)).map
          fun c => { c with owner := some entry.name }) := by
  have hresolved : Resolved (resolveAll settings classes).1 := resolved_resolveAll hkeyed
  have hfix := get?_composeAll (acyclic_breakCycles hresolved .trait) key
  rw [← classes_link, hentry, get?_breakCycles (closed_of_resolved hresolved), get?_resolveAll]
    at hfix
  cases hown : classes.get? key with
  | none =>
    rw [hown] at hfix
    cases hfix
  | some own =>
    rw [hown] at hfix
    obtain rfl := Option.some.inj hfix
    refine ⟨own, rfl, fun name => ?_⟩
    have hedges : SameEdges (takeTraits (link settings classes).1 _) _ :=
      sameEdges_foldl_takeTrait _ (dropCyclicEdges (resolveAll settings classes).1 key
        (resolveEdges classes (extended settings classes own)))
    rw [hedges.traits, hedges.name, get?_constants_takeTraits]
    congr 2
    exact constants_extended own

/-! ### Catalogs -/

section
variable {files : List Stub.File} {earlier : List Diagnostic} {catalog : Catalog}

theorem findSome?_eq_of_find? {α β : Type} {p : α → Bool} {f : α → Option β} {xs : List α} {x : α}
    (h : xs.find? p = some x) (hp : ∀ y ∈ xs, p y = (f y).isSome) : xs.findSome? f = f x := by
  induction xs with
  | nil => cases h
  | cons y ys ih =>
    obtain ⟨hy, hys⟩ := forall_mem_cons.mp hp
    rw [findSome?_cons]
    cases hf : f y with
    | none =>
      rw [find?_cons, hy, hf] at h
      exact ih h hys
    | some value =>
      rw [find?_cons, hy, hf] at h
      obtain rfl := Option.some.inj h
      exact hf.symm

/-- What is collected, with its classes linked. -/
def Draft.linked (settings : Settings) (draft : Draft) : Constants :=
  ⟨(link settings draft.classes).1, draft.constants⟩

section
variable {draft : Draft} {key name : String}

theorem get?_linked_of_declared (hkeyed : WellKeyed draft.classes) {constant : ConstantEntry}
    (h : draft.sites.get? (.member key name) = some constant) :
    (draft.linked settings).get? (.member key name) = some constant := by
  obtain ⟨own, hown, hconstant⟩ := Option.bind_eq_some_iff.mp h
  have hkey : key ∈ (link settings draft.classes).1.keys := by
    rw [keys_link]
    exact Table.mem_keys_iff.mpr ⟨own, hown⟩
  obtain ⟨entry, hentry⟩ := Table.mem_keys_iff.mp hkey
  obtain ⟨own', hown', hconstants⟩ := get?_constants_link hkeyed hentry
  obtain rfl := Option.some.inj (hown.symm.trans hown')
  refine Option.bind_eq_some_iff.mpr ⟨entry, hentry, ?_⟩
  rw [hconstants, hconstant, Option.some_or]

theorem get?_linked_of_trait (hkeyed : WellKeyed draft.classes) {user : ClassEntry}
    {constant : ConstantEntry} (huser : (draft.linked settings).classes.get? key = some user)
    (hown : draft.sites.get? (.member key name) = none)
    (hconstant : user.traits.findSome? (fun trait =>
      (draft.linked settings).get? (.member (Name.symbolKey trait) name)) = some constant) :
    (draft.linked settings).get? (.member key name) =
      some { constant with owner := some user.name } := by
  obtain ⟨own, hown', hconstants⟩ := get?_constants_link hkeyed huser
  have hlacks : own.constants.get? name = none := by
    rw [Constants.get?, Draft.sites, hown', Option.bind_some] at hown
    exact hown
  refine Option.bind_eq_some_iff.mpr ⟨user, huser, ?_⟩
  rw [hconstants, hlacks, Option.none_or]
  exact Option.map_eq_some_iff.mpr ⟨constant, hconstant, rfl⟩

end

theorem get?_sites_eq_none {draft : Draft} {key name : String}
    (h : ∀ own, draft.classes.get? key = some own → own.constants.get? name = none) :
    draft.sites.get? (.member key name) = none := by
  cases hget : draft.classes.get? key with
  | none => rw [Constants.get?, Draft.sites, hget, Option.bind_none]
  | some own => rw [Constants.get?, Draft.sites, hget, Option.bind_some, h own hget]

theorem wellKeyed_ofFiles (hbuild : Catalog.build settings files earlier = .ok catalog) :
    WellKeyed (Draft.ofFiles settings files).classes := by
  obtain ⟨hread, -⟩ := of_build isRead_addFiles hbuild
  exact fun key entry hentry => (hread.classes key entry hentry).2

theorem follows_build (hbuild : Catalog.build settings files earlier = .ok catalog) :
    Constants.Follows (Draft.ofFiles settings files).pending
      ((Draft.ofFiles settings files).linked settings) ⟨catalog.classes, catalog.constants⟩ := by
  obtain ⟨-, found, rfl⟩ := of_build isOpen_addFiles hbuild
  exact Constants.follows_settleAll fun _ hp => hp

theorem any_contains_eq (other name : String) :
    (catalog.class? other).any (·.constants.contains name) =
      (Constants.get? ⟨catalog.classes, catalog.constants⟩
        (.member (Name.symbolKey other) name)).isSome := by
  rw [Catalog.class?, Constants.get?]
  cases catalog.classes.get? (Name.symbolKey other) <;> rfl

/-- **Constants from traits.** A class that does not declare a constant has a copy of that of its
first trait with this constant. The two agree in value and type if and only if the trait does not
declare the constant as a reference, or following the reference says nothing new about it. -/
theorem traitConstant_agrees_iff (hbuild : Catalog.build settings files earlier = .ok catalog)
    {key name : String} {user source : ClassEntry} (huser : catalog.classes.get? key = some user)
    (hown : ∀ own, (Draft.ofFiles settings files).classes.get? key = some own →
      own.constants.get? name = none)
    (hsource : (user.traits.filterMap catalog.class?).find? (·.constants.contains name) =
      some source) :
    ∃ copy constant, user.constants.get? name = some copy ∧
      source.constants.get? name = some constant ∧
      ((copy.value = constant.value ∧ copy.isValueKnown = constant.isValueKnown ∧
          copy.type = constant.type) ↔
        ∀ p ∈ (Draft.ofFiles settings files).pending, p.site = .member source.key name →
          constant.isValueKnown = false ∧
            (p.target.hasDeclaredType = true ∨ constant.type = unknownValueType)) := by
  obtain ⟨hopen, -⟩ := of_build isOpen_addFiles hbuild
  have hkeyed := wellKeyed_ofFiles hbuild
  have hfollows := follows_build hbuild
  have hundeclared := get?_sites_eq_none hown
  generalize Draft.ofFiles settings files = draft at hopen hkeyed hfollows hundeclared ⊢
  rw [find?_filterMap] at hsource
  obtain ⟨trait, htrait, hclass⟩ := Option.bind_eq_some_iff.mp hsource
  have hkey : source.key = Name.symbolKey trait := (isRead_build hbuild _ source hclass).2
  have hcontains := find?_some htrait
  rw [any_contains_eq] at hcontains
  obtain ⟨constant, hafter⟩ := Option.isSome_iff_exists.mp hcontains
  obtain ⟨before, hbefore, hkept⟩ := exists_of_rel (hafter ▸ hfollows.kept _)
  -- The first trait with the constant is the same before and after references are followed.
  obtain ⟨linked, hlinked, hedges⟩ := exists_of_rel (huser ▸ hfollows.edges key)
  have hfirst : linked.traits.findSome? (fun trait =>
      (draft.linked settings).get? (.member (Name.symbolKey trait) name)) = some before := by
    rw [hedges.traits, findSome?_eq_of_find? htrait, hbefore]
    exact fun other _ =>
      (any_contains_eq other name).trans (isSome_eq_of_rel (hfollows.kept _)).symm
  have hcopied := get?_linked_of_trait hkeyed hlinked hundeclared hfirst
  -- Nothing is pending for the copy, so it stays as it was made.
  obtain ⟨copy, hcopy, hstays⟩ := exists_of_rel_left (hcopied ▸ hfollows.kept (.member key name))
  have hsettled : ∀ p ∈ draft.pending, p.site ≠ .member key name := by
    intro p hp hsite
    obtain ⟨entry, hentry, -⟩ := hopen p hp
    rw [hsite, hundeclared] at hentry
    cases hentry
  obtain rfl := hstays.eq_of_settled hsettled
  have hleft : ∀ p ∈ draft.pending, p.site = .member source.key name → p.target.Leaves before := by
    intro p hp hsite
    obtain ⟨entry, hentry, hleaves⟩ := hopen p hp
    rw [hsite, hkey] at hentry
    obtain rfl := Option.some.inj (hbefore.symm.trans (get?_linked_of_declared hkeyed hentry))
    exact hleaves
  rw [Constants.get?, huser] at hcopy
  rw [Constants.get?, show catalog.classes.get? _ = some source from hclass] at hafter
  exact ⟨_, constant, hcopy, hafter, (hkey ▸ hkept).agrees_iff hleft⟩

end

/-! ### A trait with a reference -/

/-- A trait with a constant that refers to another one, and a class that uses it. -/
def gauges : Stub.File where
  path := "a.php"
  classes := [
    { kind := .trait, name := "Limits", context := { file := "a.php" }
      location := { file := "a.php", line := 2 }
      constants := [
        { name := "MAX", valueText := some "self::TOP", context := { file := "a.php" }
          location := { file := "a.php", line := 3 } },
        { name := "TOP", valueText := some "10", context := { file := "a.php" }
          location := { file := "a.php", line := 4 } }] },
    { kind := .plainClass, name := "Gauge", context := { file := "a.php" }
      location := { file := "a.php", line := 6 }
      traitUses := [{ names := ["Limits"] }] }]

theorem gauges_facts :
    (∀ p ∈ (Draft.ofFiles {} [gauges]).pending, p.site = .member "limits" "MAX") ∧
    (∀ own ∈ (Draft.ofFiles {} [gauges]).classes.get? "gauge",
      own.constants.get? "TOP" = none ∧ own.constants.get? "MAX" = none) ∧
    Name.symbolKey "Gauge" = "gauge" := by
  decide

theorem catalog_gauges : ∃ catalog, Catalog.build {} [gauges] = .ok catalog ∧
    ∃ gauge ∈ catalog.class? "Gauge", gauge.traits = ["Limits"] ∧
      ∃ limits ∈ catalog.class? "Limits", (limits.constants.get? "TOP").isSome ∧
        ∃ copy ∈ gauge.constants.get? "MAX", ∃ max ∈ limits.constants.get? "MAX",
          copy.isValueKnown ≠ max.isValueKnown :=
  exists_catalog (by decide +kernel)

theorem traitConstant_agrees_iff_top : ∃ catalog, Catalog.build {} [gauges] = .ok catalog ∧
      ∃ gauge limits copy top, catalog.class? "Gauge" = some gauge ∧
        catalog.class? "Limits" = some limits ∧ gauge.constants.get? "TOP" = some copy ∧
        limits.constants.get? "TOP" = some top ∧ copy.value = top.value ∧
        copy.isValueKnown = top.isValueKnown ∧ copy.type = top.type := by
  obtain ⟨catalog, hbuild, gauge, hgauge, htraits, limits, hlimits, htop, -⟩ := catalog_gauges
  obtain ⟨hpending, hown, hkey⟩ := gauges_facts
  have hsource : (gauge.traits.filterMap catalog.class?).find? (·.constants.contains "TOP") =
      some limits := by
    simp [htraits, Option.mem_def.mp hlimits, Table.contains, htop]
  have hgauge' : catalog.classes.get? "gauge" = some gauge := by
    rw [← Option.mem_def.mp hgauge, Catalog.class?, hkey]
  obtain ⟨copy, top, hcopy, htop, hagrees⟩ := traitConstant_agrees_iff hbuild hgauge'
    (fun own h => (hown own h).1) hsource
  refine ⟨catalog, hbuild, gauge, limits, copy, top, hgauge, hlimits, hcopy, htop,
    hagrees.mpr fun p hp hsite => ?_⟩
  rw [hpending p hp] at hsite
  exact absurd (ConstantSite.member.inj hsite).2 (by decide)

/-- The copy of `MAX` does not agree with the constant of the trait. -/
theorem traitConstant_disagrees_max : ∃ catalog, Catalog.build {} [gauges] = .ok catalog ∧
      ∃ gauge limits copy max, catalog.class? "Gauge" = some gauge ∧ gauge.traits = ["Limits"] ∧
        catalog.class? "Limits" = some limits ∧ gauge.constants.get? "MAX" = some copy ∧
        limits.constants.get? "MAX" = some max ∧
        (∀ own, (Draft.ofFiles {} [gauges]).classes.get? "gauge" = some own →
          own.constants.get? "MAX" = none) ∧
        copy.isValueKnown ≠ max.isValueKnown := by
  obtain ⟨catalog, hbuild, gauge, hgauge, htraits, limits, hlimits, -, copy, hcopy, max, hmax,
    hne⟩ := catalog_gauges
  exact ⟨catalog, hbuild, gauge, limits, copy, max, hgauge, htraits, hlimits, hcopy, hmax,
    fun own h => (gauges_facts.2.1 own h).2, hne⟩

end StubCatalog.Build
