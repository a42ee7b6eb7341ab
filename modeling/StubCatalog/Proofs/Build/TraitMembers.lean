import StubCatalog.Proofs.Build.FileOrder

/-! # The members that traits give

A class has its own members and, under names that it does not declare, those of the first of its
traits that has one (`TakesIn`), however the classes are listed. -/

namespace StubCatalog.Build

open List Relation

/-- The members `all` are the members `own`, and under other names those of the first trait that has
one, `changed`. -/
structure TakesIn {α : Type} (own all : Table α) (traits : List ClassEntry)
    (members : ClassEntry → Table α) (changed : ClassEntry → α → α) : Prop where
  has_iff (name : String) : all.contains name ↔
    own.contains name ∨ ∃ trait ∈ traits, (members trait).contains name
  kept {name : String} {a : α} : own.get? name = some a → all.get? name = some a
  first {name : String} {before after : List ClassEntry} {trait : ClassEntry} {a : α} :
    own.get? name = none → traits = before ++ trait :: after →
      (∀ t ∈ before, (members t).get? name = none) → (members trait).get? name = some a →
      all.get? name = some (changed trait a)

theorem takesIn_of_get? {α : Type} {own all : Table α} {traits : List ClassEntry}
    {members : ClassEntry → Table α} {changed : ClassEntry → α → α}
    (h : ∀ name, all.get? name = (own.get? name).or
      (traits.findSome? fun t => ((members t).get? name).map (changed t))) :
    TakesIn own all traits members changed where
  has_iff name := by
    simp only [Table.contains, h name, Option.isSome_or, Bool.or_eq_true, isSome_findSome?,
      any_eq_true, Option.isSome_map]
  kept hown := by rw [h, hown, Option.some_or]
  first {name before after trait a} hown htraits hbefore htrait := by
    have hnone : (before.findSome? fun t => ((members t).get? name).map (changed t)) = none :=
      findSome?_eq_none_iff.mpr fun t ht => by rw [hbefore t ht, Option.map_none]
    rw [h, hown, Option.none_or, htraits, findSome?_append, hnone, Option.none_or,
      findSome?_cons, htrait]
    rfl

/-- The traits that a class uses, with all their traits taken in. -/
def traitsOf (classes : Classes) (entry : ClassEntry) : List ClassEntry :=
  entry.traits.filterMap fun name => (composeAll classes).get? (Name.symbolKey name)

/-- The template parameters of a trait, bound to the type arguments that the class gives for it. -/
def traitBindings (entry trait : ClassEntry) : Table TypeExpr :=
  bindTemplates trait.templates ((entry.ancestorArguments.get? trait.key).getD [])

/-- **A class takes in the members of its traits.** Its own come first, then those of its traits in
order, as they are once all traits are taken in; what is taken in belongs to the class, stays
declared where it was, and has the template parameters of the trait replaced. The order in which the
classes are listed makes no difference. -/
theorem composeAll_takes_traits {classes : Classes}
    (hacyclic : ∀ key, ¬ TransGen (Named classes .trait) key key) :
    (∀ classes' : Classes, classes'.get? = classes.get? →
      (composeAll classes').get? = (composeAll classes).get?) ∧
    ∀ key entry, classes.get? key = some entry →
      ∃ all, (composeAll classes).get? key = some all ∧
        TakesIn entry.methods all.methods (traitsOf classes entry) (·.methods) (fun trait m =>
          { m with
            owner := entry.name
            declaration :=
              { m.declaration with qualifiedName := entry.name ++ "::" ++ m.declaration.name }
            signatures := m.signatures.map (Signature.instantiateOuter (traitBindings entry trait)) }) ∧
        TakesIn entry.properties all.properties (traitsOf classes entry) (·.properties)
          (fun trait p =>
            { p with owner := entry.name, type := p.type.substitute (traitBindings entry trait) }) ∧
        TakesIn entry.constants all.constants (traitsOf classes entry) (·.constants)
          (fun _ c => { c with owner := some entry.name }) := by
  refine ⟨fun classes' h => ?_, fun key entry hentry => ?_⟩
  · exact (get?_composeAll_congr h.symm hacyclic).symm
  · refine ⟨takeTraits (composeAll classes) entry, ?_, ?_, ?_, ?_⟩
    · rw [get?_composeAll hacyclic, hentry, Option.map_some]
    · exact takesIn_of_get? (@get?_foldl_takeTrait _ ClassEntry.methods
        (fun e t => inheritMethod e.name (traitBindings e t)) (fun _ _ => rfl) (fun _ _ => rfl)
        (traitsOf classes entry) entry)
    · exact takesIn_of_get? (@get?_foldl_takeTrait _ ClassEntry.properties
        (fun e t => inheritProperty e.name (traitBindings e t)) (fun _ _ => rfl) (fun _ _ => rfl)
        (traitsOf classes entry) entry)
    · exact takesIn_of_get? (@get?_foldl_takeTrait _ ClassEntry.constants
        (fun e _ c => { c with owner := some e.name }) (fun _ _ => rfl) (fun _ _ => rfl)
        (traitsOf classes entry) entry)

/-- A trait with a property of the type of its template parameter. -/
def holderTrait : ClassEntry where
  declaration := { name := "Holder", qualifiedName := "Holder", kind := .trait }
  kind := .trait
  templates := [{ name := "T" }]
  properties := Table.ofList [("item", {
    declaration := { name := "item", qualifiedName := "Holder::item", kind := .property }
    owner := "Holder"
    declaredIn := "Holder"
    type := .template "T" none })]

/-- A class that uses the trait for integers. -/
def intHolder : ClassEntry where
  declaration := { name := "IntHolder", qualifiedName := "IntHolder", kind := .plainClass }
  kind := .plainClass
  traits := ["Holder"]
  ancestorArguments := Table.ofList [("holder", [.keyword "int"])]

/-- The class in front of its trait. -/
def holderClasses : Classes := Table.ofList [("intholder", intHolder), ("holder", holderTrait)]

theorem holder_acyclic (key : String) : ¬ TransGen (Named holderClasses .trait) key key := by
  have hfalls : ∀ u v, Named holderClasses .trait u v →
      ["holder", "intholder"].idxOf v < ["holder", "intholder"].idxOf u := by
    rintro u v ⟨entry, -, hentry, -, hmem, -⟩
    have hpairs : ∀ pair ∈ holderClasses.pairs, ∀ name ∈ pair.2.traits.map Name.symbolKey,
        ["holder", "intholder"].idxOf name < ["holder", "intholder"].idxOf pair.1 := by
      decide
    exact hpairs (u, entry) (Table.mem_pairs_iff.mpr hentry) v hmem
  exact fun hcircle => lt_irrefl _ (Graph.lt_of_transGen hfalls hcircle)

/-- The property comes from the trait, as one of the class that is declared in the trait and holds
integers. -/
theorem composeAll_takes_traits_holder :
    ∃ all property, (composeAll holderClasses).get? "intholder" = some all ∧
      all.properties.get? "item" = some property ∧ property.owner = "IntHolder" ∧
      property.declaredIn = "Holder" ∧ property.type = .keyword "int" := by
  obtain ⟨-, hmembers⟩ := composeAll_takes_traits holder_acyclic
  obtain ⟨all, hall, -, hproperties, -⟩ := hmembers "intholder" intHolder (by rfl)
  have htraits : traitsOf holderClasses intHolder = [] ++ holderTrait :: [] := by
    with_unfolding_all rfl
  have hitem := hproperties.first (by rfl : intHolder.properties.get? "item" = none) htraits (by simp)
    (by rfl : holderTrait.properties.get? "item" = some _)
  exact ⟨all, _, hall, hitem, by rfl, by rfl, by with_unfolding_all rfl⟩

end StubCatalog.Build
