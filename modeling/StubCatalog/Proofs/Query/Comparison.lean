import StubCatalog.Proofs.Query.Ancestry
import StubCatalog.Proofs.TypeExpr.Nesting
import StubCatalog.Query.Reference

/-! # Comparing types with a catalog

A reference to class constants stands for the union of what the constants contribute. In a built
catalog these are types with all their arguments, so a comparison lacks an answer only if references
are nested too deeply. -/

namespace StubCatalog.Catalog

open List Relation
open TypeExpr (Everywhere Neutral Complete NestsWithin Refers isContainedBy canOverlap)

variable {catalog : Catalog}

theorem entry_of_mem_parentChain {depth : Nat} {met : List String} {start found : Ancestor}
    (hstart : start.entry ∈ catalog.classes.values)
    (hfound : found ∈ catalog.parentChain depth met start) :
    found.entry ∈ catalog.classes.values := by
  induction depth generalizing met start with
  | zero => cases hfound
  | succ depth ih =>
    unfold parentChain at hfound
    split at hfound
    · cases hfound
    · rcases mem_cons.mp hfound with rfl | hfound
      · exact hstart
      · split at hfound
        · next parent hparent =>
          obtain ⟨name, -, -, hclass⟩ := hasParent_of_parentOf? hparent
          exact ih (Table.mem_values hclass) hfound
        · cases hfound

theorem entry_of_mem_ancestry {name : String} {found : Ancestor}
    (hfound : found ∈ catalog.ancestry name) : found.entry ∈ catalog.classes.values := by
  unfold ancestry at hfound
  split at hfound
  · cases hfound
  · next entry hentry =>
    have hstart : (⟨entry, {}⟩ : Ancestor).entry ∈ catalog.classes.values :=
      Table.mem_values hentry
    rcases mem_append.mp hfound with hfound | hfound
    · exact entry_of_mem_parentChain hstart hfound
    · exact interfaceWalk_sound (P := (· ∈ catalog.classes.values))
        (fun _ _ _ ⟨_, _, hclass⟩ => Table.mem_values hclass) _ _ _
        (fun _ _ _ hclass => Table.mem_values hclass) found hfound

/-! ### What a reference stands for -/

section
variable {p : TypeExpr → Prop}

theorem holds_addMatches {pattern : NamePattern} {found : Table TypeExpr} {ancestor : Ancestor}
    (hfound : found.Holds fun _ => p)
    (hancestor : ∀ constant ∈ ancestor.entry.constants.values,
      p (contribution ancestor.entry.name constant)) :
    (addMatches pattern found ancestor).Holds fun _ => p := by
  have hpairs : ∀ pair ∈ ancestor.entry.constants.pairs,
      p (contribution ancestor.entry.name pair.2) :=
    fun pair hpair => hancestor pair.2 (mem_map_of_mem hpair)
  unfold addMatches
  generalize ancestor.entry.constants.pairs = pairs at hpairs
  induction pairs generalizing found with
  | nil => exact hfound
  | cons pair rest ih =>
    obtain ⟨name, constant⟩ := pair
    obtain ⟨hpair, hrest⟩ := forall_mem_cons.mp hpairs
    rw [foldl_cons]
    refine ih ?_ hrest
    dsimp only
    split
    · exact hfound.insertNew hpair
    · exact hfound

theorem everywhere_expand? (hp : Neutral p) (hnamed : ∀ name, p (.named name))
    (hliteral : ∀ value, p (.literal value))
    (hconstants : ∀ entry ∈ catalog.classes.values, ∀ constant ∈ entry.constants.values,
      Everywhere p constant.type)
    {owner member : String} {t : TypeExpr} (ht : catalog.expand? owner member = some t) :
    Everywhere p t := by
  have hcontribution : ∀ ancestor ∈ catalog.ancestry owner,
      ∀ constant ∈ ancestor.entry.constants.values,
        Everywhere p (contribution ancestor.entry.name constant) := by
    intro ancestor hancestor constant hconstant
    unfold contribution
    split
    · exact .intro (hnamed _) (by simp [TypeExpr.parts, TypeExpr.children])
    · split
      · cases constant.value with
        | null => exact TypeExpr.everywhere_keyword hp "null"
        | bool b =>
          cases b
          · exact TypeExpr.everywhere_keyword hp "false"
          · exact TypeExpr.everywhere_keyword hp "true"
        | _ =>
          exact .intro (hliteral _) (by simp [Scalar.type, TypeExpr.parts, TypeExpr.children])
      · exact hconstants _ (entry_of_mem_ancestry hancestor) constant hconstant
  have hmatches : ∀ (ancestors : List Ancestor) (found : Table TypeExpr),
      (∀ ancestor ∈ ancestors, ∀ constant ∈ ancestor.entry.constants.values,
        Everywhere p (contribution ancestor.entry.name constant)) →
      (found.Holds fun _ => Everywhere p) →
      (ancestors.foldl (addMatches (NamePattern.ofText member)) found).Holds
        fun _ => Everywhere p := by
    intro ancestors
    induction ancestors with
    | nil => exact fun _ _ hfound => hfound
    | cons ancestor rest ih =>
      intro found hall hfound
      obtain ⟨hhead, hrest⟩ := forall_mem_cons.mp hall
      exact ih _ hrest (holds_addMatches hfound hhead)
  unfold expand? at ht
  split at ht
  · cases ht
  · dsimp only at ht
    split at ht
    · cases ht
    · cases ht
      refine TypeExpr.everywhere_unionOf hp fun t ht => ?_
      exact (hmatches _ {} hcontribution Table.holds_empty).of_mem_values ht

end

/-- The references in the types of class constants. -/
def constantReferences (catalog : Catalog) : List (String × String) :=
  catalog.classes.values.flatMap fun entry =>
    entry.constants.values.flatMap fun constant => constant.type.references

theorem mem_constantReferences {r s : String × String} (h : Refers catalog.hierarchy r s) :
    s ∈ catalog.constantReferences := by
  obtain ⟨t, ht, hs⟩ := h
  have hp : Neutral fun u => ∀ r ∈ u.reference?, r ∈ catalog.constantReferences := by
    constructor
    case frame =>
      intro t u heq ht
      rwa [← TypeExpr.reference?_frame, ← heq, TypeExpr.reference?_frame]
    all_goals simp [TypeExpr.reference?]
  refine TypeExpr.everywhere_reference_iff.mp (everywhere_expand? hp (by simp [TypeExpr.reference?])
    (by simp [TypeExpr.reference?]) (fun entry hentry constant hconstant => ?_) ht) s hs
  exact TypeExpr.everywhere_reference_iff.mpr fun r hr =>
    mem_flatMap.mpr ⟨entry, hentry, mem_flatMap.mpr ⟨constant, hconstant, hr⟩⟩

section
variable {settings : Settings} {files : List Stub.File} {earlier : List Diagnostic}

theorem complete_expand? (hbuild : Catalog.build settings files earlier = .ok catalog)
    {owner member : String} {t : TypeExpr} (ht : catalog.expand? owner member = some t) :
    Complete t := by
  have hp : Neutral fun u => u.hasArguments := by
    constructor
    case frame => exact fun heq ht => TypeExpr.hasArguments_of_frame heq ht
    all_goals simp [TypeExpr.hasArguments]
  refine everywhere_expand? hp (fun _ => rfl) (fun _ => rfl)
    (fun entry hentry constant hconst => ?_) ht
  have hmem : constant.type ∈ catalog.types := by
    simp only [Catalog.types, ClassEntry.types, mem_append, mem_flatMap]
    exact .inl (.inl ⟨entry, hentry, .inl (.inr (mem_map_of_mem hconst))⟩)
  refine (Build.regularForm_build hbuild _ hmem).mono fun u hu => ?_
  cases u with
  | generic name args => simpa [TypeExpr.hasArguments, TypeExpr.IsCanonicalNode] using hu.1
  | _ => rfl

/-- **Comparisons with a built catalog have an answer** at every depth to which the references of
the two types are nested, if no type that takes arguments lacks them; so those of the program have
one up to the depth that it follows. If references lead in no circle, none is nested deeper than
there are references in the types of constants. -/
theorem compare_returns (hbuild : Catalog.build settings files earlier = .ok catalog) :
    (∀ (a b : TypeExpr) (n m : Nat), Complete a → Complete b →
      NestsWithin catalog.hierarchy n a → NestsWithin catalog.hierarchy m b →
        (∀ depth, n + m ≤ depth →
          (∃ r, TypeExpr.containedWithin catalog.hierarchy depth a b = .ok r) ∧
          ∃ r, TypeExpr.overlapWithin catalog.hierarchy depth a b = .ok r) ∧
        (n + m ≤ TypeExpr.referenceDepth →
          (∃ r, isContainedBy a b catalog.hierarchy = .ok r) ∧
          ∃ r, canOverlap a b catalog.hierarchy = .ok r)) ∧
    ((∀ r, ¬ TransGen (Refers catalog.hierarchy) r r) →
      ∀ t, NestsWithin catalog.hierarchy (catalog.constantReferences.length + 1) t) := by
  have hexpand : ∀ owner member u, catalog.hierarchy.expand owner member = some u → Complete u :=
    fun _ _ _ hu => complete_expand? hbuild hu
  refine ⟨fun a b n m ha hb hna hnb => ?_,
    TypeExpr.nestsWithin_of_acyclic fun _ _ => mem_constantReferences⟩
  have ha := TypeExpr.shallow_of_nestsWithin hexpand ha hna
  have hb := TypeExpr.shallow_of_nestsWithin hexpand hb hnb
  have hdepth : ∀ depth, n + m ≤ depth →
      (∃ r, TypeExpr.containedWithin catalog.hierarchy depth a b = .ok r) ∧
      ∃ r, TypeExpr.overlapWithin catalog.hierarchy depth a b = .ok r := fun depth hle =>
    ⟨TypeExpr.exists_containedWithin depth n m a b hle ha hb,
      TypeExpr.exists_overlapWithin depth n m a b hle ha hb⟩
  exact ⟨hdepth, hdepth TypeExpr.referenceDepth⟩

end

/-- A class with constants of the given names, docblocks and values. -/
def modeFile (constants : List (String × String × String)) : Stub.File where
  path := "a.php"
  classes := [
    { kind := .plainClass, name := "Mode", context := { file := "a.php" }
      location := { file := "a.php", line := 2 }
      constants := constants.map fun (name, docblock, value) =>
        { name
          docblock := some docblock
          valueText := some value
          context := { file := "a.php" }
          location := { file := "a.php", line := 3 } } }]

/-- Two constants with values, and one whose type refers to them. -/
def modes : Stub.File :=
  modeFile [("A_1", "", "1"), ("A_2", "", "2"), ("B", "/** @var Mode::A_*|string */", "f()")]

/-- A constant whose type refers to itself. -/
def circularModes : Stub.File :=
  modeFile [("B_1", "/** @var Mode::B_*|int */", "f()")]

theorem catalog_modes : ∃ catalog, Catalog.build {} [modes] = .ok catalog ∧
    NestsWithin catalog.hierarchy 2 (.memberReference "Mode" "B") ∧
    catalog.constantReferences = [("Mode", "A_*")] ∧
    ∀ t ∈ catalog.expand? "Mode" "A_*", t.references = [] :=
  Build.exists_catalog (by decide +kernel)

/-- A type with a reference to a constant whose type refers to two others is compared with `int`,
and the references lead in no circle. -/
theorem compare_returns_modes : ∃ catalog, Catalog.build {} [modes] = .ok catalog ∧
      (∃ r, isContainedBy (.memberReference "Mode" "B") (.keyword "int") catalog.hierarchy = .ok r) ∧
      (∃ r, canOverlap (.memberReference "Mode" "B") (.keyword "int") catalog.hierarchy = .ok r) ∧
      NestsWithin catalog.hierarchy 2 (.memberReference "Mode" "A_*") := by
  obtain ⟨catalog, hbuild, hnests, hreferences, hnone⟩ := catalog_modes
  obtain ⟨hcompare, hbound⟩ := compare_returns hbuild
  have hcircle : ∀ r, ¬ TransGen (Refers catalog.hierarchy) r r := by
    intro r hr
    obtain ⟨q, -, hq⟩ := TransGen.tail'_iff.mp hr
    obtain ⟨s, ⟨t, ht, hs⟩, -⟩ := TransGen.head'_iff.mp hr
    have hr := mem_constantReferences hq
    rw [hreferences] at hr
    obtain rfl := mem_singleton.mp hr
    simp [hnone t ht] at hs
  obtain ⟨-, hanswers⟩ :=
    hcompare (.memberReference "Mode" "B") (.keyword "int") 2 0 (by decide +kernel)
      (by decide +kernel) hnests (.intro nofun nofun)
  obtain ⟨hcontained, hoverlap⟩ := hanswers (by decide)
  have hall := hbound hcircle (.memberReference "Mode" "A_*")
  rw [hreferences] at hall
  exact ⟨_, hbuild, hcontained, hoverlap, hall⟩

/-- The type refers to the constants `B_*`, or is something else. -/
def isCircular : TypeExpr → Bool
  | .union (.memberReference "Mode" ⟨.str "B_*"⟩ :: _) => true
  | _ => false

/-- A constant whose type refers to itself is compared with nothing. -/
theorem compare_circular_reference : ∃ catalog, Catalog.build {} [circularModes] = .ok catalog ∧
      isContainedBy (.memberReference "Mode" "B_*") (.keyword "string") catalog.hierarchy =
        .error .endlessReference ∧
      canOverlap (.memberReference "Mode" "B_*") (.keyword "string") catalog.hierarchy =
        .error .endlessReference := by
  obtain ⟨catalog, hbuild, t, ht, hmatch⟩ : ∃ catalog, Catalog.build {} [circularModes] = .ok catalog ∧
      ∃ t ∈ catalog.expand? "Mode" "B_*", isCircular t = true :=
    Build.exists_catalog (by decide +kernel)
  unfold isCircular at hmatch
  split at hmatch
  · exact ⟨catalog, hbuild, TypeExpr.containedWithin_circular ht (by decide) _,
      TypeExpr.overlapWithin_circular ht (by decide) (by decide) _⟩
  · cases hmatch

end StubCatalog.Catalog
