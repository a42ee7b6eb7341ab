import StubCatalog.Proofs.Build.Composition
import StubCatalog.Query.Member

/-! # Inherited properties

A search for a property is followed from a class and from its parent side by side: every class is
met with two tables of bindings, and the lower one *factors* through the upper one (`Factors`). One
hop keeps this (`Factors.up`), as two substitutions are one. -/

namespace StubCatalog

open List

variable {d : Build.Terms} {child parent : ClassEntry}

/-- The type arguments that a class gives for an ancestor. -/
def ClassEntry.argumentsFor (child ancestor : ClassEntry) : List TypeExpr :=
  (child.ancestorArguments.get? ancestor.key).getD []

/-- The class gives a type argument for each template parameter of an ancestor, and the empty type
stands nowhere in these arguments. -/
def ClassEntry.Supplies (child ancestor : ClassEntry) : Prop :=
  ancestor.templates.length ≤ (child.argumentsFor ancestor).length ∧
    ∀ t ∈ (child.argumentsFor ancestor).take ancestor.templates.length,
      ∀ u ∈ t.nodes, u.isNever = false

instance (child ancestor : ClassEntry) : Decidable (child.Supplies ancestor) :=
  inferInstanceAs (Decidable (_ ∧ _))

/-- The name of a template parameter. -/
def TypeExpr.templateName? : TypeExpr → Option String
  | .template name _ => some name.text
  | _ => none

/-- The type has no template parameters but those of the class. -/
def ClassEntry.Covers (entry : ClassEntry) (t : TypeExpr) : Prop :=
  ∀ name bound, .template name bound ∈ t.nodes → name.text ∈ entry.templates.map (·.name)

instance (entry : ClassEntry) (t : TypeExpr) : Decidable (entry.Covers t) :=
  decidable_of_iff
    (∀ u ∈ t.nodes, ∀ name ∈ u.templateName?, name ∈ entry.templates.map (·.name)) (by
    refine ⟨fun h name bound hmem => h _ hmem _ rfl, fun h u hu name hname => ?_⟩
    cases u with
    | template label bound =>
      obtain rfl : label.text = name := by simpa [TypeExpr.templateName?] using hname
      exact h label bound hu
    | _ => simp [TypeExpr.templateName?] at hname)

open TypeExpr (Ordinary OrdinaryBindings Nonvoid ReadForm substitute replace)

namespace Catalog

/-- The second class is the parent of the first, which supplies its template parameters. -/
structure Hop (catalog : Catalog) (child parent : ClassEntry) : Prop where
  link : child.parentName?.bind catalog.class? = some parent
  supplies : child.Supplies parent

/-- Going up from a class, the property is first found at the owner, after a number of hops. -/
inductive FirstFound (catalog : Catalog) (property : String) : Nat → ClassEntry → ClassEntry → Prop
  | own {owner : ClassEntry} (has : (owner.properties.get? property).isSome) :
    FirstFound catalog property 0 owner owner
  | up {n : Nat} {child parent owner : ClassEntry} (lacks : child.properties.get? property = none)
    (hop : Hop catalog child parent) (above : FirstFound catalog property n parent owner) :
    FirstFound catalog property (n + 1) child owner

variable {catalog : Catalog} {property : String} {entry owner : ClassEntry} {n : Nat}

theorem FirstFound.unique {m : Nat} {owner' : ClassEntry}
    (h : FirstFound catalog property n entry owner)
    (h' : FirstFound catalog property m entry owner') : n = m := by
  induction h generalizing m with
  | own has =>
    cases h' with
    | own => rfl
    | up lacks => simp [lacks] at has
  | up lacks hop _ ih =>
    cases h' with
    | own has => simp [lacks] at has
    | up _ hop' above' =>
      obtain rfl := Option.some.inj (hop.link.symm.trans hop'.link)
      rw [ih above']

/-! ### No search is cut short -/

/-- The classes met so far are further from the owner than the next one, `n` hops away, and there is
room for all that are left. -/
structure Unmet (catalog : Catalog) (property : String) (owner : ClassEntry) (n depth : Nat)
    (met : List String) : Prop where
  nodup : met.Nodup
  room : catalog.classes.size ≤ met.length + depth
  further : ∀ key ∈ met, ∃ m entry, n < m ∧ catalog.classes.get? key = some entry ∧
    FirstFound catalog property m entry owner

section
variable {depth : Nat} {met : List String} (h : Unmet catalog property owner n depth met)
  (hentry : catalog.classes.get? entry.key = some entry)
  (hfound : FirstFound catalog property n entry owner)
include h hentry hfound

theorem Unmet.fresh : entry.key ∉ met := by
  intro hmem
  obtain ⟨m, entry', hlt, hget, hfound'⟩ := h.further _ hmem
  obtain rfl := Option.some.inj (hentry.symm.trans hget)
  have := hfound.unique hfound'
  omega

theorem Unmet.exists_depth : ∃ rest, depth = rest + 1 := by
  have hmet : met ⊆ catalog.classes.keys := by
    intro key hkey
    obtain ⟨m, entry', -, hget, -⟩ := h.further key hkey
    exact Table.mem_keys_iff.mpr ⟨entry', hget⟩
  have hlength : met.length < catalog.classes.size :=
    Table.length_lt_size (Table.mem_keys_iff.mpr ⟨entry, hentry⟩) (h.fresh hentry hfound) h.nodup
      hmet
  have hroom := h.room
  exact ⟨depth - 1, by omega⟩

end

theorem Unmet.up {depth : Nat} {met : List String}
    (h : Unmet catalog property owner (n + 1) (depth + 1) met)
    (hentry : catalog.classes.get? entry.key = some entry)
    (hfound : FirstFound catalog property (n + 1) entry owner) :
    Unmet catalog property owner n depth (entry.key :: met) where
  nodup := nodup_cons.mpr ⟨h.fresh hentry hfound, h.nodup⟩
  room := by
    have := h.room
    rw [length_cons]
    omega
  further := by
    intro key hkey
    rcases mem_cons.mp hkey with rfl | hkey
    · exact ⟨n + 1, entry, by omega, hentry, hfound⟩
    · obtain ⟨m, entry', hlt, hget, hfound'⟩ := h.further key hkey
      exact ⟨m, entry', by omega, hget, hfound'⟩

/-! ### Bindings along the way -/

theorem bindTemplates_map (templates : List TemplateParameter) (args : List TypeExpr)
    (f : TypeExpr → TypeExpr) :
    bindTemplates templates (args.map f) = (bindTemplates templates args).map f := by
  rw [bindTemplates, bindTemplates, Table.map_ofList, zip_map_right]
  rfl

theorem exists_get?_bindTemplates {templates : List TemplateParameter} {args : List TypeExpr}
    (h : templates.length ≤ args.length) {name : String} (hname : name ∈ templates.map (·.name)) :
    ∃ t, (bindTemplates templates args).get? name = some t := by
  refine Table.exists_get?_ofList ?_
  rwa [map_fst_zip (by simpa using h)]

/-- What the lower bindings put into a type of the class, the upper ones put in first and `b`
after. -/
structure Factors (b : Table TypeExpr) (entry : ClassEntry) (lower upper : Table TypeExpr) :
    Prop where
  ordinary : OrdinaryBindings upper
  nonvoid : upper.Holds fun _ => Nonvoid
  through : ∀ t, Ordinary t → entry.Covers t →
    substitute lower t = substitute b (substitute upper t)

theorem factors_start (b : Table TypeExpr) (entry : ClassEntry) : Factors b entry b {} where
  ordinary := Table.holds_empty
  nonvoid := Table.holds_empty
  through _ _ _ := rfl

theorem argumentsFor_read (h : Build.IsReadClass d child) (parent : ClassEntry) {t : TypeExpr}
    (ht : t ∈ child.argumentsFor parent) : Ordinary t ∧ child.Covers t := by
  unfold ClassEntry.argumentsFor at ht
  cases hget : child.ancestorArguments.get? parent.key with
  | none => simp [hget] at ht
  | some args =>
    rw [hget] at ht
    have hread := h.arguments _ args hget t ht
    refine ⟨TypeExpr.ordinary_of_readForm hread, fun name bound hmem => ?_⟩
    exact (hread.of_mem_nodes hmem).2.template name bound rfl

theorem Factors.up {b lower upper : Table TypeExpr} (hb : OrdinaryBindings b)
    (h : Factors b child lower upper) (hop : Hop catalog child parent)
    (hread : Build.IsReadClass d child) :
    Factors b parent
      (bindTemplates parent.templates ((child.argumentsFor parent).map (substitute lower)))
      (bindTemplates parent.templates ((child.argumentsFor parent).map (substitute upper))) := by
  have hargs := fun t ht => argumentsFor_read (t := t) hread parent ht
  have hupper : ∀ t ∈ child.argumentsFor parent, Ordinary (substitute upper t) := fun t ht => by
    rw [TypeExpr.substitute_eq_replace (hargs t ht).1]
    exact TypeExpr.ordinary_replace h.ordinary (hargs t ht).1
  have hordinary : OrdinaryBindings
      (bindTemplates parent.templates ((child.argumentsFor parent).map (substitute upper))) := by
    refine Build.holds_bindTemplates fun t ht => ?_
    obtain ⟨u, hu, rfl⟩ := mem_map.mp (mem_of_mem_take ht)
    exact hupper u hu
  have hnonvoid : Table.Holds (fun _ => Nonvoid)
      (bindTemplates parent.templates ((child.argumentsFor parent).map (substitute upper))) := by
    refine Build.holds_bindTemplates fun t ht => ?_
    rw [← map_take] at ht
    obtain ⟨u, hu, rfl⟩ := mem_map.mp ht
    have hu' := (hargs u (mem_of_mem_take hu)).1
    rw [TypeExpr.substitute_eq_replace hu']
    exact TypeExpr.nonvoid_replace h.ordinary h.nonvoid hu'
      (TypeExpr.nonvoid_of_nodes hu' (hop.supplies.2 u hu))
  have hlower :
      bindTemplates parent.templates ((child.argumentsFor parent).map (substitute lower)) =
      (bindTemplates parent.templates ((child.argumentsFor parent).map (substitute upper))).map
        (replace b) := by
    rw [← bindTemplates_map, map_map]
    refine congrArg _ (map_congr_left fun t ht => ?_)
    rw [Function.comp_apply, h.through t (hargs t ht).1 (hargs t ht).2,
      TypeExpr.substitute_eq_replace (hupper t ht)]
  refine ⟨hordinary, hnonvoid, fun t ht hcovers => ?_⟩
  have hclosed : TypeExpr.Closed
      (bindTemplates parent.templates ((child.argumentsFor parent).map (substitute upper))) t :=
    fun name bound hmem =>
      exists_get?_bindTemplates (by simpa using hop.supplies.1) (hcovers name bound hmem)
  rw [TypeExpr.substitute_eq_replace ht, TypeExpr.substitute_eq_replace ht,
    TypeExpr.substitute_eq_replace (TypeExpr.ordinary_replace hordinary ht), hlower]
  exact (TypeExpr.replace_replace hordinary hnonvoid hb ht hclosed).symm

/-! ### Both searches -/

theorem ownMember?_property (ancestor : Ancestor) (property : String) :
    ownMember? ancestor ("$" ++ property) =
      (ancestor.entry.properties.get? property).map fun p =>
        ⟨ancestor.entry.name, .property p, ancestor.bindings⟩ := by
  have hname : ("$" ++ property).toList = '$' :: property.toList := by simp
  unfold ownMember?
  simp only [hname, String.ofList_toList]
  rfl

section
variable {depth : Nat} {met : List String} {α : Type} (f : Ancestor → Option α)

theorem findSome?_own {bindings : Table TypeExpr} (h : Unmet catalog property owner n depth met)
    (hentry : catalog.classes.get? entry.key = some entry)
    (hfound : FirstFound catalog property n entry owner) {found : α}
    (hf : f ⟨entry, bindings⟩ = some found) :
    (catalog.parentChain depth met ⟨entry, bindings⟩).findSome? f = some found := by
  obtain ⟨depth, rfl⟩ := h.exists_depth hentry hfound
  have hfresh : met.contains entry.key = false := by simpa using h.fresh hentry hfound
  simp only [parentChain, hfresh, Bool.false_eq_true, if_false, findSome?_cons, hf]

theorem findSome?_up (h : Unmet catalog property owner (n + 1) depth met)
    (hchild : catalog.classes.get? child.key = some child)
    (hfound : FirstFound catalog property (n + 1) child owner) (hop : Hop catalog child parent) :
    ∃ depth', Unmet catalog property owner n depth' (child.key :: met) ∧
      ∀ bindings, f ⟨child, bindings⟩ = none →
        (catalog.parentChain depth met ⟨child, bindings⟩).findSome? f =
          (catalog.parentChain depth' (child.key :: met) ⟨parent, bindTemplates parent.templates
            ((child.argumentsFor parent).map (substitute bindings))⟩).findSome? f := by
  obtain ⟨depth, rfl⟩ := h.exists_depth hchild hfound
  have hfresh : met.contains child.key = false := by simpa using h.fresh hchild hfound
  refine ⟨depth, h.up hchild hfound, fun bindings hf => ?_⟩
  have hparent : catalog.parentOf? ⟨child, bindings⟩ = some ⟨parent, bindTemplates parent.templates
      ((child.argumentsFor parent).map (substitute bindings))⟩ := by
    rw [parentOf?, hop.link]
    rfl
  simp only [parentChain, hfresh, Bool.false_eq_true, if_false, findSome?_cons, hf, hparent]

end

theorem get?_key_of_hop (hread : Build.IsReadClasses d catalog.classes)
    (hop : Hop catalog child parent) : catalog.classes.get? parent.key = some parent := by
  obtain ⟨name, -, hget⟩ := Option.bind_eq_some_iff.mp hop.link
  rw [(hread _ parent hget).2]
  exact hget

/-- **Both searches end at the owner**, and the type found from below factors through the one found
from above. -/
theorem findSome?_parentChain (hread : Build.IsReadClasses d catalog.classes)
    {b lower upper : Table TypeExpr} (hb : OrdinaryBindings b) {found : PropertyEntry}
    (hfound : FirstFound catalog property n entry owner)
    (hproperty : owner.properties.get? property = some found) (hcovers : owner.Covers found.type)
    (hentry : catalog.classes.get? entry.key = some entry) (h : Factors b entry lower upper)
    {depth depth' : Nat} {met met' : List String}
    (hlower : Unmet catalog property owner n depth met)
    (hupper : Unmet catalog property owner n depth' met') :
    ∃ lower' upper',
      (catalog.parentChain depth met ⟨entry, lower⟩).findSome? (ownMember? · ("$" ++ property)) =
        some ⟨owner.name, .property found, lower'⟩ ∧
      (catalog.parentChain depth' met' ⟨entry, upper⟩).findSome? (ownMember? · ("$" ++ property)) =
        some ⟨owner.name, .property found, upper'⟩ ∧
      substitute lower' found.type = substitute b (substitute upper' found.type) := by
  induction hfound generalizing lower upper depth depth' met met' with
  | @own owner has =>
    have hown : ∀ bindings, ownMember? ⟨owner, bindings⟩ ("$" ++ property) =
        some ⟨owner.name, .property found, bindings⟩ := fun bindings => by
      rw [ownMember?_property, hproperty]
      rfl
    have htype : Ordinary found.type :=
      TypeExpr.ordinary_of_readForm ((hread _ owner hentry).1.properties _ found hproperty)
    exact ⟨lower, upper, findSome?_own _ hlower hentry (.own has) (hown lower),
      findSome?_own _ hupper hentry (.own has) (hown upper), h.through _ htype hcovers⟩
  | @up n child parent owner lacks hop above ih =>
    have hnone : ∀ bindings, ownMember? ⟨child, bindings⟩ ("$" ++ property) = none :=
      fun bindings => by
        rw [ownMember?_property, lacks]
        rfl
    have hchild : FirstFound catalog property (n + 1) child owner := .up lacks hop above
    obtain ⟨_, hlower', hfind⟩ :=
      findSome?_up (ownMember? · ("$" ++ property)) hlower hentry hchild hop
    obtain ⟨_, hupper', hfind'⟩ :=
      findSome?_up (ownMember? · ("$" ++ property)) hupper hentry hchild hop
    rw [hfind _ (hnone lower), hfind' _ (hnone upper)]
    exact ih hproperty hcovers (get?_key_of_hop hread hop)
      (h.up hb hop (hread _ child hentry).1) hlower' hupper'

theorem resolveMember?_of_findSome? {name : String} {found : PropertyEntry}
    {bindings : Table TypeExpr} (hclass : catalog.class? name = some entry)
    (h : (catalog.parentChain catalog.classes.size [] ⟨entry, {}⟩).findSome?
      (ownMember? · ("$" ++ property)) = some ⟨owner.name, .property found, bindings⟩) :
    catalog.resolveMember? name ("$" ++ property) =
      some (.type (substitute bindings found.type)) := by
  have hmember : catalog.member? name ("$" ++ property) =
      some ⟨owner.name, .property found, bindings⟩ := by
    rw [member?, ancestry, hclass]
    simp only [findSome?_append, h, Option.some_or]
  rw [resolveMember?, hmember]
  rfl

theorem unmet_start : Unmet catalog property owner n catalog.classes.size [] where
  nodup := nodup_nil
  room := by simp
  further := by simp

/-- **Generic inheritance composes along the superclass chain.** In a built catalog, let a property
be first found at some class above a class and its parent, where each class on the way gives a type
argument, without the empty type in it, for every template parameter of the next, and the type of
the property has only template parameters of its class. Then class and parent have a type for the
property, and that of the class is the parent's with the template parameters replaced by the
arguments that the class gives. -/
theorem resolveMember?_inherited {settings : Settings} {files : List Stub.File}
    {earlier : List Diagnostic} (hbuild : Catalog.build settings files earlier = .ok catalog)
    {childName parentName : String} {child parent : ClassEntry} {found : PropertyEntry}
    (hchild : catalog.class? childName = some child)
    (hlink : child.parentName? = some parentName)
    (hparent : catalog.class? parentName = some parent)
    (hfound : FirstFound catalog property (n + 1) child owner)
    (hproperty : owner.properties.get? property = some found) (hcovers : owner.Covers found.type) :
    ∃ t, catalog.resolveMember? parentName ("$" ++ property) = some (.type t) ∧
      catalog.resolveMember? childName ("$" ++ property) =
        some (.type (substitute (bindTemplates parent.templates (child.argumentsFor parent))
          t)) := by
  have hread := Build.isRead_build hbuild
  have hentry : catalog.classes.get? child.key = some child := by
    rw [(hread _ child hchild).2]
    exact hchild
  have hbindings : OrdinaryBindings
      (bindTemplates parent.templates (child.argumentsFor parent)) :=
    Build.holds_bindTemplates fun t ht =>
      (argumentsFor_read (hread _ child hentry).1 parent (mem_of_mem_take ht)).1
  cases hfound with
  | @up _ _ above _ lacks hop habove =>
    obtain rfl : above = parent := by
      have hlinked := hop.link
      rw [hlink, Option.bind_some, hparent] at hlinked
      exact (Option.some.inj hlinked).symm
    have hnone : ownMember? ⟨child, {}⟩ ("$" ++ property) = none := by
      rw [ownMember?_property, lacks]
      rfl
    have hself : (child.argumentsFor above).map (substitute {}) = child.argumentsFor above :=
      map_id _
    obtain ⟨_, hunmet, hfind⟩ := findSome?_up (ownMember? · ("$" ++ property)) unmet_start hentry
      (.up lacks hop habove) hop
    have hfind := hfind {} hnone
    rw [hself] at hfind
    obtain ⟨lower, upper, hlower, hupper, hthrough⟩ := findSome?_parentChain hread hbindings habove
      hproperty hcovers (get?_key_of_hop hread hop) (factors_start _ above) hunmet unmet_start
    refine ⟨substitute upper found.type, resolveMember?_of_findSome? hparent hupper, ?_⟩
    rw [← hthrough]
    exact resolveMember?_of_findSome? hchild (hfind.trans hlower)

/-- A class of the given docblock. -/
def plainClass (name docblock : String) (extended : List String := [])
    (properties : List Stub.Property := []) : Stub.ClassLike where
  kind := .plainClass
  name
  context := { file := "a.php" }
  location := { file := "a.php", line := 2 }
  docblock := some docblock
  extended
  properties

/-- A property of lists, elements or null, and two classes below it that narrow the elements. -/
def boxes : Stub.File where
  path := "a.php"
  classes := [
    plainClass "Box" "/** @template T */" [] [
      { name := "items", location := { file := "a.php", line := 3 }
        docblock := some "/** @var list<T>|T|null */" }],
    plainClass "Shelf" "/** @template K\n * @extends Box<K|int> */" ["Box"],
    plainClass "Rack" "/** @extends Shelf<?int> */" ["Shelf"]]

theorem catalog_boxes : ∃ catalog, Catalog.build {} [boxes] = .ok catalog ∧
    ∃ rack ∈ catalog.class? "Rack", rack.parentName? = some "Shelf" ∧
      rack.properties.get? "items" = none ∧
      ∃ shelf ∈ catalog.class? "Shelf", rack.Supplies shelf ∧ shelf.parentName? = some "Box" ∧
        shelf.properties.get? "items" = none ∧
        ∃ box ∈ catalog.class? "Box", shelf.Supplies box ∧
          ∃ found ∈ box.properties.get? "items", box.Covers found.type :=
  Build.exists_catalog (by decide +kernel)

theorem resolveMember?_inherited_boxes : ∃ catalog, Catalog.build {} [boxes] = .ok catalog ∧
      ∃ rack shelf box found, catalog.class? "Rack" = some rack ∧
        rack.parentName? = some "Shelf" ∧ catalog.class? "Shelf" = some shelf ∧
        FirstFound catalog "items" 2 rack box ∧ box.properties.get? "items" = some found ∧
        box.Covers found.type ∧
        ∃ t, catalog.resolveMember? "Shelf" "$items" = some (.type t) ∧
          catalog.resolveMember? "Rack" "$items" =
            some (.type (substitute (bindTemplates shelf.templates (rack.argumentsFor shelf))
              t)) := by
  obtain ⟨catalog, hbuild, rack, hrack, hlink, hlacks, shelf, hshelf, hsupplies, hlink', hlacks',
    box, hbox, hsupplies', found, hfound, hcovers⟩ := catalog_boxes
  have hpath : FirstFound catalog "items" 2 rack box :=
    .up hlacks ⟨by rw [hlink]; exact hshelf, hsupplies⟩
      (.up hlacks' ⟨by rw [hlink']; exact hbox, hsupplies'⟩
        (.own (Option.isSome_iff_exists.mpr ⟨found, hfound⟩)))
  exact ⟨catalog, hbuild, rack, shelf, box, found, hrack, hlink, hshelf, hpath, hfound, hcovers,
    resolveMember?_inherited hbuild hrack hlink hshelf hpath hfound hcovers⟩

end Catalog

end StubCatalog
