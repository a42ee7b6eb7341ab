import StubCatalog.Proofs.TypeExpr.Substitution

/-! # Template parameters in types

Which template parameters stand in a type (`occurrences`; what stands in a bound does not count),
and what becomes of them. -/

namespace StubCatalog.TypeExpr

open List

variable {name : String}

/-- A template parameter with its bound. -/
def template? : TypeExpr → Option (Label × Option TypeExpr)
  | .template name bound => some (name, bound)
  | _ => none

/-- The template parameters in a type with their bounds. -/
def occurrences (t : TypeExpr) : List (Label × Option TypeExpr) := t.nodes.filterMap template?

/-- The names of the template parameters in a type. -/
def templateNames (t : TypeExpr) : List String := t.occurrences.map (·.1.text)

instance : DecidablePred Ordinary := fun t =>
  inferInstanceAs (Decidable (Everywhere (fun u => u.IsCanonicalNode ∧
    u.isRegularNode ∧ u.isNumberNode) t))

instance : DecidablePred Nonvoid := fun t =>
  inferInstanceAs (Decidable (∀ u ∈ alternatives t, u.isNever = false))

section
variable {t u : TypeExpr} {ts : List TypeExpr} {name : String}

theorem looksPast_template? : LooksPast template? where
  keyword _ := rfl
  nullable _ := rfl
  union _ := rfl
  intersection _ := rfl

theorem occurrences_eq (t : TypeExpr) :
    t.occurrences = t.template?.toList ++ t.children.flatMap occurrences :=
  found_eq template? t

theorem mem_templateNames :
    name ∈ t.templateNames ↔ ∃ x ∈ t.occurrences, x.1.text = name := mem_map

theorem occurrences_template (label : Label) (bound : Option TypeExpr) :
    (TypeExpr.template label bound).occurrences = [(label, bound)] := rfl

theorem mem_occurrences {label : Label} {bound : Option TypeExpr} :
    (label, bound) ∈ t.occurrences ↔ .template label bound ∈ t.nodes := by
  rw [occurrences, mem_filterMap]
  refine ⟨?_, fun h => ⟨_, h, rfl⟩⟩
  rintro ⟨u, hu, heq⟩
  cases u with
  | template =>
    cases heq
    exact hu
  | _ => simp [template?] at heq

/-! ### Unions and intersections -/

theorem occurrences_of_mem_children (h : u ∈ t.children) : u.occurrences ⊆ t.occurrences :=
  found_of_mem_children h

theorem occurrences_of_mem_intersectionParts (h : u ∈ intersectionParts t) :
    u.occurrences ⊆ t.occurrences :=
  found_of_mem_intersectionParts h

theorem occurrences_of_mem_alternatives (h : u ∈ alternatives t) : u.occurrences ⊆ t.occurrences :=
  found_of_mem_alternatives looksPast_template? h

theorem occurrences_mkNullable (t : TypeExpr) : (mkNullable t).occurrences = t.occurrences :=
  found_mkNullable looksPast_template? t

theorem occurrences_unionOf (ts : List TypeExpr) :
    (unionOf ts).occurrences ⊆ ts.flatMap occurrences :=
  found_unionOf looksPast_template? ts

theorem occurrences_intersectionOf (ts : List TypeExpr) :
    (intersectionOf ts).occurrences ⊆ ts.flatMap occurrences :=
  found_intersectionOf looksPast_template? ts

end

/-! ### Equal types -/

section
variable {t u : TypeExpr}

theorem among_children (h : t.same u) : Among t.children u.children := by
  obtain ⟨-, hinside⟩ := same_iff_frame.mp h
  cases hbag : t.isBag with
  | true =>
    rw [hbag] at hinside
    exact hinside.1
  | false =>
    rw [hbag] at hinside
    intro v hv
    obtain ⟨i, hi, rfl⟩ := getElem_of_mem hv
    exact ⟨_, getElem_mem _, hinside.get hi (hinside.length_eq ▸ hi)⟩

theorem mem_templateNames_of_same (ht : Ordinary t) (hu : Ordinary u) (h : t.same u)
    (hname : name ∈ t.templateNames) : name ∈ u.templateNames := by
  induction ht using Ordinary.induct generalizing u with
  | step t ht ih =>
    obtain ⟨x, hx, rfl⟩ := mem_templateNames.mp hname
    rw [occurrences_eq] at hx
    rcases mem_append.mp hx with hx | hx
    · cases t with
      | template label bound =>
        cases u with
        | template label' bound' =>
          rw [same] at h
          obtain rfl : x = (label, bound) := by simpa [template?] using hx
          rw [Label.eq_of_same ht.here.2.1 hu.here.2.1 h]
          exact mem_singleton.mpr rfl
        | _ => simp [same] at h
      | _ => simp [template?] at hx
    · obtain ⟨v, hv, hx⟩ := mem_flatMap.mp hx
      obtain ⟨w, hw, hvw⟩ := among_children h v hv
      have hmem := ih v (mem_parts_of_mem_children hv) (hu.inside (mem_parts_of_mem_children hw))
        hvw (mem_templateNames.mpr ⟨x, hx, rfl⟩)
      obtain ⟨y, hy, heq⟩ := mem_templateNames.mp hmem
      exact mem_templateNames.mpr ⟨y, occurrences_of_mem_children hw hy, heq⟩

theorem exists_alternative_of_mem (ht : Ordinary t)
    (hname : name ∈ t.templateNames) : ∃ u ∈ alternatives t, name ∈ u.templateNames := by
  induction t, ht using canonicalClass_ordinary.alternativesInduction with
  | single t _ hlike =>
    rw [alternatives_eq hlike]
    exact ⟨t, mem_singleton.mpr rfl, hname⟩
  | union ts _ hts =>
    obtain ⟨x, hx, rfl⟩ := mem_templateNames.mp hname
    obtain ⟨u, hu, hx⟩ := mem_flatMap.mp (occurrences_eq (.union ts) ▸ hx)
    rw [alternatives_union hts.plain]
    exact ⟨u, hu, mem_templateNames.mpr ⟨x, hx, rfl⟩⟩
  | nullable u _ htakes ih =>
    obtain ⟨v, hv, hname⟩ := ih (by
      rwa [templateNames, ← occurrences_mkNullable, mkNullable_eq htakes])
    rw [alternatives_nullable htakes]
    exact ⟨v, mem_cons_of_mem _ hv, hname⟩

section
variable {ts : List TypeExpr} {name : String}

theorem mem_templateNames_of_subset (h : t.occurrences ⊆ ts.flatMap occurrences)
    (hname : name ∈ t.templateNames) : ∃ u ∈ ts, name ∈ u.templateNames := by
  obtain ⟨x, hx, rfl⟩ := mem_templateNames.mp hname
  obtain ⟨u, hu, hx⟩ := mem_flatMap.mp (h hx)
  exact ⟨u, hu, mem_templateNames.mpr ⟨x, hx, rfl⟩⟩

theorem mem_templateNames_unionOf (hts : ∀ t ∈ ts, Ordinary t) :
    name ∈ (unionOf ts).templateNames ↔ ∃ t ∈ ts, name ∈ t.templateNames := by
  refine ⟨mem_templateNames_of_subset (occurrences_unionOf ts), ?_⟩
  rintro ⟨t, ht, hname⟩
  obtain ⟨u, hu, hname⟩ := exists_alternative_of_mem (hts t ht) hname
  have hmem : u ∈ offered ts := mem_flatMap.mpr ⟨t, ht, hu⟩
  rcases cases_of_mem_offered hts hmem with rfl | rfl | halternative
  · simp [templateNames, occurrences, nodes, template?] at hname
  · simp [templateNames, occurrences, nodes, template?] at hname
  · obtain ⟨v, hv, hsame⟩ := exists_same_remaining hts hmem halternative
    have hnil : ¬ (remaining ts = [] ∧ (offered ts).any isNever) := fun h =>
      ne_nil_of_mem hv h.1
    have hv' : v ∈ alternatives (unionOf ts) := by
      rw [alternatives_unionOf hts (ne_nil_of_mem ht), if_neg hnil]
      exact mem_append_right _ hv
    have hname' := mem_templateNames_of_same (of_mem_offered hts hmem).1 (of_mem_remaining hts hv).1
      hsame hname
    obtain ⟨x, hx, rfl⟩ := mem_templateNames.mp hname'
    exact mem_templateNames.mpr ⟨x, occurrences_of_mem_alternatives hv' hx, rfl⟩

theorem mem_templateNames_intersectionOf (hts : ∀ t ∈ ts, Ordinary t) :
    name ∈ (intersectionOf ts).templateNames ↔ ∃ t ∈ ts, name ∈ t.templateNames := by
  refine ⟨mem_templateNames_of_subset (occurrences_intersectionOf ts), ?_⟩
  rintro ⟨t, ht, hname⟩
  have hpart : ∃ u ∈ intersectionParts t, name ∈ u.templateNames := by
    cases t with
    | intersection us =>
      obtain ⟨x, hx, rfl⟩ := mem_templateNames.mp hname
      obtain ⟨u, hu, hx⟩ := mem_flatMap.mp (occurrences_eq (.intersection us) ▸ hx)
      exact ⟨u, hu, mem_templateNames.mpr ⟨x, hx, rfl⟩⟩
    | _ => exact ⟨_, mem_singleton.mpr rfl, hname⟩
  obtain ⟨u, hu, hname⟩ := hpart
  have hmem : u ∈ combined ts := mem_flatMap.mpr ⟨t, ht, hu⟩
  have hordinary : ∀ v ∈ combined ts, Ordinary v := fun v hv => (of_mem_combined hts hv).1
  obtain ⟨v, hv, hsame⟩ := among_distinct hordinary u hmem
  have hname' := mem_templateNames_of_same (hordinary u hmem)
    (hordinary v (mem_of_mem_distinct hv)) hsame hname
  rw [← intersectionParts_intersectionOf hts (ne_nil_of_mem ht)] at hv
  obtain ⟨x, hx, rfl⟩ := mem_templateNames.mp hname'
  exact mem_templateNames.mpr ⟨x, occurrences_of_mem_intersectionParts hv hx, rfl⟩

end

end

/-! ### Replacement -/

section
variable {b c : Table TypeExpr} {t : TypeExpr}

theorem template?_frame (t : TypeExpr) : t.frame.template? = t.template? := by cases t <;> rfl

theorem occurrences_replace_children (htemplate : t.template? = none) :
    (replace b t).occurrences ⊆ (t.children.map (replace b)).flatMap occurrences := by
  have hsolid : t.isSolid →
      (replace b t).occurrences ⊆ (t.children.map (replace b)).flatMap occurrences := by
    intro hsolid
    obtain ⟨hframe, hchildren⟩ := @frame_replace b _ hsolid
    rw [occurrences_eq, ← template?_frame, hframe, template?_frame, htemplate, hchildren]
    exact List.Subset.refl _
  cases t with
  | nullable t =>
    rw [replace_nullable]
    exact List.Subset.trans (occurrences_unionOf _) (by simp [children, occurrences_eq null,
      template?])
  | union ts =>
    rw [replace_union]
    exact occurrences_unionOf _
  | intersection ts =>
    rw [replace_intersection]
    exact occurrences_intersectionOf _
  | template => cases htemplate
  | _ => exact hsolid rfl

theorem occurrences_replace (b : Table TypeExpr) (t : TypeExpr) : (replace b t).occurrences ⊆
      t.occurrences.flatMap fun x => (replace b (.template x.1 x.2)).occurrences := by
  induction t using partsInduction with
  | step t ih =>
    cases htemplate : t.template? with
    | some x =>
      cases t with
      | template label bound =>
        rw [occurrences_template]
        simp
      | _ => simp [template?] at htemplate
    | none =>
      intro x hx
      obtain ⟨v, hv, hx⟩ := mem_flatMap.mp (occurrences_replace_children htemplate hx)
      obtain ⟨u, hu, rfl⟩ := mem_map.mp hv
      obtain ⟨y, hy, hx⟩ := mem_flatMap.mp (ih u (mem_parts_of_mem_children hu) hx)
      exact mem_flatMap.mpr ⟨y, occurrences_of_mem_children hu hy, hx⟩

theorem mem_templateNames_replace_children (hb : OrdinaryBindings b) (ht : Ordinary t)
    (htemplate : t.template? = none) {u : TypeExpr} (hu : u ∈ t.children)
    (hname : name ∈ (replace b u).templateNames) : name ∈ (replace b t).templateNames := by
  have hinside : ∀ v ∈ t.children, Ordinary (replace b v) := fun v hv =>
    ordinary_replace hb (ht.inside (mem_parts_of_mem_children hv))
  have hsolid : t.isSolid → name ∈ (replace b t).templateNames := by
    intro hsolid
    obtain ⟨-, hchildren⟩ := @frame_replace b _ hsolid
    obtain ⟨x, hx, rfl⟩ := mem_templateNames.mp hname
    have hmem : replace b u ∈ (replace b t).children := by
      rw [hchildren]
      exact mem_map_of_mem hu
    exact mem_templateNames.mpr ⟨x, occurrences_of_mem_children hmem hx, rfl⟩
  cases t with
  | nullable t =>
    obtain rfl : u = t := by simpa [children] using hu
    rw [replace_nullable, mem_templateNames_unionOf]
    · exact ⟨_, by simp, hname⟩
    · simpa using ⟨hinside u hu, canonicalClass_ordinary.null⟩
  | union ts =>
    have hts : ∀ v ∈ ts.map (replace b), Ordinary v := forall_mem_map.mpr hinside
    rw [replace_union, mem_templateNames_unionOf hts]
    exact ⟨_, mem_map_of_mem hu, hname⟩
  | intersection ts =>
    have hts : ∀ v ∈ ts.map (replace b), Ordinary v := forall_mem_map.mpr hinside
    rw [replace_intersection, mem_templateNames_intersectionOf hts]
    exact ⟨_, mem_map_of_mem hu, hname⟩
  | template => cases htemplate
  | _ => exact hsolid rfl

theorem mem_templateNames_replace (hb : OrdinaryBindings b) (ht : Ordinary t) :
    name ∈ (replace b t).templateNames ↔
      ∃ x ∈ t.occurrences, name ∈ (replace b (.template x.1 x.2)).templateNames := by
  constructor
  · intro h
    obtain ⟨x, hx, rfl⟩ := mem_templateNames.mp h
    obtain ⟨y, hy, hx⟩ := mem_flatMap.mp (occurrences_replace b t hx)
    exact ⟨y, hy, mem_templateNames.mpr ⟨x, hx, rfl⟩⟩
  · rintro ⟨x, hx, hname⟩
    induction t using partsInduction with
    | step t ih =>
      cases htemplate : t.template? with
      | some y =>
        cases t with
        | template label bound =>
          obtain rfl : x = (label, bound) := by simpa [occurrences_template] using hx
          exact hname
        | _ => simp [template?] at htemplate
      | none =>
        rw [occurrences_eq, htemplate] at hx
        obtain ⟨u, hu, hx⟩ := mem_flatMap.mp hx
        have hpart := mem_parts_of_mem_children hu
        exact mem_templateNames_replace_children hb ht htemplate hu
          (ih u hpart (ht.inside hpart) hx)

theorem replace_congr (h : ∀ x ∈ t.occurrences,
    replace b (.template x.1 x.2) = replace c (.template x.1 x.2)) : replace b t = replace c t := by
  induction t using partsInduction with
  | step t ih =>
    have ih : ∀ u ∈ t.children, replace b u = replace c u := fun u hu =>
      ih u (mem_parts_of_mem_children hu) fun x hx => h x (occurrences_of_mem_children hu hx)
    have hmap : t.children.map (replace b) = t.children.map (replace c) := map_congr_left ih
    have hsolid : t.isSolid → replace b t = replace c t := by
      intro hsolid
      obtain ⟨hframe, hchildren⟩ := @frame_replace c _ hsolid
      exact replace_eq hsolid hframe.symm (hmap.trans hchildren.symm)
    cases t with
    | nullable t => rw [replace_nullable, replace_nullable, ih t (by simp [children])]
    | union ts => rw [replace_union, replace_union, show ts.map _ = ts.map _ from hmap]
    | intersection ts =>
      rw [replace_intersection, replace_intersection, show ts.map _ = ts.map _ from hmap]
    | template label bound => exact h (label, bound) (by simp [occurrences_template])
    | _ => exact hsolid rfl

theorem replace_of_unbound (ht : Ordinary t)
    (h : ∀ name ∈ t.templateNames, b.get? name = none) : replace b t = t := by
  have hempty : replace b t = replace .empty t := by
    refine replace_congr fun x hx => ?_
    rw [replace_template, replace_template, h _ (mem_templateNames.mpr ⟨x, hx, rfl⟩)]
    rfl
  rw [hempty]
  exact replace_eq_self (fun _ => rfl) ht

theorem mem_occurrences_substitute (hb : b.Holds fun _ u => u.templateNames = [])
    {x : Label × Option TypeExpr} (hx : x ∈ (substitute b t).occurrences) :
    x ∈ t.occurrences ∧ b.get? x.1.text = none := by
  unfold substitute at hx
  split at hx
  · next hempty =>
    refine ⟨hx, ?_⟩
    rw [Table.get?, isEmpty_iff.mp hempty]
    rfl
  · obtain ⟨y, hy, hx⟩ := mem_flatMap.mp (occurrences_replace b t hx)
    rw [replace_template] at hx
    cases hget : b.get? y.1.text with
    | none =>
      obtain rfl : x = y := by simpa [hget, occurrences_template] using hx
      exact ⟨hy, hget⟩
    | some u =>
      rw [hget, Option.getD_some] at hx
      have hname : x.1.text ∈ u.templateNames := mem_templateNames.mpr ⟨x, hx, rfl⟩
      rw [hb _ u hget] at hname
      cases hname

theorem mem_templateNames_substitute (hb : OrdinaryBindings b) (ht : Ordinary t)
    (hname : name ∈ t.templateNames) (hfree : b.get? name = none) :
    name ∈ (substitute b t).templateNames := by
  obtain ⟨x, hx, rfl⟩ := mem_templateNames.mp hname
  rw [substitute_eq_replace ht]
  refine (mem_templateNames_replace hb ht).mpr ⟨x, hx, ?_⟩
  rw [replace_template, hfree]
  exact mem_singleton.mpr rfl

/-! ### Two replacements -/

/-- Template parameters of the type are bound to types that have no template parameter which is
bound in the second table. -/
def NoCapture (b c : Table TypeExpr) (t : TypeExpr) : Prop :=
  ∀ name ∈ t.templateNames, ∀ u ∈ b.get? name, ∀ inner ∈ u.templateNames, c.contains inner = false

instance (b c : Table TypeExpr) (t : TypeExpr) : Decidable (NoCapture b c t) :=
  inferInstanceAs (Decidable (∀ name ∈ t.templateNames, ∀ u ∈ b.get? name,
    ∀ inner ∈ u.templateNames, c.contains inner = false))

section
variable (hb : OrdinaryBindings b) (hc : OrdinaryBindings c)
  (hapart : b.Holds fun name _ => c.get? name = none)
  (hclosed : c.Holds fun _ u => u.templateNames = [])
include hb hc hapart hclosed

theorem noCapture_of_replace_comm (ht : Ordinary t)
    (h : replace c (replace b t) = replace b (replace c t)) : NoCapture b c t := by
  intro name hname u hu inner hinner
  cases hget : c.get? inner with
  | none => rw [Table.contains, hget, Option.isSome_none]
  | some v =>
    exfalso
    obtain ⟨x, hx, rfl⟩ := mem_templateNames.mp hname
    have hstays : inner ∈ (replace b (replace c t)).templateNames := by
      have hx' : x.1.text ∈ (replace c t).templateNames := by
        refine (mem_templateNames_replace hc ht).mpr ⟨x, hx, ?_⟩
        rw [replace_template, hapart _ u hu]
        exact mem_singleton.mpr rfl
      obtain ⟨y, hy, heq⟩ := mem_templateNames.mp hx'
      refine (mem_templateNames_replace hb (ordinary_replace hc ht)).mpr ⟨y, hy, ?_⟩
      rw [replace_template, heq, hu]
      exact hinner
    rw [← h, mem_templateNames_replace hc (ordinary_replace hb ht)] at hstays
    obtain ⟨y, -, hgoes⟩ := hstays
    rw [replace_template] at hgoes
    cases hy : c.get? y.1.text with
    | none =>
      rw [hy] at hgoes
      obtain rfl : inner = y.1.text := mem_singleton.mp hgoes
      rw [hget] at hy
      cases hy
    | some w =>
      rw [hy, Option.getD_some, hclosed _ w hy] at hgoes
      cases hgoes

variable (hbNonvoid : b.Holds fun _ => Nonvoid) (hcNonvoid : c.Holds fun _ => Nonvoid)
include hbNonvoid hcNonvoid

theorem replace_comm_of_noCapture (ht : Ordinary t) (h : NoCapture b c t) :
    replace c (replace b t) = replace b (replace c t) := by
  -- without capture, both orders put in the bindings of both tables at once
  have hboth : ∀ label bound, (label, bound) ∈ t.occurrences →
      replace c (replace b (.template label bound)) = replace (b.union c) (.template label bound) ∧
      replace b (replace c (.template label bound)) =
        replace (b.union c) (.template label bound) := by
    intro label bound hmem
    rw [replace_template, replace_template, replace_template, Table.get?_union]
    cases hbound : b.get? label.text with
    | some u =>
      have hfree : ∀ inner ∈ u.templateNames, c.get? inner = none := fun inner hinner =>
        Option.not_isSome_iff_eq_none.mp (by
          simpa [Table.contains] using h _ (mem_templateNames.mpr ⟨_, hmem, rfl⟩) u hbound inner
            hinner)
      rw [hapart _ u hbound, Option.getD_some, Option.getD_none, replace_template, hbound]
      exact ⟨replace_of_unbound (hb _ u hbound) hfree, rfl⟩
    | none =>
      rw [Option.getD_none, replace_template]
      cases hget : c.get? label.text with
      | none =>
        rw [Option.getD_none, replace_template, hbound]
        exact ⟨rfl, rfl⟩
      | some v =>
        refine ⟨rfl, replace_of_unbound (hc _ v hget) ?_⟩
        rw [Option.getD_some, hclosed _ v hget]
        simp
  rw [replace_replace_eq hb hbNonvoid hc ht fun label bound hmem =>
      (hboth label bound (mem_occurrences.mpr hmem)).1,
    replace_replace_eq hc hcNonvoid hb ht fun label bound hmem =>
      (hboth label bound (mem_occurrences.mpr hmem)).2]

/-- **Replacements may change places** if and only if none of the types that the first puts in has a
template parameter that the second binds. -/
theorem replace_comm_iff (ht : Ordinary t) :
    replace c (replace b t) = replace b (replace c t) ↔ NoCapture b c t :=
  ⟨noCapture_of_replace_comm hb hc hapart hclosed ht,
    replace_comm_of_noCapture hb hc hapart hclosed hbNonvoid hcNonvoid ht⟩

end

end

end StubCatalog.TypeExpr
