import StubCatalog.Proofs.TypeExpr.CanonicalForm
import StubCatalog.Proofs.TypeExpr.Members
import StubCatalog.Proofs.TypeExpr.WrittenText

/-! # Substitution of ordinary types

The replacement of bound template parameters (`replace`) in ordinary types respects equality
(`same_replace`) and commutes with putting members together. -/

namespace StubCatalog.TypeExpr

open List

variable {ts : List TypeExpr}

/-- The type with the template parameters that have a binding replaced, rebuilt even if nothing is
bound. -/
def replace (bindings : Table TypeExpr) (t : TypeExpr) : TypeExpr :=
  (rebuild (substitution bindings) t).run

/-- Every template parameter is bound to an ordinary type. -/
abbrev OrdinaryBindings (bindings : Table TypeExpr) : Prop := bindings.Holds fun _ => Ordinary

/-- The tables bind the same names, to types that are equal. -/
def SameBindings (b b' : Table TypeExpr) : Prop :=
  ∀ name, Option.Rel (fun t u => t.same u) (b.get? name) (b'.get? name)

/-! ### One equation a sort of type -/

section
variable (b : Table TypeExpr)

theorem replace_nullable (t : TypeExpr) :
    replace b (.nullable t) = unionOf [replace b t, null] := by
  rw [replace, rebuild]
  rfl

theorem replace_union (ts : List TypeExpr) :
    replace b (.union ts) = unionOf (ts.map (replace b)) := by
  simp only [replace, rebuild, Id.run_bind, Id.run_pure, rebuildList_eq_map]
  rfl

theorem replace_intersection (ts : List TypeExpr) :
    replace b (.intersection ts) = intersectionOf (ts.map (replace b)) := by
  simp only [replace, rebuild, Id.run_bind, Id.run_pure, rebuildList_eq_map]
  rfl

theorem replace_template (name : Label) (bound : Option TypeExpr) :
    replace b (.template name bound) = (b.get? name.text).getD (.template name bound) := by
  cases bound <;> simp only [replace, rebuild] <;> rfl

theorem replace_keyword (name : Label) : replace b (.keyword name) = .keyword name := rfl

end

section
variable {b : Table TypeExpr} {t : TypeExpr}

theorem frame_replace (h : t.isSolid) :
    (replace b t).frame = t.frame ∧ (replace b t).children = t.children.map (replace b) := by
  obtain ⟨hframe, hchildren⟩ := @holds_rebuild _ _ .result (substitution b)
    (fun u r => r = replace b u) t h (fun _ => rfl) fun _ _ => rfl
  exact ⟨hframe, eq_map_of_forall₂ hchildren⟩

theorem isNever_frame (t : TypeExpr) : t.frame.isNever = t.isNever := by cases t <;> rfl

theorem isNever_replace (h : t.isSolid) : (replace b t).isNever = t.isNever := by
  rw [← isNever_frame, (frame_replace h).1, isNever_frame]

theorem isSolid_replace (h : t.isSolid) : (replace b t).isSolid := by
  rw [← isSolid_frame, (frame_replace h).1, isSolid_frame, h]

theorem replace_eq {u : TypeExpr} (h : t.isSolid) (hframe : t.frame = u.frame)
    (hchildren : t.children.map (replace b) = u.children) : replace b t = u :=
  eq_of_frame ((frame_replace h).1.trans hframe) ((frame_replace h).2.trans hchildren)

end

/-! ### Ordinary types stay ordinary -/

section
variable {b : Table TypeExpr} {t u : TypeExpr}

theorem ordinary_replace (hb : OrdinaryBindings b) (ht : Ordinary t) : Ordinary (replace b t) := by
  refine formed_substitution canonicalClass_ordinary (fun {t u} hq heq _ => ?_) hb
    (fun _ _ _ h => h) ht
  rwa [← isRegularNode_frame, ← isNumberNode_frame, ← heq, isRegularNode_frame, isNumberNode_frame]

theorem ordinary_map_replace (hb : OrdinaryBindings b) (hts : ∀ t ∈ ts, Ordinary t) :
    ∀ t ∈ ts.map (replace b), Ordinary t :=
  forall_mem_map.mpr fun t ht => ordinary_replace hb (hts t ht)

theorem nullableOf_ordinary (ht : Ordinary (.nullable t)) : unionOf [t, null] = .nullable t :=
  canonicalClass_ordinary.nullableOf_eq_nullable ht

theorem map_eq_self {α : Type} {f : α → α} (xs : List α) (h : ∀ x ∈ xs, f x = x) : xs.map f = xs :=
  (map_congr_left h).trans (map_id xs)

theorem replace_eq_self (hb : ∀ name, b.get? name = none) (ht : Ordinary t) : replace b t = t := by
  induction ht using Ordinary.induct with
  | step t ht ih =>
    cases t with
    | nullable t =>
      rw [replace_nullable, ih t (by simp [parts, children]), nullableOf_ordinary ht]
    | union ts => rw [replace_union, map_eq_self ts ih, unionOf_eq_union ht.alternatives]
    | intersection ts =>
      rw [replace_intersection, map_eq_self ts ih,
        intersectionOf_eq (canonicalClass_ordinary.intersection.mp ht).1]
    | template name bound => rw [replace_template, hb, Option.getD_none]
    | _ =>
      exact replace_eq rfl rfl (map_eq_self _ fun u hu => ih u (mem_parts_of_mem_children hu))

theorem substitute_eq_replace (ht : Ordinary t) : substitute b t = replace b t := by
  unfold substitute
  split
  · next hempty =>
    refine (replace_eq_self (fun name => ?_) ht).symm
    rw [Table.get?, isEmpty_iff.mp hempty]
    rfl
  · rfl

/-! ### Equality -/

theorem same_replace {b' : Table TypeExpr} (hb : OrdinaryBindings b) (hb' : OrdinaryBindings b')
    (hsame : SameBindings b b') (ht : Ordinary t) (hu : Ordinary u) (h : t.same u) :
    (replace b t).same (replace b' u) := by
  induction ht using Ordinary.induct generalizing u with
  | step t ht ih =>
    have ih : ∀ x ∈ parts t, ∀ y ∈ parts u, x.same y → (replace b x).same (replace b' y) :=
      fun x hx y hy hxy => ih x hx (hu.inside hy) hxy
    obtain ⟨hframe, hinside⟩ := same_iff_frame.mp h
    have hreplaced : Matched t.isBag (t.children.map (replace b)) (u.children.map (replace b')) :=
      hinside.imp fun x hx y hy =>
        ih x (mem_parts_of_mem_children hx) y (mem_parts_of_mem_children hy)
    have hordinaryT : ∀ x ∈ t.children.map (replace b), Ordinary x :=
      ordinary_map_replace hb fun x hx => ht.inside (mem_parts_of_mem_children hx)
    have hordinaryU : ∀ y ∈ u.children.map (replace b'), Ordinary y :=
      ordinary_map_replace hb' fun y hy => hu.inside (mem_parts_of_mem_children hy)
    have hback : t.isBag → Among (u.children.map (replace b')) (t.children.map (replace b)) := by
      intro hbag
      rw [hbag] at hreplaced
      intro y hy
      obtain ⟨x, hx, hxy⟩ := hreplaced.2 y hy
      exact ⟨x, hx, (hordinaryT x hx).same_symm (hordinaryU y hy) hxy⟩
    have hsolid : t.isSolid → u.isSolid → (replace b t).same (replace b' u) := by
      intro ht hu
      obtain ⟨hframeT, hchildrenT⟩ := @frame_replace b _ ht
      obtain ⟨hframeU, hchildrenU⟩ := @frame_replace b' _ hu
      have hbag : (replace b t).isBag = t.isBag := by
        rw [← isBag_folded, hframeT, isBag_folded]
      rw [same_iff_frame, hframeT, hframeU, hchildrenT, hchildrenU, hbag]
      exact ⟨hframe, hreplaced⟩
    cases t with
    | nullable t =>
      cases u with
      | nullable u =>
        rw [same] at h
        have ht : Ordinary (replace b t) := hordinaryT _ (by simp [children])
        have hu : Ordinary (replace b' u) := hordinaryU _ (by simp [children])
        have hsame := ih t (by simp [parts, children]) u (by simp [parts, children]) h
        have hnull : Ordinary null := canonicalClass_ordinary.null
        have hpair : ∀ {x y : TypeExpr}, x.same y → Among [x, null] [y, null] := fun hxy => by
          simpa [Among, hnull.same_self] using Or.inl hxy
        rw [replace_nullable, replace_nullable]
        exact same_unionOf (by simpa using ⟨ht, hnull⟩) (by simpa using ⟨hu, hnull⟩) (hpair hsame)
          (hpair (ht.same_symm hu hsame))
      | _ => simp [same] at h
    | union ts =>
      cases u with
      | union us =>
        rw [replace_union, replace_union]
        exact same_unionOf hordinaryT hordinaryU hreplaced.1 (hback rfl)
      | _ => simp [same] at h
    | intersection ts =>
      cases u with
      | intersection us =>
        rw [replace_intersection, replace_intersection]
        exact same_intersectionOf hordinaryT hordinaryU hreplaced.1 (hback rfl)
      | _ => simp [same] at h
    | template name bound =>
      cases u with
      | template name' bound' =>
        have hname : name = name' :=
          Label.eq_of_same ht.here.2.1 hu.here.2.1 (by rwa [same] at h)
        subst hname
        rw [replace_template, replace_template]
        have hbound := hsame name.text
        generalize b.get? name.text = v, b'.get? name.text = w at hbound ⊢
        cases hbound with
        | none => exact h
        | some hvw => exact hvw
      | _ => simp [same] at h
    | _ => cases u <;> first | exact hsolid rfl rfl | simp [same] at h

theorem sameBindings_self (hb : OrdinaryBindings b) : SameBindings b b := by
  intro name
  cases hget : b.get? name with
  | none => exact .none
  | some t => exact .some (hb name t hget).same_self

theorem respects_replace (hb : OrdinaryBindings b) : Respects fun t => [replace b t] where
  ordinary ht hu := by
    obtain rfl := mem_singleton.mp hu
    exact ordinary_replace hb ht
  among {t u} ht hu h := by simpa [Among] using same_replace hb hb (sameBindings_self hb) ht hu h

/-! ### Members -/

theorem replace_eq_unionOf (hb : OrdinaryBindings b) (ht : Ordinary t) :
    replace b t = unionOf ((alternatives t).map (replace b)) := by
  induction t, ht using canonicalClass_ordinary.alternativesInduction with
  | single t ht hlike =>
    rw [alternatives_eq hlike, map_singleton, unionOf_singleton (ordinary_replace hb ht)]
  | union ts _ hts => rw [replace_union, alternatives_union hts.plain]
  | nullable u hu htakes ih =>
    have halternatives : ∀ v ∈ (alternatives u).map (replace b), Ordinary v :=
      ordinary_map_replace hb fun v hv => ordinary_of_mem_alternatives hu hv
    have hnest : ∀ us ∈ [(alternatives u).map (replace b), [null]],
        us ≠ [] ∧ ∀ v ∈ us, Ordinary v := by
      simp only [forall_mem_cons, not_mem_nil, false_implies, implies_true, and_true]
      exact ⟨⟨by simp [alternatives_ne_nil hu], halternatives⟩, by simp,
        canonicalClass_ordinary.null⟩
    calc replace b (.nullable u)
        = unionOf ([(alternatives u).map (replace b), [null]].map unionOf) := by
          rw [replace_nullable, ih]
          rfl
      _ = unionOf ((alternatives u).map (replace b) ++ [null]) := by
          rw [unionOf_map_unionOf hnest]
          rfl
      _ = unionOf (null :: (alternatives u).map (replace b)) := unionOf_append_null halternatives
      _ = unionOf ((alternatives (.nullable u)).map (replace b)) := by
          rw [alternatives_nullable htakes]
          rfl

/-- **Replacement commutes with putting types together**, where a type that is put together is taken
apart again by `g`. -/
theorem replace_gather {gather : List TypeExpr → TypeExpr} {g : TypeExpr → List TypeExpr}
    (hb : OrdinaryBindings b) (hts : ∀ t ∈ ts, Ordinary t)
    (hg : ∀ t ∈ ts, g t ≠ [] ∧ ∀ u ∈ g t, Ordinary u) (hgather : Ordinary (gather ts))
    (hself : ∀ {t}, Ordinary t → replace b t = gather ((g t).map (replace b)))
    (hparts : gather ((g (gather ts)).map (replace b)) = gather ((ts.flatMap g).map (replace b)))
    (hnested : ∀ {tss : List (List TypeExpr)}, (∀ us ∈ tss, us ≠ [] ∧ ∀ u ∈ us, Ordinary u) →
      gather (tss.map gather) = gather tss.flatten) :
    replace b (gather ts) = gather (ts.map (replace b)) := by
  have hreplaced : ∀ us ∈ ts.map fun t => (g t).map (replace b), us ≠ [] ∧ ∀ u ∈ us, Ordinary u :=
    forall_mem_map.mpr fun t ht =>
      ⟨by simp [(hg t ht).1], ordinary_map_replace hb (hg t ht).2⟩
  calc replace b (gather ts)
      = gather ((ts.flatMap g).map (replace b)) := (hself hgather).trans hparts
    _ = gather (ts.map fun t => (g t).map (replace b)).flatten := by
        rw [map_flatMap, flatMap_def]
    _ = gather ((ts.map fun t => (g t).map (replace b)).map gather) := (hnested hreplaced).symm
    _ = gather (ts.map (replace b)) := by
        rw [map_map]
        exact congrArg gather (map_congr_left fun t ht => (hself (hts t ht)).symm)

theorem replace_unionOf (hb : OrdinaryBindings b) (hts : ∀ t ∈ ts, Ordinary t) (hne : ts ≠ [])
    (hnonvoid : ∀ t ∈ ts, Nonvoid t) : replace b (unionOf ts) = unionOf (ts.map (replace b)) :=
  replace_gather hb hts
    (fun t ht => ⟨alternatives_ne_nil (hts t ht), fun _ => ordinary_of_mem_alternatives (hts t ht)⟩)
    (canonicalClass_ordinary.unionOf hts) (replace_eq_unionOf hb)
    (unionOf_map_alternatives hts hnonvoid (respects_replace hb) rfl hne) unionOf_map_unionOf

theorem replace_eq_intersectionOf (hb : OrdinaryBindings b) (ht : Ordinary t) :
    replace b t = intersectionOf ((intersectionParts t).map (replace b)) := by
  cases t with
  | intersection ts => exact replace_intersection b ts
  | _ => rw [intersectionParts_eq rfl, map_singleton,
      intersectionOf_singleton (ordinary_replace hb ht)]

theorem replace_intersectionOf (hb : OrdinaryBindings b) (hts : ∀ t ∈ ts, Ordinary t)
    (hne : ts ≠ []) : replace b (intersectionOf ts) = intersectionOf (ts.map (replace b)) :=
  replace_gather hb hts (fun t ht => ⟨intersectionParts_ne_nil (hts t ht),
      fun _ hu => (of_mem_intersectionParts (hts t ht) hu).1⟩)
    (canonicalClass_ordinary.intersectionOf hts) (replace_eq_intersectionOf hb)
    (intersectionOf_map_parts (respects_replace hb) hts hne) intersectionOf_map_intersectionOf

/-! ### Empty alternatives -/

theorem replace_void (b : Table TypeExpr) (h : t = never ∨ t = .nullable never) :
    replace b t = t := by
  rcases h with rfl | rfl
  · rfl
  · rw [replace_nullable, replace_keyword]
    rfl

theorem nonvoid_of_isUnionLike (hlike : t.isUnionLike = false) (hnever : t.isNever = false) :
    Nonvoid t := by
  intro u hu
  rw [alternatives_eq hlike, mem_singleton] at hu
  rw [hu, hnever]

theorem Alternatives.nonvoid (h : Alternatives ts) (ht : t ∈ ts) : Nonvoid t := by
  obtain ⟨hlike, -, hnever⟩ := isAlternative_iff.mp (h.plain t ht)
  exact nonvoid_of_isUnionLike hlike hnever

theorem nonvoid_of_isSolid (hsolid : t.isSolid) (hnever : t.isNever = false) : Nonvoid t := by
  refine nonvoid_of_isUnionLike ?_ hnever
  cases t <;> first | rfl | cases hsolid

theorem nonvoid_null : Nonvoid null := nonvoid_of_isUnionLike rfl rfl

theorem nonvoid_of_nullable (ht : Ordinary (.nullable t)) (h : Nonvoid (.nullable t)) :
    Nonvoid t := by
  intro u hu
  refine h u ?_
  rw [alternatives_nullable ht.takesNull]
  exact mem_cons_of_mem _ hu

/-- **No empty alternative comes up by replacement.** In an intersection one could come up only if
every member turned into it, but then every member would have been empty before. -/
theorem nonvoid_replace (hb : OrdinaryBindings b) (hnonvoid : b.Holds fun _ => Nonvoid)
    (ht : Ordinary t) (h : Nonvoid t) : Nonvoid (replace b t) := by
  induction ht using Ordinary.induct with
  | step t ht ih =>
    have inside : ∀ u ∈ parts t, Ordinary u := fun _ => ht.inside
    cases t with
    | nullable t =>
      have hmem : t ∈ parts (.nullable t) := by simp [parts, children]
      rw [replace_nullable]
      refine nonvoid_unionOf ?_ ?_ (by simp)
      · simpa using ⟨ordinary_replace hb (inside t hmem), canonicalClass_ordinary.null⟩
      · simpa using ⟨ih t hmem (nonvoid_of_nullable ht h), nonvoid_null⟩
    | union ts =>
      obtain ⟨x, y, ys, rfl⟩ := exists_cons_cons ht.alternatives.many
      rw [replace_union]
      refine nonvoid_unionOf (ordinary_map_replace hb inside) ?_ (by simp)
      exact forall_mem_map.mpr fun u hu => ih u hu (ht.alternatives.nonvoid hu)
    | intersection ts =>
      obtain ⟨hts, -⟩ := canonicalClass_ordinary.intersection.mp ht
      obtain ⟨x, y, ys, rfl⟩ := exists_cons_cons hts.many
      rw [replace_intersection]
      refine Classical.byContradiction fun hvoid => ?_
      have hreplaced := ordinary_map_replace hb inside
      have hcollapse : ∀ u ∈ x :: y :: ys, u = intersectionOf ((x :: y :: ys).map (replace b)) := by
        intro u hu
        have hto := eq_of_void_intersectionOf hreplaced (cons_ne_nil _ _) hvoid
          (mem_map_of_mem hu)
        have hempty : ¬ Nonvoid u := fun hu' => hvoid (hto ▸ ih u hu hu')
        rwa [replace_void b (eq_of_not_nonvoid (inside u hu) hempty)] at hto
      have hapart := (pairwise_cons.mp hts.apart).1 y (by simp)
      rw [hcollapse y (by simp), ← hcollapse x (by simp),
        (inside x (by simp [parts, children])).same_self]
        at hapart
      cases hapart
    | template name bound =>
      rw [replace_template]
      cases hget : b.get? name.text with
      | none => exact h
      | some u => exact hnonvoid _ u hget
    | keyword name => exact h
    | _ => exact nonvoid_of_isSolid (isSolid_replace rfl) (by rw [isNever_replace rfl]; rfl)

/-! ### One replacement after another -/

/-- Every template parameter in the type has a binding. -/
def Closed (b : Table TypeExpr) (t : TypeExpr) : Prop :=
  ∀ name bound, .template name bound ∈ t.nodes → ∃ u, b.get? name.text = some u

theorem nonvoid_of_nodes (ht : Ordinary t) (h : ∀ u ∈ t.nodes, u.isNever = false) : Nonvoid t := by
  refine Classical.byContradiction fun hvoid => ?_
  have hmem : never ∈ t.nodes := by
    rcases eq_of_not_nonvoid ht hvoid with rfl | rfl <;> simp [nodes]
  cases h never hmem

theorem mem_nodes_of_mem_children {v : TypeExpr} (hu : u ∈ t.children) (hv : v ∈ u.nodes) :
    v ∈ t.nodes := by
  rw [nodes_eq]
  exact mem_cons_of_mem _ (mem_flatMap.mpr ⟨u, hu, hv⟩)

/-- **Two replacements agree with one** if they do so on the template parameters of the type, and
the first binds nothing to the empty type. -/
theorem replace_replace_eq {c d : Table TypeExpr} (hb : OrdinaryBindings b)
    (hnonvoid : b.Holds fun _ => Nonvoid) (hc : OrdinaryBindings c) (ht : Ordinary t)
    (h : ∀ name bound, .template name bound ∈ t.nodes →
      replace c (replace b (.template name bound)) = replace d (.template name bound)) :
    replace c (replace b t) = replace d t := by
  induction ht using Ordinary.induct with
  | step t ht ih =>
    have inside : ∀ u ∈ parts t, Ordinary u := fun _ => ht.inside
    have ih : ∀ u ∈ t.children, replace c (replace b u) = replace d u := fun u hu =>
      ih u (mem_parts_of_mem_children hu) fun name bound hmem =>
        h name bound (mem_nodes_of_mem_children hu hmem)
    have hmap : ∀ ts : List TypeExpr, (∀ u ∈ ts, u ∈ t.children) →
        (ts.map (replace b)).map (replace c) = ts.map (replace d) := by
      intro ts hts
      rw [map_map]
      exact map_congr_left fun u hu => ih u (hts u hu)
    have hsolid : t.isSolid → replace c (replace b t) = replace d t := by
      intro hsolid
      obtain ⟨hframe, hchildren⟩ := @frame_replace b _ hsolid
      obtain ⟨hframe', hchildren'⟩ := @frame_replace d _ hsolid
      refine replace_eq (isSolid_replace hsolid) (hframe.trans hframe'.symm) ?_
      rw [hchildren, hchildren', hmap _ fun _ => id]
    cases t with
    | nullable t =>
      have hmem : t ∈ parts (.nullable t) := by simp [parts, children]
      rw [replace_nullable, replace_nullable, ← ih t hmem]
      by_cases hvoid : Nonvoid t
      · refine replace_unionOf hc ?_ (by simp) ?_
        · simpa using ⟨ordinary_replace hb (inside t hmem), canonicalClass_ordinary.null⟩
        · simpa using ⟨nonvoid_replace hb hnonvoid (inside t hmem) hvoid, nonvoid_null⟩
      · obtain rfl : t = never := by
          refine (eq_of_not_nonvoid (inside t hmem) hvoid).resolve_right ?_
          rintro rfl
          simpa [takesNull] using ht.takesNull
        exact replace_void c (Or.inr rfl)
    | union ts =>
      obtain ⟨x, y, ys, rfl⟩ := exists_cons_cons ht.alternatives.many
      rw [replace_union, replace_union, ← hmap (x :: y :: ys) fun _ => id]
      refine replace_unionOf hc (ordinary_map_replace hb inside) (cons_ne_nil _ _) ?_
      exact forall_mem_map.mpr fun u hu =>
        nonvoid_replace hb hnonvoid (inside u hu) (ht.alternatives.nonvoid hu)
    | intersection ts =>
      obtain ⟨hts, -⟩ := canonicalClass_ordinary.intersection.mp ht
      obtain ⟨x, y, ys, rfl⟩ := exists_cons_cons hts.many
      rw [replace_intersection, replace_intersection, ← hmap (x :: y :: ys) fun _ => id]
      exact replace_intersectionOf hc (ordinary_map_replace hb inside) (cons_ne_nil _ _)
    | template name bound =>
      exact h name bound (by rw [nodes_eq]; exact mem_cons_self)
    | _ => exact hsolid rfl

theorem replace_replace {c : Table TypeExpr} (hb : OrdinaryBindings b)
    (hnonvoid : b.Holds fun _ => Nonvoid) (hc : OrdinaryBindings c) (ht : Ordinary t)
    (hclosed : Closed b t) : replace c (replace b t) = replace (b.map (replace c)) t := by
  refine replace_replace_eq hb hnonvoid hc ht fun name bound hmem => ?_
  obtain ⟨u, hu⟩ := hclosed name bound hmem
  rw [replace_template, replace_template, Table.get?_map, hu]
  rfl

end

end StubCatalog.TypeExpr
