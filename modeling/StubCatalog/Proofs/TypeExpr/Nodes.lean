import StubCatalog.Proofs.TypeExpr.Canonical

/-! # What stands in a type

The nodes of a type are the type itself and those of its children. If what is looked for among them
(`found`) is no type that is put together of members (`LooksPast`), putting types together brings
nothing in. -/

namespace StubCatalog.TypeExpr

open List

theorem nodesList_eq (ts : List TypeExpr) : nodesList ts = ts.flatMap nodes := by
  induction ts with
  | nil => simp [nodesList]
  | cons t ts ih => rw [nodesList, ih, flatMap_cons]

theorem nodesOption_eq (t : Option TypeExpr) : nodesOption t = t.toList.flatMap nodes := by
  cases t <;> simp [nodesOption]

theorem nodesFields_eq (fs : List (ShapeField TypeExpr)) :
    nodesFields fs = (fs.map ShapeField.value).flatMap nodes := by
  induction fs with
  | nil => simp [nodesFields]
  | cons f fs ih => rw [nodesFields, ih, map_cons, flatMap_cons]

theorem nodesParameters_eq (ps : List (CallableParameter TypeExpr)) :
    nodesParameters ps = (ps.map CallableParameter.type).flatMap nodes := by
  induction ps with
  | nil => simp [nodesParameters]
  | cons p ps ih => rw [nodesParameters, ih, map_cons, flatMap_cons]

theorem nodes_eq (t : TypeExpr) : t.nodes = t :: t.children.flatMap nodes := by
  cases t <;> simp [nodes, children, nodesList_eq, nodesOption_eq, nodesFields_eq,
    nodesParameters_eq]

theorem all_nodes_iff {p : TypeExpr → Bool} {t : TypeExpr} : t.nodes.all p ↔
    p t ∧ ∀ u ∈ t.children, u.nodes.all p := by
  simp only [all_eq_true]
  rw [nodes_eq]
  simp only [forall_mem_cons, mem_flatMap, forall_exists_index, and_imp]
  exact and_congr_right fun _ => ⟨fun h u hu v hv => h v u hu hv, fun h v u hu hv => h u hu v hv⟩

theorem Everywhere.of_mem_nodes {p : TypeExpr → Prop} {t u : TypeExpr} (h : Everywhere p t)
    (hu : u ∈ t.nodes) : p u := by
  induction h with
  | intro here _ ih =>
    rw [nodes_eq] at hu
    rcases mem_cons.mp hu with rfl | hu
    · exact here
    · obtain ⟨v, hv, hu⟩ := mem_flatMap.mp hu
      exact ih v (mem_parts_of_mem_children hv) hu

/-- What is looked for among the nodes of a type. -/
def found {α : Type} (f : TypeExpr → Option α) (t : TypeExpr) : List α := t.nodes.filterMap f

/-- What is looked for is no built-in type, and no type that is put together of members. -/
structure LooksPast {α : Type} (f : TypeExpr → Option α) : Prop where
  keyword : ∀ name, f (.keyword name) = none
  nullable : ∀ t, f (.nullable t) = none
  union : ∀ ts, f (.union ts) = none
  intersection : ∀ ts, f (.intersection ts) = none

section
variable {α : Type} {f : TypeExpr → Option α} {t u : TypeExpr}

theorem found_eq (f : TypeExpr → Option α) (t : TypeExpr) :
    found f t = (f t).toList ++ t.children.flatMap (found f) := by
  rw [found, nodes_eq, filterMap_cons, filterMap_flatMap]
  cases f t <;> rfl

theorem found_of_mem_children (h : u ∈ t.children) : found f u ⊆ found f t := by
  intro x hx
  rw [found_eq]
  exact mem_append_right _ (mem_flatMap.mpr ⟨u, h, hx⟩)

theorem found_of_mem_unionParts (h : u ∈ unionParts t) : found f u ⊆ found f t := by
  cases t with
  | union ts => exact found_of_mem_children h
  | _ =>
    obtain rfl : u = _ := by simpa [unionParts] using h
    exact List.Subset.refl _

theorem found_of_mem_intersectionParts (h : u ∈ intersectionParts t) : found f u ⊆ found f t := by
  cases t with
  | intersection ts => exact found_of_mem_children h
  | _ =>
    obtain rfl : u = _ := by simpa [intersectionParts] using h
    exact List.Subset.refl _

theorem flatMap_found_subset {parts : TypeExpr → List TypeExpr} {ts us : List TypeExpr}
    (hparts : ∀ t ∈ ts, ∀ u ∈ parts t, found f u ⊆ found f t) (hus : us ⊆ ts.flatMap parts) :
    us.flatMap (found f) ⊆ ts.flatMap (found f) := by
  intro x hx
  obtain ⟨u, hu, hx⟩ := mem_flatMap.mp hx
  obtain ⟨t, ht, hut⟩ := mem_flatMap.mp (hus hu)
  exact mem_flatMap.mpr ⟨t, ht, hparts t ht u hut hx⟩

variable (hf : LooksPast f)
include hf

theorem found_keyword (name : Label) : found f (.keyword name) = [] := by
  rw [found_eq, hf.keyword]
  rfl

theorem found_of_mem_nullParts (h : u ∈ nullParts t) : found f u ⊆ found f t := by
  cases t with
  | nullable t =>
    rcases (by simpa [nullParts] using h : u = null ∨ u = t) with rfl | rfl
    · rw [null, found_keyword hf]
      exact nil_subset _
    · exact found_of_mem_children (by simp [children])
  | _ =>
    obtain rfl : u = _ := by simpa [nullParts] using h
    exact List.Subset.refl _

theorem found_of_mem_alternatives (h : u ∈ alternatives t) : found f u ⊆ found f t := by
  obtain ⟨v, hv, hu⟩ := mem_flatMap.mp h
  obtain ⟨w, hw, hu⟩ := mem_flatMap.mp hu
  exact List.Subset.trans (found_of_mem_nullParts hf hu)
    (List.Subset.trans (found_of_mem_unionParts hw) (found_of_mem_nullParts hf hv))

theorem found_mkNullable (t : TypeExpr) : found f (mkNullable t) = found f t := by
  have hinner : ∀ t, found f (.nullable t) = found f t := by
    intro t
    rw [found_eq, hf.nullable]
    simp [children]
  fun_induction mkNullable t with
  | case1 t ih => rw [ih, hinner]
  | case2 t => rw [hinner]

theorem found_mkUnion (ts : List TypeExpr) : found f (mkUnion ts) ⊆ ts.flatMap (found f) := by
  rw [found_eq, mkUnion, hf.union]
  exact flatMap_found_subset (fun _ _ _ => found_of_mem_unionParts) fun _ => mem_of_mem_distinct

theorem found_mkIntersection (ts : List TypeExpr) :
    found f (mkIntersection ts) ⊆ ts.flatMap (found f) := by
  rw [found_eq, mkIntersection, hf.intersection]
  exact flatMap_found_subset (fun _ _ _ => found_of_mem_intersectionParts) fun _ =>
    mem_of_mem_distinct

theorem found_unionOf (ts : List TypeExpr) : found f (unionOf ts) ⊆ ts.flatMap (found f) := by
  have hmembers : (unionMembers ts).flatMap (found f) ⊆ ts.flatMap (found f) :=
    flatMap_found_subset (fun _ _ _ => found_of_mem_alternatives hf) fun u hu =>
      (mem_filter.mp (mem_of_mem_distinct (CanonicalClass.mem_of_mem_dropNever hu))).1
  refine List.Subset.trans (unionOf_cases (P := (found f · ⊆ _)) ?_ ?_ (fun t ht => ?_) fun _ => ?_)
    hmembers
  · simp [null, found_keyword hf]
  · simp [never, found_keyword hf]
  · simp [ht, found_mkNullable hf]
  · rw [found_mkNullable hf]
    exact ⟨found_mkUnion hf _, found_mkUnion hf _⟩

theorem found_intersectionOf (ts : List TypeExpr) :
    found f (intersectionOf ts) ⊆ ts.flatMap (found f) := by
  have hmembers : (distinct (ts.flatMap intersectionParts)).flatMap (found f) ⊆
      ts.flatMap (found f) :=
    flatMap_found_subset (fun _ _ _ => found_of_mem_intersectionParts) fun _ => mem_of_mem_distinct
  refine List.Subset.trans ?_ hmembers
  unfold intersectionOf
  split
  · rw [mixed, found_keyword hf]
    exact nil_subset _
  · next t heq =>
    rw [heq]
    simp
  · exact found_mkIntersection hf _

end

end StubCatalog.TypeExpr
