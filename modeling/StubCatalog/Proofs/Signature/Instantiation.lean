import StubCatalog.Catalog.Types
import StubCatalog.Proofs.TypeExpr.Templates

/-! # Instantiation of generic signatures

A signature is instantiated in the types of its parameters, its result, its exceptions and its
assertions (`Signature.bodyTypes`). -/

namespace StubCatalog

open List

open TypeExpr (Ordinary OrdinaryBindings Nonvoid NoCapture replace)

variable {f g : TypeExpr → TypeExpr} {s : Signature} {b : Table TypeExpr}

/-! ### The types that are instantiated -/

/-- The parameter with a function applied to its types. -/
def Parameter.mapTypes (f : TypeExpr → TypeExpr) (p : Parameter) : Parameter :=
  { p with type := f p.type, nativeType := p.nativeType.map f, outType := p.outType.map f }

theorem Parameter.mapTypes_congr {p : Parameter} (h : ∀ t ∈ p.types, f t = g t) :
    p.mapTypes f = p.mapTypes g := by
  have hoption : ∀ o : Option TypeExpr, (∀ t ∈ o.toList, f t = g t) → o.map f = o.map g := by
    intro o ho
    cases o with
    | none => rfl
    | some t => exact congrArg some (ho t (by simp))
  simp only [types, cons_append, mem_cons, mem_append, or_imp, forall_and] at h
  obtain ⟨htype, hnative, hout⟩ := h
  rw [mapTypes, mapTypes, htype _ rfl, hoption _ hnative, hoption _ hout]

namespace Signature

/-- The types in which template parameters are replaced. -/
def bodyTypes (s : Signature) : List TypeExpr :=
  s.parameters.flatMap Parameter.types ++ s.returnType :: s.throws ++ s.assertions.map (·.type)

/-- The signature with a function applied to these types. -/
def mapTypes (f : TypeExpr → TypeExpr) (s : Signature) : Signature :=
  { s with
    parameters := s.parameters.map (Parameter.mapTypes f)
    returnType := f s.returnType
    throws := s.throws.map f
    assertions := s.assertions.map fun a => { a with type := f a.type } }

theorem mapTypes_mapTypes (f g : TypeExpr → TypeExpr) (s : Signature) :
    (s.mapTypes f).mapTypes g = s.mapTypes (g ∘ f) := by
  simp [mapTypes, Parameter.mapTypes, Function.comp_def]

theorem bodyTypes_mapTypes (f : TypeExpr → TypeExpr) (s : Signature) :
    (s.mapTypes f).bodyTypes = s.bodyTypes.map f := by
  simp [mapTypes, bodyTypes, Parameter.mapTypes, Parameter.types, flatMap_map,
    map_flatMap, Option.toList_map, Function.comp_def]

theorem mapTypes_congr (h : ∀ t ∈ s.bodyTypes, f t = g t) : s.mapTypes f = s.mapTypes g := by
  have hparameters : s.parameters.map (Parameter.mapTypes f) =
      s.parameters.map (Parameter.mapTypes g) :=
    map_congr_left fun p hp => Parameter.mapTypes_congr fun t ht =>
      h t (by simpa [bodyTypes] using Or.inl ⟨p, hp, ht⟩)
  have hthrows : s.throws.map f = s.throws.map g :=
    map_congr_left fun t ht => h t (by simp [bodyTypes, ht])
  have hassertions : s.assertions.map (fun a => { a with type := f a.type }) =
      s.assertions.map fun a => { a with type := g a.type } := by
    refine map_congr_left fun a ha => ?_
    rw [h a.type (by simpa [bodyTypes] using Or.inr (Or.inr (Or.inr ⟨a, ha, rfl⟩)))]
  have hreturn : f s.returnType = g s.returnType := h _ (by simp [bodyTypes])
  rw [mapTypes, mapTypes, hparameters, hthrows, hassertions, hreturn]

theorem mapTypes_eq_iff : s.mapTypes f = s.mapTypes g ↔ ∀ t ∈ s.bodyTypes, f t = g t := by
  refine ⟨fun h => ?_, mapTypes_congr⟩
  have htypes := congrArg bodyTypes h
  rw [bodyTypes_mapTypes, bodyTypes_mapTypes] at htypes
  exact map_inj_left.mp htypes

theorem mem_types_iff {t : TypeExpr} :
    t ∈ s.types ↔ t ∈ s.bodyTypes ∨ t ∈ s.nativeReturnType.toList ++ boundTypes s.templates := by
  simp only [types, bodyTypes, mem_append, mem_cons]
  grind

/-! ### Instantiation as one function of the types -/

/-- The signature without the template parameters that have a binding. -/
def withoutBound (b : Table TypeExpr) (s : Signature) : Signature :=
  { s with templates := s.templates.filter fun t => !b.contains t.name }

theorem mapTypes_substitute_of_isEmpty (h : b.pairs.isEmpty) (s : Signature) :
    s.mapTypes (TypeExpr.substitute b) = s := by
  have hid : TypeExpr.substitute b = id := by
    funext t
    exact if_pos h
  have hparameter : Parameter.mapTypes id = id := by
    funext p
    simp [Parameter.mapTypes]
  rw [hid]
  simp [mapTypes, hparameter]

theorem instantiateOwn_eq (b : Table TypeExpr) (s : Signature) :
    s.instantiateOwn b = (s.withoutBound b).mapTypes (TypeExpr.substitute b) := by
  unfold instantiateOwn
  split
  · next hempty =>
    have hnone : ∀ name, b.contains name = false := fun name => by
      rw [Table.contains, Table.get?, isEmpty_iff.mp hempty]
      rfl
    rw [mapTypes_substitute_of_isEmpty hempty]
    simp [withoutBound, hnone]
  · rfl

theorem instantiateOuter_eq (h : b.Holds fun name _ => s.template? name = none) :
    s.instantiateOuter b = s.mapTypes (TypeExpr.substitute b) := by
  have hvisible : (b.filter fun name _ => (s.template? name).isNone) = b := by
    refine Table.eq_of_pairs (filter_eq_self.mpr fun pair hpair => ?_)
    exact Option.isNone_iff_eq_none.mpr (h pair.1 pair.2 (Table.mem_pairs_iff.mp hpair))
  unfold instantiateOuter
  simp only [hvisible]
  split
  · next hempty => exact (mapTypes_substitute_of_isEmpty hempty s).symm
  · rfl

/-! ### Template parameters that are left -/

/-- The bindings bind the template parameters of the given names, and put in no others. -/
structure Binds (s : Signature) (b : Table TypeExpr) (bound : List String) : Prop where
  /-- The template parameters that are left are the others, in their order. -/
  templates : (s.instantiateOwn b).templates = s.templates.filter fun t => !bound.contains t.name
  /-- What stands in a type afterwards stood there before, and is not bound. -/
  gone : List.Forall₂ (fun u t => ∀ x ∈ t.occurrences, x ∈ u.occurrences ∧ x.1.text ∉ bound)
    s.bodyTypes (s.instantiateOwn b).bodyTypes
  /-- What is not bound stays, in ordinary types. -/
  kept : OrdinaryBindings b → (∀ u ∈ s.bodyTypes, Ordinary u) →
    List.Forall₂ (fun u t => ∀ name ∈ u.templateNames, name ∉ bound → name ∈ t.templateNames)
      s.bodyTypes (s.instantiateOwn b).bodyTypes
  /-- A bound name is left only in the declared result type and in bounds, which stay. -/
  left_iff : ∀ name ∈ bound,
    name ∈ (s.instantiateOwn b).types.flatMap TypeExpr.templateNames ↔
      name ∈ (s.nativeReturnType.toList ++
        boundTypes (s.instantiateOwn b).templates).flatMap TypeExpr.templateNames

theorem forall₂_bodyTypes {R : TypeExpr → TypeExpr → Prop}
    (h : ∀ u ∈ s.bodyTypes, R u (TypeExpr.substitute b u)) :
    List.Forall₂ R s.bodyTypes (s.instantiateOwn b).bodyTypes := by
  rw [instantiateOwn_eq, bodyTypes_mapTypes]
  exact List.forall₂_map_right_iff.mpr (List.forall₂_same.mpr h)

theorem binds_of_contains {bound : List String} (hclosed : b.Holds fun _ u => u.templateNames = [])
    (hbound : ∀ name, b.contains name ↔ name ∈ bound) : s.Binds b bound := by
  have hcontains : ∀ name, b.contains name = bound.contains name := fun name => by
    rw [Bool.eq_iff_iff, hbound, contains_iff_mem]
  have hfree : ∀ name, b.get? name = none ↔ name ∉ bound := fun name => by
    rw [← hbound, Table.contains, Option.not_isSome_iff_eq_none]
  have hgone : ∀ u, ∀ x ∈ (TypeExpr.substitute b u).occurrences,
      x ∈ u.occurrences ∧ x.1.text ∉ bound := by
    intro u x hx
    obtain ⟨hx, hnone⟩ := TypeExpr.mem_occurrences_substitute hclosed hx
    exact ⟨hx, (hfree _).mp hnone⟩
  have hnative : (s.instantiateOwn b).nativeReturnType = s.nativeReturnType := by
    rw [instantiateOwn_eq]
    rfl
  refine ⟨?_, forall₂_bodyTypes fun u _ => hgone u, fun hb hs => ?_, fun name hname => ?_⟩
  · rw [instantiateOwn_eq]
    exact filter_congr fun t _ => by rw [hcontains]
  · refine forall₂_bodyTypes fun u hu name hname hnot => ?_
    exact TypeExpr.mem_templateNames_substitute hb (hs u hu) hname ((hfree name).mpr hnot)
  · rw [← hnative, mem_flatMap, mem_flatMap]
    constructor
    · rintro ⟨t, ht, hmem⟩
      rcases mem_types_iff.mp ht with ht | ht
      · rw [instantiateOwn_eq, bodyTypes_mapTypes] at ht
        obtain ⟨u, -, rfl⟩ := mem_map.mp ht
        obtain ⟨x, hx, rfl⟩ := TypeExpr.mem_templateNames.mp hmem
        exact absurd hname (hgone u x hx).2
      · exact ⟨t, ht, hmem⟩
    · rintro ⟨t, ht, hmem⟩
      exact ⟨t, mem_types_iff.mpr (Or.inr ht), hmem⟩

theorem map_fst_zip_eq_take {α β : Type} (xs : List α) (ys : List β) :
    (xs.zip ys).map Prod.fst = xs.take ys.length := by
  induction xs generalizing ys with
  | nil => simp
  | cons x xs ih =>
    cases ys with
    | nil => rfl
    | cons y ys => simp [ih]

theorem contains_bindTemplates {templates : List TemplateParameter} {args : List TypeExpr}
    {name : String} : (bindTemplates templates args).contains name ↔
      name ∈ (templates.map (·.name)).take args.length := by
  rw [bindTemplates, Table.contains_ofList_iff, map_fst_zip_eq_take]

theorem contains_bindTemplatesByName {templates : List TemplateParameter} {args : Table TypeExpr}
    {name : String} : (bindTemplatesByName templates args).contains name ↔
      name ∈ (templates.map (·.name)).filter args.contains := by
  rw [bindTemplatesByName, Table.contains_ofList_iff]
  simp only [mem_map, mem_filterMap, mem_filter, Option.map_eq_some_iff,
    Table.contains, Option.isSome_iff_exists]
  constructor
  · rintro ⟨_, ⟨t, ht, arg, harg, rfl⟩, rfl⟩
    exact ⟨⟨t, ht, rfl⟩, arg, harg⟩
  · rintro ⟨⟨t, ht, rfl⟩, arg, harg⟩
    exact ⟨_, ⟨t, ht, arg, harg, rfl⟩, rfl⟩

/-- **Instantiation with types without template parameters.** The template parameters without an
argument are left and stay where they were. The others are gone from the types that are
instantiated; one is left in the signature if and only if the declared result type or the bound of a
template parameter that is left has it. -/
theorem instantiateOwn_binds (s : Signature) :
    (∀ args : List TypeExpr, (∀ t ∈ args, t.templateNames = []) →
      s.Binds (bindTemplates s.templates args)
        ((s.templates.map (·.name)).take args.length)) ∧
    (∀ args : Table TypeExpr, (args.Holds fun _ t => t.templateNames = []) →
      s.Binds (bindTemplatesByName s.templates args)
        ((s.templates.map (·.name)).filter args.contains)) := by
  refine ⟨fun args hargs => binds_of_contains ?_ fun _ => contains_bindTemplates,
    fun args hargs => binds_of_contains ?_ fun _ => contains_bindTemplatesByName⟩
  · exact Table.holds_ofList fun pair hpair => hargs pair.2 (of_mem_zip hpair).2
  · refine Table.holds_ofList fun pair hpair => ?_
    obtain ⟨t, -, hpair⟩ := mem_filterMap.mp hpair
    obtain ⟨arg, harg, rfl⟩ := Option.map_eq_some_iff.mp hpair
    exact hargs t.name arg harg

/-- A key of `T` is looked up in a list of `T`; the result is declared as `T`. -/
def picking : Signature where
  templates := [{ name := "T" }, { name := "K", bound := some (.template "T" none) }]
  parameters := [{ name := "key", type := .template "K" (some (.template "T" none)) }]
  returnType := .generic "list" [.template "T" none]
  nativeReturnType := some (.template "T" none)

theorem instantiateOwn_binds_picking : (∀ t ∈ [TypeExpr.keyword "int"], t.templateNames = []) ∧
      picking.Binds (bindTemplates picking.templates [.keyword "int"]) ["T"] ∧
      ((Table.ofList [("K", TypeExpr.keyword "string")]).Holds fun _ t => t.templateNames = []) ∧
      picking.Binds (bindTemplatesByName picking.templates
        (Table.ofList [("K", .keyword "string")])) ["K"] :=
  have hargs : ∀ t ∈ [TypeExpr.keyword "int"], t.templateNames = [] := by decide
  have hnamed : (Table.ofList [("K", TypeExpr.keyword "string")]).Holds fun _ t =>
      t.templateNames = [] := by decide
  ⟨hargs, (instantiateOwn_binds picking).1 _ hargs, hnamed,
    (instantiateOwn_binds picking).2 _ hnamed⟩

/-- The bound template parameter is left in the declared result type and in the bound of the
other. -/
theorem instantiateOwn_leaves_bound :
    "T" ∈ (picking.templates.map (·.name)).take [TypeExpr.keyword "int"].length ∧
      "T" ∈ (picking.instantiateOwn (bindTemplates picking.templates
        [.keyword "int"])).nativeReturnType.toList.flatMap TypeExpr.templateNames ∧
      "T" ∈ (boundTypes (picking.instantiateOwn (bindTemplates picking.templates
        [.keyword "int"])).templates).flatMap TypeExpr.templateNames := by
  decide

/-! ### The order of instantiation -/

/-- **Order of instantiation.** Template parameters of the class and those of the signature may be
bound in either order if and only if no type that is put in for the former has one of the latter.
All types are ordinary, and none that is put in is empty. -/
theorem instantiate_comm_iff (s : Signature) (outer own : Table TypeExpr)
    (hs : ∀ t ∈ s.bodyTypes, Ordinary t)
    (houter : outer.Holds fun name u => s.template? name = none ∧ Ordinary u ∧ Nonvoid u)
    (hown : own.Holds fun name u => (s.template? name).isSome = true ∧ Ordinary u ∧ Nonvoid u ∧
      u.templateNames = []) :
    (s.instantiateOuter outer).instantiateOwn own = (s.instantiateOwn own).instantiateOuter outer ↔
      ∀ t ∈ s.bodyTypes, NoCapture outer own t := by
  have hlater : outer.Holds fun name _ => (s.instantiateOwn own).template? name = none := by
    intro name u hu
    refine find?_eq_none.mpr fun t ht => ?_
    rw [instantiateOwn_eq] at ht
    exact find?_eq_none.mp (houter name u hu).1 t (mem_filter.mp ht).1
  have hapart : outer.Holds fun name _ => own.get? name = none := by
    intro name u hu
    cases hget : own.get? name with
    | none => rfl
    | some v =>
      have hsome := (hown name v hget).1
      rw [(houter name u hu).1] at hsome
      cases hsome
  have houterTypes : OrdinaryBindings outer := fun name u hu => (houter name u hu).2.1
  have hownTypes : OrdinaryBindings own := fun name u hu => (hown name u hu).2.1
  have houterFirst : (s.instantiateOuter outer).instantiateOwn own =
      (s.withoutBound own).mapTypes (TypeExpr.substitute own ∘ TypeExpr.substitute outer) := by
    rw [instantiateOuter_eq fun name u hu => (houter name u hu).1, instantiateOwn_eq,
      ← mapTypes_mapTypes]
    rfl
  have hownFirst : (s.instantiateOwn own).instantiateOuter outer =
      (s.withoutBound own).mapTypes (TypeExpr.substitute outer ∘ TypeExpr.substitute own) := by
    rw [instantiateOuter_eq hlater, instantiateOwn_eq, mapTypes_mapTypes]
  rw [houterFirst, hownFirst, mapTypes_eq_iff]
  refine forall₂_congr fun t ht => ?_
  have hordinary : Ordinary t := hs t ht
  rw [Function.comp_apply, Function.comp_apply, TypeExpr.substitute_eq_replace hordinary,
    TypeExpr.substitute_eq_replace hordinary,
    TypeExpr.substitute_eq_replace (TypeExpr.ordinary_replace houterTypes hordinary),
    TypeExpr.substitute_eq_replace (TypeExpr.ordinary_replace hownTypes hordinary)]
  exact TypeExpr.replace_comm_iff houterTypes hownTypes hapart
    (fun name u hu => (hown name u hu).2.2.2) (fun name u hu => (houter name u hu).2.2)
    (fun name u hu => (hown name u hu).2.2.1) hordinary

/-- A method with the template parameter `U`, in a class with the template parameter `T`. -/
def eitherOf : Signature where
  templates := [{ name := "U" }]
  parameters := [{ name := "items", type := .generic "list" [.template "T" none] }]
  returnType := .union [.template "T" none, .template "U" none]

theorem instantiate_comm_iff_eitherOf : (∀ t ∈ eitherOf.bodyTypes, Ordinary t) ∧
      (eitherOf.instantiateOuter
          (Table.ofList [("T", .nullable (.template "V" none))])).instantiateOwn
          (Table.ofList [("U", .keyword "int")]) =
        (eitherOf.instantiateOwn (Table.ofList [("U", .keyword "int")])).instantiateOuter
          (Table.ofList [("T", .nullable (.template "V" none))]) := by
  have hs : ∀ t ∈ eitherOf.bodyTypes, Ordinary t := by decide +kernel
  refine ⟨hs, (instantiate_comm_iff eitherOf _ _ hs ?_ ?_).mpr ?_⟩ <;> decide +kernel

/-- If a class below binds `T` to its own template parameter `U`, the method's `U` captures it. -/
theorem instantiate_captures :
    ((Table.ofList [("T", TypeExpr.template "U" none)]).Holds fun name _ =>
        eitherOf.template? name = none) ∧
      ((Table.ofList [("U", TypeExpr.keyword "int")]).Holds fun name u =>
        (eitherOf.template? name).isSome = true ∧ u.templateNames = []) ∧
      ((eitherOf.instantiateOuter (Table.ofList [("T", .template "U" none)])).instantiateOwn
        (Table.ofList [("U", .keyword "int")])).returnType = .keyword "int" ∧
      ((eitherOf.instantiateOwn (Table.ofList [("U", .keyword "int")])).instantiateOuter
        (Table.ofList [("T", .template "U" none)])).returnType =
          .union [.template "U" none, .keyword "int"] :=
  ⟨by decide, by decide, by with_unfolding_all rfl, by with_unfolding_all rfl⟩

-- An empty type is dropped beside another alternative, and kept beside null.
example :
    ((eitherOf.instantiateOuter (Table.ofList [("T", .never)])).instantiateOwn
        (Table.ofList [("U", .null)])).returnType = .null ∧
      ((eitherOf.instantiateOwn (Table.ofList [("U", .null)])).instantiateOuter
        (Table.ofList [("T", .never)])).returnType = .nullable .never :=
  ⟨by with_unfolding_all rfl, by with_unfolding_all rfl⟩

end Signature

end StubCatalog
