import StubCatalog.Proofs.TypeExpr.Templates

/-! # Unions as joins, substitutions one after another

Up to equality a union depends only on the set of its members (`unionOf_isJoin`), and the empty type
is dropped beside every other member but null. Substitutions compose (`substitute_substitute`). -/

namespace StubCatalog.TypeExpr

open List

section
variable {xs ys : List TypeExpr}

theorem among_of_subset (hxs : ∀ t ∈ xs, Ordinary t) (h : xs ⊆ ys) : Among xs ys :=
  fun t ht => ⟨t, h ht, (hxs t ht).same_self⟩

theorem same_unionOf_of_subset (hxs : ∀ t ∈ xs, Ordinary t) (h : xs ⊆ ys) (h' : ys ⊆ xs) :
    (unionOf xs).same (unionOf ys) := by
  have hys : ∀ t ∈ ys, Ordinary t := fun t ht => hxs t (h' ht)
  exact same_unionOf hxs hys (among_of_subset hxs h) (among_of_subset hys h')

/-- **Unions are joins.** The union of a list is the same for every order of it and for the list
twice over, and the union of two unions is the union of all their members. -/
theorem unionOf_isJoin (hxs : ∀ t ∈ xs, Ordinary t) (hys : ∀ t ∈ ys, Ordinary t) (hx : xs ≠ [])
    (hy : ys ≠ []) :
    (∀ zs, xs.Perm zs → (unionOf xs).same (unionOf zs) = true) ∧
      (unionOf (xs ++ xs)).same (unionOf xs) = true ∧
      (unionOf [unionOf xs, unionOf ys]).same (unionOf (xs ++ ys)) = true := by
  refine ⟨fun zs h => same_unionOf_of_subset hxs h.subset h.symm.subset, ?_, ?_⟩
  · have htwice : ∀ t ∈ xs ++ xs, Ordinary t := fun t ht => hxs t (by simpa using ht)
    exact same_unionOf_of_subset htwice (fun t ht => by simpa using ht)
      (subset_append_left xs xs)
  · have hgroups : ∀ ts ∈ [xs, ys], ts ≠ [] ∧ ∀ t ∈ ts, Ordinary t := by
      simpa using ⟨⟨hx, hxs⟩, hy, hys⟩
    have hall : ∀ t ∈ xs ++ ys, Ordinary t := fun t ht =>
      (mem_append.mp ht).elim (hxs t) (hys t)
    have hnested : unionOf [unionOf xs, unionOf ys] = unionOf (xs ++ ys) := by
      rw [show [unionOf xs, unionOf ys] = [xs, ys].map unionOf from rfl,
        unionOf_map_unionOf hgroups, flatten_cons, flatten_singleton]
    rw [hnested]
    exact (canonicalClass_ordinary.unionOf hall).same_self

/-- A class written in two ways, null in two places, and the empty type. -/
theorem unionOf_isJoin_items : (unionOf [.named "Item", .nullable (.keyword "int"), null]).same
        (unionOf [null, .named "Item", .nullable (.keyword "int")]) = true ∧
      (unionOf [unionOf [.named "Item", .nullable (.keyword "int"), null],
          unionOf [never, .named "ITEM"]]).same
        (unionOf [.named "Item", .nullable (.keyword "int"), null, never, .named "ITEM"]) =
        true := by
  have h := @unionOf_isJoin [.named "Item", .nullable (.keyword "int"), null]
    [never, .named "ITEM"] (by decide +kernel) (by decide +kernel) (by simp) (by simp)
  exact ⟨h.1 _ (@perm_append_comm _ [_, _] [null]), h.2.2⟩

/-! ### The empty type -/

theorem offered_null (h : ∀ t ∈ xs, t = null) (hne : xs ≠ []) :
    (offered xs).any isNull ∧ (offered xs).any isNever = false ∧ remaining xs = [] := by
  have hself : offered xs = xs := flatMap_eq_self fun t ht => by rw [h t ht]; rfl
  rw [remaining, hself]
  refine ⟨?_, any_eq_false.mpr fun t ht => ?_, ?_⟩
  · obtain ⟨t, ht⟩ := exists_mem_of_ne_nil xs hne
    exact any_eq_true.mpr ⟨t, ht, by rw [h t ht]; rfl⟩
  · rw [h t ht]
    decide
  · rw [filter_eq_nil_iff.mpr fun t ht => by rw [h t ht]; decide]
    rfl

theorem unionOf_eq_null (h : ∀ t ∈ xs, t = null) (hne : xs ≠ []) : unionOf xs = null := by
  have hordinary : ∀ t ∈ xs, Ordinary t := fun t ht => h t ht ▸ canonicalClass_ordinary.null
  obtain ⟨hnull, hnever, hremaining⟩ := offered_null h hne
  rw [unionOf_eq_assembled hordinary, hnull, hnever, hremaining]
  rfl

theorem exists_ne_null {t : TypeExpr} (ht : Ordinary t) (hne : t ≠ null) :
    ∃ u ∈ alternatives t, u ≠ null := by
  refine Classical.byContradiction fun hnone => hne ?_
  have hnull : ∀ u ∈ alternatives t, u = null := fun u hu =>
    Classical.byContradiction fun h => hnone ⟨u, hu, h⟩
  rw [← unionOf_alternatives ht, unionOf_eq_null hnull (alternatives_ne_nil ht)]

/-- **The empty type is dropped from a union** beside everything but null alone: there it stays, and
the result is the empty type made nullable. -/
theorem same_unionOf_append_never_iff (hxs : ∀ t ∈ xs, Ordinary t) :
    (unionOf (xs ++ [never])).same (unionOf xs) = true ↔ ¬ (xs ≠ [] ∧ ∀ t ∈ xs, t = null) := by
  have hnever : Ordinary never := canonicalClass_ordinary.never
  have hall : ∀ t ∈ xs ++ [never], Ordinary t := by
    simpa [or_imp, forall_and] using ⟨hxs, hnever⟩
  have hoffered : offered (xs ++ [never]) = offered xs ++ [never] := by
    rw [offered, flatMap_append]
    rfl
  have hremaining : remaining (xs ++ [never]) = remaining xs := by
    rw [remaining, hoffered, filter_append]
    exact congrArg distinct (append_nil _)
  have hnull : (offered (xs ++ [never])).any isNull = (offered xs).any isNull := by
    rw [hoffered, any_append]
    exact Bool.or_false _
  have hlast : (offered (xs ++ [never])).any isNever = true := by
    rw [hoffered]
    exact any_eq_true.mpr ⟨never, by simp, rfl⟩
  constructor
  · rintro h ⟨hne, honly⟩
    obtain ⟨hnull', -, hremaining'⟩ := offered_null honly hne
    rw [unionOf_eq_assembled hall, hlast, hnull, hremaining, hnull', hremaining',
      unionOf_eq_null honly hne] at h
    simp [assembled, collected, same] at h
  · intro h
    have hsame : unionOf (xs ++ [never]) = unionOf xs := by
      by_cases hne : xs = []
      · rw [hne]
        rfl
      -- a member other than null offers the empty type already, or something beside which it goes
      obtain ⟨t, ht, htnull⟩ : ∃ t ∈ xs, t ≠ null := by
        simpa [hne] using h
      obtain ⟨u, hu, hunull⟩ := exists_ne_null (hxs t ht) htnull
      have hmem : u ∈ offered xs := mem_flatMap.mpr ⟨t, ht, hu⟩
      refine unionOf_congr hall hxs hnull hremaining fun hnil => ?_
      rcases cases_of_mem_offered hxs hmem with rfl | rfl | halternative
      · exact absurd rfl hunull
      · rw [hlast, any_eq_true.mpr ⟨never, hmem, rfl⟩]
      · have hfilter := eq_nil_of_distinct hnil
        exact absurd halternative (by simpa using filter_eq_nil_iff.mp hfilter u hmem)
    rw [hsame]
    exact (canonicalClass_ordinary.unionOf hxs).same_self

/-- Beside null alone the empty type stays. -/
theorem unionOf_keeps_never :
    unionOf ([null] ++ [never]) = .nullable never ∧ unionOf [null] = null ∧
      (unionOf ([null] ++ [never])).same (unionOf [null]) = false :=
  ⟨rfl, rfl, by with_unfolding_all rfl⟩

theorem same_unionOf_append_never_iff_nullable :
    (unionOf ([null, .nullable (.keyword "int")] ++ [never])).same
      (unionOf [null, .nullable (.keyword "int")]) = true :=
  (@same_unionOf_append_never_iff [null, .nullable (.keyword "int")] (by decide +kernel)).mpr
    (by simp)

end

/-- **Substitutions compose.** To replace template parameters by one table and then by another is to
replace them once: those of the first by what the second makes of their values, and those of the
second alone by its values. The first must not bind anything to the empty type, alone or made
nullable, which would be dropped beside members that the second turns into null. -/
theorem substitute_substitute {first second both : Table TypeExpr} {t : TypeExpr}
    (hfirst : OrdinaryBindings first) (hsecond : OrdinaryBindings second) (ht : Ordinary t)
    (hvoid : first.Holds fun _ u => u ≠ never ∧ u ≠ .nullable never)
    (hboth : ∀ name, both.get? name =
      ((first.get? name).map (substitute second)).or (second.get? name)) :
    substitute second (substitute first t) = substitute both t ∧
      (substitute second (substitute first t)).same (substitute both t) = true := by
  have hnonvoid : first.Holds fun _ => Nonvoid := fun name u hu =>
    Classical.byContradiction fun h =>
      (eq_of_not_nonvoid (hfirst name u hu) h).elim (hvoid name u hu).1 (hvoid name u hu).2
  have hreplaced : Ordinary (replace first t) := ordinary_replace hfirst ht
  have heq : substitute second (substitute first t) = substitute both t := by
    rw [substitute_eq_replace ht, substitute_eq_replace ht, substitute_eq_replace hreplaced]
    refine replace_replace_eq hfirst hnonvoid hsecond ht fun name bound _ => ?_
    rw [replace_template, replace_template, hboth]
    cases hget : first.get? name.text with
    | none => exact replace_template second name bound
    | some u => exact (substitute_eq_replace (hfirst _ u hget)).symm
  refine ⟨heq, ?_⟩
  rw [← heq, substitute_eq_replace ht, substitute_eq_replace hreplaced]
  exact (ordinary_replace hsecond hreplaced).same_self

/-- The second table turns a value of the first into the empty type and binds a name of its own. -/
theorem substitute_substitute_entries : (substitute (.ofList [("U", never), ("S", .keyword "int")])
      (substitute (.ofList [("T", .nullable (.template "U" none))])
        (.union [.template "T" none, .generic "list" [.template "S" none]]))).same
      (substitute (.ofList [("U", never), ("S", .keyword "int"), ("T", .nullable never)])
        (.union [.template "T" none, .generic "list" [.template "S" none]])) = true := by
  refine (substitute_substitute (by decide +kernel) (by decide +kernel) (by decide +kernel)
    (Table.holds_ofList (by simp)) fun name => ?_).2
  rw [← Table.get?_map, ← Table.get?_union]
  exact congrArg (Table.get? · name) (Table.eq_of_pairs (by with_unfolding_all rfl))

/-! ### Equality -/

theorem among_of_paired {ts us : List TypeExpr} (h : Paired ts us) : Among ts us := by
  induction h with
  | nil => simp [Among]
  | cons htu _ ih =>
    refine forall_mem_cons.mpr ⟨⟨_, by simp, htu⟩, fun t ht => ?_⟩
    obtain ⟨u, hu, htu⟩ := ih t ht
    exact ⟨u, by simp [hu], htu⟩

/-- What equality of types looks at: members as sets, names of classes without regard to case, and
neither the bounds of template parameters nor the reasons of unknown types. -/
structure ComparesParts : Prop where
  union : ∀ ts us, (TypeExpr.union ts).same (.union us) ↔ Among ts us ∧ ∀ u ∈ us, ∃ t ∈ ts, t.same u
  intersection : ∀ ts us, (TypeExpr.intersection ts).same (.intersection us) ↔
    Among ts us ∧ ∀ u ∈ us, ∃ t ∈ ts, t.same u
  named : ∀ m n, (TypeExpr.named m).same (.named n) ↔ Text.lower m = Text.lower n
  generic : ∀ m n ts us, (TypeExpr.generic m ts).same (.generic n us) ↔
    Text.lower m = Text.lower n ∧ Paired ts us
  template : ∀ (name : String) b b', (TypeExpr.template name b).same (.template name b')
  unknown : ∀ r r', (TypeExpr.unknown r).same (.unknown r')

theorem comparesParts : ComparesParts where
  union ts us := by rw [same, isCovering_iff]
  intersection ts us := by rw [same, isCovering_iff]
  named m n := by rw [same, beq_iff_eq]
  generic m n ts us := by rw [same, Bool.and_eq_true, beq_iff_eq, sameList_iff]
  template name b b' := by
    rw [same]
    exact (Label.same_iff rfl rfl).mpr rfl
  unknown r r' := by rw [same]

/-- **Equality of types is an equivalence**, and it is respected by unions, intersections and
substitutions of types in canonical form. Only a type with a decimal that is no number may differ
from itself. -/
theorem same_equivalence : ComparesParts ∧
    (∀ a, Regular a → Everywhere (fun t => t.isNumberNode = true) a → a.same a = true) ∧
    (∀ a b, Regular a → Regular b → a.same b = true → b.same a = true) ∧
    (∀ a b c, Regular a → Regular b → Regular c → a.same b = true → b.same c = true →
      a.same c = true) ∧
    (∀ ts us, (∀ t ∈ ts, Ordinary t) → (∀ u ∈ us, Ordinary u) → Paired ts us →
      (unionOf ts).same (unionOf us) = true ∧ (intersectionOf ts).same (intersectionOf us) = true) ∧
    ∀ b b' t u, OrdinaryBindings b → OrdinaryBindings b' → SameBindings b b' → Ordinary t →
      Ordinary u → t.same u = true → (substitute b t).same (substitute b' u) = true := by
  refine ⟨comparesParts, fun _ => same_refl, fun _ _ => same_symm, fun _ _ _ => same_trans,
    fun ts us hts hus h => ?_, fun b b' t u hb hb' hsame ht hu h => ?_⟩
  · have hback : Paired us ts :=
      Matched.symm (show Matched false ts us from h) fun t ht u hu => (hts t ht).same_symm (hus u hu)
    exact ⟨same_unionOf hts hus (among_of_paired h) (among_of_paired hback),
      same_intersectionOf hts hus (among_of_paired h) (among_of_paired hback)⟩
  · rw [substitute_eq_replace ht, substitute_eq_replace hu]
    exact same_replace hb hb' hsame ht hu h

/-- Two spellings of a union, in two orders and with two bounds, and two spellings of a binding. -/
theorem same_equivalence_spellings : (substitute (.ofList [("T", .named "Box")])
      (.union [.template "T" (some (.keyword "int")), .generic "List" [.named "Item"]])).same
      (substitute (.ofList [("T", .named "BOX")])
        (.union [.generic "list" [.named "ITEM"], .template "T" none])) = true := by
  refine same_equivalence.2.2.2.2.2 _ _ _ _ (by decide +kernel) (by decide +kernel) (fun name => ?_)
    (by decide +kernel) (by decide +kernel) (by decide +kernel)
  simp only [Table.ofList, foldl_cons, foldl_nil, Table.get?_insert]
  split
  · exact .some (by decide +kernel)
  · exact .none

end StubCatalog.TypeExpr
