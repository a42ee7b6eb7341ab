import StubCatalog.Proofs.TypeExpr.Comparison
import StubCatalog.Proofs.TypeExpr.Equivalence

/-! # Laws of unions and intersections

A union of ordinary types is determined by whether null is offered, whether the empty type is, and
which other alternatives there are, in the order of their first occurrence (`unionOf_congr`); an
intersection by its members alone. -/

namespace StubCatalog.TypeExpr

open List

variable {p : TypeExpr → Bool} {t u : TypeExpr} {ts : List TypeExpr}

/-! ### Null, the empty type and the others -/

section
variable {t u : TypeExpr}

theorem eq_keyword_of_text {name : Label} {s : String} (h : name.isText)
    (hs : name.text = s) : name = s := by
  obtain ⟨s', rfl⟩ := Label.exists_of_isText h
  exact congrArg (fun s : String => (s : Label)) hs

theorem Regular.eq_null (h : Regular t) (hnull : t.isNull) : t = null := by
  cases t with
  | keyword name => rw [eq_keyword_of_text h.here (beq_iff_eq.mp hnull)]
  | _ => simp [isNull] at hnull

theorem eq_null (h : Ordinary t) (hnull : t.isNull) : t = null := h.regular.eq_null hnull

theorem eq_never (h : Ordinary t) (hnever : t.isNever) : t = never := by
  cases t with
  | keyword name => rw [eq_keyword_of_text h.here.2.1 (beq_iff_eq.mp hnever)]
  | _ => simp [isNever] at hnever

theorem Regular.isNull_isNever_of_same (ht : Regular t) (hu : Regular u) (h : t.same u) :
    t.isNull = u.isNull ∧ t.isNever = u.isNever := by
  cases t with
  | keyword name =>
    cases u with
    | keyword name' =>
      rw [same] at h
      rw [Label.eq_of_same ht.here hu.here h]
      exact ⟨rfl, rfl⟩
    | _ => simp [same] at h
  | _ =>
    cases u with
    | keyword name' => simp [same] at h
    | _ => exact ⟨rfl, rfl⟩

theorem isNull_isNever_of_same (h : t.same u) (ht : Ordinary t) (hu : Ordinary u) :
    t.isNull = u.isNull ∧ t.isNever = u.isNever :=
  ht.regular.isNull_isNever_of_same hu.regular h

theorem isAlternative_of_same (h : t.same u) (ht : Ordinary t) (hu : Ordinary u) :
    t.isAlternative = u.isAlternative := by
  obtain ⟨hnull, hnever⟩ := isNull_isNever_of_same h ht hu
  rw [isAlternative, isAlternative, hnull, hnever, (same_kind h).1]

end

theorem any_of_among {us : List TypeExpr} (hts : ∀ t ∈ ts, Ordinary t)
    (hus : ∀ u ∈ us, Ordinary u) (hp : ∀ t u, t.same u → Ordinary t → Ordinary u → p t = p u)
    (h : Among ts us) (hany : ts.any p) : us.any p := by
  obtain ⟨t, ht, hpt⟩ := any_eq_true.mp hany
  obtain ⟨u, hu, htu⟩ := h t ht
  exact any_eq_true.mpr ⟨u, hu, by rw [← hp t u htu (hts t ht) (hus u hu), hpt]⟩

theorem any_congr_among {us : List TypeExpr} (hts : ∀ t ∈ ts, Ordinary t)
    (hus : ∀ u ∈ us, Ordinary u) (hp : ∀ t u, t.same u → Ordinary t → Ordinary u → p t = p u)
    (h : Among ts us) (h' : Among us ts) : ts.any p = us.any p := by
  rw [Bool.eq_iff_iff]
  exact ⟨any_of_among hts hus hp h, any_of_among hus hts hp h'⟩

/-! ### Alternatives -/

section
variable {t u : TypeExpr}

theorem Ordinary.alternatives (h : Ordinary (.union ts)) : Alternatives ts :=
  h.here.1

theorem Ordinary.takesNull (h : Ordinary (.nullable t)) : t.takesNull := h.here.1

theorem ordinary_of_mem_alternatives (ht : Ordinary t) (hu : u ∈ alternatives t) : Ordinary u :=
  (canonicalClass_ordinary.of_mem_alternatives ht hu).1

theorem alternatives_ne_nil (ht : Ordinary t) : alternatives t ≠ [] := by
  cases t with
  | nullable t => simp [alternatives_nullable ht.takesNull]
  | union ts =>
    rw [alternatives_union ht.alternatives.plain]
    obtain ⟨t, u, us, rfl⟩ := exists_cons_cons ht.alternatives.many
    simp
  | _ => simp [alternatives, nullParts, unionParts]

theorem respects_alternatives : Respects alternatives where
  ordinary := ordinary_of_mem_alternatives
  among {t u} ht hu h := by
    induction t, ht using canonicalClass_ordinary.alternativesInduction generalizing u with
    | single t _ hlike =>
      rw [alternatives_eq hlike, alternatives_eq ((same_kind h).1 ▸ hlike)]
      exact fun v hv => ⟨u, by simp, by simp_all⟩
    | union ts _ hts =>
      cases u with
      | union us =>
        rw [same, isCovering_iff] at h
        rw [alternatives_union hts.plain, alternatives_union hu.alternatives.plain]
        exact h.1
      | _ => simp [same] at h
    | nullable t _ htakes ih =>
      cases u with
      | nullable u =>
        rw [same] at h
        rw [alternatives_nullable htakes, alternatives_nullable hu.takesNull]
        intro x hx
        rcases mem_cons.mp hx with rfl | hx
        · exact ⟨null, by simp, canonicalClass_ordinary.null.same_self⟩
        · obtain ⟨y, hy, hxy⟩ := ih (hu.inside (by simp [parts, children])) h x hx
          exact ⟨y, by simp [hy], hxy⟩
      | _ => simp [same] at h

end

/-! ### What a union is made of -/

/-- All alternatives of the types. -/
abbrev offered (ts : List TypeExpr) : List TypeExpr := ts.flatMap alternatives

/-- The alternatives of the types that are neither null nor empty, without repetitions. -/
def remaining (ts : List TypeExpr) : List TypeExpr :=
  distinct ((offered ts).filter isAlternative)

/-- One type stands for itself; several are put together. -/
def collected (none : TypeExpr) (many : List TypeExpr → TypeExpr) : List TypeExpr → TypeExpr
  | [] => none
  | [t] => t
  | ts => many ts

section
variable {ts us : List TypeExpr}

section
variable (hts : ∀ t ∈ ts, Ordinary t)
include hts

theorem of_mem_offered (hu : u ∈ offered ts) :
    Ordinary u ∧ u.isUnionLike = false := by
  obtain ⟨t, ht, hu⟩ := mem_flatMap.mp hu
  exact canonicalClass_ordinary.of_mem_alternatives (hts t ht) hu

theorem of_mem_remaining (hu : u ∈ remaining ts) :
    Ordinary u ∧ u.isAlternative := by
  obtain ⟨hu, halternative⟩ := mem_filter.mp (mem_of_mem_distinct hu)
  exact ⟨(of_mem_offered hts hu).1, halternative⟩

theorem cases_of_mem_offered (hu : u ∈ offered ts) :
    u = null ∨ u = never ∨ u.isAlternative := by
  obtain ⟨hordinary, hlike⟩ := of_mem_offered hts hu
  cases hnull : u.isNull with
  | true => exact Or.inl (eq_null hordinary hnull)
  | false =>
    cases hnever : u.isNever with
    | true => exact Or.inr (Or.inl (eq_never hordinary hnever))
    | false => exact Or.inr (Or.inr (isAlternative_iff.mpr ⟨hlike, hnull, hnever⟩))

theorem ordinary_filter_offered (p : TypeExpr → Bool) :
    ∀ t ∈ (offered ts).filter p, Ordinary t :=
  fun _ ht => (of_mem_offered hts (mem_filter.mp ht).1).1

theorem exists_same_remaining (hu : u ∈ offered ts)
    (halternative : u.isAlternative) : ∃ v ∈ remaining ts, u.same v :=
  among_distinct (ordinary_filter_offered hts _) u (mem_filter.mpr ⟨hu, halternative⟩)

theorem any_isNever_distinct :
    (distinct ((offered ts).filter (!·.isNull))).any isNever = (offered ts).any isNever := by
  have hordinary := ordinary_filter_offered hts (!·.isNull)
  rw [Bool.eq_iff_iff, any_eq_true, any_eq_true]
  constructor
  · rintro ⟨t, ht, hnever⟩
    exact ⟨t, (mem_filter.mp (mem_of_mem_distinct ht)).1, hnever⟩
  · rintro ⟨t, ht, hnever⟩
    obtain rfl := eq_never (of_mem_offered hts ht).1 hnever
    have hmem : never ∈ (offered ts).filter (!·.isNull) := mem_filter.mpr ⟨ht, rfl⟩
    obtain ⟨u, hu, hsame⟩ := exists_same_distinct hordinary hmem
    have hu' := hordinary u (mem_of_mem_distinct hu)
    exact ⟨u, hu, (isNull_isNever_of_same hsame hu' canonicalClass_ordinary.never).2⟩

theorem dropNever_distinct :
    dropNever (distinct ((offered ts).filter (!·.isNull))) =
      if remaining ts = [] ∧ (offered ts).any isNever then [never] else remaining ts := by
  have hordinary := ordinary_filter_offered hts (!·.isNull)
  have hfilter : ((offered ts).filter (!·.isNull)).filter (!·.isNever) =
      (offered ts).filter isAlternative := by
    rw [filter_filter]
    refine filter_congr fun t ht => ?_
    rw [isAlternative, (of_mem_offered hts ht).2]
    simp [Bool.and_comm]
  have hremaining : (distinct ((offered ts).filter (!·.isNull))).filter (!·.isNever) =
      remaining ts := by
    rw [distinct, filter_distinctFrom hordinary, hfilter]
    · rfl
    · intro t u h ht hu
      rw [(isNull_isNever_of_same h ht hu).2]
  have hnever := any_isNever_distinct hts
  have hapart := pairwise_distinct ((offered ts).filter (!·.isNull))
  have hmem := fun t ht => hordinary t (mem_of_mem_distinct ht)
  generalize distinct ((offered ts).filter (!·.isNull)) = members at *
  rw [← hremaining, ← hnever]
  rcases members with _ | ⟨t, _ | ⟨u, us⟩⟩
  · rfl
  · cases ht : t.isNever with
    | true =>
      rw [eq_never (hmem t (by simp)) ht]
      rfl
    | false => simp [dropNever, ht]
  · -- two empty types would be equal, so one of the first two members remains
    have hne : (t :: u :: us).filter (!·.isNever) ≠ [] := by
      intro hnil
      have hall := fun v hv => filter_eq_nil_iff.mp hnil v hv
      simp only [Bool.not_eq_true', Bool.not_eq_false] at hall
      rw [eq_never (hmem t (by simp)) (hall t (by simp)),
        eq_never (hmem u (by simp)) (hall u (by simp))] at hapart
      have hself := canonicalClass_ordinary.never.same_self
      rw [(pairwise_cons.mp hapart).1 never (by simp)] at hself
      cases hself
    rw [if_neg fun h => hne h.1, dropNever, if_pos (by simp)]

/-- The union of members that remain, with null and the empty type as they are offered. -/
def assembled (orNull orNever : Bool) (members : List TypeExpr) : TypeExpr :=
  if orNull then
    if members = [] ∧ orNever = false then null else .nullable (collected never .union members)
  else collected never .union members

theorem unionOf_eq_assembled : unionOf ts =
      assembled ((offered ts).any isNull) ((offered ts).any isNever) (remaining ts) := by
  have hmember := fun t => of_mem_remaining (u := t) hts
  have hapart : (remaining ts).Pairwise fun t u => t.same u = false := pairwise_distinct _
  unfold unionOf assembled
  simp only [dropNever_distinct hts]
  generalize remaining ts = members at *
  match members with
  | [] => cases (offered ts).any isNull <;> cases (offered ts).any isNever <;> rfl
  | [t] =>
    obtain ⟨-, hlike, hnull, -⟩ := And.imp_right isAlternative_iff.mp (hmember t (by simp))
    simp [collected, mkNullable_eq (takesNull_of hlike hnull)]
  | t :: u :: us =>
    have hmembers : Alternatives (t :: u :: us) :=
      ⟨by simp, fun v hv => (hmember v hv).2, hapart⟩
    simp [collected, hmembers.mkUnion_eq, mkNullable]

theorem unionOf_congr (hus : ∀ t ∈ us, Ordinary t)
    (hnull : (offered ts).any isNull = (offered us).any isNull)
    (hremaining : remaining ts = remaining us)
    (hnever : remaining us = [] → (offered ts).any isNever = (offered us).any isNever) :
    unionOf ts = unionOf us := by
  rw [unionOf_eq_assembled hts, unionOf_eq_assembled hus, hnull, hremaining]
  by_cases hnil : remaining us = []
  · rw [hnever hnil]
  · simp [assembled, hnil]

omit hts in
theorem alternatives_collected {members : List TypeExpr} (hne : members ≠ [])
    (hmembers : ∀ t ∈ members, t.isAlternative) :
    alternatives (collected never .union members) = members ∧
      alternatives (.nullable (collected never .union members)) = null :: members := by
  match members with
  | [t] =>
    obtain ⟨hlike, hnull, -⟩ := isAlternative_iff.mp (hmembers t (by simp))
    have ht := alternatives_eq hlike
    exact ⟨ht, (alternatives_nullable (takesNull_of hlike hnull)).trans (congrArg (null :: ·) ht)⟩
  | t :: u :: us =>
    have ht := alternatives_union hmembers
    exact ⟨ht, (alternatives_nullable rfl).trans (congrArg (null :: ·) ht)⟩

theorem alternatives_unionOf (hne : ts ≠ []) :
    alternatives (unionOf ts) = (if (offered ts).any isNull then [null] else []) ++
      if remaining ts = [] ∧ (offered ts).any isNever then [never] else remaining ts := by
  rw [unionOf_eq_assembled hts, assembled]
  by_cases hnil : remaining ts = []
  · cases hnull : (offered ts).any isNull with
    | true => cases hnever : (offered ts).any isNever <;> simp [hnil, collected] <;> rfl
    | false =>
      -- something is offered, and it can only be the empty type
      have hnever : (offered ts).any isNever := by
        obtain ⟨t, us, rfl⟩ := exists_cons_of_ne_nil hne
        obtain ⟨u, hu⟩ := exists_mem_of_ne_nil _ (alternatives_ne_nil (hts t (by simp)))
        have hmem : u ∈ offered (t :: us) := mem_flatMap.mpr ⟨t, by simp, hu⟩
        rcases cases_of_mem_offered hts hmem with rfl | rfl | halternative
        · exact absurd hmem (fun h => any_eq_false.mp hnull null h rfl)
        · exact any_eq_true.mpr ⟨never, hmem, rfl⟩
        · obtain ⟨v, hv, -⟩ := exists_same_remaining hts hmem halternative
          exact absurd hnil (ne_nil_of_mem hv)
      simp [hnil, hnever, collected]
      rfl
  · obtain ⟨halone, hnullable⟩ :=
      alternatives_collected hnil fun t ht => (of_mem_remaining hts ht).2
    simp only [hnil, false_and, if_false]
    split
    · exact hnullable
    · exact halone

theorem offered_unionOf (hne : ts ≠ []) :
    (alternatives (unionOf ts)).any isNull = (offered ts).any isNull ∧
      (alternatives (unionOf ts)).filter isAlternative = remaining ts ∧
      (remaining ts = [] → (alternatives (unionOf ts)).any isNever = (offered ts).any isNever) := by
  have hnull : (remaining ts).any isNull = false :=
    any_eq_false.mpr fun t ht => by
      simp [(isAlternative_iff.mp (of_mem_remaining hts ht).2).2.1]
  have hself : (remaining ts).filter isAlternative = remaining ts :=
    filter_eq_self.mpr fun t ht => (of_mem_remaining hts ht).2
  rw [alternatives_unionOf hts hne]
  by_cases hnil : remaining ts = []
  · rw [hnil]
    cases (offered ts).any isNull <;> cases (offered ts).any isNever <;>
      exact ⟨rfl, rfl, fun _ => rfl⟩
  · simp only [hnil, false_and, if_false]
    refine ⟨?_, ?_, fun h => h.elim⟩
    · rw [any_append, hnull, Bool.or_false]
      cases (offered ts).any isNull <;> rfl
    · rw [filter_append, hself]
      cases (offered ts).any isNull <;> rfl

/-! ### Laws of unions -/

theorem offered_offered : offered (offered ts) = offered ts :=
  flatMap_eq_self fun _ hu => alternatives_eq (of_mem_offered hts hu).2

theorem unionOf_offered : unionOf (offered ts) = unionOf ts := by
  have h : (offered ts).flatMap alternatives = ts.flatMap alternatives := offered_offered hts
  rw [unionOf, h]
  rfl

end

theorem unionOf_alternatives (ht : Ordinary t) : unionOf (alternatives t) = t := by
  cases t with
  | nullable u =>
    have htakes := ht.takesNull
    rw [alternatives_nullable htakes]
    cases u with
    | nullable v => simp [takesNull] at htakes
    | union us =>
      have hus : Ordinary (.union us) := ht.inside (by simp [parts, children])
      rw [alternatives_union hus.alternatives.plain]
      exact unionOf_null_cons hus.alternatives
    | keyword name =>
      exact unionOf_eq_nullable (Or.inl rfl) rfl (by simpa [takesNull] using htakes)
    | _ => exact unionOf_eq_nullable (Or.inl rfl) rfl rfl
  | union ts =>
    rw [alternatives_union ht.alternatives.plain]
    exact unionOf_eq_union ht.alternatives
  | keyword name =>
    cases hnull : (keyword name).isNull with
    | true =>
      rw [eq_null ht hnull]
      rfl
    | false =>
      have hdrop : dropNever (distinct [.keyword name]) = [.keyword name] := rfl
      show unionOf [.keyword name] = .keyword name
      simp [unionOf, alternatives, nullParts, unionParts, hnull, hdrop]
  | _ => rfl

theorem unionOf_singleton (ht : Ordinary t) : unionOf [t] = t := by
  have hself : ∀ u ∈ [t], Ordinary u := by simpa using ht
  have hoffered := unionOf_offered hself
  rw [offered, flatMap_cons, flatMap_nil, append_nil, unionOf_alternatives ht]
    at hoffered
  exact hoffered.symm

theorem eq_nil_of_distinct (h : distinct ts = []) : ts = [] := by
  cases ts with
  | nil => rfl
  | cons t ts => simp [distinct, distinctFrom] at h

theorem distinct_flatMap_map {gather : List TypeExpr → TypeExpr} {g : TypeExpr → List TypeExpr}
    {tss : List (List TypeExpr)} (hgather : ∀ ts ∈ tss, g (gather ts) = distinct (ts.flatMap g))
    (hg : ∀ ts ∈ tss, ∀ t ∈ ts.flatMap g, Ordinary t) :
    distinct ((tss.map gather).flatMap g) = distinct (tss.flatten.flatMap g) := by
  have hmap : tss.map (fun ts => g (gather ts)) = (tss.map fun ts => ts.flatMap g).map distinct := by
    rw [map_map]
    exact map_congr_left hgather
  have hflatten : tss.flatten.flatMap g = (tss.map fun ts => ts.flatMap g).flatten := by
    simp only [flatMap_def, map_flatten, flatten_flatten, map_map]
    rfl
  rw [flatMap_map, flatMap_def, hmap, hflatten]
  exact @distinctFrom_flatten_map_distinct [] _ (by simp) (forall_mem_map.mpr hg)

theorem unionOf_map_unionOf {tss : List (List TypeExpr)}
    (htss : ∀ ts ∈ tss, ts ≠ [] ∧ ∀ t ∈ ts, Ordinary t) :
    unionOf (tss.map unionOf) = unionOf tss.flatten := by
  have hmap : ∀ t ∈ tss.map unionOf, Ordinary t :=
    forall_mem_map.mpr fun ts hts => canonicalClass_ordinary.unionOf (htss ts hts).2
  have hflatten : ∀ t ∈ tss.flatten, Ordinary t := by
    intro t ht
    obtain ⟨ts, hts, ht⟩ := mem_flatten.mp ht
    exact (htss ts hts).2 t ht
  have hparts := fun ts hts => offered_unionOf (htss ts hts).2 (htss ts hts).1
  have hremaining : remaining (tss.map unionOf) = remaining tss.flatten := by
    rw [remaining, remaining, filter_flatMap, filter_flatMap]
    refine distinct_flatMap_map (fun ts hts => ?_) fun ts hts t ht => ?_
    · rw [(hparts ts hts).2.1, remaining, filter_flatMap]
    · exact ordinary_filter_offered (htss ts hts).2 _ t (filter_flatMap ▸ ht)
  have hany : ∀ {p : TypeExpr → Bool},
      (∀ ts ∈ tss, (alternatives (unionOf ts)).any p = (offered ts).any p) →
      (offered (tss.map unionOf)).any p = (offered tss.flatten).any p := by
    intro p hp
    rw [Bool.eq_iff_iff]
    simp only [any_flatMap, any_map, any_flatten, any_eq_true,
      Function.comp_apply]
    exact exists_congr fun ts => and_congr_right fun hts => by
      simpa only [any_flatMap, any_eq_true] using Bool.eq_iff_iff.mp (hp ts hts)
  refine unionOf_congr hmap hflatten (hany fun ts hts => (hparts ts hts).1) hremaining
    fun hnil => hany fun ts hts => (hparts ts hts).2.2 ?_
  rw [remaining, filter_eq_nil_iff.mpr]
  · rfl
  · intro t ht
    obtain ⟨u, hu, ht⟩ := mem_flatMap.mp ht
    exact filter_eq_nil_iff.mp (eq_nil_of_distinct hnil) t
      (mem_flatMap.mpr ⟨u, mem_flatten.mpr ⟨ts, hts, hu⟩, ht⟩)

theorem unionOf_append_null (hts : ∀ t ∈ ts, Ordinary t) :
    unionOf (ts ++ [null]) = unionOf (null :: ts) := by
  have hnull : Ordinary null := canonicalClass_ordinary.null
  have hlast : offered (ts ++ [null]) = offered ts ++ [null] := by
    rw [offered, flatMap_append]
    rfl
  have hfirst : offered (null :: ts) = null :: offered ts := rfl
  refine unionOf_congr ?_ (forall_mem_cons.mpr ⟨hnull, hts⟩) ?_ ?_ fun _ => ?_
  · simpa [or_imp, forall_and] using ⟨hts, hnull⟩
  · rw [hlast, hfirst, any_append, any_cons, Bool.or_comm]
    rfl
  · rw [remaining, remaining, hlast, hfirst, filter_append]
    exact congrArg distinct (append_nil _)
  · rw [hlast, hfirst, any_append, any_cons, Bool.or_comm]
    rfl

/-- The type has no empty alternative: it is neither the empty type nor that type made nullable. -/
def Nonvoid (t : TypeExpr) : Prop := ∀ u ∈ alternatives t, u.isNever = false

theorem any_isNever_offered (h : ∀ t ∈ ts, Nonvoid t) : (offered ts).any isNever = false := by
  refine any_eq_false.mpr fun u hu => ?_
  obtain ⟨t, ht, hu⟩ := mem_flatMap.mp hu
  simp [h t ht u hu]

theorem flatMap_filter {g : TypeExpr → List TypeExpr} (h : ∀ t ∈ ts, p t = false → g t = []) :
    (ts.filter p).flatMap g = ts.flatMap g := by
  induction ts with
  | nil => rfl
  | cons t ts ih =>
    have ih := ih fun u hu => h u (by simp [hu])
    cases hp : p t with
    | true => rw [filter_cons_of_pos hp, flatMap_cons, flatMap_cons, ih]
    | false =>
      rw [filter_cons_of_neg (by simp [hp]), flatMap_cons, h t (by simp) hp, ih,
        nil_append]

section
variable (hts : ∀ t ∈ ts, Ordinary t) (hnonvoid : ∀ t ∈ ts, Nonvoid t)
include hts hnonvoid

theorem alternatives_unionOf_nonvoid (hne : ts ≠ []) : alternatives (unionOf ts) =
      (if (offered ts).any isNull then [null] else []) ++ remaining ts := by
  rw [alternatives_unionOf hts hne, any_isNever_offered hnonvoid]
  simp

theorem nonvoid_unionOf (hne : ts ≠ []) : Nonvoid (unionOf ts) := by
  intro u hu
  rw [alternatives_unionOf_nonvoid hts hnonvoid hne] at hu
  rcases mem_append.mp hu with hu | hu
  · obtain rfl : u = null := by
      cases hany : (offered ts).any isNull <;> simp_all
    rfl
  · exact (isAlternative_iff.mp (of_mem_remaining hts hu).2).2.2

theorem null_or_isAlternative (ht : t ∈ offered ts) : t = null ∨ t.isAlternative := by
  rcases cases_of_mem_offered hts ht with rfl | rfl | halternative
  · exact Or.inl rfl
  · exact absurd rfl (any_eq_false.mp (any_isNever_offered hnonvoid) never ht)
  · exact Or.inr halternative

theorem mem_offered_of_unionOf (hne : ts ≠ []) (ht : t ∈ alternatives (unionOf ts)) :
    t ∈ offered ts := by
  rw [alternatives_unionOf_nonvoid hts hnonvoid hne] at ht
  rcases mem_append.mp ht with ht | ht
  · split at ht
    · next hany =>
      obtain ⟨u, hu, hnull⟩ := any_eq_true.mp hany
      obtain rfl : t = null := by simpa using ht
      rwa [eq_null (of_mem_offered hts hu).1 hnull] at hu
    · simp at ht
  · exact (mem_filter.mp (mem_of_mem_distinct ht)).1

theorem offered_among_unionOf (hne : ts ≠ []) : Among (offered ts) (alternatives (unionOf ts)) := by
  intro t ht
  rw [alternatives_unionOf_nonvoid hts hnonvoid hne]
  rcases null_or_isAlternative hts hnonvoid ht with rfl | halternative
  · rw [if_pos (any_eq_true.mpr ⟨null, ht, rfl⟩)]
    exact ⟨null, by simp, canonicalClass_ordinary.null.same_self⟩
  · obtain ⟨u, hu, htu⟩ := exists_same_remaining hts ht halternative
    exact ⟨u, mem_append_right _ hu, htu⟩

theorem unionOf_map_alternatives {f : TypeExpr → TypeExpr} (hf : Respects fun t => [f t])
    (hnull : f null = null) (hne : ts ≠ []) :
    unionOf ((alternatives (unionOf ts)).map f) = unionOf ((offered ts).map f) := by
  have hg : Respects fun t => alternatives (f t) := respects_alternatives.comp hf
  have hoffered : ∀ us : List TypeExpr,
      offered (us.map f) = us.flatMap fun t => alternatives (f t) := fun us => flatMap_map ..
  have hfrom : ∀ t ∈ offered ts, Ordinary t := fun t ht => (of_mem_offered hts ht).1
  have hto : ∀ t ∈ alternatives (unionOf ts), Ordinary t := fun t ht =>
    hfrom t (mem_offered_of_unionOf hts hnonvoid hne ht)
  have hordinary : ∀ {us : List TypeExpr}, (∀ t ∈ us, Ordinary t) → ∀ t ∈ us.map f, Ordinary t :=
    fun hus => forall_mem_map.mpr fun t ht => hf.ordinary (hus t ht) (by simp)
  have hany : ∀ {p : TypeExpr → Bool}, (∀ t u, t.same u → Ordinary t → Ordinary u → p t = p u) →
      (offered ((alternatives (unionOf ts)).map f)).any p =
        (offered ((offered ts).map f)).any p := by
    intro p hp
    refine any_congr_among (fun t ht => (of_mem_offered (hordinary hto) ht).1)
      (fun t ht => (of_mem_offered (hordinary hfrom) ht).1) hp ?_ ?_
    · rw [hoffered, hoffered]
      exact hg.among_flatMap hto hfrom fun t ht =>
        ⟨t, mem_offered_of_unionOf hts hnonvoid hne ht, (hto t ht).same_self⟩
    · rw [hoffered, hoffered]
      exact hg.among_flatMap hfrom hto (offered_among_unionOf hts hnonvoid hne)
  refine unionOf_congr (hordinary hto) (hordinary hfrom)
    (hany fun t u h ht hu => (isNull_isNever_of_same h ht hu).1) ?_
    fun _ => hany fun t u h ht hu => (isNull_isNever_of_same h ht hu).2
  have hmembers : Respects fun t => (alternatives (f t)).filter isAlternative :=
    hg.filter fun _ _ => isAlternative_of_same
  have hnone : (alternatives (f null)).filter isAlternative = [] := by
    rw [hnull]
    rfl
  have hleft :
      (alternatives (unionOf ts)).flatMap (fun t => (alternatives (f t)).filter isAlternative) =
      (remaining ts).flatMap fun t => (alternatives (f t)).filter isAlternative := by
    rw [alternatives_unionOf_nonvoid hts hnonvoid hne, flatMap_append]
    cases (offered ts).any isNull with
    | true => simp [hnone]
    | false => rfl
  have hright : ((offered ts).filter isAlternative).flatMap
        (fun t => (alternatives (f t)).filter isAlternative) =
      (offered ts).flatMap fun t => (alternatives (f t)).filter isAlternative := by
    refine flatMap_filter fun t ht hnot => ?_
    rcases null_or_isAlternative hts hnonvoid ht with rfl | halternative
    · exact hnone
    · rw [halternative] at hnot
      cases hnot
  rw [remaining, remaining, hoffered, hoffered, filter_flatMap, filter_flatMap, hleft,
    ← hright]
  exact distinct_flatMap_distinct hmembers fun t ht => hfrom t (mem_filter.mp ht).1

end

/-! ### Equal members -/

theorem eq_nil_of_among_nil (h : Among ts []) : ts = [] :=
  eq_nil_iff_forall_not_mem.mpr fun t ht => by simpa using h t ht

theorem not_among_singleton {v : TypeExpr} {vs : List TypeExpr} (ht : Ordinary t)
    (hus : ∀ w ∈ u :: v :: vs, Ordinary w)
    (hapart : (u :: v :: vs).Pairwise fun t u => t.same u = false) :
    ¬ Among (u :: v :: vs) [t] := by
  intro h
  simp only [Among, mem_singleton, exists_eq_left] at h
  have hu := hus u (by simp)
  have hv := hus v (by simp)
  have huv := hu.same_trans ht hv (h u (by simp)) (hv.same_symm ht (h v (by simp)))
  rw [(pairwise_cons.mp hapart).1 v (by simp)] at huv
  cases huv

theorem same_collected {none : TypeExpr} {many : List TypeExpr → TypeExpr} (hnone : Ordinary none)
    (hmany : ∀ ts us, Among ts us → Among us ts → (∀ t ∈ ts, Ordinary t) → (∀ t ∈ us, Ordinary t) →
      (many ts).same (many us))
    (hts : ∀ t ∈ ts, Ordinary t) (hus : ∀ t ∈ us, Ordinary t)
    (htsApart : ts.Pairwise fun t u => t.same u = false)
    (husApart : us.Pairwise fun t u => t.same u = false) (h : Among ts us) (h' : Among us ts) :
    (collected none many ts).same (collected none many us) := by
  match ts, us with
  | [], [] => exact hnone.same_self
  | [], u :: us => cases eq_nil_of_among_nil h'
  | t :: ts, [] => cases eq_nil_of_among_nil h
  | [t], [u] => simpa [Among, collected] using h
  | [t], u :: v :: vs => exact absurd h' (not_among_singleton (hts t (by simp)) hus husApart)
  | u :: v :: vs, [t] => exact absurd h (not_among_singleton (hus t (by simp)) hts htsApart)
  | t :: t' :: ts, u :: u' :: us => exact hmany _ _ h h' hts hus

theorem same_many (many : List TypeExpr → TypeExpr)
    (hmany : ∀ ts us, (many ts).same (many us) = isCovering us.length (sameTable ts us))
    (ts us : List TypeExpr) (h : Among ts us) (h' : Among us ts) (hts : ∀ t ∈ ts, Ordinary t)
    (hus : ∀ t ∈ us, Ordinary t) : (many ts).same (many us) := by
  rw [hmany, isCovering_iff]
  refine ⟨h, fun u hu => ?_⟩
  obtain ⟨t, ht, hut⟩ := h' u hu
  exact ⟨t, ht, (hus u hu).same_symm (hts t ht) hut⟩

theorem among_remaining (hts : ∀ t ∈ ts, Ordinary t) (hus : ∀ t ∈ us, Ordinary t)
    (h : Among ts us) : Among (remaining ts) (remaining us) := by
  have hmembers : Respects fun t => (alternatives t).filter isAlternative :=
    respects_alternatives.filter fun _ _ => isAlternative_of_same
  rw [remaining, remaining, filter_flatMap, filter_flatMap]
  exact hmembers.among_distinct hts hus h

theorem same_unionOf (hts : ∀ t ∈ ts, Ordinary t) (hus : ∀ t ∈ us, Ordinary t) (h : Among ts us)
    (h' : Among us ts) : (unionOf ts).same (unionOf us) := by
  have hany : ∀ {p : TypeExpr → Bool}, (∀ t u, t.same u → Ordinary t → Ordinary u → p t = p u) →
      (offered ts).any p = (offered us).any p := fun hp =>
    any_congr_among (fun t ht => (of_mem_offered hts ht).1) (fun t ht => (of_mem_offered hus ht).1)
      hp (respects_alternatives.among_flatMap hts hus h)
      (respects_alternatives.among_flatMap hus hts h')
  have hnull := hany fun t u h ht hu => (isNull_isNever_of_same h ht hu).1
  have hnever := hany fun t u h ht hu => (isNull_isNever_of_same h ht hu).2
  have hremaining := among_remaining hts hus h
  have hremaining' := among_remaining hus hts h'
  have hcollected : (collected never .union (remaining ts)).same
      (collected never .union (remaining us)) :=
    same_collected canonicalClass_ordinary.never
      (same_many .union fun ts us => by rw [same]) (fun t ht => (of_mem_remaining hts ht).1)
      (fun t ht => (of_mem_remaining hus ht).1) (pairwise_distinct _) (pairwise_distinct _)
      hremaining hremaining'
  have hnil : remaining ts = [] ↔ remaining us = [] :=
    ⟨fun hnil => eq_nil_of_among_nil (hnil ▸ hremaining'),
      fun hnil => eq_nil_of_among_nil (hnil ▸ hremaining)⟩
  rw [unionOf_eq_assembled hts, unionOf_eq_assembled hus, assembled, assembled, hnull, hnever]
  simp only [hnil]
  split
  · split
    · exact canonicalClass_ordinary.null.same_self
    · rw [same]
      exact hcollected
  · exact hcollected

/-! ### Laws of intersections -/

/-- All members of the types, where intersections are taken apart. -/
abbrev combined (ts : List TypeExpr) : List TypeExpr := ts.flatMap intersectionParts

theorem of_mem_intersectionParts (ht : Ordinary t) (hu : u ∈ intersectionParts t) :
    Ordinary u ∧ u.isIntersection = false := by
  cases t with
  | intersection us =>
    obtain ⟨hus, hmembers⟩ := canonicalClass_ordinary.intersection.mp ht
    exact ⟨hmembers u hu, hus.plain u hu⟩
  | _ =>
    obtain rfl : u = _ := by simpa [intersectionParts] using hu
    exact ⟨ht, rfl⟩

theorem of_mem_combined (hts : ∀ t ∈ ts, Ordinary t) (hu : u ∈ combined ts) :
    Ordinary u ∧ u.isIntersection = false := by
  obtain ⟨t, ht, hu⟩ := mem_flatMap.mp hu
  exact of_mem_intersectionParts (hts t ht) hu

theorem respects_intersectionParts : Respects intersectionParts where
  ordinary ht hu := (of_mem_intersectionParts ht hu).1
  among {t u} _ _ h := by
    cases t with
    | intersection ts =>
      cases u with
      | intersection us =>
        rw [same, isCovering_iff] at h
        exact h.1
      | _ => simp [same] at h
    | _ =>
      have hkind := (same_kind h).2
      rw [intersectionParts_eq rfl, intersectionParts_eq (by rw [← hkind]; rfl)]
      exact fun v hv => ⟨u, by simp, by simp_all⟩

theorem intersectionOf_eq_collected (hts : ∀ t ∈ ts, Ordinary t) :
    intersectionOf ts = collected mixed .intersection (distinct (combined ts)) := by
  have hmember := fun t ht => (of_mem_combined (u := t) hts (mem_of_mem_distinct ht)).2
  have hapart := pairwise_distinct (combined ts)
  unfold intersectionOf
  generalize distinct (combined ts) = members at *
  match members with
  | [] => rfl
  | [t] => rfl
  | t :: u :: us =>
    show mkIntersection (t :: u :: us) = .intersection (t :: u :: us)
    exact Combination.mkIntersection_eq ⟨by simp, hmember, hapart⟩

theorem intersectionParts_ne_nil (ht : Ordinary t) : intersectionParts t ≠ [] := by
  cases t with
  | intersection ts =>
    obtain ⟨u, v, vs, rfl⟩ := exists_cons_cons (canonicalClass_ordinary.intersection.mp ht).1.many
    simp [intersectionParts]
  | _ => simp [intersectionParts]

theorem intersectionParts_intersectionOf (hts : ∀ t ∈ ts, Ordinary t) (hne : ts ≠ []) :
    intersectionParts (intersectionOf ts) = distinct (combined ts) := by
  have hnil : distinct (combined ts) ≠ [] := by
    intro hnil
    obtain ⟨t, us, rfl⟩ := exists_cons_of_ne_nil hne
    have := eq_nil_of_distinct hnil
    rw [combined, flatMap_cons, append_eq_nil_iff] at this
    exact intersectionParts_ne_nil (hts t (by simp)) this.1
  have hmember := fun t ht => (of_mem_combined (u := t) hts (mem_of_mem_distinct ht)).2
  rw [intersectionOf_eq_collected hts]
  generalize distinct (combined ts) = members at *
  match members with
  | [t] => exact intersectionParts_eq (hmember t (by simp))
  | t :: u :: us => rfl

theorem intersectionOf_singleton (ht : Ordinary t) : intersectionOf [t] = t := by
  cases t with
  | intersection ts =>
    have hts := (canonicalClass_ordinary.intersection.mp ht).1
    have hcombined : combined [.intersection ts] = ts := append_nil ts
    rw [intersectionOf_eq_collected (by simpa using ht), hcombined, distinct_eq_self hts.apart]
    obtain ⟨u, v, vs, rfl⟩ := exists_cons_cons hts.many
    rfl
  | _ => rfl

theorem intersectionOf_map_intersectionOf {tss : List (List TypeExpr)}
    (htss : ∀ ts ∈ tss, ts ≠ [] ∧ ∀ t ∈ ts, Ordinary t) :
    intersectionOf (tss.map intersectionOf) = intersectionOf tss.flatten := by
  have hmap : ∀ t ∈ tss.map intersectionOf, Ordinary t :=
    forall_mem_map.mpr fun ts hts => canonicalClass_ordinary.intersectionOf (htss ts hts).2
  have hflatten : ∀ t ∈ tss.flatten, Ordinary t := by
    intro t ht
    obtain ⟨ts, hts, ht⟩ := mem_flatten.mp ht
    exact (htss ts hts).2 t ht
  rw [intersectionOf_eq_collected hmap, intersectionOf_eq_collected hflatten]
  refine congrArg _ (distinct_flatMap_map (fun ts hts => ?_) fun ts hts t ht => ?_)
  · exact intersectionParts_intersectionOf (htss ts hts).2 (htss ts hts).1
  · exact (of_mem_combined (htss ts hts).2 ht).1

theorem intersectionOf_map_parts {f : TypeExpr → TypeExpr} (hf : Respects fun t => [f t])
    (hts : ∀ t ∈ ts, Ordinary t) (hne : ts ≠ []) :
    intersectionOf ((intersectionParts (intersectionOf ts)).map f) =
      intersectionOf ((combined ts).map f) := by
  have hcombined : ∀ us : List TypeExpr,
      combined (us.map f) = us.flatMap fun t => intersectionParts (f t) :=
    fun us => flatMap_map ..
  have hordinary : ∀ {us : List TypeExpr}, (∀ t ∈ us, Ordinary t) → ∀ t ∈ us.map f, Ordinary t :=
    fun hus => forall_mem_map.mpr fun t ht => hf.ordinary (hus t ht) (by simp)
  have hfrom : ∀ t ∈ combined ts, Ordinary t := fun t ht => (of_mem_combined hts ht).1
  rw [intersectionParts_intersectionOf hts hne,
    intersectionOf_eq_collected (hordinary fun t ht => hfrom t (mem_of_mem_distinct ht)),
    intersectionOf_eq_collected (hordinary hfrom), hcombined, hcombined,
    distinct_flatMap_distinct (respects_intersectionParts.comp hf) hfrom]

theorem same_intersectionOf (hts : ∀ t ∈ ts, Ordinary t) (hus : ∀ t ∈ us, Ordinary t)
    (h : Among ts us) (h' : Among us ts) : (intersectionOf ts).same (intersectionOf us) := by
  have hordinary : ∀ {vs : List TypeExpr}, (∀ t ∈ vs, Ordinary t) →
      ∀ t ∈ distinct (combined vs), Ordinary t :=
    fun hvs t ht => (of_mem_combined hvs (mem_of_mem_distinct ht)).1
  rw [intersectionOf_eq_collected hts, intersectionOf_eq_collected hus]
  exact same_collected canonicalClass_ordinary.mixed
    (same_many .intersection fun ts us => by rw [same]) (hordinary hts) (hordinary hus)
    (pairwise_distinct _) (pairwise_distinct _)
    (respects_intersectionParts.among_distinct hts hus h)
    (respects_intersectionParts.among_distinct hus hts h')

theorem eq_of_not_nonvoid (ht : Ordinary t) (h : ¬ Nonvoid t) :
    t = never ∨ t = .nullable never := by
  induction t, ht using canonicalClass_ordinary.alternativesInduction with
  | single t ht hlike =>
    simp only [Nonvoid, alternatives_eq hlike, mem_singleton, forall_eq] at h
    exact Or.inl (eq_never ht (by simpa using h))
  | union ts _ hts =>
    refine absurd (fun u hu => ?_) h
    rw [alternatives_union hts.plain] at hu
    exact (isAlternative_iff.mp (hts.plain u hu)).2.2
  | nullable t _ htakes ih =>
    have hvoid : ¬ Nonvoid t := fun ht => h fun u hu => by
      rw [alternatives_nullable htakes] at hu
      rcases mem_cons.mp hu with rfl | hu
      · rfl
      · exact ht u hu
    rcases ih hvoid with rfl | rfl
    · exact Or.inr rfl
    · simp [takesNull] at htakes

theorem eq_of_same_void (ht : Ordinary t) (hu : u = never ∨ u = .nullable never)
    (h : t.same u) : t = u := by
  have hnever : ∀ {v : TypeExpr}, Ordinary v → v.same never → v = never := fun hv hsame =>
    eq_never hv (isNull_isNever_of_same hsame hv canonicalClass_ordinary.never).2
  rcases hu with rfl | rfl
  · exact hnever ht h
  · cases t with
    | nullable v =>
      rw [same] at h
      exact congrArg _ (hnever (ht.inside (by simp [parts, children])) h)
    | _ => simp [same] at h

theorem eq_of_void_intersectionOf (hts : ∀ t ∈ ts, Ordinary t) (hne : ts ≠ [])
    (h : ¬ Nonvoid (intersectionOf ts)) (ht : t ∈ ts) : t = intersectionOf ts := by
  have hordinary : Ordinary (intersectionOf ts) := canonicalClass_ordinary.intersectionOf hts
  have hvoid := eq_of_not_nonvoid hordinary h
  have hparts : intersectionParts (intersectionOf ts) = [intersectionOf ts] :=
    intersectionParts_eq (by rcases hvoid with h | h <;> rw [h] <;> rfl)
  have hamong : Among (intersectionParts t) [intersectionOf ts] := by
    rw [← hparts, intersectionParts_intersectionOf hts hne]
    intro u hu
    exact among_distinct (fun v hv => (of_mem_combined hts hv).1) u
      (mem_flatMap.mpr ⟨t, ht, hu⟩)
  have hcombination : ∀ us, t ≠ .intersection us := by
    rintro us rfl
    obtain ⟨hus, hmembers⟩ := canonicalClass_ordinary.intersection.mp (hts _ ht)
    obtain ⟨u, v, vs, rfl⟩ := exists_cons_cons hus.many
    exact not_among_singleton hordinary hmembers hus.apart hamong
  refine eq_of_same_void (hts t ht) hvoid ?_
  rw [intersectionParts_eq (Bool.eq_false_iff.mpr (not_isIntersection hcombination))] at hamong
  simpa [Among] using hamong

end

end StubCatalog.TypeExpr
