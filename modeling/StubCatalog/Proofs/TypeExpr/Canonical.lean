import StubCatalog.Proofs.TypeExpr.Same
import StubCatalog.TypeExpr.Compare

/-! # Canonical members

The members of a union or intersection in canonical form (`Alternatives`, `Combination`): at least
two, no two the same, and none that would have been taken apart. Which types count as canonical is
left open (`CanonicalClass`). -/

namespace StubCatalog

open List

variable {ts : List TypeExpr} {t : TypeExpr}

theorem mem_of_lookup {α : Type} {pairs : List (String × α)} {key : String} {value : α}
    (h : pairs.lookup key = some value) : (key, value) ∈ pairs := by
  obtain ⟨front, rest, rfl, -⟩ := lookup_eq_some_iff.mp h
  simp

namespace TypeExpr

/-- The type is an intersection. -/
def isIntersection : TypeExpr → Bool
  | .intersection _ => true
  | _ => false

/-- The type may be a member of a union. -/
def isAlternative (t : TypeExpr) : Bool := !t.isUnionLike && !t.isNull && !t.isNever

/-- The type may be made nullable: it is neither nullable nor null. -/
def takesNull : TypeExpr → Bool
  | .nullable _ => false
  | t => !t.isNull

/-- The members of a union in canonical form. -/
structure Alternatives (ts : List TypeExpr) : Prop where
  many : 2 ≤ ts.length
  plain : ∀ t ∈ ts, t.isAlternative
  apart : ts.Pairwise fun t u => t.same u = false

/-- The members of an intersection in canonical form. -/
structure Combination (ts : List TypeExpr) : Prop where
  many : 2 ≤ ts.length
  plain : ∀ t ∈ ts, t.isIntersection = false
  apart : ts.Pairwise fun t u => t.same u = false

/-! ### Repetitions -/

theorem mem_of_mem_distinctFrom {seen : List TypeExpr}
    (h : t ∈ distinctFrom seen ts) : t ∈ ts ∧ ∀ u ∈ seen, u.same t = false := by
  induction ts generalizing seen with
  | nil => simp [distinctFrom] at h
  | cons u ts ih =>
    unfold distinctFrom at h
    split at h
    · obtain ⟨hmem, hseen⟩ := ih h
      exact ⟨by simp [hmem], hseen⟩
    · next hnew =>
      rcases mem_cons.mp h with rfl | h
      · simp only [any_eq_true, not_exists, not_and, Bool.not_eq_true] at hnew
        exact ⟨by simp, hnew⟩
      · obtain ⟨hmem, hseen⟩ := ih h
        exact ⟨by simp [hmem], fun v hv => hseen v (by simp [hv])⟩

theorem pairwise_distinctFrom (seen ts : List TypeExpr) :
    (distinctFrom seen ts).Pairwise fun t u => t.same u = false := by
  induction ts generalizing seen with
  | nil => simp [distinctFrom]
  | cons t ts ih =>
    unfold distinctFrom
    split
    · exact ih seen
    · exact pairwise_cons.mpr
        ⟨fun u hu => (mem_of_mem_distinctFrom hu).2 t (by simp), ih (t :: seen)⟩

theorem distinctFrom_eq_self {seen : List TypeExpr} (hseen : ∀ u ∈ seen, ∀ t ∈ ts, u.same t = false)
    (h : ts.Pairwise fun t u => t.same u = false) : distinctFrom seen ts = ts := by
  induction ts generalizing seen with
  | nil => rfl
  | cons t ts ih =>
    obtain ⟨ht, hts⟩ := pairwise_cons.mp h
    have hnew : seen.any (·.same t) = false := by
      rw [any_eq_false]
      intro u hu
      simp [hseen u hu t (by simp)]
    unfold distinctFrom
    rw [hnew, if_neg (by simp), ih _ hts]
    intro u hu v hv
    rcases mem_cons.mp hu with rfl | hu
    · exact ht v hv
    · exact hseen u hu v (by simp [hv])

theorem mem_of_mem_distinct (h : t ∈ distinct ts) : t ∈ ts :=
  (mem_of_mem_distinctFrom h).1

theorem pairwise_distinct (ts : List TypeExpr) :
    (distinct ts).Pairwise fun t u => t.same u = false :=
  pairwise_distinctFrom [] ts

theorem distinct_eq_self (h : ts.Pairwise fun t u => t.same u = false) : distinct ts = ts :=
  distinctFrom_eq_self (by simp) h

theorem exists_cons_cons {α : Type} {as : List α} (h : 2 ≤ as.length) :
    ∃ a b others, as = a :: b :: others := by
  match as, h with
  | a :: b :: others, _ => exact ⟨a, b, others, rfl⟩

/-! ### Members that stay as they are -/

@[simp]
theorem isNull_null : null.isNull := rfl

theorem flatMap_eq_self {f : TypeExpr → List TypeExpr}
    (h : ∀ t ∈ ts, f t = [t]) : ts.flatMap f = ts := by
  induction ts with
  | nil => rfl
  | cons t ts ih =>
    rw [flatMap_cons, h t (by simp), ih fun u hu => h u (by simp [hu]), singleton_append]

section
variable {t : TypeExpr}

theorem unionParts_eq (h : t.isUnionLike = false) : unionParts t = [t] := by
  cases t <;> simp_all [isUnionLike, unionParts]

theorem nullParts_eq (h : t.isUnionLike = false) : nullParts t = [t] := by
  cases t <;> simp_all [isUnionLike, nullParts]

theorem alternatives_eq (h : t.isUnionLike = false) : alternatives t = [t] := by
  simp [alternatives, nullParts_eq h, unionParts_eq h]

theorem intersectionParts_eq (h : t.isIntersection = false) : intersectionParts t = [t] := by
  cases t <;> simp_all [isIntersection, intersectionParts]

theorem mkNullable_eq (h : t.takesNull) : mkNullable t = .nullable t := by
  cases t <;> simp_all [takesNull, mkNullable]

theorem isAlternative_iff : t.isAlternative ↔
    t.isUnionLike = false ∧ t.isNull = false ∧ t.isNever = false := by
  simp [isAlternative, and_assoc]

theorem alternatives_nullable (ht : t.takesNull) :
    alternatives (.nullable t) = null :: alternatives t := by
  cases t with
  | nullable u => simp [takesNull] at ht
  | _ => rfl

theorem alternatives_union (hts : ∀ t ∈ ts, t.isAlternative) : alternatives (.union ts) = ts := by
  have hparts : ts.flatMap nullParts = ts :=
    flatMap_eq_self fun u hu => nullParts_eq (isAlternative_iff.mp (hts u hu)).1
  show (unionParts (.union ts)).flatMap nullParts ++ [] = ts
  rw [append_nil, unionParts, hparts]

theorem takesNull_of (hlike : t.isUnionLike = false) (hnull : t.isNull = false) : t.takesNull := by
  cases t <;> simp_all [takesNull, isUnionLike]

end

section
variable {ts : List TypeExpr}

theorem Alternatives.mkUnion_eq (h : Alternatives ts) : mkUnion ts = .union ts := by
  rw [mkUnion, flatMap_eq_self fun t ht => unionParts_eq (isAlternative_iff.mp (h.plain t ht)).1,
    distinct_eq_self h.apart]

theorem Alternatives.dropNever_eq (h : Alternatives ts) :
    dropNever (distinct (ts.filter (!·.isNull))) = ts := by
  have hnull : ts.filter (!·.isNull) = ts :=
    filter_eq_self.mpr fun t ht => by simp [(isAlternative_iff.mp (h.plain t ht)).2.1]
  have hnever : ts.filter (!·.isNever) = ts :=
    filter_eq_self.mpr fun t ht => by simp [(isAlternative_iff.mp (h.plain t ht)).2.2]
  rw [hnull, distinct_eq_self h.apart, dropNever, hnever, ite_self]

theorem unionOf_eq_union (h : Alternatives ts) : unionOf ts = .union ts := by
  have hparts : ts.flatMap alternatives = ts :=
    flatMap_eq_self fun t ht => alternatives_eq (isAlternative_iff.mp (h.plain t ht)).1
  have hnull : ts.any isNull = false :=
    any_eq_false.mpr fun t ht => by simp [(isAlternative_iff.mp (h.plain t ht)).2.1]
  have hunion := h.mkUnion_eq
  unfold unionOf
  simp only [hparts, hnull, h.dropNever_eq]
  obtain ⟨t, u, us, rfl⟩ := exists_cons_cons h.many
  simp [hunion]

theorem unionOf_eq_nullable_union {us : List TypeExpr} (h : Alternatives ts)
    (hnull : null ∈ us.flatMap alternatives)
    (hothers : (us.flatMap alternatives).filter (!·.isNull) = ts.filter (!·.isNull)) :
    unionOf us = .nullable (.union ts) := by
  have hany : (us.flatMap alternatives).any isNull :=
    any_eq_true.mpr ⟨null, hnull, isNull_null⟩
  have hunion := h.mkUnion_eq
  unfold unionOf
  simp only [hothers, hany, h.dropNever_eq]
  obtain ⟨t, u, us, rfl⟩ := exists_cons_cons h.many
  simp [hunion, mkNullable]

theorem unionOf_null_cons (h : Alternatives ts) : unionOf (null :: ts) = .nullable (.union ts) := by
  have hparts : (null :: ts).flatMap alternatives = null :: ts := by
    refine flatMap_eq_self fun t ht => alternatives_eq ?_
    rcases mem_cons.mp ht with rfl | ht
    · rfl
    · exact (isAlternative_iff.mp (h.plain t ht)).1
  refine unionOf_eq_nullable_union h ?_ ?_
  · rw [hparts]
    exact mem_cons_self
  · rw [hparts]
    rfl

theorem Combination.mkIntersection_eq (h : Combination ts) :
    mkIntersection ts = .intersection ts := by
  rw [mkIntersection, flatMap_eq_self fun t ht => intersectionParts_eq (h.plain t ht),
    distinct_eq_self h.apart]

theorem intersectionOf_eq (h : Combination ts) : intersectionOf ts = .intersection ts := by
  unfold intersectionOf
  rw [flatMap_eq_self fun t ht => intersectionParts_eq (h.plain t ht), distinct_eq_self h.apart]
  obtain ⟨t, u, us, rfl⟩ := exists_cons_cons h.many
  exact h.mkIntersection_eq

theorem unionOf_eq_nullable {us : List TypeExpr} (hus : us = [null, t] ∨ us = [t, null])
    (hlike : t.isUnionLike = false) (hnull : t.isNull = false) : unionOf us = .nullable t := by
  have hparts : us.flatMap alternatives = us := by
    refine flatMap_eq_self fun u hu => alternatives_eq ?_
    have hu : u = null ∨ u = t := by
      rcases hus with rfl | rfl
      · simpa using hu
      · simpa [or_comm] using hu
    rcases hu with rfl | rfl
    · rfl
    · exact hlike
  have hfilter : us.filter (!·.isNull) = [t] := by
    rcases hus with rfl | rfl <;> simp [hnull]
  have hany : us.any isNull := by
    rcases hus with rfl | rfl <;> simp
  have hmembers : dropNever (distinct [t]) = [t] := by
    rw [distinct_eq_self (by simp)]
    rfl
  unfold unionOf
  simp only [hparts, hfilter, hany, hmembers, if_true]
  exact mkNullable_eq (takesNull_of hlike hnull)

theorem nullableOf_eq (hlike : t.isUnionLike = false) (hnull : t.isNull = false) :
    nullableOf t = .nullable t :=
  unionOf_eq_nullable (Or.inr rfl) hlike hnull

/-- The alternatives that are left of types, null apart. -/
def unionMembers (ts : List TypeExpr) : List TypeExpr :=
  dropNever (distinct ((ts.flatMap alternatives).filter (!·.isNull)))

theorem unionOf_cases {P : TypeExpr → Prop} (hnull : P null) (hnever : P never)
    (hone : ∀ t, unionMembers ts = [t] → P t ∧ P (mkNullable t))
    (hmany : 2 ≤ (unionMembers ts).length →
      P (mkUnion (unionMembers ts)) ∧ P (mkNullable (mkUnion (unionMembers ts)))) :
    P (unionOf ts) := by
  unfold unionMembers at hone hmany
  unfold unionOf
  simp only
  generalize dropNever (distinct ((ts.flatMap alternatives).filter (!·.isNull))) = members
    at hone hmany
  rcases members with _ | ⟨t, _ | ⟨u, us⟩⟩ <;> grind

end

/-! ### Classes of canonical types -/

/-- A class of types that contains a nullable type, a union or an intersection exactly if it is in
canonical form and the class contains its members. -/
structure CanonicalClass (p : TypeExpr → Prop) : Prop where
  null : p null
  never : p never
  mixed : p mixed
  nullable {t : TypeExpr} : p (.nullable t) ↔ p t ∧ t.takesNull
  union {ts : List TypeExpr} : p (.union ts) ↔ Alternatives ts ∧ ∀ t ∈ ts, p t
  intersection {ts : List TypeExpr} : p (.intersection ts) ↔ Combination ts ∧ ∀ t ∈ ts, p t

namespace CanonicalClass
variable {p : TypeExpr → Prop} (hp : CanonicalClass p)
include hp

theorem alternativesInduction {P : ∀ t, p t → Prop}
    (single : ∀ t ht, t.isUnionLike = false → P t ht)
    (union : ∀ ts ht, Alternatives ts → P (.union ts) ht)
    (nullable : ∀ t ht htakes, P t ht → P (.nullable t) (hp.nullable.mpr ⟨ht, htakes⟩))
    (ht : p t) : P t ht := by
  induction t using partsInduction with
  | step t ih =>
    cases t with
    | nullable t =>
      obtain ⟨ht', htakes⟩ := hp.nullable.mp ht
      exact nullable t ht' htakes (ih t (by simp [parts, children]) ht')
    | union ts => exact union ts ht (hp.union.mp ht).1
    | _ => exact single _ ht rfl

theorem of_mem_alternatives {u : TypeExpr} (ht : p t) (hu : u ∈ alternatives t) :
    p u ∧ u.isUnionLike = false := by
  induction t, ht using hp.alternativesInduction with
  | single t ht hlike =>
    rw [alternatives_eq hlike, mem_singleton] at hu
    exact hu ▸ ⟨ht, hlike⟩
  | union ts ht hts =>
    rw [alternatives_union hts.plain] at hu
    exact ⟨(hp.union.mp ht).2 u hu, (isAlternative_iff.mp (hts.plain u hu)).1⟩
  | nullable t ht htakes ih =>
    rw [alternatives_nullable htakes] at hu
    rcases mem_cons.mp hu with rfl | hu
    · exact ⟨hp.null, rfl⟩
    · exact ih hu

omit hp in
theorem mem_of_mem_dropNever (h : t ∈ dropNever ts) : t ∈ ts := by
  unfold dropNever at h
  split at h
  · exact (mem_filter.mp h).1
  · exact h

omit hp in
theorem isNever_of_mem_dropNever (h : t ∈ dropNever ts)
    (hmany : 2 ≤ (dropNever ts).length) : t.isNever = false := by
  unfold dropNever at h hmany
  split at h
  · simpa using (mem_filter.mp h).2
  · next hfew =>
    rw [if_neg hfew] at hmany
    omega

theorem of_mem_members (hts : ∀ t ∈ ts, p t)
    (h : t ∈ unionMembers ts) : p t ∧ t.isUnionLike = false ∧ t.isNull = false := by
  have hmem := mem_filter.mp (mem_of_mem_distinct (mem_of_mem_dropNever h))
  obtain ⟨u, hu, htu⟩ := mem_flatMap.mp hmem.1
  obtain ⟨ht, hlike⟩ := hp.of_mem_alternatives (hts u hu) htu
  exact ⟨ht, hlike, by simpa using hmem.2⟩

theorem alternatives_members (hts : ∀ t ∈ ts, p t) (hmany : 2 ≤ (unionMembers ts).length) :
    Alternatives (unionMembers ts) := by
  refine ⟨hmany, fun t ht => ?_, ?_⟩
  · obtain ⟨-, hlike, hnull⟩ := hp.of_mem_members hts ht
    exact isAlternative_iff.mpr ⟨hlike, hnull, isNever_of_mem_dropNever ht hmany⟩
  · have hapart := pairwise_distinct ((ts.flatMap alternatives).filter (!·.isNull))
    unfold unionMembers dropNever
    split
    · exact hapart.filter _
    · exact hapart

theorem unionOf (hts : ∀ t ∈ ts, p t) : p (unionOf ts) := by
  refine unionOf_cases hp.null hp.never (fun t ht => ?_) fun hmany => ?_
  · obtain ⟨ht, hlike, hnull⟩ := hp.of_mem_members (t := t) hts (by simp [ht])
    have htakes := takesNull_of hlike hnull
    rw [mkNullable_eq htakes]
    exact ⟨ht, hp.nullable.mpr ⟨ht, htakes⟩⟩
  · have hmembers := hp.alternatives_members hts hmany
    have hunion : p (.union (unionMembers ts)) :=
      hp.union.mpr ⟨hmembers, fun t ht => (hp.of_mem_members hts ht).1⟩
    rw [hmembers.mkUnion_eq]
    exact ⟨hunion, hp.nullable.mpr ⟨hunion, rfl⟩⟩

theorem nullableOf (ht : p t) : p (nullableOf t) := by
  refine hp.unionOf fun u hu => ?_
  simp only [mem_cons, not_mem_nil, or_false] at hu
  rcases hu with rfl | rfl
  · exact ht
  · exact hp.null

theorem nullableOf_eq_nullable (ht : p (.nullable t)) : TypeExpr.nullableOf t = .nullable t := by
  obtain ⟨ht, htakes⟩ := hp.nullable.mp ht
  cases t with
  | nullable u => simp [takesNull] at htakes
  | union ts =>
    have hts := (hp.union.mp ht).1
    have hparts : [.union ts, TypeExpr.null].flatMap alternatives = ts ++ [TypeExpr.null] := by
      rw [flatMap_cons, alternatives_union hts.plain]
      rfl
    refine unionOf_eq_nullable_union hts ?_ ?_
    · simp [hparts]
    · simp [hparts]
  | _ => exact nullableOf_eq rfl (by simpa [takesNull] using htakes)

theorem intersectionOf (hts : ∀ t ∈ ts, p t) : p (intersectionOf ts) := by
  have hmem : ∀ t ∈ distinct (ts.flatMap intersectionParts), p t ∧ t.isIntersection = false := by
    intro t ht
    obtain ⟨u, hu, htu⟩ := mem_flatMap.mp (mem_of_mem_distinct ht)
    cases u with
    | intersection us =>
      obtain ⟨hus, hmembers⟩ := hp.intersection.mp (hts _ hu)
      exact ⟨hmembers t htu, hus.plain t htu⟩
    | _ =>
      obtain rfl : t = _ := by simpa [intersectionParts] using htu
      exact ⟨hts _ hu, rfl⟩
  have hapart := pairwise_distinct (ts.flatMap intersectionParts)
  unfold TypeExpr.intersectionOf
  generalize distinct (ts.flatMap intersectionParts) = members at hmem hapart
  rcases members with _ | ⟨t, _ | ⟨u, us⟩⟩
  · exact hp.mixed
  · exact (hmem t (by simp)).1
  · have hmembers : Combination (t :: u :: us) :=
      ⟨by simp, fun v hv => (hmem v hv).2, hapart⟩
    simp only [hmembers.mkIntersection_eq]
    exact hp.intersection.mpr ⟨hmembers, fun v hv => (hmem v hv).1⟩

end CanonicalClass

/-- A nullable type, a union, an intersection or a type with arguments is in canonical form. -/
def IsCanonicalNode : TypeExpr → Prop
  | .nullable t => t.takesNull
  | .union ts => Alternatives ts
  | .intersection ts => Combination ts
  | .generic _ args => args ≠ []
  | _ => True

/-- The types in canonical form all the way down, with another condition that passes from members to
what is put together from them, are a class of canonical types. -/
theorem canonicalClass_everywhere {q : TypeExpr → Prop} (hnull : q null) (hnever : q never)
    (hmixed : q mixed)
    (hnullable : ∀ t, t.takesNull → Everywhere (fun u => u.IsCanonicalNode ∧ q u) t →
      q (.nullable t))
    (hunion : ∀ ts, Alternatives ts → (∀ t ∈ ts, Everywhere (fun u => u.IsCanonicalNode ∧ q u) t) →
      q (.union ts))
    (hintersection : ∀ ts, Combination ts →
      (∀ t ∈ ts, Everywhere (fun u => u.IsCanonicalNode ∧ q u) t) → q (.intersection ts)) :
    CanonicalClass (Everywhere fun u => u.IsCanonicalNode ∧ q u) where
  null := .intro ⟨trivial, hnull⟩ (by simp [parts, children])
  never := .intro ⟨trivial, hnever⟩ (by simp [parts, children])
  mixed := .intro ⟨trivial, hmixed⟩ (by simp [parts, children])
  nullable {t} := by
    refine ⟨fun h => ⟨h.inside (by simp [parts, children]), h.here.1⟩, ?_⟩
    rintro ⟨ht, htakes⟩
    refine .intro ⟨htakes, hnullable t htakes ht⟩ fun u hu => ?_
    obtain rfl : u = t := by simpa [parts, children] using hu
    exact ht
  union {ts} := by
    refine ⟨fun h => ⟨h.here.1, fun t ht => h.inside ht⟩, ?_⟩
    rintro ⟨hts, hmembers⟩
    exact .intro ⟨hts, hunion ts hts hmembers⟩ hmembers
  intersection {ts} := by
    refine ⟨fun h => ⟨h.here.1, fun t ht => h.inside ht⟩, ?_⟩
    rintro ⟨hts, hmembers⟩
    exact .intro ⟨hts, hintersection ts hts hmembers⟩ hmembers

end TypeExpr

end StubCatalog
