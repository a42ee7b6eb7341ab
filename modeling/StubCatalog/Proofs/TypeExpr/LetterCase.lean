import StubCatalog.Proofs.TypeExpr.Canonical

/-! # Letter case of built-in names

A built-in type with arguments may be spelled in any letter case, and reading it puts its name in
lower case (`normalCase`). Equality does not see the case, so the type does not change by that. -/

namespace StubCatalog

open List

variable {ts : List TypeExpr}

/-- The name of a type with arguments as it is read: a built-in name is in lower case. -/
def Keyword.normalCase (name : String) : String :=
  if isGeneric name then Text.lower name else name

theorem Keyword.lower_of_mem_generics : ∀ name ∈ generics, Text.lower name = name := by
  decide

theorem Keyword.lower_normalCase (name : String) :
    Text.lower (normalCase name) = Text.lower name := by
  unfold normalCase
  split
  · next h => exact lower_of_mem_generics _ (by simpa [isGeneric] using h)
  · rfl

theorem Keyword.normalCase_normalCase (name : String) :
    normalCase (normalCase name) = normalCase name := by
  have hlower := lower_normalCase name
  unfold normalCase at hlower ⊢
  by_cases h : isGeneric name
  · simp only [h, if_true] at hlower ⊢
    split
    · exact hlower
    · rfl
  · simp [h]

namespace TypeExpr

mutual

/-- The type with the names of its built-in types in lower case. -/
def normalCase : TypeExpr → TypeExpr
  | .nullable t => .nullable t.normalCase
  | .union ts => .union (normalCaseList ts)
  | .intersection ts => .intersection (normalCaseList ts)
  | .generic name args => .generic (Keyword.normalCase name) (normalCaseList args)
  | .shape kind fields s key value =>
    .shape kind (normalCaseFields fields) s (normalCaseOption key) (normalCaseOption value)
  | .conditional subject target whenTrue whenFalse negated =>
    .conditional subject target.normalCase whenTrue.normalCase whenFalse.normalCase negated
  | .callable kind params result =>
    .callable kind (normalCaseParameters params) (normalCaseOption result)
  | t => t

/-- The types of a list in normal case. -/
def normalCaseList : List TypeExpr → List TypeExpr
  | [] => []
  | t :: ts => t.normalCase :: normalCaseList ts

/-- A type that may be absent in normal case. -/
def normalCaseOption : Option TypeExpr → Option TypeExpr
  | none => none
  | some t => some t.normalCase

/-- The types of fields in normal case. -/
def normalCaseFields : List (ShapeField TypeExpr) → List (ShapeField TypeExpr)
  | [] => []
  | ⟨key, t, optional⟩ :: fs => ⟨key, t.normalCase, optional⟩ :: normalCaseFields fs

/-- The types of parameters in normal case. -/
def normalCaseParameters : List (CallableParameter TypeExpr) → List (CallableParameter TypeExpr)
  | [] => []
  | ⟨t, optional, variadic, byReference⟩ :: ps =>
    ⟨t.normalCase, optional, variadic, byReference⟩ :: normalCaseParameters ps

end

attribute [local simp] normalCase normalCaseList normalCaseOption normalCaseFields
  normalCaseParameters

theorem normalCaseList_eq_map (ts : List TypeExpr) : normalCaseList ts = ts.map normalCase := by
  induction ts with
  | nil => simp
  | cons t ts ih => rw [normalCaseList, ih, map_cons]

theorem normalCaseFields_eq_map (fs : List (ShapeField TypeExpr)) :
    normalCaseFields fs = fs.map fun f => { f with value := f.value.normalCase } := by
  induction fs with
  | nil => simp
  | cons f fs ih => rw [normalCaseFields, ih, map_cons]

theorem normalCaseParameters_eq_map (ps : List (CallableParameter TypeExpr)) :
    normalCaseParameters ps = ps.map fun p => { p with type := p.type.normalCase } := by
  induction ps with
  | nil => simp
  | cons p ps ih => rw [normalCaseParameters, ih, map_cons]

/-! ### Equality does not see the case -/

theorem children_normalCase (t : TypeExpr) : t.normalCase.children = t.children.map normalCase := by
  cases t with
  | shape kind fields s key value =>
    cases key <;> cases value <;> simp [normalCaseFields_eq_map, children]
  | callable kind params result =>
    cases result <;> simp [normalCaseParameters_eq_map, children]
  | _ => simp [children, normalCaseList_eq_map]

theorem frame_normalCase {t : TypeExpr} (h : ∀ name ts, t ≠ .generic name ts) :
    t.normalCase.frame = t.frame := by
  cases t with
  | generic name ts => exact absurd rfl (h name ts)
  | shape kind fields s key value =>
    cases key <;> cases value <;> simp [normalCaseFields_eq_map, frame, hollowField]
  | callable kind params result =>
    cases result <;> simp [normalCaseParameters_eq_map, frame, hollowParameter]
  | _ => simp [frame]

theorem same_frame_normalCase (a b : TypeExpr) :
    a.normalCase.frame.same b.normalCase.frame = a.frame.same b.frame := by
  by_cases ha : ∃ name ts, a = .generic name ts
  · obtain ⟨name, ts, rfl⟩ := ha
    cases b <;> simp [normalCaseList_eq_map, frame, same, Keyword.lower_normalCase]
  · by_cases hb : ∃ name ts, b = .generic name ts
    · obtain ⟨name, ts, rfl⟩ := hb
      cases a <;> simp_all [frame, same]
    · rw [frame_normalCase fun name ts h => ha ⟨name, ts, h⟩,
        frame_normalCase fun name ts h => hb ⟨name, ts, h⟩]

theorem same_normalCase (a b : TypeExpr) : a.normalCase.same b.normalCase = a.same b := by
  induction a using partsInduction generalizing b with
  | step a ih =>
    have hbag : a.normalCase.isBag = a.isBag := by cases a <;> simp only [normalCase, isBag]
    rw [Bool.eq_iff_iff, same_iff_frame, @same_iff_frame a b, same_frame_normalCase, hbag,
      children_normalCase, children_normalCase,
      matched_map_iff fun u hu => ih u (mem_parts_of_mem_children hu)]

theorem normalCase_normalCase (t : TypeExpr) : t.normalCase.normalCase = t.normalCase := by
  induction t using partsInduction with
  | step t ih =>
    refine eq_of_frame ?_ ?_
    · cases t with
      | generic name ts => simp [normalCaseList_eq_map, frame, Keyword.normalCase_normalCase]
      | _ => exact frame_normalCase (by simp)
    · rw [children_normalCase, children_normalCase, map_map]
      exact map_congr_left fun u hu => ih u (mem_parts_of_mem_children hu)

theorem same_normalCase_self {t : TypeExpr} (h : t.same t) : t.normalCase.same t := by
  rw [← same_normalCase, normalCase_normalCase, same_normalCase, h]

/-! ### Canonical members in normal case -/

section Sorts
variable (t : TypeExpr)

theorem isUnionLike_normalCase : t.normalCase.isUnionLike = t.isUnionLike := by
  cases t <;> simp only [normalCase, isUnionLike]

theorem isIntersection_normalCase : t.normalCase.isIntersection = t.isIntersection := by
  cases t <;> simp only [normalCase, isIntersection]

theorem isNull_normalCase : t.normalCase.isNull = t.isNull := by
  cases t <;> simp only [normalCase, isNull]

theorem isNever_normalCase : t.normalCase.isNever = t.isNever := by
  cases t <;> simp only [normalCase, isNever]

end Sorts

theorem pairwise_normalCase (h : ts.Pairwise fun t u => t.same u = false) :
    (ts.map normalCase).Pairwise fun t u => t.same u = false := by
  rw [pairwise_map]
  exact h.imp fun {t u} htu => by rw [same_normalCase, htu]

theorem Alternatives.normalCase (h : Alternatives ts) :
    Alternatives (ts.map TypeExpr.normalCase) where
  many := by rw [length_map]; exact h.many
  plain := by
    rw [forall_mem_map]
    intro t ht
    rw [isAlternative, isUnionLike_normalCase, isNull_normalCase, isNever_normalCase]
    exact h.plain t ht
  apart := pairwise_normalCase h.apart

theorem Combination.normalCase (h : Combination ts) : Combination (ts.map TypeExpr.normalCase) where
  many := by rw [length_map]; exact h.many
  plain := by
    rw [forall_mem_map]
    intro t ht
    rw [isIntersection_normalCase]
    exact h.plain t ht
  apart := pairwise_normalCase h.apart

end TypeExpr

end StubCatalog
