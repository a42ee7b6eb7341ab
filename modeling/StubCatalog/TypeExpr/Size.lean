import StubCatalog.TypeExpr.Rebuild

/-! # Sizes of rebuilt types

Putting types together adds at most one node, and replacing conditionals by their branches never
makes a type larger; recursive comparisons rely on this. -/

namespace StubCatalog.TypeExpr

theorem sizeList_append (ts us : List TypeExpr) :
    sizeList (ts ++ us) = sizeList ts + sizeList us := by
  induction ts with
  | nil => simp [sizeList]
  | cons t ts ih => simp only [List.cons_append, sizeList, ih]; omega

theorem sizeList_flatMap_le {f : TypeExpr → List TypeExpr} (hf : ∀ t, sizeList (f t) ≤ t.size) :
    ∀ ts, sizeList (ts.flatMap f) ≤ sizeList ts
  | [] => by simp [sizeList]
  | t :: ts => by
    have := sizeList_flatMap_le hf ts
    have := hf t
    simp only [List.flatMap_cons, sizeList_append, sizeList]
    omega

theorem sizeList_le_of_sublist {ts us : List TypeExpr} (h : ts.Sublist us) :
    sizeList ts ≤ sizeList us := by
  induction h with
  | slnil => exact Nat.le_refl _
  | cons _ _ ih => simp only [sizeList]; omega
  | cons_cons _ _ ih => simp only [sizeList]; omega

theorem distinctFrom_sublist (seen ts : List TypeExpr) : (distinctFrom seen ts).Sublist ts := by
  induction ts generalizing seen with
  | nil => exact .slnil
  | cons t ts ih =>
    unfold distinctFrom
    split
    · exact (ih seen).cons t
    · exact (ih (t :: seen)).cons_cons t

theorem dropNever_sublist (ts : List TypeExpr) : (dropNever ts).Sublist ts := by
  unfold dropNever
  split
  · exact List.filter_sublist
  · exact .refl ts

theorem sizeList_unionParts_le (t : TypeExpr) : sizeList (unionParts t) ≤ t.size := by
  cases t <;> simp [unionParts, sizeList, size]

theorem sizeList_intersectionParts_le (t : TypeExpr) : sizeList (intersectionParts t) ≤ t.size := by
  cases t <;> simp [intersectionParts, sizeList, size]

theorem sizeList_nullParts_le (t : TypeExpr) : sizeList (nullParts t) ≤ t.size := by
  cases t <;> simp [nullParts, sizeList, size, null]
  omega

theorem sizeList_alternatives_le (t : TypeExpr) : sizeList (alternatives t) ≤ t.size :=
  Nat.le_trans
    (sizeList_flatMap_le (fun part => Nat.le_trans
      (sizeList_flatMap_le sizeList_nullParts_le _) (sizeList_unionParts_le part)) _)
    (sizeList_nullParts_le t)

theorem size_mkNullable_le (t : TypeExpr) : (mkNullable t).size ≤ t.size + 1 := by
  fun_induction mkNullable t with
  | case1 t ih => simp only [size]; omega
  | case2 t => simp [size]

theorem size_mkUnion_le (ts : List TypeExpr) : (mkUnion ts).size ≤ sizeList ts + 1 := by
  have := sizeList_le_of_sublist (distinctFrom_sublist [] (ts.flatMap unionParts))
  have := sizeList_flatMap_le sizeList_unionParts_le ts
  simp only [mkUnion, distinct, size]
  omega

theorem size_mkIntersection_le (ts : List TypeExpr) :
    (mkIntersection ts).size ≤ sizeList ts + 1 := by
  have := sizeList_le_of_sublist (distinctFrom_sublist [] (ts.flatMap intersectionParts))
  have := sizeList_flatMap_le sizeList_intersectionParts_le ts
  simp only [mkIntersection, distinct, size]
  omega

theorem size_unionOf_le_of {ts : List TypeExpr} {n : Nat}
    (hone : sizeList ((ts.flatMap alternatives).filter (!·.isNull)) < n)
    (hmany : (ts.flatMap alternatives).any isNull = true →
      1 < ((ts.flatMap alternatives).filter (!·.isNull)).length →
        sizeList ((ts.flatMap alternatives).filter (!·.isNull)) + 1 < n) :
    (unionOf ts).size ≤ n := by
  have hsub := (dropNever_sublist (distinct ((ts.flatMap alternatives).filter (!·.isNull)))).trans
    (distinctFrom_sublist [] _)
  have hcore := sizeList_le_of_sublist hsub
  have hlength := hsub.length_le
  unfold unionOf
  simp only []
  split
  · split <;> simp [size] <;> omega
  · next t heq =>
    have := size_mkNullable_le t
    simp only [heq, sizeList] at hcore
    split <;> omega
  · next hne htwo =>
    have := size_mkUnion_le (dropNever (distinct ((ts.flatMap alternatives).filter (!·.isNull))))
    have := size_mkNullable_le
      (mkUnion (dropNever (distinct ((ts.flatMap alternatives).filter (!·.isNull)))))
    split
    · next hnull =>
      have := hmany hnull (by
        generalize dropNever _ = members at hne htwo hlength
        rcases members with _ | ⟨u, _ | ⟨v, others⟩⟩
        · exact absurd rfl hne
        · exact absurd rfl (htwo u)
        · simp only [List.length_cons] at hlength
          omega)
      omega
    · omega

theorem sizeList_filter_notNull_lt {ts : List TypeExpr} (h : ts.any isNull = true) :
    sizeList (ts.filter (!·.isNull)) < sizeList ts := by
  induction ts with
  | nil => simp at h
  | cons t ts ih =>
    have hpos := size_pos t
    have hle := sizeList_le_of_sublist (List.filter_sublist (p := (!·.isNull)) (l := ts))
    by_cases ht : t.isNull
    · simp only [List.filter_cons, ht, sizeList]
      simp
      omega
    · simp only [List.any_cons, ht, Bool.false_or] at h
      have := ih h
      simp only [List.filter_cons, ht, sizeList]
      simp [sizeList]
      omega

/-- A canonical union has at most one node more than its parts together. -/
theorem size_unionOf_le (ts : List TypeExpr) : (unionOf ts).size ≤ sizeList ts + 1 := by
  have hparts := sizeList_flatMap_le sizeList_alternatives_le ts
  refine size_unionOf_le_of ?_ fun hnull _ => ?_
  · have := sizeList_le_of_sublist
      (List.filter_sublist (p := (!·.isNull)) (l := ts.flatMap alternatives))
    omega
  · have := sizeList_filter_notNull_lt hnull
    omega

theorem size_alternatives_lt {t : TypeExpr}
    (h : 1 < ((alternatives t).filter (!·.isNull)).length) :
    sizeList ((alternatives t).filter (!·.isNull)) < t.size := by
  have single : ∀ u : TypeExpr, ¬ 1 < (([u] : List TypeExpr).filter (!·.isNull)).length := by
    intro u
    have := List.length_filter_le (!·.isNull) [u]
    simp at this ⊢
    omega
  cases t with
  | union ts =>
    have h1 := sizeList_le_of_sublist
      (List.filter_sublist (p := (!·.isNull)) (l := alternatives (.union ts)))
    have h2 := sizeList_flatMap_le sizeList_nullParts_le ts
    have h3 : alternatives (.union ts) = ts.flatMap nullParts := by
      simp [alternatives, nullParts, unionParts]
    rw [h3] at h1 ⊢
    simp only [size]
    omega
  | nullable u =>
    have h3 : (alternatives (.nullable u)).filter (!·.isNull)
        = ((unionParts u).flatMap nullParts).filter (!·.isNull) := by
      simp [alternatives, nullParts, unionParts, isNull]
    have h1 := sizeList_le_of_sublist
      (List.filter_sublist (p := (!·.isNull)) (l := (unionParts u).flatMap nullParts))
    have h2 := sizeList_flatMap_le sizeList_nullParts_le (unionParts u)
    have h4 := sizeList_unionParts_le u
    rw [h3]
    simp only [size]
    omega
  | _ => exact absurd h (single _)

theorem size_nullableOf_le (t : TypeExpr) : (nullableOf t).size ≤ t.size + 1 := by
  have hparts := sizeList_alternatives_le t
  have hkept : ([t, null].flatMap alternatives).filter (!·.isNull)
      = (alternatives t).filter (!·.isNull) := by
    simp [alternatives, nullParts, unionParts, isNull]
  refine size_unionOf_le_of ?_ fun _ hmany => ?_
  · have := sizeList_le_of_sublist (List.filter_sublist (p := (!·.isNull)) (l := alternatives t))
    rw [hkept]
    omega
  · rw [hkept] at hmany ⊢
    have := size_alternatives_lt hmany
    omega

theorem size_intersectionOf_le (ts : List TypeExpr) :
    (intersectionOf ts).size ≤ sizeList ts + 1 := by
  have hparts := sizeList_flatMap_le sizeList_intersectionParts_le ts
  have hcore := sizeList_le_of_sublist (distinctFrom_sublist [] (ts.flatMap intersectionParts))
  unfold intersectionOf distinct
  split
  · simp [size]
  · next t heq =>
    rw [heq] at hcore
    simp only [sizeList] at hcore
    omega
  · next members hne hone =>
    have := size_mkIntersection_le (distinctFrom [] (ts.flatMap intersectionParts))
    omega

/-! ### Conditionals replaced by their branches -/

mutual

theorem size_branching_le : (t : TypeExpr) → (rebuild branching t).run.size ≤ t.size
  | .nullable t => by
    have := size_branching_le t
    have := size_nullableOf_le (rebuild branching t).run
    simp [rebuild, size] at *
    omega
  | .union ts => by
    have := sizeList_branching_le ts
    have := size_unionOf_le (rebuildList branching ts).run
    simp [rebuild, size] at *
    omega
  | .intersection ts => by
    have := sizeList_branching_le ts
    have := size_intersectionOf_le (rebuildList branching ts).run
    simp [rebuild, size] at *
    omega
  | .generic name ts => by
    have := sizeList_branching_le ts
    simp [rebuild, size] at *
    omega
  | .shape kind fields s key value => by
    have := sizeFields_branching_le fields
    have := sizeOption_branching_le key
    have := sizeOption_branching_le value
    simp [rebuild, size] at *
    omega
  | .conditional subject t a b negated => by
    have := size_branching_le a
    have := size_branching_le b
    have := size_pos t
    have := size_unionOf_le [(rebuild branching a).run, (rebuild branching b).run]
    simp [rebuild, branching, size, sizeList] at *
    omega
  | .callable kind params result => by
    have := sizeParameters_branching_le params
    have := sizeOption_branching_le result
    simp [rebuild, size] at *
    omega
  | .template name none => by simp [rebuild, branching, keepTemplate]
  | .template name (some bound) => by simp [rebuild, branching, keepTemplate]
  | .keyword _ => by simp [rebuild]
  | .named _ => by simp [rebuild]
  | .literal _ => by simp [rebuild]
  | .intRange _ _ => by simp [rebuild]
  | .memberReference _ _ => by simp [rebuild]
  | .unknown _ => by simp [rebuild]

theorem sizeList_branching_le :
    (ts : List TypeExpr) → sizeList (rebuildList branching ts).run ≤ sizeList ts
  | [] => by simp [rebuildList]
  | t :: ts => by
    have := size_branching_le t
    have := sizeList_branching_le ts
    simp [rebuildList, sizeList] at *
    omega

theorem sizeOption_branching_le :
    (t : Option TypeExpr) → sizeOption (rebuildOption branching t).run ≤ sizeOption t
  | none => by simp [rebuildOption]
  | some t => by
    have := size_branching_le t
    simp [rebuildOption, sizeOption] at *
    omega

theorem sizeFields_branching_le :
    (fs : List (ShapeField TypeExpr)) →
      sizeFields (rebuildFields branching fs).run ≤ sizeFields fs
  | [] => by simp [rebuildFields]
  | ⟨key, t, optional⟩ :: fs => by
    have := size_branching_le t
    have := sizeFields_branching_le fs
    simp [rebuildFields, sizeFields] at *
    omega

theorem sizeParameters_branching_le :
    (ps : List (CallableParameter TypeExpr)) →
      sizeParameters (rebuildParameters branching ps).run ≤ sizeParameters ps
  | [] => by simp [rebuildParameters]
  | ⟨t, optional, variadic, byReference⟩ :: ps => by
    have := size_branching_le t
    have := sizeParameters_branching_le ps
    simp [rebuildParameters, sizeParameters] at *
    omega

end

theorem size_conditionalBranches_le (t : TypeExpr) : (conditionalBranches t).size ≤ t.size :=
  size_branching_le t

end StubCatalog.TypeExpr
