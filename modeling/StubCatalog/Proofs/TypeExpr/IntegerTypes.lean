import StubCatalog.Proofs.TypeExpr.Samples

/-! # Comparing types of integers

The types of integers are built-in types, single integers and ranges (`IntegerType`). Each is a set
of integers between two bounds (`Spans`), and how two of them compare is a matter of these bounds.
-/

namespace StubCatalog.TypeExpr

section
variable {low high low' high' : Option Int}

theorem boundsWithin_iff (h : InOrder low high) :
    boundsWithin (.ofInt? low) (.ofInt? high) (.ofInt? low') (.ofInt? high') ↔
      integersBetween low high ⊆ integersBetween low' high' := by
  have hlow : (∀ n ∈ integersBetween low high, ∀ l ∈ low', l ≤ n) ↔
      ∀ l' ∈ low', ∃ l ∈ low, l' ≤ l := by
    constructor
    · intro hall l' hl'
      cases low with
      | some l => exact ⟨l, rfl, hall l ⟨by simp, fun u hu => h l rfl u hu⟩ l' hl'⟩
      | none =>
        -- without a lower bound, some integer lies below any other
        exfalso
        have hbelow : min (high.getD l') (l' - 1) ∈ integersBetween none high := by
          refine ⟨by simp, ?_⟩
          rintro u rfl
          simp
        have := hall _ hbelow l' hl'
        omega
    · rintro hall n ⟨hn, -⟩ l' hl'
      obtain ⟨l, hl, hle⟩ := hall l' hl'
      exact hle.trans (hn l hl)
  have hhigh : (∀ n ∈ integersBetween low high, ∀ u ∈ high', n ≤ u) ↔
      ∀ u' ∈ high', ∃ u ∈ high, u ≤ u' := by
    constructor
    · intro hall u' hu'
      cases high with
      | some u => exact ⟨u, rfl, hall u ⟨fun l hl => h l hl u rfl, by simp⟩ u' hu'⟩
      | none =>
        exfalso
        have habove : max (low.getD u') (u' + 1) ∈ integersBetween low none := by
          refine ⟨?_, by simp⟩
          rintro l rfl
          simp
        have := hall _ habove u' hu'
        omega
    · rintro hall n ⟨-, hn⟩ u' hu'
      obtain ⟨u, hu, hle⟩ := hall u' hu'
      exact (hn u hu).trans hle
  have hsubset : integersBetween low high ⊆ integersBetween low' high' ↔
      (∀ n ∈ integersBetween low high, ∀ l ∈ low', l ≤ n) ∧
        ∀ n ∈ integersBetween low high, ∀ u ∈ high', n ≤ u := by
    rw [← forall₂_and]
    exact Iff.rfl
  rw [hsubset, hlow, hhigh]
  cases low <;> cases low' <;> cases high <;> cases high' <;>
    simp [boundsWithin, Bound.ofInt?, Bound.isOpen, Json.le_int_int]

end

/-! ### Types of integers -/

/-- The type is one of integers, and these are the integers that belong to it. -/
inductive IntegerType : TypeExpr → Set Int → Prop
  | int : IntegerType (.keyword "int") Set.univ
  | positive : IntegerType (.keyword "positive-int") { n | 0 < n }
  | negative : IntegerType (.keyword "negative-int") { n | n < 0 }
  | nonNegative : IntegerType (.keyword "non-negative-int") { n | 0 ≤ n }
  | nonPositive : IntegerType (.keyword "non-positive-int") { n | n ≤ 0 }
  | literal (n : Int) : IntegerType (.literal (.int n)) {n}
  | range (low high : Option Int) (h : InOrder low high) :
    IntegerType (.intRange (.ofInt? low) (.ofInt? high)) (integersBetween low high)

/-- The type of integers has the bounds. -/
inductive Spans : TypeExpr → Option Int → Option Int → Prop
  | literal (n : Int) : Spans (.literal (.int n)) (some n) (some n)
  | range (low high : Option Int) : Spans (.intRange (.ofInt? low) (.ofInt? high)) low high
  | keyword {name : String} {low high : Option Int}
    (h : Keyword.ranges.lookup name = some (.ofInt? low, .ofInt? high)) :
    Spans (.keyword name) low high

theorem IntegerType.exists_spans {t : TypeExpr} {s : Set Int} (h : IntegerType t s) :
    ∃ low high, Spans t low high ∧ InOrder low high ∧ s = integersBetween low high := by
  cases h with
  | int => exact ⟨none, none, .keyword rfl, by simp [InOrder], by simp [integersBetween]⟩
  | positive =>
    refine ⟨some 1, none, .keyword rfl, by simp [InOrder], ?_⟩
    ext n
    simp [integersBetween]
    omega
  | negative =>
    refine ⟨none, some (-1), .keyword rfl, by simp [InOrder], ?_⟩
    ext n
    simp [integersBetween]
    omega
  | nonNegative => exact ⟨some 0, none, .keyword rfl, by simp [InOrder], by simp [integersBetween]⟩
  | nonPositive => exact ⟨none, some 0, .keyword rfl, by simp [InOrder], by simp [integersBetween]⟩
  | literal n =>
    exact ⟨some n, some n, .literal n, by simp [InOrder], (integersBetween_self n).symm⟩
  | range low high hle => exact ⟨low, high, .range low high, hle, rfl⟩

section
variable {a b : TypeExpr} {low high low' high' : Option Int} {n : Int}

theorem ofInt?_injective : Function.Injective Bound.ofInt? := by
  intro x y h
  cases x <;> cases y <;> simp_all [Bound.ofInt?]

theorem Spans.isAtom (h : Spans a low high) : a.isAtom ∧ a.isMixed = false ∧ a.isNever = false := by
  cases h with
  | literal n => exact ⟨rfl, rfl, rfl⟩
  | range low high => exact ⟨rfl, rfl, rfl⟩
  | @keyword name low high hlookup =>
    have hlisted : (Keyword.ranges.all fun range => range.1 != "mixed" && range.1 != "never") =
        true := by decide
    have hname := List.all_eq_true.mp hlisted _ (mem_of_lookup hlookup)
    simp only [Bool.and_eq_true, bne_iff_ne] at hname
    exact ⟨rfl, beq_false_of_ne hname.1, beq_false_of_ne hname.2⟩

theorem Spans.eq_of_same (ha : Spans a low high) (hb : Spans b low' high')
    (h : a.same b) : low = low' ∧ high = high' := by
  cases ha with
  | literal n =>
    cases hb with
    | literal m =>
      obtain rfl : n = m := by simpa [same, LiteralValue.same] using h
      exact ⟨rfl, rfl⟩
    | _ => simp [same] at h
  | range =>
    cases hb with
    | range =>
      simp only [same, Bool.and_eq_true] at h
      have hinteger : ∀ x : Option Int, (Bound.ofInt? x).isInteger := by
        rintro (_ | x) <;> rfl
      exact ⟨ofInt?_injective (Bound.eq_of_same (hinteger _) (hinteger _) h.1),
        ofInt?_injective (Bound.eq_of_same (hinteger _) (hinteger _) h.2)⟩
    | _ => simp [same] at h
  | keyword hlookup =>
    cases hb with
    | keyword hlookup' =>
      rw [same] at h
      have hname := Label.eq_of_same rfl rfl h
      cases hname
      rw [hlookup] at hlookup'
      simp only [Option.some.injEq, Prod.mk.injEq] at hlookup'
      exact ⟨ofInt?_injective hlookup'.1, ofInt?_injective hlookup'.2⟩
    | _ => simp [same] at h

/-! ### Containment -/

theorem ancestors_ranges : (Keyword.ranges.all fun x => Keyword.ranges.all fun y =>
    (Keyword.ancestors x.1).contains y.1 == boundsWithin x.2.1 x.2.2 y.2.1 y.2.2) := by
  decide

section
variable {h : Hierarchy} (hspan : Spans a low high) (horder : InOrder low high)
include hspan

theorem exists_contained_literal {ask : Parts a (.literal (.int n))} :
    ∃ r, atomContained h a (.literal (.int n)) ask = .ok r ∧
      (r → integersBetween low high ⊆ {n}) := by
  cases hspan with
  | literal m =>
    refine ⟨_, rfl, fun hsame => ?_⟩
    obtain rfl : m = n := by simpa [LiteralValue.same] using hsame
    rw [integersBetween_self]
  | range => exact ⟨false, rfl, by simp⟩
  | keyword => exact ⟨false, rfl, by simp⟩

include horder

theorem exists_contained_range {ask : Parts a (.intRange (.ofInt? low') (.ofInt? high'))} :
    ∃ r, atomContained h a (.intRange (.ofInt? low') (.ofInt? high')) ask = .ok r ∧
      (r ↔ integersBetween low high ⊆ integersBetween low' high') := by
  cases hspan with
  | literal m =>
    refine ⟨_, rfl, ?_⟩
    rw [integersBetween_self, Set.singleton_subset_iff, mem_integersBetween]
    exact Iff.rfl
  | range => exact ⟨_, rfl, boundsWithin_iff horder⟩
  | @keyword name low high hlookup =>
    refine ⟨_, rfl, ?_⟩
    have hrange : withinRange (.keyword name) (.ofInt? low') (.ofInt? high') =
        boundsWithin (.ofInt? low) (.ofInt? high) (.ofInt? low') (.ofInt? high') := by
      simp only [withinRange]
      rw [show Keyword.ranges.lookup (Label.text name) = _ from hlookup]
    rw [hrange, boundsWithin_iff horder]

theorem exists_contained_keyword {name : String} {ask : Parts a (.keyword name)}
    (hlookup : Keyword.ranges.lookup name = some (.ofInt? low', .ofInt? high')) :
    ∃ r, atomContained h a (.keyword name) ask = .ok r ∧
      (r ↔ integersBetween low high ⊆ integersBetween low' high') := by
  cases hspan with
  | literal m =>
    refine ⟨literalInKeyword (.int m) name, ?_, ?_⟩
    · show (if literalInKeyword (.int m) name then Except.ok true else .ok false) = _
      cases literalInKeyword (.int m) name <;> rfl
    · rw [integersBetween_self, Set.singleton_subset_iff, mem_integersBetween]
      simp only [literalInKeyword, hlookup]
  | range =>
    refine ⟨_, rfl, ?_⟩
    rw [← boundsWithin_iff horder]
    show rangeInKeyword _ _ name ↔ _
    simp only [rangeInKeyword, hlookup]
  | @keyword name' low high hlookup' =>
    refine ⟨(Keyword.ancestors name').contains name, ?_, ?_⟩
    · show (if (Keyword.ancestors name').contains name then Except.ok true else .ok false) = _
      cases (Keyword.ancestors name').contains name <;> rfl
    · have hlisted := List.all_eq_true.mp
        (List.all_eq_true.mp ancestors_ranges _ (mem_of_lookup hlookup')) _ (mem_of_lookup hlookup)
      rw [beq_iff_eq.mp hlisted, boundsWithin_iff horder]

end

theorem normalize_of_isAtom (h : Hierarchy) (ha : a.isAtom) : normalize h a = (a, false) := by
  cases a <;> simp_all [isAtom, normalize]

theorem containedStep_integers {h : Hierarchy} (ha : Spans a low high) (hb : Spans b low' high')
    (ask : Parts a b) :
    containedStep h a b ask = if a.same b then .ok true else atomContained h a b ask := by
  obtain ⟨hatomA, hmixedA, hneverA⟩ := ha.isAtom
  obtain ⟨hatomB, hmixedB, -⟩ := hb.isAtom
  obtain ⟨hunknownA, hlikeA, -⟩ := apart_of_isAtom hatomA
  obtain ⟨hunknownB, hlikeB, -⟩ := apart_of_isAtom hatomB
  unfold containedStep
  rw [if_neg (by simp [hunknownB, hmixedB]), if_neg (by simp [hunknownA, hmixedA]),
    if_neg (by simp [hneverA])]
  congr 1
  rw [dif_neg (by simp [hlikeA])]
  split
  · cases hatomA
  rw [dif_neg (by simp [hlikeB])]
  split
  · cases hatomB
  · rfl

theorem comparedWith_integers {h : Hierarchy} {step : (a b : TypeExpr) → Parts a b → Verdict}
    {deeper : TypeExpr → TypeExpr → Verdict} (ha : Spans a low high) (hb : Spans b low' high') :
    comparedWith h step deeper a b = step a b fun x y _ => comparedWith h step deeper x y := by
  have hnormalA := normalize_of_isAtom h ha.isAtom.1
  have hnormalB := normalize_of_isAtom h hb.isAtom.1
  rw [comparedWith, dif_pos ⟨by rw [hnormalA], by rw [hnormalB]⟩, hnormalA, hnormalB]

theorem isContainedBy_integers (h : Hierarchy) (ha : Spans a low high) (hb : Spans b low' high') :
    ∃ ask, isContainedBy a b h = if a.same b then .ok true else atomContained h a b ask := by
  show ∃ ask, comparedWith h _ (containedWithin h 449) a b = _
  rw [comparedWith_integers ha hb]
  exact ⟨_, containedStep_integers ha hb _⟩

/-- **Containment of types of integers** has an answer. A positive one is right, and a negative one
too unless it is about a single integer. -/
theorem exists_contained (h : Hierarchy) (ha : Spans a low high) (horder : InOrder low high)
    (hb : Spans b low' high') :
    ∃ r, isContainedBy a b h = .ok r ∧ (r → integersBetween low high ⊆ integersBetween low' high') ∧
      ((∀ v, b ≠ .literal v) → integersBetween low high ⊆ integersBetween low' high' → r) := by
  obtain ⟨ask, hstep⟩ := isContainedBy_integers h ha hb
  rw [hstep]
  by_cases hsame : a.same b
  · obtain ⟨rfl, rfl⟩ := ha.eq_of_same hb hsame
    rw [if_pos hsame]
    exact ⟨true, rfl, fun _ => Set.Subset.rfl, fun _ _ => rfl⟩
  · rw [if_neg hsame]
    cases hb with
    | literal n =>
      obtain ⟨r, hr, hsound⟩ := exists_contained_literal ha
      rw [integersBetween_self]
      exact ⟨r, hr, hsound, fun hne => absurd rfl (hne _)⟩
    | range =>
      obtain ⟨r, hr, hiff⟩ := exists_contained_range ha horder
      exact ⟨r, hr, hiff.mp, fun _ => hiff.mpr⟩
    | keyword hlookup =>
      obtain ⟨r, hr, hiff⟩ := exists_contained_keyword ha horder hlookup
      exact ⟨r, hr, hiff.mp, fun _ => hiff.mpr⟩

/-! ### Overlap -/

theorem Spans.rangeOf (h : Spans a low high) (hliteral : ∀ v, a ≠ .literal v) :
    rangeOf? a = some (.ofInt? low, .ofInt? high) := by
  cases h with
  | literal n => exact absurd rfl (hliteral _)
  | range => rfl
  | @keyword name low high hlookup =>
    simp only [rangeOf?]
    rw [show Keyword.ranges.lookup (Label.text name) = _ from hlookup]

theorem literalMeets_iff (h : Spans a low high) (hliteral : ∀ v, a ≠ .literal v) :
    literalMeets (.int n) a ↔ n ∈ integersBetween low high := by
  rw [mem_integersBetween]
  cases h with
  | literal n => exact absurd rfl (hliteral _)
  | range => exact Iff.rfl
  | @keyword name low high hlookup =>
    show (literalInKeyword (.int n) name || (name == "callable" && false)) ↔ _
    rw [Bool.and_false, Bool.or_false, literalInKeyword, hlookup]

theorem atomsMeet_iff (ha : Spans a low high) (hb : Spans b low' high') :
    atomsMeet a b ↔ (integersBetween low high ∩ integersBetween low' high').Nonempty := by
  have hranges : (∀ v, a ≠ .literal v) → (∀ v, b ≠ .literal v) → (rangesMeet a b ↔
        (integersBetween low high ∩ integersBetween low' high').Nonempty) := by
    intro hliteralA hliteralB
    rw [rangesMeet, ha.rangeOf hliteralA, hb.rangeOf hliteralB, ← boundsMeet_iff]
  cases ha with
  | literal n =>
    rw [integersBetween_self, Set.singleton_inter_nonempty]
    cases hb with
    | literal m =>
      rw [integersBetween_self, Set.mem_singleton_iff]
      show LiteralValue.same (.int n) (.int m) ↔ _
      simp [LiteralValue.same]
    | range => exact literalMeets_iff (.range _ _) (by simp)
    | keyword hlookup => exact literalMeets_iff (.keyword hlookup) (by simp)
  | range =>
    cases hb with
    | literal m =>
      rw [integersBetween_self, Set.inter_singleton_nonempty]
      exact literalMeets_iff (.range _ _) (by simp)
    | range => exact hranges (by simp) (by simp)
    | keyword => exact hranges (by simp) (by simp)
  | @keyword name low high hlookup =>
    cases hb with
    | literal m =>
      rw [integersBetween_self, Set.inter_singleton_nonempty]
      exact literalMeets_iff (.keyword hlookup) (by simp)
    | range => exact hranges (by simp) (by simp)
    | @keyword name' low' high' hlookup' =>
      rw [← hranges (by simp) (by simp)]
      show (if (Keyword.ranges.lookup name).isSome && (Keyword.ranges.lookup name').isSome then
        rangesMeet _ _ else _) ↔ _
      rw [hlookup, hlookup']
      rfl

theorem overlapStep_integers {contained : TypeExpr → TypeExpr → Verdict} (ha : Spans a low high)
    (hb : Spans b low' high') (ask : Parts a b) :
    overlapStep contained a b ask = if a.same b then .ok true else do
      if ← contained a b then return true
      if ← contained b a then return true
      return atomsMeet a b := by
  obtain ⟨hatomA, hmixedA, hneverA⟩ := ha.isAtom
  obtain ⟨hatomB, hmixedB, hneverB⟩ := hb.isAtom
  obtain ⟨hunknownA, hlikeA, -⟩ := apart_of_isAtom hatomA
  obtain ⟨hunknownB, hlikeB, -⟩ := apart_of_isAtom hatomB
  unfold overlapStep
  rw [if_neg (by simp [hunknownA, hunknownB, hmixedA, hmixedB]),
    if_neg (by simp [hneverA, hneverB])]
  congr 1
  rw [dif_neg (by simp [hlikeA]), dif_neg (by simp [hlikeB])]
  split
  · cases hatomA
  split
  · cases hatomB
  · rfl

theorem canOverlap_integers (h : Hierarchy) (ha : Spans a low high) (hb : Spans b low' high') :
    canOverlap a b h = if a.same b then .ok true else do
      if ← isContainedBy a b h then return true
      if ← isContainedBy b a h then return true
      return atomsMeet a b := by
  show comparedWith h _ (overlapWithin h 449) a b = _
  rw [comparedWith_integers ha hb]
  exact overlapStep_integers ha hb _

theorem exists_overlap (h : Hierarchy) (ha : Spans a low high) (horder : InOrder low high)
    (hb : Spans b low' high') (horder' : InOrder low' high') :
    ∃ r, canOverlap a b h = .ok r ∧
      (r ↔ (integersBetween low high ∩ integersBetween low' high').Nonempty) := by
  rw [canOverlap_integers h ha hb]
  have hnonempty := nonempty_integersBetween.mpr horder
  have hnonempty' := nonempty_integersBetween.mpr horder'
  by_cases hsame : a.same b
  · obtain ⟨rfl, rfl⟩ := ha.eq_of_same hb hsame
    rw [if_pos hsame, Set.inter_self]
    exact ⟨true, rfl, iff_of_true rfl hnonempty⟩
  · rw [if_neg hsame]
    obtain ⟨r, hr, hsound, -⟩ := exists_contained h ha horder hb
    obtain ⟨r', hr', hsound', -⟩ := exists_contained h hb horder' ha
    rw [hr, hr']
    cases r with
    | true =>
      refine ⟨true, rfl, iff_of_true rfl ?_⟩
      rwa [Set.inter_eq_left.mpr (hsound rfl)]
    | false =>
      cases r' with
      | true =>
        refine ⟨true, rfl, iff_of_true rfl ?_⟩
        rwa [Set.inter_eq_right.mpr (hsound' rfl)]
      | false => exact ⟨_, rfl, atomsMeet_iff ha hb⟩

end

/-- **Integers are compared exactly.** Two types of integers overlap if and only if some integer
belongs to both, and one is contained in another that is no single integer if and only if every
integer of the one belongs to the other, whatever is known about classes. -/
theorem integers_compared_exactly {a b : TypeExpr} {A B : Set Int} (ha : IntegerType a A)
    (hb : IntegerType b B) (h : Hierarchy) :
    (∃ r, canOverlap a b h = .ok r ∧ (r = true ↔ (A ∩ B).Nonempty)) ∧
      ((∀ v, b ≠ .literal v) → ∃ r, isContainedBy a b h = .ok r ∧ (r = true ↔ A ⊆ B)) := by
  obtain ⟨low, high, hspan, horder, rfl⟩ := ha.exists_spans
  obtain ⟨low', high', hspan', horder', rfl⟩ := hb.exists_spans
  refine ⟨exists_overlap h hspan horder hspan' horder', fun hliteral => ?_⟩
  obtain ⟨r, hr, hsound, hcomplete⟩ := exists_contained h hspan horder hspan'
  exact ⟨r, hr, hsound, hcomplete hliteral⟩

/-- The integers up to zero and the negative integers overlap, and the former are not contained in
the latter, for zero. -/
theorem integers_compared_exactly_zero :
    IntegerType (.intRange (.ofInt? none) (.ofInt? (some 0))) (integersBetween none (some 0)) ∧
      IntegerType (.keyword "negative-int") { n | n < 0 } ∧
      canOverlap (.intRange (.ofInt? none) (.ofInt? (some 0))) (.keyword "negative-int") = .ok true ∧
      isContainedBy (.intRange (.ofInt? none) (.ofInt? (some 0))) (.keyword "negative-int") =
        .ok false := by
  have hrange : IntegerType _ _ := .range none (some 0) (by simp [InOrder])
  obtain ⟨⟨r, hr, hoverlap⟩, hcontained⟩ :=
    integers_compared_exactly hrange .negative Hierarchy.unknown
  obtain ⟨s, hs, hcontained⟩ := hcontained (by simp)
  refine ⟨hrange, .negative, ?_, ?_⟩
  · rw [hr, hoverlap.mpr ⟨-1, by simp [integersBetween], by simp⟩]
  · have hzero : ¬ integersBetween none (some 0) ⊆ { n | n < 0 } := fun hsub =>
      absurd (hsub (show (0 : Int) ∈ _ by simp [integersBetween])) (by simp)
    rw [hs, Bool.eq_false_iff.mpr (mt hcontained.mp hzero)]

end StubCatalog.TypeExpr
