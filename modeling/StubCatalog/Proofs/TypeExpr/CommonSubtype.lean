import StubCatalog.Proofs.TypeExpr.Samples

/-! # Types with a common subtype overlap

A *specific* type is a definite atom other than the type of any value and the empty type. The two
types that contain it are taken apart, down to alternatives of which one contains it, combinations
of which all parts do, or an atom that admits its sample. -/

namespace StubCatalog.TypeExpr

/-- The type is definite and has values of its own, though not all of them. -/
structure Specific (m : TypeExpr) : Prop where
  proper : Proper m
  definite : m.isDefinite
  notMixed : m.isMixed = false
  notNever : m.isNever = false

/-! ### Specific types within others -/

section
variable {m a b : TypeExpr} (hm : Specific m)
include hm

theorem Specific.within_iff (ha : Proper a) : Within m a ↔
      a.normalized.isAny ∨ m.same a.normalized ∨ WithinRule m a.normalized :=
  within_iff_rule (isAtom_of_isDefinite hm.definite) hm.notMixed hm.notNever hm.proper ha

theorem Specific.admits (ha : Proper a) (hrule : m.same a ∨
    atomContained .unknown m a (fun x y _ => isContainedBy x y) = .ok true) :
    Admits (sample m) a := by
  have hmr : m.isRegularNode := hm.proper.regular.here
  rcases hrule with h | h
  · exact admits_of_same hm.definite hmr ha.regular.here h
  · exact admits_of_atomContained hm.definite hmr ha.regular.here h

omit hm in
theorem isAtom_of_admits {s : Sample} (h : Admits s a) : a.isAtom := by
  cases a <;> cases s <;> simp_all [Admits, isAtom, className?, baseName?]

/-- **A specific type lies within another in one of four ways.** -/
theorem Specific.within_cases (ha : Proper a) (h : Within m a) : a.normalized.isAny ∨
    (a.normalized.isUnionLike ∧ ∃ x ∈ membersOf a.normalized, Within m x) ∨
    (a.normalized.isIntersection ∧ ∀ x ∈ intersectionParts a.normalized, Within m x) ∨
    Admits (sample m) a.normalized := by
  have hproper := proper_normalized ha
  rcases (hm.within_iff ha).mp h with hany | hsame | hrule
  · exact Or.inl hany
  · exact Or.inr (Or.inr (Or.inr (hm.admits hproper (Or.inl hsame))))
  · unfold WithinRule at hrule
    split at hrule
    · next hlike => exact Or.inr (Or.inl ⟨hlike, hrule⟩)
    split at hrule
    · next hinter => exact Or.inr (Or.inr (Or.inl ⟨hinter, hrule⟩))
    · exact Or.inr (Or.inr (Or.inr (hm.admits hproper (Or.inr hrule))))

theorem Specific.within_normalized (ha : Proper a) (h : Within m a) : Within m a.normalized := by
  have hfinal : a.normalized.normalized = a.normalized := by
    rcases hm.within_cases ha h with hany | ⟨hlike, -⟩ | ⟨hinter, -⟩ | hadmits
    · exact normalized_of_isAny hany
    · exact normalized_of_isUnionLike hlike
    · exact normalized_of_isIntersection hinter
    · exact normalized_of_isAtom (isAtom_of_admits hadmits)
  rw [Within, isContainedBy_eq] at h ⊢
  rwa [hfinal]

section
variable (ha : Proper a) (h : Within m a)
include ha h

theorem Specific.exists_member (hlike : a.isUnionLike) : ∃ x ∈ membersOf a, Within m x := by
  have hcases := hm.within_cases ha h
  have happart := apart_of_isUnionLike hlike
  rw [normalized_of_isUnionLike hlike] at hcases
  rcases hcases with hany | ⟨-, h⟩ | ⟨hinter, -⟩ | hadmits
  · simp [happart] at hany
  · exact h
  · simp [happart] at hinter
  · have hatom := isAtom_of_admits hadmits
    simp [happart] at hatom

theorem Specific.each_member (hinter : a.isIntersection) :
    ∀ x ∈ intersectionParts a, Within m x := by
  have hcases := hm.within_cases ha h
  have happart := apart_of_isIntersection hinter
  rw [normalized_of_isIntersection hinter] at hcases
  rcases hcases with hany | ⟨hlike, -⟩ | ⟨-, h⟩ | hadmits
  · simp [happart] at hany
  · simp [happart] at hlike
  · exact h
  · have hatom := isAtom_of_admits hadmits
    simp [happart] at hatom

theorem Specific.admits_of_within (hatom : a.isAtom) (hany : a.isAny = false) :
    Admits (sample m) a := by
  have hcases := hm.within_cases ha h
  have happart := apart_of_isAtom hatom
  rw [normalized_of_isAtom hatom, hany] at hcases
  rcases hcases with hany | ⟨hlike, -⟩ | ⟨hinter, -⟩ | hadmits
  · cases hany
  · simp [happart] at hlike
  · simp [happart] at hinter
  · exact hadmits

theorem Specific.isNever_of_within : a.isNever = false := by
  rw [← Bool.not_eq_true]
  intro hnever
  cases a with
  | keyword name =>
    have htext : name.isText := ha.regular.here
    obtain ⟨s, rfl⟩ := Label.exists_of_isText htext
    obtain rfl : s = "never" := by simpa [isNever] using hnever
    have hadmits := hm.admits_of_within ha h rfl rfl
    have hmeet : atomsMeet never never :=
      atomsMeet_of_admits (isSound_sample hm.definite hm.notNever) rfl rfl hadmits hadmits
    exact absurd hmeet (by decide)
  | _ => simp [isNever] at hnever

end

/-! ### Overlap from containment -/

omit hm in
theorem atomsMeet_of_family (h : family? a = none ∨ family? b = none) : atomsMeet a b := by
  unfold atomsMeet
  split
  · rfl
  split
  · rcases h with h | h <;> simp_all
  · rfl

omit hm in
theorem family_eq_none (hlike : ¬ a.isUnionLike) (hinter : ¬ a.isIntersection)
    (hatom : ¬ a.isAtom) : family? a = none := by
  cases a <;> simp_all [isUnionLike, isIntersection, isAtom, family?, className?, baseName?]

omit hm in
/-- **Two types whose compared forms contain a specific type overlap.** The induction is on the two
types together: each step of the rule takes one of them apart and keeps the other one. -/
theorem Specific.overlaps (hm : Specific m) (a b : TypeExpr) (ha : Proper a) (hb : Proper b)
    (hma : Within m a.normalized) (hmb : Within m b.normalized) : Overlaps a b := by
  have hsizeA := size_normalized_le a
  have hsizeB := size_normalized_le b
  have hproperA := proper_normalized ha
  have hproperB := proper_normalized hb
  have hmA := hm.within_normalized hproperA hma
  have hmB := hm.within_normalized hproperB hmb
  by_cases hany : a.normalized.isAny ∨ b.normalized.isAny
  · exact overlaps_of_any hany
  simp only [not_or, Bool.not_eq_true] at hany
  have hnever := And.intro (hm.isNever_of_within hproperA hma) (hm.isNever_of_within hproperB hmb)
  cases hsame : a.normalized.same b.normalized with
  | true => exact overlaps_of_same hany hnever hsame
  | false =>
    rw [overlaps_iff_rule ha hb ⟨hany.1, hany.2, hnever.1, hnever.2, hsame⟩, OverlapRule]
    split
    · next hlikeA =>
      obtain ⟨x, hx, hmx⟩ := hm.exists_member hproperA hma hlikeA
      have hproper := proper_of_mem_membersOf hproperA hx
      have := size_lt_of_mem_membersOf hlikeA hx
      exact ⟨x, hx, hm.overlaps x _ hproper hproperB (hm.within_normalized hproper hmx) hmB⟩
    next hlikeA =>
    split
    · next hlikeB =>
      obtain ⟨x, hx, hmx⟩ := hm.exists_member hproperB hmb hlikeB
      have hproper := proper_of_mem_membersOf hproperB hx
      have := size_lt_of_mem_membersOf hlikeB hx
      exact ⟨x, hx, hm.overlaps _ x hproperA hproper hmA (hm.within_normalized hproper hmx)⟩
    next hlikeB =>
    split
    · next hinterA =>
      intro x hx
      have hproper := proper_of_mem_intersectionParts hproperA hx
      have := size_lt_of_mem_intersectionParts hinterA hx
      exact hm.overlaps x _ hproper hproperB
        (hm.within_normalized hproper (hm.each_member hproperA hma hinterA x hx)) hmB
    next hinterA =>
    split
    · next hinterB =>
      intro x hx
      have hproper := proper_of_mem_intersectionParts hproperB hx
      have := size_lt_of_mem_intersectionParts hinterB hx
      exact hm.overlaps _ x hproperA hproper hmA
        (hm.within_normalized hproper (hm.each_member hproperB hmb hinterB x hx))
    next hinterB =>
    -- What is left of a conditional may be a parameter or a reference, which is no atom.
    by_cases hatoms : a.normalized.isAtom ∧ b.normalized.isAtom
    · exact Or.inr (Or.inr (atomsMeet_of_admits (isSound_sample hm.definite hm.notNever)
        hproperA.regular.here hproperB.regular.here
        (hm.admits_of_within hproperA hma hatoms.1 hany.1)
        (hm.admits_of_within hproperB hmb hatoms.2 hany.2)))
    · refine Or.inr (Or.inr (atomsMeet_of_family ?_))
      rcases Decidable.not_and_iff_or_not.mp hatoms with h | h
      · exact Or.inl (family_eq_none hlikeA hinterA h)
      · exact Or.inr (family_eq_none hlikeB hinterB h)
termination_by a.size + b.size

omit hm in
theorem Specific.overlaps_self (hm : Specific m) (b : TypeExpr) (hb : Proper b)
    (hmb : Within m b.normalized) : Overlaps m b := by
  have hsize := size_normalized_le b
  have hproper := proper_normalized hb
  have hatom := isAtom_of_isDefinite hm.definite
  obtain ⟨hunknownM, hlikeM, hinterM⟩ := apart_of_isAtom hatom
  have hanyM : m.isAny = false := by rw [isAny, hunknownM, hm.notMixed, Bool.or_false]
  have hM : m.normalized = m := normalized_of_isAtom hatom
  cases hany : b.normalized.isAny with
  | true => exact overlaps_of_any (Or.inr hany)
  | false =>
  have hneverM : m.normalized.isNever = false := by rw [hM, hm.notNever]
  have hneverB := hm.isNever_of_within hproper hmb
  cases hsame : m.normalized.same b.normalized with
  | true => exact overlaps_of_same ⟨by rw [hM, hanyM], hany⟩ ⟨hneverM, hneverB⟩ hsame
  | false =>
    rw [overlaps_iff_rule hm.proper hb ⟨by rw [hM, hanyM], hany, hneverM, hneverB, hsame⟩, hM,
      OverlapRule, if_neg (ne_true_of_eq_false hlikeM), if_neg (ne_true_of_eq_false hinterM)]
    split
    · next hlike =>
      obtain ⟨x, hx, hmx⟩ := hm.exists_member hproper hmb hlike
      have hproper := proper_of_mem_membersOf hproper hx
      have := size_lt_of_mem_membersOf hlike hx
      exact ⟨x, hx, hm.overlaps_self x hproper (hm.within_normalized hproper hmx)⟩
    split
    · next hinter =>
      intro x hx
      have hmx := hm.each_member hproper hmb hinter x hx
      have hproper := proper_of_mem_intersectionParts hproper hx
      have := size_lt_of_mem_intersectionParts hinter hx
      exact hm.overlaps_self x hproper (hm.within_normalized hproper hmx)
    · exact Or.inl hmb
termination_by b.size

end

/-! ### Definite types -/

/-- The type is in canonical form, is not empty, and itself and each of its alternatives stand for
values of their own. -/
structure Definite (c : TypeExpr) : Prop where
  proper : Proper c
  canonical : c.IsCanonicalNode
  notNever : c.isNever = false
  members : ∀ m ∈ membersOf c, m.isDefinite

theorem eq_mixed {t : TypeExpr} (ht : Proper t) (h : t.isMixed) : t = mixed := by
  cases t with
  | keyword name =>
    have htext : name.isText := ht.regular.here
    obtain ⟨s, rfl⟩ := Label.exists_of_isText htext
    obtain rfl : s = "mixed" := by simpa [isMixed] using h
    rfl
  | _ => simp [isMixed] at h

theorem Alternatives.exists_not_mixed {ts : List TypeExpr} (hts : Alternatives ts)
    (hproper : ∀ t ∈ ts, Proper t) : ∃ t ∈ ts, t.isMixed = false := by
  obtain ⟨t, u, us, rfl⟩ := exists_cons_cons hts.many
  cases ht : t.isMixed with
  | false => exact ⟨t, by simp, ht⟩
  | true =>
    refine ⟨u, by simp, ?_⟩
    rw [← Bool.not_eq_true]
    intro hu
    have hdiffer : t.same u = false := (List.pairwise_cons.mp hts.apart).1 u (by simp)
    rw [eq_mixed (hproper t (by simp)) ht, eq_mixed (hproper u (by simp)) hu] at hdiffer
    rw [mixed, same] at hdiffer
    exact absurd hdiffer (by decide)

theorem Definite.exists_alternative {c : TypeExpr} (hc : Definite c)
    (hlike : c.isUnionLike) : ∃ m ∈ membersOf c, Specific m := by
  cases c with
  | nullable t => exact ⟨null, by simp [membersOf], ⟨proper_null, rfl, rfl, rfl⟩⟩
  | union ts =>
    have hproper := proper_union.mp hc.proper
    have halternatives : Alternatives ts := hc.canonical
    obtain ⟨m, hm, hmixed⟩ := halternatives.exists_not_mixed hproper
    have hnever := (isAlternative_iff.mp (halternatives.plain m hm)).2.2
    exact ⟨m, hm, ⟨hproper m hm, hc.members m hm, hmixed, hnever⟩⟩
  | _ => simp [isUnionLike] at hlike

theorem Specific.within_of_alternative {c m a : TypeExpr} (hm : Specific m)
    (hlike : c.isUnionLike) (hmem : m ∈ membersOf c) (ha : Proper a) (h : Within c a) :
    Within m a.normalized := by
  have hproper := proper_normalized ha
  rw [Within, isContainedBy_eq, normalized_of_isUnionLike hlike] at h
  unfold containedStep at h
  split at h
  · next hany => exact (hm.within_iff hproper).mpr (Or.inl (by rwa [normalized_of_isAny hany]))
  split at h
  · cases h
  split at h
  · next hnever => simp [apart_of_isUnionLike hlike] at hnever
  split at h
  · next heq =>
    have hlikeA : a.normalized.isUnionLike := (same_kind heq).1 ▸ hlike
    obtain ⟨v, hv, hmv⟩ := exists_same_of_mem_membersOf _ _ heq hmem
    have hproperV := proper_of_mem_membersOf hproper hv
    have hatom := isAtom_of_admits (hm.admits hproperV (Or.inl hmv))
    have hwithin : Within m v :=
      (hm.within_iff hproperV).mpr (Or.inr (Or.inl (by rwa [normalized_of_isAtom hatom])))
    refine (hm.within_iff hproper).mpr (Or.inr (Or.inr ?_))
    rw [normalized_of_isUnionLike hlikeA, WithinRule, if_pos hlikeA]
    exact ⟨v, hv, hwithin⟩
  exact allHold_eq_ok_true.mp h m hmem

theorem isAny_of_within_mixed {a : TypeExpr} (h : Within mixed a) : a.normalized.isAny := by
  rw [Within, isContainedBy_eq, normalized_of_isAtom rfl] at h
  unfold containedStep at h
  split at h
  · next hany => exact hany
  · cases h

theorem Definite.eq_mixed_or_specific {c : TypeExpr} (hc : Definite c)
    (hlike : c.isUnionLike = false) : c = mixed ∨ Specific c := by
  have hmember : c ∈ membersOf c := by simp [membersOf_eq hlike]
  cases hmixed : c.isMixed with
  | true => exact Or.inl (eq_mixed hc.proper hmixed)
  | false => exact Or.inr ⟨hc.proper, hc.members c hmember, hmixed, hc.notNever⟩

section
variable {a b c : TypeExpr} (hc : Definite c)
include hc

theorem Definite.overlaps (ha : Proper a) (hb : Proper b) (hca : Within c a) (hcb : Within c b) :
    Overlaps a b := by
  cases hlike : c.isUnionLike with
  | true =>
    obtain ⟨m, hmem, hm⟩ := hc.exists_alternative hlike
    exact hm.overlaps a b ha hb (hm.within_of_alternative hlike hmem ha hca)
      (hm.within_of_alternative hlike hmem hb hcb)
  | false =>
    rcases hc.eq_mixed_or_specific hlike with rfl | hm
    · exact overlaps_of_any (Or.inl (isAny_of_within_mixed hca))
    · exact hm.overlaps a b ha hb (hm.within_normalized ha hca) (hm.within_normalized hb hcb)

theorem Definite.overlaps_self (hb : Proper b) (hcb : Within c b) : Overlaps c b := by
  cases hlike : c.isUnionLike with
  | true =>
    obtain ⟨m, hmem, hm⟩ := hc.exists_alternative hlike
    have hproper := proper_normalized hb
    have hmB := hm.within_of_alternative hlike hmem hb hcb
    have hC := normalized_of_isUnionLike hlike
    have hanyC : c.normalized.isAny = false := by rw [hC, (apart_of_isUnionLike hlike).1]
    have hneverC : c.normalized.isNever = false := by rw [hC, hc.notNever]
    cases hanyB : b.normalized.isAny with
    | true => exact overlaps_of_any (Or.inr hanyB)
    | false =>
      have hneverB := hm.isNever_of_within hproper hmB
      cases heq : c.normalized.same b.normalized with
      | true => exact overlaps_of_same ⟨hanyC, hanyB⟩ ⟨hneverC, hneverB⟩ heq
      | false =>
        rw [overlaps_iff_rule hc.proper hb ⟨hanyC, hanyB, hneverC, hneverB, heq⟩, hC, OverlapRule,
          if_pos hlike]
        exact ⟨m, hmem, hm.overlaps_self _ hproper (hm.within_normalized hproper hmB)⟩
  | false =>
    rcases hc.eq_mixed_or_specific hlike with rfl | hm
    · exact overlaps_of_any (Or.inl rfl)
    · exact hm.overlaps_self b hb (hm.within_normalized hb hcb)

end

/-- **Containment and overlap never contradict each other.** Two types that both contain a definite
type overlap, and a definite type overlaps whatever contains it. -/
theorem canOverlap_of_common_subtype {a b c : TypeExpr} (ha : Proper a) (hb : Proper b)
    (hc : Definite c) :
    (isContainedBy c a = .ok true → isContainedBy c b = .ok true → canOverlap a b = .ok true) ∧
      (isContainedBy c b = .ok true → canOverlap c b = .ok true) :=
  ⟨hc.overlaps ha hb, hc.overlaps_self hb⟩

/-- One integer, or a text that is not empty. -/
def oneOrText : TypeExpr := .union [.literal (.int 1), .keyword "non-empty-string"]

/-- A scalar that is an integer or a text. -/
def scalarKey : TypeExpr :=
  .intersection [.union [.keyword "int", .keyword "string"], .keyword "scalar"]

/-- A parameter that stands for a positive integer, a text or null. -/
def boundedKey : TypeExpr :=
  .template "T" (some (.nullable (.union [.intRange ⟨.int 1⟩ ⟨.null⟩, .keyword "string"])))

theorem canOverlap_of_common_subtype_keys :
    Definite oneOrText ∧ canOverlap scalarKey boundedKey = .ok true ∧
      canOverlap oneOrText boundedKey = .ok true := by
  have hone : Definite oneOrText := {
    proper := by decide +kernel
    canonical := ⟨by decide, by decide, by decide +kernel⟩
    notNever := rfl
    members := by decide }
  have hwithin : isContainedBy oneOrText scalarKey = .ok true := by decide +kernel
  have hwithin' : isContainedBy oneOrText boundedKey = .ok true := by decide +kernel
  have h := canOverlap_of_common_subtype (a := scalarKey) (b := boundedKey) (by decide +kernel)
    (by decide +kernel) hone
  exact ⟨hone, h.1 hwithin hwithin', h.2 hwithin'⟩

end StubCatalog.TypeExpr
