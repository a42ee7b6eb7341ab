import StubCatalog.Proofs.TypeExpr.Samples

/-! # Overlap in either order

Overlap takes alternatives apart before combinations, and those of the first type before those of
the second, so the answers can differ with the order. They agree for types that can be taken apart
in either order (`Orderly`). -/

namespace StubCatalog.TypeExpr

open List

variable {t a b y : TypeExpr}

/-! ### Atoms -/

theorem boundsMeet_comm {a b : Bound × Bound} (ha : areIntegers a)
    (hb : areIntegers b) : boundsMeet a b = boundsMeet b a := by
  obtain ⟨l, u, rfl⟩ := exists_of_areIntegers ha
  obtain ⟨l', u', rfl⟩ := exists_of_areIntegers hb
  rw [Bool.eq_iff_iff, boundsMeet_iff, boundsMeet_iff, Set.inter_comm]

theorem areIntegers_rangeOf (ht : t.isRegularNode) {r : Bound × Bound}
    (h : rangeOf? t = some r) : areIntegers r := by
  have hlisted : ∀ pair ∈ Keyword.ranges, areIntegers pair.2 := by decide
  unfold rangeOf? at h
  split at h
  · cases h
    exact ht
  dsimp only at h
  split at h
  · next range hrange =>
    cases h
    split at hrange
    · next name _ => exact hlisted (name.text, r) (mem_of_lookup hrange)
    · cases hrange
  split at h
  · split at h
    · cases h
      rfl
    · cases h
  · cases h

theorem rangesMeet_comm (ha : a.isRegularNode)
    (hb : b.isRegularNode) : rangesMeet a b = rangesMeet b a := by
  unfold rangesMeet
  cases hx : rangeOf? a with
  | none => cases rangeOf? b <;> rfl
  | some x =>
    cases hy : rangeOf? b with
    | none => rfl
    | some y => exact boundsMeet_comm (areIntegers_rangeOf ha hx) (areIntegers_rangeOf hb hy)

theorem areSiblings_comm (x y : String) : areSiblings x y = areSiblings y x := by
  rw [Bool.eq_iff_iff]
  simp only [areSiblings, contains_iff_mem, mem_cons, Prod.mk.injEq, not_mem_nil,
    or_false]
  grind

theorem any_contains_comm {α : Type} [BEq α] [LawfulBEq α] (xs ys : List α) :
    xs.any ys.contains = ys.any xs.contains := by
  rw [Bool.eq_iff_iff]
  simp only [any_eq_true, contains_iff_mem]
  exact exists_congr fun _ => and_comm

theorem atomsMeet_comm (ha : a.isRegularNode)
    (hb : b.isRegularNode) : atomsMeet a b = atomsMeet b a := by
  unfold atomsMeet
  rw [Bool.and_comm]
  split
  · rfl
  cases hx : family? a with
  | none => cases family? b <;> rfl
  | some x =>
    cases hy : family? b with
    | none => rfl
    | some y =>
      have hdefault : (if (Keyword.ranges.lookup x).isSome && (Keyword.ranges.lookup y).isSome
            then rangesMeet a b
          else if areSiblings x y then false
          else (Keyword.domain x).any (Keyword.domain y).contains) =
          (if (Keyword.ranges.lookup y).isSome && (Keyword.ranges.lookup x).isSome
            then rangesMeet b a
          else if areSiblings y x then false
          else (Keyword.domain y).any (Keyword.domain x).contains) := by
        rw [Bool.and_comm, rangesMeet_comm ha hb, areSiblings_comm, any_contains_comm]
      cases a with
      | literal u =>
        cases b with
        | literal v => exact LiteralValue.same_comm u v
        | _ => rfl
      | intRange low high =>
        cases b with
        | literal v => rfl
        | _ => exact rangesMeet_comm ha hb
      | _ =>
        cases b with
        | literal v => rfl
        | intRange low high => exact rangesMeet_comm ha hb
        | _ => exact hdefault

/-! ### Comparisons with an atom -/

/-- The type is compared as it is. -/
def isSettled : TypeExpr → Bool
  | .template .. | .conditional .. | .memberReference .. => false
  | _ => true

theorem normalized_of_isSettled (h : t.isSettled) : t.normalized = t := by
  cases t <;> simp_all [isSettled, normalized, normalize]

theorem isSettled_of_isUnionLike (h : t.isUnionLike) : t.isSettled := by
  cases t <;> simp_all [isUnionLike, isSettled]

section
variable {a b : TypeExpr}

theorem overlaps_normalized_left (h : a.normalized.isSettled) :
    Overlaps a.normalized b ↔ Overlaps a b := by
  rw [Overlaps, canOverlap_eq, normalized_of_isSettled h, ← canOverlap_eq, Overlaps]

theorem overlaps_normalized_right (h : b.normalized.isSettled) :
    Overlaps a b.normalized ↔ Overlaps a b := by
  rw [Overlaps, canOverlap_eq, normalized_of_isSettled h, ← canOverlap_eq, Overlaps]

theorem overlaps_comm_of_rule (ha : Proper a) (hb : Proper b)
    (h : Unsettled a.normalized b.normalized →
      (OverlapRule a.normalized b.normalized ↔ OverlapRule b.normalized a.normalized)) :
    Overlaps a b ↔ Overlaps b a := by
  by_cases hany : a.normalized.isAny ∨ b.normalized.isAny
  · exact iff_of_true (overlaps_of_any hany) (overlaps_of_any hany.symm)
  simp only [not_or, Bool.not_eq_true] at hany
  by_cases hnever : a.normalized.isNever ∨ b.normalized.isNever
  · exact iff_of_false (not_overlaps_of_never hany hnever)
      (not_overlaps_of_never hany.symm hnever.symm)
  simp only [not_or, Bool.not_eq_true] at hnever
  have hcomm := same_comm (proper_normalized ha).regular (proper_normalized hb).regular
  cases hsame : a.normalized.same b.normalized with
  | true =>
    exact iff_of_true (overlaps_of_same hany hnever hsame)
      (overlaps_of_same hany.symm hnever.symm (hcomm ▸ hsame))
  | false =>
    have hopen : Unsettled a.normalized b.normalized := ⟨hany.1, hany.2, hnever.1, hnever.2, hsame⟩
    rw [overlaps_iff_rule ha hb hopen, overlaps_iff_rule hb ha
      ⟨hany.2, hany.1, hnever.2, hnever.1, hcomm ▸ hsame⟩]
    exact h hopen

end

/-- **A type and an atom are compared alike in either order.** The induction is on the type; the
atom stays. -/
theorem overlaps_comm_of_atom {y : TypeExpr} (hy : Proper y) (hsettled : y.isSettled)
    (hlike : ¬ y.isUnionLike) (hinter : ¬ y.isIntersection) (x : TypeExpr)
    (hx : Proper x) : Overlaps x y ↔ Overlaps y x := by
  have hsize := size_normalized_le x
  have hproper := proper_normalized hx
  refine overlaps_comm_of_rule hx hy fun _ => ?_
  rw [normalized_of_isSettled hsettled]
  unfold OverlapRule
  rw [if_neg hlike, if_neg hlike, if_neg hinter, if_neg hinter]
  split
  · next hlikeX =>
    refine exists_congr fun m => and_congr_right fun hm => ?_
    have := size_lt_of_mem_membersOf hlikeX hm
    exact overlaps_comm_of_atom hy hsettled hlike hinter m (proper_of_mem_membersOf hproper hm)
  split
  · next hinterX =>
    refine forall_congr' fun m => forall_congr' fun hm => ?_
    have := size_lt_of_mem_intersectionParts hinterX hm
    exact overlaps_comm_of_atom hy hsettled hlike hinter m
      (proper_of_mem_intersectionParts hproper hm)
  · rw [or_left_comm, atomsMeet_comm hproper.regular.here hy.regular.here]
termination_by x.size

/-! ### Comparisons of combinations -/

/-- The type is compared as neither alternatives nor a combination, and has a value. -/
structure Single (t : TypeExpr) : Prop where
  settled : t.normalized.isSettled
  notUnionLike : t.normalized.isUnionLike = false
  notIntersection : t.normalized.isIntersection = false
  notNever : t.normalized.isNever = false

instance (t : TypeExpr) : Decidable (Single t) :=
  decidable_of_iff (t.normalized.isSettled ∧ t.normalized.isUnionLike = false ∧
    t.normalized.isIntersection = false ∧ t.normalized.isNever = false)
    ⟨fun ⟨hs, hu, hi, hn⟩ => ⟨hs, hu, hi, hn⟩, fun ⟨hs, hu, hi, hn⟩ => ⟨hs, hu, hi, hn⟩⟩

theorem Single.overlaps_iff {u : TypeExpr} (hu : Single u) (hproper : Proper u) (hy : Proper y)
    (hinter : y.isIntersection) :
    Overlaps u y ↔ ∀ v ∈ intersectionParts y, Overlaps u v := by
  have hY := normalized_of_isIntersection hinter
  obtain ⟨hanyY, hneverY, hlikeY, -⟩ := apart_of_isIntersection hinter
  cases hany : u.normalized.isAny with
  | true =>
    exact iff_of_true (overlaps_of_any (Or.inl hany)) fun v _ => overlaps_of_any (Or.inl hany)
  | false =>
    have hopen : Unsettled u.normalized y.normalized := {
      anyLeft := hany
      anyRight := by rw [hY, hanyY]
      neverLeft := hu.notNever
      neverRight := by rw [hY, hneverY]
      differ := by
        rw [hY, ← Bool.not_eq_true]
        intro hsame
        have := (same_kind hsame).2
        rw [hu.notIntersection, hinter] at this
        cases this }
    rw [overlaps_iff_rule hproper hy hopen, hY, OverlapRule, if_neg (by simp [hu.notUnionLike]),
      if_neg (by simp [hlikeY]), if_neg (by simp [hu.notIntersection]), if_pos hinter]
    exact forall_congr' fun v => forall_congr' fun _ => overlaps_normalized_left hu.settled

theorem Single.overlaps_comm {u v : TypeExpr} (hv : Single v) (hproperU : Proper u)
    (hproperV : Proper v) : Overlaps u v ↔ Overlaps v u := by
  rw [← overlaps_normalized_right hv.settled, ← overlaps_normalized_left hv.settled]
  exact overlaps_comm_of_atom (proper_normalized hproperV) hv.settled (by simp [hv.notUnionLike])
    (by simp [hv.notIntersection]) u hproperU

theorem overlaps_comm_of_singles {x : TypeExpr} (hx : Proper x) (hy : Proper y)
    (hinterX : x.isIntersection) (hinterY : y.isIntersection)
    (hsinglesX : ∀ u ∈ intersectionParts x, Single u)
    (hsinglesY : ∀ v ∈ intersectionParts y, Single v) : Overlaps x y ↔ Overlaps y x := by
  have hlikeX : ¬ x.isUnionLike := by simp [apart_of_isIntersection hinterX]
  have hlikeY : ¬ y.isUnionLike := by simp [apart_of_isIntersection hinterY]
  refine overlaps_comm_of_rule hx hy fun _ => ?_
  rw [normalized_of_isIntersection hinterX, normalized_of_isIntersection hinterY]
  unfold OverlapRule
  rw [if_neg hlikeX, if_neg hlikeY, if_pos hinterX, if_neg hlikeY, if_neg hlikeX, if_pos hinterY]
  have hleft : (∀ u ∈ intersectionParts x, Overlaps u y) ↔
      ∀ u ∈ intersectionParts x, ∀ v ∈ intersectionParts y, Overlaps u v :=
    forall_congr' fun u => forall_congr' fun hu =>
      (hsinglesX u hu).overlaps_iff (proper_of_mem_intersectionParts hx hu) hy hinterY
  have hright : (∀ v ∈ intersectionParts y, Overlaps v x) ↔
      ∀ v ∈ intersectionParts y, ∀ u ∈ intersectionParts x, Overlaps v u :=
    forall_congr' fun v => forall_congr' fun hv =>
      (hsinglesY v hv).overlaps_iff (proper_of_mem_intersectionParts hy hv) hx hinterX
  have hcomm : ∀ u ∈ intersectionParts x, ∀ v ∈ intersectionParts y, Overlaps u v ↔ Overlaps v u :=
    fun u hu v hv => (hsinglesY v hv).overlaps_comm (proper_of_mem_intersectionParts hx hu)
      (proper_of_mem_intersectionParts hy hv)
  rw [hleft, hright]
  exact ⟨fun h v hv u hu => (hcomm u hu v hv).mp (h u hu v hv),
    fun h u hu v hv => (hcomm u hu v hv).mpr (h v hv u hu)⟩

/-! ### Choices -/

/-- What the alternatives of a type come down to: a type that is compared as a union has the choices
of its members. -/
def choices (t : TypeExpr) : List TypeExpr :=
  if h : t.normalized.isUnionLike then
    (membersOf t.normalized).attach.flatMap fun m =>
      have := size_lt_of_mem_membersOf h m.2
      have := size_normalized_le t
      choices m.1
  else [t.normalized]
termination_by t.size

/-- The members of a type that is compared as a union, their members and so on. -/
def alternativesWithin (t : TypeExpr) : List TypeExpr :=
  if h : t.normalized.isUnionLike then
    (membersOf t.normalized).attach.flatMap fun m =>
      have := size_lt_of_mem_membersOf h m.2
      have := size_normalized_le t
      m.1 :: alternativesWithin m.1
  else []
termination_by t.size

section
variable {t u x : TypeExpr}

theorem mem_choices (h : t.normalized.isUnionLike) :
    x ∈ choices t ↔ ∃ m ∈ membersOf t.normalized, x ∈ choices m := by
  rw [choices, dif_pos h]
  simp

theorem choices_eq (h : ¬ t.normalized.isUnionLike) : choices t = [t.normalized] := by
  rw [choices, dif_neg h]

theorem mem_alternativesWithin (h : t.normalized.isUnionLike) : x ∈ alternativesWithin t ↔
      ∃ m ∈ membersOf t.normalized, x = m ∨ x ∈ alternativesWithin m := by
  rw [alternativesWithin, dif_pos h]
  simp

theorem proper_of_mem_choices (t : TypeExpr) (ht : Proper t) (hx : x ∈ choices t) :
    Proper x ∧ x.isUnionLike = false := by
  have hproper := proper_normalized ht
  by_cases hlike : t.normalized.isUnionLike
  · obtain ⟨m, hm, hx⟩ := (mem_choices hlike).mp hx
    have := size_lt_of_mem_membersOf hlike hm
    have := size_normalized_le t
    exact proper_of_mem_choices m (proper_of_mem_membersOf hproper hm) hx
  · rw [choices_eq hlike, mem_singleton] at hx
    exact ⟨hx ▸ hproper, hx ▸ Bool.not_eq_true _ ▸ hlike⟩
termination_by t.size

theorem proper_of_mem_alternativesWithin (t : TypeExpr) (ht : Proper t)
    (hx : x ∈ alternativesWithin t) : Proper x := by
  by_cases hlike : t.normalized.isUnionLike
  · obtain ⟨m, hm, hx⟩ := (mem_alternativesWithin hlike).mp hx
    have hproper := proper_of_mem_membersOf (proper_normalized ht) hm
    have := size_lt_of_mem_membersOf hlike hm
    have := size_normalized_le t
    rcases hx with rfl | hx
    · exact hproper
    · exact proper_of_mem_alternativesWithin m hproper hx
  · rw [alternativesWithin, dif_neg hlike] at hx
    cases hx
termination_by t.size

end

/-- Two types have some choice other than the empty type in common. -/
def ChoicesOverlap (a b : TypeExpr) : Prop :=
  ∃ x ∈ choices a, ∃ y ∈ choices b, x.isNever = false ∧ y.isNever = false ∧ Overlaps x y

/-- Some choice is not the empty type. -/
def Live (t : TypeExpr) : Prop := ∃ x ∈ choices t, x.isNever = false

/-- The type is proper, and all of its choices are compared as they are. -/
structure Choosable (t : TypeExpr) : Prop where
  proper : Proper t
  settled : ∀ x ∈ choices t, x.isSettled

/-- Equal alternatives of the two types are compared as equal types: a parameter, for one, has one
bound in both. -/
def Agree (a b : TypeExpr) : Prop :=
  ∀ m ∈ alternativesWithin a, ∀ v ∈ alternativesWithin b, m.same v → m.normalized.same v.normalized

instance (t : TypeExpr) : Decidable (Live t) :=
  inferInstanceAs (Decidable (∃ x ∈ choices t, x.isNever = false))

instance (t : TypeExpr) : Decidable (Choosable t) :=
  decidable_of_iff (Proper t ∧ ∀ x ∈ choices t, x.isSettled)
    ⟨fun ⟨hp, hs⟩ => ⟨hp, hs⟩, fun ⟨hp, hs⟩ => ⟨hp, hs⟩⟩

instance (a b : TypeExpr) : Decidable (Agree a b) :=
  inferInstanceAs (Decidable (∀ m ∈ alternativesWithin a, ∀ v ∈ alternativesWithin b,
    m.same v → m.normalized.same v.normalized))

section
variable {a b m x : TypeExpr}

theorem Choosable.isSettled (ha : Choosable a) : a.normalized.isSettled := by
  by_cases hlike : a.normalized.isUnionLike
  · exact isSettled_of_isUnionLike hlike
  · exact ha.settled _ (by simp [choices_eq hlike])

theorem Choosable.member (ha : Choosable a) (hlike : a.normalized.isUnionLike)
    (hm : m ∈ membersOf a.normalized) : Choosable m where
  proper := proper_of_mem_membersOf (proper_normalized ha.proper) hm
  settled := fun x hx => ha.settled x ((mem_choices hlike).mpr ⟨m, hm, hx⟩)

theorem Agree.symm (ha : Proper a) (hb : Proper b) (h : Agree a b) : Agree b a := by
  intro v hv m hm hsame
  have hproperM := proper_of_mem_alternativesWithin a ha hm
  have hproperV := proper_of_mem_alternativesWithin b hb hv
  rw [same_comm hproperV.regular hproperM.regular] at hsame
  rw [same_comm (proper_normalized hproperV).regular (proper_normalized hproperM).regular]
  exact h m hm v hv hsame

theorem Agree.left (h : Agree a b) (hlike : a.normalized.isUnionLike)
    (hm : m ∈ membersOf a.normalized) : Agree m b :=
  fun x hx => h x ((mem_alternativesWithin hlike).mpr ⟨m, hm, Or.inr hx⟩)

theorem Agree.right (h : Agree a b) (hlike : b.normalized.isUnionLike)
    (hm : m ∈ membersOf b.normalized) : Agree a m :=
  fun x hx v hv => h x hx v ((mem_alternativesWithin hlike).mpr ⟨m, hm, Or.inr hv⟩)

end

theorem exists_same_choice (t u : TypeExpr) (h : t.normalized.same u.normalized)
    (hagree : Agree t u) {x : TypeExpr} (hx : x ∈ choices t) :
    ∃ y ∈ choices u, x.same y := by
  have hkind := (same_kind h).1
  by_cases hlike : t.normalized.isUnionLike
  · have hlike' : u.normalized.isUnionLike := hkind ▸ hlike
    obtain ⟨m, hm, hx⟩ := (mem_choices hlike).mp hx
    obtain ⟨v, hv, hsame⟩ := exists_same_of_mem_membersOf _ _ h hm
    have hcompared := hagree m ((mem_alternativesWithin hlike).mpr ⟨m, hm, Or.inl rfl⟩) v
      ((mem_alternativesWithin hlike').mpr ⟨v, hv, Or.inl rfl⟩) hsame
    have := size_lt_of_mem_membersOf hlike hm
    have := size_normalized_le t
    obtain ⟨y, hy, hxy⟩ := exists_same_choice m v hcompared
      ((hagree.left hlike hm).right hlike' hv) hx
    exact ⟨y, (mem_choices hlike').mpr ⟨v, hv, hy⟩, hxy⟩
  · rw [choices_eq hlike, mem_singleton] at hx
    rw [choices_eq (hkind ▸ hlike)]
    exact ⟨_, by simp, hx ▸ h⟩
termination_by t.size

theorem isNever_of_same {u : TypeExpr} (ht : Proper t) (hu : Proper u) (h : t.same u) :
    t.isNever = u.isNever := by
  cases t with
  | keyword name =>
    cases u with
    | keyword name' =>
      rw [same] at h
      rw [Label.eq_of_same ht.regular.here hu.regular.here h]
    | _ => simp [same] at h
  | _ =>
    cases u with
    | keyword name' => simp [same] at h
    | _ => rfl

/-! ### Overlap of choices -/

section
variable {a b : TypeExpr} (ha : Choosable a) (hb : Choosable b)
include ha hb

theorem overlaps_iff_member_left (hlike : a.normalized.isUnionLike)
    (hany : b.normalized.isAny = false) (hnever : b.normalized.isNever = false) :
    Overlaps a b ↔ a.normalized.same b.normalized ∨ ∃ m ∈ membersOf a.normalized, Overlaps m b := by
  obtain ⟨hanyA, hneverA, -⟩ := apart_of_isUnionLike hlike
  cases hsame : a.normalized.same b.normalized with
  | true => exact iff_of_true (overlaps_of_same ⟨hanyA, hany⟩ ⟨hneverA, hnever⟩ hsame) (Or.inl rfl)
  | false =>
    rw [overlaps_iff_rule ha.proper hb.proper ⟨hanyA, hany, hneverA, hnever, hsame⟩, OverlapRule,
      if_pos hlike, or_iff_right (by simp)]
    exact exists_congr fun m => and_congr_right fun _ => overlaps_normalized_right hb.isSettled

theorem overlaps_iff_member_right (hlikeA : ¬ a.normalized.isUnionLike)
    (hany : a.normalized.isAny = false) (hnever : a.normalized.isNever = false)
    (hlike : b.normalized.isUnionLike) :
    Overlaps a b ↔ ∃ m ∈ membersOf b.normalized, Overlaps a m := by
  obtain ⟨hanyB, hneverB, -⟩ := apart_of_isUnionLike hlike
  have hsame : a.normalized.same b.normalized = false := by
    rw [← Bool.not_eq_true]
    intro hsame
    exact hlikeA ((same_kind hsame).1 ▸ hlike)
  rw [overlaps_iff_rule ha.proper hb.proper ⟨hany, hanyB, hnever, hneverB, hsame⟩, OverlapRule,
    if_neg hlikeA, if_pos hlike]
  exact exists_congr fun m => and_congr_right fun _ => overlaps_normalized_left ha.isSettled

end

theorem isNever_normalized_of_live (ht : Live t) : t.normalized.isNever = false := by
  obtain ⟨x, hx, hnever⟩ := ht
  by_cases hlike : t.normalized.isUnionLike
  · exact (apart_of_isUnionLike hlike).2.1
  · rw [choices_eq hlike, mem_singleton] at hx
    exact hx ▸ hnever

theorem overlaps_of_choices (a b : TypeExpr) (ha : Choosable a) (hb : Choosable b)
    (h : ChoicesOverlap a b) : Overlaps a b := by
  obtain ⟨x, hx, y, hy, hneverX, hneverY, hxy⟩ := h
  have hsizeA := size_normalized_le a
  have hsizeB := size_normalized_le b
  have hneverA := isNever_normalized_of_live ⟨x, hx, hneverX⟩
  have hneverB := isNever_normalized_of_live ⟨y, hy, hneverY⟩
  by_cases hany : a.normalized.isAny ∨ b.normalized.isAny
  · exact overlaps_of_any hany
  simp only [not_or, Bool.not_eq_true] at hany
  by_cases hlikeA : a.normalized.isUnionLike
  · obtain ⟨m, hm, hx⟩ := (mem_choices hlikeA).mp hx
    have := size_lt_of_mem_membersOf hlikeA hm
    rw [overlaps_iff_member_left ha hb hlikeA hany.2 hneverB]
    exact Or.inr ⟨m, hm, overlaps_of_choices m b (ha.member hlikeA hm) hb
      ⟨x, hx, y, hy, hneverX, hneverY, hxy⟩⟩
  by_cases hlikeB : b.normalized.isUnionLike
  · obtain ⟨m, hm, hy⟩ := (mem_choices hlikeB).mp hy
    have := size_lt_of_mem_membersOf hlikeB hm
    rw [overlaps_iff_member_right ha hb hlikeA hany.1 hneverA hlikeB]
    exact ⟨m, hm, overlaps_of_choices a m ha (hb.member hlikeB hm)
      ⟨x, hx, y, hy, hneverX, hneverY, hxy⟩⟩
  · rw [choices_eq hlikeA, mem_singleton] at hx
    rw [choices_eq hlikeB, mem_singleton] at hy
    rw [hx, hy, overlaps_normalized_left ha.isSettled,
      overlaps_normalized_right hb.isSettled] at hxy
    exact hxy
termination_by a.size + b.size

theorem overlaps_of_isAny_left (h : a.isAny) : Overlaps a b :=
  overlaps_of_any (Or.inl (by rwa [normalized_of_isAny h]))

theorem overlaps_of_isAny_right (h : b.isAny) : Overlaps a b :=
  overlaps_of_any (Or.inr (by rwa [normalized_of_isAny h]))

theorem overlaps_of_same_choice {x : TypeExpr} (hx : x.isSettled) (hy : y.isSettled)
    (hneverX : x.isNever = false) (hneverY : y.isNever = false) (h : x.same y) :
    Overlaps x y := by
  cases hanyX : x.isAny with
  | true => exact overlaps_of_isAny_left hanyX
  | false =>
    cases hanyY : y.isAny with
    | true => exact overlaps_of_isAny_right hanyY
    | false =>
      rw [← normalized_of_isSettled hx] at hneverX hanyX
      rw [← normalized_of_isSettled hy] at hneverY hanyY
      refine overlaps_of_same ⟨hanyX, hanyY⟩ ⟨hneverX, hneverY⟩ ?_
      rwa [normalized_of_isSettled hx, normalized_of_isSettled hy]

theorem mem_choices_of_isAny (h : t.normalized.isAny) :
    t.normalized ∈ choices t ∧ t.normalized.isNever = false := by
  have hlike : ¬ t.normalized.isUnionLike := fun hlike => by
    simp [(apart_of_isUnionLike hlike).1] at h
  refine ⟨by simp [choices_eq hlike], ?_⟩
  generalize t.normalized = t at h
  cases t <;> simp_all [isAny, isUnknown, isMixed, isNever]

/-- **If types overlap, some of their choices do**, unless one of the types has no choice but the
empty type. The other cases are what the induction needs: a member may be such a type though the
union is not. -/
theorem choices_of_overlaps (a b : TypeExpr) (ha : Choosable a) (hb : Choosable b)
    (hagree : Agree b a) (h : Overlaps a b) :
    ChoicesOverlap a b ∨ (¬ Live b ∧ (a.normalized.isAny ∨ a.normalized.isUnionLike)) ∨
      (¬ Live a ∧ b.normalized.isAny) := by
  have hsizeA := size_normalized_le a
  have hsizeB := size_normalized_le b
  by_cases hanyA : a.normalized.isAny
  · obtain ⟨hx, hneverX⟩ := mem_choices_of_isAny hanyA
    by_cases hlive : Live b
    · obtain ⟨y, hy, hneverY⟩ := hlive
      exact Or.inl ⟨_, hx, y, hy, hneverX, hneverY, overlaps_of_isAny_left hanyA⟩
    · exact Or.inr (Or.inl ⟨hlive, Or.inl hanyA⟩)
  by_cases hanyB : b.normalized.isAny
  · obtain ⟨hy, hneverY⟩ := mem_choices_of_isAny hanyB
    by_cases hlive : Live a
    · obtain ⟨x, hx, hneverX⟩ := hlive
      exact Or.inl ⟨x, hx, _, hy, hneverX, hneverY, overlaps_of_isAny_right hanyB⟩
    · exact Or.inr (Or.inr ⟨hlive, hanyB⟩)
  have hany : a.normalized.isAny = false ∧ b.normalized.isAny = false := by simp [hanyA, hanyB]
  have hnever : a.normalized.isNever = false ∧ b.normalized.isNever = false := by
    have := mt (not_overlaps_of_never hany) (not_not_intro h)
    simpa only [not_or, Bool.not_eq_true] using this
  by_cases hlikeA : a.normalized.isUnionLike
  · rcases (overlaps_iff_member_left ha hb hlikeA hany.2 hnever.2).mp h with hsame | ⟨m, hm, hmb⟩
    · by_cases hlive : Live b
      · obtain ⟨y, hy, hneverY⟩ := hlive
        rw [same_comm (proper_normalized ha.proper).regular (proper_normalized hb.proper).regular]
          at hsame
        obtain ⟨x, hx, hyx⟩ := exists_same_choice b a hsame hagree hy
        have hproperX := (proper_of_mem_choices a ha.proper hx).1
        have hproperY := (proper_of_mem_choices b hb.proper hy).1
        have hneverX : x.isNever = false := by rw [← isNever_of_same hproperY hproperX hyx, hneverY]
        rw [same_comm hproperY.regular hproperX.regular] at hyx
        exact Or.inl ⟨x, hx, y, hy, hneverX, hneverY,
          overlaps_of_same_choice (ha.settled x hx) (hb.settled y hy) hneverX hneverY hyx⟩
      · exact Or.inr (Or.inl ⟨hlive, Or.inr hlikeA⟩)
    · have := size_lt_of_mem_membersOf hlikeA hm
      rcases choices_of_overlaps m b (ha.member hlikeA hm) hb (hagree.right hlikeA hm) hmb with
        ⟨x, hx, hrest⟩ | ⟨hdead, -⟩ | ⟨-, hanyB'⟩
      · exact Or.inl ⟨x, (mem_choices hlikeA).mpr ⟨m, hm, hx⟩, hrest⟩
      · exact Or.inr (Or.inl ⟨hdead, Or.inr hlikeA⟩)
      · exact absurd hanyB' hanyB
  have hx : a.normalized ∈ choices a := by simp [choices_eq hlikeA]
  by_cases hlikeB : b.normalized.isUnionLike
  · obtain ⟨m, hm, ham⟩ := (overlaps_iff_member_right ha hb hlikeA hany.1 hnever.1 hlikeB).mp h
    have := size_lt_of_mem_membersOf hlikeB hm
    rcases choices_of_overlaps a m ha (hb.member hlikeB hm) (hagree.left hlikeB hm) ham with
      ⟨x, hx, y, hy, hrest⟩ | ⟨-, hanyA' | hlikeA'⟩ | ⟨hdead, -⟩
    · exact Or.inl ⟨x, hx, y, (mem_choices hlikeB).mpr ⟨m, hm, hy⟩, hrest⟩
    · exact absurd hanyA' hanyA
    · exact absurd hlikeA' hlikeA
    · exact absurd ⟨_, hx, hnever.1⟩ hdead
  · refine Or.inl ⟨_, hx, b.normalized, by simp [choices_eq hlikeB], hnever.1, hnever.2, ?_⟩
    rw [overlaps_normalized_left ha.isSettled, overlaps_normalized_right hb.isSettled]
    exact h
termination_by a.size + b.size

/-- **Types with a choice that is not empty overlap exactly if such choices do.** -/
theorem overlaps_iff_choices (ha : Choosable a) (hb : Choosable b)
    (hagree : Agree b a) (hliveA : Live a) (hliveB : Live b) :
    Overlaps a b ↔ ChoicesOverlap a b := by
  refine ⟨fun h => ?_, overlaps_of_choices a b ha hb⟩
  rcases choices_of_overlaps a b ha hb hagree h with h | ⟨hdead, -⟩ | ⟨hdead, -⟩
  · exact h
  · exact absurd hliveB hdead
  · exact absurd hliveA hdead

theorem ChoicesOverlap.symm (hcomm : ∀ x ∈ choices a, ∀ y ∈ choices b, Overlaps x y → Overlaps y x)
    (h : ChoicesOverlap a b) : ChoicesOverlap b a := by
  obtain ⟨x, hx, y, hy, hneverX, hneverY, hxy⟩ := h
  exact ⟨y, hy, x, hx, hneverY, hneverX, hcomm x hx y hy hxy⟩

/-! ### Either order -/

/-- The two types can be taken apart in either order. -/
structure Orderly (a b : TypeExpr) : Prop where
  left : Choosable a
  right : Choosable b
  liveLeft : a.normalized.isUnionLike → Live a
  liveRight : b.normalized.isUnionLike → Live b
  agree : Agree a b
  singles : ∀ x ∈ choices a, ∀ y ∈ choices b, x.isIntersection → y.isIntersection →
    (∀ u ∈ intersectionParts x, Single u) ∧ ∀ v ∈ intersectionParts y, Single v

section
variable {a b : TypeExpr} (h : Orderly a b)
include h

theorem Orderly.choice_comm {x : TypeExpr} (hx : x ∈ choices a) (hy : y ∈ choices b) :
    Overlaps x y ↔ Overlaps y x := by
  obtain ⟨hproperX, hlikeX⟩ := proper_of_mem_choices a h.left.proper hx
  obtain ⟨hproperY, hlikeY⟩ := proper_of_mem_choices b h.right.proper hy
  by_cases hinterY : y.isIntersection
  · by_cases hinterX : x.isIntersection
    · obtain ⟨hsinglesX, hsinglesY⟩ := h.singles x hx y hy hinterX hinterY
      exact overlaps_comm_of_singles hproperX hproperY hinterX hinterY hsinglesX hsinglesY
    · exact (overlaps_comm_of_atom hproperX (h.left.settled x hx) (by simp [hlikeX]) hinterX y
        hproperY).symm
  · exact overlaps_comm_of_atom hproperY (h.right.settled y hy)
      (by simp [hlikeY]) hinterY x hproperX

theorem Orderly.overlaps_comm : Overlaps a b ↔ Overlaps b a := by
  have hproperA := h.left.proper
  have hproperB := h.right.proper
  by_cases hlive : Live a ∧ Live b
  · have hagree := h.agree.symm hproperA hproperB
    rw [overlaps_iff_choices h.left h.right hagree hlive.1 hlive.2,
      overlaps_iff_choices h.right h.left h.agree hlive.2 hlive.1]
    exact ⟨ChoicesOverlap.symm fun x hx y hy => (h.choice_comm hx hy).mp,
      ChoicesOverlap.symm fun y hy x hx => (h.choice_comm hx hy).mpr⟩
  · -- A type without a choice but the empty type is the empty type, which settles the comparison.
    refine overlaps_comm_of_rule hproperA hproperB fun hopen => absurd ⟨?_, ?_⟩ hlive
    · by_cases hlike : a.normalized.isUnionLike
      · exact h.liveLeft hlike
      · exact ⟨_, by simp [choices_eq hlike], hopen.neverLeft⟩
    · by_cases hlike : b.normalized.isUnionLike
      · exact h.liveRight hlike
      · exact ⟨_, by simp [choices_eq hlike], hopen.neverRight⟩

end

/-- A parameter that stands for a countable iterator or an integer. -/
def countedOrInt : TypeExpr :=
  .template "T"
    (some (.union [.intersection [.named "Countable", .named "Iterator"], .keyword "int"]))

/-- A text, or an array-like object that can be counted. -/
def textOrArrayLike : TypeExpr :=
  .union [.intersection [.named "ArrayAccess", .named "Countable"], .keyword "string"]

/-- A scalar that is an integer or a text. -/
def intOrTextScalar : TypeExpr :=
  .intersection [.union [.keyword "int", .keyword "string"], .keyword "scalar"]

/-- What is an integer and a text at once. -/
def intAndText : TypeExpr := .intersection [.keyword "int", .keyword "string"]

end StubCatalog.TypeExpr
