import StubCatalog.Proofs.TypeExpr.Canonical
import StubCatalog.Proofs.TypeExpr.Rebuilding

/-! # Comparing without a hierarchy

Without a hierarchy no reference is followed, so each comparison is one step on the types as they
are compared (`normalized`). A type is *proper* if it is regular and every type that takes arguments
has some (`Proper`); proper types are always compared with an answer. -/

namespace StubCatalog.TypeExpr

open List

variable {t u m : TypeExpr}

/-- The type as it is compared when nothing is known about classes. -/
def normalized (t : TypeExpr) : TypeExpr := (normalize .unknown t).1

theorem normalize_snd (t : TypeExpr) : (normalize .unknown t).2 = false := by
  fun_induction normalize .unknown t with
  | case2 _ _ ih => exact ih
  | case4 _ _ _ h => simp [Hierarchy.unknown] at h
  | _ => rfl

theorem size_normalized_le (t : TypeExpr) : t.normalized.size ≤ t.size :=
  size_normalize_le .unknown t (normalize_snd t)

theorem isContainedBy_eq (a b : TypeExpr) : isContainedBy a b =
      containedStep .unknown a.normalized b.normalized fun x y _ => isContainedBy x y := by
  show comparedWith .unknown _ (containedWithin .unknown 449) a b = _
  rw [comparedWith, dif_pos ⟨normalize_snd a, normalize_snd b⟩]
  rfl

theorem canOverlap_eq (a b : TypeExpr) : canOverlap a b =
      overlapStep (fun x y => isContainedBy x y) a.normalized b.normalized
        fun x y _ => canOverlap x y := by
  show comparedWith .unknown _ (overlapWithin .unknown 449) a b = _
  rw [comparedWith, dif_pos ⟨normalize_snd a, normalize_snd b⟩]
  rfl

/-! ### Proper types -/

/-- A type that takes arguments has some. -/
def hasArguments : TypeExpr → Bool
  | .generic _ args => !args.isEmpty
  | _ => true

/-- The words and values directly in a type are what they should be, and its arguments are not
missing. -/
def isProperNode (t : TypeExpr) : Bool := t.isRegularNode && t.hasArguments

/-- The type is regular, and every type in it that takes arguments has some. -/
def Proper : TypeExpr → Prop := Everywhere fun t => t.isProperNode

instance : DecidablePred Proper := fun t =>
  inferInstanceAs (Decidable (Everywhere (fun t => t.isProperNode) t))

theorem Proper.regular (h : Proper t) : Regular t :=
  h.mono fun _ hu => (Bool.and_eq_true_iff.mp hu).1

/-- A condition that tells nothing about the members of a type: it is met by keywords and by
whatever is put together of members, and otherwise does not depend on what is inside a type. -/
structure Neutral (p : TypeExpr → Prop) : Prop where
  keyword (name : String) : p (.keyword name)
  unknown (reason : Label) : p (.unknown reason)
  nullable (t : TypeExpr) : p (.nullable t)
  union (ts : List TypeExpr) : p (.union ts)
  intersection (ts : List TypeExpr) : p (.intersection ts)
  frame {t u : TypeExpr} : t.frame = u.frame → p t → p u

theorem hasArguments_frame (t : TypeExpr) : t.frame.hasArguments = t.hasArguments := by
  cases t with
  | generic name ts => cases ts <;> rfl
  | _ => rfl

theorem hasArguments_of_frame (h : t.frame = u.frame) (ht : t.hasArguments) : u.hasArguments := by
  rw [← hasArguments_frame, ← h, hasArguments_frame, ht]

theorem neutral_proper : Neutral fun t => t.isProperNode where
  keyword _ := rfl
  unknown _ := rfl
  nullable _ := rfl
  union _ := rfl
  intersection _ := rfl
  frame heq h := by
    obtain ⟨hregular, harguments⟩ := Bool.and_eq_true_iff.mp h
    exact Bool.and_eq_true_iff.mpr
      ⟨isRegularNode_of_frame heq hregular, hasArguments_of_frame heq harguments⟩

section Neutral
variable {p : TypeExpr → Prop} (hp : Neutral p) {t u : TypeExpr} {ts : List TypeExpr}
include hp

theorem everywhere_keyword (name : String) : Everywhere p (.keyword name) :=
  .intro (hp.keyword name) (by simp [parts, children])

theorem everywhere_unknown (reason : Label) : Everywhere p (.unknown reason) :=
  .intro (hp.unknown reason) (by simp [parts, children])

theorem everywhere_nullable : Everywhere p (.nullable t) ↔ Everywhere p t := by
  refine ⟨fun h => h.inside (by simp [parts, children]), fun h =>
    .intro (hp.nullable t) fun u hu => ?_⟩
  obtain rfl : u = t := by simpa [parts, children] using hu
  exact h

theorem everywhere_union : Everywhere p (.union ts) ↔ ∀ t ∈ ts, Everywhere p t :=
  ⟨fun h _ ht => h.inside ht, fun h => .intro (hp.union ts) h⟩

theorem everywhere_intersection : Everywhere p (.intersection ts) ↔ ∀ t ∈ ts, Everywhere p t :=
  ⟨fun h _ ht => h.inside ht, fun h => .intro (hp.intersection ts) h⟩

theorem everywhere_of_mem_membersOf :
    ∀ {t : TypeExpr}, Everywhere p t → m ∈ membersOf t → Everywhere p m
  | .nullable t, ht, hm => by
    rcases mem_append.mp hm with hm | hm
    · exact everywhere_of_mem_membersOf ((everywhere_nullable hp).mp ht) hm
    · obtain rfl := mem_singleton.mp hm
      exact everywhere_keyword hp "null"
  | .union ts, ht, hm => (everywhere_union hp).mp ht m hm
  | .keyword _, ht, hm | .named _, ht, hm | .intersection _, ht, hm | .generic .., ht, hm
  | .shape .., ht, hm | .conditional .., ht, hm | .literal _, ht, hm | .template .., ht, hm
  | .intRange .., ht, hm | .callable .., ht, hm | .memberReference .., ht, hm
  | .unknown _, ht, hm => mem_singleton.mp hm ▸ ht

/-! ### Types put together -/

theorem everywhere_of_mem_nullParts (ht : Everywhere p t) (hu : u ∈ nullParts t) :
    Everywhere p u := by
  cases t with
  | nullable t =>
    simp only [nullParts, mem_cons, not_mem_nil, or_false] at hu
    rcases hu with rfl | rfl
    · exact everywhere_keyword hp "null"
    · exact (everywhere_nullable hp).mp ht
  | _ => exact mem_singleton.mp hu ▸ ht

theorem everywhere_of_mem_alternatives (ht : Everywhere p t) (hu : u ∈ alternatives t) :
    Everywhere p u := by
  obtain ⟨v, hv, hu⟩ := mem_flatMap.mp hu
  obtain ⟨w, hw, hu⟩ := mem_flatMap.mp hu
  exact everywhere_of_mem_nullParts hp ((everywhere_of_mem_nullParts hp ht hv).of_mem_unionParts hw) hu

theorem everywhere_mkNullable (ht : Everywhere p t) : Everywhere p (mkNullable t) := by
  fun_induction mkNullable t with
  | case1 t ih => exact ih ((everywhere_nullable hp).mp ht)
  | case2 t => exact (everywhere_nullable hp).mpr ht

theorem everywhere_mkUnion (hts : ∀ t ∈ ts, Everywhere p t) : Everywhere p (mkUnion ts) := by
  refine (everywhere_union hp).mpr fun u hu => ?_
  obtain ⟨t, ht, hu⟩ := mem_flatMap.mp (mem_of_mem_distinct hu)
  exact (hts t ht).of_mem_unionParts hu

theorem everywhere_mkIntersection (hts : ∀ t ∈ ts, Everywhere p t) :
    Everywhere p (mkIntersection ts) := by
  refine (everywhere_intersection hp).mpr fun u hu => ?_
  obtain ⟨t, ht, hu⟩ := mem_flatMap.mp (mem_of_mem_distinct hu)
  exact (hts t ht).of_mem_intersectionParts hu

theorem everywhere_unionOf (hts : ∀ t ∈ ts, Everywhere p t) : Everywhere p (unionOf ts) := by
  have hmem : ∀ u ∈ unionMembers ts, Everywhere p u := by
    intro u hu
    have hu := mem_of_mem_distinct (CanonicalClass.mem_of_mem_dropNever hu)
    obtain ⟨t, ht, hu⟩ := mem_flatMap.mp (mem_filter.mp hu).1
    exact everywhere_of_mem_alternatives hp (hts t ht) hu
  refine unionOf_cases (everywhere_keyword hp "null") (everywhere_keyword hp "never")
    (fun t ht => ?_) fun _ => ?_
  · have ht := hmem t (by simp [ht])
    exact ⟨ht, everywhere_mkNullable hp ht⟩
  · have hunion := everywhere_mkUnion hp hmem
    exact ⟨hunion, everywhere_mkNullable hp hunion⟩

theorem everywhere_intersectionOf (hts : ∀ t ∈ ts, Everywhere p t) :
    Everywhere p (intersectionOf ts) := by
  have hmem : ∀ u ∈ distinct (ts.flatMap intersectionParts), Everywhere p u := by
    intro u hu
    obtain ⟨t, ht, hu⟩ := mem_flatMap.mp (mem_of_mem_distinct hu)
    exact (hts t ht).of_mem_intersectionParts hu
  unfold intersectionOf
  generalize distinct (ts.flatMap intersectionParts) = members at hmem
  match members with
  | [] => exact everywhere_keyword hp "mixed"
  | [t] => exact hmem t (by simp)
  | t :: u :: us => exact everywhere_mkIntersection hp hmem

end Neutral

/-! ### Types rebuilt -/

theorem rebuildList_eq_map (w : Treatment Id) (ts : List TypeExpr) :
    (rebuildList w ts).run = ts.map fun t => (rebuild w t).run := by
  induction ts with
  | nil => simp [rebuildList]
  | cons t ts ih => simp [rebuildList, ← ih]

section Neutral
variable {p : TypeExpr → Prop} (hp : Neutral p) {t : TypeExpr}
include hp

theorem everywhere_conditionalBranches (h : Everywhere p t) :
    Everywhere p (conditionalBranches t) := by
  unfold conditionalBranches
  induction h with
  | @intro t here inside ih =>
    have hsolid : t.isSolid → t.isConditional = false → Everywhere p (rebuild branching t).run := by
      intro hsolid hnot
      obtain ⟨hframe, hchildren⟩ := holds_rebuild .result hsolid (by simp [hnot]) fun u hu =>
        ih u (mem_parts_of_mem_children hu)
      exact .of_frame hsolid hframe (hp.frame hframe.symm here) (forall_of_forall₂ hchildren)
    cases t with
    | nullable t =>
      have ht := ih t (by simp [parts, children])
      simp only [rebuild, Id.run_bind, Id.run_pure]
      exact everywhere_unionOf hp (by simpa using ⟨ht, everywhere_keyword hp "null"⟩)
    | union ts =>
      simp only [rebuild, Id.run_bind, Id.run_pure, rebuildList_eq_map]
      exact everywhere_unionOf hp (forall_mem_map.mpr ih)
    | intersection ts =>
      simp only [rebuild, Id.run_bind, Id.run_pure, rebuildList_eq_map]
      exact everywhere_intersectionOf hp (forall_mem_map.mpr ih)
    | conditional subject target whenTrue whenFalse negated =>
      have htrue := ih whenTrue (by simp [parts, children])
      have hfalse := ih whenFalse (by simp [parts, children])
      simp only [rebuild, branching, Id.run_pure]
      exact everywhere_unionOf hp (by simpa using ⟨htrue, hfalse⟩)
    | template name bound => cases bound <;> exact .intro here inside
    | _ => exact hsolid rfl rfl

/-- **The compared form of a type** keeps what holds everywhere, unless it is what a reference
stands for. -/
theorem everywhere_normalize (h : Hierarchy) (ht : Everywhere p t) :
    ((normalize h t).2 = false ∧ Everywhere p (normalize h t).1) ∨
      ∃ owner member u, p (.memberReference owner member) ∧
        h.expand owner member.text = some u ∧ normalize h t = (u, true) := by
  fun_induction normalize h t with
  | case1 => exact Or.inl ⟨rfl, everywhere_keyword hp "mixed"⟩
  | case2 _ bound ih => exact ih (ht.inside (by simp [parts]))
  | case3 => exact Or.inl ⟨rfl, everywhere_conditionalBranches hp ht⟩
  | case4 owner member u hexpand => exact Or.inr ⟨owner, member, u, ht.here, hexpand, rfl⟩
  | case5 => exact Or.inl ⟨rfl, everywhere_unknown hp _⟩
  | case6 => exact Or.inl ⟨rfl, ht⟩

end Neutral

/-! ### What is asked about proper types is proper -/

theorem proper_null : Proper null := everywhere_keyword neutral_proper "null"

theorem proper_union {ts : List TypeExpr} : Proper (.union ts) ↔ ∀ t ∈ ts, Proper t :=
  everywhere_union neutral_proper

theorem proper_of_mem_membersOf (ht : Proper t) (hm : m ∈ membersOf t) : Proper m :=
  everywhere_of_mem_membersOf neutral_proper ht hm

theorem proper_of_mem_intersectionParts (ht : Proper t) (hu : u ∈ intersectionParts t) : Proper u :=
  ht.of_mem_intersectionParts hu

theorem proper_normalized (h : Proper t) : Proper t.normalized := by
  rcases everywhere_normalize neutral_proper .unknown h with ⟨-, h⟩ | ⟨owner, member, u, -, hu, -⟩
  · exact h
  · cases hu

/-! ### Comparisons that have an answer -/

section
variable {ε α : Type} {xs : List α} {p : (x : α) → x ∈ xs → Except ε Bool}

theorem exists_allHold (h : ∀ x hx, ∃ r, p x hx = .ok r) : ∃ r, allHold xs p = .ok r := by
  induction xs with
  | nil => exact ⟨true, rfl⟩
  | cons x xs ih =>
    obtain ⟨r, hr⟩ := h x (mem_cons_self ..)
    unfold allHold
    rw [hr]
    cases r with
    | false => exact ⟨false, rfl⟩
    | true => exact ih fun y hy => h y (mem_cons_of_mem _ hy)

theorem exists_someHolds (h : ∀ x hx, ∃ r, p x hx = .ok r) : ∃ r, someHolds xs p = .ok r := by
  induction xs with
  | nil => exact ⟨false, rfl⟩
  | cons x xs ih =>
    obtain ⟨r, hr⟩ := h x (mem_cons_self ..)
    unfold someHolds
    rw [hr]
    cases r with
    | true => exact ⟨true, rfl⟩
    | false => exact ih fun y hy => h y (mem_cons_of_mem _ hy)

end

theorem exists_bind {x : Verdict} {f : Bool → Verdict} (hx : ∃ r, x = .ok r)
    (hf : ∀ r, ∃ r', f r = .ok r') : ∃ r, (x >>= f) = .ok r := by
  obtain ⟨r, rfl⟩ := hx
  exact hf r

/-- All questions about parts of two types have an answer, if what is said everywhere of the types
is said of the parts. -/
def Answers (p q : TypeExpr → Prop) {a b : TypeExpr} (ask : Parts a b) : Prop :=
  ∀ x y h, Everywhere p x → Everywhere q y → ∃ r, ask x y h = .ok r

section Answers
variable {p q : TypeExpr → Prop} {a b : TypeExpr}

theorem exists_getLast (harguments : ∀ t, p t → t.hasArguments) {name : String}
    {args : List TypeExpr} (h : Everywhere p (.generic name args)) :
    ∃ last, args.getLast? = some last ∧ Everywhere p last := by
  have hne : args ≠ [] := by simpa [hasArguments] using harguments _ h.here
  exact ⟨args.getLast hne, getLast?_eq_some_getLast hne, h.inside (getLast_mem hne)⟩

theorem exists_fieldsContained {fields fields' : List (ShapeField TypeExpr)}
    {ask : (f : ShapeField TypeExpr) → f ∈ fields → (g : ShapeField TypeExpr) → g ∈ fields' →
      Verdict}
    (h : ∀ f hf g hg, ∃ r, ask f hf g hg = .ok r) :
    ∃ r, fieldsContained fields fields' ask = .ok r := by
  refine exists_allHold fun g hg => ?_
  split
  · exact ⟨_, rfl⟩
  · split
    · exact ⟨_, rfl⟩
    · split
      · exact ⟨_, rfl⟩
      · exact h _ _ _ _

variable (hp : Neutral p) (hq : Neutral q) (hargsLeft : ∀ t, p t → t.hasArguments)
  (hargsRight : ∀ t, q t → t.hasArguments) (ha : Everywhere p a) (hb : Everywhere q b)
  {ask : Parts a b} (hask : Answers p q ask)

section
include hp hargsLeft hargsRight ha hb hask

theorem exists_argumentsContained : ∃ r, argumentsContained a b ask = .ok r := by
  unfold argumentsContained
  cases b with
  | shape kind' fields' s' key' value' =>
    cases a with
    | shape kind fields s key value =>
      refine exists_bind (exists_fieldsContained fun f hf g hg => ?_) fun r => ?_
      · exact hask _ _ _ (ha.inside (mem_parts_of_field hf)) (hb.inside (mem_parts_of_field hg))
      · cases r <;> exact ⟨_, rfl⟩
    | _ => exact ⟨false, rfl⟩
  | generic name' args' =>
    obtain ⟨last', hlast', hproper'⟩ := exists_getLast hargsRight hb
    dsimp only
    split
    · next h => simp [h] at hlast'
    · next last h =>
      obtain rfl : last = last' := by simpa [h] using hlast'
      cases a with
      | generic name args =>
        simp only
        split
        · exact ⟨_, rfl⟩
        · split
          · split
            · exact ⟨_, rfl⟩
            · split
              · exact ⟨_, rfl⟩
              · refine exists_allHold fun pair hp => hask _ _ _ ?_ ?_
                · exact ha.inside (of_mem_zip hp).1
                · exact hb.inside (of_mem_zip hp).2
          · obtain ⟨own, hown, hproper⟩ := exists_getLast hargsLeft ha
            split
            · next h => simp [h] at hown
            · next own' h =>
              obtain rfl : own' = own := by simpa [h] using hown
              refine exists_bind (hask _ _ _ hproper hproper') fun r => ?_
              cases r with
              | false => exact ⟨_, rfl⟩
              | true =>
                simp only [if_true]
                split
                · next first hfirst first' hfirst' _ _ =>
                  exact hask _ _ _ (ha.inside hfirst) (hb.inside hfirst')
                · exact ⟨_, rfl⟩
      | shape kind fields s key value =>
        refine exists_bind (exists_allHold fun f hf => ?_) fun r => ?_
        · exact hask _ _ _ (ha.inside (mem_parts_of_field hf)) hproper'
        · cases r with
          | false => exact ⟨_, rfl⟩
          | true =>
            simp only [if_true]
            split
            · exact ⟨_, rfl⟩
            · refine hask _ _ _ ?_ hproper'
              cases value with
              | none => exact everywhere_keyword hp "mixed"
              | some v => exact ha.inside (mem_parts_of_extraValue rfl)
      | _ => exact ⟨false, rfl⟩
  | _ => exact ⟨true, rfl⟩

theorem exists_atomContained (h : Hierarchy) : ∃ r, atomContained h a b ask = .ok r := by
  have hargs := exists_argumentsContained hp hargsLeft hargsRight ha hb hask
  unfold atomContained
  split
  · split
    · exact hargs
    · exact ⟨_, rfl⟩
  · exact ⟨_, rfl⟩
  · split
    · exact ⟨_, rfl⟩
    · split
      · exact ⟨_, rfl⟩
      · split
        · exact ⟨_, rfl⟩
        · split <;> exact ⟨_, rfl⟩
  · split
    · split
      · exact ⟨_, rfl⟩
      · exact ⟨_, rfl⟩
      · exact ⟨_, rfl⟩
      · split
        · exact hargs
        · exact ⟨_, rfl⟩
      · exact ⟨_, rfl⟩
      · split
        · exact hargs
        · exact ⟨_, rfl⟩
    · exact ⟨_, rfl⟩

include hq

theorem exists_containedStep (h : Hierarchy) : ∃ r, containedStep h a b ask = .ok r := by
  unfold containedStep
  split
  · exact ⟨_, rfl⟩
  split
  · exact ⟨_, rfl⟩
  split
  · exact ⟨_, rfl⟩
  split
  · exact ⟨_, rfl⟩
  split
  · exact exists_allHold fun m hm => hask _ _ _ (everywhere_of_mem_membersOf hp ha hm) hb
  split
  · exact exists_someHolds fun m hm => hask _ _ _ (ha.inside hm) hb
  split
  · exact exists_someHolds fun m hm => hask _ _ _ ha (everywhere_of_mem_membersOf hq hb hm)
  split
  · exact exists_allHold fun m hm => hask _ _ _ ha (hb.inside hm)
  · exact exists_atomContained hp hargsLeft hargsRight ha hb hask h

end

include hp hq ha hb hask

theorem exists_overlapStep {contained : TypeExpr → TypeExpr → Verdict}
    (hab : ∃ r, contained a b = .ok r) (hba : ∃ r, contained b a = .ok r) :
    ∃ r, overlapStep contained a b ask = .ok r := by
  unfold overlapStep
  split
  · exact ⟨_, rfl⟩
  split
  · exact ⟨_, rfl⟩
  split
  · exact ⟨_, rfl⟩
  split
  · exact exists_someHolds fun m hm => hask _ _ _ (everywhere_of_mem_membersOf hp ha hm) hb
  split
  · exact exists_someHolds fun m hm => hask _ _ _ ha (everywhere_of_mem_membersOf hq hb hm)
  split
  · exact exists_allHold fun m hm => hask _ _ _ (ha.inside hm) hb
  split
  · exact exists_allHold fun m hm => hask _ _ _ ha (hb.inside hm)
  · refine exists_bind hab fun r => ?_
    cases r with
    | true => exact ⟨_, rfl⟩
    | false =>
      refine exists_bind hba fun r => ?_
      cases r <;> exact ⟨_, rfl⟩

end Answers

theorem hasArguments_of_isProperNode (t : TypeExpr) (h : t.isProperNode) : t.hasArguments :=
  (Bool.and_eq_true_iff.mp h).2

theorem exists_isContainedBy (a b : TypeExpr) (ha : Proper a) (hb : Proper b) :
    ∃ r, isContainedBy a b = .ok r := by
  rw [isContainedBy_eq]
  refine exists_containedStep neutral_proper neutral_proper hasArguments_of_isProperNode
    hasArguments_of_isProperNode (proper_normalized ha) (proper_normalized hb)
    (fun x y h hx hy => ?_) .unknown
  have := size_normalized_le a
  have := size_normalized_le b
  exact exists_isContainedBy x y hx hy
termination_by a.size + b.size

theorem exists_canOverlap (a b : TypeExpr) (ha : Proper a) (hb : Proper b) :
    ∃ r, canOverlap a b = .ok r := by
  rw [canOverlap_eq]
  have ha := proper_normalized ha
  have hb := proper_normalized hb
  refine exists_overlapStep neutral_proper neutral_proper ha hb (fun x y h hx hy => ?_)
    (exists_isContainedBy _ _ ha hb) (exists_isContainedBy _ _ hb ha)
  have := size_normalized_le a
  have := size_normalized_le b
  exact exists_canOverlap x y hx hy
termination_by a.size + b.size

/-! ### The steps of a comparison -/

instance (v : Verdict) (r : Bool) : Decidable (v = .ok r) :=
  match v with
  | .ok s => decidable_of_iff (s = r) (by simp)
  | .error _ => .isFalse nofun

/-- Every value of `a` is a value of `b`, for certain. -/
def Within (a b : TypeExpr) : Prop := isContainedBy a b = .ok true

/-- Some value may belong to both types. -/
def Overlaps (a b : TypeExpr) : Prop := canOverlap a b = .ok true

/-- The type may have any value: it is the type of any value, or was not understood. -/
def isAny (t : TypeExpr) : Bool := t.isUnknown || t.isMixed

/-- The type is compared as it is, and neither as alternatives nor as a combination. -/
def isAtom : TypeExpr → Bool
  | .keyword _ | .named _ | .generic .. | .shape .. => true
  | .literal _ | .intRange .. | .callable .. => true
  | _ => false

theorem apart_of_isUnionLike (h : t.isUnionLike) :
    t.isAny = false ∧ t.isNever = false ∧ t.isIntersection = false ∧ t.isAtom = false := by
  cases t <;> simp_all [isUnionLike, isAny, isUnknown, isMixed, isNever, isIntersection, isAtom]

theorem apart_of_isIntersection (h : t.isIntersection) :
    t.isAny = false ∧ t.isNever = false ∧ t.isUnionLike = false ∧ t.isAtom = false := by
  cases t <;> simp_all [isIntersection, isAny, isUnknown, isMixed, isNever, isUnionLike, isAtom]

theorem apart_of_isAtom (h : t.isAtom) :
    t.isUnknown = false ∧ t.isUnionLike = false ∧ t.isIntersection = false := by
  cases t <;> simp_all [isAtom, isUnknown, isUnionLike, isIntersection]

theorem normalized_of_isAtom (h : t.isAtom) : t.normalized = t := by
  cases t <;> simp_all [isAtom, normalized, normalize]

theorem normalized_of_isUnionLike (h : t.isUnionLike) : t.normalized = t := by
  cases t <;> simp_all [isUnionLike, normalized, normalize]

theorem normalized_of_isIntersection (h : t.isIntersection) : t.normalized = t := by
  cases t <;> simp_all [isIntersection, normalized, normalize]

theorem normalized_of_isAny (h : t.isAny) : t.normalized = t := by
  cases t <;> simp_all [isAny, isUnknown, isMixed, normalized, normalize]

theorem size_lt_of_mem_intersectionParts (ht : t.isIntersection)
    (hu : u ∈ intersectionParts t) : u.size < t.size := by
  cases t with
  | intersection ts => exact size_lt_of_mem_parts hu
  | _ => simp [isIntersection] at ht

theorem membersOf_eq (h : t.isUnionLike = false) : membersOf t = [t] := by
  cases t <;> simp_all [isUnionLike, membersOf]

theorem same_kind (h : t.same u) :
    t.isUnionLike = u.isUnionLike ∧ t.isIntersection = u.isIntersection := by
  unfold same at h
  split at h
  case h_15 => cases h
  all_goals exact ⟨rfl, rfl⟩

theorem exists_same_of_mem_membersOf (t u : TypeExpr) (h : t.same u)
    (hm : m ∈ membersOf t) : ∃ v ∈ membersOf u, m.same v := by
  cases hlike : t.isUnionLike with
  | false =>
    rw [membersOf_eq hlike, mem_singleton] at hm
    rw [membersOf_eq ((same_kind h).1 ▸ hlike)]
    exact ⟨u, by simp, hm ▸ h⟩
  | true =>
    cases t with
    | nullable t =>
      cases u with
      | nullable u =>
        rw [same] at h
        simp only [membersOf, mem_append, mem_singleton] at hm ⊢
        rcases hm with hm | rfl
        · obtain ⟨v, hv, hsame⟩ := exists_same_of_mem_membersOf t u h hm
          exact ⟨v, Or.inl hv, hsame⟩
        · exact ⟨null, Or.inr rfl, by rw [null, same]; rfl⟩
      | _ => simp [same] at h
    | union ts =>
      cases u with
      | union us =>
        rw [same, isCovering_sameTable] at h
        simp only [Bool.and_eq_true, all_eq_true, any_eq_true] at h
        exact h.1 m hm
      | _ => simp [same] at h
    | _ => simp [isUnionLike] at hlike

theorem not_isIntersection (h : ∀ xs, t ≠ .intersection xs) : ¬ t.isIntersection := by
  cases t with
  | intersection xs => exact absurd rfl (h xs)
  | _ => simp [isIntersection]

/-- What it comes down to that an atom lies within a compared type. -/
def WithinRule (m a : TypeExpr) : Prop :=
  if a.isUnionLike then ∃ x ∈ membersOf a, Within m x
  else if a.isIntersection then ∀ x ∈ intersectionParts a, Within m x
  else atomContained .unknown m a (fun x y _ => isContainedBy x y) = .ok true

theorem within_iff_rule {a : TypeExpr} (hm : m.isAtom) (hmixed : m.isMixed = false)
    (hnever : m.isNever = false) (hmp : Proper m) (ha : Proper a) :
    Within m a ↔ a.normalized.isAny ∨ m.same a.normalized ∨ WithinRule m a.normalized := by
  obtain ⟨hunknown, hlike, -⟩ := apart_of_isAtom hm
  have hproper := proper_normalized ha
  rw [Within, isContainedBy_eq, normalized_of_isAtom hm]
  generalize a.normalized = a at hproper ⊢
  unfold containedStep WithinRule
  by_cases hany : (a.isUnknown || a.isMixed)
  · rw [if_pos hany]
    exact iff_of_true rfl (Or.inl hany)
  have hany' : ¬ a.isAny := hany
  rw [if_neg hany, if_neg (by simp [hunknown, hmixed]), if_neg (by simp [hnever])]
  by_cases hsame : m.same a
  · rw [if_pos hsame]
    exact iff_of_true rfl (Or.inr (Or.inl hsame))
  rw [if_neg hsame, dif_neg (by simp [hlike])]
  rw [or_iff_right hany', or_iff_right hsame]
  split
  · simp [isAtom] at hm
  split
  · rw [someHolds_eq_ok_true fun x hx =>
      exists_isContainedBy _ x hmp (proper_of_mem_membersOf hproper hx)]
    simp only [Within, exists_prop]
  split
  · rw [if_pos (by rfl)]
    exact allHold_eq_ok_true
  · rename_i hright
    rw [if_neg (not_isIntersection fun xs h => by subst h; exact hright xs _ _ rfl .rfl .rfl)]

/-- Overlap is not settled at once: neither type may have any value, neither is empty, and they
differ. -/
structure Unsettled (a b : TypeExpr) : Prop where
  anyLeft : a.isAny = false
  anyRight : b.isAny = false
  neverLeft : a.isNever = false
  neverRight : b.isNever = false
  differ : a.same b = false

/-- What the overlap of two compared types comes down to when it is not settled at once:
alternatives before combinations, and in both the first type first. -/
def OverlapRule (a b : TypeExpr) : Prop :=
  if a.isUnionLike then ∃ x ∈ membersOf a, Overlaps x b
  else if b.isUnionLike then ∃ x ∈ membersOf b, Overlaps a x
  else if a.isIntersection then ∀ x ∈ intersectionParts a, Overlaps x b
  else if b.isIntersection then ∀ x ∈ intersectionParts b, Overlaps a x
  else Within a b ∨ Within b a ∨ atomsMeet a b

section Overlap
variable {a b : TypeExpr}

theorem overlaps_of_any (h : a.normalized.isAny ∨ b.normalized.isAny) : Overlaps a b := by
  rw [Overlaps, canOverlap_eq, overlapStep, if_pos]
  simp only [isAny, Bool.or_eq_true] at h ⊢
  rcases h with (h | h) | (h | h) <;> simp [h]

section
variable (hany : a.normalized.isAny = false ∧ b.normalized.isAny = false)
include hany

theorem not_overlaps_of_never (h : a.normalized.isNever ∨ b.normalized.isNever) :
    ¬ Overlaps a b := by
  simp only [isAny, Bool.or_eq_false_iff] at hany
  rw [Overlaps, canOverlap_eq, overlapStep]
  simp [hany, h]

theorem overlaps_of_same (hnever : a.normalized.isNever = false ∧ b.normalized.isNever = false)
    (h : a.normalized.same b.normalized) : Overlaps a b := by
  simp only [isAny, Bool.or_eq_false_iff] at hany
  rw [Overlaps, canOverlap_eq, overlapStep]
  simp [hany, hnever, h]

end

theorem atomStep_eq_ok_true (ha : Proper a) (hb : Proper b) : (do
      if ← isContainedBy a b then return true
      if ← isContainedBy b a then return true
      return atomsMeet a b : Verdict) = .ok true ↔
      Within a b ∨ Within b a ∨ atomsMeet a b := by
  obtain ⟨r, hr⟩ := exists_isContainedBy a b ha hb
  obtain ⟨q, hq⟩ := exists_isContainedBy b a hb ha
  unfold Within
  rw [hr, hq]
  cases r <;> cases q <;> cases atomsMeet a b <;> simp [bind, Except.bind, pure, Except.pure]

theorem overlaps_iff_rule (ha : Proper a) (hb : Proper b)
    (hopen : Unsettled a.normalized b.normalized) :
    Overlaps a b ↔ OverlapRule a.normalized b.normalized := by
  have ha := proper_normalized ha
  have hb := proper_normalized hb
  rw [Overlaps, canOverlap_eq]
  generalize a.normalized = a at ha hopen ⊢
  generalize b.normalized = b at hb hopen ⊢
  obtain ⟨hanyLeft, hanyRight, hneverLeft, hneverRight, hdiffer⟩ := hopen
  simp only [isAny, Bool.or_eq_false_iff] at hanyLeft hanyRight
  unfold overlapStep OverlapRule
  rw [if_neg (by simp [hanyLeft, hanyRight]), if_neg (by simp [hneverLeft, hneverRight]),
    if_neg (by simp [hdiffer])]
  split
  · next hlike =>
    rw [someHolds_eq_ok_true fun x hx =>
      exists_canOverlap x b (proper_of_mem_membersOf ha hx) hb]
    simp only [Overlaps, exists_prop]
  split
  · next hlike =>
    rw [someHolds_eq_ok_true fun x hx =>
      exists_canOverlap a x ha (proper_of_mem_membersOf hb hx)]
    simp only [Overlaps, exists_prop]
  split
  · rw [if_pos (by rfl)]
    exact allHold_eq_ok_true
  · rename_i hleft
    rw [if_neg (not_isIntersection fun xs h => by subst h; exact hleft xs _ _ rfl .rfl .rfl)]
    split
    · rw [if_pos (by rfl)]
      exact allHold_eq_ok_true
    · rename_i hright
      rw [if_neg (not_isIntersection fun xs h => by subst h; exact hright xs _ _ rfl .rfl .rfl)]
      exact atomStep_eq_ok_true ha hb

end Overlap

end StubCatalog.TypeExpr
