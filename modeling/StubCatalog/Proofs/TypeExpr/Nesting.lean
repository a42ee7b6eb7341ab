import StubCatalog.Proofs.Graph
import StubCatalog.Proofs.TypeExpr.Comparison

/-! # Comparing with a hierarchy

How deep the references of a type are nested is a matter of the hierarchy (`NestsWithin`). A
comparison goes one level deeper with each reference that it follows, and needs at most the levels
of its two types together. -/

namespace StubCatalog.TypeExpr

open Relation

variable {h : Hierarchy} {t : TypeExpr}

/-- Everything in the type that takes arguments has some. -/
def Complete : TypeExpr → Prop := Everywhere fun t => t.hasArguments

instance : DecidablePred Complete := fun t =>
  inferInstanceAs (Decidable (Everywhere (fun t => t.hasArguments) t))

/-- If the type is a reference, then what it stands for has the property. -/
def LeadsTo (h : Hierarchy) (P : TypeExpr → Prop) (t : TypeExpr) : Prop :=
  ∀ owner member u, t = .memberReference owner member → h.expand owner member.text = some u → P u

instance {P : TypeExpr → Prop} [DecidablePred P] : DecidablePred (LeadsTo h P)
  | .memberReference owner member =>
    decidable_of_iff (∀ u ∈ h.expand owner member.text, P u)
      ⟨fun hP _ _ u heq hu => by cases heq; exact hP u hu, fun hP u hu => hP owner member u rfl hu⟩
  | .keyword _ | .named _ | .nullable _ | .union _ | .intersection _ | .generic .. | .shape ..
  | .conditional .. | .literal _ | .template .. | .intRange .. | .callable .. | .unknown _ =>
    isTrue nofun

/-- References are nested at most `n` deep in the type. -/
def NestsWithin (h : Hierarchy) : Nat → TypeExpr → Prop
  | 0 => Everywhere (LeadsTo h fun _ => False)
  | n + 1 => Everywhere (LeadsTo h (NestsWithin h n))

instance decidableNestsWithin : (n : Nat) → DecidablePred (NestsWithin h n)
  | 0 => fun t => inferInstanceAs (Decidable (Everywhere (LeadsTo h fun _ => False) t))
  | n + 1 => fun t =>
    have : DecidablePred (NestsWithin h n) := decidableNestsWithin n
    inferInstanceAs (Decidable (Everywhere (LeadsTo h (NestsWithin h n)) t))

/-! ### Levels of references -/

/-- What stands directly in a type that is complete and nests references at most `n` deep, and so
does all that its references stand for. -/
def isShallowNode (h : Hierarchy) : Nat → TypeExpr → Prop
  | 0, t => t.hasArguments ∧ LeadsTo h (fun _ => False) t
  | n + 1, t => t.hasArguments ∧ LeadsTo h (Everywhere (isShallowNode h n)) t

/-- The type and all that its references stand for is complete, and references are nested at most
`n` deep. -/
abbrev Shallow (h : Hierarchy) (n : Nat) : TypeExpr → Prop := Everywhere (isShallowNode h n)

theorem hasArguments_of_isShallowNode {n : Nat} (t : TypeExpr) (ht : isShallowNode h n t) :
    t.hasArguments := by
  cases n <;> exact ht.1

theorem neutral_leadsTo (P : TypeExpr → Prop) :
    Neutral fun t => t.hasArguments ∧ LeadsTo h P t where
  keyword _ := ⟨rfl, nofun⟩
  unknown _ := ⟨rfl, nofun⟩
  nullable _ := ⟨rfl, nofun⟩
  union _ := ⟨rfl, nofun⟩
  intersection _ := ⟨rfl, nofun⟩
  frame {t _} heq ht := by
    refine ⟨hasArguments_of_frame heq ht.1, ?_⟩
    rintro owner member u rfl hu
    refine ht.2 owner member u ?_ hu
    cases t <;> simp_all [frame]

theorem neutral_isShallowNode : (n : Nat) → Neutral (isShallowNode h n)
  | 0 => neutral_leadsTo _
  | _ + 1 => neutral_leadsTo _

theorem shallow_of_nestsWithin
    (hexpand : ∀ owner member u, h.expand owner member = some u → Complete u) {n : Nat}
    (ht : Complete t) (hnests : NestsWithin h n t) : Shallow h n t := by
  induction n generalizing t with
  | zero =>
    unfold NestsWithin at hnests
    induction hnests with
    | intro here _ ih => exact .intro ⟨ht.here, here⟩ fun u hu => ih u hu (ht.inside hu)
  | succ n ihn =>
    unfold NestsWithin at hnests
    induction hnests with
    | intro here _ ih =>
      refine .intro ⟨ht.here, fun owner member u heq hu => ?_⟩ fun u hu => ih u hu (ht.inside hu)
      exact ihn (hexpand owner member.text u hu) (here owner member u heq hu)

theorem shallow_normalize {n : Nat} (ht : Shallow h n t) : ∃ k, Shallow h k (normalize h t).1 ∧
      ((normalize h t).2 = false ∧ k = n ∨ (normalize h t).2 ∧ k < n) := by
  rcases everywhere_normalize (neutral_isShallowNode n) h ht with
    ⟨hflag, hform⟩ | ⟨owner, member, u, hnode, hexpand, heq⟩
  · exact ⟨n, hform, Or.inl ⟨hflag, rfl⟩⟩
  · rw [heq]
    cases n with
    | zero => exact (hnode.2 owner member u rfl hexpand).elim
    | succ n => exact ⟨n, hnode.2 owner member u rfl hexpand, Or.inr ⟨rfl, Nat.lt_succ_self n⟩⟩

/-! ### Comparisons with an answer -/

/-- The comparison has an answer for all types whose levels are at most `levels` together. -/
def AnswersWithin (h : Hierarchy) (levels : Nat) (compare : TypeExpr → TypeExpr → Verdict) : Prop :=
  ∀ n m a b, n + m ≤ levels → Shallow h n a → Shallow h m b → ∃ r, compare a b = .ok r

/-- The step of a comparison has an answer if its questions about parts have. -/
def StepAnswers (h : Hierarchy) (levels : Nat) (step : (a b : TypeExpr) → Parts a b → Verdict) :
    Prop :=
  ∀ {k l a b} {ask : Parts a b}, k + l ≤ levels → Shallow h k a → Shallow h l b →
    (∀ x y hsize, Shallow h k x → Shallow h l y → ∃ r, ask x y hsize = .ok r) →
      ∃ r, step a b ask = .ok r

/-- A comparison asks about parts on the same levels, or about less deep types if a reference was
followed. -/
theorem exists_of_steps {levels n m : Nat} {deeper : TypeExpr → TypeExpr → Verdict}
    {step : (a b : TypeExpr) → Parts a b → Verdict} (hstep : StepAnswers h levels step)
    (hdeeper : ∀ fewer < levels, AnswersWithin h fewer deeper) (hlevels : n + m ≤ levels)
    (a b : TypeExpr) (ha : Shallow h n a) (hb : Shallow h m b) :
    ∃ r, comparedWith h step deeper a b = .ok r := by
  obtain ⟨k, ha', hk⟩ := shallow_normalize ha
  obtain ⟨l, hb', hl⟩ := shallow_normalize hb
  rw [comparedWith]
  split
  · next hflags =>
    refine hstep (by omega) ha' hb' fun x y hsize hx hy => ?_
    have := size_normalize_le h a hflags.1
    have := size_normalize_le h b hflags.2
    have hk : k = n := (hk.resolve_right (by simp [hflags.1])).2
    have hl : l = m := (hl.resolve_right (by simp [hflags.2])).2
    exact exists_of_steps hstep hdeeper hlevels x y (hk ▸ hx) (hl ▸ hy)
  · next hflags =>
    have hfewer : k + l < levels := by
      rw [not_and_or, Bool.not_eq_false, Bool.not_eq_false] at hflags
      rcases hk with ⟨hk, rfl⟩ | ⟨-, hk⟩ <;> rcases hl with ⟨hl, rfl⟩ | ⟨-, hl⟩
      · simp [hk, hl] at hflags
      all_goals omega
    exact hstep (by omega) ha' hb' fun x y _ hx hy => hdeeper _ hfewer k l x y le_rfl hx hy
termination_by a.size + b.size

theorem exists_containedWithin (depth : Nat) : AnswersWithin h depth (containedWithin h depth) := by
  have hstep {levels} : StepAnswers h levels (containedStep h) := fun _ ha hb hask =>
    exists_containedStep (neutral_isShallowNode _) (neutral_isShallowNode _)
      hasArguments_of_isShallowNode hasArguments_of_isShallowNode ha hb hask h
  intro n m a b hlevels
  induction depth generalizing n m a b with
  | zero => exact exists_of_steps hstep (by omega) hlevels a b
  | succ depth ih =>
    exact exists_of_steps hstep (fun _ _ n m a b _ => ih n m a b (by omega)) hlevels a b

theorem exists_overlapWithin (depth : Nat) : AnswersWithin h depth (overlapWithin h depth) := by
  have hstep {depth} : StepAnswers h depth (overlapStep (containedWithin h depth)) :=
    fun hlevels ha hb hask =>
      exists_overlapStep (neutral_isShallowNode _) (neutral_isShallowNode _) ha hb hask
        (exists_containedWithin depth _ _ _ _ hlevels ha hb)
        (exists_containedWithin depth _ _ _ _ (by omega) hb ha)
  intro n m a b hlevels
  induction depth generalizing n m a b with
  | zero => exact exists_of_steps hstep (by omega) hlevels a b
  | succ depth ih =>
    exact exists_of_steps hstep (fun _ _ n m a b _ => ih n m a b (by omega)) hlevels a b

/-! ### References without a circle -/

/-- The class and the member that a reference names. -/
def reference? : TypeExpr → Option (String × String)
  | .memberReference owner member => some (owner, member.text)
  | _ => none

theorem reference?_frame (t : TypeExpr) : t.frame.reference? = t.reference? := by cases t <;> rfl

/-- The references anywhere in a type. -/
def references (t : TypeExpr) : List (String × String) :=
  t.reference?.toList ++ (parts t).attach.flatMap fun u => references u.1
termination_by t.size
decreasing_by exact size_lt_of_mem_parts u.2

theorem everywhere_reference_iff {P : String × String → Prop} :
    Everywhere (fun u => ∀ r ∈ u.reference?, P r) t ↔ ∀ r ∈ t.references, P r := by
  induction t using partsInduction with
  | step t ih =>
    rw [references, everywhere_iff]
    simp only [List.mem_append, Option.mem_toList, List.mem_flatMap, List.mem_attach, true_and,
      Subtype.exists]
    constructor
    · rintro ⟨here, inside⟩ r (hr | ⟨u, hu, hr⟩)
      · exact here r hr
      · exact (ih u hu).mp (inside u hu) r hr
    · intro hall
      exact ⟨fun r hr => hall r (.inl hr), fun u hu =>
        (ih u hu).mpr fun r hr => hall r (.inr ⟨u, hu, hr⟩)⟩

/-- What the first reference stands for holds the second one. -/
def Refers (h : Hierarchy) (r s : String × String) : Prop :=
  ∃ t, h.expand r.1 r.2 = some t ∧ s ∈ t.references

theorem nestsWithin_of_height {height : String × String → Nat}
    (hdown : ∀ r s, Refers h r s → height s < height r) {n : Nat}
    (ht : ∀ r ∈ t.references, height r < n) : NestsWithin h n t := by
  induction n generalizing t with
  | zero =>
    refine (everywhere_reference_iff.mpr ht).mono fun u hu owner member v heq _ => ?_
    subst heq
    exact absurd (hu _ rfl) (Nat.not_lt_zero _)
  | succ n ih =>
    refine (everywhere_reference_iff.mpr ht).mono fun u hu owner member v heq hv => ih ?_
    subst heq
    intro s hs
    have hlower := hdown (owner, member.text) s ⟨v, hv, hs⟩
    have := hu _ rfl
    omega

/-- **References that lead in no circle** are nested no deeper than there are references. -/
theorem nestsWithin_of_acyclic {targets : List (String × String)}
    (htargets : ∀ r s, Refers h r s → s ∈ targets) (hacyclic : ∀ r, ¬ TransGen (Refers h) r r)
    (t : TypeExpr) : NestsWithin h (targets.length + 1) t := by
  obtain ⟨height, hdown, hbound⟩ := Graph.exists_height_of_acyclic htargets hacyclic
  exact nestsWithin_of_height hdown fun r _ => Nat.lt_succ_of_le (hbound r)

/-! ### A reference to itself -/

section
variable {owner : String} {member : Label} {ts : List TypeExpr}
  (hexpand : h.expand owner member.text = some (.union (.memberReference owner member :: ts)))
  {name : String}
include hexpand

omit hexpand in
theorem normalize_keyword (name : String) :
    normalize h (.keyword name) = (.keyword name, false) := by
  simp [normalize]

/-- A reference that stands for a union with itself is asked about again on every level. -/
theorem comparedWith_circular (step : (a b : TypeExpr) → Parts a b → Verdict)
    (deeper : TypeExpr → TypeExpr → Verdict) :
    comparedWith h step deeper (.memberReference owner member) (.keyword name) =
      step (.union (.memberReference owner member :: ts)) (.keyword name) fun x y _ =>
        deeper x y := by
  have hnormal : normalize h (.memberReference owner member) =
      (.union (.memberReference owner member :: ts), true) := by rw [normalize, hexpand]
  rw [comparedWith, dif_neg (by simp [hnormal]), hnormal, normalize_keyword]

theorem containedWithin_circular (hmixed : name ≠ "mixed") (depth : Nat) :
    containedWithin h depth (.memberReference owner member) (.keyword name) =
      .error .endlessReference := by
  have hstep : ∀ deeper : TypeExpr → TypeExpr → Verdict,
      deeper (.memberReference owner member) (.keyword name) = .error .endlessReference →
      comparedWith h (containedStep h) deeper (.memberReference owner member) (.keyword name) =
        .error .endlessReference := by
    intro deeper hdeeper
    rw [comparedWith_circular hexpand]
    simp [containedStep, isUnknown, isMixed, isNever, hmixed, same, isUnionLike, membersOf, allHold,
      hdeeper]
  induction depth with
  | zero => exact hstep _ rfl
  | succ depth ih => exact hstep _ ih

theorem overlapWithin_circular (hmixed : name ≠ "mixed") (hnever : name ≠ "never") (depth : Nat) :
    overlapWithin h depth (.memberReference owner member) (.keyword name) =
      .error .endlessReference := by
  have hstep : ∀ contained deeper : TypeExpr → TypeExpr → Verdict,
      deeper (.memberReference owner member) (.keyword name) = .error .endlessReference →
      comparedWith h (overlapStep contained) deeper (.memberReference owner member)
        (.keyword name) = .error .endlessReference := by
    intro contained deeper hdeeper
    rw [comparedWith_circular hexpand]
    simp [overlapStep, isUnknown, isMixed, isNever, hmixed, hnever, same, isUnionLike, membersOf,
      someHolds, hdeeper]
  induction depth with
  | zero => exact hstep _ _ rfl
  | succ depth ih => exact hstep _ _ ih

end

end StubCatalog.TypeExpr
