import StubCatalog.Proofs.Table
import StubCatalog.Proofs.TypeExpr.Comparison
import StubCatalog.Proofs.TypeExpr.ReadForm
import StubCatalog.TypeExpr.Resolve

/-! # Canonical form is kept

A type is canonical if its nullable types, unions, intersections and arguments are, all the way down
(`IsCanonical`). Everything that rebuilds a type goes through `rebuild`, so the argument is made
there (`Turns`). -/

namespace StubCatalog.TypeExpr

variable {bindings : Table TypeExpr} {t : TypeExpr}

/-! ### What stands directly in a type -/

section
variable {t u : TypeExpr}

theorem integers_frame (t : TypeExpr) : t.frame.integers = t.integers := by
  cases t with
  | shape kind fields s key value =>
    simp only [frame, TypeExpr.integers, List.filterMap_map]
    rfl
  | _ => rfl

theorem isCanonicalNode_frame (h : t.isSolid) : t.frame.IsCanonicalNode ↔ t.IsCanonicalNode := by
  cases t with
  | nullable | union | intersection | template => cases h
  | generic name ts => cases ts <;> simp [frame, IsCanonicalNode]
  | _ => rfl

theorem IsReadNode.of_frame {names names' : String → Prop} {ints : Int → Prop}
    (h : IsReadNode names ints t) (heq : t.frame = u.frame)
    (htemplate : ∀ name bound, t ≠ .template name bound) : IsReadNode names' ints u where
  regular := isRegularNode_of_frame heq h.regular
  number := by rw [← isNumberNode_frame, ← heq, isNumberNode_frame, h.number]
  integers := by
    rw [← integers_frame, ← heq, integers_frame]
    exact h.integers
  template := by
    rintro name bound rfl
    cases t <;> simp_all [frame]

end

/-! ### Rebuilding -/

section
variable {m : Type → Type} [Monad m] (c : Carries m) (w : Treatment m)

/-- Canonical types with the condition `q` everywhere become such with the condition `q'`, as far as
the treatment of template parameters and conditionals goes. -/
structure Turns (q q' : TypeExpr → Prop) : Prop where
  members : CanonicalClass (Formed q')
  keep {t u : TypeExpr} : q t → t.frame = u.frame → (∀ name bound, t ≠ .template name bound) → q' u
  onTemplate {name : Label} {bound : Option TypeExpr} {rebuilt : Option (m TypeExpr)} :
    Formed q (.template name bound) → (∀ x ∈ rebuilt, c.holds (Formed q') x) →
      c.holds (Formed q') (w.onTemplate name bound rebuilt)
  onConditional {subject : Label} {target whenTrue whenFalse : m TypeExpr} {negated : Flag} :
    (∀ t a b, q' (.conditional subject t a b negated)) → c.holds (Formed q') target →
      c.holds (Formed q') whenTrue → c.holds (Formed q') whenFalse →
      c.holds (Formed q') (w.onConditional subject target whenTrue whenFalse negated)

variable {c w} {q q' : TypeExpr → Prop}

/-- **A rebuilt type is in canonical form**, and what the treatment turns into `q'` has `q'`
everywhere. By induction on the type: members are put together again, other types keep what stands
directly in them. -/
theorem Turns.rebuild (h : Turns c w q q') (ht : Formed q t) :
    c.holds (Formed q') (rebuild w t) := by
  unfold Formed at ht
  induction ht with
  | @intro t here inside ih =>
    obtain ⟨hnode, hq⟩ := here
    have hsolid : t.isSolid → t.isConditional = false →
        (∀ name bound, t ≠ .template name bound) → c.holds (Formed q') (TypeExpr.rebuild w t) := by
      intro hsolid hnot htemplate
      refine c.mono (holds_rebuild c hsolid (by simp [hnot]) fun u hu =>
        ih u (mem_parts_of_mem_children hu)) fun r ⟨hframe, hchildren⟩ => ?_
      have hnode : r.IsCanonicalNode := by
        rwa [← isCanonicalNode_frame (by rw [← isSolid_frame, hframe, isSolid_frame, hsolid]),
          hframe, isCanonicalNode_frame hsolid]
      exact .of_frame hsolid hframe ⟨hnode, h.keep hq hframe.symm htemplate⟩
        (forall_of_forall₂ hchildren)
    cases t with
    | nullable t =>
      refine c.bind (ih t (by simp [parts, children])) fun u hu => ?_
      exact c.pure (h.members.nullableOf hu)
    | union ts =>
      refine c.bind (holds_rebuildList c ih) fun us hus => ?_
      exact c.pure (h.members.unionOf (forall_of_forall₂ hus))
    | intersection ts =>
      refine c.bind (holds_rebuildList c ih) fun us hus => ?_
      exact c.pure (h.members.intersectionOf (forall_of_forall₂ hus))
    | conditional subject target whenTrue whenFalse negated =>
      exact h.onConditional (fun _ _ _ => h.keep hq rfl (by simp))
        (ih target (by simp [parts, children])) (ih whenTrue (by simp [parts, children]))
        (ih whenFalse (by simp [parts, children]))
    | template name bound =>
      have ht : Formed q (.template name bound) := .intro ⟨hnode, hq⟩ inside
      cases bound with
      | none => exact h.onTemplate ht (by simp)
      | some bound =>
        refine h.onTemplate ht ?_
        rintro x ⟨⟩
        exact ih bound (by simp [parts])
    | _ => exact hsolid rfl rfl (by simp)

theorem holds_keepConditional {subject : Label} {target whenTrue whenFalse : m TypeExpr}
    {negated : Flag} (hq : ∀ t a b, q (.conditional subject t a b negated))
    (htarget : c.holds (Formed q) target) (htrue : c.holds (Formed q) whenTrue)
    (hfalse : c.holds (Formed q) whenFalse) :
    c.holds (Formed q) (keepConditional subject target whenTrue whenFalse negated) := by
  refine c.bind htarget fun t ht => c.bind htrue fun a ha => c.bind hfalse fun b hb => ?_
  exact c.pure (.intro ⟨trivial, hq t a b⟩ (forall_parts_conditional.mpr ⟨ht, ha, hb⟩))

end

/-! ### Rebuildings that always have a result -/

section
variable {q q' : TypeExpr → Prop} (hclass : CanonicalClass (Formed q'))
  (hkeep : ∀ {t u : TypeExpr}, q t → t.frame = u.frame →
    (∀ name bound, t ≠ .template name bound) → q' u)
include hclass hkeep

theorem formed_substitution (hbound : ∀ name u, bindings.get? name = some u → Formed q' u)
    (hfree : ∀ (name : Label) bound, bindings.get? name.text = none →
      Formed q (.template name bound) → Formed q' (.template name bound)) (ht : Formed q t) :
    Formed q' (rebuild (substitution bindings) t).run := by
  have h : Turns Carries.result (substitution bindings) q q' := {
    members := hclass
    keep := hkeep
    onTemplate {name bound _} hname _ := by
      show Formed q' ((bindings.get? name.text).getD (.template name bound))
      cases hget : bindings.get? name.text with
      | none => exact hfree name bound hget hname
      | some u => exact hbound _ u hget
    onConditional := holds_keepConditional }
  exact h.rebuild ht

theorem formed_eraseTemplates (ht : Formed q t) : Formed q' (eraseTemplates t) := by
  have h : Turns Carries.result erasure q q' := {
    members := hclass
    keep := hkeep
    onTemplate {_ _ rebuilt} _ hrebuilt := by
      cases rebuilt with
      | none => exact hclass.mixed
      | some x => exact hrebuilt x rfl
    onConditional := holds_keepConditional }
  exact h.rebuild ht

end

section
variable {q : TypeExpr → Prop} (hclass : CanonicalClass (Formed q))
  (hkeep : ∀ {t u : TypeExpr}, q t → t.frame = u.frame →
    (∀ name bound, t ≠ .template name bound) → q u)
include hclass hkeep

theorem formed_substitute
    (hbound : ∀ name u, bindings.get? name = some u → Formed q u) (ht : Formed q t) :
    Formed q (substitute bindings t) := by
  unfold substitute
  split
  · exact ht
  · exact formed_substitution hclass hkeep hbound (fun _ _ _ h => h) ht

theorem formed_conditionalBranches (ht : Formed q t) : Formed q (conditionalBranches t) := by
  have h : Turns Carries.result branching q q := {
    members := hclass
    keep := hkeep
    onTemplate hname _ := hname
    onConditional _ _ htrue hfalse := by
      exact hclass.unionOf (by simpa using ⟨htrue, hfalse⟩) }
  exact h.rebuild ht

theorem holds_deciding {allowed : Undecided → Prop} {call : CallSite} {h : Hierarchy}
    (hsubject : ∀ name, allowed (.subject name))
    (hcontained : ∀ name t u e, call.subjectType? name = some t → Formed q u →
      isContainedBy t u h = .error e → allowed (.comparison e))
    (hoverlap : ∀ name t u e, call.subjectType? name = some t → Formed q u →
      canOverlap t u h = .error e → allowed (.comparison e))
    (ht : Formed q t) :
    (Carries.orError allowed).holds (Formed q) (rebuild (deciding call h) t) := by
  let c : Carries (Except Undecided) := .orError allowed
  have hdecided : ∀ {v : Verdict}, (∀ e, v = .error e → allowed (.comparison e)) →
      c.holds (fun _ => True) (decided v) := by
    intro v hv
    cases v with
    | ok answer => trivial
    | error e => exact hv e rfl
  have hturns : Turns c (deciding call h) q q := {
    members := hclass
    keep := hkeep
    onTemplate hname _ := hname
    onConditional {subject target whenTrue whenFalse negated} _ htarget htrue hfalse := by
      show c.holds (Formed q) (decideConditional call h subject target whenTrue whenFalse negated)
      unfold decideConditional
      split
      · exact hsubject _
      · exact hsubject _
      · next t _ hget =>
        refine c.bind htarget fun u hu => ?_
        refine c.bind (hdecided fun e => hcontained _ t u e hget hu) fun within _ => ?_
        split
        · split
          · exact hfalse
          · exact htrue
        · refine c.bind (hdecided fun e => hoverlap _ t u e hget hu) fun overlaps _ => ?_
          split
          · refine c.bind htrue fun a ha => c.bind hfalse fun b hb => c.pure ?_
            exact hclass.unionOf (by simpa using ⟨ha, hb⟩)
          · split
            · exact htrue
            · exact hfalse }
  exact hturns.rebuild ht

end

/-! ### Canonical types -/

instance : DecidablePred Alternatives := fun ts =>
  decidable_of_iff (2 ≤ ts.length ∧ (∀ t ∈ ts, t.isAlternative) ∧
    ts.Pairwise fun t u => t.same u = false)
    ⟨fun h => ⟨h.1, h.2.1, h.2.2⟩, fun h => ⟨h.1, h.2, h.3⟩⟩

instance : DecidablePred Combination := fun ts =>
  decidable_of_iff (2 ≤ ts.length ∧ (∀ t ∈ ts, t.isIntersection = false) ∧
    ts.Pairwise fun t u => t.same u = false)
    ⟨fun h => ⟨h.1, h.2.1, h.2.2⟩, fun h => ⟨h.1, h.2, h.3⟩⟩

instance : DecidablePred IsCanonicalNode
  | .nullable t => inferInstanceAs (Decidable (t.takesNull))
  | .union ts => inferInstanceAs (Decidable (Alternatives ts))
  | .intersection ts => inferInstanceAs (Decidable (Combination ts))
  | .generic _ args => decidable_of_iff (args.isEmpty = false) (by simp [IsCanonicalNode])
  | .keyword _ | .named _ | .shape .. | .conditional .. | .literal _ | .template .. | .intRange ..
  | .callable .. | .memberReference .. | .unknown _ => isTrue trivial

/-- The type is in canonical form all the way down, the bounds of template parameters included. -/
def IsCanonical : TypeExpr → Prop := Everywhere IsCanonicalNode

instance : DecidablePred IsCanonical := fun t =>
  inferInstanceAs (Decidable (Everywhere IsCanonicalNode t))

theorem isCanonical_iff : IsCanonical t ↔ Formed (fun _ => True) t :=
  ⟨fun h => h.mono fun _ hu => ⟨hu, trivial⟩, fun h => h.mono fun _ hu => hu.1⟩

theorem IsCanonical.formed {q : TypeExpr → Prop} (h : IsCanonical t)
    (hq : Everywhere q t) : Formed q t := by
  unfold IsCanonical at h
  induction h with
  | intro here inside ih => exact .intro ⟨here, hq.here⟩ fun u hu => ih u hu (hq.inside hu)

theorem Formed.proper {q : TypeExpr → Prop} (h : Formed q t)
    (hq : ∀ u, q u → u.isRegularNode) : Proper t := by
  refine h.mono fun u hu => ?_
  have harguments : u.hasArguments := by
    cases u with
    | generic name args => simpa [hasArguments, IsCanonicalNode] using hu.1
    | _ => rfl
  rw [isProperNode, hq u hu.2, harguments]
  rfl

theorem canonicalClass_isCanonical : CanonicalClass (Formed fun _ => True) :=
  canonicalClass_everywhere trivial trivial trivial (fun _ _ _ => trivial) (fun _ _ _ => trivial)
    fun _ _ _ => trivial

theorem canonicalClass_regular : CanonicalClass (Formed fun t => t.isRegularNode) :=
  canonicalClass_everywhere rfl rfl rfl (fun _ _ _ => rfl) (fun _ _ _ => rfl) fun _ _ _ => rfl

/-- The type is in canonical form everywhere, and its words, truth values, bounds and keys are what
they should be. -/
abbrev RegularForm : TypeExpr → Prop := Formed fun t => t.isRegularNode

theorem ReadForm.regularForm {names : String → Prop} {ints : Int → Prop}
    (h : ReadForm names ints t) : RegularForm t :=
  h.mono fun _ hu => ⟨hu.1, hu.2.regular⟩

theorem regularForm_leaf (hparts : parts t = []) (hcanonical : t.IsCanonicalNode)
    (hregular : t.isRegularNode) : RegularForm t :=
  .intro ⟨hcanonical, hregular⟩ (by simp [hparts])

theorem regularForm_substitute (hbindings : bindings.Holds fun _ => RegularForm)
    (ht : RegularForm t) : RegularForm (substitute bindings t) := by
  exact formed_substitute canonicalClass_regular (fun ht heq _ => isRegularNode_of_frame heq ht)
    hbindings ht

theorem isCanonical_of_parse {text : String} {scope : Scope}
    (hscope : ∀ name bound, scope.templates.get? name = some (some bound) → IsCanonical bound)
    (h : parse text scope = .ok t) : IsCanonical t := by
  have hread : ∀ u, IsReadNode (fun _ => True) (fun _ => True) u → True := fun _ _ => trivial
  refine isCanonical_iff.mpr (formed_of_parse hread ?_ (fun _ _ _ _ => ⟨trivial, trivial⟩) h)
  rintro name bound hget
  refine ⟨trivial, ?_⟩
  rintro u rfl
  exact isCanonical_iff.mp (hscope name u hget)

theorem isCanonical_of_resolveConditional {r : TypeExpr} {call : CallSite} {h : Hierarchy}
    (ht : IsCanonical t) (hr : resolveConditional t call h = .ok r) : IsCanonical r := by
  have hholds : (Carries.orError fun _ => True).holds (Formed fun _ => True)
      (rebuild (deciding call h) t) :=
    holds_deciding canonicalClass_isCanonical (fun _ _ _ => trivial) (fun _ => trivial)
      (fun _ _ _ _ _ _ _ => trivial) (fun _ _ _ _ _ _ _ => trivial) (isCanonical_iff.mp ht)
  unfold resolveConditional at hr
  split at hr
  · next u hu =>
    cases hr
    rw [hu] at hholds
    exact isCanonical_iff.mpr hholds
  · cases hr
    exact .intro trivial (by simp [parts, children])
  · cases hr

end TypeExpr

/-- Every type that is known about a call has the property. -/
structure CallSite.OfTypes (p : TypeExpr → Prop) (call : CallSite) : Prop where
  arguments : ∀ name t, call.arguments.get? name = some t → p t
  templates : ∀ name t, call.templates.get? name = some t → p t
  thisType : ∀ t ∈ call.thisType, p t

theorem CallSite.OfTypes.mono {p q : TypeExpr → Prop} {call : CallSite} (h : call.OfTypes p)
    (hpq : ∀ t, p t → q t) : call.OfTypes q :=
  ⟨fun name t ht => hpq t (h.arguments name t ht), fun name t ht => hpq t (h.templates name t ht),
    fun t ht => hpq t (h.thisType t ht)⟩

theorem CallSite.OfTypes.subjectType {p : TypeExpr → Prop} {call : CallSite} (h : call.OfTypes p)
    {subject : String} {t : TypeExpr} (ht : call.subjectType? subject = some t) : p t := by
  unfold subjectType? at ht
  split at ht
  · exact h.thisType t ht
  · split at ht
    · exact h.arguments _ t ht
    · exact h.templates _ t ht

namespace TypeExpr

theorem exists_resolveConditional {t : TypeExpr} {call : CallSite}
    (ht : IsCanonical t ∧ Regular t) (hcall : call.OfTypes fun u => IsCanonical u ∧ Regular u) :
    ∃ r, resolveConditional t call = .ok r := by
  have hformed : ∀ u, IsCanonical u ∧ Regular u → Formed (fun v => v.isRegularNode) u :=
    fun u hu => hu.1.formed hu.2
  have hproper : ∀ u, Formed (fun v => v.isRegularNode) u → Proper u :=
    fun u hu => hu.proper fun _ h => h
  have hholds : (Carries.orError fun e => ∃ name, e = .subject name).holds
      (Formed fun v => v.isRegularNode) (rebuild (deciding call .unknown) t) := by
    refine holds_deciding canonicalClass_regular (fun ht heq _ => isRegularNode_of_frame heq ht)
      (fun name => ⟨name, rfl⟩) (fun name u v e hu hv he => ?_) (fun name u v e hu hv he => ?_)
      (hformed t ht)
    · obtain ⟨b, hb⟩ := exists_isContainedBy u v (hproper u (hformed u (hcall.subjectType hu)))
        (hproper v hv)
      rw [hb] at he
      cases he
    · obtain ⟨b, hb⟩ := exists_canOverlap u v (hproper u (hformed u (hcall.subjectType hu)))
        (hproper v hv)
      rw [hb] at he
      cases he
  unfold resolveConditional
  cases hr : rebuild (deciding call .unknown) t with
  | ok r => exact ⟨r, rfl⟩
  | error e =>
    rw [hr] at hholds
    obtain ⟨name, rfl⟩ := hholds
    exact ⟨_, rfl⟩

/-- **Canonical form is an invariant of types.** A type that is read is canonical if the bounds of
the template parameters in scope are; so are unions, intersections and nullable types of canonical
types, and a canonical type after substitution by canonical types, after erasure, with conditionals
replaced by both branches, and with conditionals decided for a call. The last always has a result if
nothing is known about classes and the types are regular. -/
theorem isCanonical_results : (∀ (text : String) (scope : Scope) (t : TypeExpr),
      (∀ name bound, scope.templates.get? name = some (some bound) → IsCanonical bound) →
        parse text scope = .ok t → IsCanonical t) ∧
    (∀ ts : List TypeExpr, (∀ t ∈ ts, IsCanonical t) →
      IsCanonical (unionOf ts) ∧ IsCanonical (intersectionOf ts)) ∧
    (∀ t, IsCanonical t → IsCanonical (nullableOf t) ∧ IsCanonical (eraseTemplates t) ∧
        IsCanonical (conditionalBranches t) ∧
        (∀ bindings : Table TypeExpr, (∀ name u, bindings.get? name = some u → IsCanonical u) →
          IsCanonical (substitute bindings t)) ∧
        (∀ (call : CallSite) (h : Hierarchy) (r : TypeExpr),
          resolveConditional t call h = .ok r → IsCanonical r) ∧
        ∀ call : CallSite, Regular t → call.OfTypes (fun u => IsCanonical u ∧ Regular u) →
          ∃ r, resolveConditional t call = .ok r) := by
  have hclass := canonicalClass_isCanonical
  refine ⟨fun text scope t hscope h => isCanonical_of_parse hscope h, fun ts hts => ?_,
    fun t ht => ⟨?_, ?_, ?_, fun bindings hbindings => ?_, fun call h r hr => ?_,
      fun call hregular hcall => ?_⟩⟩
  · have hts := fun t h => isCanonical_iff.mp (hts t h)
    exact ⟨isCanonical_iff.mpr (hclass.unionOf hts),
      isCanonical_iff.mpr (hclass.intersectionOf hts)⟩
  · exact isCanonical_iff.mpr (hclass.nullableOf (isCanonical_iff.mp ht))
  · exact isCanonical_iff.mpr
      (formed_eraseTemplates hclass (fun _ _ _ => trivial) (isCanonical_iff.mp ht))
  · exact isCanonical_iff.mpr
      (formed_conditionalBranches hclass (fun _ _ _ => trivial) (isCanonical_iff.mp ht))
  · refine isCanonical_iff.mpr (formed_substitute hclass (fun _ _ _ => trivial) ?_
      (isCanonical_iff.mp ht))
    exact fun name u hu => isCanonical_iff.mp (hbindings name u hu)
  · exact isCanonical_of_resolveConditional ht hr
  · exact exists_resolveConditional ⟨ht, hregular⟩ hcall

/-- Integers and texts. -/
def keyBound : TypeExpr := .union [.keyword "int", .keyword "string"]

/-- The template parameter `T` of integers and texts. -/
def keyScope : Scope where
  templates := Table.empty.insert "T" (some keyBound)

/-- A conditional, one branch of which is a template parameter, next to another member. -/
def keyOrFalse : TypeExpr :=
  .union [.conditional "$x" (.keyword "string") .null (.template "T" (some keyBound)) false,
    .keyword "false"]

/-- A call with the argument `x`, which may be a text or not. -/
def scalarCall : CallSite where
  arguments := Table.empty.insert "x" (.keyword "scalar")

/-- The conditional is read, decided for an argument that leaves both branches, and its template
parameter bound to a nullable type. -/
theorem isCanonical_results_key :
    parse "($x is string ? null : T)|false" keyScope = .ok keyOrFalse ∧ IsCanonical keyOrFalse ∧
      (∃ r, resolveConditional keyOrFalse scalarCall = .ok r ∧ IsCanonical r) ∧
      IsCanonical
        (substitute (Table.empty.insert "T" (.nullable (.keyword "bool"))) keyOrFalse) := by
  obtain ⟨hparse, -, hrebuilt⟩ := isCanonical_results
  have hread : parse "($x is string ? null : T)|false" keyScope = .ok keyOrFalse := by
    with_unfolding_all rfl
  have hscope : keyScope.templates.Holds fun _ bound => ∀ t ∈ bound, IsCanonical t := by
    decide +kernel
  have ht := hparse _ _ _ (fun name bound h => hscope name _ h bound rfl) hread
  obtain ⟨-, -, -, hsubstitute, hresolve, hexists⟩ := hrebuilt _ ht
  have harguments : scalarCall.arguments.Holds fun _ u => IsCanonical u ∧ Proper u := by
    decide +kernel
  have hcall : scalarCall.OfTypes fun u => IsCanonical u ∧ Regular u :=
    ⟨fun name u h => (harguments name u h).imp_right (·.regular), by simp [scalarCall, Table.empty,
      Table.get?], by simp [scalarCall]⟩
  obtain ⟨r, hr⟩ := hexists scalarCall (by decide +kernel : Proper keyOrFalse).regular hcall
  have hbindings : (Table.empty.insert "T" (.nullable (.keyword "bool"))).Holds
      fun _ u => IsCanonical u := by decide +kernel
  exact ⟨hread, ht, ⟨r, hr, hresolve _ _ r hr⟩, hsubstitute _ hbindings⟩

end TypeExpr

end StubCatalog
