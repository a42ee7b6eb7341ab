import StubCatalog.Proofs.TypeExpr.CanonicalForm
import StubCatalog.Proofs.TypeExpr.Members
import StubCatalog.Proofs.TypeExpr.Nodes

/-! # Conditionals at a call and their branches

For a call, conditionals are decided by what is known about their subjects (`resolveConditional`);
without one, each stands for both of its branches (`conditionalBranches`), an approximation of the
former. -/

namespace StubCatalog

open List

variable {a b : Except Undecided TypeExpr} {subject : Label} {negated : Flag} {r u : TypeExpr}

namespace TypeExpr

/-! ### Types without conditionals -/

section
variable {t : TypeExpr} {ts : List TypeExpr}

theorem looksPast_conditional : LooksPast (Option.guard isConditional) where
  keyword _ := rfl
  nullable _ := rfl
  union _ := rfl
  intersection _ := rfl

theorem conditionals_eq_found (t : TypeExpr) :
    t.conditionals = found (Option.guard isConditional) t := by
  rw [conditionals, found, ← filterMap_eq_filter]

theorem conditionals_eq_nil_iff :
    t.conditionals = [] ↔ t.isConditional = false ∧ ∀ u ∈ t.children, u.conditionals = [] := by
  rw [conditionals_eq_found, found_eq, append_eq_nil_iff, flatMap_eq_nil_iff]
  simp only [← conditionals_eq_found]
  refine and_congr_left' ?_
  cases h : t.isConditional <;> simp [Option.guard, h]

theorem conditionals_eq_nil_of_subset (h : ∀ t ∈ ts, t.conditionals = [])
    (hfound : found (Option.guard isConditional) t ⊆
      ts.flatMap (found (Option.guard isConditional))) : t.conditionals = [] := by
  have hnone : ts.flatMap (found (Option.guard isConditional)) = [] :=
    flatMap_eq_nil_iff.mpr fun u hu => (conditionals_eq_found u).symm.trans (h u hu)
  rw [conditionals_eq_found]
  exact subset_nil.mp (hnone ▸ hfound)

theorem conditionals_unionOf (h : ∀ t ∈ ts, t.conditionals = []) : (unionOf ts).conditionals = [] :=
  conditionals_eq_nil_of_subset h (found_unionOf looksPast_conditional ts)

theorem conditionals_intersectionOf (h : ∀ t ∈ ts, t.conditionals = []) :
    (intersectionOf ts).conditionals = [] :=
  conditionals_eq_nil_of_subset h (found_intersectionOf looksPast_conditional ts)

end

theorem rebuild_template {m : Type → Type} [Monad m] {w : Treatment m}
    (hw : w.onTemplate = keepTemplate) (name : Label) (bound : Option TypeExpr) :
    rebuild w (.template name bound) = pure (.template name bound) := by
  cases bound <;> rw [rebuild, hw, keepTemplate]

/-- A property that types get from the types that they are put together from, conditionals apart. -/
structure Assembles (P : TypeExpr → Prop) : Prop where
  union {ts : List TypeExpr} : (∀ t ∈ ts, P t) → P (unionOf ts)
  intersection {ts : List TypeExpr} : (∀ t ∈ ts, P t) → P (intersectionOf ts)
  other {t : TypeExpr} : t.isConditional = false → (∀ u ∈ t.children, P u) → P t

theorem Assembles.nullable {P : TypeExpr → Prop} (hP : Assembles P) {t : TypeExpr} (ht : P t) :
    P (nullableOf t) := by
  refine hP.union fun u hu => ?_
  rcases (by simpa using hu : u = t ∨ u = null) with rfl | rfl
  · exact ht
  · exact hP.other rfl (by simp [children])

theorem assembles_unconditional : Assembles fun t => t.conditionals = [] where
  union := conditionals_unionOf
  intersection := conditionals_intersectionOf
  other hnot hinside := conditionals_eq_nil_iff.mpr ⟨hnot, hinside⟩

section
variable {m : Type → Type} [Monad m] (c : Carries m) {w : Treatment m} {P : TypeExpr → Prop}

theorem isConditional_frame (t : TypeExpr) : t.frame.isConditional = t.isConditional := by
  cases t <;> rfl

theorem holds_rebuild_of_children (hw : w.onTemplate = keepTemplate) (hP : Assembles P)
    {t : TypeExpr} (hnot : t.isConditional = false)
    (h : ∀ u ∈ t.children, c.holds P (rebuild w u)) : c.holds P (rebuild w t) := by
  have hsolid : t.isSolid → c.holds P (rebuild w t) := by
    intro hsolid
    refine c.mono (holds_rebuild c hsolid (by simp [hnot]) h) fun r ⟨hframe, hchildren⟩ => ?_
    refine hP.other ?_ (forall_of_forall₂ hchildren)
    rw [← isConditional_frame, hframe, isConditional_frame, hnot]
  cases t with
  | nullable t => exact c.bind (h t (by simp [children])) fun u hu => c.pure (hP.nullable hu)
  | union ts =>
    exact c.bind (holds_rebuildList c h) fun us hus => c.pure (hP.union (forall_of_forall₂ hus))
  | intersection ts =>
    exact c.bind (holds_rebuildList c h) fun us hus =>
      c.pure (hP.intersection (forall_of_forall₂ hus))
  | template name bound =>
    rw [rebuild_template hw]
    exact c.pure (hP.other rfl (by simp [children]))
  | conditional => cases hnot
  | _ => exact hsolid rfl

theorem holds_unconditional (hw : w.onTemplate = keepTemplate)
    (hconditional : ∀ subject target whenTrue whenFalse negated,
      c.holds (fun u => u.conditionals = []) whenTrue →
      c.holds (fun u => u.conditionals = []) whenFalse →
      c.holds (fun u => u.conditionals = [])
        (w.onConditional subject target whenTrue whenFalse negated)) (t : TypeExpr) :
    c.holds (fun u => u.conditionals = []) (rebuild w t) := by
  induction t using partsInduction with
  | step t ih =>
    cases hshape : t.isConditional with
    | true =>
      cases t with
      | conditional subject target whenTrue whenFalse negated =>
        exact hconditional _ _ _ _ _ (ih whenTrue (by simp [parts, children]))
          (ih whenFalse (by simp [parts, children]))
      | _ => cases hshape
    | false =>
      exact holds_rebuild_of_children c hw assembles_unconditional hshape fun u hu =>
        ih u (mem_parts_of_mem_children hu)

end

theorem conditionals_pair {a b : TypeExpr} (ha : a.conditionals = []) (hb : b.conditionals = []) :
    (unionOf [a, b]).conditionals = [] :=
  conditionals_unionOf (by simpa using ⟨ha, hb⟩)

theorem conditionals_conditionalBranches (t : TypeExpr) : t.conditionalBranches.conditionals = [] :=
  holds_unconditional Carries.result (w := branching) rfl
    (fun _ _ _ _ _ ha hb => conditionals_pair ha hb) t

theorem ok_of_bind {ε α β : Type} {x : Except ε α} {f : α → Except ε β} {b : β}
    (h : x >>= f = .ok b) : ∃ a, x = .ok a ∧ f a = .ok b := by
  cases x with
  | ok a => exact ⟨a, rfl, h⟩
  | error e => cases h

theorem of_decideConditional {call : CallSite} {h : Hierarchy} {target : Except Undecided TypeExpr}
    (hr : decideConditional call h subject target a b negated = .ok r) :
    a = .ok r ∨ b = .ok r ∨ ∃ x y, a = .ok x ∧ b = .ok y ∧ r = unionOf [x, y] := by
  unfold decideConditional at hr
  split at hr
  · cases hr
  · cases hr
  · next known _ _ =>
    obtain ⟨u, -, hr⟩ := ok_of_bind hr
    obtain ⟨contained, -, hr⟩ := ok_of_bind hr
    split at hr
    · split at hr
      · exact .inr (.inl hr)
      · exact .inl hr
    · obtain ⟨overlaps, -, hr⟩ := ok_of_bind hr
      split at hr
      · obtain ⟨x, hx, hr⟩ := ok_of_bind hr
        obtain ⟨y, hy, hr⟩ := ok_of_bind hr
        cases hr
        exact .inr (.inr ⟨x, y, hx, hy, rfl⟩)
      · split at hr
        · exact .inl hr
        · exact .inr (.inl hr)

theorem conditionals_resolveConditional {t : TypeExpr} {call : CallSite} {h : Hierarchy}
    (hr : resolveConditional t call h = .ok r) : r.conditionals = [] := by
  have hholds := holds_unconditional (Carries.orError fun _ => True) (w := deciding call h) rfl
    (fun subject target a b negated ha hb => ?_) t
  · unfold resolveConditional at hr
    split at hr
    · next u hu =>
      cases hr
      rw [hu] at hholds
      exact hholds
    · cases hr
      rfl
    · cases hr
  · show (Carries.orError _).holds _ (decideConditional call h subject target a b negated)
    cases hd : decideConditional call h subject target a b negated with
    | error e => trivial
    | ok u =>
      rcases of_decideConditional hd with rfl | rfl | ⟨x, y, rfl, rfl, rfl⟩
      · exact ha
      · exact hb
      · exact conditionals_pair ha hb

/-! ### Members of unions -/

theorem mem_or_same_distinctFrom {m : TypeExpr} (seen : List TypeExpr) {ts : List TypeExpr}
    (h : m ∈ ts) :
    (∃ u ∈ seen, u.same m) ∨ ∃ u ∈ distinctFrom seen ts, u = m ∨ u.same m := by
  induction ts generalizing seen with
  | nil => cases h
  | cons t ts ih =>
    unfold distinctFrom
    split
    · next hseen =>
      rcases mem_cons.mp h with rfl | h
      · exact .inl (any_eq_true.mp hseen)
      · exact ih seen h
    · rcases mem_cons.mp h with rfl | h
      · exact .inr ⟨m, by simp, .inl rfl⟩
      · rcases ih (t :: seen) h with ⟨u, hu, hsame⟩ | ⟨u, hu, hsame⟩
        · rcases mem_cons.mp hu with rfl | hu
          · exact .inr ⟨u, by simp, .inr hsame⟩
          · exact .inl ⟨u, hu, hsame⟩
        · exact .inr ⟨u, mem_cons_of_mem _ hu, hsame⟩

theorem mem_or_same_distinct {m : TypeExpr} {ts : List TypeExpr} (h : m ∈ ts) :
    ∃ u ∈ distinct ts, u = m ∨ u.same m := by
  rcases mem_or_same_distinctFrom [] h with ⟨u, hu, -⟩ | hfound
  · cases hu
  · exact hfound

section
variable {t m : TypeExpr} {ts : List TypeExpr}

theorem RegularForm.regular (h : RegularForm t) : Regular t := h.mono fun _ hu => hu.2

theorem mem_membersOf_iff (ht : RegularForm t) : m ∈ membersOf t ↔ m ∈ alternatives t := by
  induction t, ht using canonicalClass_regular.alternativesInduction with
  | single t _ hlike => rw [membersOf_eq hlike, alternatives_eq hlike]
  | union ts _ hts =>
    rw [alternatives_union hts.plain]
    rfl
  | nullable t _ htakes ih =>
    rw [alternatives_nullable htakes, membersOf, mem_append, ih, mem_singleton,
      mem_cons, or_comm]

theorem regularForm_of_mem_membersOf (ht : RegularForm t) (hm : m ∈ membersOf t) : RegularForm m :=
  (canonicalClass_regular.of_mem_alternatives ht ((mem_membersOf_iff ht).mp hm)).1

theorem mem_membersOf_unionOf (hts : ∀ t ∈ ts, RegularForm t) : m ∈ membersOf (unionOf ts) ↔
      m ∈ unionMembers ts ∨
      (m = null ∧ (ts.flatMap alternatives).any isNull) ∨
      (m = never ∧ (ts.flatMap alternatives).any isNull = false ∧ unionMembers ts = []) := by
  have hmem := fun t => canonicalClass_regular.of_mem_members (t := t) hts
  have hmany := canonicalClass_regular.alternatives_members hts
  unfold unionOf unionMembers at *
  simp only
  generalize dropNever (distinct ((ts.flatMap alternatives).filter (!·.isNull))) = members
    at hmem hmany
  generalize (ts.flatMap alternatives).any isNull = orNull
  match members with
  | [] => cases orNull <;> simp [membersOf, null, never]
  | [t] =>
    obtain ⟨-, hlike, hnull⟩ := hmem t (by simp)
    cases orNull <;> simp [mkNullable_eq (takesNull_of hlike hnull), membersOf, membersOf_eq hlike]
  | t :: u :: us =>
    have hmembers := hmany (by simp)
    cases orNull <;> simp [hmembers.mkUnion_eq, mkNullable, membersOf, or_assoc]

theorem exists_of_mem_unionOf (hts : ∀ t ∈ ts, RegularForm t) (hm : m ∈ membersOf (unionOf ts))
    (hnever : m.isNever = false) : ∃ t ∈ ts, m ∈ membersOf t := by
  rcases (mem_membersOf_unionOf hts).mp hm with hm | ⟨rfl, hnull⟩ | ⟨rfl, -⟩
  · have hm := mem_of_mem_distinct (CanonicalClass.mem_of_mem_dropNever hm)
    obtain ⟨t, ht, hmt⟩ := mem_flatMap.mp (mem_filter.mp hm).1
    exact ⟨t, ht, (mem_membersOf_iff (hts t ht)).mpr hmt⟩
  · obtain ⟨u, hu, hunull⟩ := any_eq_true.mp hnull
    obtain ⟨t, ht, hut⟩ := mem_flatMap.mp hu
    have hregular : RegularForm u := (canonicalClass_regular.of_mem_alternatives (hts t ht) hut).1
    obtain rfl := hregular.regular.eq_null hunull
    exact ⟨t, ht, (mem_membersOf_iff (hts t ht)).mpr hut⟩
  · cases hnever

/-- The type is a member of `t`, or equal to one. A decimal that is no number is not equal to
itself. -/
def HasMember (t m : TypeExpr) : Prop := ∃ u ∈ t.membersOf, u = m ∨ u.same m

theorem isNever_of_eq_or_same (hu : Regular u) (hm : Regular m) (h : u = m ∨ u.same m)
    (hnever : m.isNever = false) : u.isNever = false := by
  rcases h with rfl | h
  · exact hnever
  · rw [(hu.isNull_isNever_of_same hm h).2, hnever]

theorem hasMember_unionOf (hts : ∀ t ∈ ts, RegularForm t) (ht : t ∈ ts) (hm : m ∈ membersOf t)
    (hnever : m.isNever = false) : HasMember (unionOf ts) m := by
  have hregular := regularForm_of_mem_membersOf (hts t ht) hm
  have hoffered : m ∈ ts.flatMap alternatives :=
    mem_flatMap.mpr ⟨t, ht, (mem_membersOf_iff (hts t ht)).mp hm⟩
  cases hnull : m.isNull with
  | true =>
    obtain rfl := hregular.regular.eq_null hnull
    refine ⟨null, (mem_membersOf_unionOf hts).mpr (.inr (.inl ⟨rfl, ?_⟩)), .inl rfl⟩
    exact any_eq_true.mpr ⟨null, hoffered, rfl⟩
  | false =>
    have hleft : m ∈ (ts.flatMap alternatives).filter (!·.isNull) :=
      mem_filter.mpr ⟨hoffered, by simp [hnull]⟩
    obtain ⟨u, hu, hsame⟩ := mem_or_same_distinct hleft
    obtain ⟨v, hv, huv⟩ := mem_flatMap.mp (mem_filter.mp (mem_of_mem_distinct hu)).1
    have huregular : RegularForm u :=
      (canonicalClass_regular.of_mem_alternatives (hts v hv) huv).1
    have hunever := isNever_of_eq_or_same huregular.regular hregular.regular hsame hnever
    refine ⟨u, (mem_membersOf_unionOf hts).mpr (.inl ?_), hsame⟩
    unfold unionMembers dropNever
    split
    · exact mem_filter.mpr ⟨hu, by simp [hunever]⟩
    · exact hu

/-- Every member of `t` is a member of `u`, the empty type apart. -/
def MembersIn (t u : TypeExpr) : Prop := ∀ m ∈ t.membersOf, m.isNever = false → u.HasMember m

theorem membersIn_refl (t : TypeExpr) : MembersIn t t := fun m hm _ => ⟨m, hm, .inl rfl⟩

theorem MembersIn.unionOf_right {us : List TypeExpr} (h : MembersIn t u) (ht : RegularForm t)
    (hus : ∀ u ∈ us, RegularForm u) (hu : u ∈ us) : MembersIn t (unionOf us) := by
  intro m hm hnever
  obtain ⟨v, hv, hvm⟩ := h m hm hnever
  have hmregular := (regularForm_of_mem_membersOf ht hm).regular
  have hvregular := (regularForm_of_mem_membersOf (hus u hu) hv).regular
  obtain ⟨w, hw, hwv⟩ := hasMember_unionOf hus hu hv
    (isNever_of_eq_or_same hvregular hmregular hvm hnever)
  have hwregular := (regularForm_of_mem_membersOf (canonicalClass_regular.unionOf hus) hw).regular
  refine ⟨w, hw, ?_⟩
  rcases hwv with rfl | hwv
  · exact hvm
  · rcases hvm with rfl | hvm
    · exact .inr hwv
    · exact .inr (same_trans hwregular hvregular hmregular hwv hvm)

theorem membersIn_unionOf {us : List TypeExpr} (hts : ∀ t ∈ ts, RegularForm t)
    (hus : ∀ u ∈ us, RegularForm u) (h : ∀ t ∈ ts, ∃ u ∈ us, MembersIn t u) :
    MembersIn (unionOf ts) (unionOf us) := by
  intro m hm hnever
  obtain ⟨t, ht, hmt⟩ := exists_of_mem_unionOf hts hm hnever
  obtain ⟨u, hu, htu⟩ := h t ht
  exact htu.unionOf_right (hts t ht) hus hu m hmt hnever

theorem membersIn_pair {t' u' : TypeExpr} (ht : RegularForm t) (ht' : RegularForm t')
    (hu : RegularForm u) (hu' : RegularForm u') (h : MembersIn t u) (h' : MembersIn t' u') :
    MembersIn (unionOf [t, t']) (unionOf [u, u']) := by
  refine membersIn_unionOf (by simpa using ⟨ht, ht'⟩) (by simpa using ⟨hu, hu'⟩) ?_
  simp only [mem_cons, not_mem_nil, or_false, forall_eq_or_imp, forall_eq]
  exact ⟨⟨u, .inl rfl, h⟩, u', .inr rfl, h'⟩

end

section
variable {m : Type → Type} [Monad m] [LawfulMonad m] {w : Treatment m}

theorem eq_of_forall₂ {α : Type} {xs ys : List α} (h : List.Forall₂ (fun x y => y = x) xs ys) :
    ys = xs := by
  rw [eq_map_of_forall₂ h, map_id']

theorem rebuild_eq_self (hw : w.onTemplate = keepTemplate) {t : TypeExpr} (ht : RegularForm t)
    (h : t.conditionals = []) : rebuild w t = pure t := by
  induction t using partsInduction with
  | step t ih =>
    obtain ⟨hnot, hnone⟩ := conditionals_eq_nil_iff.mp h
    have hinside : ∀ u ∈ t.children, Carries.value.holds (· = u) (rebuild w u) := fun u hu =>
      ⟨u, ih u (mem_parts_of_mem_children hu) (ht.inside (mem_parts_of_mem_children hu))
        (hnone u hu), rfl⟩
    have hsolid : t.isSolid → rebuild w t = pure t := by
      intro hsolid
      obtain ⟨r, hr, hframe, hchildren⟩ :=
        holds_rebuild Carries.value hsolid (by simp [hnot]) hinside
      rw [hr, eq_of_frame hframe (eq_of_forall₂ hchildren)]
    have hlist : rebuildList w t.children = pure t.children := by
      obtain ⟨rs, hrs, hequal⟩ := holds_rebuildList Carries.value hinside
      rw [hrs, eq_of_forall₂ hequal]
    cases t with
    | nullable t =>
      obtain ⟨_, hr, rfl⟩ := hinside t (by simp [children])
      rw [rebuild, hr]
      simp [canonicalClass_regular.nullableOf_eq_nullable ht]
    | union ts =>
      rw [rebuild, show rebuildList w ts = pure ts from hlist]
      simp [unionOf_eq_union ht.here.1]
    | intersection ts =>
      rw [rebuild, show rebuildList w ts = pure ts from hlist]
      simp [intersectionOf_eq ht.here.1]
    | template name bound => exact rebuild_template hw name bound
    | _ => exact hsolid rfl

end

/-! ### What a decision asks for -/

/-- A conditional on a subject of the type `subject` may come to its first branch (`true`) or to its
second (`false`). -/
def MayTake (subject target : TypeExpr) (negated branch : Bool) : Prop :=
  isContainedBy subject target = .ok true ∧ branch = !negated ∨
    isContainedBy subject target = .ok false ∧
      (canOverlap subject target = .ok true ∨ branch = negated)

/-- Deciding the conditionals of a type for a call asks for the type of this subject. The target of
a conditional is decided first, and a branch only if it is taken. -/
inductive Asks (call : CallSite) : TypeExpr → String → Prop where
  | here {subject : Label} {target a b : TypeExpr} {negated : Flag} :
    Asks call (.conditional subject target a b negated) subject.text
  | target {subject : Label} {target a b : TypeExpr} {negated : Flag} {name : String} :
    Asks call target name → Asks call (.conditional subject target a b negated) name
  | branch {subject : Label} {target a b : TypeExpr} {negated : Flag} {name : String}
    {known decided : TypeExpr} (taken : Bool) :
    call.subjectType? subject.text = some known → resolveConditional target call = .ok decided →
      MayTake known decided negated.isSet taken → Asks call (if taken then a else b) name →
      Asks call (.conditional subject target a b negated) name
  | inside {t u : TypeExpr} {name : String} : t.isConditional = false → u ∈ t.children →
    Asks call u name → Asks call t name

theorem not_asks {call : CallSite} {t : TypeExpr} {name : String} (ht : t.conditionals = []) :
    ¬ Asks call t name := by
  intro h
  induction h with
  | here | target | branch => cases (conditionals_eq_nil_iff.mp ht).1
  | inside _ hu _ ih => exact ih ((conditionals_eq_nil_iff.mp ht).2 _ hu)

end TypeExpr

/-- The type of the subject is known. -/
def CallSite.Knows (call : CallSite) (subject : String) : Prop :=
  ∃ t, call.subjectType? subject = some t ∧ t.isUnknown = false

namespace TypeExpr

section
variable {call : CallSite}

theorem regularForm_of_rebuild {h : Hierarchy} {t : TypeExpr} (ht : RegularForm t)
    (hr : rebuild (deciding call h) t = .ok r) : RegularForm r := by
  have hholds : (Carries.orError fun _ => True).holds RegularForm (rebuild (deciding call h) t) :=
    holds_deciding canonicalClass_regular (fun hu heq _ => isRegularNode_of_frame heq hu)
      (fun _ => trivial) (fun _ _ _ _ _ _ _ => trivial) (fun _ _ _ _ _ _ _ => trivial) ht
  rw [hr] at hholds
  exact hholds

theorem decideConditional_eq {h : Hierarchy} {known target : TypeExpr} {contained overlaps : Bool}
    (hget : call.subjectType? subject.text = some known) (hknown : known.isUnknown = false)
    (hcontained : isContainedBy known target h = .ok contained)
    (hoverlaps : canOverlap known target h = .ok overlaps) :
    decideConditional call h subject (.ok target) a b negated =
      if contained then (if negated.isSet then b else a)
      else if overlaps then (do return unionOf [← a, ← b])
      else if negated.isSet then a else b := by
  unfold decideConditional
  rw [hget]
  split
  · next hnone => cases hnone
  · next hsome =>
    cases hsome
    cases hknown
  · next hsome =>
    cases hsome
    show (do if ← decided (isContainedBy known target h) then _ else _) = _
    rw [hcontained]
    show (if contained then _ else (do if ← decided (canOverlap known target h) then _ else _)) = _
    rw [hoverlaps]
    rfl

theorem exists_decideConditional {known target : TypeExpr}
    (hget : call.subjectType? subject.text = some known) (hknown : known.isUnknown = false)
    (hproper : Proper known) (htarget : Proper target)
    (hbranch : ∀ taken, MayTake known target negated.isSet taken →
      ∃ x, (if taken then a else b) = .ok x) :
    ∃ x, decideConditional call .unknown subject (.ok target) a b negated = .ok x := by
  obtain ⟨contained, hcontained⟩ := exists_isContainedBy known target hproper htarget
  obtain ⟨overlaps, hoverlaps⟩ := exists_canOverlap known target hproper htarget
  rw [decideConditional_eq hget hknown hcontained hoverlaps]
  cases contained with
  | true =>
    have htaken := hbranch (!negated.isSet) (.inl ⟨hcontained, rfl⟩)
    cases hneg : negated.isSet <;> simpa [hneg] using htaken
  | false =>
    cases overlaps with
    | true =>
      obtain ⟨x, hx⟩ := hbranch true (.inr ⟨hcontained, .inl hoverlaps⟩)
      obtain ⟨y, hy⟩ := hbranch false (.inr ⟨hcontained, .inl hoverlaps⟩)
      cases hx
      cases hy
      exact ⟨unionOf [x, y], rfl⟩
    | false =>
      have htaken := hbranch negated.isSet (.inr ⟨hcontained, .inr rfl⟩)
      cases hneg : negated.isSet <;> simpa [hneg] using htaken

/-- **Conditionals are decided** if every subject is known that is asked for. -/
theorem exists_rebuild {t : TypeExpr} (ht : RegularForm t) (hcall : call.OfTypes RegularForm)
    (h : ∀ name, Asks call t name → call.Knows name) :
    ∃ r, rebuild (deciding call .unknown) t = .ok r := by
  induction t using partsInduction with
  | step t ih =>
    cases hshape : t.isConditional with
    | true =>
      cases t with
      | conditional subject target a b negated =>
        obtain ⟨known, hget, hknown⟩ := h _ .here
        have hform : RegularForm target := ht.inside (by simp [parts, children])
        obtain ⟨r, hr⟩ := ih target (by simp [parts, children]) hform fun name hname =>
          h name (.target hname)
        have hdecided : resolveConditional target call = .ok r := by rw [resolveConditional, hr]
        have hproper : ∀ u, RegularForm u → Proper u := fun u hu => hu.proper fun _ h => h
        show ∃ x, decideConditional call .unknown subject (rebuild _ target) (rebuild _ a)
          (rebuild _ b) negated = .ok x
        rw [hr]
        refine exists_decideConditional hget hknown (hproper _ (hcall.subjectType hget))
          (hproper _ (regularForm_of_rebuild hform hr)) fun taken htaken => ?_
        -- Only the branches that may be taken have to be decided.
        have hasks := fun name hname => h name (.branch taken hget hdecided htaken hname)
        cases taken with
        | true =>
          exact ih a (by simp [parts, children]) (ht.inside (by simp [parts, children])) hasks
        | false =>
          exact ih b (by simp [parts, children]) (ht.inside (by simp [parts, children])) hasks
      | _ => cases hshape
    | false =>
      have hholds := holds_rebuild_of_children (Carries.orError fun _ => False)
        (w := deciding call .unknown) (P := fun _ => True) rfl ⟨by simp, by simp, by simp⟩ hshape
        fun u hu => ?_
      · cases hr : rebuild (deciding call .unknown) t with
        | ok r => exact ⟨r, rfl⟩
        | error e =>
          rw [hr] at hholds
          exact hholds.elim
      · obtain ⟨r, hr⟩ := ih u (mem_parts_of_mem_children hu)
          (ht.inside (mem_parts_of_mem_children hu)) fun name hname =>
            h name (.inside hshape hu hname)
        rw [hr]
        trivial

end

/-! ### Conditionals on top -/

/-- Conditionals stand only on top of the type: as members of unions, under a nullable type or in
the branches of such conditionals. -/
inductive OnTop : TypeExpr → Prop where
  | plain {t : TypeExpr} : t.conditionals = [] → OnTop t
  | nullable {t : TypeExpr} : OnTop t → OnTop (.nullable t)
  | union {ts : List TypeExpr} : (∀ t ∈ ts, OnTop t) → OnTop (.union ts)
  | conditional {subject : Label} {target a b : TypeExpr} {negated : Flag} : OnTop a → OnTop b →
    OnTop (.conditional subject target a b negated)

section
variable {call : CallSite} {h : Hierarchy}

theorem regularForm_conditionalBranches {t : TypeExpr} (ht : RegularForm t) :
    RegularForm t.conditionalBranches :=
  formed_conditionalBranches canonicalClass_regular
    (fun hu heq _ => isRegularNode_of_frame heq hu) ht

theorem exists_of_mem_rebuildList {ts rs : List TypeExpr}
    (hrs : rebuildList (deciding call h) ts = .ok rs) :
    ∀ r ∈ rs, ∃ t ∈ ts, rebuild (deciding call h) t = .ok r := by
  have hholds := @holds_rebuildList _ _ (.orError fun _ => True) (deciding call h)
    (fun t r => rebuild (deciding call h) t = .ok r) ts fun t _ => by
      cases rebuild (deciding call h) t <;> trivial
  rw [hrs] at hholds
  exact exists_of_forall₂ hholds

theorem regularForm_null : RegularForm null := regularForm_leaf rfl trivial rfl

/-- **What is decided lies within both branches**, whatever is known about classes. By induction on
where the conditionals stand: a conditional is decided to be one of its branches or both, and
unions are monotone. -/
theorem membersIn_conditionalBranches {t : TypeExpr} (htop : OnTop t) (ht : RegularForm t)
    (hr : rebuild (deciding call h) t = .ok r) : MembersIn r t.conditionalBranches := by
  induction htop generalizing r with
  | @plain t hplain =>
    rw [rebuild_eq_self rfl ht hplain] at hr
    cases hr
    have hstays : t.conditionalBranches = t :=
      rebuild_eq_self (m := Id) (w := branching) rfl ht hplain
    rw [hstays]
    exact membersIn_refl t
  | @nullable t _ ih =>
    have hform : RegularForm t := ht.inside (by simp [parts, children])
    obtain ⟨x, hx, hr⟩ := ok_of_bind hr
    cases hr
    exact membersIn_pair (regularForm_of_rebuild hform hx) regularForm_null
      (regularForm_conditionalBranches hform) regularForm_null (ih hform hx) (membersIn_refl null)
  | @union ts _ ih =>
    have hform : ∀ t ∈ ts, RegularForm t := fun t ht' => ht.inside (by simpa [parts, children])
    obtain ⟨rs, hrs, hr⟩ := ok_of_bind hr
    cases hr
    have hsource := exists_of_mem_rebuildList hrs
    have hbranches : (TypeExpr.union ts).conditionalBranches =
        unionOf (ts.map conditionalBranches) := by
      show unionOf (rebuildList branching ts).run = _
      rw [rebuildList_eq_map]
      rfl
    rw [hbranches]
    refine membersIn_unionOf (fun r hr => ?_) (fun u hu => ?_) fun r hr => ?_
    · obtain ⟨t, ht, hr⟩ := hsource r hr
      exact regularForm_of_rebuild (hform t ht) hr
    · obtain ⟨t, ht, rfl⟩ := mem_map.mp hu
      exact regularForm_conditionalBranches (hform t ht)
    · obtain ⟨t, ht, hr⟩ := hsource r hr
      exact ⟨_, mem_map_of_mem ht, ih t ht (hform t ht) hr⟩
  | @conditional subject target a b negated _ _ iha ihb =>
    have ha : RegularForm a := ht.inside (by simp [parts, children])
    have hb : RegularForm b := ht.inside (by simp [parts, children])
    have ha' := regularForm_conditionalBranches ha
    have hb' := regularForm_conditionalBranches hb
    have hboth : ∀ u ∈ [a.conditionalBranches, b.conditionalBranches], RegularForm u := by
      simpa using ⟨ha', hb'⟩
    show MembersIn r (unionOf [a.conditionalBranches, b.conditionalBranches])
    rcases of_decideConditional hr with hr | hr | ⟨x, y, hx, hy, rfl⟩
    · exact (iha ha hr).unionOf_right (regularForm_of_rebuild ha hr) hboth (by simp)
    · exact (ihb hb hr).unionOf_right (regularForm_of_rebuild hb hr) hboth (by simp)
    · exact membersIn_pair (regularForm_of_rebuild ha hx) (regularForm_of_rebuild hb hy) ha' hb'
        (iha ha hx) (ihb hb hy)

/-- **Deciding conditionals for a call keeps within the declared branches.** No conditional is left
in a type with its conditionals decided or replaced by both branches. If conditionals stand only on
top and every subject is known that is asked for, every member of the one but the empty type is a
member of the other. -/
theorem resolveConditional_within_branches {t : TypeExpr} {call : CallSite}
    (ht : IsCanonical t ∧ Regular t) (hcall : call.OfTypes fun u => IsCanonical u ∧ Regular u) :
    t.conditionalBranches.conditionals = [] ∧
    ∃ r, resolveConditional t call = .ok r ∧ r.conditionals = [] ∧
      (OnTop t → (∀ name, Asks call t name → call.Knows name) →
        ∀ m ∈ r.membersOf, m.isNever = false →
          ∃ u ∈ t.conditionalBranches.membersOf, u = m ∨ u.same m = true) := by
  have hform : RegularForm t := ht.1.formed ht.2
  have hcall' : call.OfTypes RegularForm := hcall.mono fun u hu => hu.1.formed hu.2
  obtain ⟨r, hr⟩ := exists_resolveConditional ht hcall
  refine ⟨conditionals_conditionalBranches t, r, hr, conditionals_resolveConditional hr,
    fun htop hasks => ?_⟩
  obtain ⟨x, hx⟩ := exists_rebuild hform hcall' hasks
  rw [resolveConditional, hx] at hr
  cases hr
  exact membersIn_conditionalBranches htop hform hx

/-- A conditional within a branch of another, next to another member. -/
def textOrKey : TypeExpr :=
  .union [.conditional "$x" (.keyword "string") .null
    (.conditional "$y" (.keyword "int") (.keyword "bool") (.template "T" none) true) false,
    .keyword "false"]

/-- A call with the argument `x`, which is a text. -/
def textCall : CallSite where
  arguments := Table.empty.insert "x" (.keyword "string")

/-- Nothing is known about `y`, which is not asked for. -/
theorem resolveConditional_within_branches_text :
    resolveConditional textOrKey textCall = .ok (.nullable (.keyword "false")) ∧
      ∀ m ∈ membersOf (.nullable (.keyword "false")),
        ∃ u ∈ textOrKey.conditionalBranches.membersOf, u = m ∨ u.same m = true := by
  have hresolved : resolveConditional textOrKey textCall = .ok (.nullable (.keyword "false")) := by
    with_unfolding_all rfl
  have hstring : textCall.subjectType? "$x" = some (.keyword "string") := by
    with_unfolding_all rfl
  have htarget : resolveConditional (.keyword "string") textCall = .ok (.keyword "string") := rfl
  have hcontained : isContainedBy (.keyword "string") (.keyword "string") = .ok true := by
    with_unfolding_all rfl
  have harguments : textCall.arguments.Holds fun _ u => IsCanonical u ∧ Proper u := by
    decide +kernel
  have hcall : textCall.OfTypes fun u => IsCanonical u ∧ Regular u :=
    ⟨fun name u h => (harguments name u h).imp_right (·.regular), by simp [textCall, Table.empty,
      Table.get?], by simp [textCall]⟩
  have ht : IsCanonical textOrKey ∧ Regular textOrKey :=
    ⟨by decide +kernel, (by decide +kernel : Proper textOrKey).regular⟩
  have htop : OnTop textOrKey := by
    refine .union fun t ht => ?_
    rcases (by simpa using ht : _ ∨ _) with rfl | rfl
    · exact .conditional (.plain rfl) (.conditional (.plain rfl) (.plain rfl))
    · exact .plain rfl
  have hasks : ∀ name, Asks textCall textOrKey name → textCall.Knows name := by
    intro name h
    cases h with
    | inside _ hu h =>
      rcases (by simpa [textOrKey, children] using hu : _ ∨ _) with rfl | rfl
      · cases h with
        | here => exact ⟨_, hstring, rfl⟩
        | target h => exact absurd h (not_asks rfl)
        | branch taken hget hdecided htaken h =>
          obtain rfl := Option.some.inj (hstring.symm.trans hget)
          obtain rfl := Except.ok.inj (htarget.symm.trans hdecided)
          rcases htaken with ⟨-, rfl⟩ | ⟨hnot, -⟩
          · exact absurd h (not_asks rfl)
          · cases hcontained.symm.trans hnot
        | inside hnot => cases hnot
      · exact absurd h (not_asks rfl)
  obtain ⟨-, r, hr, -, hwithin⟩ := resolveConditional_within_branches ht hcall
  rw [hresolved] at hr
  cases hr
  refine ⟨hresolved, fun m hm => hwithin htop hasks m hm ?_⟩
  rcases (by simpa [membersOf] using hm : _ ∨ _) with rfl | rfl <;> rfl

end

end TypeExpr

end StubCatalog
