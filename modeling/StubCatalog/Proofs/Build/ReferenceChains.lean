import StubCatalog.Proofs.Build.Inventory
import StubCatalog.Proofs.Build.Settling

/-! # Chains of references between global constants

The value of a global constant may be the bare name of another one, and so on. What such a chain
comes to is said from the declarations alone (`Folds`, `Circles`); a build settles the constants in
an order of its own, and comes to the same. -/

namespace StubCatalog

open List Relation

variable {name : String} {known : Evaluation} {value : Option Scalar} {declared : Option TypeExpr}

/-! ### What the declarations say -/

namespace Stub.Constant

/-- The declared type of a global constant, if it has one. -/
def declared? (constant : Constant) : Option (Option TypeExpr) :=
  (constant.declaredType constant.site { context := some constant.context }).result?

/-- The reference that the value of a global constant is. -/
def target? (settings : Settings) (constant : Constant) : Option Build.OpenReference :=
  (constant.reading? settings).bind Prod.snd

end Stub.Constant

namespace Build

/-- The first declared constant among those that a bare name can mean. -/
def meant? (constants : List Stub.Constant) (context : NamingContext) (name : String) :
    Option Stub.Constant :=
  ((context.resolveConstant name).map Name.constantKey).findSome? fun key =>
    constants.find? (·.key == key)

/-- The value of the first constant is the bare name of the second. -/
def RefersTo (settings : Settings) (constants : List Stub.Constant) (c d : Stub.Constant) : Prop :=
  ∃ name, c.evaluation? settings = some (.constant name) ∧ meant? constants c.context name = some d

/-- The value, if it is known, and the type that the chain of a constant comes to: the literal at
its end, and the first declared type on it or else that of its end. There is no value where the
chain ends in a name that is not declared or in another expression. -/
inductive Folds (settings : Settings) (constants : List Stub.Constant) :
    Stub.Constant → Option Scalar → TypeExpr → Prop
  | literal {c : Stub.Constant} {value : Scalar} {declared : Option TypeExpr}
      (hvalue : c.evaluation? settings = some (.literal value)) (htype : c.declared? = some declared) :
      Folds settings constants c (some value) (declared.getD value.type)
  | unknowable {c : Stub.Constant} {value : Evaluation} {declared : Option TypeExpr}
      (hvalue : c.evaluation? settings = some value)
      (hunknown : value = .unknown ∨ value = .expression) (htype : c.declared? = some declared) :
      Folds settings constants c none (declared.getD unknownValueType)
  | undeclared {c : Stub.Constant} {name : String} {declared : Option TypeExpr}
      (hvalue : c.evaluation? settings = some (.constant name))
      (hnone : meant? constants c.context name = none) (htype : c.declared? = some declared) :
      Folds settings constants c none (declared.getD unknownValueType)
  | step {c d : Stub.Constant} {value : Option Scalar} {type : TypeExpr}
      {declared : Option TypeExpr} (hrefers : RefersTo settings constants c d)
      (htype : c.declared? = some declared) (hfolds : Folds settings constants d value type) :
      Folds settings constants c value (declared.getD type)

/-- The chain of the constant leads in a circle. -/
def Circles (settings : Settings) (constants : List Stub.Constant) (c : Stub.Constant) : Prop :=
  ∃ d, ReflTransGen (RefersTo settings constants) c d ∧ TransGen (RefersTo settings constants) d d

section
variable {settings : Settings} {constants : List Stub.Constant} {c d : Stub.Constant}

theorem RefersTo.find? (h : RefersTo settings constants c d) :
    constants.find? (·.key == d.key) = some d := by
  obtain ⟨name, -, hmeant⟩ := h
  obtain ⟨key, -, hfind⟩ := exists_of_findSome?_eq_some hmeant
  obtain rfl : d.key = key := by simpa using find?_some hfind
  exact hfind

theorem Circles.next (h : Circles settings constants c) :
    ∃ d, RefersTo settings constants c d ∧ Circles settings constants d := by
  obtain ⟨e, hpath, hcircle⟩ := h
  rcases hpath.cases_head with rfl | ⟨d, hrefers, hrest⟩
  · obtain ⟨d, hrefers, hrest⟩ := TransGen.head'_iff.mp hcircle
    exact ⟨d, hrefers, c, hrest, hcircle⟩
  · exact ⟨d, hrefers, e, hrest, hcircle⟩

/-- **A chain of bare names** ends or leads in a circle, as there are finitely many constants. -/
theorem folds_or_circles (hread : ∀ d, ReflTransGen (RefersTo settings constants) c d →
      ∃ declared value, d.declared? = some declared ∧ d.evaluation? settings = some value ∧
        ∀ owner member, value ≠ .classConstant owner member) :
    (∃ value type, Folds settings constants c value type) ∨ Circles settings constants c := by
  by_cases hcircles : Circles settings constants c
  · exact .inr hcircles
  refine .inl ?_
  let follows (a b : Stub.Constant) :=
    RefersTo settings constants a b ∧ ReflTransGen (RefersTo settings constants) c a
  obtain ⟨height, hdown, -⟩ := Graph.exists_height_of_acyclic (r := follows)
    (fun a b hab => mem_of_find?_eq_some hab.1.find?) fun a hcircle => by
      obtain ⟨b, hab, -⟩ := TransGen.head'_iff.mp hcircle
      exact hcircles ⟨a, hab.2, TransGen.mono (fun _ _ h => h.1) _ _ hcircle⟩
  -- The height falls along the chain.
  have hfolds : ∀ n d, height d < n → ReflTransGen (RefersTo settings constants) c d →
      ∃ value type, Folds settings constants d value type := by
    intro n
    induction n with
    | zero => exact fun _ hlt => absurd hlt (Nat.not_lt_zero _)
    | succ n ih =>
      intro d hlt hpath
      obtain ⟨declared, value, htype, hvalue, hbare⟩ := hread d hpath
      cases value with
      | literal value => exact ⟨_, _, .literal hvalue htype⟩
      | unknown => exact ⟨_, _, .unknowable hvalue (.inl rfl) htype⟩
      | expression => exact ⟨_, _, .unknowable hvalue (.inr rfl) htype⟩
      | classConstant owner member => exact absurd rfl (hbare owner member)
      | constant name =>
        cases hmeant : meant? constants d.context name with
        | none => exact ⟨_, _, .undeclared hvalue hmeant htype⟩
        | some e =>
          have hrefers : RefersTo settings constants d e := ⟨name, hvalue, hmeant⟩
          obtain ⟨value, type, hfolds⟩ := ih e
            (Nat.lt_of_lt_of_le (hdown d e ⟨hrefers, hpath⟩) (Nat.le_of_lt_succ hlt))
            (hpath.tail hrefers)
          exact ⟨_, _, .step hrefers htype hfolds⟩
  exact hfolds _ c (Nat.lt_succ_self _) .refl

/-! ### What is collected -/

/-- The constants of the draft are the first declarations of their keys, and their references are
noted. -/
structure Draft.Collects (settings : Settings) (constants : List Stub.Constant) (draft : Draft) :
    Prop where
  entries : KeepsFirst Stub.Constant.key (fun entry c => c.entry? settings = some entry) constants
    draft.constants
  notes : ∀ key target, ⟨.global key, target⟩ ∈ draft.pending ↔
    (constants.find? (·.key == key)).bind (·.target? settings) = some target

variable {draft : Draft}

theorem mem_note {site site' : ConstantSite} {target : OpenReference}
    {noted : Option OpenReference} :
    (⟨site, target⟩ : Pending) ∈ (noted.map (⟨site', ·⟩)).toList ↔
      site = site' ∧ noted = some target := by
  cases noted with
  | none => simp
  | some t => simp [eq_comm]

theorem collects_addConstant (h : draft.Collects settings constants) :
    (draft.addConstant settings c).Meets (fun _ => True)
      (Draft.Collects settings (constants ++ [c])) := by
  refine addConstant_meets (fun hused => ⟨h.entries.refuse hused, fun key target => ?_⟩)
    fun hnew entry noted hread =>
      ⟨h.entries.accept hnew (congrArg (Option.map Prod.fst) hread), fun key target => ?_⟩
  · rw [h.entries.find?_taken hused]
    exact h.notes key target
  · have htarget : c.target? settings = noted := congrArg (Option.bind · Prod.snd) hread
    rw [h.entries.find?_new hnew, mem_append, h.notes key target, mem_note,
      ConstantSite.global.injEq]
    by_cases hkey : key = c.key
    · have hget : draft.constants.get? c.key = none := Option.not_isSome_iff_eq_none.mp hnew
      have hnone : constants.find? (·.key == key) = none :=
        hkey ▸ eq_none_of_rel (hget ▸ h.entries.first c.key)
      rw [hnone, if_pos hkey, Option.bind_none, Option.bind_some, htarget]
      simp [hkey]
    · simp [hkey]

theorem collects_addClass {source : Stub.ClassLike} (h : draft.Collects settings constants) :
    (draft.addClass settings source).Meets (fun _ => True) (Draft.Collects settings constants) := by
  refine addClass_meets (fun _ => h) fun _ found hread => ⟨h.entries, fun key target => ?_⟩
  have hmember : ⟨.global key, target⟩ ∉ found.pending := by
    intro hp
    obtain ⟨member, -, hsite, -⟩ := (isOpen_readClass.of_result? hread).pending _ hp
    cases hsite
  rw [mem_append, or_iff_left hmember]
  exact h.notes key target

theorem collects_addFiles (files : List Stub.File) : (collect settings files).Meets (fun _ => True)
      (Draft.Collects settings (constantsOf settings files)) :=
  addFiles_along (P := fun cs _ _ => Draft.Collects settings cs)
    (fun _ _ _ _ _ h => collects_addConstant h)
    (fun _ _ _ _ _ h => .bind (.any _) fun _ _ => .pure ⟨h.entries, h.notes⟩)
    (fun _ _ _ _ _ h => collects_addClass h) ⟨keepsFirst_nil, by simp⟩ files

/-! ### Where the references lead -/

theorem KeepsFirst.find?_contains {ι α : Type} {key : ι → String} {isFor : α → ι → Prop}
    {xs : List ι} {t : Table α} (h : KeepsFirst key isFor xs t) (names : List String) :
    names.find? t.contains = (names.findSome? fun name => xs.find? (key · == name)).map key := by
  induction names with
  | nil => rfl
  | cons name names ih =>
    have hname : t.contains name = (xs.find? (key · == name)).isSome :=
      isSome_eq_of_rel (h.first name)
    rw [find?_cons, findSome?_cons, ih, hname]
    cases hfind : xs.find? (key · == name) with
    | none => rfl
    | some x =>
      have hkey : key x = name := by simpa using find?_some hfind
      simp [hkey]

/-- The constant is read as the entry. -/
abbrev ReadsAs (settings : Settings) (c : Stub.Constant) (declared : Option TypeExpr)
    (known : Evaluation) (entry : ConstantEntry) : Prop :=
  IsReading .constant none (c.context.qualify c.name) c.context declared known entry
    (c.target? settings)

section
variable (h : draft.Collects settings constants)
  (hfirst : constants.find? (·.key == c.key) = some c)
include h

theorem target?_linked {target : OpenReference} (hname : target.reference = .constant name) :
    (draft.linked settings).target? target =
      (meant? constants target.context name).map fun d => .global d.key := by
  unfold Constants.target? meant?
  rw [hname]
  show Option.map _ (List.find? draft.constants.contains _) = _
  rw [h.entries.find?_contains, Option.map_map]
  rfl

include hfirst

theorem exists_reading :
    ∃ entry declared known, draft.constants.get? c.key = some entry ∧ c.declared? = some declared ∧
      c.evaluation? settings = some known ∧ ReadsAs settings c declared known entry := by
  obtain ⟨entry, hget, hentry⟩ := exists_of_rel (hfirst ▸ h.entries.first c.key)
  obtain ⟨⟨_, target⟩, hread, rfl⟩ := Option.map_eq_some_iff.mp hentry
  obtain ⟨declared, known, hdeclared, hknown, hreading⟩ := isReading_readConstant.of_result? hread
  have htarget : c.target? settings = target := congrArg (Option.bind · Prod.snd) hread
  exact ⟨_, declared, known, hget, hdeclared, hknown, htarget ▸ hreading⟩

theorem exists_entry (hvalue : c.evaluation? settings = some known)
    (htype : c.declared? = some declared) :
    ∃ entry, draft.constants.get? c.key = some entry ∧
      ReadsAs settings c declared known entry := by
  obtain ⟨entry, declared', known', hget, htype', hvalue', hread⟩ := exists_reading h hfirst
  obtain rfl := Option.some.inj (htype.symm.trans htype')
  obtain rfl := Option.some.inj (hvalue.symm.trans hvalue')
  exact ⟨entry, hget, hread⟩

theorem exists_noted (hvalue : c.evaluation? settings = some (.constant name))
    (htype : c.declared? = some declared) :
    ∃ target, ⟨.global c.key, target⟩ ∈ draft.pending ∧
      target.hasDeclaredType = declared.isSome ∧
      (draft.linked settings).target? target =
        (meant? constants c.context name).map fun d => .global d.key := by
  obtain ⟨entry, -, hread⟩ := exists_entry h hfirst hvalue htype
  let target : OpenReference :=
    { reference := .constant name, context := c.context, owner := none,
      hasDeclaredType := declared.isSome }
  refine ⟨target, (h.notes _ _).mpr ?_, rfl, target?_linked h rfl⟩
  rw [hfirst]
  exact hread.reference

theorem refers_of_refersTo (hrefers : RefersTo settings constants c d) :
    Constants.Refers (draft.linked settings) draft.pending (.global c.key) (.global d.key) := by
  obtain ⟨name, hvalue, hmeant⟩ := hrefers
  obtain ⟨-, declared, -, -, htype, -⟩ := exists_reading h hfirst
  obtain ⟨target, hnoted, -, htarget⟩ := exists_noted h hfirst hvalue htype
  exact ⟨_, hnoted, rfl, htarget.trans (congrArg (Option.map _) hmeant)⟩

theorem exists_next (hvalue : c.evaluation? settings = some known)
    (hbare : ∀ owner member, known ≠ .classConstant owner member)
    (hcircle : TransGen (Constants.Refers (draft.linked settings) draft.pending) (.global c.key)
      (.global c.key)) :
    ∃ d, RefersTo settings constants c d ∧
      TransGen (Constants.Refers (draft.linked settings) draft.pending) (.global d.key)
        (.global d.key) := by
  obtain ⟨site, hrefers, hback⟩ := TransGen.head'_iff.mp hcircle
  obtain ⟨⟨_, target⟩, hnoted, rfl, htarget⟩ := id hrefers
  obtain ⟨-, declared, -, -, htype, -⟩ := exists_reading h hfirst
  obtain ⟨entry, -, hread⟩ := exists_entry h hfirst hvalue htype
  have hreference := (h.notes _ _).mp hnoted
  rw [hfirst, Option.bind_some, hread.reference] at hreference
  obtain ⟨reference, hevaluation, rfl⟩ := Option.map_eq_some_iff.mp hreference
  cases known with
  | constant name =>
    obtain rfl := Option.some.inj hevaluation
    rw [target?_linked h rfl] at htarget
    obtain ⟨d, hmeant, rfl⟩ := Option.map_eq_some_iff.mp htarget
    exact ⟨d, ⟨name, hvalue, hmeant⟩, TransGen.tail' hback hrefers⟩
  | classConstant owner member => exact absurd rfl (hbare owner member)
  | _ => cases hevaluation

theorem not_refers_self {type : TypeExpr} (hfolds : Folds settings constants c value type) :
    ¬ TransGen (Constants.Refers (draft.linked settings) draft.pending) (.global c.key)
      (.global c.key) := by
  intro hcircle
  induction hfolds with
  | literal hvalue =>
    obtain ⟨d, ⟨name, hname, -⟩, -⟩ := exists_next h hfirst hvalue (by simp) hcircle
    cases hvalue.symm.trans hname
  | unknowable hvalue hunknown =>
    obtain ⟨d, ⟨name, hname, -⟩, -⟩ := exists_next h hfirst hvalue
      (by rcases hunknown with rfl | rfl <;> simp) hcircle
    rcases hunknown with rfl | rfl <;> cases hvalue.symm.trans hname
  | undeclared hvalue hnone =>
    obtain ⟨d, ⟨name, hname, hmeant⟩, -⟩ := exists_next h hfirst hvalue (by simp) hcircle
    cases hvalue.symm.trans hname
    cases hnone.symm.trans hmeant
  | step hstep _ _ ih =>
    have hnext := hstep.find?
    obtain ⟨name, hvalue, hmeant⟩ := hstep
    obtain ⟨d, ⟨name', hname, hmeant'⟩, hcircle'⟩ := exists_next h hfirst hvalue (by simp) hcircle
    cases hvalue.symm.trans hname
    cases hmeant.symm.trans hmeant'
    exact ih hnext hcircle'

end

/-! ### Settled constants -/

theorem takeOver_reading {entry found : ConstantEntry}
    (hread : ReadsAs settings c declared (.constant name) entry)
    (hkind : found.declaration.kind = .constant) (hvalue : found.value = value.getD .null)
    (hknown : found.isValueKnown = value.isSome) :
    (Constants.takeOver declared.isSome found entry).declaration.kind = .constant ∧
      (Constants.takeOver declared.isSome found entry).value = value.getD .null ∧
      (Constants.takeOver declared.isSome found entry).isValueKnown = value.isSome ∧
      (Constants.takeOver declared.isSome found entry).type = declared.getD found.type := by
  obtain ⟨hentryKind, -, htype, hentryValue, hentryKnown, -⟩ := hread
  cases value with
  | none => cases declared <;> simp_all [Constants.takeOver, knownValue, Evaluation.isKnown]
  | some value => cases declared <;> simp_all [Constants.takeOver]

section
variable (h : draft.Collects settings constants) {final : Constants}
  (hfinal : Constants.Progress (draft.linked settings) draft.pending (fun _ => False) final)
  (hfirst : constants.find? (·.key == c.key) = some c) {declared : Option TypeExpr}
include h hfinal hfirst

theorem get?_of_no_reference (hvalue : c.evaluation? settings = some known)
    (hnone : Reference.ofEvaluation? known = none) (htype : c.declared? = some declared) :
    ∃ entry, final.get? (.global c.key) = some entry ∧
      ReadsAs settings c declared known entry := by
  obtain ⟨entry, hget, hread⟩ := exists_entry h hfirst hvalue htype
  refine ⟨entry, (hfinal.unchanged _ ?_).trans hget, hread⟩
  rintro ⟨_, target⟩ hnoted rfl
  have htarget := (h.notes _ _).mp hnoted
  rw [hfirst, Option.bind_some, hread.reference, hnone] at htarget
  cases htarget

theorem get?_of_name (hvalue : c.evaluation? settings = some (.constant name))
    (htype : c.declared? = some declared)
    (hfree : ¬ TransGen (Constants.Refers (draft.linked settings) draft.pending) (.global c.key)
      (.global c.key)) :
    ∃ entry target, ReadsAs settings c declared (.constant name) entry ∧
      target.hasDeclaredType = declared.isSome ∧
      final.get? (.global c.key) = some (Constants.takeFrom target
        ((meant? constants c.context name).bind fun d => final.get? (.global d.key)) entry) := by
  obtain ⟨entry, hget, hread⟩ := exists_entry h hfirst hvalue htype
  obtain ⟨target, hnoted, hdeclared, htarget⟩ := exists_noted h hfirst hvalue htype
  have hsettled := hfinal.settled _ hnoted hfree not_false
  have hstart : (draft.linked settings).get? (.global c.key) = some entry := hget
  rw [Constants.Settled, htarget, hstart, Option.map_some, Option.bind_map] at hsettled
  exact ⟨entry, target, hread, hdeclared, hsettled⟩

/-- **A settled constant** has the value and the type that its chain comes to. -/
theorem folded_of_folds {type : TypeExpr} (hfolds : Folds settings constants c value type) :
    ∃ entry, final.get? (.global c.key) = some entry ∧ entry.declaration.kind = .constant ∧
      entry.value = value.getD .null ∧ entry.isValueKnown = value.isSome ∧ entry.type = type := by
  have hfree := not_refers_self h hfirst hfolds
  induction hfolds with
  | literal hvalue htype =>
    obtain ⟨entry, hget, hread⟩ := get?_of_no_reference h hfinal hfirst hvalue rfl htype
    exact ⟨entry, hget, hread.kind_eq, hread.value, hread.isValueKnown, hread.type⟩
  | unknowable hvalue hunknown htype =>
    obtain ⟨entry, hget, hread⟩ := get?_of_no_reference h hfinal hfirst hvalue
      (by rcases hunknown with rfl | rfl <;> rfl) htype
    rcases hunknown with rfl | rfl <;>
      exact ⟨entry, hget, hread.kind_eq, hread.value, hread.isValueKnown, hread.type⟩
  | undeclared hvalue hnone htype =>
    obtain ⟨entry, target, hread, -, hget⟩ := get?_of_name h hfinal hfirst hvalue htype hfree
    rw [hnone] at hget
    exact ⟨entry, hget, hread.kind_eq, hread.value, hread.isValueKnown, hread.type⟩
  | step hstep htype hfolds ih =>
    have hnext := hstep.find?
    obtain ⟨name, hvalue, hmeant⟩ := hstep
    obtain ⟨found, hfound, hkind, hfoundValue, hfoundKnown, rfl⟩ :=
      ih hnext (not_refers_self h hnext hfolds)
    obtain ⟨entry, target, hread, hdeclared, hget⟩ :=
      get?_of_name h hfinal hfirst hvalue htype hfree
    rw [hmeant, Option.bind_some, hfound] at hget
    refine ⟨_, hget, ?_⟩
    rw [Constants.takeFrom, hdeclared]
    exact takeOver_reading hread hkind hfoundValue hfoundKnown

end

/-- **A constant on a chain that leads in a circle** has no value in the end. -/
theorem unknown_of_circles (h : draft.Collects settings constants)
    (hdistinct : HasDistinctSites draft.pending)
    (hfirst : constants.find? (·.key == c.key) = some c) (hcircles : Circles settings constants c) :
    ∃ entry, ((draft.linked settings).settleAll draft.pending).get? (.global c.key) = some entry ∧
      entry.value = .null ∧ entry.isValueKnown = false := by
  let Unknown (state : Constants) : Prop :=
    Constants.SameShape (draft.linked settings) state ∧
      ∀ d, constants.find? (·.key == d.key) = some d → Circles settings constants d →
        ∃ entry, state.get? (.global d.key) = some entry ∧
          entry.value = .null ∧ entry.isValueKnown = false
  have hfinal : Unknown ((draft.linked settings).settleAll draft.pending) := by
    refine Constants.settleAll_keeps (P := Unknown) ?_ (fun _ hp => hp) ⟨.refl _, ?_⟩
    · rintro before state p site hp ⟨hbefore, -⟩ htarget ⟨hshape, hunknown⟩
      refine ⟨hshape.trans (Constants.sameShape_follow state p site), fun d hd hcircles => ?_⟩
      obtain ⟨entry, hentry, hvalue, hknown⟩ := hunknown d hd hcircles
      rw [Constants.get?_follow, hentry]
      split
      · next hsite =>
        -- The reference leads on to a constant of the same circle.
        obtain ⟨e, hrefers, hcircles'⟩ := hcircles.next
        obtain ⟨q, hq, hnoted, hleads⟩ := refers_of_refersTo h hd hrefers
        obtain rfl := inj_on_of_nodup_map hdistinct hq hp (hnoted.trans hsite)
        rw [← Constants.target?_eq hbefore, hleads] at htarget
        obtain rfl := Option.some.inj htarget
        obtain ⟨found, hfound, -, hfoundKnown⟩ := hunknown e hrefers.find? hcircles'
        obtain ⟨hknown', hvalue'⟩ := Constants.value_takeOver q.target.hasDeclaredType entry
          (by simp [hfoundKnown] : ¬ (found.isValueKnown ∧ _))
        rw [hfound]
        exact ⟨_, rfl, hvalue'.trans hvalue, hknown'.trans hknown⟩
      · exact ⟨entry, rfl, hvalue, hknown⟩
    · intro d hd hcircles
      obtain ⟨e, ⟨name, hname, -⟩, -⟩ := hcircles.next
      obtain ⟨-, declared, -, -, htype, -⟩ := exists_reading h hd
      obtain ⟨entry, hget, hread⟩ := exists_entry h hd hname htype
      exact ⟨entry, hget, hread.value, hread.isValueKnown⟩
  exact hfinal.2 c hfirst hcircles

end

end Build

open Build

/-- **Constants are folded along their chains.** In a built catalog the first declaration of a
global constant, whose chain of bare names goes through no class constant, has the value and the
type that the chain comes to, or no value if it leads in a circle. One of the two is the case,
whatever the order of files and declarations. -/
theorem Catalog.build_folds {settings : Settings} {files : List Stub.File}
    {earlier : List Diagnostic} {catalog : Catalog}
    (hbuild : Catalog.build settings files earlier = .ok catalog) {c : Stub.Constant}
    (hfirst : (constantsOf settings files).find? (·.key == c.key) = some c)
    (hbare : ∀ d owner member, ReflTransGen (RefersTo settings (constantsOf settings files)) c d →
      d.evaluation? settings ≠ some (.classConstant owner member)) :
    ((∃ value type, Folds settings (constantsOf settings files) c value type) ∨
      Circles settings (constantsOf settings files) c) ∧
    ∃ entry, catalog.constants.get? c.key = some entry ∧
      (∀ value type, Folds settings (constantsOf settings files) c value type →
        entry.value = value.getD .null ∧ entry.isValueKnown = value.isSome ∧ entry.type = type) ∧
      (Circles settings (constantsOf settings files) c →
        entry.value = .null ∧ entry.isValueKnown = false) := by
  obtain ⟨hdraft, found, rfl⟩ := of_build (collects_addFiles files) hbuild
  obtain ⟨hdistinct, -⟩ := of_build distinct_addFiles hbuild
  have hends : (∃ value type, Folds settings (constantsOf settings files) c value type) ∨
      Circles settings (constantsOf settings files) c := by
    refine folds_or_circles fun d hpath => ?_
    have hd : (constantsOf settings files).find? (·.key == d.key) = some d := by
      rcases hpath.cases_tail with rfl | ⟨e, -, hrefers⟩
      · exact hfirst
      · exact hrefers.find?
    obtain ⟨-, declared, known, -, htype, hvalue, -⟩ := exists_reading hdraft hd
    refine ⟨declared, known, htype, hvalue, fun owner member heq => ?_⟩
    exact hbare d owner member hpath (heq ▸ hvalue)
  refine ⟨hends, ?_⟩
  let start := (Draft.ofFiles settings files).linked settings
  have hfinal := Constants.progress_settleAll hdistinct hdistinct.of_map (fun _ hq => hq)
    (Constants.progress_start start _)
  obtain ⟨entry, hentry⟩ : ∃ entry,
      (start.settleAll (Draft.ofFiles settings files).pending).get? (.global c.key) = some entry := by
    rcases hends with ⟨value, type, hfolds⟩ | hcircles
    · obtain ⟨entry, hentry, -⟩ := folded_of_folds hdraft hfinal hfirst hfolds
      exact ⟨entry, hentry⟩
    · obtain ⟨entry, hentry, -⟩ := unknown_of_circles hdraft hdistinct hfirst hcircles
      exact ⟨entry, hentry⟩
  refine ⟨entry, hentry, fun value type hfolds => ?_, fun hcircles => ?_⟩
  · obtain ⟨entry', hentry', -, hfolded⟩ := folded_of_folds hdraft hfinal hfirst hfolds
    obtain rfl := Option.some.inj (hentry.symm.trans hentry')
    exact hfolded
  · obtain ⟨entry', hentry', hunknown⟩ := unknown_of_circles hdraft hdistinct hfirst hcircles
    obtain rfl := Option.some.inj (hentry.symm.trans hentry')
    exact hunknown

/-! ### Two chains in two files -/

namespace Build

/-- A constant with its type hint and the text of its value. -/
def chained (hint : Option String) (name value : String) : Stub.Constant where
  name
  typeText := hint
  valueText := some value
  context := { file := "a.php" }
  location := { file := "a.php", line := 1 }

/-- Two constants that refer to constants further on, and two that refer to each other. -/
def chainFiles : List Stub.File :=
  [{ path := "a.php", constants := [chained none "A" "B", chained (some "float") "B" "C"] },
    { path := "b.php"
      constants := [chained none "C" "7", chained none "P" "Q", chained none "Q" "P"] }]

theorem folds_chained : Folds {} (constantsOf {} chainFiles) (chained none "A" "B") (some (.int 7))
    (.keyword "float") := by
  have hend : Folds {} (constantsOf {} chainFiles) (chained none "C" "7") (some (.int 7))
      (Option.getD none (Scalar.type (.int 7))) := .literal (by rfl) (by rfl)
  have hmiddle : Folds {} (constantsOf {} chainFiles) (chained (some "float") "B" "C")
      (some (.int 7)) (Option.getD (some (.keyword "float")) _) :=
    .step ⟨"C", by rfl, by rfl⟩ (by with_unfolding_all rfl) hend
  have hstart : Folds {} (constantsOf {} chainFiles) (chained none "A" "B")
      (some (.int 7)) (Option.getD none _) :=
    .step ⟨"B", by rfl, by rfl⟩ (by rfl) hmiddle
  exact hstart

theorem circles_chained : Circles {} (constantsOf {} chainFiles) (chained none "P" "Q") :=
  have hthere : RefersTo {} (constantsOf {} chainFiles) (chained none "P" "Q")
      (chained none "Q" "P") := ⟨"Q", by rfl, by rfl⟩
  have hback : RefersTo {} (constantsOf {} chainFiles) (chained none "Q" "P")
      (chained none "P" "Q") := ⟨"P", by rfl, by rfl⟩
  ⟨_, .refl, .head hthere (.single hback)⟩

theorem bare_chained {c : Stub.Constant} (hc : c ∈ constantsOf {} chainFiles) (d : Stub.Constant)
    (owner member : String) (h : ReflTransGen (RefersTo {} (constantsOf {} chainFiles)) c d) :
    d.evaluation? {} ≠ some (.classConstant owner member) := by
  have hd : d ∈ constantsOf {} chainFiles := by
    rcases h.cases_tail with rfl | ⟨e, -, hrefers⟩
    · exact hc
    · exact mem_of_find?_eq_some hrefers.find?
  have hvalues : (constantsOf {} chainFiles).map (·.evaluation? {}) =
      [some (.constant "B"), some (.constant "C"), some (.literal (.int 7)), some (.constant "Q"),
        some (.constant "P")] := by decide
  intro hvalue
  have hmem := mem_map_of_mem (f := (·.evaluation? {})) hd
  rw [hvalues, hvalue] at hmem
  simp at hmem

end Build

theorem Catalog.build_folds_chained : ∃ catalog, Catalog.build {} chainFiles = .ok catalog ∧
      (∃ entry, catalog.constants.get? "A" = some entry ∧ entry.value = .int 7 ∧
        entry.isValueKnown = true ∧ entry.type = .keyword "float") ∧
      ∃ entry, catalog.constants.get? "P" = some entry ∧ entry.value = .null ∧
        entry.isValueKnown = false := by
  obtain ⟨catalog, hbuild, -⟩ : ∃ catalog, Catalog.build {} chainFiles = .ok catalog ∧ True :=
    exists_catalog (by decide +kernel)
  obtain ⟨-, entry, hentry, hfolded, -⟩ := Catalog.build_folds hbuild (c := chained none "A" "B")
    (by rfl) (bare_chained (by simp [constantsOf, takenUp, chainFiles, isSkipped]))
  obtain ⟨-, entry', hentry', -, hcircles⟩ := Catalog.build_folds hbuild (c := chained none "P" "Q")
    (by rfl) (bare_chained (by simp [constantsOf, takenUp, chainFiles, isSkipped]))
  exact ⟨_, hbuild, ⟨entry, hentry, hfolded _ _ folds_chained⟩, entry', hentry',
    hcircles circles_chained⟩

end StubCatalog
