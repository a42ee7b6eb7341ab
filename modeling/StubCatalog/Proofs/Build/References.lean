import StubCatalog.Proofs.Build.Composition
import StubCatalog.Proofs.Build.Steps

/-! # References between constants

A constant whose value is another constant is noted with its site while files are collected
(`Draft.IsOpen`). What following the references may change about it is said once (`Kept`). -/

namespace StubCatalog

open List

variable {target : ConstantEntry} {scope : Scope} {constant : Stub.Constant}
  {source : Stub.ClassLike} {p : Pending}

namespace Build

variable {settings : Settings}

/-! ### What is left open -/

/-- The constant is as it is read when its value is a reference. -/
structure OpenReference.Leaves (target : OpenReference) (entry : ConstantEntry) : Prop where
  value : entry.isValueKnown = false
  type : target.hasDeclaredType ∨ entry.type = unknownValueType

theorem IsReading.leaves {kind : DeclarationKind} {owner : Option String} {symbol : String}
    {context : NamingContext} {declared : Option TypeExpr} {known : Evaluation}
    {entry : ConstantEntry} {target : Option OpenReference}
    (h : IsReading kind owner symbol context declared known entry target) :
    ∀ reference ∈ target, reference.Leaves entry := by
  intro target htarget
  obtain ⟨reference, hreference, rfl⟩ := Option.map_eq_some_iff.mp (h.reference ▸ htarget)
  have hopen : known.isKnown = false ∧ inferredType known = unknownValueType := by
    cases known with
    | literal scalar => cases hreference
    | _ => exact ⟨rfl, rfl⟩
  refine ⟨h.isValueKnown.trans hopen.1, ?_⟩
  cases declared with
  | some t => exact .inl rfl
  | none => exact .inr (h.type.trans hopen.2)

theorem leaves_readConstant {kind : DeclarationKind} {owner : Option String} {symbol : String} :
    (readConstant settings kind owner scope symbol constant).Meets (fun _ => True) fun result =>
      ∀ target ∈ result.2, target.Leaves result.1 :=
  isReading_readConstant.mono fun _ ⟨_, _, _, _, hread⟩ => hread.leaves

/-- The sites of constants among what has been collected. -/
def Draft.sites (draft : Draft) : Constants := ⟨draft.classes, draft.constants⟩

/-- Every noted site is that of a constant whose value is left open. -/
def Draft.IsOpen (draft : Draft) : Prop :=
  ∀ p ∈ draft.pending, ∃ entry, draft.sites.get? p.site = some entry ∧ p.target.Leaves entry

/-- No site is noted twice. -/
def HasDistinctSites (pending : List Pending) : Prop := (pending.map (·.site)).Nodup

theorem HasDistinctSites.append_note {pending : List Pending} (h : HasDistinctSites pending)
    {site : ConstantSite} (hnew : ∀ p ∈ pending, p.site ≠ site) (target : Option OpenReference) :
    HasDistinctSites (pending ++ (target.map (⟨site, ·⟩)).toList) := by
  cases target with
  | none => simpa using h
  | some target =>
    unfold HasDistinctSites
    rw [map_append]
    refine nodup_append.mpr ⟨h, by simp, ?_⟩
    rintro a ha b hb rfl
    obtain ⟨p, hp, rfl⟩ := mem_map.mp ha
    exact hnew p hp (by simpa using hb)

/-- Every noted site is that of a constant of the class whose value is left open, and is noted
once. -/
structure ClassDraft.IsOpen (name : String) (draft : ClassDraft) : Prop where
  name_eq : draft.entry.name = name
  pending : ∀ p ∈ draft.pending, ∃ member entry, p.site = .member (Name.symbolKey name) member ∧
    draft.entry.constants.get? member = some entry ∧ p.target.Leaves entry
  distinct : HasDistinctSites draft.pending

section
variable {name : String} {entry : ClassEntry}

theorem name_addMethod {outer : Table (Option TypeExpr)} {method : Stub.Function}
    (h : entry.name = name) :
    (addMethod settings outer entry method).Meets (fun _ => True) fun entry =>
      entry.name = name := by
  refine .bind (.any _) fun result _ => ?_
  dsimp only
  split
  · exact .pure h
  · exact .pure h

theorem name_addProperty {property : Stub.Property} (h : entry.name = name) :
    (addProperty settings scope entry property).Meets (fun _ => True) fun entry =>
      entry.name = name := by
  refine .bind (.any _) fun block _ => .bind (.any _) fun hint _ => ?_
  refine .bind (.any _) fun documented _ => .bind (.any _) fun _ _ => ?_
  exact .bind (.any _) fun _ _ => .pure h

theorem isOpen_addClassConstant {draft : ClassDraft} (h : draft.IsOpen name) :
    (addClassConstant settings scope draft constant).Meets (fun _ => True)
      (ClassDraft.IsOpen name) := by
  unfold addClassConstant
  dsimp only
  split
  · exact .bind (.any _) fun _ _ => .pure h
  next hnew =>
  refine .bind leaves_readConstant fun result hresult =>
    .pure ⟨h.name_eq, fun p hp => ?_, h.distinct.append_note (fun p hp hsite => ?_) _⟩
  · rcases mem_append.mp hp with hp | hp
    · obtain ⟨member, entry, hsite, hentry, hleaves⟩ := h.pending p hp
      exact ⟨member, entry, hsite, Table.get?_insert_of_fresh hnew hentry, hleaves⟩
    · obtain ⟨target, htarget, rfl⟩ := Option.map_eq_some_iff.mp (Option.mem_toList.mp hp)
      refine ⟨constant.name, result.1, ?_, ?_, hresult target htarget⟩
      · rw [ClassEntry.key, h.name_eq]
      · rw [Table.get?_insert, if_pos rfl]
  · obtain ⟨member, entry, hmember, hentry, -⟩ := h.pending p hp
    obtain ⟨-, rfl⟩ := ConstantSite.member.inj (hsite.symm.trans hmember)
    exact hnew (Option.isSome_iff_exists.mpr ⟨entry, hentry⟩)

theorem isOpen_addEnumCase {pending : List Pending} {case : Stub.EnumCase}
    (h : ClassDraft.IsOpen name ⟨entry, pending⟩) :
    (addEnumCase settings entry case).Meets (fun _ => True) fun entry =>
      ClassDraft.IsOpen name ⟨entry, pending⟩ := by
  refine .bind (.any _) fun block _ => .bind (.any _) fun evaluation _ => ?_
  dsimp only
  split
  · exact .bind (.any _) fun _ _ => .pure h
  next hnew =>
  refine .pure ⟨h.name_eq, fun p hp => ?_, h.distinct⟩
  obtain ⟨member, entry, hsite, hentry, hleaves⟩ := h.pending p hp
  exact ⟨member, entry, hsite, Table.get?_insert_of_fresh hnew hentry, hleaves⟩

end

theorem isOpen_readClass {name : String} :
    (readClass settings name source).Meets (fun _ => True) (ClassDraft.IsOpen name) := by
  refine .bind (.any _) fun block _ => .bind (.any _) fun templates _ => ?_
  refine .bind (.any _) fun backing _ => .bind (.any _) fun uses _ => ?_
  refine .bind (.any _) fun arguments _ => ?_
  refine .bind (.foldChecked (Q := fun entry => entry.name = name) rfl
    fun entry hentry method _ => name_addMethod hentry) fun entry hentry => ?_
  refine .bind (.foldChecked (Q := fun entry => entry.name = name) hentry
    fun entry hentry property _ => name_addProperty hentry) fun entry hentry => ?_
  refine .bind (.foldChecked (Q := ClassDraft.IsOpen name) ⟨hentry, by simp, .nil⟩
    fun draft hdraft constant _ => isOpen_addClassConstant hdraft) fun draft hdraft => ?_
  refine .bind (.foldChecked (Q := fun entry => ClassDraft.IsOpen name ⟨entry, draft.pending⟩)
    hdraft fun entry hentry case _ => isOpen_addEnumCase hentry) fun entry hentry => .pure hentry

section
variable {draft : Draft}

theorem isOpen_addConstant (h : draft.IsOpen) :
    (draft.addConstant settings constant).Meets (fun _ => True) Draft.IsOpen := by
  refine addConstant_meets (fun _ => h) fun hnew read noted hread p hp => ?_
  rcases mem_append.mp hp with hp | hp
  · obtain ⟨entry, hentry, hleaves⟩ := h p hp
    refine ⟨entry, ?_, hleaves⟩
    cases hsite : p.site with
    | global key =>
      rw [hsite] at hentry
      exact Table.get?_insert_of_fresh hnew hentry
    | member owner member =>
      rw [hsite] at hentry
      exact hentry
  · obtain ⟨target, htarget, rfl⟩ := Option.map_eq_some_iff.mp (Option.mem_toList.mp hp)
    refine ⟨read, ?_, leaves_readConstant.of_result? hread target htarget⟩
    exact (Table.get?_insert ..).trans (if_pos rfl)

theorem isOpen_addClass (h : draft.IsOpen) :
    (draft.addClass settings source).Meets (fun _ => True) Draft.IsOpen := by
  refine addClass_meets (fun _ => h) fun hnew found hread p hp => ?_
  rcases mem_append.mp hp with hp | hp
  · obtain ⟨entry, hentry, hleaves⟩ := h p hp
    refine ⟨entry, ?_, hleaves⟩
    cases hsite : p.site with
    | global key =>
      rw [hsite] at hentry
      exact hentry
    | member owner member =>
      rw [hsite] at hentry
      obtain ⟨ownerEntry, howner, hmember⟩ := Option.bind_eq_some_iff.mp hentry
      exact Option.bind_eq_some_iff.mpr
        ⟨ownerEntry, Table.get?_insert_of_fresh hnew howner, hmember⟩
  · obtain ⟨member, entry, hsite, hentry, hleaves⟩ :=
      (isOpen_readClass.of_result? hread).pending p hp
    refine ⟨entry, ?_, hleaves⟩
    rw [hsite]
    exact Option.bind_eq_some_iff.mpr
      ⟨found.entry, (Table.get?_insert ..).trans (if_pos rfl), hentry⟩

theorem isOpen_addFiles {files : List Stub.File} :
    (collect settings files).Meets (fun _ => True) Draft.IsOpen :=
  addFiles_keeps (by simp [Draft.IsOpen]) (fun _ _ h => isOpen_addConstant h)
    (fun _ _ h => .bind (.any _) fun _ _ => .pure h) (fun _ _ h => isOpen_addClass h) files

/-! Only a name that is new gets noted, and all notes so far are about names that are there. -/

theorem distinct_addConstant (hopen : draft.IsOpen) (h : HasDistinctSites draft.pending) :
    (draft.addConstant settings constant).Meets (fun _ => True) fun draft =>
      HasDistinctSites draft.pending := by
  refine addConstant_meets (fun _ => h) fun hnew _ _ _ => h.append_note (fun p hp hsite => ?_) _
  obtain ⟨entry, hentry, -⟩ := hopen p hp
  rw [hsite] at hentry
  exact hnew (Option.isSome_iff_exists.mpr ⟨entry, hentry⟩)

theorem distinct_addClass (hopen : draft.IsOpen) (h : HasDistinctSites draft.pending) :
    (draft.addClass settings source).Meets (fun _ => True) fun draft =>
      HasDistinctSites draft.pending := by
  refine addClass_meets (fun _ => h) fun hnew found hread => ?_
  have hfound := isOpen_readClass.of_result? hread
  unfold HasDistinctSites
  rw [map_append]
  refine nodup_append.mpr ⟨h, hfound.distinct, ?_⟩
  rintro a ha b hb rfl
  obtain ⟨p, hp, rfl⟩ := mem_map.mp ha
  obtain ⟨q, hq, hsite⟩ := mem_map.mp hb
  obtain ⟨member, -, hmember, -⟩ := hfound.pending q hq
  obtain ⟨entry, hentry, -⟩ := hopen p hp
  rw [← hsite, hmember] at hentry
  obtain ⟨owner, howner, -⟩ := Option.bind_eq_some_iff.mp hentry
  exact hnew (Option.isSome_iff_exists.mpr ⟨owner, howner⟩)

theorem distinct_addFiles {files : List Stub.File} :
    (collect settings files).Meets (fun _ => True) fun draft =>
      HasDistinctSites draft.pending :=
  (addFiles_keeps (P := fun draft => draft.IsOpen ∧ HasDistinctSites draft.pending)
    ⟨by simp [Draft.IsOpen], .nil⟩
    (fun _ _ h => (isOpen_addConstant h.1).and (distinct_addConstant h.1 h.2))
    (fun _ _ h => .bind (.any _) fun _ _ => .pure h)
    (fun _ _ h => (isOpen_addClass h.1).and (distinct_addClass h.1 h.2)) files).mono fun _ h => h.2

end

/-! ### What following references may change -/

namespace Constants

/-- What following the pending references may change about the constant at a site: nothing where
nothing is pending, and its value only if it becomes known. -/
structure Kept (pending : List Pending) (site : ConstantSite) (before after : ConstantEntry) :
    Prop where
  eq_of_settled : (∀ p ∈ pending, p.site ≠ site) → after = before
  value : after.isValueKnown = false → before.isValueKnown = false ∧ after.value = before.value
  type : (∀ p ∈ pending, p.site = site → p.target.hasDeclaredType) →
    after.type = before.type

variable {pending : List Pending} {site : ConstantSite} {a b c : ConstantEntry}

theorem Kept.refl : Kept pending site a a := ⟨fun _ => rfl, fun h => ⟨h, rfl⟩, fun _ => rfl⟩

theorem Kept.trans (hab : Kept pending site a b) (hbc : Kept pending site b c) :
    Kept pending site a c where
  eq_of_settled h := (hbc.eq_of_settled h).trans (hab.eq_of_settled h)
  value h := by
    obtain ⟨hb, hvalue⟩ := hbc.value h
    obtain ⟨ha, hvalue'⟩ := hab.value hb
    exact ⟨ha, hvalue.trans hvalue'⟩
  type h := (hbc.type h).trans (hab.type h)

theorem isValueKnown_takeOver (hasDeclaredType : Bool) (entry : ConstantEntry)
    (hknown : target.isValueKnown) (hcase : target.declaration.kind ≠ .enumCase) :
    (takeOver hasDeclaredType target entry).isValueKnown := by
  cases hasDeclaredType <;> simp [takeOver, hknown, hcase]

theorem value_takeOver (hasDeclaredType : Bool) (entry : ConstantEntry)
    (h : ¬ (target.isValueKnown ∧ target.declaration.kind ≠ .enumCase)) :
    (takeOver hasDeclaredType target entry).isValueKnown = entry.isValueKnown ∧
      (takeOver hasDeclaredType target entry).value = entry.value := by
  rw [ne_eq] at h
  cases hasDeclaredType <;> simp [takeOver, h]

theorem kept_takeOver (hp : p ∈ pending) (target entry : ConstantEntry) :
    Kept pending p.site entry (takeOver p.target.hasDeclaredType target entry) where
  eq_of_settled h := absurd rfl (h p hp)
  value h := by
    by_cases htaken : target.isValueKnown ∧ target.declaration.kind ≠ .enumCase
    · rw [isValueKnown_takeOver _ entry htaken.1 htaken.2] at h
      cases h
    · obtain ⟨hknown, hvalue⟩ := value_takeOver p.target.hasDeclaredType entry htaken
      exact ⟨hknown ▸ h, hvalue⟩
  type h := by
    unfold takeOver
    dsimp only
    rw [if_pos (h p hp rfl)]
    split <;> rfl

theorem Kept.agrees_iff (h : Kept pending site a b)
    (hopen : ∀ p ∈ pending, p.site = site → p.target.Leaves a) :
    (a.value = b.value ∧ a.isValueKnown = b.isValueKnown ∧ a.type = b.type) ↔
      ∀ p ∈ pending, p.site = site →
        b.isValueKnown = false ∧ (p.target.hasDeclaredType ∨ b.type = unknownValueType) := by
  constructor
  · rintro ⟨-, hknown, htype⟩ p hp hsite
    obtain ⟨hunknown, hleft⟩ := hopen p hp hsite
    exact ⟨hknown ▸ hunknown, htype ▸ hleft⟩
  · intro hall
    by_cases hsettled : ∀ p ∈ pending, p.site ≠ site
    · simp [h.eq_of_settled hsettled]
    · push Not at hsettled
      obtain ⟨p, hp, hsite⟩ := hsettled
      obtain ⟨hunknown, -⟩ := hall p hp hsite
      obtain ⟨hbefore, hvalue⟩ := h.value hunknown
      refine ⟨hvalue.symm, hbefore.trans hunknown.symm, ?_⟩
      -- A reference without a declared type leaves the type open on both sides.
      by_cases hdeclared : ∀ q ∈ pending, q.site = site → q.target.hasDeclaredType
      · exact (h.type hdeclared).symm
      · push Not at hdeclared
        obtain ⟨q, hq, hsite', hnot⟩ := hdeclared
        rw [(hopen q hq hsite').type.resolve_left hnot, (hall q hq hsite').2.resolve_left hnot]

/-! ### All references -/

/-- The classes and the sites of constants stay, and what changes about a constant is what following
the pending references may change. -/
structure Follows (pending : List Pending) (before after : Constants) : Prop where
  edges : ∀ key, Option.Rel SameEdges (before.classes.get? key) (after.classes.get? key)
  kept : ∀ site, Option.Rel (Kept pending site) (before.get? site) (after.get? site)

section
variable {state before between after : Constants}

theorem Follows.refl : Follows pending state state where
  edges _ := rel_refl (fun _ => ⟨rfl, rfl⟩) _
  kept _ := rel_refl (fun _ => .refl) _

theorem Follows.trans (h : Follows pending before between) (h' : Follows pending between after) :
    Follows pending before after where
  edges key := rel_trans (fun _ _ _ hab hbc => ⟨hab.1.trans hbc.1, hab.2.trans hbc.2⟩)
    (h.edges key) (h'.edges key)
  kept site := rel_trans (fun _ _ _ hab hbc => hab.trans hbc) (h.kept site) (h'.kept site)

theorem sameEdges_modify (state : Constants) (site : ConstantSite)
    (f : ConstantEntry → ConstantEntry) (key : String) :
    Option.Rel SameEdges (state.classes.get? key) ((state.modify site f).classes.get? key) := by
  cases site with
  | global key' => exact rel_refl (fun _ => ⟨rfl, rfl⟩) _
  | member owner name =>
    rw [modify, Table.get?_modify]
    split
    · exact rel_map (fun entry => ⟨rfl, funext fun tie => by cases tie <;> rfl⟩) _
    · exact rel_refl (fun _ => ⟨rfl, rfl⟩) _

theorem follows_modify (hp : p ∈ pending) (target : ConstantEntry) : Follows pending state
      (state.modify p.site (takeOver p.target.hasDeclaredType target)) where
  edges := sameEdges_modify state p.site _
  kept site := by
    rw [get?_modify]
    split
    · next heq =>
      subst heq
      exact rel_map (kept_takeOver hp target) _
    · exact rel_refl (fun _ => .refl) _

theorem follows_follow (hp : p ∈ pending) : Follows pending state (state.follow p site) := by
  unfold follow
  split
  · exact follows_modify hp _
  · exact .refl

theorem follows_settleAll {left : List Pending} (hleft : ∀ p ∈ left, p ∈ pending) :
    Follows pending state (state.settleAll left) :=
  settleAll_keeps (fun _ _ _ _ hp _ _ h => h.trans (follows_follow hp)) hleft .refl

end

end Constants

end Build

end StubCatalog
