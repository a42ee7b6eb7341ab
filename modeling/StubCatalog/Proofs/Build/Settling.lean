import StubCatalog.Proofs.Build.References

/-! # References that never lead in a circle

Following references does not change where they lead (`target?_eq`). A constant whose reference does
not lead back to it is settled after the one that it refers to; if no reference leads in a circle,
all are satisfied at once, and only one state satisfies them all. -/

namespace StubCatalog.Build.Constants

open List Relation

variable {a b : ClassEntry}

/-! ### Where a reference leads -/

/-- The second class is the first one, up to what its constants are. -/
def SameSlots (a b : ClassEntry) : Prop :=
  ∃ constants : Table ConstantEntry, constants.keys = a.constants.keys ∧ b = { a with constants }

theorem SameSlots.refl (a : ClassEntry) : SameSlots a a := ⟨a.constants, rfl, rfl⟩

theorem SameSlots.trans {c : ClassEntry} (hab : SameSlots a b) (hbc : SameSlots b c) :
    SameSlots a c := by
  obtain ⟨constants, hkeys, rfl⟩ := hab
  obtain ⟨constants', hkeys', rfl⟩ := hbc
  exact ⟨constants', hkeys'.trans hkeys, rfl⟩

theorem SameSlots.key (h : SameSlots a b) : a.key = b.key := by
  obtain ⟨constants, -, rfl⟩ := h
  rfl

theorem SameSlots.parentName? (h : SameSlots a b) : a.parentName? = b.parentName? := by
  obtain ⟨constants, -, rfl⟩ := h
  rfl

theorem SameSlots.interfaces (h : SameSlots a b) : a.interfaces = b.interfaces := by
  obtain ⟨constants, -, rfl⟩ := h
  rfl

theorem SameSlots.contains (h : SameSlots a b) (name : String) :
    a.constants.contains name = b.constants.contains name := by
  obtain ⟨constants, hkeys, rfl⟩ := h
  exact Table.contains_eq_of_keys hkeys.symm name

/-- The two states have constants of the same names in the same classes. -/
structure SameShape (a b : Constants) : Prop where
  size : a.classes.size = b.classes.size
  classes : ∀ key, Option.Rel SameSlots (a.classes.get? key) (b.classes.get? key)
  globals : ∀ key, a.globals.contains key = b.globals.contains key

section
variable {a b c : Constants}

theorem SameShape.refl (a : Constants) : SameShape a a :=
  ⟨rfl, fun _ => rel_refl SameSlots.refl _, fun _ => rfl⟩

theorem SameShape.trans (hab : SameShape a b) (hbc : SameShape b c) : SameShape a c where
  size := hab.size.trans hbc.size
  classes key := rel_trans (fun _ _ _ => .trans) (hab.classes key) (hbc.classes key)
  globals key := (hab.globals key).trans (hbc.globals key)

theorem sameShape_modify (a : Constants) (site : ConstantSite) (f : ConstantEntry → ConstantEntry) :
    SameShape a (a.modify site f) := by
  cases site with
  | global key =>
    exact { SameShape.refl a with
      globals := fun name => Table.contains_eq_of_keys (Table.keys_modify ..).symm name }
  | member owner name =>
    refine { SameShape.refl a with size := (Table.size_modify ..).symm, classes := fun key => ?_ }
    rw [modify, Table.get?_modify]
    split
    · exact rel_map (fun entry => ⟨_, Table.keys_modify .., rfl⟩) _
    · exact rel_refl SameSlots.refl _

theorem sameShape_follow (a : Constants) (p : Pending) (site : ConstantSite) :
    SameShape a (a.follow p site) := by
  unfold follow
  split
  · exact sameShape_modify a p.site _
  · exact .refl a

theorem memberFrom?_succ (a : Constants) (name : String) (depth : Nat) (visited : List String)
    (entry : ClassEntry) :
    a.memberFrom? name (depth + 1) visited entry =
      if visited.contains entry.key then none
      else (a.ownMember? entry name).or
        ((entry.parentName?.bind fun parent => a.classes.get? (Name.symbolKey parent)).bind
          (a.memberFrom? name depth (entry.key :: visited))) := by
  rw [memberFrom?]
  cases entry.parentName?.bind fun parent => a.classes.get? (Name.symbolKey parent) <;> rfl

section
variable (h : SameShape a b)
include h

theorem ownMember?_eq {entry entry' : ClassEntry} (hentry : SameSlots entry entry')
    (name : String) : a.ownMember? entry name = b.ownMember? entry' name := by
  have hany : ∀ key, (a.classes.get? key).any (·.constants.contains name) =
      (b.classes.get? key).any (·.constants.contains name) := fun key =>
    any_eq_of_rel (h.classes key) fun _ _ hslots => hslots.contains name
  simp only [ownMember?, hentry.contains name, hentry.key, hentry.interfaces, hany]

theorem SameShape.bind_get? (name : Option String) :
    Option.Rel SameSlots (name.bind fun name => a.classes.get? (Name.symbolKey name))
      (name.bind fun name => b.classes.get? (Name.symbolKey name)) :=
  rel_bind (rel_refl (fun _ => rfl) _) fun _ _ hname => hname ▸ h.classes _

theorem memberFrom?_eq (name : String) (depth : Nat) (visited : List String)
    {entry entry' : ClassEntry} (hentry : SameSlots entry entry') :
    a.memberFrom? name depth visited entry = b.memberFrom? name depth visited entry' := by
  induction depth generalizing visited entry entry' with
  | zero => rfl
  | succ depth ih =>
    rw [memberFrom?_succ, memberFrom?_succ, ownMember?_eq h hentry name, hentry.key,
      hentry.parentName?, bind_eq_of_rel (h.bind_get? _) fun _ _ hslots => ih _ hslots]

theorem referencedClass?_rel (target : OpenReference) (written : String) :
    Option.Rel SameSlots (a.referencedClass? target written)
      (b.referencedClass? target written) := by
  have howner := h.bind_get? (target.owner.filter (· != ""))
  unfold referencedClass?
  dsimp only
  split
  · exact howner
  · exact howner
  · rw [bind_eq_of_rel howner fun _ _ => SameSlots.parentName?]
    exact h.bind_get? _
  · exact h.classes _

theorem target?_eq (target : OpenReference) : a.target? target = b.target? target := by
  unfold target?
  split
  · rw [funext h.globals]
  · rw [h.size]
    exact bind_eq_of_rel (referencedClass?_rel h target _) fun _ _ hslots =>
      memberFrom?_eq h _ _ _ hslots

end

end

/-! ### References and their targets -/

/-- The reference at the first site leads to the second. -/
def Refers (state : Constants) (pending : List Pending) (s t : ConstantSite) : Prop :=
  ∃ p ∈ pending, p.site = s ∧ state.target? p.target = some t

/-- The reference is satisfied: its constant has taken over what is known about its target in the
end. -/
def Settled (start state : Constants) (p : Pending) : Prop :=
  state.get? p.site =
    (start.get? p.site).map (takeFrom p.target ((start.target? p.target).bind state.get?))

/-- While the references of `left` are to be followed, their constants are as in the beginning. All
others that do not lead in a circle are satisfied, and lead to no constant that is still to change.
-/
structure Progress (start : Constants) (pending : List Pending) (left : Pending → Prop)
    (state : Constants) : Prop where
  shape : SameShape start state
  unchanged : ∀ site, (∀ p ∈ pending, p.site = site → left p) → state.get? site = start.get? site
  settled : ∀ p ∈ pending, ¬ TransGen (Refers start pending) p.site p.site → ¬ left p →
    Settled start state p
  closed : ∀ p ∈ pending, ¬ TransGen (Refers start pending) p.site p.site → ¬ left p →
    ∀ q ∈ pending, left q → start.target? p.target ≠ some q.site

section
variable {start state after : Constants} {pending others rest : List Pending}
  {left left' busy : Pending → Prop} {p : Pending}

theorem Progress.congr (h : Progress start pending left state)
    (hleft : ∀ q ∈ pending, left q ↔ left' q) : Progress start pending left' state where
  shape := h.shape
  unchanged site hsite := h.unchanged site fun q hq heq => (hleft q hq).mpr (hsite q hq heq)
  settled q hq hfree hnot := h.settled q hq hfree (mt (hleft q hq).mp hnot)
  closed q hq hfree hnot x hx hleftX :=
    h.closed q hq hfree (mt (hleft q hq).mp hnot) x hx ((hleft x hx).mpr hleftX)

theorem progress_start (start : Constants) (pending : List Pending) :
    Progress start pending (· ∈ pending) start where
  shape := .refl start
  unchanged _ _ := rfl
  settled _ hp _ hnot := absurd hp hnot
  closed _ hp _ hnot := absurd hp hnot

/-- **One reference is settled**; it does not lead to a constant that is still to change, unless it
leads in a circle. -/
theorem Progress.step (hdistinct : HasDistinctSites pending)
    (h : Progress start pending left state) (hp : p ∈ pending) (hleft : left p)
    (hclear : ¬ TransGen (Refers start pending) p.site p.site →
      ∀ q ∈ pending, left q → start.target? p.target ≠ some q.site)
    (hshape : SameShape state after)
    (hget : ∀ site, after.get? site =
      if site = p.site then
        (state.get? site).map (takeFrom p.target ((start.target? p.target).bind state.get?))
      else state.get? site) :
    Progress start pending (fun q => left q ∧ q ≠ p) after := by
  have hsame : ∀ {q}, q ∈ pending → q.site = p.site → q = p := fun hq heq =>
    inj_on_of_nodup_map hdistinct hq hp heq
  have hother : ∀ {site}, site ≠ p.site → after.get? site = state.get? site :=
    fun hne => (hget _).trans (if_neg hne)
  -- What a reference finds at its target stays, unless it leads to `p`.
  have hfound : ∀ {q : Pending}, start.target? q.target ≠ some p.site →
      (start.target? q.target).bind after.get? = (start.target? q.target).bind state.get? := by
    intro q hne
    cases htarget : start.target? q.target with
    | none => rfl
    | some site => exact hother fun heq => hne (htarget.trans (congrArg some heq))
  refine ⟨h.shape.trans hshape, fun site hsite => ?_, fun q hq hfree hnot => ?_,
    fun q hq hfree hnot x hx hx' => ?_⟩
  · have hne : site ≠ p.site := fun heq => (hsite p hp heq.symm).2 rfl
    rw [hother hne]
    exact h.unchanged site fun q hq heq => (hsite q hq heq).1
  · by_cases heq : q = p
    · subst heq
      have hstart : state.get? q.site = start.get? q.site :=
        h.unchanged q.site fun x hx heq => hsame hx heq ▸ hleft
      rw [Settled, hget, if_pos rfl, hstart, hfound (hclear hfree q hq hleft)]
    · have hsettled : ¬ left q := fun hl => hnot ⟨hl, heq⟩
      have hne : q.site ≠ p.site := fun h => heq (hsame hq h)
      rw [Settled, hother hne, hfound (h.closed q hq hfree hsettled p hp hleft)]
      exact h.settled q hq hfree hsettled
  · by_cases heq : q = p
    · subst heq
      exact hclear hfree x hx hx'.1
    · exact h.closed q hq hfree (fun hl => hnot ⟨hl, heq⟩) x hx hx'.1

theorem progress_follow {site : ConstantSite} (hdistinct : HasDistinctSites pending)
    (h : Progress start pending left state) (hp : p ∈ pending) (hleft : left p)
    (htarget : start.target? p.target = some site)
    (hclear : ¬ TransGen (Refers start pending) p.site p.site →
      ∀ q ∈ pending, left q → q.site ≠ site) :
    Progress start pending (fun q => left q ∧ q ≠ p) (state.follow p site) := by
  refine h.step hdistinct hp hleft (fun hfree q hq hl heq => ?_) (sameShape_follow state p site)
    fun other => ?_
  · exact hclear hfree q hq hl (Option.some.inj (heq.symm.trans htarget))
  · rw [get?_follow, htarget, Option.bind_some]

theorem Progress.done (hrest : p ∉ rest) (hbusy : ¬ busy p)
    (h : Progress start pending (fun q => (q = p ∨ q ∈ rest ∨ busy q) ∧ q ≠ p) state) :
    Progress start pending (fun q => q ∈ rest ∨ busy q) state := by
  refine h.congr fun q _ => ⟨fun ⟨hq, hne⟩ => hq.resolve_left hne, fun hq => ⟨.inr hq, ?_⟩⟩
  rintro rfl
  exact hq.elim hrest hbusy

/-- **A constant is settled** with those that it depends on. The constants of `busy` depend on it
and wait for it, so it depends on them only in a circle. -/
theorem progress_settles (hdistinct : HasDistinctSites pending)
    (hsettles : Settles state p others after rest) (hp : p ∈ pending)
    (hothers : ∀ q ∈ others, q ∈ pending) (hself : p ∉ others)
    (hidle : ∀ q, q = p ∨ q ∈ others → ¬ busy q)
    (hbusy : ∀ q, busy q → TransGen (Refers start pending) q.site p.site)
    (h : Progress start pending (fun q => q = p ∨ q ∈ others ∨ busy q) state) :
    Progress start pending (fun q => q ∈ rest ∨ busy q) after ∧ rest.Sublist others := by
  induction hsettles generalizing busy with
  | @unresolved p others htarget =>
    have htarget' : start.target? p.target = none := (target?_eq h.shape _).trans htarget
    have hstep := h.step hdistinct hp (.inl rfl) (by simp [htarget']) (.refl state) fun site => by
      rw [htarget', Option.bind_none]
      split
      · exact Option.map_id_apply.symm
      · rfl
    exact ⟨hstep.done hself (hidle p (.inl rfl)), .refl _⟩
  | @ready p others site htarget hfree =>
    have htarget' : start.target? p.target = some site := (target?_eq h.shape _).trans htarget
    have hrefers : Refers start pending p.site site := ⟨p, hp, rfl, htarget'⟩
    have hstep := progress_follow hdistinct h hp (.inl rfl) htarget' ?_
    · exact ⟨hstep.done hself (hidle p (.inl rfl)), .refl _⟩
    · rintro hacyclic q hq (rfl | hother | hb) rfl
      · exact hacyclic (.single hrefers)
      · exact hfree q hother rfl
      · exact hacyclic ((hbusy q hb).head hrefers)
  | @waits p next others rest after htarget hnext hsettles ih =>
    have htarget' : start.target? p.target = some next.site :=
      (target?_eq h.shape _).trans htarget
    have hrefers : Refers start pending p.site next.site := ⟨p, hp, rfl, htarget'⟩
    -- The constant that `p` refers to is settled first, and `p` waits for it.
    have hwaiting : ∀ q, q = p ∨ busy q → TransGen (Refers start pending) q.site next.site := by
      rintro q (rfl | hb)
      · exact .single hrefers
      · exact (hbusy q hb).tail hrefers
    have hleft : Progress start pending (fun q => q = next ∨
        q ∈ others.filter (·.site != next.site) ∨ (q = p ∨ busy q)) state := by
      refine h.congr fun q hq => ?_
      have hmem : q ∈ others ↔ q = next ∨ q ∈ others.filter (·.site != next.site) := by
        by_cases hsite : q.site = next.site
        · obtain rfl := inj_on_of_nodup_map hdistinct hq (hothers next hnext) hsite
          simp [hnext]
        · have hne : q ≠ next := fun heq => hsite (heq ▸ rfl)
          simp [hsite, hne]
      rw [hmem]
      tauto
    have hidle' : ∀ q, q = next ∨ q ∈ others.filter (·.site != next.site) → ¬ (q = p ∨ busy q) := by
      intro q hq
      have hmem : q ∈ others := hq.elim (fun heq => heq ▸ hnext) fun hq => (mem_filter.mp hq).1
      rintro (rfl | hb)
      · exact hself hmem
      · exact hidle q (.inr hmem) hb
    obtain ⟨hafter, hsublist⟩ := ih (hothers next hnext)
      (fun q hq => hothers q (mem_filter.mp hq).1) (by simp) hidle' hwaiting hleft
    have hrest : rest.Sublist others := hsublist.trans filter_sublist
    have hstep := progress_follow hdistinct (hafter.congr fun q _ => or_left_comm) hp (.inl rfl)
      htarget' ?_
    · exact ⟨hstep.done (fun hmem => hself (hrest.subset hmem)) (hidle p (.inl rfl)), hrest⟩
    · rintro hacyclic q hq (rfl | hother | hb) hsite
      · exact hacyclic (.single (hsite ▸ hrefers))
      · simpa [hsite] using (mem_filter.mp (hsublist.subset hother)).2
      · exact hacyclic ((hsite ▸ hbusy q hb).head hrefers)

/-- **All constants are settled**, so all references that do not lead in a circle are satisfied at
once. -/
theorem progress_settleAll (hdistinct : HasDistinctSites pending) {list : List Pending}
    (hnodup : list.Nodup) (hlist : ∀ q ∈ list, q ∈ pending)
    (h : Progress start pending (· ∈ list) state) :
    Progress start pending (fun _ => False) (state.settleAll list) := by
  fun_induction settleAll state list with
  | case1 => exact h.congr fun q _ => by simp
  | case2 state first others next rest _ hsettle ih =>
    obtain ⟨hfirst, hothers⟩ := forall_mem_cons.mp hlist
    obtain ⟨hself, hnodup⟩ := nodup_cons.mp hnodup
    have hsettles := settles_settle state first others
    rw [hsettle] at hsettles
    have hleft : Progress start pending (fun q => q = first ∨ q ∈ others ∨ False) state :=
      h.congr fun q _ => by simp
    obtain ⟨hnext, hsublist⟩ :=
      progress_settles hdistinct hsettles hfirst hothers hself (fun _ _ => not_false)
        (fun _ hb => hb.elim) hleft
    exact ih (hnodup.sublist hsublist) (fun q hq => hothers q (hsublist.subset hq))
      (hnext.congr fun q _ => by simp)

end

section
variable {start start' state state' : Constants} {pending pending' : List Pending}

/-- **Only one state satisfies all references**, if they never lead in a circle: what a reference
takes over is known before it. -/
theorem get?_eq_of_settled (hacyclic : ∀ site, ¬ TransGen (Refers start pending) site site)
    (hstart : start.get? = start'.get?) (hshape : SameShape start start')
    (hpending : ∀ p, p ∈ pending ↔ p ∈ pending')
    (h : Progress start pending (fun _ => False) state)
    (h' : Progress start' pending' (fun _ => False) state') : state.get? = state'.get? := by
  have htargets : ∀ s t, Refers start pending s t →
      t ∈ pending.filterMap fun p => start.target? p.target := by
    rintro s t ⟨p, hp, -, htarget⟩
    exact mem_filterMap.mpr ⟨p, hp, htarget⟩
  obtain ⟨height, hdown, -⟩ := Graph.exists_height_of_acyclic htargets hacyclic
  funext site
  induction hheight : height site using Nat.strong_induction_on generalizing site with
  | _ n ih =>
    by_cases hsite : ∃ p ∈ pending, p.site = site
    · obtain ⟨p, hp, rfl⟩ := hsite
      have hfound : (start.target? p.target).bind state.get? =
          (start.target? p.target).bind state'.get? := by
        cases htarget : start.target? p.target with
        | none => rfl
        | some target => exact ih _ (hheight ▸ hdown _ _ ⟨p, hp, rfl, htarget⟩) target rfl
      have hacyclic' : ¬ TransGen (Refers start' pending') p.site p.site := by
        have hrefers : Refers start' pending' = Refers start pending := by
          funext s t
          simp only [Refers, hpending, target?_eq hshape]
        rw [hrefers]
        exact hacyclic p.site
      rw [h.settled p hp (hacyclic _) not_false,
        h'.settled p ((hpending p).mp hp) hacyclic' not_false, hfound, hstart, target?_eq hshape]
    · have hnone : ∀ p ∈ pending, p.site = site → False := fun p hp heq => hsite ⟨p, hp, heq⟩
      rw [h.unchanged site hnone, hstart,
        h'.unchanged site fun p hp => hnone p ((hpending p).mpr hp)]

theorem classes_eq_of_get? (hstart : start.classes.get? = start'.classes.get?)
    (hshape : SameShape start state) (hshape' : SameShape start' state')
    (hget : state.get? = state'.get?) : state.classes.get? = state'.classes.get? := by
  funext key
  have hrel := hshape.classes key
  have hrel' := hshape'.classes key
  rw [← hstart] at hrel'
  cases hentry : start.classes.get? key with
  | none =>
    rw [hentry] at hrel hrel'
    rw [eq_none_of_rel hrel, eq_none_of_rel hrel']
  | some entry =>
    rw [hentry] at hrel hrel'
    obtain ⟨_, hstate, constants, hkeys, rfl⟩ := exists_of_rel_left hrel
    obtain ⟨_, hstate', constants', hkeys', rfl⟩ := exists_of_rel_left hrel'
    have hconstants : constants = constants' := by
      refine Table.eq_of_get? (hkeys.trans hkeys'.symm) (funext fun name => ?_)
      simpa [get?, hstate, hstate'] using congrFun hget (.member key name)
    rw [hstate, hstate', hconstants]

end

end StubCatalog.Build.Constants
