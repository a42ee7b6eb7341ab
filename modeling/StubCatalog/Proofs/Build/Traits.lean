import StubCatalog.Proofs.Build.Linking

/-! # What taking in traits comes to

A class is completed after the traits that it uses, and then not touched again; without cycles none
is met half complete. So every class has the members of its traits as they stand in the result
(`get?_composeAll`), which determines the result (`get?_eq_of_takeTraits`). -/

namespace StubCatalog.Build

open List Relation

variable {settings : Settings} {classes : Classes} {entry : ClassEntry} {depth : Nat} {key : String}

theorem SameEdges.name {a b : ClassEntry} (h : SameEdges a b) : a.name = b.name :=
  congrArg Declaration.qualifiedName h.1

theorem SameEdges.traits {a b : ClassEntry} (h : SameEdges a b) : a.traits = b.traits :=
  congrFun h.2 .trait

/-! ### Taking in the traits of one class -/

/-- A class with the members of the given traits, as they are in a table of classes. -/
def takeNamed (composed : Classes) (entry : ClassEntry) (names : List String) : ClassEntry :=
  (names.filterMap fun name => composed.get? (Name.symbolKey name)).foldl takeTrait entry

/-- A class with the members of its traits, as they are in a table of classes. -/
def takeTraits (composed : Classes) (entry : ClassEntry) : ClassEntry :=
  takeNamed composed entry entry.traits

theorem takeNamed_congr {composed composed' : Classes} {names : List String}
    (h : ∀ name ∈ names,
      composed.get? (Name.symbolKey name) = composed'.get? (Name.symbolKey name)) :
    takeNamed composed entry names = takeNamed composed' entry names := by
  rw [takeNamed, takeNamed, filterMap_congr h]

/-! ### The order of completion -/

namespace Composition

variable {state state' : Composition} {name : String} {names : List String}

/-- Only classes that are complete or being completed have changed, and a complete class has the
members of its traits, which are complete as well. -/
structure Valid (classes : Classes) (state : Composition) : Prop where
  keys : state.classes.keys = classes.keys
  nodup : state.visiting.Nodup
  declared : state.visiting ⊆ classes.keys
  apart {key : String} : key ∈ state.visiting → key ∉ state.composed
  untouched {key : String} : key ∉ state.composed → key ∉ state.visiting →
    state.classes.get? key = classes.get? key
  closed {key name : String} {entry : ClassEntry} : key ∈ state.composed →
    classes.get? key = some entry → name ∈ entry.traits → Name.symbolKey name ∈ classes.keys →
    Name.symbolKey name ∈ state.composed
  complete {key : String} : key ∈ state.composed →
    state.classes.get? key = (classes.get? key).map (takeTraits state.classes)

/-- The second state comes later, with the same classes being completed: those and the complete ones
are as they were. -/
structure Later (state state' : Composition) : Prop where
  composed : state.composed ⊆ state'.composed
  kept {key : String} : key ∈ state.composed ∨ key ∈ state.visiting →
    state'.classes.get? key = state.classes.get? key

/-- What completing a class comes to. -/
structure Completes (classes : Classes) (state : Composition) (key : String)
    (state' : Composition) : Prop where
  valid : Valid classes state'
  later : Later state state'
  visiting : state'.visiting = state.visiting
  mem : key ∈ state'.composed

theorem get?_eq_none {table : Classes} (hkeys : table.keys = classes.keys)
    (hkey : key ∉ classes.keys) : table.get? key = none := by
  rwa [← Table.contains_eq_false_iff, ← Bool.not_eq_true, Table.contains_iff_mem_keys, hkeys]

theorem takeNamed_of_kept {table : Classes} (h : Valid classes state)
    (hkeys : table.keys = classes.keys)
    (hkept : ∀ key ∈ state.composed, table.get? key = state.classes.get? key)
    (hused : ∀ name ∈ names, Name.symbolKey name ∈ classes.keys →
      Name.symbolKey name ∈ state.composed) :
    takeNamed table entry names = takeNamed state.classes entry names := by
  refine takeNamed_congr fun name hname => ?_
  by_cases hdeclared : Name.symbolKey name ∈ classes.keys
  · exact hkept _ (hused name hname hdeclared)
  · rw [get?_eq_none hkeys hdeclared, get?_eq_none h.keys hdeclared]

theorem Valid.modify (h : Valid classes state) (hkey : key ∈ state.visiting)
    (f : ClassEntry → ClassEntry) :
    Valid classes { state with classes := state.classes.modify key f } := by
  have hkeys : (state.classes.modify key f).keys = classes.keys :=
    (Table.keys_modify ..).trans h.keys
  have hkept : ∀ other ∈ state.composed,
      (state.classes.modify key f).get? other = state.classes.get? other := fun other hother => by
    rw [Table.get?_modify, if_neg fun heq : other = key => h.apart hkey (heq ▸ hother)]
  refine { h with keys := hkeys, untouched := fun {other} hout hother => ?_,
                  complete := fun {other} hother => ?_ }
  · rw [Table.get?_modify, if_neg fun heq : other = key => hother (heq ▸ hkey)]
    exact h.untouched hout hother
  · rw [hkept other hother, h.complete hother]
    cases hentry : classes.get? other with
    | none => rfl
    | some entry =>
      refine congrArg some (takeNamed_of_kept h hkeys hkept fun name hname => ?_).symm
      exact h.closed hother hentry hname

theorem compose_undeclared (h : Valid classes state) (hkey : key ∉ classes.keys) :
    compose depth state key = state := by
  cases depth with
  | zero => rfl
  | succ depth =>
    unfold compose
    rw [get?_eq_none h.keys hkey]
    exact ite_self _

/-- What holds while a class takes in its traits; `state` is the state in which this begins, and
`names` are the traits taken in so far. -/
structure Using (classes : Classes) (state : Composition) (key : String) (entry : ClassEntry)
    (names : List String) (state' : Composition) : Prop where
  valid : Valid classes state'
  later : Later state state'
  visiting : state'.visiting = key :: state.visiting
  used {name : String} : name ∈ names → Name.symbolKey name ∈ classes.keys →
    Name.symbolKey name ∈ state'.composed
  taken : state'.classes.get? key = some (takeNamed state'.classes entry names)

theorem using_start (h : Valid classes state) (hentry : classes.get? key = some entry)
    (hcomposed : key ∉ state.composed) (hvisiting : key ∉ state.visiting) :
    Using classes state key entry [] { state with visiting := key :: state.visiting } where
  valid :=
    { h with
      nodup := nodup_cons.mpr ⟨hvisiting, h.nodup⟩
      declared := cons_subset.mpr ⟨Table.mem_keys_iff.mpr ⟨entry, hentry⟩, h.declared⟩
      apart := fun hmem => (mem_cons.mp hmem).elim (fun heq => heq ▸ hcomposed) h.apart
      untouched := fun hout hmem => h.untouched hout fun hv => hmem (mem_cons_of_mem _ hv) }
  later := ⟨List.Subset.refl _, fun _ => rfl⟩
  visiting := rfl
  used := by simp
  taken := (h.untouched hcomposed hvisiting).trans hentry

/-- **One step**: a class takes in one more trait, once this one is complete. -/
theorem Using.useTrait {compose : Composition → String → Composition}
    (h : Using classes state key entry names state')
    (hcompose : Name.symbolKey name ∈ classes.keys →
      Completes classes state' (Name.symbolKey name) (compose state' (Name.symbolKey name)))
    (hundeclared : Name.symbolKey name ∉ classes.keys →
      compose state' (Name.symbolKey name) = state') :
    Using classes state key entry (names ++ [name]) (useTrait compose key state' name) := by
  have hcases : ∀ {other}, other ∈ names ++ [name] → other ∈ names ∨ other = name := fun hother =>
    (mem_append.mp hother).imp_right mem_singleton.mp
  unfold Composition.useTrait
  by_cases hdeclared : Name.symbolKey name ∈ classes.keys
  · have hinner := hcompose hdeclared
    generalize compose state' (Name.symbolKey name) = inner at hinner ⊢
    have hvisiting : inner.visiting = key :: state.visiting := hinner.visiting.trans h.visiting
    have hkey : key ∈ inner.visiting := hvisiting ▸ mem_cons_self
    have hnodup : (key :: state.visiting).Nodup := hvisiting ▸ hinner.valid.nodup
    obtain ⟨source, hsource⟩ := Table.mem_keys_iff.mp (hinner.valid.keys ▸ hdeclared)
    simp only [hsource]
    have hvalid := hinner.valid.modify hkey (takeTrait · source)
    have hother : ∀ {other}, other ≠ key →
        (inner.classes.modify key (takeTrait · source)).get? other = inner.classes.get? other :=
      fun hne => by rw [Table.get?_modify, if_neg hne]
    have hcomposed : ∀ {other}, other ∈ inner.composed → other ≠ key := fun hmem heq =>
      hinner.valid.apart hkey (heq ▸ hmem)
    refine
      { valid := hvalid
        later := ⟨fun k hk => hinner.later.composed (h.later.composed hk), fun {other} hmem => ?_⟩
        visiting := hvisiting
        used := fun hname hdeclared' => (hcases hname).elim
          (fun hname => hinner.later.composed (h.used hname hdeclared')) fun heq => heq ▸ hinner.mem
        taken := ?_ }
    · have hne : other ≠ key := by
        rcases hmem with hmem | hmem
        · exact hcomposed (hinner.later.composed (h.later.composed hmem))
        · exact fun heq => (nodup_cons.mp hnodup).1 (heq ▸ hmem)
      refine (hother hne).trans ((hinner.later.kept ?_).trans (h.later.kept hmem))
      exact hmem.imp (h.later.composed ·) fun hmem => h.visiting ▸ mem_cons_of_mem _ hmem
    · have hbefore : takeNamed (inner.classes.modify key (takeTrait · source)) entry names =
          takeNamed state'.classes entry names :=
        takeNamed_of_kept h.valid hvalid.keys (fun other hmem =>
          (hother (hcomposed (hinner.later.composed hmem))).trans (hinner.later.kept (.inl hmem)))
          fun name hname => h.used hname
      have hlast := (hother (hcomposed hinner.mem)).trans hsource
      have htaken := (hinner.later.kept (.inr (h.visiting ▸ mem_cons_self))).trans h.taken
      rw [Table.get?_modify, if_pos rfl, htaken, Option.map_some, ← hbefore, takeNamed, takeNamed,
        filterMap_append, foldl_append]
      simp [hlast]
  · rw [hundeclared hdeclared]
    simp only [get?_eq_none h.valid.keys hdeclared]
    refine { h with used := fun hname hdeclared' => ?_, taken := ?_ }
    · exact h.used ((hcases hname).resolve_right fun heq => hdeclared (heq ▸ hdeclared')) hdeclared'
    · rw [h.taken, takeNamed, takeNamed, filterMap_append]
      simp [get?_eq_none h.valid.keys hdeclared]

theorem Using.foldl_useTrait {compose : Composition → String → Composition}
    (h : Using classes state key entry names state') (rest : List String)
    (hcompose : ∀ {inner names name}, Using classes state key entry names inner → name ∈ rest →
      Name.symbolKey name ∈ classes.keys →
      Completes classes inner (Name.symbolKey name) (compose inner (Name.symbolKey name)))
    (hundeclared : ∀ {inner other}, Valid classes inner → other ∉ classes.keys →
      compose inner other = inner) :
    Using classes state key entry (names ++ rest)
      (rest.foldl (Composition.useTrait compose key) state') := by
  induction rest generalizing names state' with
  | nil => rwa [append_nil]
  | cons name rest ih =>
    rw [append_cons]
    exact ih (h.useTrait (hcompose h mem_cons_self) (hundeclared h.valid))
      fun hinner hname => hcompose hinner (mem_cons_of_mem _ hname)

theorem Using.completes (h : Using classes state key entry entry.traits state')
    (hentry : classes.get? key = some entry) :
    Completes classes state key { state' with
      visiting := state'.visiting.erase key, composed := key :: state'.composed } := by
  have hvisiting : state'.visiting.erase key = state.visiting := by
    rw [h.visiting, erase_cons_head]
  have hnodup := h.valid.nodup
  rw [h.visiting, nodup_cons] at hnodup
  have hmem : ∀ {other}, other ∈ state.visiting → other ∈ state'.visiting := fun hother =>
    h.visiting ▸ mem_cons_of_mem _ hother
  rw [hvisiting]
  refine
    { valid := { h.valid with
        nodup := hnodup.2
        declared := fun other hother => h.valid.declared (hmem hother)
        apart := fun hother hcomposed => ?_
        untouched := fun hout hother => ?_
        closed := fun hcomposed hentry' hname hdeclared => ?_
        complete := fun hcomposed => ?_ }
      later := ⟨fun other hother => mem_cons_of_mem _ (h.later.composed hother), h.later.kept⟩
      visiting := rfl
      mem := mem_cons_self }
  · rcases mem_cons.mp hcomposed with rfl | hcomposed
    · exact hnodup.1 hother
    · exact h.valid.apart (hmem hother) hcomposed
  · obtain ⟨hne, hout⟩ := not_or.mp (mt mem_cons.mpr hout)
    refine h.valid.untouched hout ?_
    rw [h.visiting]
    exact fun hother' => (mem_cons.mp hother').elim hne hother
  · refine mem_cons_of_mem _ ?_
    rcases mem_cons.mp hcomposed with rfl | hcomposed
    · obtain rfl := Option.some.inj (hentry.symm.trans hentry')
      exact h.used hname hdeclared
    · exact h.valid.closed hcomposed hentry' hname hdeclared
  · rcases mem_cons.mp hcomposed with rfl | hcomposed
    · rw [h.taken, hentry]
      rfl
    · exact h.valid.complete hcomposed

/-- **Completing a class**, with a depth for all classes that are not being completed. -/
theorem completes_compose (hacyclic : ∀ key, ¬ TransGen (Named classes .trait) key key)
    (hdepth : classes.size ≤ state.visiting.length + depth) (h : Valid classes state)
    (hkey : key ∈ classes.keys)
    (hvisiting : ∀ other ∈ state.visiting, TransGen (Named classes .trait) other key) :
    Completes classes state key (compose depth state key) := by
  have hfresh : key ∉ state.visiting := fun hmem => hacyclic key (hvisiting key hmem)
  induction depth generalizing state key with
  | zero =>
    exact absurd (Table.length_lt_size hkey hfresh h.nodup h.declared) (by omega)
  | succ depth ih =>
    unfold compose
    by_cases hcomposed : key ∈ state.composed
    · rw [if_pos (by simp [hcomposed])]
      exact ⟨h, ⟨List.Subset.refl _, fun _ => rfl⟩, rfl, hcomposed⟩
    obtain ⟨entry, hentry⟩ := Table.mem_keys_iff.mp hkey
    rw [if_neg (by simp [hcomposed, hfresh]), h.untouched hcomposed hfresh, hentry]
    refine ((using_start h hentry hcomposed hfresh).foldl_useTrait entry.traits
      (fun {inner names name} hinner hname hdeclared => ?_)
      (fun hinner hout => compose_undeclared hinner hout)).completes hentry
    obtain ⟨target, htarget⟩ := Table.mem_keys_iff.mp hdeclared
    have hnamed : Named classes .trait key (Name.symbolKey name) :=
      ⟨entry, target, hentry, htarget, mem_map_of_mem hname, by simp⟩
    have hleads : ∀ other ∈ inner.visiting,
        TransGen (Named classes .trait) other (Name.symbolKey name) := by
      rw [hinner.visiting]
      exact forall_mem_cons.mpr
        ⟨.single hnamed, fun other hother => (hvisiting other hother).tail hnamed⟩
    refine ih ?_ hinner.valid hdeclared hleads fun hmem => hacyclic _ (hleads _ hmem)
    rw [hinner.visiting, length_cons]
    omega

theorem valid_foldl_compose (hacyclic : ∀ key, ¬ TransGen (Named classes .trait) key key)
    (state : Composition) {keys : List String} (hkeys : keys ⊆ classes.keys)
    (h : Valid classes { state with visiting := [] }) :
    let final := keys.foldl
      (fun state key => compose classes.size { state with visiting := [] } key) state
    Valid classes { final with visiting := [] } ∧ state.composed ⊆ final.composed ∧
      keys ⊆ final.composed := by
  induction keys generalizing state with
  | nil => exact ⟨h, List.Subset.refl _, nil_subset _⟩
  | cons key rest ih =>
    obtain ⟨hkey, hrest⟩ := cons_subset.mp hkeys
    have hnext := completes_compose hacyclic (Nat.le_add_left _ _) h hkey (by simp)
    have hvalid := hnext.valid
    rw [foldl_cons]
    generalize compose classes.size { state with visiting := [] } key = next at hnext hvalid
    obtain ⟨hfinal, hcomposed, hall⟩ := ih next hrest { hvalid with
      nodup := nodup_nil
      declared := nil_subset _
      apart := by simp
      untouched := fun hout _ => hvalid.untouched hout (by simp [hnext.visiting]) }
    exact ⟨hfinal, fun other hother => hcomposed (hnext.later.composed hother),
      cons_subset.mpr ⟨hcomposed hnext.mem, hall⟩⟩

end Composition

theorem get?_composeAll (hacyclic : ∀ key, ¬ TransGen (Named classes .trait) key key)
    (key : String) :
    (composeAll classes).get? key = (classes.get? key).map (takeTraits (composeAll classes)) := by
  have hstart : Composition.Valid classes { classes } := by
    constructor <;> simp
  obtain ⟨hvalid, -, hall⟩ :=
    Composition.valid_foldl_compose hacyclic { classes } (List.Subset.refl classes.keys) hstart
  by_cases hkey : key ∈ classes.keys
  · exact hvalid.complete (hall hkey)
  · rw [Composition.get?_eq_none (keys_composeAll classes) hkey, Composition.get?_eq_none rfl hkey,
      Option.map_none]

theorem get?_eq_of_takeTraits (hacyclic : ∀ key, ¬ TransGen (Named classes .trait) key key)
    {a b : Classes} (ha : ∀ key, a.get? key = (classes.get? key).map (takeTraits a))
    (hb : ∀ key, b.get? key = (classes.get? key).map (takeTraits b)) : a.get? = b.get? := by
  have htargets : ∀ u v, Named classes .trait u v → v ∈ classes.keys :=
    fun u v ⟨_, target, _, htarget, _⟩ => Table.mem_keys_iff.mpr ⟨target, htarget⟩
  obtain ⟨height, hdown, -⟩ := Graph.exists_height_of_acyclic htargets hacyclic
  funext key
  induction hheight : height key using Nat.strong_induction_on generalizing key with
  | _ _ ih =>
    rw [ha, hb]
    cases hentry : classes.get? key with
    | none => rfl
    | some entry =>
      refine congrArg some (takeNamed_congr fun name hname => ?_)
      cases htarget : classes.get? (Name.symbolKey name) with
      | none => rw [ha, hb, htarget, Option.map_none, Option.map_none]
      | some target =>
        have hnamed : Named classes .trait key (Name.symbolKey name) :=
          ⟨entry, target, hentry, htarget, mem_map_of_mem hname, by simp⟩
        exact ih _ (hheight ▸ hdown _ _ hnamed) _ rfl

theorem acyclic_breakCycles (hresolved : Resolved classes) (tie : Tie) (key : String) :
    ¬ TransGen (Named (breakCycles classes).1 tie) key key := by
  refine acyclic_of_no_return (r := Steps classes) (fun u v huv => ?_) key
  obtain ⟨hnamed, hback⟩ := (named_breakCycles_iff hresolved tie u v).mp huv
  exact ⟨(step_iff hresolved u v).mpr ⟨tie, hnamed⟩, hback⟩

/-! ### Members -/

theorem get?_fillFrom {α : Type} (own other : Table α) (f : α → α) (name : String) :
    (fillFrom own other f).get? name = (own.get? name).or ((other.get? name).map f) := by
  show (other.pairs.foldl _ own).get? name = (own.get? name).or ((other.pairs.lookup name).map f)
  induction other.pairs generalizing own with
  | nil => simp
  | cons pair rest ih =>
    obtain ⟨k, v⟩ := pair
    rw [foldl_cons, ih, Table.get?_insertNew, Option.or_assoc]
    by_cases h : name = k
    · simp [h]
    · simp [h, lookup_cons, beq_eq_false_iff_ne.mpr h]

theorem get?_foldl_takeTrait {α : Type} {members : ClassEntry → Table α}
    {change : ClassEntry → ClassEntry → α → α}
    (hfill : ∀ e s, members (takeTrait e s) = fillFrom (members e) (members s) (change e s))
    (hkeep : ∀ e s, change (takeTrait e s) = change e) (sources : List ClassEntry)
    (entry : ClassEntry) (name : String) :
    (members (sources.foldl takeTrait entry)).get? name = ((members entry).get? name).or
      (sources.findSome? fun s => ((members s).get? name).map (change entry s)) := by
  induction sources generalizing entry with
  | nil => simp
  | cons source rest ih =>
    rw [foldl_cons, ih, hfill, hkeep, get?_fillFrom, Option.or_assoc, findSome?_cons]
    cases (members source).get? name <;> simp

theorem get?_constants_takeTraits (composed : Classes) (entry : ClassEntry) (name : String) :
    (takeTraits composed entry).constants.get? name =
      (entry.constants.get? name).or ((entry.traits.findSome? fun trait =>
        (composed.get? (Name.symbolKey trait)).bind (·.constants.get? name)).map fun c =>
          { c with owner := some entry.name }) := by
  rw [takeTraits, takeNamed, @get?_foldl_takeTrait _ ClassEntry.constants
    (fun e _ c => { c with owner := some e.name }) (fun _ _ => rfl) fun _ _ => rfl]
  simp only [← head?_filterMap, filterMap_filterMap, ← head?_map, map_filterMap,
    Option.map_bind, Function.comp_def]

end StubCatalog.Build
