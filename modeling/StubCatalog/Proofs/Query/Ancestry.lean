import Mathlib.Data.List.Chain
import StubCatalog.Proofs.Query.Constants

/-! # The ancestors of a class

The walk up from a class goes along its parents first, and then along the interfaces of all classes
on that line. Its two bounds never cut it short: the line has no class twice, and the interfaces
still to be looked at are those in the queue and those of the classes not met (`unmetInterfaces`).
-/

namespace StubCatalog.Catalog

open List Relation Build

variable {catalog : Catalog} {parent entry : ClassEntry} {name : String} {met : List String}
  {line : List ClassEntry}

/-- The first class has the second one as its parent. An empty name stands for no parent. -/
def HasParent (catalog : Catalog) (child parent : ClassEntry) : Prop :=
  ∃ name, child.parent = some name ∧ name ≠ "" ∧ catalog.class? name = some parent

/-- The first class names the second one as an interface. -/
def HasInterface (catalog : Catalog) (child interface : ClassEntry) : Prop :=
  ∃ name ∈ child.interfaces, catalog.class? name = some interface

/-- A class and its parents in order. The line ends at a class whose parent is missing or stands in
the line already. -/
structure IsParentLine (catalog : Catalog) (start : ClassEntry) (line : List ClassEntry) :
    Prop where
  head : line.head? = some start
  next : line.IsChain catalog.HasParent
  nodup : (line.map (·.key)).Nodup
  stops : ∀ last ∈ line.getLast?, ∀ parent, catalog.HasParent last parent → parent ∈ line

theorem parentName?_bind_eq_some_iff {child : ClassEntry} :
    child.parentName?.bind catalog.class? = some parent ↔ catalog.HasParent child parent := by
  rw [ClassEntry.parentName?, HasParent, Option.bind_eq_some_iff]
  simp only [Option.filter_eq_some_iff, bne_iff_ne, and_assoc]

theorem hasParent_of_parentOf? {child parent : Ancestor}
    (h : catalog.parentOf? child = some parent) : catalog.HasParent child.entry parent.entry := by
  obtain ⟨entry, hentry, rfl⟩ := Option.map_eq_some_iff.mp h
  exact parentName?_bind_eq_some_iff.mp hentry

theorem parentOf?_of_hasParent {child : Ancestor} (h : catalog.HasParent child.entry parent) :
    catalog.parentOf? child = some (bindAncestor child parent) := by
  rw [parentOf?, parentName?_bind_eq_some_iff.mpr h]
  rfl

theorem get?_key_of_class? (hkeyed : WellKeyed catalog.classes)
    (h : catalog.class? name = some entry) : catalog.classes.get? entry.key = some entry := by
  rw [hkeyed _ entry h]
  exact h

/-! ### The line of the parents -/

/-- The part of a line that lies above the classes met before. -/
structure IsLineAbove (catalog : Catalog) (met : List String) (line : List ClassEntry) : Prop where
  stored : ∀ entry ∈ line, catalog.classes.get? entry.key = some entry
  next : line.IsChain catalog.HasParent
  nodup : (line.map (·.key)).Nodup
  fresh : ∀ entry ∈ line, entry.key ∉ met
  stops : ∀ last ∈ line.getLast?, ∀ parent, catalog.HasParent last parent →
    parent.key ∈ met ∨ parent ∈ line

theorem isLineAbove_last (hentry : catalog.classes.get? entry.key = some entry)
    (hfresh : entry.key ∉ met)
    (hstops : ∀ parent, catalog.HasParent entry parent → parent.key ∈ entry.key :: met)
    (hkeyed : WellKeyed catalog.classes) : IsLineAbove catalog met [entry] where
  stored := by simpa using hentry
  next := .singleton _
  nodup := by simp
  fresh := by simpa using hfresh
  stops := by
    intro last hlast parent hparent
    obtain rfl : entry = last := by simpa using hlast
    rcases mem_cons.mp (hstops parent hparent) with heq | hmet
    · obtain ⟨name, -, -, hclass⟩ := hparent
      have hget := get?_key_of_class? hkeyed hclass
      rw [heq, hentry] at hget
      exact Or.inr (by simpa using (Option.some.inj hget).symm)
    · exact Or.inl hmet

theorem IsLineAbove.cons (h : IsLineAbove catalog (entry.key :: met) (parent :: line))
    (hentry : catalog.classes.get? entry.key = some entry) (hfresh : entry.key ∉ met)
    (hparent : catalog.HasParent entry parent) (hkeyed : WellKeyed catalog.classes) :
    IsLineAbove catalog met (entry :: parent :: line) where
  stored := forall_mem_cons.mpr ⟨hentry, h.stored⟩
  next := .cons_cons hparent h.next
  nodup := by
    refine nodup_cons.mpr ⟨fun hmem => ?_, h.nodup⟩
    obtain ⟨other, hother, heq⟩ := mem_map.mp hmem
    exact h.fresh other hother (by simp [heq])
  fresh := forall_mem_cons.mpr
    ⟨hfresh, fun other hother hmem => h.fresh other hother (mem_cons_of_mem _ hmem)⟩
  stops := by
    intro last hlast above habove
    rw [getLast?_cons_cons] at hlast
    rcases h.stops last hlast above habove with hmet | hline
    · rcases mem_cons.mp hmet with heq | hmet
      · obtain ⟨name, -, -, hclass⟩ := habove
        have hget := get?_key_of_class? hkeyed hclass
        rw [heq, hentry] at hget
        exact Or.inr (by simp [Option.some.inj hget])
      · exact Or.inl hmet
    · exact Or.inr (mem_cons_of_mem _ hline)

theorem exists_depth_of_fresh {depth : Nat} (hentry : catalog.classes.get? entry.key = some entry)
    (hfresh : entry.key ∉ met) (hnodup : met.Nodup) (hmet : met ⊆ catalog.classes.keys)
    (hroom : catalog.classes.size ≤ met.length + depth) : ∃ rest, depth = rest + 1 := by
  have hlength : met.length < catalog.classes.size :=
    Table.length_lt_size (Table.mem_keys_iff.mpr ⟨entry, hentry⟩) hfresh hnodup hmet
  exact ⟨depth - 1, by omega⟩

theorem parentChain_of_met {depth : Nat} {start : Ancestor} (h : start.entry.key ∈ met) :
    catalog.parentChain depth met start = [] := by
  cases depth with
  | zero => rfl
  | succ depth => rw [parentChain, if_pos (contains_iff_mem.mpr h)]

theorem isLineAbove_parentChain (hkeyed : WellKeyed catalog.classes) (depth : Nat)
    (met : List String) (start : Ancestor)
    (hstart : catalog.classes.get? start.entry.key = some start.entry)
    (hfresh : start.entry.key ∉ met) (hnodup : met.Nodup) (hmet : met ⊆ catalog.classes.keys)
    (hroom : catalog.classes.size ≤ met.length + depth) :
    ∃ rest, catalog.parentChain depth met start = start :: rest ∧
      IsLineAbove catalog met (start.entry :: rest.map (·.entry)) := by
  induction depth generalizing met start with
  | zero =>
    obtain ⟨rest, hrest⟩ := exists_depth_of_fresh hstart hfresh hnodup hmet hroom
    cases hrest
  | succ depth ih =>
    have hstep : catalog.parentChain (depth + 1) met start =
        start :: ((catalog.parentOf? start).map
          (catalog.parentChain depth (start.entry.key :: met))).getD [] := by
      rw [parentChain, if_neg (by simpa using hfresh)]
      cases catalog.parentOf? start <;> rfl
    cases hparent : catalog.parentOf? start with
    | none =>
      rw [hparent] at hstep
      refine ⟨[], hstep, isLineAbove_last hstart hfresh (fun parent h => ?_) hkeyed⟩
      rw [parentOf?_of_hasParent h] at hparent
      cases hparent
    | some parent =>
      rw [hparent, Option.map_some, Option.getD_some] at hstep
      have hup := hasParent_of_parentOf? hparent
      by_cases hcut : parent.entry.key ∈ start.entry.key :: met
      · rw [parentChain_of_met hcut] at hstep
        refine ⟨[], hstep, isLineAbove_last hstart hfresh (fun other h => ?_) hkeyed⟩
        rw [parentOf?_of_hasParent h] at hparent
        obtain rfl := Option.some.inj hparent
        exact hcut
      · obtain ⟨name, -, -, hclass⟩ := hup
        obtain ⟨rest, hrest, hline⟩ := ih (start.entry.key :: met) parent
          (get?_key_of_class? hkeyed hclass) hcut (nodup_cons.mpr ⟨hfresh, hnodup⟩)
          (cons_subset.mpr ⟨Table.mem_keys_iff.mpr ⟨_, hstart⟩, hmet⟩)
          (by rw [length_cons]; omega)
        rw [hrest] at hstep
        exact ⟨parent :: rest, hstep,
          hline.cons hstart hfresh (hasParent_of_parentOf? hparent) hkeyed⟩

theorem IsLineAbove.isParentLine {start : ClassEntry} (h : IsLineAbove catalog [] (start :: line)) :
    IsParentLine catalog start (start :: line) where
  head := rfl
  next := h.next
  nodup := h.nodup
  stops last hlast parent hparent := (h.stops last hlast parent hparent).resolve_left (by simp)

/-! ### The walk along the interfaces -/

/-- What holds of the declared interfaces in the queue, and passes from a class to its interfaces,
holds of all that are found. -/
theorem interfaceWalk_sound {P : ClassEntry → Prop}
    (hstep : ∀ a b, P a → catalog.HasInterface a b → P b) (steps : Nat) (met : List String)
    (queue : List (Ancestor × String))
    (hqueue : ∀ item ∈ queue, ∀ entry, catalog.class? item.2 = some entry → P entry) :
    ∀ found ∈ catalog.interfaceWalk steps met queue, P found.entry := by
  fun_induction interfaceWalk catalog steps met queue with
  | case1 | case2 => simp
  | case3 steps met child name queue hnone ih =>
    exact ih (forall_mem_cons.mp hqueue).2
  | case4 steps met child name queue entry hentry hmet ih =>
    exact ih (forall_mem_cons.mp hqueue).2
  | case5 steps met child name queue entry hentry hmet found ih =>
    obtain ⟨hhead, hrest⟩ := forall_mem_cons.mp hqueue
    refine forall_mem_cons.mpr ⟨hhead entry hentry, ih fun item hitem other hother => ?_⟩
    rcases mem_append.mp hitem with hitem | hitem
    · exact hrest item hitem other hother
    · obtain ⟨interface, hinterface, rfl⟩ := mem_map.mp hitem
      exact hstep entry other (hhead entry hentry) ⟨interface, hinterface, hother⟩

theorem interfaceWalk_fresh (steps : Nat) (met : List String) (queue : List (Ancestor × String)) :
    ((catalog.interfaceWalk steps met queue).map (·.entry.key)).Nodup ∧
      ∀ found ∈ catalog.interfaceWalk steps met queue, found.entry.key ∉ met := by
  fun_induction interfaceWalk catalog steps met queue with
  | case1 | case2 => simp
  | case3 steps met child name queue hnone ih => exact ih
  | case4 steps met child name queue entry hentry hmet ih => exact ih
  | case5 steps met child name queue entry hentry hmet found ih =>
    obtain ⟨hnodup, hfresh⟩ := ih
    refine ⟨nodup_cons.mpr ⟨fun hmem => ?_, hnodup⟩, forall_mem_cons.mpr
      ⟨fun hmem => hmet (contains_iff_mem.mpr hmem), fun other hother hmem => ?_⟩⟩
    · obtain ⟨other, hother, heq⟩ := mem_map.mp hmem
      exact hfresh other hother (by rw [heq]; exact mem_cons_self)
    · exact hfresh other hother (mem_cons_of_mem _ hmem)

/-- The number of interfaces named by those of the classes that were not met. -/
def unmetInterfaces (classes : List ClassEntry) (met : List String) : Nat :=
  (classes.map fun entry => if entry.key ∈ met then 0 else entry.interfaces.length).sum

theorem unmetInterfaces_cons {classes : List ClassEntry} (hnodup : (classes.map (·.key)).Nodup)
    (hentry : entry ∈ classes) (hfresh : entry.key ∉ met) :
    entry.interfaces.length + unmetInterfaces classes (entry.key :: met) =
      unmetInterfaces classes met := by
  induction classes with
  | nil => cases hentry
  | cons first rest ih =>
    obtain ⟨hfirst, hrest⟩ := nodup_cons.mp hnodup
    simp only [unmetInterfaces, map_cons, sum_cons] at ih ⊢
    rcases mem_cons.mp hentry with rfl | hentry
    · have hsame : (rest.map fun other =>
          if other.key ∈ entry.key :: met then 0 else other.interfaces.length) =
          rest.map fun other => if other.key ∈ met then 0 else other.interfaces.length := by
        refine map_congr_left fun other hother => ?_
        have hne : other.key ≠ entry.key := fun heq =>
          hfirst (mem_map.mpr ⟨other, hother, heq⟩)
        simp [hne]
      rw [hsame, if_pos mem_cons_self, if_neg hfresh]
      omega
    · have hne : first.key ≠ entry.key := fun heq =>
        hfirst (mem_map.mpr ⟨entry, hentry, heq.symm⟩)
      have := ih hrest hentry
      simp only [mem_cons, hne, false_or] at this ⊢
      omega

theorem unmetInterfaces_line {classes : List ClassEntry} (hnodup : (classes.map (·.key)).Nodup)
    (hline : (line.map (·.key)).Nodup) (hsubset : line ⊆ classes) :
    (line.flatMap (·.interfaces)).length + unmetInterfaces classes (line.map (·.key)) =
      unmetInterfaces classes [] := by
  induction line with
  | nil => simp
  | cons entry rest ih =>
    obtain ⟨hfresh, hrest⟩ := nodup_cons.mp hline
    obtain ⟨hentry, hsubset⟩ := cons_subset.mp hsubset
    have hstep := unmetInterfaces_cons hnodup hentry hfresh
    have := ih hrest hsubset
    rw [flatMap_cons, length_append, map_cons]
    omega

/-- With enough steps left for the queue and the classes not met, everything that the queue and the
classes found name is met before or found. -/
theorem interfaceWalk_complete
    (hnodup : (catalog.classes.values.map (·.key)).Nodup) (steps : Nat) (met : List String)
    (queue : List (Ancestor × String))
    (hsteps : queue.length + unmetInterfaces catalog.classes.values met ≤ steps) :
    (∀ item ∈ queue, ∀ entry, catalog.class? item.2 = some entry →
      entry.key ∈ met ∨ entry ∈ (catalog.interfaceWalk steps met queue).map (·.entry)) ∧
    ∀ found ∈ catalog.interfaceWalk steps met queue, ∀ entry,
      catalog.HasInterface found.entry entry →
        entry.key ∈ met ∨ entry ∈ (catalog.interfaceWalk steps met queue).map (·.entry) := by
  fun_induction interfaceWalk catalog steps met queue with
  | case1 met queue =>
    obtain rfl : queue = [] := eq_nil_of_length_eq_zero (by omega)
    simp
  | case2 => simp
  | case3 steps met child name queue hnone ih =>
    obtain ⟨hqueue, hfound⟩ := ih (by rw [length_cons] at hsteps; omega)
    refine ⟨forall_mem_cons.mpr ⟨fun entry hentry => ?_, hqueue⟩, hfound⟩
    rw [hnone] at hentry
    cases hentry
  | case4 steps met child name queue entry hentry hmet ih =>
    obtain ⟨hqueue, hfound⟩ := ih (by rw [length_cons] at hsteps; omega)
    refine ⟨forall_mem_cons.mpr ⟨fun other hother => ?_, hqueue⟩, hfound⟩
    obtain rfl := Option.some.inj (hentry.symm.trans hother)
    exact Or.inl (contains_iff_mem.mp hmet)
  | case5 steps met child name queue entry hentry hmet found ih =>
    have hmem : entry ∈ catalog.classes.values :=
      mem_map.mpr ⟨_, Table.mem_pairs_iff.mpr hentry, rfl⟩
    have hfresh : entry.key ∉ met := by simpa using hmet
    have hcount := unmetInterfaces_cons hnodup hmem hfresh
    have hlength : (interfacesOf found).length = entry.interfaces.length := length_map ..
    obtain ⟨hqueue, hfound⟩ := ih (by
      rw [length_cons] at hsteps
      rw [length_append, hlength]
      omega)
    -- The class just found counts as met for the rest of the walk.
    have hpass : ∀ other : ClassEntry,
        other ∈ catalog.classes.values → other.key ∈ entry.key :: met ∨
          other ∈ (catalog.interfaceWalk steps (entry.key :: met)
            (queue ++ interfacesOf found)).map (·.entry) →
        other.key ∈ met ∨ other ∈ (found :: catalog.interfaceWalk steps (entry.key :: met)
          (queue ++ interfacesOf found)).map (·.entry) := by
      rintro other hother (hkey | hrest)
      · rcases mem_cons.mp hkey with heq | hkey
        · refine Or.inr ?_
          rw [map_cons]
          exact mem_cons.mpr (Or.inl (inj_on_of_nodup_map hnodup hother hmem heq))
        · exact Or.inl hkey
      · exact Or.inr (mem_cons_of_mem _ hrest)
    have hdeclared : ∀ name other, catalog.class? name = some other →
        other ∈ catalog.classes.values := fun name other hother =>
      mem_map.mpr ⟨_, Table.mem_pairs_iff.mpr hother, rfl⟩
    refine ⟨forall_mem_cons.mpr ⟨fun other hother => ?_, fun item hitem other hother => ?_⟩,
      forall_mem_cons.mpr ⟨fun other hother => ?_, fun found' hfound' other hother => ?_⟩⟩
    · obtain rfl := Option.some.inj (hentry.symm.trans hother)
      exact Or.inr mem_cons_self
    · exact hpass other (hdeclared _ _ hother)
        (hqueue item (mem_append_left _ hitem) other hother)
    · obtain ⟨interface, hinterface, hother⟩ := hother
      exact hpass other (hdeclared _ _ hother) (hqueue (found, interface)
        (mem_append_right _ (mem_map_of_mem hinterface)) other hother)
    · obtain ⟨interface, hinterface, hclass⟩ := id hother
      exact hpass other (hdeclared _ _ hclass) (hfound found' hfound' other hother)

/-! ### The whole walk -/

theorem nodup_keys_values (hkeyed : WellKeyed catalog.classes) :
    (catalog.classes.values.map (·.key)).Nodup := by
  have hkeys : catalog.classes.values.map (·.key) = catalog.classes.keys := by
    rw [Table.values, Table.keys, List.map_map]
    exact map_congr_left fun pair hpair =>
      hkeyed pair.1 pair.2 (Table.mem_pairs_iff.mp hpair)
  rw [hkeys]
  exact catalog.classes.nodup_keys

theorem unmetInterfaces_nil :
    unmetInterfaces catalog.classes.values [] = catalog.interfaceCount := by
  simp [unmetInterfaces, interfaceCount, length_flatMap]

theorem mem_interfaceWalk_line_iff (hkeyed : WellKeyed catalog.classes) {chain : List Ancestor}
    (hchain : IsLineAbove catalog [] (chain.map (·.entry))) :
    entry ∈ (catalog.interfaceWalk catalog.interfaceCount (chain.map (·.entry.key))
        (chain.flatMap interfacesOf)).map (·.entry) ↔
      entry ∉ chain.map (·.entry) ∧
        ∃ start ∈ chain.map (·.entry), TransGen catalog.HasInterface start entry := by
  have hmet : chain.map (·.entry.key) = (chain.map (·.entry)).map (·.key) := by
    rw [List.map_map]
    rfl
  have hvalues : chain.map (·.entry) ⊆ catalog.classes.values := fun e he =>
    mem_map.mpr ⟨_, Table.mem_pairs_iff.mpr (hchain.stored e he), rfl⟩
  have hqueue : (chain.flatMap interfacesOf).length =
      ((chain.map (·.entry)).flatMap (·.interfaces)).length := by
    simp [List.length_flatMap, interfacesOf, List.map_map, Function.comp_def]
  have hsteps : (chain.flatMap interfacesOf).length +
      unmetInterfaces catalog.classes.values (chain.map (·.entry.key)) ≤
        catalog.interfaceCount := by
    have hcount := unmetInterfaces_line (nodup_keys_values hkeyed) hchain.nodup hvalues
    rw [hqueue, hmet, hcount, unmetInterfaces_nil]
  obtain ⟨hnamed, hclosed⟩ := interfaceWalk_complete (nodup_keys_values hkeyed) _ _ _ hsteps
  -- A class with the key of a class of the line is that class.
  have hline : ∀ name other, catalog.class? name = some other →
      other.key ∈ chain.map (·.entry.key) → other ∈ chain.map (·.entry) := by
    intro name other hother hkey
    obtain ⟨ancestor, hancestor, heq⟩ := mem_map.mp hkey
    have hstored := hchain.stored _ (mem_map_of_mem hancestor)
    rw [heq, get?_key_of_class? hkeyed hother] at hstored
    exact Option.some.inj hstored ▸ mem_map_of_mem hancestor
  constructor
  · intro hentry
    obtain ⟨found, hfound, rfl⟩ := mem_map.mp hentry
    have hstep : ∀ a b : ClassEntry,
        (∃ start ∈ chain.map (·.entry), TransGen catalog.HasInterface start a) →
        catalog.HasInterface a b →
        ∃ start ∈ chain.map (·.entry), TransGen catalog.HasInterface start b := by
      rintro a b ⟨start, hstart, ha⟩ hab
      exact ⟨start, hstart, ha.tail hab⟩
    refine ⟨fun hmem => ?_, interfaceWalk_sound hstep _ _ _ (fun item hitem e he => ?_) found
      hfound⟩
    · refine (interfaceWalk_fresh _ _ _).2 found hfound ?_
      rw [hmet]
      exact mem_map_of_mem hmem
    · obtain ⟨child, hchild, hitem⟩ := mem_flatMap.mp hitem
      obtain ⟨name, hname, rfl⟩ := mem_map.mp hitem
      exact ⟨child.entry, mem_map_of_mem hchild, .single ⟨name, hname, he⟩⟩
  · rintro ⟨hout, start, hstart, hpath⟩
    -- Along the path every class is in the line or found.
    have hfrom : ∀ a b, a ∈ chain.map (·.entry) → catalog.HasInterface a b →
        b ∈ chain.map (·.entry) ∨ b ∈ (catalog.interfaceWalk catalog.interfaceCount
          (chain.map (·.entry.key)) (chain.flatMap interfacesOf)).map (·.entry) := by
      rintro a b ha ⟨name, hname, hb⟩
      obtain ⟨child, hchild, rfl⟩ := mem_map.mp ha
      exact (hnamed (child, name) (mem_flatMap.mpr ⟨child, hchild,
        mem_map_of_mem hname⟩) b hb).imp_left (hline name b hb)
    refine Or.resolve_left ?_ hout
    induction hpath with
    | single hab => exact hfrom _ _ hstart hab
    | @tail a b _ hab ih =>
      by_cases ha : a ∈ chain.map (·.entry)
      · exact hfrom _ _ ha hab
      · obtain ⟨found, hfound, rfl⟩ := mem_map.mp (ih ha |>.resolve_left ha)
        obtain ⟨name, -, hb⟩ := id hab
        exact (hclosed found hfound b hab).imp_left (hline name b hb)

theorem exists_chain_ancestry (hkeyed : WellKeyed catalog.classes)
    (hclass : catalog.class? name = some entry) :
    ∃ rest, IsLineAbove catalog [] (((⟨entry, {}⟩ :: rest : List Ancestor)).map (·.entry)) ∧
      catalog.ancestry name = (⟨entry, {}⟩ :: rest) ++
        catalog.interfaceWalk catalog.interfaceCount ((⟨entry, {}⟩ :: rest).map (·.entry.key))
          ((⟨entry, {}⟩ :: rest).flatMap interfacesOf) := by
  obtain ⟨rest, hrest, hline⟩ := isLineAbove_parentChain hkeyed catalog.classes.size []
    ⟨entry, {}⟩ (get?_key_of_class? hkeyed hclass) (by simp) (by simp) (by simp) (by simp)
  refine ⟨rest, hline, ?_⟩
  rw [ancestry, hclass]
  simp only [hrest]

theorem nodup_keys_ancestry (hkeyed : WellKeyed catalog.classes)
    (hclass : catalog.class? name = some entry) :
    (((catalog.ancestry name).map (·.entry)).map (·.key)).Nodup := by
  obtain ⟨rest, hline, hancestry⟩ := exists_chain_ancestry hkeyed hclass
  obtain ⟨hnodup, hfresh⟩ := @interfaceWalk_fresh catalog catalog.interfaceCount
    ((⟨entry, {}⟩ :: rest).map (·.entry.key)) ((⟨entry, {}⟩ :: rest).flatMap interfacesOf)
  rw [hancestry, List.map_map, List.map_append, List.nodup_append]
  refine ⟨by simpa only [List.map_map] using hline.nodup, hnodup, ?_⟩
  rintro key hkey _ hkey' rfl
  obtain ⟨found, hfound, rfl⟩ := mem_map.mp hkey'
  exact hfresh found hfound hkey

theorem isSubclass_iff (hkeyed : WellKeyed catalog.classes)
    (hclass : catalog.class? name = some entry) (other : String) :
    catalog.isSubclass name other ↔
      ∃ e ∈ (catalog.ancestry name).map (·.entry), e.key = Name.symbolKey other := by
  obtain ⟨rest, hrest⟩ := exists_ancestry_eq hclass
  have hkey : entry.key = Name.symbolKey name := hkeyed _ entry hclass
  rw [isSubclass, ancestors, hrest, ← hkey]
  simp [ClassEntry.key]

/-- **The walk up from a class is exact.** In a catalog that keeps classes under the keys of their
names, it consists of the line of parents and then of the classes that the interfaces of this line
reach, each class once; the ancestors of the class are these without itself, and it is a subclass of
just these and of itself. -/
theorem ancestry_exact (hkeyed : WellKeyed catalog.classes) {name : String} {entry : ClassEntry}
    (hclass : catalog.class? name = some entry) :
    ∃ line interfaces : List ClassEntry,
      (catalog.ancestry name).map (·.entry) = line ++ interfaces ∧
      ((line ++ interfaces).map (·.key)).Nodup ∧
      IsParentLine catalog entry line ∧
      (∀ e, e ∈ interfaces ↔
        e ∉ line ∧ ∃ start ∈ line, TransGen catalog.HasInterface start e) ∧
      catalog.ancestors name = (line.tail ++ interfaces).map (·.name) ∧
      ∀ other, catalog.isSubclass name other = true ↔
        ∃ e ∈ line ++ interfaces, e.key = Name.symbolKey other := by
  obtain ⟨rest, hline, hancestry⟩ := exists_chain_ancestry hkeyed hclass
  have hparts := congrArg (List.map (·.entry)) hancestry
  rw [map_append] at hparts
  refine ⟨_, _, hparts, ?_, hline.isParentLine, fun e => mem_interfaceWalk_line_iff hkeyed hline,
    ?_, fun other => ?_⟩
  · rw [← hparts]
    exact nodup_keys_ancestry hkeyed hclass
  · rw [ancestors, hancestry]
    simp [Function.comp_def]
  · rw [← hparts]
    exact isSubclass_iff hkeyed hclass other

/-- Two classes that extend each other, and two interfaces that extend each other, one of which also
names a class that is not there. -/
def tangle : Catalog where
  classes.pairs := [("a", { heir "A" "B" with interfaces := ["I"] }), ("b", heir "B" "A"),
    ("i", { heir "I" "" with interfaces := ["J", "Gone"] }),
    ("j", { heir "J" "" with interfaces := ["I", "A"] })]
  classes.nodup := by decide

theorem ancestry_exact_tangle : WellKeyed tangle.classes ∧
    ∃ entry line interfaces, tangle.class? "A" = some entry ∧
      (line ++ interfaces).map (·.name) = ["A", "B", "I", "J"] ∧
      IsParentLine tangle entry line ∧
      (∀ e, e ∈ interfaces ↔
        e ∉ line ∧ ∃ start ∈ line, TransGen tangle.HasInterface start e) ∧
      tangle.ancestors "A" = (line.tail ++ interfaces).map (·.name) ∧
      ∀ other, tangle.isSubclass "A" other = true ↔
        ∃ e ∈ line ++ interfaces, e.key = Name.symbolKey other := by
  obtain ⟨hkeyed, hclass, hnames⟩ : WellKeyed tangle.classes ∧ (tangle.class? "A").isSome ∧
      ((tangle.ancestry "A").map (·.entry)).map (·.name) = ["A", "B", "I", "J"] := by
    decide
  obtain ⟨entry, hentry⟩ := Option.isSome_iff_exists.mp hclass
  obtain ⟨line, interfaces, hparts, -, hline, hinterfaces, hancestors, hsubclass⟩ :=
    ancestry_exact hkeyed hentry
  exact ⟨hkeyed, entry, line, interfaces, hentry, hparts ▸ hnames, hline, hinterfaces, hancestors,
    hsubclass⟩

/-- A parent with the empty name is not followed, though a class of that name is there. -/
theorem ancestors_stop_at_nameless : WellKeyed namelessCycle ∧
      (({ classes := namelessCycle } : Catalog).class? "A").map (·.parent) = some (some "") ∧
      (({ classes := namelessCycle } : Catalog).class? "").map (·.name) = some "" ∧
      ({ classes := namelessCycle } : Catalog).ancestors "A" = [] ∧
      ({ classes := namelessCycle } : Catalog).isSubclass "A" "" = false := by
  decide

end StubCatalog.Catalog
