import StubCatalog.Proofs.Build.Completed

/-! # The index of namespaces

A step puts one declaration in its place and leaves the other places as they are
(`listedAt_listUnder`); a run over declarations in different places lists them all (`Lists.run`). No
two entries of a table have one place, so the index mirrors the tables (`Mirrors`). -/

namespace StubCatalog.Table

open List

theorem sum_values_insert {α : Type} (t : Table α) (f : α → Nat) (key : String) (value : α) :
    ((t.insert key value).values.map f).sum + (t.get? key).elim 0 f =
      (t.values.map f).sum + f value := by
  show (((putPair t.pairs key value).map Prod.snd).map f).sum + (t.pairs.lookup key).elim 0 f =
    ((t.pairs.map Prod.snd).map f).sum + f value
  induction t.pairs with
  | nil => simp [putPair]
  | cons pair rest ih =>
    obtain ⟨k, v⟩ := pair
    by_cases h : k = key
    · subst h
      simp [putPair]
      omega
    · simp only [putPair, if_neg h, map_cons, sum_cons, lookup_cons,
        beq_eq_false_iff_ne.mpr (Ne.symm h)]
      omega

theorem size_insert_of_notMem {α : Type} {t : Table α} {key : String} {value : α}
    (h : t.get? key = none) : (t.insert key value).size = t.size + 1 := by
  have hkey : key ∉ t.keys := fun hmem => by
    obtain ⟨old, hold⟩ := mem_keys_iff.mp hmem
    rw [h] at hold
    cases hold
  rw [size, pairs_insert_of_notMem hkey, length_append, length_singleton, size]

theorem nodup_map_values {α β : Type} {t : Table α} {f : α → β} {k : β → String}
    (h : t.Holds fun key value => k (f value) = key) : (t.values.map f).Nodup := by
  have hkeys : (t.values.map f).map k = t.keys := by
    rw [values, keys, map_map, map_map]
    exact map_congr_left fun pair hpair => h pair.1 pair.2 (mem_pairs_iff.mp hpair)
  exact .of_map k (hkeys ▸ t.nodup_keys)

end StubCatalog.Table

namespace StubCatalog

open List

namespace Build

/-! ### Places -/

/-- The place of a declaration in the index: its namespace in lower case, and its short name in the
given casing. -/
def place (casing : String → String) (d : Declaration) : String × String :=
  (Text.lower (Name.split d.qualifiedName).1, casing (Name.split d.qualifiedName).2)

/-- The declaration in a place of one part of the index. -/
def listedAt (part : Namespace → Table Declaration) (index : Table Namespace)
    (place : String × String) : Option Declaration :=
  (index.get? place.1).bind fun space => (part space).get? place.2

/-- The number of declarations in one part of the index. -/
def listedCount (part : Namespace → Table Declaration) (index : Table Namespace) : Nat :=
  (index.values.map fun space => (part space).size).sum

/-- The namespace of a declaration, as far as it is filled. -/
def spaceOf (index : Table Namespace) (d : Declaration) : Namespace :=
  (index.get? (Text.lower (Name.split d.qualifiedName).1)).getD
    { name := (Name.split d.qualifiedName).1 }

section
variable {put : Namespace → String → Declaration → Namespace} {casing : String → String}
  {part : Namespace → Table Declaration}

theorem get?_part_spaceOf (hempty : ∀ name, part { name } = {}) (index : Table Namespace)
    (d : Declaration) (short : String) :
    (part (spaceOf index d)).get? short =
      listedAt part index (Text.lower (Name.split d.qualifiedName).1, short) := by
  unfold spaceOf listedAt
  cases index.get? (Text.lower (Name.split d.qualifiedName).1) with
  | none =>
    rw [Option.getD_none, hempty]
    rfl
  | some space => rfl

theorem listedAt_listUnder (index : Table Namespace) (d : Declaration) (p : String × String) :
    listedAt part (listUnder put index d) p =
      if p.1 = Text.lower (Name.split d.qualifiedName).1 then
        (part (put (spaceOf index d) (Name.split d.qualifiedName).2 d)).get? p.2
      else listedAt part index p := by
  have hlist : listUnder put index d = index.insert (Text.lower (Name.split d.qualifiedName).1)
      (put (spaceOf index d) (Name.split d.qualifiedName).2 d) := rfl
  rw [hlist, listedAt, Table.get?_insert]
  by_cases hspace : p.1 = Text.lower (Name.split d.qualifiedName).1
  · rw [if_pos hspace, if_pos hspace, Option.bind_some]
  · rw [if_neg hspace, if_neg hspace, listedAt]

theorem listedCount_listUnder (put : Namespace → String → Declaration → Namespace)
    (hempty : ∀ name, part { name } = {}) (index : Table Namespace)
    (d : Declaration) :
    listedCount part (listUnder put index d) + (part (spaceOf index d)).size =
      listedCount part index +
        (part (put (spaceOf index d) (Name.split d.qualifiedName).2 d)).size := by
  have hsize : (part (spaceOf index d)).size =
      (index.get? (Text.lower (Name.split d.qualifiedName).1)).elim 0
        fun space => (part space).size := by
    unfold spaceOf
    cases index.get? (Text.lower (Name.split d.qualifiedName).1) with
    | none =>
      rw [Option.getD_none, hempty]
      rfl
    | some space => rfl
  rw [hsize]
  exact index.sum_values_insert (fun space => (part space).size) _ _

/-- The change lists a declaration under its short name in this part. -/
def PutsIn (casing : String → String) (part : Namespace → Table Declaration)
    (put : Namespace → String → Declaration → Namespace) : Prop :=
  ∀ space short d, part (put space short d) = (part space).insert (casing short) d

/-- The change is about another part. -/
def LeavesPart (part : Namespace → Table Declaration)
    (put : Namespace → String → Declaration → Namespace) : Prop :=
  ∀ space short d, part (put space short d) = part space

theorem PutsIn.listedAt (hput : PutsIn casing part put) (hempty : ∀ name, part { name } = {})
    (index : Table Namespace) (d : Declaration) (p : String × String) :
    listedAt part (listUnder put index d) p =
      if p = place casing d then some d else listedAt part index p := by
  obtain ⟨space, short⟩ := p
  rw [listedAt_listUnder, hput, Table.get?_insert, get?_part_spaceOf hempty]
  by_cases hspace : space = Text.lower (Name.split d.qualifiedName).1
  · simp [place, hspace]
  · simp [place, hspace]

theorem LeavesPart.listedAt (hput : LeavesPart part put) (hempty : ∀ name, part { name } = {})
    (index : Table Namespace) (d : Declaration) (p : String × String) :
    listedAt part (listUnder put index d) p = listedAt part index p := by
  rw [listedAt_listUnder, hput, get?_part_spaceOf hempty]
  split
  · next hspace => rw [← hspace]
  · rfl

/-! ### Lists of declarations -/

/-- This part of the index lists the declarations, each in its place, and no others. -/
structure Lists (casing : String → String) (part : Namespace → Table Declaration)
    (ds : List Declaration) (index : Table Namespace) : Prop where
  /-- A namespace starts empty. -/
  empty : ∀ name, part { name } = {}
  at_iff : ∀ p d, listedAt part index p = some d ↔ d ∈ ds ∧ place casing d = p
  count : listedCount part index = ds.length

variable {ds : List Declaration} {index : Table Namespace}

theorem Lists.step (h : Lists casing part ds index) (hput : PutsIn casing part put)
    {d : Declaration} (hfree : place casing d ∉ ds.map (place casing)) :
    Lists casing part (ds ++ [d]) (listUnder put index d) where
  empty := h.empty
  at_iff p other := by
    rw [hput.listedAt h.empty, mem_append, mem_singleton]
    by_cases hp : p = place casing d
    · subst hp
      rw [if_pos rfl, Option.some_inj]
      constructor
      · rintro rfl
        exact ⟨.inr rfl, rfl⟩
      · rintro ⟨hother | rfl, hplace⟩
        · exact absurd (hplace ▸ mem_map_of_mem hother) hfree
        · rfl
    · rw [if_neg hp, h.at_iff]
      constructor
      · rintro ⟨hother, hplace⟩
        exact ⟨.inl hother, hplace⟩
      · rintro ⟨hother | rfl, hplace⟩
        · exact ⟨hother, hplace⟩
        · exact absurd hplace.symm hp
  count := by
    have hnone : (part (spaceOf index d)).get? (casing (Name.split d.qualifiedName).2) = none := by
      rw [get?_part_spaceOf h.empty, Option.eq_none_iff_forall_not_mem]
      intro other hother
      obtain ⟨hmem, hplace⟩ := (h.at_iff _ _).mp hother
      exact hfree (mem_map.mpr ⟨other, hmem, hplace⟩)
    have hcount := listedCount_listUnder put h.empty index d
    rw [hput, Table.size_insert_of_notMem hnone, h.count] at hcount
    rw [length_append, length_singleton]
    omega

theorem Lists.run (h : Lists casing part ds index)
    (put : Namespace → String → Declaration → Namespace) (hput : PutsIn casing part put)
    {rest : List Declaration} (hnodup : ((ds ++ rest).map (place casing)).Nodup) :
    Lists casing part (ds ++ rest) (rest.foldl (listUnder put) index) := by
  induction rest generalizing ds index with
  | nil => simpa using h
  | cons d rest ih =>
    rw [append_cons] at hnodup ⊢
    refine ih (h.step hput fun hmem => ?_) hnodup
    rw [map_append, map_append, nodup_append, nodup_append] at hnodup
    exact hnodup.1.2.2 _ hmem _ (by simp) rfl

theorem Lists.skip (h : Lists casing part ds index)
    (put : Namespace → String → Declaration → Namespace) (hput : LeavesPart part put)
    (rest : List Declaration) : Lists casing part ds (rest.foldl (listUnder put) index) := by
  induction rest generalizing index with
  | nil => exact h
  | cons d rest ih =>
    refine ih ⟨h.empty, fun p other => ?_, ?_⟩
    · rw [hput.listedAt h.empty, h.at_iff]
    · have hcount := listedCount_listUnder put h.empty index d
      rw [hput, h.count] at hcount
      omega

end

/-! ### Mirrored tables -/

/-- **The index mirrors a table**: it has a declaration in a place exactly if the table has an entry
with this declaration and place, different entries are in different places, and it lists as many
declarations as there are entries. -/
structure Mirrors {α : Type} (casing : String → String) (part : Namespace → Table Declaration)
    (declaration : α → Declaration) (t : Table α) (index : Table Namespace) : Prop where
  listed_iff : ∀ space short d,
    (index.get? space).bind (fun n => (part n).get? short) = some d ↔
      ∃ key entry, t.get? key = some entry ∧ declaration entry = d ∧
        Text.lower (Name.split d.qualifiedName).1 = space ∧
        casing (Name.split d.qualifiedName).2 = short
  apart : ∀ key key' entry entry', t.get? key = some entry → t.get? key' = some entry' →
    place casing (declaration entry) = place casing (declaration entry') → key = key'
  count : (index.values.map fun n => (part n).size).sum = t.size

section
variable {α : Type} {casing : String → String} {part : Namespace → Table Declaration}
  {declaration : α → Declaration} {t : Table α}

/-- Every entry is found under its place, namespace and short name joined. -/
def IsPlaced (casing : String → String) (declaration : α → Declaration) (t : Table α) : Prop :=
  t.Holds fun key entry =>
    Name.join (place casing (declaration entry)).1 (place casing (declaration entry)).2 = key

theorem IsPlaced.nodup (h : IsPlaced casing declaration t) :
    ((t.values.map declaration).map (place casing)).Nodup := by
  rw [map_map]
  exact Table.nodup_map_values (k := fun p : String × String => Name.join p.1 p.2) h

theorem Lists.mirrors {index : Table Namespace}
    (hlists : Lists casing part (t.values.map declaration) index)
    (h : IsPlaced casing declaration t) :
    Mirrors casing part declaration t index where
  listed_iff space short d := by
    refine (hlists.at_iff (space, short) d).trans ?_
    rw [mem_map, place, Prod.mk.injEq]
    constructor
    · rintro ⟨⟨entry, hentry, hd⟩, hplace⟩
      obtain ⟨⟨key, value⟩, hpair, rfl⟩ := mem_map.mp hentry
      exact ⟨key, value, Table.mem_pairs_iff.mp hpair, hd, hplace⟩
    · rintro ⟨key, entry, hentry, hd, hplace⟩
      exact ⟨⟨entry, Table.mem_values hentry, hd⟩, hplace⟩
  apart key key' entry entry' hentry hentry' hplace := by
    rw [← h key entry hentry, ← h key' entry' hentry', hplace]
  count := by
    have hcount := hlists.count
    rwa [length_map, Table.values, length_map] at hcount

end

theorem lists_start {casing : String → String} {part : Namespace → Table Declaration}
    (hempty : ∀ name, part { name } = {}) :
    Lists casing part [] (Table.ofList [("", { name := "" })]) where
  empty := hempty
  at_iff p d := by
    have hnone : listedAt part (Table.ofList [("", { name := "" })]) p = none := by
      show (((Table.empty : Table Namespace).insert "" { name := "" }).get? p.1).bind _ = none
      rw [Table.get?_insert]
      split
      · rw [Option.bind_some, hempty]
        rfl
      · rfl
    simp [hnone]
  count := by
    show ((part { name := "" }).size + 0) = 0
    rw [hempty]
    rfl

/-! ### Keys -/

/-- Functions and constants are found under the keys of their names. -/
structure Draft.IsKeyed (draft : Draft) : Prop where
  functions : draft.functions.Holds fun key entry =>
    Name.symbolKey entry.declaration.qualifiedName = key
  constants : draft.constants.Holds fun key entry =>
    Name.constantKey entry.declaration.qualifiedName = key

section
variable {settings : Settings} {draft : Draft}

theorem isKeyed_addConstant {constant : Stub.Constant} (h : draft.IsKeyed) :
    (draft.addConstant settings constant).Meets (fun _ => True) Draft.IsKeyed := by
  refine addConstant_meets (fun _ => h) fun _ entry target hread => ?_
  obtain ⟨declared, known, -, -, hreading⟩ := isReading_readConstant.of_result? hread
  exact { h with constants := h.constants.insert (congrArg Name.constantKey hreading.name_eq) }

theorem isKeyed_addFunction {function : Stub.Function} (h : draft.IsKeyed) :
    (draft.addFunction settings function).Meets (fun _ => True) Draft.IsKeyed := by
  refine .bind (.any _) fun result _ => .pure { h with functions := h.functions.insert ?_ }
  split
  · next existing hexisting => exact h.functions _ existing hexisting
  · rfl

theorem isKeyed_addFiles {files : List Stub.File} :
    (collect settings files).Meets (fun _ => True) Draft.IsKeyed :=
  addFiles_keeps ⟨Table.holds_empty, Table.holds_empty⟩ (fun _ _ h => isKeyed_addConstant h)
    (fun _ _ h => isKeyed_addFunction h)
    (fun _ _ h => addClass_meets (fun _ => h) fun _ _ _ => { h with }) files

end

/-! ### Catalogs -/

theorem mirrors_indexNamespaces {classes : Table ClassEntry} {functions : Table FunctionEntry}
    {constants : Table ConstantEntry}
    (hclasses : IsPlaced Text.lower ClassEntry.declaration classes)
    (hfunctions : IsPlaced Text.lower FunctionEntry.declaration functions)
    (hconstants : IsPlaced id ConstantEntry.declaration constants) :
    Mirrors Text.lower Namespace.classes ClassEntry.declaration classes
        (indexNamespaces classes functions constants) ∧
      Mirrors Text.lower Namespace.functions FunctionEntry.declaration functions
        (indexNamespaces classes functions constants) ∧
      Mirrors id Namespace.constants ConstantEntry.declaration constants
        (indexNamespaces classes functions constants) := by
  have hclassLists : Lists Text.lower Namespace.classes _ (indexNamespaces ..) :=
    (((lists_start fun _ => rfl).run putClass (fun _ _ _ => rfl) hclasses.nodup).skip
      putFunction (fun _ _ _ => rfl) (functions.values.map (·.declaration))).skip
      putConstant (fun _ _ _ => rfl) (constants.values.map (·.declaration))
  have hfunctionLists : Lists Text.lower Namespace.functions _ (indexNamespaces ..) :=
    (((lists_start fun _ => rfl).skip
      putClass (fun _ _ _ => rfl) (classes.values.map (·.declaration))).run
      putFunction (fun _ _ _ => rfl) hfunctions.nodup).skip
      putConstant (fun _ _ _ => rfl) (constants.values.map (·.declaration))
  have hconstantLists : Lists id Namespace.constants _ (indexNamespaces ..) :=
    (((lists_start fun _ => rfl).skip
      putClass (fun _ _ _ => rfl) (classes.values.map (·.declaration))).skip
      putFunction (fun _ _ _ => rfl) (functions.values.map (·.declaration))).run
      putConstant (fun _ _ _ => rfl) hconstants.nodup
  exact ⟨hclassLists.mirrors hclasses, hfunctionLists.mirrors hfunctions,
    hconstantLists.mirrors hconstants⟩

theorem isPlaced_of_symbolKey {α : Type} {declaration : α → Declaration} {t : Table α}
    (h : t.Holds fun key entry => Name.symbolKey (declaration entry).qualifiedName = key) :
    IsPlaced Text.lower declaration t :=
  fun key entry hentry => (Name.symbolKey_eq_join _).symm.trans (h key entry hentry)

theorem isPlaced_of_constantKey {α : Type} {declaration : α → Declaration} {t : Table α}
    (h : t.Holds fun key entry => Name.constantKey (declaration entry).qualifiedName = key) :
    IsPlaced id declaration t :=
  fun key entry hentry => (Name.constantKey_eq_join _).symm.trans (h key entry hentry)

end Build

open Build

/-- **The index of namespaces mirrors the catalog.** A declaration is listed under a namespace and a
short name exactly if it belongs to an entry of the catalog whose qualified name splits into the
two, without regard to case but for the short names of constants; no two entries have one place, and
the index lists as many classes, functions and constants as the catalog has. -/
theorem Catalog.build_mirrors {settings : Settings} {files : List Stub.File}
    {earlier : List Diagnostic} {catalog : Catalog}
    (hbuild : Catalog.build settings files earlier = .ok catalog) :
    Mirrors Text.lower Namespace.classes ClassEntry.declaration catalog.classes
        catalog.namespaces ∧
      Mirrors Text.lower Namespace.functions FunctionEntry.declaration catalog.functions
        catalog.namespaces ∧
      Mirrors id Namespace.constants ConstantEntry.declaration catalog.constants
        catalog.namespaces := by
  have hread := isRead_build hbuild
  have hcompleted := (completed_build hbuild).globals
  obtain ⟨hkeyed, found, rfl⟩ := of_build isKeyed_addFiles hbuild
  refine mirrors_indexNamespaces (isPlaced_of_symbolKey fun key entry hentry => ?_)
    (isPlaced_of_symbolKey hkeyed.functions) (isPlaced_of_constantKey fun key entry hentry => ?_)
  · exact (hread key entry hentry).2
  · obtain ⟨declared, hdeclared, hcompletes⟩ := exists_of_rel_left (hentry ▸ hcompleted key)
    rw [hcompletes.declaration]
    exact hkeyed.constants key declared hdeclared

namespace Build

/-- A namespace with a class, a function and constants of one short name. -/
def spellingFile : Stub.File where
  path := "a.php"
  constants := [
    { name := "APP\\Util\\box", valueText := some "1", context := { file := "a.php" }
      location := { file := "a.php", line := 2 } },
    { name := "\\App\\util\\BOX", valueText := some "2", context := { file := "a.php" }
      location := { file := "a.php", line := 3 } }]
  functions := [
    { name := "Box", resultText := some "int", context := { file := "a.php", space := "App\\Util" }
      location := { file := "a.php", line := 4 } }]
  classes := [
    { kind := .plainClass, name := "BOX", context := { file := "a.php", space := "App\\UTIL" }
      location := { file := "a.php", line := 5 } }]

end Build

theorem Catalog.build_mirrors_spellings : ∃ catalog, Catalog.build {} [spellingFile] = .ok catalog ∧
      Mirrors Text.lower Namespace.classes ClassEntry.declaration catalog.classes
        catalog.namespaces ∧
      Mirrors Text.lower Namespace.functions FunctionEntry.declaration catalog.functions
        catalog.namespaces ∧
      Mirrors id Namespace.constants ConstantEntry.declaration catalog.constants
        catalog.namespaces ∧
      (catalog.classes.keys, catalog.functions.keys, catalog.constants.keys) =
        (["app\\util\\box"], ["app\\util\\box"], ["app\\util\\box", "app\\util\\BOX"]) ∧
      catalog.namespaces.keys = ["", "app\\util"] := by
  obtain ⟨catalog, hbuild, hkeys, hspaces⟩ : ∃ catalog, Catalog.build {} [spellingFile] = .ok catalog ∧
      (catalog.classes.keys, catalog.functions.keys, catalog.constants.keys) =
        (["app\\util\\box"], ["app\\util\\box"], ["app\\util\\box", "app\\util\\BOX"]) ∧
      catalog.namespaces.keys = ["", "app\\util"] := exists_catalog (by decide +kernel)
  obtain ⟨hclasses, hfunctions, hconstants⟩ := Catalog.build_mirrors hbuild
  exact ⟨_, hbuild, hclasses, hfunctions, hconstants, hkeys, hspaces⟩

end StubCatalog
