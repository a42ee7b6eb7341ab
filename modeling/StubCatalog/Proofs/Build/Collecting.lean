import StubCatalog.Proofs.Build.References

/-! # Collecting files in any order

What a file adds to a draft depends on the draft only through the names that the file declares
(`join_addFile`). So files without a common name add the same in any order. -/

namespace StubCatalog

open List

/-! ### The names that a file declares -/

namespace Stub

/-- No class, function or constant is declared in both files. -/
structure File.Apart (a b : File) : Prop where
  classes : (a.classes.map (·.key)).Disjoint (b.classes.map (·.key))
  functions : (a.functions.map (·.key)).Disjoint (b.functions.map (·.key))
  constants : (a.constants.map (·.key)).Disjoint (b.constants.map (·.key))

instance (a b : File) : Decidable (a.Apart b) :=
  decidable_of_iff ((∀ key ∈ a.classes.map ClassLike.key, key ∉ b.classes.map ClassLike.key) ∧
      (∀ key ∈ a.functions.map Function.key, key ∉ b.functions.map Function.key) ∧
      ∀ key ∈ a.constants.map Constant.key, key ∉ b.constants.map Constant.key)
    ⟨fun ⟨hclasses, hfunctions, hconstants⟩ => ⟨hclasses, hfunctions, hconstants⟩,
      fun h => ⟨h.classes, h.functions, h.constants⟩⟩

theorem File.Apart.symm {a b : File} (h : a.Apart b) : b.Apart a :=
  ⟨h.classes.symm, h.functions.symm, h.constants.symm⟩

end Stub

/-! ### Two runs -/

namespace Checked
variable {α β γ δ : Type}

variable {r : α → β → Prop} {s : γ → δ → Prop}

theorem rel_result?_bind {x : Checked α} {y : Checked β} {f : α → Checked γ} {g : β → Checked δ}
    (hxy : Option.Rel r x.result? y.result?)
    (h : ∀ a b, r a b → Option.Rel s (f a).result? (g b).result?) :
    Option.Rel s (x >>= f).result? (y >>= g).result? := by
  rw [result?_bind, result?_bind]
  exact Build.rel_bind hxy h

theorem rel_result?_bind_same {x : Checked α} {f : α → Checked γ} {g : α → Checked δ}
    (h : ∀ a, Option.Rel s (f a).result? (g a).result?) :
    Option.Rel s (x >>= f).result? (x >>= g).result? :=
  rel_result?_bind (Build.rel_refl (fun _ => rfl) _) fun a _ hab => hab ▸ h a

theorem rel_result?_foldChecked {ι : Type} {f : α → ι → Checked α} {g : β → ι → Checked β} {a : α}
    {b : β} {xs : List ι} (hstart : r a b)
    (h : ∀ x ∈ xs, ∀ a b, r a b → Option.Rel r (f a x).result? (g b x).result?) :
    Option.Rel r (Build.foldChecked f a xs).result? (Build.foldChecked g b xs).result? := by
  induction xs generalizing a b with
  | nil => exact .some hstart
  | cons x xs ih =>
    obtain ⟨hx, hxs⟩ := forall_mem_cons.mp h
    exact rel_result?_bind (hx a b hstart) fun _ _ hab => ih hab hxs

end Checked

namespace Build

open Checked

variable {settings : Settings} {d e r : Draft} {file : Stub.File}

/-! ### The names of a draft -/

/-- Each name in the draft is one that the file declares. -/
structure Draft.IsFrom (file : Stub.File) (draft : Draft) : Prop where
  classes : draft.classes.Holds fun key _ => key ∈ file.classes.map (·.key)
  functions : draft.functions.Holds fun key _ => key ∈ file.functions.map (·.key)
  constants : draft.constants.Holds fun key _ => key ∈ file.constants.map (·.key)

theorem isFrom_addFile :
    (({} : Draft).addFile settings file).Meets (fun _ => True) (Draft.IsFrom file) := by
  have hempty : Draft.IsFrom file {} := ⟨Table.holds_empty, Table.holds_empty, Table.holds_empty⟩
  refine .bind (.any _) fun _ _ => ?_
  split
  · exact .pure hempty
  refine .bind (.foldChecked hempty fun draft hdraft constant hconstant => ?_)
    fun draft hdraft => ?_
  · exact addConstant_meets (fun _ => hdraft) fun _ _ _ _ => { hdraft with
      constants := hdraft.constants.insert (mem_map_of_mem hconstant) }
  refine .bind (.foldChecked (Q := Draft.IsFrom file) hdraft
    fun draft hdraft function hfunction => ?_) fun draft hdraft => ?_
  · refine .bind (.any _) fun result _ => .pure { hdraft with functions := ?_ }
    exact hdraft.functions.insert (mem_map_of_mem hfunction)
  refine .foldChecked hdraft fun draft hdraft source hsource => ?_
  exact addClass_meets (fun _ => hdraft) fun _ _ _ => { hdraft with
    classes := hdraft.classes.insert (mem_map_of_mem hsource) }

/-- No name in the draft is one that the file declares. -/
structure Draft.Lacks (draft : Draft) (file : Stub.File) : Prop where
  classes : draft.classes.Holds fun key _ => key ∉ file.classes.map (·.key)
  functions : draft.functions.Holds fun key _ => key ∉ file.functions.map (·.key)
  constants : draft.constants.Holds fun key _ => key ∉ file.constants.map (·.key)

theorem lacks_empty : ({} : Draft).Lacks file :=
  ⟨Table.holds_empty, Table.holds_empty, Table.holds_empty⟩

theorem Draft.IsFrom.lacks {other : Stub.File} (h : Draft.IsFrom file e)
    (hapart : file.Apart other) : e.Lacks other where
  classes key value hget := hapart.classes (h.classes key value hget)
  functions key value hget := hapart.functions (h.functions key value hget)
  constants key value hget := hapart.constants (h.constants key value hget)

/-! ### What two drafts hold together -/

section
variable {α : Type} {t u v : Table α} {key : String}

theorem get?_eq_none_of_holds {p : String → Prop} (h : t.Holds fun name _ => ¬ p name)
    (hkey : p key) : t.get? key = none := by
  cases hget : t.get? key with
  | none => rfl
  | some value => exact absurd hkey (h key value hget)

/-- The third table holds what the first and the second hold; where both hold a name, the second one
counts. -/
def IsJoin (t u v : Table α) : Prop := ∀ name, v.get? name = (u.get? name).or (t.get? name)

theorem isJoin_empty_iff : IsJoin {} u v ↔ u.get? = v.get? := by
  have hempty : ∀ name, (u.get? name).or (({} : Table α).get? name) = u.get? name :=
    fun _ => Option.or_none
  simp only [IsJoin, hempty, funext_iff, eq_comm]

theorem IsJoin.get?_eq (h : IsJoin t u v) (hlacks : t.get? key = none) :
    v.get? key = u.get? key := by
  rw [h, hlacks, Option.or_none]

theorem IsJoin.insert (h : IsJoin t u v) (key : String) (value : α) :
    IsJoin t (u.insert key value) (v.insert key value) := by
  intro name
  rw [Table.get?_insert, Table.get?_insert]
  split
  · rfl
  · exact h name

theorem IsJoin.holds {p : String → α → Prop} (h : IsJoin t u v) (ht : t.Holds p) (hu : u.Holds p) :
    v.Holds p := by
  intro name value hget
  rw [h, Option.or_eq_some_iff] at hget
  rcases hget with hget | ⟨-, hget⟩
  · exact hu name value hget
  · exact ht name value hget

theorem IsJoin.swap {tu tv tuv tvu : Table α} {p : String → Prop}
    (hu : u.Holds fun name _ => p name) (hv : v.Holds fun name _ => ¬ p name)
    (htu : IsJoin t u tu) (htuv : IsJoin tu v tuv) (htv : IsJoin t v tv) (htvu : IsJoin tv u tvu) :
    tuv.get? = tvu.get? := by
  funext name
  rw [htuv, htu, htvu, htv]
  cases hname : u.get? name with
  | none => rfl
  | some value =>
    rw [get?_eq_none_of_holds hv (hu name value hname), Option.none_or, Option.some_or,
      Option.some_or]

end

/-- The third draft holds what the first and the second hold, with the notes of both. -/
structure Draft.Join (d e r : Draft) : Prop where
  classes : IsJoin d.classes e.classes r.classes
  functions : IsJoin d.functions e.functions r.functions
  constants : IsJoin d.constants e.constants r.constants
  pending : r.pending.Perm (d.pending ++ e.pending)

theorem join_empty (d : Draft) : d.Join {} d where
  classes _ := rfl
  functions _ := rfl
  constants _ := rfl
  pending := by simp

/-! A declaration of a name that the first draft lacks does the same to the second draft and to both
together. -/

theorem join_addConstant {constant : Stub.Constant} (h : d.Join e r)
    (hlacks : d.constants.get? constant.key = none) :
    Option.Rel (Draft.Join d) (e.addConstant settings constant).result?
      (r.addConstant settings constant).result? := by
  have hcontains : r.constants.contains constant.key = e.constants.contains constant.key :=
    congrArg Option.isSome (h.constants.get?_eq hlacks)
  unfold Stub.Constant.key at hcontains
  unfold Draft.addConstant
  dsimp only
  rw [hcontains]
  split
  · exact rel_result?_bind_same fun _ => .some h
  · refine rel_result?_bind_same fun result => .some { h with
      constants := h.constants.insert _ result.1
      pending := ?_ }
    rw [← append_assoc]
    exact h.pending.append_right _

theorem join_addFunction {function : Stub.Function} (h : d.Join e r)
    (hlacks : d.functions.get? function.key = none) :
    Option.Rel (Draft.Join d) (e.addFunction settings function).result?
      (r.addFunction settings function).result? := by
  have hget : r.functions.get? function.key = e.functions.get? function.key :=
    h.functions.get?_eq hlacks
  unfold Stub.Function.key at hget
  unfold Draft.addFunction
  dsimp only
  rw [hget]
  exact rel_result?_bind_same fun result => .some { h with functions := h.functions.insert _ _ }

theorem join_addClass {source : Stub.ClassLike} (h : d.Join e r)
    (hlacks : d.classes.get? source.key = none) :
    Option.Rel (Draft.Join d) (e.addClass settings source).result?
      (r.addClass settings source).result? := by
  have hcontains : r.classes.contains source.key = e.classes.contains source.key :=
    congrArg Option.isSome (h.classes.get?_eq hlacks)
  unfold Stub.ClassLike.key at hcontains
  unfold Draft.addClass
  dsimp only
  rw [hcontains]
  split
  · exact rel_result?_bind_same fun _ => .some h
  · refine rel_result?_bind_same fun found => .some { h with
      classes := h.classes.insert _ found.entry
      pending := ?_ }
    rw [← append_assoc]
    exact h.pending.append_right _

theorem join_addFile (h : d.Join e r) (hlacks : d.Lacks file) :
    Option.Rel (Draft.Join d) (e.addFile settings file).result?
      (r.addFile settings file).result? := by
  refine rel_result?_bind_same fun _ => ?_
  split
  · exact .some h
  refine rel_result?_bind (rel_result?_foldChecked h fun constant hconstant e r h => ?_)
    fun e r h => ?_
  · exact join_addConstant h
      (get?_eq_none_of_holds hlacks.constants (mem_map_of_mem hconstant))
  refine rel_result?_bind (rel_result?_foldChecked h fun function hfunction e r h => ?_)
    fun e r h => ?_
  · exact join_addFunction h
      (get?_eq_none_of_holds hlacks.functions (mem_map_of_mem hfunction))
  refine rel_result?_foldChecked h fun source hsource e r h => ?_
  exact join_addClass h (get?_eq_none_of_holds hlacks.classes (mem_map_of_mem hsource))

theorem Draft.Join.lacks (h : d.Join e r) (hd : d.Lacks file) (he : e.Lacks file) :
    r.Lacks file where
  classes := h.classes.holds hd.classes he.classes
  functions := h.functions.holds hd.functions he.functions
  constants := h.constants.holds hd.constants he.constants

/-! ### The same in another order -/

/-- The drafts hold the same under every name, and the same notes in some order. -/
structure Draft.Same (d e : Draft) : Prop where
  classes : d.classes.get? = e.classes.get?
  functions : d.functions.get? = e.functions.get?
  constants : d.constants.get? = e.constants.get?
  pending : d.pending.Perm e.pending

theorem Draft.Same.refl (d : Draft) : d.Same d := ⟨rfl, rfl, rfl, .refl _⟩

theorem Draft.Same.trans {a b c : Draft} (hab : a.Same b) (hbc : b.Same c) : a.Same c where
  classes := hab.classes.trans hbc.classes
  functions := hab.functions.trans hbc.functions
  constants := hab.constants.trans hbc.constants
  pending := hab.pending.trans hbc.pending

theorem same_iff_join : e.Same r ↔ ({} : Draft).Join e r := by
  constructor
  · rintro ⟨hclasses, hfunctions, hconstants, hpending⟩
    exact ⟨isJoin_empty_iff.mpr hclasses, isJoin_empty_iff.mpr hfunctions,
      isJoin_empty_iff.mpr hconstants, hpending.symm⟩
  · rintro ⟨hclasses, hfunctions, hconstants, hpending⟩
    exact ⟨isJoin_empty_iff.mp hclasses, isJoin_empty_iff.mp hfunctions,
      isJoin_empty_iff.mp hconstants, hpending.symm⟩

theorem same_addFile (h : e.Same r) :
    Option.Rel Draft.Same (e.addFile settings file).result? (r.addFile settings file).result? :=
  rel_mono (join_addFile (same_iff_join.mp h) lacks_empty) fun _ _ => same_iff_join.mpr

section
variable {a b : Stub.File}

theorem result?_addFile_eq_none (hlacks : d.Lacks file)
    (hown : (({} : Draft).addFile settings file).result? = none) :
    (d.addFile settings file).result? = none := by
  have hjoin : Option.Rel d.Join (({} : Draft).addFile settings file).result?
      (d.addFile settings file).result? := join_addFile (join_empty d) hlacks
  rw [hown] at hjoin
  exact eq_none_of_rel hjoin

theorem exists_result?_addFile (hlacks : d.Lacks file)
    (hown : (({} : Draft).addFile settings file).result? = some e) :
    ∃ r, (d.addFile settings file).result? = some r ∧ d.Join e r := by
  have hjoin : Option.Rel d.Join (({} : Draft).addFile settings file).result?
      (d.addFile settings file).result? := join_addFile (join_empty d) hlacks
  rw [hown] at hjoin
  exact exists_of_rel_left hjoin

theorem lacks_addFile (ha : d.Lacks a) (hb : d.Lacks b) (hapart : a.Apart b)
    (hr : (d.addFile settings a).result? = some r) : r.Lacks b := by
  cases hown : (({} : Draft).addFile settings a).result? with
  | none =>
    rw [result?_addFile_eq_none ha hown] at hr
    cases hr
  | some e =>
    obtain ⟨r', hr', hjoin⟩ := exists_result?_addFile ha hown
    obtain rfl := Option.some.inj (hr'.symm.trans hr)
    exact hjoin.lacks hb ((isFrom_addFile.of_result? hown).lacks hapart)

theorem same_addFile_swap (hapart : a.Apart b) (ha : d.Lacks a) (hb : d.Lacks b) :
    Option.Rel Draft.Same
      ((d.addFile settings a).result?.bind fun r => (r.addFile settings b).result?)
      ((d.addFile settings b).result?.bind fun r => (r.addFile settings a).result?) := by
  -- What each file does is known from what it does by itself.
  cases hownA : (({} : Draft).addFile settings a).result? with
  | none =>
    rw [result?_addFile_eq_none ha hownA]
    cases hrb : (d.addFile settings b).result? with
    | none => exact .none
    | some rb =>
      have hlacks : rb.Lacks a := lacks_addFile hb ha hapart.symm hrb
      rw [Option.bind_some, result?_addFile_eq_none hlacks hownA]
      exact .none
  | some ea =>
    obtain ⟨ra, hra, hjoinA⟩ := exists_result?_addFile ha hownA
    have hlacksB : ra.Lacks b := lacks_addFile ha hb hapart hra
    cases hownB : (({} : Draft).addFile settings b).result? with
    | none =>
      rw [hra, Option.bind_some, result?_addFile_eq_none hlacksB hownB,
        result?_addFile_eq_none hb hownB]
      exact .none
    | some eb =>
      obtain ⟨rb, hrb, hjoinB⟩ := exists_result?_addFile hb hownB
      have hlacksA : rb.Lacks a := lacks_addFile hb ha hapart.symm hrb
      obtain ⟨rab, hrab, hjoinAB⟩ := exists_result?_addFile hlacksB hownB
      obtain ⟨rba, hrba, hjoinBA⟩ := exists_result?_addFile hlacksA hownA
      have hfrom : Draft.IsFrom a ea := isFrom_addFile.of_result? hownA
      have hlacks : eb.Lacks a := (isFrom_addFile.of_result? hownB).lacks hapart.symm
      rw [hra, Option.bind_some, hrab, hrb, Option.bind_some, hrba]
      refine .some
        { classes := IsJoin.swap hfrom.classes hlacks.classes hjoinA.classes hjoinAB.classes
            hjoinB.classes hjoinBA.classes
          functions := IsJoin.swap hfrom.functions hlacks.functions hjoinA.functions
            hjoinAB.functions hjoinB.functions hjoinBA.functions
          constants := IsJoin.swap hfrom.constants hlacks.constants hjoinA.constants
            hjoinAB.constants hjoinB.constants hjoinBA.constants
          pending := ?_ }
      have hab : rab.pending.Perm (d.pending ++ ea.pending ++ eb.pending) :=
        hjoinAB.pending.trans (hjoinA.pending.append_right _)
      have hba : rba.pending.Perm (d.pending ++ eb.pending ++ ea.pending) :=
        hjoinBA.pending.trans (hjoinB.pending.append_right _)
      refine hab.trans (List.Perm.trans ?_ hba.symm)
      rw [append_assoc, append_assoc]
      exact perm_append_comm.append_left _

end

theorem collect_perm {files files' : List Stub.File} (hperm : files.Perm files')
    (hapart : files.Pairwise Stub.File.Apart) (hlacks : ∀ file ∈ files, d.Lacks file) :
    Option.Rel Draft.Same (foldChecked (Draft.addFile settings) d files).result?
      (foldChecked (Draft.addFile settings) d files').result? := by
  induction hperm generalizing d with
  | nil => exact .some (.refl d)
  | cons file _ ih =>
    obtain ⟨hfile, hrest⟩ := pairwise_cons.mp hapart
    obtain ⟨hd, hothers⟩ := forall_mem_cons.mp hlacks
    rw [foldChecked, foldChecked, result?_bind, result?_bind]
    cases hr : (d.addFile settings file).result? with
    | none => exact .none
    | some r =>
      exact ih hrest fun other hother =>
        lacks_addFile hd (hothers other hother) (hfile other hother) hr
  | swap a b rest =>
    -- The first two files change places, and the others go on from drafts that hold the same.
    obtain ⟨hb, -⟩ := pairwise_cons.mp hapart
    have hswap : Option.Rel Draft.Same
        ((d.addFile settings b).result?.bind fun r => (r.addFile settings a).result?)
        ((d.addFile settings a).result?.bind fun r => (r.addFile settings b).result?) :=
      same_addFile_swap (hb a (by simp)) (hlacks b (by simp)) (hlacks a (by simp))
    simp only [foldChecked, result?_bind, ← Option.bind_assoc]
    exact rel_bind hswap fun r s hrs =>
      rel_result?_foldChecked hrs fun file _ r s hrs => same_addFile hrs
  | trans hperm _ ih ih' =>
    have hapart' := (hperm.pairwise_iff fun h => h.symm).mp hapart
    have hlacks' := fun file hfile => hlacks file (hperm.mem_iff.mpr hfile)
    exact rel_trans (fun _ _ _ => .trans) (ih hapart hlacks) (ih' hapart' hlacks')

end Build

end StubCatalog
