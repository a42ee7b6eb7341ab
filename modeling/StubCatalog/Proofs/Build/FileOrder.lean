import StubCatalog.Proofs.Build.Collecting
import StubCatalog.Proofs.Build.Settling
import StubCatalog.Proofs.Build.TraitConstants

/-! # The order of files

Linking looks at classes only through their names (`get?_link_congr`), and following references that
never lead in a circle has one result. So files that declare no name in common may come in any
order. -/

namespace StubCatalog

/-- The two catalogs have the same classes, functions and constants, in some order. -/
structure Catalog.SameSymbols (a b : Catalog) : Prop where
  classes : ∀ key, a.classes.get? key = b.classes.get? key
  functions : ∀ key, a.functions.get? key = b.functions.get? key
  constants : ∀ key, a.constants.get? key = b.constants.get? key

namespace Build

open Relation Constants

variable {settings : Settings} {classes classes' : Classes}

/-! ### Linking -/

theorem resolveEdges_congr (h : classes.get? = classes'.get?) :
    resolveEdges classes = resolveEdges classes' := by
  have hname : declaredName? classes = declaredName? classes' :=
    funext fun name => by rw [declaredName?, declaredName?, h]
  funext entry
  simp only [resolveEdges, declaredNames, hname]

theorem extended_congr (h : classes.get? = classes'.get?) :
    extended settings classes = extended settings classes' := by
  funext entry
  simp only [extended, addImpliedInterface, impliedInterface?, h]

theorem get?_resolveAll_congr (h : classes.get? = classes'.get?) :
    (resolveAll settings classes).1.get? = (resolveAll settings classes').1.get? := by
  funext key
  rw [get?_resolveAll, get?_resolveAll, h, resolveEdges_congr h, extended_congr h]

/-- The paths between classes do not depend on their order, and so the cycles do not. -/
theorem get?_breakCycles_congr (h : classes.get? = classes'.get?) (hclosed : Closed classes)
    (hclosed' : Closed classes') :
    (breakCycles classes).1.get? = (breakCycles classes').1.get? := by
  have hsteps : Steps classes = Steps classes' := by
    unfold Steps
    exact congrArg _ (funext fun key => by rw [successorKeys, successorKeys, h])
  have hcycle : OnCommonCycle classes = OnCommonCycle classes' := by
    unfold OnCommonCycle
    rw [hsteps]
  funext key
  rw [get?_breakCycles hclosed, get?_breakCycles hclosed', h, dropCyclicEdges, dropCyclicEdges,
    hcycle]

theorem named_congr (h : classes.get? = classes'.get?) (tie : Tie) :
    Named classes tie = Named classes' tie := by
  unfold Named
  rw [h]

theorem get?_composeAll_congr (h : classes.get? = classes'.get?)
    (hacyclic : ∀ key, ¬ TransGen (Named classes .trait) key key) :
    (composeAll classes).get? = (composeAll classes').get? := by
  have hacyclic' : ∀ key, ¬ TransGen (Named classes' .trait) key key := by
    rwa [← named_congr h]
  refine get?_eq_of_takeTraits hacyclic (get?_composeAll hacyclic) fun key => ?_
  rw [get?_composeAll hacyclic', h]

theorem get?_link_congr (hkeyed : WellKeyed classes) (h : classes.get? = classes'.get?) :
    (link settings classes).1.get? = (link settings classes').1.get? := by
  have hkeyed' : WellKeyed classes' := fun key entry hentry => hkeyed key entry (h ▸ hentry)
  have hresolved : Resolved (resolveAll settings classes).1 := resolved_resolveAll hkeyed
  have hresolved' : Resolved (resolveAll settings classes').1 := resolved_resolveAll hkeyed'
  rw [classes_link, classes_link]
  refine get?_composeAll_congr ?_ (acyclic_breakCycles hresolved .trait)
  exact get?_breakCycles_congr (get?_resolveAll_congr h) (closed_of_resolved hresolved)
    (closed_of_resolved hresolved')

/-! ### Finishing -/

section
variable {d d' : Draft}

theorem Draft.Same.sameShape_linked (h : d.Same d') (hkeyed : WellKeyed d.classes) :
    SameShape (d.linked settings) (d'.linked settings) where
  size := Table.size_eq_of_get? (get?_link_congr hkeyed h.classes)
  classes key := by
    rw [Draft.linked, Draft.linked, get?_link_congr hkeyed h.classes]
    exact rel_refl SameSlots.refl _
  globals key := congrArg Option.isSome (congrFun h.constants key)

theorem Draft.Same.get?_linked (h : d.Same d') (hkeyed : WellKeyed d.classes) :
    (d.linked settings).get? = (d'.linked settings).get? := by
  funext site
  cases site with
  | global key => exact congrFun h.constants key
  | member owner name =>
    show ((link settings d.classes).1.get? owner).bind _ = _
    rw [get?_link_congr hkeyed h.classes]
    rfl

/-- **The catalogs** of drafts that hold the same have the same symbols, if references never lead in
a circle. -/
theorem Draft.Same.finish (h : d.Same d') (hkeyed : WellKeyed d.classes)
    (hdistinct : HasDistinctSites d.pending)
    (hacyclic : ∀ site, ¬ TransGen (Refers (d.linked settings) d.pending) site site)
    (found found' : List Diagnostic) :
    (d.finish settings found).SameSymbols (d'.finish settings found') := by
  have hshape : SameShape (d.linked settings) (d'.linked settings) := h.sameShape_linked hkeyed
  have hdistinct' : HasDistinctSites d'.pending := (h.pending.map _).nodup_iff.mp hdistinct
  have hfinal := progress_settleAll hdistinct hdistinct.of_map (fun _ hq => hq)
    (progress_start (d.linked settings) _)
  have hfinal' := progress_settleAll hdistinct' hdistinct'.of_map (fun _ hq => hq)
    (progress_start (d'.linked settings) _)
  have hget := get?_eq_of_settled hacyclic (h.get?_linked hkeyed) hshape
    (fun p => h.pending.mem_iff) hfinal hfinal'
  exact
    { classes := congrFun
        (classes_eq_of_get? (get?_link_congr hkeyed h.classes) hfinal.shape hfinal'.shape hget)
      functions := congrFun h.functions
      constants := fun key => congrFun hget (.global key) }

end

theorem build_cases (settings : Settings) (files : List Stub.File) (earlier : List Diagnostic) :
    (∃ e, Catalog.build settings files earlier = .error e ∧
      (collect settings files).result? = none) ∨
    ∃ found, Catalog.build settings files earlier =
        .ok ((Draft.ofFiles settings files).finish settings found) ∧
      (collect settings files).result? =
        some (Draft.ofFiles settings files) := by
  unfold Catalog.build Draft.ofFiles Checked.result?
  cases (foldChecked (Draft.addFile settings) {} files).run with
  | error e => exact .inl ⟨e, rfl, rfl⟩
  | ok result => exact .inr ⟨earlier ++ result.2, rfl, rfl⟩

end Build

open Build Relation

/-- **The order of files does not matter.** If no class, function or constant is declared in two of
the files and references between constants never lead in a circle, then the files in another order
give the same classes, functions and constants; or else both builds stop. -/
theorem Catalog.build_perm (settings : Settings) {files files' : List Stub.File}
    (earlier earlier' : List Diagnostic) (hperm : files.Perm files')
    (hapart : files.Pairwise Stub.File.Apart)
    (hacyclic : ∀ site, ¬ TransGen (Constants.Refers
      ((Draft.ofFiles settings files).linked settings) (Draft.ofFiles settings files).pending)
      site site) :
    (∀ catalog, Catalog.build settings files earlier = .ok catalog →
      ∃ catalog', Catalog.build settings files' earlier' = .ok catalog' ∧
        catalog.SameSymbols catalog') ∧
    ∀ e, Catalog.build settings files earlier = .error e →
      ∃ e', Catalog.build settings files' earlier' = .error e' := by
  have hsame : Option.Rel Draft.Same (collect settings files).result?
      (collect settings files').result? :=
    collect_perm hperm hapart fun _ _ => lacks_empty
  rcases build_cases settings files earlier with ⟨e, hbuild, hresult⟩ | ⟨found, hbuild, hresult⟩
  · rw [hresult] at hsame
    rcases build_cases settings files' earlier' with ⟨e', hbuild', -⟩ | ⟨-, -, hresult'⟩
    · refine ⟨fun catalog hcatalog => ?_, fun _ _ => ⟨e', hbuild'⟩⟩
      rw [hbuild] at hcatalog
      cases hcatalog
    · rw [eq_none_of_rel hsame] at hresult'
      cases hresult'
  · rw [hresult] at hsame
    obtain ⟨draft, hdraft, hsame⟩ := exists_of_rel_left hsame
    rcases build_cases settings files' earlier' with ⟨-, -, hresult'⟩ | ⟨found', hbuild', hresult'⟩
    · rw [hdraft] at hresult'
      cases hresult'
    · obtain rfl := Option.some.inj (hdraft.symm.trans hresult')
      obtain ⟨hdistinct, -⟩ := of_build distinct_addFiles hbuild
      have hcatalogs := hsame.finish (wellKeyed_ofFiles hbuild) hdistinct hacyclic found found'
      refine ⟨fun catalog hcatalog => ⟨_, hbuild', ?_⟩, fun e herror => ?_⟩
      · exact Except.ok.inj (hbuild.symm.trans hcatalog) ▸ hcatalogs
      · rw [hbuild] at herror
        cases herror

/-! ### References across two files -/

namespace Build

/-- A constant that refers to a class of another file, and a class that uses a trait from there. -/
def limitFile : Stub.File where
  path := "a.php"
  constants := [
    { name := "LIMIT", valueText := some "Box::SIZE", context := { file := "a.php" }
      location := { file := "a.php", line := 2 } }]
  classes := [
    { kind := .plainClass, name := "Gauge", context := { file := "a.php" }
      location := { file := "a.php", line := 3 }
      traitUses := [{ names := ["Limits"] }] }]

/-- The class and the trait; a constant of the trait refers back to the first file. -/
def boxFile : Stub.File where
  path := "b.php"
  classes := [
    { kind := .plainClass, name := "Box", context := { file := "b.php" }
      location := { file := "b.php", line := 2 }
      constants := [
        { name := "SIZE", valueText := some "self::BASE", context := { file := "b.php" }
          location := { file := "b.php", line := 3 } },
        { name := "BASE", valueText := some "10", context := { file := "b.php" }
          location := { file := "b.php", line := 4 } }] },
    { kind := .trait, name := "Limits", context := { file := "b.php" }
      location := { file := "b.php", line := 6 }
      constants := [
        { name := "TOP", valueText := some "LIMIT", context := { file := "b.php" }
          location := { file := "b.php", line := 7 } }] }]

/-- What is collected from the two files. -/
def limitDraft : Draft := Draft.ofFiles {} [limitFile, boxFile]

/-- The constants of the two files, each after the one that it refers to. -/
def limitOrder : List ConstantSite :=
  [.member "box" "BASE", .member "box" "SIZE", .global "LIMIT", .member "limits" "TOP"]

theorem limit_facts : limitFile.Apart boxFile ∧
    ∀ p ∈ limitDraft.pending, ∀ site ∈ (limitDraft.linked {}).target? p.target,
      limitOrder.idxOf site < limitOrder.idxOf p.site := by
  decide +kernel

theorem limits_acyclic (site : ConstantSite) :
    ¬ TransGen (Constants.Refers (limitDraft.linked {}) limitDraft.pending) site site := by
  have hfalls : ∀ s t, Constants.Refers (limitDraft.linked {}) limitDraft.pending s t →
      limitOrder.idxOf t < limitOrder.idxOf s := by
    rintro s t ⟨p, hp, rfl, htarget⟩
    exact limit_facts.2 p hp t htarget
  exact fun hcircle => lt_irrefl _ (Graph.lt_of_transGen hfalls hcircle)

end Build

theorem Catalog.build_perm_limits : [limitFile, boxFile].Pairwise Stub.File.Apart ∧
    (∀ site, ¬ TransGen (Constants.Refers ((Draft.ofFiles {} [limitFile, boxFile]).linked {})
      (Draft.ofFiles {} [limitFile, boxFile]).pending) site site) ∧
    ∃ catalog catalog', Catalog.build {} [limitFile, boxFile] = .ok catalog ∧
      Catalog.build {} [boxFile, limitFile] = .ok catalog' ∧ catalog.SameSymbols catalog' := by
  have hfiles : [limitFile, boxFile].Pairwise Stub.File.Apart := by simpa using limit_facts.1
  obtain ⟨catalog, hbuild, -⟩ : ∃ catalog, Catalog.build {} [limitFile, boxFile] = .ok catalog ∧
      True := exists_catalog (by decide)
  obtain ⟨hsame, -⟩ := Catalog.build_perm {} [] [] (.swap ..) hfiles limits_acyclic
  obtain ⟨catalog', hbuild', hsymbols⟩ := hsame _ hbuild
  exact ⟨hfiles, limits_acyclic, _, catalog', hbuild, hbuild', hsymbols⟩

end StubCatalog
