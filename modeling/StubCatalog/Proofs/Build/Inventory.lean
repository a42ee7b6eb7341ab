import StubCatalog.Proofs.Build.Collecting
import StubCatalog.Proofs.Build.Completed

/-! # Every declaration is accounted for

A function that is declared again gets a further signature (`GathersAll`); of a class or constant
the first declaration stays (`KeepsFirst`). What is refused or skipped leaves the draft as it is, so
a build without it comes to the same and only reports less (`ReportsMore`). -/

namespace StubCatalog

open List

variable {more : List Diagnostic}

/-! ### What a declaration is read as -/

namespace Stub

open Build

/-- The signature that a function is read as. -/
def Function.signature? (settings : Settings) (function : Function) : Option Signature :=
  (readSignature settings (function.context.qualify function.name) {} function).result?.map Prod.fst

/-- The entry that a global constant is read as. -/
def Constant.entry? (settings : Settings) (constant : Constant) : Option ConstantEntry :=
  (readConstant settings .constant none { context := some constant.context }
    (constant.context.qualify constant.name) constant).result?.map Prod.fst

/-- The entry that a class is read as. -/
def ClassLike.entry? (settings : Settings) (source : ClassLike) : Option ClassEntry :=
  (readClass settings (source.context.qualify source.name) source).result?.map (·.entry)

end Stub

/-! ### Steps that report -/

namespace Checked
variable {α β : Type}

theorem run_bind_error {x : Checked α} {e : BuildError} (h : x.run = .error e)
    (f : α → Checked β) : (x >>= f).run = .error e := by
  show (Checked.bind x f).run = _
  unfold Checked.bind
  rw [h]

theorem run_bind_ok {x : Checked α} {a : α} {found : List Diagnostic} (h : x.run = .ok (a, found))
    (f : α → Checked β) :
    (x >>= f).run = (f a).run.map fun result => (result.1, found ++ result.2) := by
  show (Checked.bind x f).run = _
  unfold Checked.bind
  rw [h]
  dsimp only
  cases (f a).run <;> rfl

theorem eq_of_run {x y : Checked α} (h : x.run = y.run) : x = y := by
  cases x
  exact congrArg Checked.mk h

theorem pure_bind (a : α) (f : α → Checked β) : pure a >>= f = f a := by
  refine eq_of_run ((run_bind_ok rfl f).trans ?_)
  cases (f a).run <;> rfl

theorem bind_assoc {γ : Type} (x : Checked α) (f : α → Checked β) (g : β → Checked γ) :
    x >>= f >>= g = x >>= fun a => f a >>= g := by
  apply eq_of_run
  cases hx : x.run with
  | error e => rw [run_bind_error (run_bind_error hx f), run_bind_error hx]
  | ok result =>
    have hxf := run_bind_ok (f := f) hx
    rw [run_bind_ok hx]
    cases hf : (f result.1).run with
    | error e =>
      rw [hf] at hxf
      rw [run_bind_error hxf, run_bind_error hf]
      rfl
    | ok middle =>
      rw [hf] at hxf
      rw [run_bind_ok hxf, run_bind_ok hf]
      cases (g middle.1).run with
      | error e => rfl
      | ok last => simp [Except.map]

/-- Both steps stop for the same reason, or they have the same result, and the first reports in
addition `more`, in one place. -/
def ReportsMore (more : List Diagnostic) (x y : Checked α) : Prop :=
  (∃ e, x.run = .error e ∧ y.run = .error e) ∨
    ∃ a found later, x.run = .ok (a, found ++ more ++ later) ∧ y.run = .ok (a, found ++ later)

variable {more : List Diagnostic} {x y : Checked α}

theorem ReportsMore.report (more : List Diagnostic) (y : Checked α) :
    ReportsMore more (report more >>= fun _ => y) y := by
  have hrun : (Checked.report more >>= fun _ => y).run =
      y.run.map fun result => (result.1, more ++ result.2) := run_bind_ok rfl _
  cases hy : y.run with
  | error e =>
    rw [hy] at hrun
    exact .inl ⟨e, hrun, hy⟩
  | ok result =>
    rw [hy] at hrun
    exact .inr ⟨result.1, [], result.2, hrun, hy⟩

theorem ReportsMore.bind (h : ReportsMore more x y) (f : α → Checked β) :
    ReportsMore more (x >>= f) (y >>= f) := by
  rcases h with ⟨e, hx, hy⟩ | ⟨a, found, later, hx, hy⟩
  · exact .inl ⟨e, run_bind_error hx f, run_bind_error hy f⟩
  · rw [ReportsMore, run_bind_ok hx, run_bind_ok hy]
    cases (f a).run with
    | error e => exact .inl ⟨e, rfl, rfl⟩
    | ok result => exact .inr ⟨result.1, found, later ++ result.2, by simp [Except.map]⟩

theorem ReportsMore.after {P : α → Prop} {f g : α → Checked β} (hx : x.Meets (fun _ => True) P)
    (h : ∀ a, P a → ReportsMore more (f a) (g a)) : ReportsMore more (x >>= f) (x >>= g) := by
  unfold Meets at hx
  cases hrun : x.run with
  | error e => exact .inl ⟨e, run_bind_error hrun f, run_bind_error hrun g⟩
  | ok result =>
    rw [hrun] at hx
    rw [ReportsMore, run_bind_ok hrun, run_bind_ok hrun]
    rcases h result.1 hx with ⟨e, hf, hg⟩ | ⟨b, found, later, hf, hg⟩
    · rw [hf, hg]
      exact .inl ⟨e, rfl, rfl⟩
    · rw [hf, hg]
      exact .inr ⟨b, result.2 ++ found, later, by simp [Except.map]⟩

end Checked

namespace Build

open Checked (ReportsMore)

variable {settings : Settings}

theorem foldChecked_append {α β : Type} (f : β → α → Checked β) (start : β) (xs ys : List α) :
    foldChecked f start (xs ++ ys) = foldChecked f start xs >>= fun b => foldChecked f b ys := by
  induction xs generalizing start with
  | nil => exact (Checked.pure_bind start fun b => foldChecked f b ys).symm
  | cons x xs ih =>
    rw [cons_append, foldChecked, foldChecked, Checked.bind_assoc]
    exact congrArg _ (funext fun b => ih b)

/-! ### Tables of declarations -/

/-- The keys of the table are those of the declarations, in the order of first occurrence, each with
an entry for its first declaration. -/
structure KeepsFirst {ι α : Type} (key : ι → String) (isFor : α → ι → Prop) (xs : List ι)
    (t : Table α) : Prop where
  keys : t.keys = (xs.map key).eraseDups
  first : ∀ name, Option.Rel isFor (t.get? name) (xs.find? (key · == name))

section
variable {ι α : Type} {key : ι → String} {isFor : α → ι → Prop} {xs : List ι} {t : Table α} {x : ι}

theorem eraseDups_append_singleton (names : List String) (name : String) :
    (names ++ [name]).eraseDups =
      if name ∈ names then names.eraseDups else names.eraseDups ++ [name] := by
  rw [eraseDups_append]
  by_cases h : name ∈ names
  · simp [List.removeAll, h]
  · simp [List.removeAll, h]
    rfl

theorem KeepsFirst.contains_iff (h : KeepsFirst key isFor xs t) {name : String} :
    t.contains name ↔ name ∈ xs.map key := by
  rw [Table.contains_iff_mem_keys, h.keys, mem_eraseDups]

theorem keepsFirst_nil : KeepsFirst key isFor [] {} := ⟨rfl, fun _ => .none⟩

theorem KeepsFirst.find?_taken (h : KeepsFirst key isFor xs t) (hx : t.contains (key x))
    (name : String) : (xs ++ [x]).find? (key · == name) = xs.find? (key · == name) := by
  rw [find?_append]
  cases hfind : xs.find? (key · == name) with
  | some y => rfl
  | none =>
    have hne : (key x == name) = false := by
      rw [Bool.eq_false_iff, ne_eq, beq_iff_eq]
      rintro rfl
      obtain ⟨y, hy, hkey⟩ := mem_map.mp (h.contains_iff.mp hx)
      simpa [hkey] using find?_eq_none.mp hfind y hy
    simp [hne]

theorem KeepsFirst.find?_new (h : KeepsFirst key isFor xs t) (hx : ¬ t.contains (key x))
    (name : String) : (xs ++ [x]).find? (key · == name) =
      if name = key x then some x else xs.find? (key · == name) := by
  rw [find?_append, find?_singleton]
  by_cases hname : name = key x
  · have hnone : xs.find? (key · == name) = none := by
      rw [find?_eq_none]
      intro y hy hkey
      rw [beq_iff_eq, hname] at hkey
      exact hx (h.contains_iff.mpr (mem_map.mpr ⟨y, hy, hkey⟩))
    rw [hnone, Option.none_or, if_pos (by simp [hname]), if_pos hname]
  · simp [hname, Ne.symm hname]

theorem KeepsFirst.refuse (h : KeepsFirst key isFor xs t) (hx : t.contains (key x)) :
    KeepsFirst key isFor (xs ++ [x]) t where
  keys := by
    rw [map_append, map_singleton, eraseDups_append_singleton,
      if_pos (h.contains_iff.mp hx), h.keys]
  first name := by
    rw [h.find?_taken hx]
    exact h.first name

theorem KeepsFirst.accept (h : KeepsFirst key isFor xs t) (hx : ¬ t.contains (key x))
    {entry : α} (hentry : isFor entry x) :
    KeepsFirst key isFor (xs ++ [x]) (t.insert (key x) entry) where
  keys := by
    have hnew : key x ∉ t.keys := fun hmem => hx (Table.contains_iff_mem_keys.mpr hmem)
    rw [Table.keys_insert, if_neg hnew, h.keys, map_append, map_singleton,
      eraseDups_append_singleton, if_neg fun hmem => hx (h.contains_iff.mpr hmem)]
  first name := by
    rw [Table.get?_insert, h.find?_new hx]
    split
    · exact .some hentry
    · exact h.first name

theorem KeepsFirst.mono {β : Type} {isFor' : β → ι → Prop} {u : Table β}
    (h : KeepsFirst key isFor xs t) (hkeys : u.keys = t.keys)
    (hmono : ∀ name, Option.Rel (fun b a => ∀ x, isFor a x → isFor' b x) (u.get? name)
      (t.get? name)) :
    KeepsFirst key isFor' xs u where
  keys := hkeys.trans h.keys
  first name := by
    have hfirst := h.first name
    have hname := hmono name
    generalize xs.find? (key · == name) = found at hfirst
    generalize t.get? name = a at hfirst hname
    generalize u.get? name = b at hname
    cases hname with
    | none =>
      cases hfirst with
      | none => exact .none
    | some hab =>
      cases hfirst with
      | some hax => exact .some (hab _ hax)

end

/-- The signatures of the function of a key. -/
def overloads (t : Table FunctionEntry) (name : String) : List Signature :=
  (t.get? name).elim [] (·.signatures)

/-- The keys of the table are those of the functions, in the order of first occurrence, each with
the signatures of all functions of this key in order. -/
structure GathersAll (settings : Settings) (functions : List Stub.Function)
    (t : Table FunctionEntry) : Prop where
  keys : t.keys = (functions.map (·.key)).eraseDups
  signatures : ∀ name, (overloads t name).map some =
    (functions.filter (·.key == name)).map (·.signature? settings)

theorem GathersAll.add {functions : List Stub.Function} {t : Table FunctionEntry}
    (h : GathersAll settings functions t) {function : Stub.Function} {signature : Signature}
    (hread : function.signature? settings = some signature) {entry : FunctionEntry}
    (hentry : entry.signatures = overloads t function.key ++ [signature]) :
    GathersAll settings (functions ++ [function]) (t.insert function.key entry) where
  keys := by
    have hmem : function.key ∈ t.keys ↔ function.key ∈ functions.map (·.key) := by
      rw [h.keys, mem_eraseDups]
    rw [Table.keys_insert, map_append, map_singleton, eraseDups_append_singleton, h.keys]
    simp only [← hmem, ← h.keys]
  signatures name := by
    rw [overloads, Table.get?_insert, filter_append, map_append, ← h.signatures name]
    by_cases hname : name = function.key
    · subst hname
      rw [if_pos rfl, Option.elim_some, hentry, map_append]
      simp [hread]
    · rw [if_neg hname]
      simp [overloads, Ne.symm hname]

/-! ### What a draft is made of -/

/-- The draft holds the given declarations: all signatures of functions, and the first of the
classes and constants of each key. -/
structure Draft.IsMadeOf (settings : Settings) (constants : List Stub.Constant)
    (functions : List Stub.Function) (classes : List Stub.ClassLike) (draft : Draft) : Prop where
  constants : KeepsFirst Stub.Constant.key (fun entry c => c.entry? settings = some entry)
    constants draft.constants
  functions : GathersAll settings functions draft.functions
  classes : KeepsFirst Stub.ClassLike.key (fun entry c => c.entry? settings = some entry)
    classes draft.classes

theorem isMadeOf_empty : ({} : Draft).IsMadeOf settings [] [] [] :=
  ⟨keepsFirst_nil, ⟨rfl, fun _ => rfl⟩, keepsFirst_nil⟩

section
variable {constants : List Stub.Constant} {functions : List Stub.Function}
  {classes : List Stub.ClassLike} {draft : Draft}

theorem isMadeOf_addConstant (constant : Stub.Constant)
    (h : draft.IsMadeOf settings constants functions classes) :
    (draft.addConstant settings constant).Meets (fun _ => True)
      (Draft.IsMadeOf settings (constants ++ [constant]) functions classes) :=
  addConstant_meets (fun hused => { h with constants := h.constants.refuse hused })
    fun hnew _ _ hread => { h with
      constants := h.constants.accept hnew (congrArg (Option.map Prod.fst) hread) }

theorem isMadeOf_addFunction (function : Stub.Function)
    (h : draft.IsMadeOf settings constants functions classes) :
    (draft.addFunction settings function).Meets (fun _ => True)
      (Draft.IsMadeOf settings constants (functions ++ [function]) classes) := by
  refine .bind (Checked.meets_result? _) fun result hresult => .pure ?_
  refine { h with functions := h.functions.add (congrArg (Option.map Prod.fst) hresult) ?_ }
  show _ = (draft.functions.get? function.key).elim [] (·.signatures) ++ [result.1]
  unfold Stub.Function.key
  split
  · next hget => rw [hget, Option.elim_some]
  · next hget => rw [hget, Option.elim_none, nil_append]

theorem isMadeOf_addClass (source : Stub.ClassLike)
    (h : draft.IsMadeOf settings constants functions classes) :
    (draft.addClass settings source).Meets (fun _ => True)
      (Draft.IsMadeOf settings constants functions (classes ++ [source])) :=
  addClass_meets (fun hused => { h with classes := h.classes.refuse hused })
    fun hnew _ hread => { h with
      classes := h.classes.accept hnew (congrArg (Option.map ClassDraft.entry) hread) }

theorem isMadeOf_addConstants (cs : List Stub.Constant)
    (h : draft.IsMadeOf settings constants functions classes) :
    (foldChecked (Draft.addConstant settings) draft cs).Meets (fun _ => True)
      (Draft.IsMadeOf settings (constants ++ cs) functions classes) :=
  .foldChecked_along (P := fun done => Draft.IsMadeOf settings done functions classes)
    (fun _ _ c h => isMadeOf_addConstant c h) h cs

theorem isMadeOf_addFunctions (fs : List Stub.Function)
    (h : draft.IsMadeOf settings constants functions classes) :
    (foldChecked (Draft.addFunction settings) draft fs).Meets (fun _ => True)
      (Draft.IsMadeOf settings constants (functions ++ fs) classes) :=
  .foldChecked_along (P := fun done => Draft.IsMadeOf settings constants done classes)
    (fun _ _ f h => isMadeOf_addFunction f h) h fs

theorem isMadeOf_addClasses (ks : List Stub.ClassLike)
    (h : draft.IsMadeOf settings constants functions classes) :
    (foldChecked (Draft.addClass settings) draft ks).Meets (fun _ => True)
      (Draft.IsMadeOf settings constants functions (classes ++ ks)) :=
  .foldChecked_along (P := fun done => Draft.IsMadeOf settings constants functions done)
    (fun _ _ k h => isMadeOf_addClass k h) h ks

end

/-- The draft holds the declarations of the files. -/
def Draft.IsMadeOfFiles (settings : Settings) (files : List Stub.File) (draft : Draft) : Prop :=
  draft.IsMadeOf settings (constantsOf settings files) (functionsOf settings files)
    (classesOf settings files)

theorem isMadeOf_addFiles (files : List Stub.File) : (collect settings files).Meets (fun _ => True)
      (Draft.IsMadeOfFiles settings files) :=
  addFiles_along (fun _ _ _ _ c h => isMadeOf_addConstant c h)
    (fun _ _ _ _ f h => isMadeOf_addFunction f h) (fun _ _ _ _ k h => isMadeOf_addClass k h)
    isMadeOf_empty files

/-! ### What is refused -/

/-- The diagnostic about a name that is already taken. -/
def duplicateDiagnostic (site : Site) : Diagnostic where
  kind := .duplicateDeclaration
  message := site.symbol ++ " is already declared; keeping the first declaration"
  file := some site.location.file
  line := some site.location.line
  symbol := some site.symbol

section
variable {draft : Draft} {file : Stub.File}

theorem addConstant_eq_report {constant : Stub.Constant}
    (h : draft.constants.contains constant.key) :
    draft.addConstant settings constant =
      Checked.report [duplicateDiagnostic constant.site] >>= fun _ => pure draft :=
  if_pos h

theorem addClass_eq_report {source : Stub.ClassLike} (h : draft.classes.contains source.key) :
    draft.addClass settings source =
      Checked.report [duplicateDiagnostic source.site] >>= fun _ => pure draft :=
  if_pos h

theorem addFile_eq_report (h : isSkipped settings file) : draft.addFile settings file =
      Checked.report (syntaxDiagnostics file) >>= fun _ => pure draft := by
  rw [Draft.addFile, if_pos h]

end

theorem reportsMore_foldChecked {α β : Type} {f : β → α → Checked β} {start : β} {xs : List α}
    {x : α} {P : β → Prop}
    (hxs : (foldChecked f start xs).Meets (fun _ => True) P)
    (hx : ∀ b, P b → f b x = Checked.report more >>= fun _ => pure b) (ys : List α) :
    ReportsMore more (foldChecked f start (xs ++ x :: ys)) (foldChecked f start (xs ++ ys)) := by
  rw [foldChecked_append, foldChecked_append]
  refine .after hxs fun b hb => ?_
  rw [foldChecked, hx b hb, Checked.bind_assoc]
  simp only [Checked.pure_bind]
  exact .report more _

section
variable {before after : List Stub.File} {file : Stub.File}

theorem reportsMore_file {file' : Stub.File}
    (h : ∀ draft : Draft, draft.IsMadeOfFiles settings before →
      ReportsMore more (draft.addFile settings file) (draft.addFile settings file')) :
    ReportsMore more (collect settings (before ++ file :: after))
      (collect settings (before ++ file' :: after)) := by
  rw [collect, collect, foldChecked_append, foldChecked_append]
  exact .after (isMadeOf_addFiles before) fun draft hdraft => (h draft hdraft).bind _

theorem reportsMore_addClass {source : Stub.ClassLike} {cs ds : List Stub.ClassLike}
    (htaken : isSkipped settings file = false) (hclasses : file.classes = cs ++ source :: ds)
    (hused : source.key ∈ (classesOf settings before ++ cs).map (·.key)) :
    ReportsMore [duplicateDiagnostic source.site]
      (collect settings (before ++ file :: after))
      (collect settings (before ++ { file with classes := cs ++ ds } :: after)) := by
  refine reportsMore_file fun draft hdraft => ?_
  have htaken' : isSkipped settings { file with classes := cs ++ ds } = false := htaken
  unfold Draft.addFile
  simp only [htaken, htaken', Bool.false_eq_true, if_false, hclasses]
  refine .after (.any _) fun _ _ => ?_
  refine .after (isMadeOf_addConstants file.constants hdraft) fun draft hdraft => ?_
  refine .after (isMadeOf_addFunctions file.functions hdraft) fun draft hdraft => ?_
  refine reportsMore_foldChecked (isMadeOf_addClasses cs hdraft) (fun draft hdraft => ?_) ds
  exact addClass_eq_report (hdraft.classes.contains_iff.mpr hused)

theorem reportsMore_addConstant {constant : Stub.Constant} {cs ds : List Stub.Constant}
    (htaken : isSkipped settings file = false) (hconstants : file.constants = cs ++ constant :: ds)
    (hused : constant.key ∈ (constantsOf settings before ++ cs).map (·.key)) :
    ReportsMore [duplicateDiagnostic constant.site]
      (collect settings (before ++ file :: after))
      (collect settings (before ++ { file with constants := cs ++ ds } :: after)) := by
  refine reportsMore_file fun draft hdraft => ?_
  have htaken' : isSkipped settings { file with constants := cs ++ ds } = false := htaken
  unfold Draft.addFile
  simp only [htaken, htaken', Bool.false_eq_true, if_false, hconstants]
  refine .after (.any _) fun _ _ => ReportsMore.bind ?_ _
  refine reportsMore_foldChecked (isMadeOf_addConstants cs hdraft) (fun draft hdraft => ?_) ds
  exact addConstant_eq_report (hdraft.constants.contains_iff.mpr hused)

theorem reportsMore_skipped (hskipped : isSkipped settings file) :
    ReportsMore (syntaxDiagnostics file) (collect settings (before ++ file :: after))
      (collect settings (before ++ after)) :=
  reportsMore_foldChecked (.any _) (fun _ _ => addFile_eq_report hskipped) after

end

/-! ### Catalogs -/

/-- Both builds stop for the same reason, or they return catalogs that are equal but for the
diagnostics `more`, which the first one holds in one place. -/
def SameButFor (more : List Diagnostic) (x y : Except BuildError Catalog) : Prop :=
  (∃ e, x = .error e ∧ y = .error e) ∨
    ∃ (catalog : Catalog) (found later : List Diagnostic),
      x = .ok { catalog with diagnostics := found ++ more ++ later } ∧
      y = .ok { catalog with diagnostics := found ++ later }

theorem sameButFor_build {files files' : List Stub.File}
    (h : ReportsMore more (collect settings files) (collect settings files'))
    (earlier : List Diagnostic) :
    SameButFor more (Catalog.build settings files earlier)
      (Catalog.build settings files' earlier) := by
  unfold Catalog.build
  rcases h with ⟨e, hx, hy⟩ | ⟨draft, found, later, hx, hy⟩
  · rw [hx, hy]
    exact .inl ⟨e, rfl, rfl⟩
  · rw [hx, hy]
    refine .inr ⟨draft.finish settings [], earlier ++ found,
      later ++ (link settings draft.classes).2, ?_⟩
    simp [Draft.finish, bind, Except.bind, pure, Except.pure]

theorem Constants.keys_settleAll (state : Constants) (pending : List Pending) :
    (state.settleAll pending).classes.keys = state.classes.keys ∧
      (state.settleAll pending).globals.keys = state.globals.keys := by
  refine settleAll_keeps (P := fun after => after.classes.keys = state.classes.keys ∧
    after.globals.keys = state.globals.keys) (fun _ after p site _ _ _ hafter => ?_)
    (fun _ hp => hp) ⟨rfl, rfl⟩
  unfold Constants.follow
  split
  · cases p.site with
    | global key => exact ⟨hafter.1, (Table.keys_modify ..).trans hafter.2⟩
    | member owner name => exact ⟨(Table.keys_modify ..).trans hafter.1, hafter.2⟩
  · exact hafter

theorem keys_finish (settings : Settings) (draft : Draft) (found : List Diagnostic) :
    (draft.finish settings found).classes.keys = draft.classes.keys ∧
      (draft.finish settings found).constants.keys = draft.constants.keys := by
  obtain ⟨hclasses, hglobals⟩ := (draft.linked settings).keys_settleAll draft.pending
  exact ⟨hclasses.trans keys_link, hglobals⟩

end Build

open Build

/-- **Every declaration is accounted for.** A catalog is finished from a draft in which a function
has the signatures of all its declarations, in the order of files and in a file, over the files that
are not skipped, and a class or global constant is the entry of the first declaration of its key; in
the catalog this is still so, with ancestors looked up, members of traits taken in and open values
filled in. A build without a later declaration of a class or global constant comes to the same and
reports one duplicate less, and so does a build without a skipped file, less its syntax errors. -/
theorem Catalog.build_accounts (settings : Settings) (files : List Stub.File)
    (earlier : List Diagnostic) :
    (∀ catalog, Catalog.build settings files earlier = .ok catalog →
      (∃ (draft : Draft) (found : List Diagnostic), catalog = draft.finish settings found ∧
        draft.IsMadeOf settings (constantsOf settings files) (functionsOf settings files)
          (classesOf settings files)) ∧
      GathersAll settings (functionsOf settings files) catalog.functions ∧
      KeepsFirst Stub.ClassLike.key
        (fun entry c => ∃ declared, c.entry? settings = some declared ∧ entry.Completes declared)
        (classesOf settings files) catalog.classes ∧
      KeepsFirst Stub.Constant.key
        (fun entry c => ∃ declared, c.entry? settings = some declared ∧ entry.Completes declared)
        (constantsOf settings files) catalog.constants) ∧
    (∀ before file after, files = before ++ file :: after →
      (isSkipped settings file = false →
        (∀ cs c ds, file.classes = cs ++ c :: ds →
          c.key ∈ (classesOf settings before ++ cs).map (·.key) →
          SameButFor [duplicateDiagnostic c.site] (Catalog.build settings files earlier)
            (Catalog.build settings (before ++ { file with classes := cs ++ ds } :: after)
              earlier)) ∧
        (∀ cs c ds, file.constants = cs ++ c :: ds →
          c.key ∈ (constantsOf settings before ++ cs).map (·.key) →
          SameButFor [duplicateDiagnostic c.site] (Catalog.build settings files earlier)
            (Catalog.build settings (before ++ { file with constants := cs ++ ds } :: after)
              earlier))) ∧
      (isSkipped settings file = true →
        SameButFor (syntaxDiagnostics file) (Catalog.build settings files earlier)
          (Catalog.build settings (before ++ after) earlier))) := by
  constructor
  · intro catalog hbuild
    obtain ⟨hclasses, hconstants⟩ := completed_build hbuild
    obtain ⟨hdraft, found, rfl⟩ := of_build (isMadeOf_addFiles files) hbuild
    obtain ⟨hclassKeys, hconstantKeys⟩ :=
      keys_finish settings (Draft.ofFiles settings files) found
    refine ⟨⟨_, found, rfl, hdraft⟩, hdraft.functions,
      hdraft.classes.mono hclassKeys fun name => ?_,
      hdraft.constants.mono hconstantKeys fun name => ?_⟩
    · exact rel_mono (hclasses name) fun _ declared hentry c hread => ⟨declared, hread, hentry⟩
    · exact rel_mono (hconstants name) fun _ declared hentry c hread => ⟨declared, hread, hentry⟩
  · rintro before file after rfl
    refine ⟨fun htaken => ⟨fun cs c ds hclasses hused => ?_, fun cs c ds hconstants hused => ?_⟩,
      fun hskipped => ?_⟩
    · exact sameButFor_build (reportsMore_addClass htaken hclasses hused) earlier
    · exact sameButFor_build (reportsMore_addConstant htaken hconstants hused) earlier
    · exact sameButFor_build (reportsMore_skipped hskipped) earlier

/-! ### Declarations in three files -/

namespace Build

/-- A constant, a function and a class. -/
def packFile : Stub.File where
  path := "a.php"
  constants := [
    { name := "LIMIT", valueText := some "1", context := { file := "a.php" }
      location := { file := "a.php", line := 2 } }]
  functions := [
    { name := "pack", resultText := some "int", context := { file := "a.php" }
      location := { file := "a.php", line := 3 } }]
  classes := [
    { kind := .plainClass, name := "Box", context := { file := "a.php" }
      location := { file := "a.php", line := 4 } }]

/-- A file that cannot be parsed and declares the function too. -/
def brokenFile : Stub.File where
  path := "b.php"
  functions := [
    { name := "pack", resultText := some "float", context := { file := "b.php" }
      location := { file := "b.php", line := 2 } }]
  problems := [{ line := 3, column := 1, message := "syntax error" }]

/-- The class once more, in another spelling. -/
def boxAgain : Stub.ClassLike where
  kind := .interface
  name := "BOX"
  context := { file := "c.php" }
  location := { file := "c.php", line := 4 }

/-- The constant once more. -/
def limitAgain : Stub.Constant where
  name := "LIMIT"
  valueText := some "2"
  context := { file := "c.php" }
  location := { file := "c.php", line := 2 }

/-- All three once more, and another class. -/
def againFile : Stub.File where
  path := "c.php"
  constants := [limitAgain]
  functions := [
    { name := "Pack", resultText := some "string", context := { file := "c.php" }
      location := { file := "c.php", line := 3 } }]
  classes := [
    boxAgain,
    { kind := .plainClass, name := "Crate", context := { file := "c.php" }
      location := { file := "c.php", line := 5 } }]

/-- Files that cannot be parsed are skipped. -/
def skipping : Settings := { skipInvalidFiles := true }

theorem again_facts : (isSkipped skipping brokenFile ∧ isSkipped skipping againFile = false) ∧
    boxAgain.key ∈ (classesOf skipping [packFile, brokenFile] ++ []).map Stub.ClassLike.key ∧
    limitAgain.key ∈ (constantsOf skipping [packFile, brokenFile] ++ []).map Stub.Constant.key := by
  decide

end Build

theorem Catalog.build_accounts_again :
    (∃ catalog, Catalog.build skipping [packFile, brokenFile, againFile] = .ok catalog ∧
      (overloads catalog.functions "pack").map (·.returnType.text) = ["int", "string"] ∧
      catalog.classes.keys = ["box", "crate"] ∧
      (catalog.classes.get? "box").map (·.kind) = some .plainClass ∧
      catalog.constants.keys = ["LIMIT"]) ∧
    SameButFor [duplicateDiagnostic boxAgain.site]
      (Catalog.build skipping [packFile, brokenFile, againFile])
      (Catalog.build skipping
        [packFile, brokenFile, { againFile with classes := againFile.classes.tail }]) ∧
    SameButFor [duplicateDiagnostic limitAgain.site]
      (Catalog.build skipping [packFile, brokenFile, againFile])
      (Catalog.build skipping [packFile, brokenFile, { againFile with constants := [] }]) ∧
    SameButFor (syntaxDiagnostics brokenFile)
      (Catalog.build skipping [packFile, brokenFile, againFile])
      (Catalog.build skipping [packFile, againFile]) := by
  obtain ⟨-, hwithout⟩ := Catalog.build_accounts skipping [packFile, brokenFile, againFile] []
  obtain ⟨⟨hbroken, hagain⟩, hbox, hlimit⟩ := again_facts
  obtain ⟨hlater, -⟩ := hwithout [packFile, brokenFile] againFile [] rfl
  obtain ⟨hclass, hconstant⟩ := hlater hagain
  obtain ⟨-, hfile⟩ := hwithout [packFile] brokenFile [againFile] rfl
  exact ⟨exists_catalog (by decide +kernel), hclass [] boxAgain _ rfl hbox,
    hconstant [] limitAgain [] rfl hlimit, hfile hbroken⟩

end StubCatalog
