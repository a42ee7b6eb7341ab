import StubCatalog.Proofs.Build.Declarations

/-! # What a declaration adds

What one declaration does to a draft, said once (`addConstant_meets`, `addClass_meets`,
`IsReading`). What every declaration carries on, all files carry on (`addFiles_along`). -/

namespace StubCatalog

open List

variable {fault : BuildError → Prop} {constant : Stub.Constant}

/-! ### Results -/

namespace Checked
variable {α β : Type}

theorem Meets.any (x : Checked α) : x.Meets (fun _ => True) fun _ => True := by
  unfold Meets
  split <;> trivial

theorem Meets.and {x : Checked α} {P Q : α → Prop} (hp : x.Meets fault P) (hq : x.Meets fault Q) :
    x.Meets fault fun a => P a ∧ Q a := by
  unfold Meets at *
  split
  · next hrun =>
    rw [hrun] at hp hq
    exact ⟨hp, hq⟩
  · next hrun =>
    rw [hrun] at hp
    exact hp

/-- The result, unless the step stops. -/
def result? (x : Checked α) : Option α := x.run.toOption.map Prod.fst

theorem result?_bind (x : Checked α) (f : α → Checked β) :
    (x >>= f).result? = x.result?.bind fun a => (f a).result? := by
  show (Checked.bind x f).result? = _
  obtain ⟨x⟩ := x
  cases x with
  | error e => rfl
  | ok result =>
    obtain ⟨a, found⟩ := result
    unfold result? Checked.bind
    dsimp only [Except.toOption, Option.map_some, Option.bind_some]
    cases (f a).run <;> rfl

theorem Meets.of_result? {x : Checked α} {P : α → Prop} {a : α} (h : x.Meets fault P)
    (ha : x.result? = some a) : P a := by
  unfold Meets at h
  unfold result? at ha
  cases hrun : x.run with
  | error e =>
    rw [hrun] at ha
    cases ha
  | ok result =>
    rw [hrun] at h ha
    obtain rfl := Option.some.inj ha
    exact h

theorem meets_result? (x : Checked α) : x.Meets (fun _ => True) fun a => x.result? = some a := by
  unfold Meets result?
  cases x.run with
  | error e => trivial
  | ok result => rfl

/-- A property of the result and of the members taken so far that every step carries on. -/
theorem Meets.foldChecked_along {P : List α → β → Prop} {f : β → α → Checked β}
    (h : ∀ done b x, P done b → (f b x).Meets fault (P (done ++ [x]))) {done : List α} {start : β}
    (hstart : P done start) (xs : List α) :
    (Build.foldChecked f start xs).Meets fault (P (done ++ xs)) := by
  induction xs generalizing done start with
  | nil =>
    rw [append_nil]
    exact .pure hstart
  | cons x xs ih =>
    refine .bind (h done start x hstart) fun b hb => ?_
    rw [append_cons]
    exact ih hb

end Checked

/-! ### Keys and readings -/

namespace Stub

open Build

/-- The key under which a class is declared. -/
def ClassLike.key (source : ClassLike) : String :=
  Name.symbolKey (source.context.qualify source.name)

/-- The key under which a function is declared. -/
def Function.key (function : Function) : String :=
  Name.symbolKey (function.context.qualify function.name)

/-- The key under which a constant is declared. -/
def Constant.key (constant : Constant) : String :=
  Name.constantKey (constant.context.qualify constant.name)

/-- The name of a class and its place. -/
def ClassLike.site (source : ClassLike) : Site :=
  ⟨source.context.qualify source.name, source.location⟩

/-- The name of a constant and its place. -/
def Constant.site (constant : Constant) : Site :=
  ⟨constant.context.qualify constant.name, constant.location⟩

/-- The declared type of a constant: that of its comment, or else that of its hint. -/
def Constant.declaredType (site : Site) (scope : Scope) (constant : Constant) :
    Checked (Option TypeExpr) := do
  let block ← readDocblock site constant.docblock
  Build.declaredType site scope (block.varType none) constant.typeText

/-- What is known about the value of a constant. -/
def Constant.evaluation? (settings : Settings) (constant : Constant) : Option Evaluation :=
  (Evaluation.ofText constant.valueText settings.unknownMarker).toOption

/-- What a global constant is read as. -/
def Constant.reading? (settings : Settings) (constant : Constant) :
    Option (ConstantEntry × Option OpenReference) :=
  (readConstant settings .constant none { context := some constant.context }
    (constant.context.qualify constant.name) constant).result?

/-- What a class is read as. -/
def ClassLike.reading? (settings : Settings) (source : ClassLike) : Option ClassDraft :=
  (readClass settings (source.context.qualify source.name) source).result?

end Stub

namespace Build

variable {settings : Settings} {draft : Draft} {P : Draft → Prop}

/-- The entry and the reference that a constant is read as, given its declared type and what is known
about its value. -/
structure IsReading (kind : DeclarationKind) (owner : Option String) (symbol : String)
    (context : NamingContext) (declared : Option TypeExpr) (known : Evaluation)
    (entry : ConstantEntry) (target : Option OpenReference) : Prop where
  kind_eq : entry.declaration.kind = kind
  name_eq : entry.declaration.qualifiedName = symbol
  type : entry.type = declared.getD (inferredType known)
  value : entry.value = knownValue known
  isValueKnown : entry.isValueKnown = known.isKnown
  reference : target = (Reference.ofEvaluation? known).map fun reference =>
    { reference, context, owner, hasDeclaredType := declared.isSome }

theorem evaluation?_of_evaluate {known : Evaluation}
    (h : (evaluate settings constant.valueText).result? = some known) :
    constant.evaluation? settings = some known := by
  unfold Checked.result? evaluate Checked.ofExcept at h
  unfold Stub.Constant.evaluation?
  generalize Evaluation.ofText constant.valueText settings.unknownMarker = result at h ⊢
  cases result with
  | error e => cases h
  | ok known => exact h

theorem isReading_readConstant {kind : DeclarationKind} {owner : Option String} {scope : Scope}
    {symbol : String} :
    (readConstant settings kind owner scope symbol constant).Meets (fun _ => True) fun result =>
      ∃ declared known, (constant.declaredType ⟨symbol, constant.location⟩ scope).result? =
        some declared ∧ constant.evaluation? settings = some known ∧
        IsReading kind owner symbol constant.context declared known result.1 result.2 := by
  refine .bind (Checked.meets_result? _) fun block hblock => ?_
  refine .bind (Checked.meets_result? _) fun declared hdeclared => ?_
  refine .bind (Checked.meets_result? _) fun known hknown => .pure ⟨declared, known, ?_,
    evaluation?_of_evaluate hknown, rfl, rfl, rfl, rfl, rfl, rfl⟩
  rw [Stub.Constant.declaredType, Checked.result?_bind, hblock, Option.bind_some, hdeclared]

/-- **A constant** is refused, or put under its key with its reference noted. -/
theorem addConstant_meets (hused : draft.constants.contains constant.key → P draft)
    (hnew : ¬ draft.constants.contains constant.key → ∀ entry target,
      constant.reading? settings = some (entry, target) →
      P { draft with
        constants := draft.constants.insert constant.key entry
        pending := draft.pending ++ (target.map (⟨.global constant.key, ·⟩)).toList }) :
    (draft.addConstant settings constant).Meets (fun _ => True) P := by
  unfold Draft.addConstant
  dsimp only
  split
  · next h => exact .bind (.any _) fun _ _ => .pure (hused h)
  · next h => exact .bind (Checked.meets_result? _) fun _ hread => .pure (hnew h _ _ hread)

/-- **A class** is refused, or put under its key with the references of its constants noted. -/
theorem addClass_meets {source : Stub.ClassLike}
    (hused : draft.classes.contains source.key → P draft)
    (hnew : ¬ draft.classes.contains source.key → ∀ found,
      source.reading? settings = some found →
      P { draft with
        classes := draft.classes.insert source.key found.entry
        pending := draft.pending ++ found.pending }) :
    (draft.addClass settings source).Meets (fun _ => True) P := by
  unfold Draft.addClass
  dsimp only
  split
  · next h => exact .bind (.any _) fun _ _ => .pure (hused h)
  · next h => exact .bind (Checked.meets_result? _) fun _ hread => .pure (hnew h _ hread)

/-! ### All files -/

/-- The files whose declarations are taken up. -/
def takenUp (settings : Settings) (files : List Stub.File) : List Stub.File :=
  files.filter fun file => !isSkipped settings file

/-- The global constants that the files declare, in order. -/
def constantsOf (settings : Settings) (files : List Stub.File) : List Stub.Constant :=
  (takenUp settings files).flatMap (·.constants)

/-- The functions that the files declare, in order. -/
def functionsOf (settings : Settings) (files : List Stub.File) : List Stub.Function :=
  (takenUp settings files).flatMap (·.functions)

/-- The classes that the files declare, in order. -/
def classesOf (settings : Settings) (files : List Stub.File) : List Stub.ClassLike :=
  (takenUp settings files).flatMap (·.classes)

section
variable {P : List Stub.Constant → List Stub.Function → List Stub.ClassLike → Draft → Prop}
  (hconstant : ∀ cs fs ks draft c, P cs fs ks draft →
    (draft.addConstant settings c).Meets (fun _ => True) (P (cs ++ [c]) fs ks))
  (hfunction : ∀ cs fs ks draft f, P cs fs ks draft →
    (draft.addFunction settings f).Meets (fun _ => True) (P cs (fs ++ [f]) ks))
  (hclass : ∀ cs fs ks draft k, P cs fs ks draft →
    (draft.addClass settings k).Meets (fun _ => True) (P cs fs (ks ++ [k])))
include hconstant hfunction hclass

theorem addFile_along {files : List Stub.File} (file : Stub.File)
    (h : P (constantsOf settings files) (functionsOf settings files) (classesOf settings files)
      draft) :
    (draft.addFile settings file).Meets (fun _ => True)
      (P (constantsOf settings (files ++ [file])) (functionsOf settings (files ++ [file]))
        (classesOf settings (files ++ [file]))) := by
  unfold constantsOf functionsOf classesOf takenUp at *
  refine .bind (.any _) fun _ _ => ?_
  split
  · next hskipped =>
    simp only [filter_append, filter_singleton, hskipped, Bool.not_true, cond_false,
      append_nil]
    exact .pure h
  · next htaken =>
    simp only [filter_append, filter_singleton, Bool.eq_false_iff.mpr htaken,
      Bool.not_false, cond_true, flatMap_append, flatMap_singleton]
    refine .bind (.foldChecked_along (P := fun cs => P cs _ _)
      (fun _ _ c h => hconstant _ _ _ _ c h) h file.constants) fun _ h => ?_
    refine .bind (.foldChecked_along (P := fun fs => P _ fs _)
      (fun _ _ f h => hfunction _ _ _ _ f h) h file.functions) fun _ h => ?_
    exact .foldChecked_along (P := fun ks => P _ _ ks) (fun _ _ k h => hclass _ _ _ _ k h) h
      file.classes

theorem addFiles_along (hempty : P [] [] [] {}) (files : List Stub.File) :
    (collect settings files).Meets (fun _ => True)
      (P (constantsOf settings files) (functionsOf settings files) (classesOf settings files)) :=
  have hnone : P (constantsOf settings []) (functionsOf settings []) (classesOf settings []) {} :=
    hempty
  .foldChecked_along (P := fun files => P (constantsOf settings files)
    (functionsOf settings files) (classesOf settings files))
    (fun _ _ file h => addFile_along hconstant hfunction hclass file h) hnone files

end

theorem addFiles_keeps (hempty : P {})
    (hconstant : ∀ draft c, P draft → (draft.addConstant settings c).Meets (fun _ => True) P)
    (hfunction : ∀ draft f, P draft → (draft.addFunction settings f).Meets (fun _ => True) P)
    (hclass : ∀ draft k, P draft → (draft.addClass settings k).Meets (fun _ => True) P)
    (files : List Stub.File) :
    (collect settings files).Meets (fun _ => True) P :=
  addFiles_along (P := fun _ _ _ => P) (fun _ _ _ => hconstant) (fun _ _ _ => hfunction)
    (fun _ _ _ => hclass) hempty files

end Build

end StubCatalog
