import StubCatalog.Build.Finish
import StubCatalog.Catalog.Types
import StubCatalog.Proofs.TypeExpr.CanonicalForm

/-! # What reading declarations comes to

Every step of a build ends with a result or with a reason to stop (`Checked.Meets`). What is asked
of the texts in a declaration, and which reasons may stop the build, is left open (`Terms`), so that
the same lemmas serve a build that always ends with a result and a build that may stop.

The types that come out are those that a text can hold, in canonical form, and the type arguments
that a class gives its ancestors mention no template parameters but its own (`IsReadClass`). -/

namespace StubCatalog

open List

open TypeExpr (ReadForm RegularForm)

variable {text : String} {constant : Stub.Constant} {names : String → Prop} {scope : Scope}

/-! ### Steps of a build -/

namespace Checked
variable {α β : Type} {fault : BuildError → Prop} {P : α → Prop} {Q : β → Prop}

/-- The step has a result with the property `P`, or stops for a reason that is allowed. -/
def Meets (x : Checked α) (fault : BuildError → Prop) (P : α → Prop) : Prop :=
  match x.run with
  | .ok (a, _) => P a
  | .error e => fault e

theorem Meets.pure {a : α} (h : P a) : (pure a : Checked α).Meets fault P := h

theorem Meets.report (found : List Diagnostic) : (report found).Meets fault fun _ => True := trivial

theorem Meets.ofExcept {x : Except BuildError α} (hok : ∀ a, x = .ok a → P a)
    (herror : ∀ e, x = .error e → fault e) : (ofExcept x).Meets fault P := by
  cases x with
  | ok a => exact hok a rfl
  | error e => exact herror e rfl

theorem Meets.bind {x : Checked α} {f : α → Checked β} (hx : x.Meets fault P)
    (hf : ∀ a, P a → (f a).Meets fault Q) : (x >>= f).Meets fault Q := by
  show (Checked.bind x f).Meets fault Q
  obtain ⟨x⟩ := x
  cases x with
  | error e => exact hx
  | ok result =>
    obtain ⟨a, found⟩ := result
    have hfa := hf a hx
    unfold Meets Checked.bind at *
    dsimp only at *
    generalize (f a).run = y at hfa
    cases y with
    | error e => exact hfa
    | ok result => exact hfa

theorem Meets.mono {x : Checked α} {Q : α → Prop} (hx : x.Meets fault P) (h : ∀ a, P a → Q a) :
    x.Meets fault Q := by
  unfold Meets at *
  split at hx
  · exact h _ hx
  · exact hx

theorem Meets.forAll {f : α → Checked β} {xs : List α} (h : ∀ x ∈ xs, (f x).Meets fault Q) :
    (forAll f xs).Meets fault fun ys => ∀ y ∈ ys, Q y := by
  induction xs with
  | nil => exact .pure (by simp)
  | cons x xs ih =>
    refine .bind (h x (by simp)) fun y hy => ?_
    refine .bind (ih fun z hz => h z (by simp [hz])) fun ys hys => .pure ?_
    exact forall_mem_cons.mpr ⟨hy, hys⟩

theorem Meets.each {f : α → Checked Unit} {xs : List α}
    (h : ∀ x ∈ xs, (f x).Meets fault fun _ => True) : (each f xs).Meets fault fun _ => True := by
  induction xs with
  | nil => exact .pure trivial
  | cons x xs ih => exact .bind (h x (by simp)) fun _ _ => ih fun z hz => h z (by simp [hz])

theorem Meets.foldChecked {f : β → α → Checked β} {start : β} {xs : List α} (hstart : Q start)
    (h : ∀ b, Q b → ∀ x ∈ xs, (f b x).Meets fault Q) :
    (Build.foldChecked f start xs).Meets fault Q := by
  induction xs generalizing start with
  | nil => exact .pure hstart
  | cons x xs ih =>
    refine .bind (h start hstart x (by simp)) fun b hb => ?_
    exact ih hb fun c hc y hy => h c hc y (by simp [hy])

end Checked

/-! ### The texts of declarations -/

/-- The types in the tags that belong to a function. -/
def Docblock.signatureTexts (block : Docblock) : List String :=
  block.templates.filterMap (·.boundText) ++ block.params.values.map (·.typeText)
    ++ block.paramOuts.values.map (·.typeText) ++ (block.result.map (·.typeText)).toList
    ++ block.throws.map (·.typeText) ++ block.assertions.map (·.typeText)

/-- The types in the tags that belong to a constant or a property. -/
def Docblock.variableTexts (block : Docblock) : List String := block.vars.map (·.typeText)

/-- The types in the tags that belong to a class. -/
def Docblock.classTexts (block : Docblock) : List String :=
  block.templates.filterMap (·.boundText) ++ block.extended.map (·.typeText)
    ++ block.implemented.map (·.typeText) ++ block.used.map (·.typeText)

namespace Stub

/-- The types in a function and its docblock. -/
def Function.typeTexts (function : Function) : List String :=
  function.parameters.flatMap (·.typeText.toList) ++ function.resultText.toList
    ++ (Docblock.parse function.docblock).signatureTexts

/-- The defaults in a function. -/
def Function.valueTexts (function : Function) : List String :=
  function.parameters.flatMap (·.defaultText.toList)

/-- The types in a constant and its docblock. -/
def Constant.typeTexts (constant : Constant) : List String :=
  constant.typeText.toList ++ (Docblock.parse constant.docblock).variableTexts

/-- The types in a property and its docblock. -/
def Property.typeTexts (property : Property) : List String :=
  property.typeText.toList ++ (Docblock.parse property.docblock).variableTexts

/-- The types in a class, its members and their docblocks. -/
def ClassLike.typeTexts (source : ClassLike) : List String :=
  source.backingText.toList ++ (Docblock.parse source.docblock).classTexts
    ++ source.traitUses.flatMap (fun use => (Docblock.parse use.docblock).used.map (·.typeText))
    ++ source.methods.flatMap (·.typeTexts) ++ source.properties.flatMap (·.typeTexts)
    ++ source.constants.flatMap (·.typeTexts)

/-- The values and defaults in a class. -/
def ClassLike.valueTexts (source : ClassLike) : List String :=
  source.methods.flatMap (·.valueTexts) ++ source.properties.flatMap (·.defaultText.toList)
    ++ source.constants.flatMap (·.valueText.toList) ++ source.cases.flatMap (·.valueText.toList)

/-- The types in a file. -/
def File.typeTexts (file : File) : List String :=
  file.constants.flatMap (·.typeTexts) ++ file.functions.flatMap (·.typeTexts)
    ++ file.classes.flatMap (·.typeTexts)

/-- The values and defaults in a file. -/
def File.valueTexts (file : File) : List String :=
  file.constants.flatMap (·.valueText.toList) ++ file.functions.flatMap (·.valueTexts)
    ++ file.classes.flatMap (·.valueTexts)

end Stub

namespace Build

/-! ### Types -/

/-- What is asked of a build and what may stop it: the integers of types, the reasons to stop, the
texts of types and those of values. -/
structure Terms where
  settings : Settings
  ints : Int → Prop
  fault : BuildError → Prop
  type : String → Prop
  value : String → Prop
  /-- An integer in the text of a type has a value that may stand in a type, or may stop the
  build. -/
  read {text l : String} : type text → l ∈ TypeExpr.integerLiterals text →
    (∀ n, Numeral.readLiteral l = .ok n → ints n ∧ ints (-n)) ∧
      ∀ e, Numeral.readLiteral l = .error e → fault (.numeral e)
  /-- A type that stands in a message can be written, or may stop the build. -/
  write {names : String → Prop} {t : TypeExpr} {e : Numeral.Error} :
    settings.reportAnnotationConflicts → ReadForm names ints t → t.written = .error e →
      fault (.numeral e)
  /-- A value can be evaluated, or may stop the build. -/
  evaluate {text : String} {e : Numeral.Error} : value text →
    Evaluation.ofText (some text) settings.unknownMarker = .error e → fault (.numeral e)

/-- The template parameters in scope are among `names`, and their bounds are types that are read. -/
def IsReadScope (d : Terms) (names : String → Prop) (scope : Scope) : Prop :=
  ∀ name bound, scope.templates.get? name = some bound →
    names name ∧ ∀ t ∈ bound, ReadForm names d.ints t

section
variable {d : Terms} {names : String → Prop} {scope : Scope} {site : Site}

theorem readForm_mixed : ReadForm names d.ints .mixed :=
  TypeExpr.formed_keyword (fun _ h => h) "mixed"

theorem readForm_unknown (reason : Label) : ReadForm names d.ints (.unknown reason) :=
  TypeExpr.formed_unknown (fun _ h => h) reason

theorem readForm_mono_names {names' : String → Prop} {t : TypeExpr} (h : ReadForm names d.ints t)
    (hnames : ∀ name, names name → names' name) : ReadForm names' d.ints t :=
  TypeExpr.Everywhere.mono h fun _ hu =>
    ⟨hu.1, hu.2.regular, hu.2.number, hu.2.integers, fun name bound ht =>
      hnames _ (hu.2.template name bound ht)⟩

theorem readForm_getD {t : Option TypeExpr} (h : ∀ u ∈ t, ReadForm names d.ints u) :
    ReadForm names d.ints (t.getD .mixed) := by
  cases t with
  | none => exact readForm_mixed
  | some t => exact h t rfl

theorem meets_siteReport (kind : DiagnosticKind) (message : String) :
    (site.report kind message).Meets d.fault fun _ => True :=
  .report _

theorem meets_readDocblock (text : Option String) :
    (readDocblock site text).Meets d.fault fun block => block = Docblock.parse text :=
  .bind (.each fun _ _ => .report _) fun _ _ => .pure rfl

theorem meets_parseType (hscope : IsReadScope d names scope) (h : d.type text) :
    (parseType scope text).Meets d.fault fun r => ∀ t, r = .ok t → ReadForm names d.ints t := by
  unfold parseType
  split
  · next t ht =>
    refine .pure ?_
    rintro _ ⟨⟩
    exact TypeExpr.formed_of_parse (fun _ h => h) hscope (fun l hl n hn => (d.read h hl).1 n hn) ht
  · next e he =>
    obtain ⟨l, hl, hread⟩ := TypeExpr.exists_integer_of_parse he
    exact .ofExcept nofun (by rintro _ ⟨⟩; exact (d.read h hl).2 e hread)
  · exact .pure nofun

theorem meets_nativeType {text : Option String} (hscope : IsReadScope d names scope)
    (h : ∀ s ∈ text, d.type s) :
    (nativeType site scope text).Meets d.fault fun t => ∀ u ∈ t, ReadForm names d.ints u := by
  cases text with
  | none => exact .pure (by simp)
  | some text =>
    refine .bind (meets_parseType hscope (h text rfl)) fun r hr => ?_
    cases r with
    | ok t => exact .pure (by simpa using hr t rfl)
    | error message =>
      refine .bind (meets_siteReport ..) fun _ _ => .pure ?_
      simpa using readForm_unknown _

theorem meets_documentedType (hscope : IsReadScope d names scope) (h : d.type text) :
    (documentedType site scope text).Meets d.fault fun t => ∀ u ∈ t, ReadForm names d.ints u := by
  refine .bind (meets_parseType hscope h) fun r hr => ?_
  cases r with
  | ok t => exact .pure (by simpa using hr t rfl)
  | error message => exact .bind (meets_siteReport ..) fun _ _ => .pure (by simp)

theorem meets_tagType {text : Option String} (hscope : IsReadScope d names scope)
    (h : ∀ s ∈ text, d.type s) :
    (tagType site scope text).Meets d.fault fun t => ∀ u ∈ t, ReadForm names d.ints u := by
  cases text with
  | none => exact .pure (by simp)
  | some text => exact meets_documentedType hscope (h text rfl)

theorem meets_declaredType {documented declared : Option String}
    (hscope : IsReadScope d names scope) (hdocumented : ∀ s ∈ documented, d.type s)
    (hdeclared : ∀ s ∈ declared, d.type s) :
    (declaredType site scope documented declared).Meets d.fault fun t =>
      ∀ u ∈ t, ReadForm names d.ints u := by
  refine .bind (meets_tagType hscope hdocumented) fun t ht => ?_
  cases t with
  | some t => exact .pure ht
  | none => exact meets_nativeType hscope hdeclared

theorem meets_readTemplates {tags : List TemplateTag} (hscope : IsReadScope d names scope)
    (hnames : ∀ tag ∈ tags, names tag.name) (h : ∀ tag ∈ tags, ∀ text ∈ tag.boundText, d.type text) :
    (readTemplates site scope tags).Meets d.fault fun result =>
      result.1.map (·.name) = tags.map (·.name) ∧
        (∀ p ∈ result.1, ∀ t ∈ p.bound, ReadForm names d.ints t) ∧
        IsReadScope d names result.2 := by
  induction tags generalizing scope with
  | nil => exact .pure ⟨rfl, by simp, hscope⟩
  | cons tag tags ih =>
    refine .bind (meets_tagType hscope (h tag (by simp))) fun bound hbound => ?_
    have hinner : IsReadScope d names
        (scope.withTemplates (Table.ofList [(tag.name, bound)])) := by
      refine Table.Holds.union hscope (Table.holds_ofList ?_)
      simpa using ⟨hnames tag (by simp), hbound⟩
    refine .bind (ih hinner (fun other hother => hnames other (by simp [hother]))
      fun other hother => h other (by simp [hother])) ?_
    rintro ⟨others, final⟩ ⟨hmap, hothers, hfinal⟩
    exact .pure ⟨by simp [hmap], forall_mem_cons.mpr ⟨hbound, hothers⟩, hfinal⟩

theorem canonicalClass_readForm (names : String → Prop) (ints : Int → Prop) :
    TypeExpr.CanonicalClass (ReadForm names ints) :=
  TypeExpr.canonicalClass_formed fun _ h => h

theorem readForm_orNull {t : TypeExpr} (h : ReadForm names d.ints t) :
    ReadForm names d.ints (orNull t) := by
  unfold orNull
  split
  · exact h
  · exact (canonicalClass_readForm names d.ints).nullableOf h

theorem meets_checkConflict {what : String} {documented hint : Option TypeExpr}
    (hdocumented : ∀ t ∈ documented, ReadForm names d.ints t)
    (hhint : ∀ t ∈ hint, ReadForm names d.ints t) :
    (checkConflict d.settings site what documented hint).Meets d.fault fun _ => True := by
  have hclass := canonicalClass_readForm names d.ints
  unfold checkConflict
  split
  · next documented hint =>
    have hdocumented := hdocumented documented rfl
    have hhint := hhint hint rfl
    have hwidened : ReadForm names d.ints documented.conditionalBranches.eraseTemplates :=
      TypeExpr.formed_eraseTemplates hclass (fun h => h.of_frame)
        (TypeExpr.formed_conditionalBranches hclass (fun h => h.of_frame) hdocumented)
    obtain ⟨answer, hanswer⟩ := TypeExpr.exists_canOverlap _ hint
      (hwidened.proper fun _ h => h.regular) (hhint.proper fun _ h => h.regular)
    split
    · exact .pure trivial
    · next hreport =>
      have hreport : d.settings.reportAnnotationConflicts := by
        simp only [Bool.or_eq_true, not_or] at hreport
        simpa using hreport.1.1.1
      have hwritten : ∀ {t : TypeExpr}, ReadForm names d.ints t → (Checked.ofExcept
          (t.written.mapError BuildError.numeral)).Meets d.fault fun _ => True := by
        intro t ht
        refine .ofExcept (fun _ _ => trivial) fun e he => ?_
        cases hw : t.written with
        | ok text => simp [hw, Except.mapError] at he
        | error e' =>
          rw [hw] at he
          cases he
          exact d.write hreport ht hw
      dsimp only
      rw [hanswer]
      refine .bind (P := fun _ => True) (.ofExcept (fun _ _ => trivial) nofun) fun overlap _ => ?_
      split
      · refine .bind (hwritten hdocumented) fun _ _ => ?_
        exact .bind (hwritten hhint) fun _ _ => .report _
      · exact .pure trivial
  · exact .pure trivial

theorem meets_evaluate {text : Option String} (h : ∀ s ∈ text, d.value s) :
    (evaluate d.settings text).Meets d.fault fun _ => True := by
  refine .ofExcept (fun _ _ => trivial) fun e he => ?_
  cases text with
  | none => cases he
  | some text =>
    cases hread : Evaluation.ofText (some text) d.settings.unknownMarker with
    | ok value => simp [hread, Except.mapError] at he
    | error e' =>
      rw [hread] at he
      cases he
      exact d.evaluate (h text rfl) hread

/-! ### Signatures -/

theorem meets_readParameter {block : Docblock} {param : Stub.Parameter}
    (hscope : IsReadScope d names scope) (htags : ∀ tag ∈ block.params.values, d.type tag.typeText)
    (houts : ∀ tag ∈ block.paramOuts.values, d.type tag.typeText)
    (htype : ∀ text ∈ param.typeText, d.type text)
    (hvalue : ∀ text ∈ param.defaultText, d.value text) :
    (readParameter d.settings site block scope param).Meets d.fault fun p =>
      ∀ t ∈ p.types, ReadForm names d.ints t := by
  have htag : ∀ {tags : Table TypedTag}, (∀ t ∈ tags.values, d.type t.typeText) →
      ∀ text ∈ (tags.get? param.name).map (·.typeText), d.type text := by
    intro tags htags text htext
    obtain ⟨tag, hget, rfl⟩ := Option.map_eq_some_iff.mp htext
    exact htags tag (mem_map.mpr ⟨_, Table.mem_pairs_iff.mpr hget, rfl⟩)
  refine .bind (meets_nativeType hscope htype) fun declared hdeclared => ?_
  refine .bind (meets_evaluate hvalue) fun default _ => ?_
  dsimp only
  generalize (param.defaultText.isSome && default == .literal .null) = isNullDefault
  have hhint : ∀ t ∈ (if isNullDefault then declared.map orNull else declared),
      ReadForm names d.ints t := by
    split
    · intro t ht
      obtain ⟨u, hu, rfl⟩ := Option.map_eq_some_iff.mp ht
      exact readForm_orNull (hdeclared u hu)
    · exact hdeclared
  generalize (if isNullDefault then declared.map orNull else declared) = hint at hhint ⊢
  refine .bind (meets_tagType hscope (htag htags)) fun documented hdocumented => ?_
  refine .bind (meets_checkConflict hdocumented hhint) fun _ _ => ?_
  refine .bind (meets_tagType hscope (htag houts)) fun outType hout => .pure fun t ht => ?_
  simp only [Parameter.types, cons_append, mem_cons, mem_append, Option.mem_toList] at ht
  rcases ht with rfl | ht | ht
  · cases documented with
    | some t =>
      dsimp only
      split
      · exact readForm_orNull (hdocumented t rfl)
      · exact hdocumented t rfl
    | none => exact readForm_getD hhint
  · exact hhint t ht
  · exact hout t ht

theorem meets_checkSubjects (parameters : List String) (t : TypeExpr) :
    (checkSubjects site parameters scope t).Meets d.fault fun _ => True := by
  refine .each fun node _ => ?_
  split
  · split
    · exact .pure trivial
    · exact .report _
  · exact .pure trivial

theorem meets_readAssertion {parameters : List String} {tag : AssertionTag}
    (hscope : IsReadScope d names scope) (h : d.type tag.typeText) :
    (readAssertion site scope parameters tag).Meets d.fault fun result =>
      ∀ assertion ∈ result, ReadForm names d.ints assertion.type := by
  unfold readAssertion
  split
  · refine .bind (meets_documentedType hscope h) fun type htype => .pure fun assertion hmem => ?_
    obtain ⟨t, ht, rfl⟩ := Option.map_eq_some_iff.mp hmem
    exact htype t ht
  · exact .bind (meets_siteReport ..) fun _ _ => .pure nofun

end

/-- Everything may be a template parameter. -/
abbrev anyName : String → Prop := fun _ => True

section
variable {d : Terms}

theorem meets_readSignature {symbol : String} {outer : Table (Option TypeExpr)}
    {function : Stub.Function}
    (houter : outer.Holds fun _ bound => ∀ t ∈ bound, ReadForm anyName d.ints t)
    (htype : ∀ text ∈ function.typeTexts, d.type text)
    (hvalue : ∀ text ∈ function.valueTexts, d.value text) :
    (readSignature d.settings symbol outer function).Meets d.fault fun result =>
      ∀ t ∈ result.1.types, ReadForm anyName d.ints t := by
  refine .bind (meets_readDocblock _) fun block hparse => ?_
  simp only [Stub.Function.typeTexts, ← hparse, Docblock.signatureTexts, forall_mem_append,
    forall_mem_flatMap, forall_mem_map, forall_mem_filterMap, Option.mem_toList]
    at htype
  obtain ⟨⟨hnative, hresult⟩, ⟨⟨⟨⟨hboundTexts, hparams⟩, houts⟩, htag⟩, hthrown⟩, hasserted⟩ := htype
  simp only [Stub.Function.valueTexts, forall_mem_flatMap, Option.mem_toList] at hvalue
  have hscope : IsReadScope d anyName { context := some function.context, templates := outer } :=
    fun name bound h => ⟨trivial, houter name bound h⟩
  refine .bind (meets_readTemplates hscope (fun _ _ => trivial) hboundTexts) ?_
  rintro ⟨templates, scope⟩ ⟨-, hbounds, hscope⟩
  dsimp only at hbounds ⊢
  refine .bind (.forAll fun param hparam => meets_readParameter hscope hparams houts
    (hnative param hparam) (hvalue param hparam)) fun parameters hparameters => ?_
  refine .bind (.each fun _ _ => .report _) fun _ _ => ?_
  refine .bind (meets_nativeType hscope hresult) fun hint hhint => ?_
  refine .bind (meets_tagType hscope htag) fun documented hdocumented => ?_
  refine .bind (meets_checkConflict hdocumented hhint) fun _ _ => ?_
  refine .bind (meets_checkSubjects _ _) fun _ _ => ?_
  refine .bind (.each fun p _ => meets_checkSubjects _ p.type) fun _ _ => ?_
  refine .bind (.forAll fun tag h => meets_documentedType hscope (hthrown tag h))
    fun throws hthrows => ?_
  refine .bind (.forAll fun tag h => meets_readAssertion hscope (hasserted tag h))
    fun assertions hassertions => .pure fun u hu => ?_
  simp only [Signature.types, boundTypes, mem_append, mem_cons, mem_flatMap, mem_filterMap, mem_map,
    Option.mem_toList, id] at hu
  rcases hu with (((⟨p, hp, hu⟩ | rfl | hu) | ⟨p, hp, hu⟩) | ⟨o, ho, hu⟩) |
    ⟨a, ⟨o, ho, ha⟩, rfl⟩
  · exact hparameters p hp u hu
  · cases documented with
    | none => exact readForm_getD hhint
    | some t => exact hdocumented t rfl
  · exact hhint u hu
  · exact hbounds p hp u hu
  · exact hthrows o ho u hu
  · exact hassertions o ho a ha

/-! ### Constants and members -/

theorem mem_variableTexts {block : Docblock} {name : Option String}
    (h : block.varType name = some text) : text ∈ block.variableTexts := by
  have hfrom : ∀ (tags : List TypedTag) (fallback : Option String),
      Docblock.varTypeFrom name fallback tags = some text →
        fallback = some text ∨ text ∈ tags.map (·.typeText) := by
    intro tags
    induction tags with
    | nil => exact fun fallback h => .inl h
    | cons tag tags ih =>
      intro fallback h
      unfold Docblock.varTypeFrom at h
      split at h
      · cases h
        exact .inr (by simp)
      · rcases ih _ h with h | h
        · split at h
          · cases h
            exact .inr (by simp)
          · exact .inl h
        · exact .inr (by simp [h])
  rcases hfrom _ _ h with h | h
  · cases h
  · exact h

theorem regularForm_scalarType (value : Scalar) : RegularForm value.type := by
  cases value with
  | bool b => cases b <;> exact TypeExpr.regularForm_leaf rfl trivial rfl
  | _ => exact TypeExpr.regularForm_leaf rfl trivial rfl

theorem meets_readConstant {kind : DeclarationKind} {owner : Option String}
    {symbol : String} (hscope : IsReadScope d names scope)
    (htype : ∀ text ∈ constant.typeTexts, d.type text)
    (hvalue : ∀ text ∈ constant.valueText, d.value text) :
    (readConstant d.settings kind owner scope symbol constant).Meets d.fault fun result =>
      RegularForm result.1.type := by
  refine .bind (meets_readDocblock _) fun block hparse => ?_
  simp only [Stub.Constant.typeTexts, ← hparse, forall_mem_append, Option.mem_toList] at htype
  refine .bind (meets_declaredType hscope (fun text htext => htype.2 text (mem_variableTexts htext))
    htype.1) fun declared hdeclared => ?_
  refine .bind (meets_evaluate hvalue) fun value _ => .pure ?_
  cases declared with
  | some t => exact (hdeclared t rfl).regularForm
  | none =>
    cases value with
    | literal value => exact regularForm_scalarType value
    | _ => exact TypeExpr.regularForm_leaf rfl trivial rfl

/-- The types of a class and its members are in canonical form and regular. -/
structure IsRegularClass (entry : ClassEntry) : Prop where
  bounds : ∀ t ∈ boundTypes entry.templates, RegularForm t
  arguments : entry.ancestorArguments.Holds fun _ args => ∀ t ∈ args, RegularForm t
  methods : entry.methods.Holds fun _ method =>
    ∀ s ∈ method.signatures, ∀ t ∈ s.types, RegularForm t
  properties : entry.properties.Holds fun _ property => ∀ t ∈ property.types, RegularForm t
  constants : entry.constants.Holds fun _ constant => RegularForm constant.type
  backing : ∀ t ∈ entry.backingType, RegularForm t

/-- The class is made of types that are read, and what it gives its ancestors mentions no template
parameters but its own. -/
structure IsReadClass (d : Terms) (entry : ClassEntry) : Prop where
  arguments : entry.ancestorArguments.Holds fun _ args =>
    ∀ t ∈ args, ReadForm (· ∈ entry.templates.map (·.name)) d.ints t
  properties : entry.properties.Holds fun _ property => ReadForm anyName d.ints property.type
  regular : IsRegularClass entry

section
variable {name : String} {entry : ClassEntry}

theorem meets_addMethod {outer : Table (Option TypeExpr)} {method : Stub.Function}
    (houter : outer.Holds fun _ bound => ∀ t ∈ bound, ReadForm anyName d.ints t)
    (htype : ∀ text ∈ method.typeTexts, d.type text)
    (hvalue : ∀ text ∈ method.valueTexts, d.value text)
    (h : IsReadClass d entry ∧ entry.name = name) :
    (addMethod d.settings outer entry method).Meets d.fault fun entry =>
      IsReadClass d entry ∧ entry.name = name := by
  refine .bind (meets_readSignature houter htype hvalue) ?_
  rintro ⟨signature, block⟩ htypes
  dsimp only at htypes ⊢
  have hregular : ∀ t ∈ signature.types, RegularForm t := fun t ht => (htypes t ht).regularForm
  have hparameter : ∀ p ∈ signature.parameters, ∀ t ∈ p.types, t ∈ signature.types := by
    intro p hp t ht
    simp only [Signature.types, mem_append, mem_flatMap]
    exact .inl (.inl (.inl (.inl ⟨p, hp, ht⟩)))
  split
  · next existing hexisting =>
    refine .pure ⟨⟨h.1.arguments, h.1.properties, { h.1.regular with
      methods := h.1.regular.methods.insert fun s hs => ?_ }⟩, h.2⟩
    rcases mem_append.mp hs with hs | hs
    · exact h.1.regular.methods _ existing hexisting s hs
    · exact mem_singleton.mp hs ▸ hregular
  · have hpromoted : ∀ p ∈ (if Text.lower method.name == "__construct" then
        signature.parameters.filter (·.isPromoted) else []), p ∈ signature.parameters := by
      intro p hp
      split at hp
      · exact (mem_filter.mp hp).1
      · cases hp
    refine .pure ⟨⟨h.1.arguments, h.1.properties.insertNewAll fun p hp => ?_, { h.1.regular with
      methods := h.1.regular.methods.insert fun s hs => mem_singleton.mp hs ▸ hregular
      properties := h.1.regular.properties.insertNewAll fun p hp t ht => ?_ }⟩, h.2⟩
    · exact htypes _ (hparameter p (hpromoted p hp) _ (by simp [Parameter.types]; exact .inl rfl))
    · refine hregular _ (hparameter p (hpromoted p hp) _ ?_)
      simp only [PropertyEntry.types, promotedProperty] at ht
      exact mem_append_left _ ht

theorem meets_addProperty {property : Stub.Property}
    (hscope : IsReadScope d names scope) (htype : ∀ text ∈ property.typeTexts, d.type text)
    (hvalue : ∀ text ∈ property.defaultText, d.value text)
    (h : IsReadClass d entry ∧ entry.name = name) :
    (addProperty d.settings scope entry property).Meets d.fault fun entry =>
      IsReadClass d entry ∧ entry.name = name := by
  refine .bind (meets_readDocblock _) fun block hparse => ?_
  simp only [Stub.Property.typeTexts, ← hparse, forall_mem_append, Option.mem_toList] at htype
  refine .bind (meets_nativeType hscope htype.1) fun hint hhint => ?_
  refine .bind (meets_tagType hscope fun text htext => htype.2 text (mem_variableTexts htext))
    fun documented hdocumented => ?_
  refine .bind (meets_checkConflict hdocumented hhint) fun _ _ => ?_
  have hfound : ReadForm names d.ints (documented.getD (hint.getD .mixed)) := by
    cases documented with
    | some t => exact hdocumented t rfl
    | none => exact readForm_getD hhint
  refine .bind (meets_evaluate hvalue) fun value _ => .pure ⟨⟨h.1.arguments,
    h.1.properties.insert (readForm_mono_names hfound fun _ _ => trivial), { h.1.regular with
      properties := h.1.regular.properties.insert fun t ht => ?_ }⟩, h.2⟩
  simp only [PropertyEntry.types, mem_cons, Option.mem_toList] at ht
  rcases ht with rfl | ht
  · exact hfound.regularForm
  · exact (hhint t ht).regularForm

theorem meets_addClassConstant {draft : ClassDraft}
    (hscope : IsReadScope d names scope) (htype : ∀ text ∈ constant.typeTexts, d.type text)
    (hvalue : ∀ text ∈ constant.valueText, d.value text)
    (h : IsReadClass d draft.entry ∧ draft.entry.name = name) :
    (addClassConstant d.settings scope draft constant).Meets d.fault fun draft =>
      IsReadClass d draft.entry ∧ draft.entry.name = name := by
  unfold addClassConstant
  dsimp only
  split
  · exact .bind (meets_siteReport ..) fun _ _ => .pure h
  · refine .bind (meets_readConstant hscope htype hvalue) ?_
    rintro ⟨found, target⟩ hfound
    exact .pure ⟨⟨h.1.arguments, h.1.properties,
      { h.1.regular with constants := h.1.regular.constants.insert hfound }⟩, h.2⟩

theorem meets_addEnumCase {case : Stub.EnumCase} (hvalue : ∀ text ∈ case.valueText, d.value text)
    (h : IsReadClass d entry ∧ entry.name = name) :
    (addEnumCase d.settings entry case).Meets d.fault fun entry =>
      IsReadClass d entry ∧ entry.name = name := by
  refine .bind (meets_readDocblock _) fun block _ => ?_
  refine .bind (meets_evaluate hvalue) fun value _ => ?_
  dsimp only
  split
  · exact .bind (meets_siteReport ..) fun _ _ => .pure h
  · exact .pure ⟨⟨h.1.arguments, h.1.properties, { h.1.regular with
      constants := h.1.regular.constants.insert (TypeExpr.regularForm_leaf rfl trivial rfl) }⟩,
      h.2⟩

end

/-! ### Classes and files -/

theorem meets_readAncestorArguments {site : Site}
    {tags : List TypedTag} (hscope : IsReadScope d names scope)
    (htype : ∀ tag ∈ tags, d.type tag.typeText) :
    (readAncestorArguments site scope tags).Meets d.fault
      (Table.Holds fun _ args => ∀ t ∈ args, ReadForm names d.ints t) := by
  refine .bind (.forAll fun tag h => meets_documentedType hscope (htype tag h))
    fun types htypes => .pure (Table.holds_ofList fun pair hpair => ?_)
  obtain ⟨t, ht, hargs⟩ := mem_filterMap.mp hpair
  have hread : ReadForm names d.ints t := htypes (some t) (by simpa using ht) t rfl
  cases t with
  | generic name args =>
    simp only [ancestorOf?] at hargs
    split at hargs
    · cases hargs
    · obtain rfl := Option.some.inj hargs
      exact fun u hu => TypeExpr.Everywhere.inside hread hu
  | _ => cases hargs

theorem meets_readClass {name : String} {source : Stub.ClassLike}
    (htype : ∀ text ∈ source.typeTexts, d.type text)
    (hvalue : ∀ text ∈ source.valueTexts, d.value text) :
    (readClass d.settings name source).Meets d.fault fun draft =>
      IsReadClass d draft.entry ∧ draft.entry.name = name := by
  refine .bind (meets_readDocblock _) fun block hparse => ?_
  simp only [Stub.ClassLike.typeTexts, ← hparse, Docblock.classTexts, forall_mem_append,
    forall_mem_flatMap, forall_mem_map, forall_mem_filterMap, Option.mem_toList]
    at htype
  obtain ⟨⟨⟨⟨⟨hnative, ⟨⟨hboundTexts, hextended⟩, himplemented⟩, hused⟩, huses⟩, hmethods⟩,
    hproperties⟩, hconstants⟩ := htype
  simp only [Stub.ClassLike.valueTexts, forall_mem_append, forall_mem_flatMap,
    Option.mem_toList] at hvalue
  have hscope : IsReadScope d (· ∈ block.templates.map (·.name))
      { context := some source.context } := Table.holds_empty
  refine .bind (meets_readTemplates hscope (fun tag h => mem_map_of_mem h) hboundTexts) ?_
  rintro ⟨templates, scope⟩ ⟨hnames, hbounds, hscope⟩
  dsimp only at hnames hbounds hscope ⊢
  rw [← hnames] at hscope hbounds
  refine .bind (meets_nativeType hscope hnative) fun backingType hbacking => ?_
  have hblocks : ∀ use ∈ source.traitUses, (readDocblock ⟨name, source.location⟩ use.docblock).Meets
      d.fault fun block => ∀ tag ∈ block.used, d.type tag.typeText := fun use huse =>
    (meets_readDocblock _).mono fun block hblock => hblock ▸ huses use huse
  refine .bind (.forAll hblocks) fun useBlocks huseBlocks => ?_
  have htags : ∀ tag ∈ block.extended ++ block.implemented ++ block.used ++
      useBlocks.flatMap (·.used), d.type tag.typeText := by
    simp only [forall_mem_append, forall_mem_flatMap]
    exact ⟨⟨⟨hextended, himplemented⟩, hused⟩, huseBlocks⟩
  refine .bind (meets_readAncestorArguments hscope htags) fun arguments harguments => ?_
  have houter : (Table.ofList (templates.map fun t => (t.name, t.bound))).Holds
      fun _ bound => ∀ t ∈ bound, ReadForm anyName d.ints t := by
    refine Table.holds_ofList fun pair hpair t ht => ?_
    obtain ⟨p, hp, rfl⟩ := mem_map.mp hpair
    exact readForm_mono_names (hbounds p hp t ht) fun _ _ => trivial
  have hregular : ∀ {t : TypeExpr}, ReadForm (· ∈ templates.map (·.name)) d.ints t →
      RegularForm t := fun h => h.regularForm
  refine .bind (.foldChecked (Q := fun entry => IsReadClass d entry ∧ entry.name = name)
    ⟨⟨harguments, Table.holds_empty, {
      bounds := fun t ht => ?_
      arguments := fun key args hargs t ht => hregular (harguments key args hargs t ht)
      methods := Table.holds_empty
      properties := Table.holds_empty
      constants := Table.holds_empty
      backing := fun t ht => hregular (hbacking t ht) }⟩, rfl⟩
    fun entry hentry method hmethod => ?_) fun entry hentry => ?_
  · obtain ⟨p, hp, hbound⟩ := mem_filterMap.mp ht
    exact hregular (hbounds p hp t hbound)
  · exact meets_addMethod houter (hmethods method hmethod) (hvalue.1.1.1 method hmethod) hentry
  refine .bind (.foldChecked (Q := fun entry => IsReadClass d entry ∧ entry.name = name) hentry
    fun entry hentry property hproperty => meets_addProperty hscope (hproperties property hproperty)
      (hvalue.1.1.2 property hproperty) hentry) fun entry hentry => ?_
  refine .bind (.foldChecked (Q := fun draft => IsReadClass d draft.entry ∧ draft.entry.name = name)
    hentry fun draft hdraft constant hconstant => meets_addClassConstant hscope
      (hconstants constant hconstant) (hvalue.1.2 constant hconstant) hdraft) fun draft hdraft => ?_
  exact .bind (.foldChecked (Q := fun entry => IsReadClass d entry ∧ entry.name = name) hdraft
    fun entry hentry case hcase => meets_addEnumCase (hvalue.2 case hcase) hentry)
    fun entry hentry => .pure hentry

/-- What was collected is made of types that are read, and every class is found under the key of its
name. -/
structure IsReadDraft (d : Terms) (draft : Draft) : Prop where
  classes : draft.classes.Holds fun key entry => IsReadClass d entry ∧ entry.key = key
  functions : draft.functions.Holds fun _ function =>
    ∀ s ∈ function.signatures, ∀ t ∈ s.types, RegularForm t
  constants : draft.constants.Holds fun _ constant => RegularForm constant.type

section
variable {draft : Draft}

theorem meets_addConstant (h : IsReadDraft d draft)
    (htype : ∀ text ∈ constant.typeTexts, d.type text)
    (hvalue : ∀ text ∈ constant.valueText, d.value text) :
    (draft.addConstant d.settings constant).Meets d.fault (IsReadDraft d) := by
  have hscope : IsReadScope d anyName { context := some constant.context } := Table.holds_empty
  unfold Draft.addConstant
  dsimp only
  split
  · exact .bind (meets_siteReport ..) fun _ _ => .pure h
  · exact .bind (meets_readConstant hscope htype hvalue) fun _ hfound =>
      .pure { h with constants := h.constants.insert hfound }

theorem meets_addFunction {function : Stub.Function} (h : IsReadDraft d draft)
    (htype : ∀ text ∈ function.typeTexts, d.type text)
    (hvalue : ∀ text ∈ function.valueTexts, d.value text) :
    (draft.addFunction d.settings function).Meets d.fault (IsReadDraft d) := by
  refine .bind (meets_readSignature Table.holds_empty htype hvalue) ?_
  rintro ⟨signature, block⟩ htypes
  have hregular : ∀ t ∈ signature.types, RegularForm t := fun t ht => (htypes t ht).regularForm
  refine .pure { h with functions := h.functions.insert fun s hs => ?_ }
  split at hs
  · next existing hexisting =>
    rcases mem_append.mp hs with hs | hs
    · exact h.functions _ existing hexisting s hs
    · exact mem_singleton.mp hs ▸ hregular
  · exact mem_singleton.mp hs ▸ hregular

theorem meets_addClass {source : Stub.ClassLike} (h : IsReadDraft d draft)
    (htype : ∀ text ∈ source.typeTexts, d.type text)
    (hvalue : ∀ text ∈ source.valueTexts, d.value text) :
    (draft.addClass d.settings source).Meets d.fault (IsReadDraft d) := by
  unfold Draft.addClass
  dsimp only
  split
  · exact .bind (meets_siteReport ..) fun _ _ => .pure h
  · refine .bind (meets_readClass htype hvalue) fun found hfound => .pure ?_
    exact { h with classes := h.classes.insert ⟨hfound.1, by rw [ClassEntry.key, hfound.2]⟩ }

theorem meets_addFile {file : Stub.File} (h : IsReadDraft d draft)
    (htexts : isSkipped d.settings file = false →
      (∀ text ∈ file.typeTexts, d.type text) ∧ ∀ text ∈ file.valueTexts, d.value text) :
    (draft.addFile d.settings file).Meets d.fault (IsReadDraft d) := by
  refine .bind (.report _) fun _ _ => ?_
  split
  · exact .pure h
  next hskipped =>
  obtain ⟨htype, hvalue⟩ := htexts (by simpa using hskipped)
  simp only [Stub.File.typeTexts, forall_mem_append, forall_mem_flatMap] at htype
  simp only [Stub.File.valueTexts, forall_mem_append, forall_mem_flatMap,
    Option.mem_toList] at hvalue
  refine .bind (.foldChecked h fun draft hdraft constant hconstant => meets_addConstant hdraft
    (htype.1.1 constant hconstant) (hvalue.1.1 constant hconstant)) fun draft hdraft => ?_
  refine .bind (.foldChecked hdraft fun draft hdraft function hfunction => meets_addFunction hdraft
    (htype.1.2 function hfunction) (hvalue.1.2 function hfunction)) fun draft hdraft => ?_
  exact .foldChecked hdraft fun draft hdraft source hsource => meets_addClass hdraft
    (htype.2 source hsource) (hvalue.2 source hsource)

/-- All files, one after the other. -/
abbrev collect (settings : Settings) (files : List Stub.File) : Checked Draft :=
  foldChecked (Draft.addFile settings) {} files

/-- **Collecting files** ends with classes made of types that are read, or stops for a reason that
is allowed. -/
theorem meets_addFiles {files : List Stub.File}
    (htexts : ∀ file ∈ files, isSkipped d.settings file = false →
      (∀ text ∈ file.typeTexts, d.type text) ∧ ∀ text ∈ file.valueTexts, d.value text) :
    (collect d.settings files).Meets d.fault (IsReadDraft d) :=
  .foldChecked ⟨Table.holds_empty, Table.holds_empty, Table.holds_empty⟩ fun _ hdraft file hfile =>
    meets_addFile hdraft (htexts file hfile)

end

end

end Build

end StubCatalog
