import StubCatalog.Proofs.Build.Composition
import StubCatalog.Proofs.TypeExpr.Constructed
import StubCatalog.Snapshot.Document

/-! # Catalogs read back from their snapshot

Every record is written with all of its fields and read field by field, so it is read back if the
types in it are. -/

namespace StubCatalog

open List

/-! ### Checked values -/

namespace Validated

variable {ε α β : Type}

@[simp]
theorem map_valid (f : α → β) (a : α) : f <$> (valid a : Validated ε α) = valid (f a) := rfl

@[simp]
theorem seq_valid (f : α → β) (a : α) :
    (valid f : Validated ε (α → β)) <*> valid a = valid (f a) := rfl

@[simp]
theorem under_valid (step : String) (a : α) : (valid a : Validated ε α).under step = valid a := rfl

theorem listFrom_map {check : Json → Validated ε α} {f : α → Json} {xs : List α}
    (h : ∀ x ∈ xs, check (f x) = valid x) (index : Nat) :
    listFrom check index (xs.map f) = valid xs := by
  induction xs generalizing index with
  | nil => rfl
  | cons x xs ih =>
    obtain ⟨hx, hxs⟩ := forall_mem_cons.mp h
    rw [map_cons, listFrom, hx, ih hxs]
    rfl

theorem pairs_map {check : Json → Validated ε α} {f : α → Json} {ps : List (String × α)}
    (h : ∀ p ∈ ps, check (f p.2) = valid p.2) :
    pairs check (ps.map fun p => (p.1, f p.2)) = valid ps := by
  induction ps with
  | nil => rfl
  | cons p ps ih =>
    obtain ⟨hp, hps⟩ := forall_mem_cons.mp h
    rw [map_cons, pairs, hp, ih hps]
    rfl

end Validated

namespace Expect

open Validated (valid)

variable {ε α : Type}

section
variable {fields : List (String × Json)} {key other : String} {v w : Json} {default : α}
  {check : Json → Validated ε α}

@[simp]
theorem required_self : required (.obj ((key, v) :: fields)) key check = (check v).under key := by
  simp [required, Json.field?]

@[simp]
theorem required_later (h : key ≠ other) :
    required (.obj ((other, w) :: fields)) key check = required (.obj fields) key check := by
  simp [required, Json.field?, lookup_cons, beq_false_of_ne h]

@[simp]
theorem optional_self :
    optional (.obj ((key, v) :: fields)) key default check = (check v).under key := by
  simp [optional, Json.field?]

@[simp]
theorem optional_later (h : key ≠ other) :
    optional (.obj ((other, w) :: fields)) key default check =
      optional (.obj fields) key default check := by
  simp [optional, Json.field?, lookup_cons, beq_false_of_ne h]

@[simp]
theorem record_obj (message : String) (read : Json → Validated ε α) :
    record message read (.obj fields) = read (.obj fields) := rfl

end

@[simp]
theorem text_str (s : String) : (text (.str s) : Validated ε String) = valid s := rfl

@[simp]
theorem flag_bool (b : Bool) : (flag (.bool b) : Validated ε Bool) = valid b := rfl

@[simp]
theorem integer_int (n : Int) : (integer (.int n) : Validated ε Int) = valid n := rfl

@[simp]
theorem nullable_text (s : Option String) :
    (nullable text (Json.ofText? s) : Validated ε (Option String)) = valid s := by
  cases s <;> rfl

section
variable {check : Json → Validated ε α} {f : α → Json}

theorem nullable_ofOption {a : Option α} (hnull : ∀ a, f a ≠ .null)
    (h : ∀ b ∈ a, check (f b) = valid b) : nullable check (Json.ofOption f a) = valid a := by
  cases a with
  | none => rfl
  | some a =>
    have hsome : nullable check (f a) = (check (f a)).map some := by
      cases hf : f a with
      | null => exact absurd hf (hnull a)
      | _ => rfl
    rw [Json.ofOption, hsome, h a rfl]
    rfl

theorem list_map {xs : List α} (h : ∀ x ∈ xs, check (f x) = valid x) :
    list check (.arr (xs.map f)) = valid xs :=
  Validated.listFrom_map h 0

theorem table_toJson {t : Table α} (h : ∀ a ∈ t.values, check (f a) = valid a) :
    table check (t.toJson f) = valid t := by
  have hpairs : Validated.pairs check (t.pairs.map fun p => (p.1, f p.2)) = valid t.pairs :=
    Validated.pairs_map fun p hp => h p.2 (mem_map_of_mem hp)
  show (Validated.pairs check (t.pairs.map fun p => (p.1, f p.2))).map Table.ofList = _
  rw [hpairs]
  exact congrArg valid t.ofList_pairs

end

theorem choice_label {all : List α} {label : α → String} {a : α}
    (h : all.find? (label · == label a) = some a) :
    (choice all label (.str (label a)) : Validated ε α) = valid a := by
  simp [choice, Json.str?, h]

end Expect

/-! ### Records -/

namespace Snapshot

open Expect
open Validated (valid)

/-- The type is read back from its data. -/
def IsStored (t : TypeExpr) : Prop := type t.storedJson = valid t

theorem storedJson_ne_null (t : TypeExpr) : t.storedJson ≠ .null := by
  cases t <;> simp [TypeExpr.storedJson, TypeExpr.toJson, Json.finite]

theorem nullable_storedJson {t : Option TypeExpr} (h : ∀ u ∈ t, IsStored u) :
    nullable type (Json.ofOption TypeExpr.storedJson t) = valid t :=
  nullable_ofOption storedJson_ne_null h

@[simp]
theorem scalar_toJson (v : Scalar) : scalar v.toJson = valid v := by
  simp [scalar, Scalar.ofJson?_toJson]

@[simp]
theorem location_toJson (l : Location) : location l.toJson = valid l := by
  simp [location, Location.toJson]

@[simp]
theorem nullable_location (l : Option Location) :
    nullable location (Json.ofOption Location.toJson l) = valid l :=
  nullable_ofOption (fun l => by simp [Location.toJson]) fun l _ => location_toJson l

@[simp]
theorem declaration_toJson (d : Declaration) : declaration d.toJson = valid d := by
  have hkind : choice DeclarationKind.all DeclarationKind.label (.str d.kind.label) =
      (valid d.kind : Decoded DeclarationKind) := choice_label d.kind.ofLabel?_label
  have hvisibility : choice Visibility.all Visibility.label (.str d.visibility.label) =
      (valid d.visibility : Decoded Visibility) := choice_label d.visibility.ofLabel?_label
  simp [declaration, Declaration.toJson, hkind, hvisibility]

theorem templateParameter_toJson {t : TemplateParameter} (h : ∀ u ∈ t.bound, IsStored u) :
    templateParameter t.toJson = valid t := by
  have hvariance : choice [.invariant, .covariant, .contravariant] Variance.label
      (.str t.variance.label) = (valid t.variance : Decoded Variance) := by
    cases t.variance <;> rfl
  simp [templateParameter, TemplateParameter.toJson, nullable_storedJson h, hvariance]

theorem parameter_toJson {p : Parameter} (h : ∀ t ∈ p.types, IsStored t) :
    parameter p.toJson = valid p := by
  have htype : type p.type.storedJson = valid p.type := h _ (by simp [Parameter.types])
  have hnative := nullable_storedJson (t := p.nativeType) fun u hu =>
    h u (by simp_all [Parameter.types])
  have hout := nullable_storedJson (t := p.outType) fun u hu => h u (by simp_all [Parameter.types])
  simp [parameter, Parameter.toJson, htype, hnative, hout]

theorem assertion_toJson {a : Assertion} (h : IsStored a.type) : assertion a.toJson = valid a := by
  have hkind : choice [.always, .ifTrue, .ifFalse] AssertionKind.label (.str a.kind.label) =
      (valid a.kind : Decoded AssertionKind) := by
    cases a.kind <;> rfl
  have htype : type a.type.storedJson = valid a.type := h
  simp [assertion, Assertion.toJson, hkind, htype]

theorem list_templates {templates : List TemplateParameter}
    (h : ∀ t ∈ boundTypes templates, IsStored t) :
    list templateParameter (.arr (templates.map TemplateParameter.toJson)) = valid templates :=
  list_map fun t ht => templateParameter_toJson fun u hu =>
    h u (mem_filterMap.mpr ⟨t, ht, hu⟩)

theorem list_types {ts : List TypeExpr} (h : ∀ t ∈ ts, IsStored t) :
    list type (.arr (ts.map TypeExpr.storedJson)) = valid ts :=
  list_map h

@[simp]
theorem list_texts (texts : List String) :
    list text (Json.ofTexts texts) = (valid texts : Decoded (List String)) :=
  list_map fun _ _ => rfl

theorem signature_toJson {s : Signature} (h : ∀ t ∈ s.types, IsStored t) :
    signature s.toJson = valid s := by
  have hparameters : list parameter (.arr (s.parameters.map Parameter.toJson)) =
      valid s.parameters :=
    list_map fun p hp => parameter_toJson fun t ht => h t (by
      simp only [Signature.types, mem_append, mem_flatMap]
      exact .inl (.inl (.inl (.inl ⟨p, hp, ht⟩))))
  have hreturn : type s.returnType.storedJson = valid s.returnType :=
    h _ (by simp [Signature.types])
  have hnative := nullable_storedJson (t := s.nativeReturnType) fun u hu =>
    h u (by simp_all [Signature.types])
  have htemplates : list templateParameter (.arr (s.templates.map TemplateParameter.toJson)) =
      valid s.templates := list_templates fun u hu => h u (by simp_all [Signature.types])
  have hthrows : list type (.arr (s.throws.map TypeExpr.storedJson)) = valid s.throws :=
    list_types fun u hu => h u (by simp_all [Signature.types])
  have hassertions : list assertion (.arr (s.assertions.map Assertion.toJson)) =
      valid s.assertions :=
    list_map fun a ha => assertion_toJson (h _ (by
      simp only [Signature.types, mem_append]
      exact .inr (mem_map_of_mem ha)))
  simp [signature, Signature.toJson, hparameters, hreturn, hnative, htemplates, hthrows,
    hassertions]

theorem signatures_toJson {ss : List Signature} (h : ∀ s ∈ ss, ∀ t ∈ s.types, IsStored t) :
    signatures (signaturesJson ss) = valid ss := by
  have hlist : list signature (.arr (ss.map Signature.toJson)) = valid ss :=
    list_map fun s hs => signature_toJson (h s hs)
  simp [signatures, signaturesJson, hlist]

theorem function_toJson {f : FunctionEntry} (h : ∀ s ∈ f.signatures, ∀ t ∈ s.types, IsStored t) :
    function f.toJson = valid f := by
  simp [function, FunctionEntry.toJson, signatures_toJson h]

theorem method_toJson {m : MethodEntry} (h : ∀ s ∈ m.signatures, ∀ t ∈ s.types, IsStored t) :
    method m.toJson = valid m := by
  simp [method, MethodEntry.toJson, signatures_toJson h]

theorem property_toJson {p : PropertyEntry} (h : ∀ t ∈ p.types, IsStored t) :
    property p.toJson = valid p := by
  have htype : type p.type.storedJson = valid p.type := h _ (by simp [PropertyEntry.types])
  have hnative := nullable_storedJson (t := p.nativeType) fun u hu =>
    h u (by simp_all [PropertyEntry.types])
  simp [property, PropertyEntry.toJson, htype, hnative]

theorem constant_toJson {c : ConstantEntry} (h : IsStored c.type) :
    constant c.toJson = valid c := by
  have htype : type c.type.storedJson = valid c.type := h
  simp [constant, ConstantEntry.toJson, htype]

theorem classEntry_toJson {c : ClassEntry} (h : ∀ t ∈ c.types, IsStored t) :
    classEntry c.toJson = valid c := by
  simp only [ClassEntry.types, mem_append, or_imp, forall_and, mem_flatten,
    mem_flatMap, mem_map, Option.mem_toList] at h
  obtain ⟨⟨⟨⟨⟨hbounds, harguments⟩, hmethods⟩, hproperties⟩, hconstants⟩, hbacking⟩ := h
  have hkind : choice ClassKind.all ClassKind.label (.str c.kind.label) =
      (valid c.kind : Decoded ClassKind) := choice_label c.kind.ofLabel?_label
  have harguments : table (list type) (c.ancestorArguments.toJson fun args =>
      .arr (args.map TypeExpr.storedJson)) = valid c.ancestorArguments :=
    table_toJson fun args hargs => list_types fun t ht => harguments t ⟨args, hargs, ht⟩
  have hmethods : table method (c.methods.toJson MethodEntry.toJson) = valid c.methods :=
    table_toJson fun m hm => method_toJson fun s hs t ht => hmethods t ⟨m, hm, s, hs, ht⟩
  have hproperties : table property (c.properties.toJson PropertyEntry.toJson) =
      valid c.properties :=
    table_toJson fun p hp => property_toJson fun t ht => hproperties t ⟨p, hp, ht⟩
  have hconstants : table constant (c.constants.toJson ConstantEntry.toJson) = valid c.constants :=
    table_toJson fun k hk => constant_toJson (hconstants _ ⟨k, hk, rfl⟩)
  simp [classEntry, ClassEntry.toJson, hkind, list_templates hbounds, harguments, hmethods,
    hproperties, hconstants, nullable_storedJson hbacking]

theorem namespaceEntry_toJson (n : Namespace) : namespaceEntry n.toJson = valid n := by
  have htable (t : Table Declaration) : table declaration (t.toJson Declaration.toJson) = valid t :=
    table_toJson fun d _ => declaration_toJson d
  simp [namespaceEntry, Namespace.toJson, htable]

theorem diagnostic_toJson (d : Diagnostic) : diagnostic d.toJson = valid d := by
  have hkind : choice DiagnosticKind.all DiagnosticKind.label (.str d.kind.label) =
      (valid d.kind : Decoded DiagnosticKind) := choice_label d.kind.ofLabel?_label
  have hseverity : choice [.warning, .error] Severity.label (.str d.severity.label) =
      (valid d.severity : Decoded Severity) := by
    cases d.severity <;> rfl
  have hline : nullable integer (Json.ofOption .int d.line) = (valid d.line : Decoded _) :=
    nullable_ofOption (fun _ => nofun) fun _ _ => rfl
  simp [diagnostic, Diagnostic.toJson, hkind, hseverity, hline]

theorem catalog_toJson {c : Catalog} (h : ∀ t ∈ c.types, IsStored t) :
    catalog c.toJson = valid c := by
  simp only [Catalog.types, mem_append, or_imp, forall_and, mem_flatMap, mem_map]
    at h
  obtain ⟨⟨hclasses, hfunctions⟩, hconstants⟩ := h
  have hclasses : table classEntry (c.classes.toJson ClassEntry.toJson) = valid c.classes :=
    table_toJson fun e he => classEntry_toJson fun t ht => hclasses t ⟨e, he, ht⟩
  have hfunctions : table function (c.functions.toJson FunctionEntry.toJson) = valid c.functions :=
    table_toJson fun f hf => function_toJson fun s hs t ht => hfunctions t ⟨f, hf, s, hs, ht⟩
  have hconstants : table constant (c.constants.toJson ConstantEntry.toJson) = valid c.constants :=
    table_toJson fun k hk => constant_toJson (hconstants _ ⟨k, hk, rfl⟩)
  have hnamespaces : table namespaceEntry (c.namespaces.toJson Namespace.toJson) =
      valid c.namespaces := table_toJson fun n _ => namespaceEntry_toJson n
  have hdiagnostics : list diagnostic (.arr (c.diagnostics.map Diagnostic.toJson)) =
      valid c.diagnostics := list_map fun d _ => diagnostic_toJson d
  simp [catalog, Catalog.toJson, hclasses, hfunctions, hconstants, hnamespaces, hdiagnostics]

/-! ### Snapshots -/

theorem isStored_of_regularForm {t : TypeExpr} (h : TypeExpr.RegularForm t)
    (hfinite : t.toJson.isFinite) : IsStored t := by
  have hobj : ∃ fields, t.toJson = .obj fields := by
    cases t <;> exact ⟨_, rfl⟩
  obtain ⟨fields, hfields⟩ := hobj
  rw [IsStored, TypeExpr.storedJson, Json.finite_eq_self hfinite, hfields, type, ← hfields,
    TypeExpr.ofJson_toJson h]

theorem ofJson_toJson {c : Catalog} (h : ∀ t ∈ c.types, IsStored t) :
    ofJson (toJson c) = .ok c := by
  have hformat : (toJson c).field? "format" = some (.str formatName) := rfl
  have hversion : (toJson c).field? "version" = some (.int formatVersion) := rfl
  have htable : (toJson c).field? "table" = some c.toJson := rfl
  rw [ofJson, hformat, hversion, htable]
  simp [isVersion, catalog_toJson h]

section
variable {settings : Settings} {files : List Stub.File} {earlier : List Diagnostic}
  {catalog : Catalog}

/-- **A built catalog is read back from its snapshot as it is**, if no number in its types is
infinite or undefined; it has a snapshot just if every integer in its types can be written. -/
theorem reload_build (hbuild : Catalog.build settings files earlier = .ok catalog)
    (hfinite : ∀ t ∈ catalog.types, t.toJson.isFinite = true) :
    (∀ t ∈ catalog.types, t.toJson.isWritable = true) ↔
      ∃ j, data catalog = .ok j ∧ ofJson j = .ok catalog := by
  have hstored : ∀ t ∈ catalog.types, IsStored t := fun t ht =>
    isStored_of_regularForm (Build.regularForm_build hbuild t ht) (hfinite t ht)
  constructor
  · intro hwritable
    refine ⟨toJson catalog, ?_, ofJson_toJson hstored⟩
    rw [data, if_pos (all_eq_true.mpr hwritable)]
  · rintro ⟨j, hdata, -⟩
    unfold data at hdata
    split at hdata
    · next hall => exact all_eq_true.mp hall
    · cases hdata

end

/-- A function whose docblock makes use of most sorts of types, a class and a constant. -/
def boxes : Stub.File where
  path := "a.php"
  constants := [
    { name := "LIMIT", valueText := some "1.5", context := { file := "a.php" }
      location := { file := "a.php", line := 2 } }]
  functions := [
    { name := "pack"
      docblock := some ("/** @template T of array\x7ba: 1|2, 0?: Box\x7d\n * @param callable(T): ?int $x" ++
        "\n * @return ($x is int ? T&Box<T> : Box::A_*) */")
      parameters := [{ name := "x", defaultText := some "-2" }]
      context := { file := "a.php" }
      location := { file := "a.php", line := 3 } }]
  classes := [
    { kind := .plainClass, name := "Box", context := { file := "a.php" }
      location := { file := "a.php", line := 4 }
      constants := [
        { name := "A_1", valueText := some "'x'", context := { file := "a.php" }
          location := { file := "a.php", line := 5 } }] }]

theorem reload_build_boxes :
    ∃ catalog, Catalog.build {} [boxes] = .ok catalog ∧ catalog.types.length = 5 ∧
      ∃ j, data catalog = .ok j ∧ ofJson j = .ok catalog := by
  obtain ⟨catalog, hbuild, hlength, hfinite, hwritable⟩ : ∃ catalog,
      Catalog.build {} [boxes] = .ok catalog ∧ catalog.types.length = 5 ∧
      (∀ t ∈ catalog.types, t.toJson.isFinite = true) ∧
      ∀ t ∈ catalog.types, t.toJson.isWritable = true := Build.exists_catalog (by decide +kernel)
  exact ⟨catalog, hbuild, hlength, (reload_build hbuild hfinite).mp hwritable⟩

/-! ### Integers that are too long -/

/-- A constant of the given value. -/
def constantFile (value : String) : Stub.File where
  path := "a.php"
  constants := [
    { name := "MAX", valueText := some value, context := { file := "a.php" }
      location := { file := "a.php", line := 2 } }]

theorem build_constantFile {value : String} {n : Int}
    (h : Evaluation.ofText (some value) "UNKNOWN" = .ok (.literal (.int n))) :
    ∃ catalog, Catalog.build {} [constantFile value] = .ok catalog ∧
      .literal (.int n) ∈ catalog.types := by
  have heval : Build.evaluate {} (some value) = pure (.literal (.int n)) := by
    rw [Build.evaluate, h]
    rfl
  have hrun : ∃ draft : Build.Draft,
      (Build.foldChecked (Build.Draft.addFile {}) {} [constantFile value]).run = .ok (draft, []) ∧
      draft.pending = [] ∧ ∃ c ∈ draft.constants.values, c.type = .literal (.int n) := by
    simp only [Build.foldChecked, Build.Draft.addFile, constantFile, Build.Draft.addConstant,
      Build.readConstant, heval]
    exact ⟨_, rfl, rfl, _, mem_singleton_self _, rfl⟩
  obtain ⟨draft, hdraft, hpending, c, hc, htype⟩ := hrun
  refine ⟨draft.finish {} [], by rw [Catalog.build, hdraft]; rfl, mem_append_right _ ?_⟩
  refine mem_map.mpr ⟨c, ?_, htype⟩
  simpa only [Build.Draft.finish, hpending, Build.Constants.settleAll] using hc

/-- The text of a hexadecimal number with as many zeros as a decimal one may have digits. -/
def hugeText : String :=
  String.ofList ('0' :: 'x' :: '1' :: List.replicate Numeral.maxDecimalDigits '0')

/-- A catalog with an integer of too many digits is built, and it has no snapshot. -/
theorem no_snapshot_of_huge : ∃ catalog, Catalog.build {} [constantFile hugeText] = .ok catalog ∧
    data catalog = .error (.type .unwritable) := by
  -- The value is given a name, lest its digits be worked out.
  obtain ⟨n, hvalue, hbound⟩ : ∃ n : Nat,
      Evaluation.ofText (some hugeText) "UNKNOWN" = .ok (.literal (.int n)) ∧
        Numeral.writableBound ≤ n :=
    ⟨_, Evaluation.ofText_powerLiteral (by decide), Evaluation.writableBound_le_pow⟩
  obtain ⟨catalog, hbuild, htype⟩ := build_constantFile hvalue
  refine ⟨catalog, hbuild, if_neg fun hall => ?_⟩
  have hwritable := all_eq_true.mp hall _ htype
  simp [TypeExpr.toJson, TypeExpr.literalJson, TypeExpr.isWritable_of_le hbound] at hwritable

end Snapshot

end StubCatalog
