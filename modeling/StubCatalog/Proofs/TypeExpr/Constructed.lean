import StubCatalog.Proofs.Snapshot.StoredTypes
import StubCatalog.Proofs.TypeExpr.WrittenText

/-! # Types as they are constructed

A type is built from its parts by one constructor for each sort (`Constructed`). What the
constructors leave is left alone by them the next time (`Constructed.isBuilt`), so a type is read
back from its data unchanged, in canonical form or not. -/

namespace StubCatalog.TypeExpr

open List

/-- The type is built by the constructors of types, from words, truth values, bounds that are
integers or missing, and keys that are integers, texts or missing. -/
inductive Constructed : TypeExpr → Prop
  | keyword (name : String) : Constructed (.keyword name)
  | named (name : String) : Constructed (.named name)
  | nullable {t : TypeExpr} (inner : Constructed t) : Constructed (mkNullable t)
  | union {ts : List TypeExpr} (members : ∀ t ∈ ts, Constructed t) : Constructed (mkUnion ts)
  | intersection {ts : List TypeExpr} (members : ∀ t ∈ ts, Constructed t) :
    Constructed (mkIntersection ts)
  | generic (name : String) {args : List TypeExpr} (arguments : ∀ t ∈ args, Constructed t) :
    Constructed (.generic name args)
  | shape (kind : String) {fields : List (ShapeField TypeExpr)} (s : Bool)
    {key value : Option TypeExpr}
    (plain : ∀ f ∈ fields, f.optional.isBool ∧ f.key.all ShapeKey.isPlain)
    (values : ∀ f ∈ fields, Constructed f.value) (extraKey : ∀ t ∈ key, Constructed t)
    (extraValue : ∀ t ∈ value, Constructed t) : Constructed (.shape kind fields s key value)
  | conditional (subject : String) {target whenTrue whenFalse : TypeExpr} (negated : Bool)
    (tested : Constructed target) (ifSo : Constructed whenTrue) (ifNot : Constructed whenFalse) :
    Constructed (.conditional subject target whenTrue whenFalse negated)
  | literal (value : LiteralValue) : Constructed (.literal value)
  | template (name : String) {bound : Option TypeExpr} (within : ∀ t ∈ bound, Constructed t) :
    Constructed (.template name bound)
  | intRange (low high : Option Int) : Constructed (.intRange (.ofInt? low) (.ofInt? high))
  | callable (kind : String) {params : List (CallableParameter TypeExpr)} {result : Option TypeExpr}
    (plain : ∀ p ∈ params, p.optional.isBool ∧ p.variadic.isBool ∧ p.byReference.isBool)
    (types : ∀ p ∈ params, Constructed p.type) (returned : ∀ t ∈ result, Constructed t) :
    Constructed (.callable kind params result)
  | memberReference (owner member : String) : Constructed (.memberReference owner member)
  | unknown (reason : String) : Constructed (.unknown reason)

/-- What the constructors take care of at each place of a type. -/
structure IsBuiltNode (t : TypeExpr) : Prop where
  settled : t.IsSettledNode
  regular : t.isRegularNode
  reason : ∀ reason, t = .unknown reason → reason.isText

/-! ### What the constructors leave -/

section
variable {t u : TypeExpr} {ts : List TypeExpr}

theorem IsBuiltNode.of_known (settled : IsSettledNode t) (regular : t.isRegularNode)
    (hknown : t.isUnknown = false) : IsBuiltNode t := by
  refine ⟨settled, regular, ?_⟩
  rintro _ rfl
  cases hknown

theorem isBuilt_leaf (hparts : parts t = []) (here : IsBuiltNode t) : Everywhere IsBuiltNode t :=
  .intro here (by simp [hparts])

theorem isBuilt_of_mem_unionParts (h : Everywhere IsBuiltNode t) (hu : u ∈ unionParts t) :
    Everywhere IsBuiltNode u ∧ unionParts u = [u] := by
  refine ⟨h.of_mem_unionParts hu, ?_⟩
  cases t with
  | union ts => exact h.here.settled.1 u hu
  | _ => exact mem_singleton.mp hu ▸ rfl

theorem isBuilt_of_mem_intersectionParts (h : Everywhere IsBuiltNode t)
    (hu : u ∈ intersectionParts t) :
    Everywhere IsBuiltNode u ∧ intersectionParts u = [u] := by
  refine ⟨h.of_mem_intersectionParts hu, ?_⟩
  cases t with
  | intersection ts => exact h.here.settled.1 u hu
  | _ => exact mem_singleton.mp hu ▸ rfl

theorem isBuilt_mkUnion (h : ∀ t ∈ ts, Everywhere IsBuiltNode t) :
    Everywhere IsBuiltNode (mkUnion ts) := by
  have hmembers : ∀ u ∈ distinct (ts.flatMap unionParts),
      Everywhere IsBuiltNode u ∧ unionParts u = [u] := by
    intro u hu
    obtain ⟨t, ht, hu⟩ := mem_flatMap.mp (mem_of_mem_distinct hu)
    exact isBuilt_of_mem_unionParts (h t ht) hu
  exact .intro (.of_known ⟨fun u hu => (hmembers u hu).2, pairwise_distinct _⟩ rfl rfl)
    fun u hu => (hmembers u hu).1

theorem isBuilt_mkIntersection (h : ∀ t ∈ ts, Everywhere IsBuiltNode t) :
    Everywhere IsBuiltNode (mkIntersection ts) := by
  have hmembers : ∀ u ∈ distinct (ts.flatMap intersectionParts),
      Everywhere IsBuiltNode u ∧ intersectionParts u = [u] := by
    intro u hu
    obtain ⟨t, ht, hu⟩ := mem_flatMap.mp (mem_of_mem_distinct hu)
    exact isBuilt_of_mem_intersectionParts (h t ht) hu
  exact .intro (.of_known ⟨fun u hu => (hmembers u hu).2, pairwise_distinct _⟩ rfl rfl)
    fun u hu => (hmembers u hu).1

theorem isBuilt_mkNullable (h : Everywhere IsBuiltNode t) :
    Everywhere IsBuiltNode (mkNullable t) := by
  have hwrap : mkNullable t = .nullable t → Everywhere IsBuiltNode (mkNullable t) := by
    intro heq
    rw [heq]
    exact .intro (.of_known heq rfl rfl) fun u hu => mem_singleton.mp hu ▸ h
  cases t with
  | nullable u =>
    have hsame : mkNullable (.nullable u) = .nullable u := h.here.settled
    rwa [hsame]
  | _ => exact hwrap rfl

end

theorem Constructed.isBuilt {t : TypeExpr} (h : Constructed t) : Everywhere IsBuiltNode t := by
  induction h with
  | keyword name => exact isBuilt_leaf rfl (.of_known trivial rfl rfl)
  | named name => exact isBuilt_leaf rfl (.of_known trivial rfl rfl)
  | nullable _ ih => exact isBuilt_mkNullable ih
  | union _ ih => exact isBuilt_mkUnion ih
  | intersection _ ih => exact isBuilt_mkIntersection ih
  | generic name _ ih => exact .intro (.of_known trivial rfl rfl) ih
  | @shape kind fields s key value plain _ _ _ hvalues hkey hvalue =>
    refine .intro (.of_known (fun f hf => (plain f hf).2) ?_ rfl)
      (forall_parts_shape.mpr ⟨hvalues, hkey, hvalue⟩)
    simpa [isRegularNode, Label.isText, Json.str?, Flag.isBool] using plain
  | conditional subject negated _ _ _ htarget htrue hfalse =>
    exact .intro (.of_known trivial rfl rfl) (forall_parts_conditional.mpr ⟨htarget, htrue, hfalse⟩)
  | literal value => exact isBuilt_leaf rfl (.of_known trivial rfl rfl)
  | template name _ ih =>
    exact .intro (.of_known trivial rfl rfl) fun u hu => ih u (Option.mem_toList.mp hu)
  | intRange low high =>
    refine isBuilt_leaf rfl (.of_known trivial ?_ rfl)
    cases low <;> cases high <;> rfl
  | @callable kind params result plain _ _ htypes hresult =>
    refine .intro (.of_known trivial ?_ rfl) (forall_parts_callable.mpr ⟨htypes, hresult⟩)
    simpa [isRegularNode, Label.isText, Json.str?, and_assoc] using plain
  | memberReference owner member => exact isBuilt_leaf rfl (.of_known trivial rfl rfl)
  | unknown reason =>
    refine isBuilt_leaf rfl ⟨trivial, rfl, ?_⟩
    rintro _ ⟨rfl⟩
    rfl

/-! ### Data that can be written -/

section
variable (fields : List (String × Json)) (items : List Json)

@[simp]
theorem isWritable_str (s : String) : (Json.str s).isWritable := rfl

@[simp]
theorem isWritable_int (n : Int) : (Json.int n).isWritable = Numeral.isWritable n := rfl

@[simp]
theorem isWritable_obj : (Json.obj fields).isWritable = fields.all (·.2.isWritable) := by
  rw [Json.isWritable]
  induction fields with
  | nil => rfl
  | cons field fields ih => rw [Json.areFieldsWritable, ih, all_cons]

@[simp]
theorem isWritable_arr : (Json.arr items).isWritable = items.all Json.isWritable := by
  rw [Json.isWritable]
  induction items with
  | nil => rfl
  | cons item items ih => rw [Json.areItemsWritable, ih, all_cons]

@[simp]
theorem isWritable_optionJson (t : Option TypeExpr) :
    (optionJson t).isWritable = t.all (·.toJson.isWritable) := by
  cases t with
  | none => rfl
  | some t => rw [optionJson, Option.all_some]

@[simp]
theorem isWritable_keyJson (key : Option ShapeKey) :
    (keyJson key).isWritable = key.all (·.toJson.isWritable) := by
  cases key <;> rfl

end

theorem isWritable_of_isText {l : Label} (h : l.isText) : l.stored.isWritable := by
  obtain ⟨s, rfl⟩ := Label.exists_of_isText h
  rfl

theorem isWritable_of_isBool {f : Flag} (h : f.isBool) : f.stored.isWritable := by
  obtain ⟨b, rfl⟩ := Flag.exists_of_isBool h
  rfl

theorem isWritable_fieldsJson {fs : List (ShapeField TypeExpr)} (h : ∀ f ∈ fs, f.optional.isBool) :
    (Json.arr (fieldsJson fs)).isWritable ↔
      ∀ f ∈ fs, f.key.all (·.toJson.isWritable) ∧ f.value.toJson.isWritable := by
  rw [fieldsJson_eq_map, isWritable_arr, all_map, all_eq_true]
  refine forall₂_congr fun f hf => ?_
  simp [fieldJson, isWritable_of_isBool (h f hf)]

theorem isWritable_parametersJson {ps : List (CallableParameter TypeExpr)}
    (h : ∀ p ∈ ps, p.optional.isBool ∧ p.variadic.isBool ∧ p.byReference.isBool) :
    (Json.arr (parametersJson ps)).isWritable ↔ ∀ p ∈ ps, p.type.toJson.isWritable := by
  rw [parametersJson_eq_map, isWritable_arr, all_map, all_eq_true]
  refine forall₂_congr fun p hp => ?_
  obtain ⟨hoptional, hvariadic, hreference⟩ := h p hp
  simp [parameterJson, isWritable_of_isBool hoptional, isWritable_of_isBool hvariadic,
    isWritable_of_isBool hreference]

theorem isWritable_toJson_iff {t : TypeExpr} (h : Everywhere IsBuiltNode t) :
    t.toJson.isWritable ↔ Everywhere (fun u => u.isWritableNode) t := by
  induction h with
  | @intro t here _ ih =>
    have hinside : (∀ u ∈ parts t, Everywhere (fun u => u.isWritableNode) u) ↔
        ∀ u ∈ parts t, u.toJson.isWritable :=
      forall₂_congr fun u hu => (ih u hu).symm
    rw [everywhere_iff, hinside]
    obtain ⟨-, hregular, hreason⟩ := here
    clear ih hinside
    cases t with
    | keyword name => simp [toJson, isWritableNode, parts, children, isWritable_of_isText hregular]
    | named name => simp [toJson, isWritableNode, parts, children]
    | nullable u => simp [toJson, isWritableNode, parts, children]
    | union ts => simp [toJson, isWritableNode, parts, children, listJson_eq_map]
    | intersection ts => simp [toJson, isWritableNode, parts, children, listJson_eq_map]
    | generic name args => simp [toJson, isWritableNode, parts, children, listJson_eq_map]
    | shape kind fields s key value =>
      simp only [isRegularNode, Bool.and_eq_true, all_eq_true] at hregular
      obtain ⟨⟨hkind, hs⟩, hfields⟩ := hregular
      have hdata := isWritable_fieldsJson fun f hf => (hfields f hf).1
      rw [toJson, isWritable_obj]
      simp only [all_cons, all_nil, Bool.and_eq_true, hdata, isWritable_of_isText hkind,
        isWritable_of_isBool hs, isWritable_str, isWritable_optionJson, Option.all_eq_true,
        isWritableNode, all_eq_true, parts, children, mem_append, mem_map,
        Option.mem_toList]
      grind
    | conditional subject target whenTrue whenFalse negated =>
      simp only [isRegularNode, Bool.and_eq_true] at hregular
      simp [toJson, isWritableNode, parts, children, isWritable_of_isText hregular.1,
        isWritable_of_isBool hregular.2]
    | literal value =>
      cases value <;> simp [toJson, isWritableNode, parts, children, literalJson, Json.isWritable]
    | template name bound =>
      cases bound <;> simp [toJson, isWritableNode, parts, isWritable_of_isText hregular]
    | intRange low high => simp [toJson, isWritableNode, parts, children]
    | callable kind params result =>
      simp only [isRegularNode, Bool.and_eq_true, all_eq_true, and_assoc] at hregular
      have hdata := isWritable_parametersJson hregular.2
      rw [toJson, isWritable_obj]
      simp only [all_cons, all_nil, Bool.and_eq_true, hdata,
        isWritable_of_isText hregular.1, isWritable_str, isWritable_optionJson, Option.all_eq_true,
        isWritableNode, parts, children, mem_append, mem_map, Option.mem_toList]
      grind
    | memberReference owner member =>
      simp [toJson, isWritableNode, parts, children, isWritable_of_isText hregular]
    | unknown reason =>
      simp [toJson, isWritableNode, parts, children, isWritable_of_isText (hreason reason rfl)]

/-! ### Reading back -/

/-- **Reading undoes writing.** If no integer of a constructed type, bounds of template parameters
included, has too many digits, its data can be written and are read back as the type itself, with
the spelling of names, the order of members, bounds and reasons. Otherwise there are no data. -/
theorem ofJson_written {t : TypeExpr} (h : Constructed t) :
    (Everywhere (fun u => u.isWritableNode = true) t →
      ∃ j, t.toJson.written = .ok j ∧ ofJson j = .ok t) ∧
    (¬ Everywhere (fun u => u.isWritableNode = true) t →
      t.toJson.written = .error .unwritable) := by
  have hbuilt := h.isBuilt
  have hread := ofJson_toJson_of_settled (hbuilt.mono fun _ hu => hu.settled)
  rw [← isWritable_toJson_iff hbuilt]
  exact ⟨fun hwritable => ⟨t.toJson, if_pos hwritable, hread⟩, fun hwritable => if_neg hwritable⟩

/-- Types with spellings that count as equal, members to take apart, a template parameter with a
bound and a reason. -/
def mixedParts : List TypeExpr :=
  [mkUnion [.named "App\\Item", mkNullable (mkNullable (.named "app\\item")), .named "APP\\ITEM"],
    .template "T" (some (mkIntersection [.named "B", mkIntersection [.named "A", .named "b"]])),
    .shape "array" [⟨some (.int 3), .literal (.str "x"), true⟩, ⟨none, .unknown "no type", false⟩]
      true none (some (.intRange (.ofInt? none) (.ofInt? (some (-5))))),
    .conditional "$x" (mkUnion [])
      (.callable "callable" [⟨.keyword "int", false, true, false⟩] none)
      (.memberReference "Foo" "BAR_*") true]

theorem ofJson_written_mixed : Constructed (mkUnion mixedParts) ∧
    ∃ j, (mkUnion mixedParts).toJson.written = .ok j ∧ ofJson j = .ok (mkUnion mixedParts) := by
  have hconstructed : Constructed (mkUnion mixedParts) := by
    refine .union ?_
    simp only [mixedParts, forall_mem_cons, not_mem_nil, false_imp_iff, implies_true,
      and_true]
    refine ⟨.union ?_, .template "T" ?_, .shape "array" true ?_ ?_ (by simp) ?_,
      .conditional "$x" true (.union (by simp)) (.callable "callable" ?_ ?_ (by simp))
        (.memberReference "Foo" "BAR_*")⟩
    · simp [Constructed.named, Constructed.nullable]
    · simp [Constructed.named, Constructed.intersection]
    · decide
    · simp [Constructed.literal, Constructed.unknown]
    · simp [Constructed.intRange]
    · decide
    · simp [Constructed.keyword]
  exact ⟨hconstructed, (ofJson_written hconstructed).1 (by decide +kernel)⟩

/-- A template parameter whose bound is an integer with one digit too many has no data, although it
has a text. -/
theorem not_stored_of_tooLong : ¬ ∀ t, Constructed t →
    ∃ j, t.toJson.written = .ok j ∧ ofJson j = .ok t := by
  intro h
  -- The bound is given a name, lest its digits be worked out.
  obtain ⟨n, hn⟩ : ∃ n : Nat, Numeral.writableBound ≤ n := ⟨_, Nat.le_refl _⟩
  have hbound : ∀ t ∈ some (TypeExpr.literal (.int n)), Constructed t := by
    rintro _ ⟨rfl⟩
    exact .literal _
  obtain ⟨j, hwritten, -⟩ := h _ (.template "T" hbound)
  have hunwritable :
      (TypeExpr.template "T" (some (.literal (.int n)))).toJson.isWritable = false := by
    simp [toJson, literalJson, isWritable_of_le hn]
  rw [Json.written, if_neg (ne_true_of_eq_false hunwritable)] at hwritten
  cases hwritten

end StubCatalog.TypeExpr
