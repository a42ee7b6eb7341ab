import StubCatalog.Proofs.TypeExpr.CanonicalForm
import StubCatalog.Snapshot.Encoding

/-! # Types read back from data

Reading puts unions, intersections and nullable types together anew, which changes nothing if they
are in canonical form, and takes keys for texts and integers, which those of regular types are. -/

namespace StubCatalog

open List

variable {ts : List TypeExpr} {t : TypeExpr}

/-! ### Numbers that can be written -/

namespace Json

mutual

/-- No number inside the value is infinite or undefined. -/
def isFinite : Json → Bool
  | .float (.finite ..) => true
  | .float _ => false
  | .arr items => areItemsFinite items
  | .obj fields => areFieldsFinite fields
  | _ => true

/-- No number inside the items of an array is infinite or undefined. -/
def areItemsFinite : List Json → Bool
  | [] => true
  | item :: items => item.isFinite && areItemsFinite items

/-- No number inside the fields of an object is infinite or undefined. -/
def areFieldsFinite : List (String × Json) → Bool
  | [] => true
  | (_, value) :: fields => value.isFinite && areFieldsFinite fields

end

mutual

theorem finite_eq_self : ∀ {j : Json}, j.isFinite → j.finite = j
  | .float (.finite ..), _ | .null, _ | .bool _, _ | .int _, _ | .str _, _ => rfl
  | .arr _, h => congrArg Json.arr (finiteItems_eq_self h)
  | .obj _, h => congrArg Json.obj (finiteFields_eq_self h)

theorem finiteItems_eq_self : ∀ {items : List Json}, areItemsFinite items →
    finiteItems items = items
  | [], _ => rfl
  | item :: items, h => by
    obtain ⟨hitem, hitems⟩ := Bool.and_eq_true_iff.mp h
    rw [finiteItems, finite_eq_self hitem, finiteItems_eq_self hitems]

theorem finiteFields_eq_self : ∀ {fields : List (String × Json)}, areFieldsFinite fields →
    finiteFields fields = fields
  | [], _ => rfl
  | (key, value) :: fields, h => by
    obtain ⟨hvalue, hfields⟩ := Bool.and_eq_true_iff.mp h
    rw [finiteFields, finite_eq_self hvalue, finiteFields_eq_self hfields]

end

end Json

namespace TypeExpr

/-! ### Fields and members of data -/

section
variable {α β ε : Type}

@[simp]
theorem ok_bind (a : α) (f : α → Except ε β) : (Except.ok a >>= f) = f a := rfl

@[simp]
theorem pure_eq_ok (a : α) : (pure a : Except ε α) = .ok a := rfl

end

section
variable {β : Type} {fields : List (String × Json)} {key other : String} {v w : Json}

/-- A value inside the rest of an object is inside the object. -/
def Inside.later (field : String × Json) (x : Inside (.obj fields)) :
    Inside (.obj (field :: fields)) :=
  ⟨x.val, by have := x.property; simp at this ⊢; omega⟩

@[simp]
theorem val_later (field : String × Json) (x : Inside (.obj fields)) :
    (x.later field).val = x.val := rfl

theorem map_val_fieldInside? (fields : List (String × Json)) (key : String) :
    (fieldInside? (.obj fields) key).map (·.val) = fields.lookup key := by
  simp only [fieldInside?]
  split
  · next hv => exact hv.symm
  · next hv => exact hv.symm

@[simp]
theorem fieldInside?_self : fieldInside? (.obj ((key, v) :: fields)) key =
    some ⟨v, by simp; omega⟩ := by
  apply Option.map_injective Subtype.val_injective
  exact (map_val_fieldInside? ..).trans (by simp)

@[simp]
theorem fieldInside?_later (h : key ≠ other) : fieldInside? (.obj ((other, w) :: fields)) key =
    (fieldInside? (.obj fields) key).map (Inside.later (other, w)) := by
  apply Option.map_injective Subtype.val_injective
  calc (fieldInside? (.obj ((other, w) :: fields)) key).map (·.val)
    _ = fields.lookup key := by
      rw [map_val_fieldInside?, lookup_cons, beq_false_of_ne h]
    _ = _ := by
      rw [Option.map_map, ← map_val_fieldInside?]
      rfl

@[simp]
theorem fieldInside_self : fieldInside (.obj ((key, v) :: fields)) key =
    .ok ⟨v, by simp; omega⟩ := by
  simp [fieldInside]

@[simp]
theorem fieldInside_later (h : key ≠ other) : fieldInside (.obj ((other, w) :: fields)) key =
    (fieldInside (.obj fields) key).map (Inside.later (other, w)) := by
  simp only [fieldInside, fieldInside?_later h]
  cases fieldInside? (.obj fields) key <;> rfl

end

theorem forEach_val {β : Type} {p : Json → Prop} (g : Json → Except DecodeError β)
    (xs : List { v // p v }) :
    (forEach xs fun x _ => g x.val) = forEach (xs.map (·.val)) fun v _ => g v := by
  induction xs with
  | nil => rfl
  | cons x xs ih =>
    show _ = forEach (x.val :: xs.map (·.val)) fun v _ => g v
    simp only [forEach, ih]

theorem forEach_eq_ok {α β ε : Type} (g : α → Except ε β) (f : β → α) (ys : List β)
    (h : ∀ y ∈ ys, g (f y) = .ok y) : (forEach (ys.map f) fun x _ => g x) = .ok ys := by
  induction ys with
  | nil => rfl
  | cons y ys ih =>
    obtain ⟨hy, hys⟩ := forall_mem_cons.mp h
    show forEach (f y :: ys.map f) (fun x _ => g x) = _
    simp only [forEach, hy, ih hys]

theorem forEach_itemsInside {β : Type} (g : Json → Except DecodeError β) (f : β → Json)
    (ys : List β) (h : ∀ y ∈ ys, g (f y) = .ok y) :
    (itemsInside (.arr (ys.map f)) >>= fun items => forEach items fun x _ => g x.val) = .ok ys := by
  have hitems : ∃ items, itemsInside (.arr (ys.map f)) = .ok items ∧
      items.map (·.val) = ys.map f :=
    ⟨_, rfl, (map_map ..).trans (attach_map_subtype_val _)⟩
  obtain ⟨items, hitems, hvals⟩ := hitems
  rw [hitems]
  show (forEach items fun x _ => g x.val) = _
  rw [forEach_val g, hvals]
  exact forEach_eq_ok g f ys h

/-! ### Parts of types -/

theorem listJson_eq_map (ts : List TypeExpr) : listJson ts = ts.map toJson := by
  induction ts with
  | nil => rfl
  | cons t ts ih => rw [listJson, ih, map_cons]

theorem listOf_listJson (h : ∀ t ∈ ts, ofJson t.toJson = .ok t) :
    listOf (.arr (listJson ts)) = .ok ts := by
  rw [listJson_eq_map, listOf]
  exact forEach_itemsInside ofJson toJson ts h

theorem toJson_ne_null (t : TypeExpr) : t.toJson ≠ .null := by
  cases t <;> simp [toJson]

theorem optionOf_eq {j : Json} {key : String} {t : Option TypeExpr}
    (hfield : (fieldInside? j key).map (·.val) = some (optionJson t))
    (ht : ∀ u ∈ t, ofJson u.toJson = .ok u) : optionOf j key = .ok t := by
  obtain ⟨⟨v, hv⟩, hinside, rfl⟩ := Option.map_eq_some_iff.mp hfield
  rw [optionOf, hinside]
  cases t with
  | none => rfl
  | some t =>
    simp only [optionJson]
    split
    · next heq => cases heq
    · next heq => exact absurd (congrArg Subtype.val (Option.some.inj heq)) (toJson_ne_null t)
    · next v _ _ heq =>
      obtain rfl : t.toJson = v := congrArg Subtype.val (Option.some.inj heq)
      rw [ht t rfl]
      rfl

/-- A field of a shape as data. -/
def fieldJson (f : ShapeField TypeExpr) : Json :=
  .obj [("key", keyJson f.key), ("value", f.value.toJson), ("optional", f.optional.stored)]

theorem fieldsJson_eq_map (fs : List (ShapeField TypeExpr)) : fieldsJson fs = fs.map fieldJson := by
  induction fs with
  | nil => rfl
  | cons f fs ih => rw [fieldsJson, ih, map_cons, fieldJson]

theorem keyOf_keyJson {key : Option ShapeKey} (h : key.all ShapeKey.isPlain) :
    keyOf (keyJson key) = key := by
  match key, h with
  | none, _ | some (.int _), _ | some (.str _), _ => rfl

theorem fieldsOf_fieldsJson {fs : List (ShapeField TypeExpr)}
    (hkey : ∀ f ∈ fs, f.key.all ShapeKey.isPlain)
    (h : ∀ f ∈ fs, ofJson f.value.toJson = .ok f.value) :
    fieldsOf (.arr (fieldsJson fs)) = .ok fs := by
  rw [fieldsJson_eq_map, fieldsOf]
  refine forEach_itemsInside (fun v => do
    let key ← fieldInside v "key"
    let value ← fieldInside v "value"
    let type ← ofJson value.val
    let optional ← fieldInside v "optional"
    return ⟨keyOf key.val, type, ⟨optional.val⟩⟩) fieldJson fs fun f hf => ?_
  simp [fieldJson, Except.map, h f hf, keyOf_keyJson (hkey f hf)]

/-- A parameter of a callable as data. -/
def parameterJson (p : CallableParameter TypeExpr) : Json :=
  .obj [("type", p.type.toJson), ("optional", p.optional.stored), ("variadic", p.variadic.stored),
    ("by_reference", p.byReference.stored)]

theorem parametersJson_eq_map (ps : List (CallableParameter TypeExpr)) :
    parametersJson ps = ps.map parameterJson := by
  induction ps with
  | nil => rfl
  | cons p ps ih => rw [parametersJson, ih, map_cons, parameterJson]

theorem parametersOf_parametersJson {ps : List (CallableParameter TypeExpr)}
    (h : ∀ p ∈ ps, ofJson p.type.toJson = .ok p.type) :
    parametersOf (.arr (parametersJson ps)) = .ok ps := by
  rw [parametersJson_eq_map, parametersOf]
  refine forEach_itemsInside (fun v => do
    let type ← fieldInside v "type"
    let type ← ofJson type.val
    let optional ← fieldInside v "optional"
    let variadic ← fieldInside v "variadic"
    let byReference ← fieldInside v "by_reference"
    return ⟨type, ⟨optional.val⟩, ⟨variadic.val⟩, ⟨byReference.val⟩⟩) parameterJson ps
      fun p hp => ?_
  simp [parameterJson, Except.map, h p hp]

/-! ### Types -/

/-- Putting the type together anew from its parts changes nothing. -/
def IsSettledNode : TypeExpr → Prop
  | .nullable t => mkNullable t = .nullable t
  | .union ts => (∀ t ∈ ts, unionParts t = [t]) ∧ ts.Pairwise fun t u => t.same u = false
  | .intersection ts =>
    (∀ t ∈ ts, intersectionParts t = [t]) ∧ ts.Pairwise fun t u => t.same u = false
  | .shape _ fields _ _ _ => ∀ f ∈ fields, f.key.all ShapeKey.isPlain
  | _ => True

theorem mkUnion_eq_of_settled (h : IsSettledNode (.union ts)) : mkUnion ts = .union ts := by
  rw [mkUnion, flatMap_eq_self h.1, distinct_eq_self h.2]

theorem mkIntersection_eq_of_settled (h : IsSettledNode (.intersection ts)) :
    mkIntersection ts = .intersection ts := by
  rw [mkIntersection, flatMap_eq_self h.1, distinct_eq_self h.2]

theorem ofJson_toJson_of_settled (h : Everywhere IsSettledNode t) : ofJson t.toJson = .ok t := by
  induction h with
  | @intro t here inside ih =>
    -- the sort alone decides which field is read next
    rw [ofJson.eq_1]
    cases t with
    | keyword name =>
      rw [toJson, fieldInside_self, ok_bind]
      show (fieldInside _ "name" >>= _) = _
      simp [Except.map]
    | named name =>
      rw [toJson, fieldInside_self, ok_bind]
      show (fieldInside _ "name" >>= _) = _
      simp [Except.map, textOf]
    | nullable u =>
      have hu : ofJson u.toJson = .ok u := ih u (by simp [parts, children])
      rw [toJson, fieldInside_self, ok_bind]
      show (fieldInside _ "inner" >>= _) = _
      simp [Except.map, hu, show mkNullable u = _ from here]
    | union ts =>
      have hts : listOf (.arr (listJson ts)) = .ok ts := listOf_listJson ih
      rw [toJson, fieldInside_self, ok_bind]
      show (fieldInside _ "members" >>= _) = _
      simp [Except.map, hts, mkUnion_eq_of_settled here]
    | intersection ts =>
      have hts : listOf (.arr (listJson ts)) = .ok ts := listOf_listJson ih
      rw [toJson, fieldInside_self, ok_bind]
      show (fieldInside _ "members" >>= _) = _
      simp [Except.map, hts, mkIntersection_eq_of_settled here]
    | generic name args =>
      have hargs : listOf (.arr (listJson args)) = .ok args := listOf_listJson ih
      rw [toJson, fieldInside_self, ok_bind]
      show (fieldInside _ "name" >>= _) = _
      simp [Except.map, textOf, hargs]
    | shape kind fields s key value =>
      have hfields : fieldsOf (.arr (fieldsJson fields)) = .ok fields :=
        fieldsOf_fieldsJson here fun f hf => ih f.value (mem_parts_of_field hf)
      have hkey : optionOf (toJson (.shape kind fields s key value)) "extra_key" = .ok key :=
        optionOf_eq (by simp [toJson]) fun u hu => ih u (mem_parts_of_extraKey hu)
      have hvalue : optionOf (toJson (.shape kind fields s key value)) "extra_value" = .ok value :=
        optionOf_eq (by simp [toJson]) fun u hu => ih u (mem_parts_of_extraValue hu)
      rw [toJson] at hkey hvalue ⊢
      rw [fieldInside_self, ok_bind]
      show (fieldInside _ "shape_kind" >>= _) = _
      simp [Except.map, hfields, hkey, hvalue]
    | conditional subject target whenTrue whenFalse negated =>
      have htarget : ofJson target.toJson = .ok target := ih target (by simp [parts, children])
      have htrue : ofJson whenTrue.toJson = .ok whenTrue := ih whenTrue (by simp [parts, children])
      have hfalse : ofJson whenFalse.toJson = .ok whenFalse :=
        ih whenFalse (by simp [parts, children])
      rw [toJson, fieldInside_self, ok_bind]
      show (fieldInside _ "subject" >>= _) = _
      simp [Except.map, htarget, htrue, hfalse]
    | literal value =>
      rw [toJson, fieldInside_self, ok_bind]
      show (fieldInside _ "value" >>= _) = _
      cases value <;> simp [Except.map, literalOf, literalJson, doubleOf]
    | template name bound =>
      have hbound : optionOf (toJson (.template name bound)) "bound" = .ok bound :=
        optionOf_eq (by simp [toJson]) fun u hu => ih u (by simpa [parts] using hu)
      rw [toJson] at hbound ⊢
      rw [fieldInside_self, ok_bind]
      show (fieldInside _ "name" >>= _) = _
      simp [Except.map, hbound]
    | intRange low high =>
      rw [toJson, fieldInside_self, ok_bind]
      show (fieldInside _ "min" >>= _) = _
      simp [Except.map]
    | callable kind params result =>
      have hparams : parametersOf (.arr (parametersJson params)) = .ok params :=
        parametersOf_parametersJson fun p hp => ih p.type (mem_parts_of_parameter hp)
      have hresult : optionOf (toJson (.callable kind params result)) "return_type" = .ok result :=
        optionOf_eq (by simp [toJson]) fun u hu => ih u (mem_parts_of_result hu)
      rw [toJson] at hresult ⊢
      rw [fieldInside_self, ok_bind]
      show (fieldInside _ "callable_kind" >>= _) = _
      simp [Except.map, hparams, hresult]
    | memberReference owner member =>
      rw [toJson, fieldInside_self, ok_bind]
      show (fieldInside _ "class_name" >>= _) = _
      simp [Except.map, textOf]
    | unknown reason => simp [toJson]

theorem isSettledNode_of_regular (hcanonical : t.IsCanonicalNode)
    (hregular : t.isRegularNode) : t.IsSettledNode := by
  cases t with
  | nullable t => exact mkNullable_eq hcanonical
  | union ts =>
    exact ⟨fun t ht => unionParts_eq (isAlternative_iff.mp (hcanonical.plain t ht)).1,
      hcanonical.apart⟩
  | intersection ts =>
    exact ⟨fun t ht => intersectionParts_eq (hcanonical.plain t ht), hcanonical.apart⟩
  | shape kind fields s key value =>
    simp only [isRegularNode, Bool.and_eq_true, all_eq_true] at hregular
    exact fun f hf => (hregular.2 f hf).2
  | _ => exact trivial

theorem ofJson_toJson (h : RegularForm t) : ofJson t.toJson = .ok t :=
  ofJson_toJson_of_settled (h.mono fun _ hu => isSettledNode_of_regular hu.1 hu.2)

end TypeExpr

end StubCatalog
