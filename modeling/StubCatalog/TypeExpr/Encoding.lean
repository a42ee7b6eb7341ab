import StubCatalog.Decimal.Numeral
import StubCatalog.Sequence
import StubCatalog.TypeExpr.Printer

/-! # Types as JSON

A type is stored as an object with its sort, its parts, and its written form, which is not read
back. -/

namespace StubCatalog.TypeExpr

/-! ### Writing -/

/-- The data of a field's key. -/
def keyJson : Option ShapeKey → Json
  | none => .null
  | some key => key.toJson

/-- The data of a value, and its sort. -/
def literalJson : LiteralValue → Json × String
  | .int n => (.int n, "int")
  | .float d => (.float d, "float")
  | .str s => (.str s, "string")

mutual

/-- The data of a type. -/
def toJson : TypeExpr → Json
  | .keyword name =>
    .obj [("kind", .str "primitive"), ("name", name.stored), ("text", name.stored)]
  | .named name =>
    .obj [("kind", .str "named"), ("name", .str name), ("text", .str (TypeExpr.named name).text)]
  | .nullable t =>
    .obj [("kind", .str "nullable"), ("inner", t.toJson), ("text", .str (TypeExpr.nullable t).text)]
  | .union ts =>
    .obj [("kind", .str "union"), ("members", .arr (listJson ts)),
      ("text", .str (TypeExpr.union ts).text)]
  | .intersection ts =>
    .obj [("kind", .str "intersection"), ("members", .arr (listJson ts)),
      ("text", .str (TypeExpr.intersection ts).text)]
  | .generic name ts =>
    .obj [("kind", .str "generic"), ("name", .str name), ("args", .arr (listJson ts)),
      ("text", .str (TypeExpr.generic name ts).text)]
  | .shape kind fields s key value =>
    .obj [("kind", .str "shape"), ("shape_kind", kind.stored), ("fields", .arr (fieldsJson fields)),
      ("sealed", s.stored), ("extra_key", optionJson key), ("extra_value", optionJson value),
      ("text", .str (TypeExpr.shape kind fields s key value).text)]
  | .conditional subject target whenTrue whenFalse negated =>
    .obj [("kind", .str "conditional"), ("subject", subject.stored), ("target", target.toJson),
      ("then", whenTrue.toJson), ("otherwise", whenFalse.toJson), ("negated", negated.stored),
      ("text", .str (TypeExpr.conditional subject target whenTrue whenFalse negated).text)]
  | .literal value =>
    .obj [("kind", .str "literal"), ("value", (literalJson value).1),
      ("literal_kind", .str (literalJson value).2), ("text", .str (literalText value))]
  | .template name bound =>
    .obj [("kind", .str "template"), ("name", name.stored), ("bound", optionJson bound),
      ("text", name.stored)]
  | .intRange low high =>
    .obj [("kind", .str "int_range"), ("min", low.stored), ("max", high.stored),
      ("text", .str (rangeText low high))]
  | .callable kind params result =>
    .obj [("kind", .str "callable"), ("callable_kind", kind.stored),
      ("params", .arr (parametersJson params)), ("return_type", optionJson result),
      ("text", .str (TypeExpr.callable kind params result).text)]
  | .memberReference owner member =>
    .obj [("kind", .str "member_reference"), ("class_name", .str owner), ("member", member.stored),
      ("text", .str (TypeExpr.memberReference owner member).text)]
  | .unknown reason =>
    .obj [("kind", .str "unknown"), ("reason", reason.stored), ("text", .str "mixed")]

/-- The data of a list of types. -/
def listJson : List TypeExpr → List Json
  | [] => []
  | t :: ts => t.toJson :: listJson ts

/-- The data of a type that may be missing. -/
def optionJson : Option TypeExpr → Json
  | none => .null
  | some t => t.toJson

/-- The data of fields. -/
def fieldsJson : List (ShapeField TypeExpr) → List Json
  | [] => []
  | ⟨key, t, optional⟩ :: fs =>
    .obj [("key", keyJson key), ("value", t.toJson), ("optional", optional.stored)] :: fieldsJson fs

/-- The data of parameters. -/
def parametersJson : List (CallableParameter TypeExpr) → List Json
  | [] => []
  | ⟨t, optional, variadic, byReference⟩ :: ps =>
    .obj [("type", t.toJson), ("optional", optional.stored), ("variadic", variadic.stored),
      ("by_reference", byReference.stored)] :: parametersJson ps

end

/-! ### Reading -/

/-- Why data are not read as a type. -/
inductive DecodeError where
  | missing (key : String)
  | notSubscriptable (kind : String)
  | textIndexed
  | listIndexed
  | notIterable (kind : String)
  | notReal (kind : String)
  | notDecimal (text : String)
  | tooLarge
  | booleanLiteral
  | unknownKind (shown : String)
  | wrongKind (key kind : String)
  deriving DecidableEq, Repr

/-- The text of the error. -/
def DecodeError.message : DecodeError → String
  | .missing key => "Malformed type data: " ++ Text.quoted key
  | .notSubscriptable kind => "Malformed type data: '" ++ kind ++ "' object is not subscriptable"
  | .textIndexed => "Malformed type data: string indices must be integers, not 'str'"
  | .listIndexed => "Malformed type data: list indices must be integers or slices, not str"
  | .notIterable kind => "Malformed type data: '" ++ kind ++ "' object is not iterable"
  | .notReal kind =>
    "Malformed type data: float() argument must be a string or a real number, not '" ++ kind ++ "'"
  | .notDecimal text => "could not convert string to float: " ++ Text.quoted text
  | .tooLarge => "int too large to convert to float"
  | .booleanLiteral => "boolean literals are the primitives 'true' and 'false'"
  | .unknownKind shown => "Unknown type kind " ++ shown
  | .wrongKind key kind => "Malformed type data: " ++ Text.quoted key ++ " is of kind " ++ kind

/-- A value inside `j`. -/
abbrev Inside (j : Json) := { v : Json // sizeOf v < sizeOf j }

theorem sizeOf_lt_of_lookup {key : String} {v : Json} :
    ∀ {fields : List (String × Json)}, fields.lookup key = some v → sizeOf v < sizeOf fields
  | (k, w) :: rest, h => by
    rw [List.lookup_cons] at h
    split at h
    · cases h
      simp
      omega
    · have := sizeOf_lt_of_lookup h
      simp
      omega

/-- The value under a key, smaller than the data. -/
def fieldInside? (j : Json) (key : String) : Option (Inside j) :=
  match j with
  | .obj fields =>
    match h : fields.lookup key with
    | some v => some ⟨v, by have := sizeOf_lt_of_lookup h; simp; omega⟩
    | none => none
  | _ => none

/-- The value under a key, which must be there. -/
def fieldInside (j : Json) (key : String) : Except DecodeError (Inside j) :=
  match j with
  | .obj fields =>
    match fieldInside? (.obj fields) key with
    | some v => .ok v
    | none => .error (.missing key)
  | .str _ => .error .textIndexed
  | .arr _ => .error .listIndexed
  | other => .error (.notSubscriptable other.kindName)

/-- The items of a list, smaller than the data. -/
def itemsInside (j : Json) : Except DecodeError (List (Inside j)) :=
  match j with
  | .arr items => .ok (items.attach.map fun ⟨v, h⟩ =>
      ⟨v, by have := List.sizeOf_lt_of_mem h; simp; omega⟩)
  | .obj fields => if fields.isEmpty then .ok [] else .error .textIndexed
  | .str s => if s == "" then .ok [] else .error .textIndexed
  | other => .error (.notIterable other.kindName)

/-- The data must be a text. -/
def textOf (key : String) : Json → Except DecodeError String
  | .str s => .ok s
  | other => .error (.wrongKind key other.kindName)

/-- The key of a field. -/
def keyOf : Json → Option ShapeKey
  | .null => none
  | .int n => some (.int n)
  | .str s => some (.str s)
  | other => some (.stored other)

/-- A number, or a text that is one. -/
def doubleOf : Json → Except DecodeError Double
  | .float d => .ok d
  | .bool b => .ok (.ofInt (if b then 1 else 0))
  | .int n => if (Double.ofInt n).isInfinite then .error .tooLarge else .ok (.ofInt n)
  | .str s =>
    match Numeral.readDouble? s with
    | some d => .ok d
    | none => .error (.notDecimal s)
  | other => .error (.notReal other.kindName)

/-- The value of a literal; its kind is that of the value unless it is said to be a decimal. -/
def literalOf (value : Json) (kind : Option Json) : Except DecodeError LiteralValue :=
  match kind with
  | some (.str "float") => do return .float (← doubleOf value)
  | _ =>
    match value with
    | .bool _ => .error .booleanLiteral
    | .int n => .ok (.int n)
    | .float d => .ok (.float d)
    | .str s => .ok (.str s)
    | other => .error (.wrongKind "value" other.kindName)

mutual

/-- The type that the data are read as. -/
def ofJson (j : Json) : Except DecodeError TypeExpr := do
  let kind ← fieldInside j "kind"
  match kind.val with
  | .str "primitive" => return .keyword ⟨(← fieldInside j "name").val⟩
  | .str "named" => return .named (← textOf "name" (← fieldInside j "name").val)
  | .str "nullable" =>
    let ⟨inner, _⟩ ← fieldInside j "inner"
    return mkNullable (← ofJson inner)
  | .str "union" =>
    let ⟨members, _⟩ ← fieldInside j "members"
    return mkUnion (← listOf members)
  | .str "intersection" =>
    let ⟨members, _⟩ ← fieldInside j "members"
    return mkIntersection (← listOf members)
  | .str "generic" =>
    let name ← textOf "name" (← fieldInside j "name").val
    let ⟨args, _⟩ ← fieldInside j "args"
    return .generic name (← listOf args)
  | .str "shape" =>
    let kind ← fieldInside j "shape_kind"
    let ⟨fields, _⟩ ← fieldInside j "fields"
    let fields ← fieldsOf fields
    let s ← fieldInside j "sealed"
    let key ← optionOf j "extra_key"
    let value ← optionOf j "extra_value"
    return .shape ⟨kind.val⟩ fields ⟨s.val⟩ key value
  | .str "conditional" =>
    let subject ← fieldInside j "subject"
    let ⟨target, _⟩ ← fieldInside j "target"
    let target ← ofJson target
    let ⟨whenTrue, _⟩ ← fieldInside j "then"
    let whenTrue ← ofJson whenTrue
    let ⟨whenFalse, _⟩ ← fieldInside j "otherwise"
    let whenFalse ← ofJson whenFalse
    let negated ← fieldInside j "negated"
    return .conditional ⟨subject.val⟩ target whenTrue whenFalse ⟨negated.val⟩
  | .str "literal" =>
    let value ← fieldInside j "value"
    return .literal (← literalOf value.val ((fieldInside? j "literal_kind").map (·.val)))
  | .str "template" =>
    let name ← fieldInside j "name"
    return .template ⟨name.val⟩ (← optionOf j "bound")
  | .str "int_range" =>
    let low ← fieldInside j "min"
    let high ← fieldInside j "max"
    return .intRange ⟨low.val⟩ ⟨high.val⟩
  | .str "callable" =>
    let kind ← fieldInside j "callable_kind"
    let ⟨params, _⟩ ← fieldInside j "params"
    let params ← parametersOf params
    return .callable ⟨kind.val⟩ params (← optionOf j "return_type")
  | .str "member_reference" =>
    let owner ← textOf "class_name" (← fieldInside j "class_name").val
    let member ← fieldInside j "member"
    return .memberReference owner ⟨member.val⟩
  | .str "unknown" =>
    match fieldInside? j "reason" with
    | some reason => return .unknown ⟨reason.val⟩
    | none => return .unknown ""
  | other => throw (.unknownKind other.shown)
termination_by 2 * sizeOf j + 1
decreasing_by all_goals omega

/-- The type under a key, if it is there. -/
def optionOf (j : Json) (key : String) : Except DecodeError (Option TypeExpr) :=
  match fieldInside? j key with
  | none => .ok none
  | some ⟨.null, _⟩ => .ok none
  | some ⟨v, _⟩ => do return some (← ofJson v)
termination_by 2 * sizeOf j
decreasing_by omega

/-- A list of types. -/
def listOf (j : Json) : Except DecodeError (List TypeExpr) := do
  let items ← itemsInside j
  forEach items fun ⟨v, _⟩ _ => ofJson v
termination_by 2 * sizeOf j
decreasing_by omega

/-- The fields of a shape. -/
def fieldsOf (j : Json) : Except DecodeError (List (ShapeField TypeExpr)) := do
  let items ← itemsInside j
  forEach items fun ⟨v, _⟩ _ => do
    let key ← fieldInside v "key"
    let ⟨value, _⟩ ← fieldInside v "value"
    let type ← ofJson value
    let optional ← fieldInside v "optional"
    return ⟨keyOf key.val, type, ⟨optional.val⟩⟩
termination_by 2 * sizeOf j
decreasing_by omega

/-- The parameters of a callable. -/
def parametersOf (j : Json) : Except DecodeError (List (CallableParameter TypeExpr)) := do
  let items ← itemsInside j
  forEach items fun ⟨v, _⟩ _ => do
    let ⟨type, _⟩ ← fieldInside v "type"
    let type ← ofJson type
    let optional ← fieldInside v "optional"
    let variadic ← fieldInside v "variadic"
    let byReference ← fieldInside v "by_reference"
    return ⟨type, ⟨optional.val⟩, ⟨variadic.val⟩, ⟨byReference.val⟩⟩
termination_by 2 * sizeOf j
decreasing_by omega

end

end StubCatalog.TypeExpr
