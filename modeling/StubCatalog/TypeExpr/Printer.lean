import StubCatalog.Text.Basic
import StubCatalog.TypeExpr.Union

/-! # Text of a type expression

Parentheses are put where a member would run into what follows it, and class names that read as
built-in types get a backslash in front. -/

namespace StubCatalog.TypeExpr

/-- A class name as it is written, told apart from built-in types by a backslash. -/
def classText (name : String) : String :=
  if Keyword.isReserved name then "\\" ++ name else name

/-- A key without quotes may start with this character. -/
def isKeyStart (c : Char) : Bool := c.isAlpha || c == '_'

/-- The key is written without quotes: a name of ASCII letters, digits and underscores, possibly
with one line feed behind it. -/
def isBareKey : List Char → Bool
  | [] => false
  | c :: rest =>
    let behind := rest.dropWhile fun d => d.isAlphanum || d == '_'
    isKeyStart c && (behind == [] || behind == ['\n'])

/-- A character between quotes. -/
def quoteChar (c : Char) : List Char := if c == '\\' || c == '\'' then ['\\', c] else [c]

/-- A text in single quotes. -/
def quoteText (s : String) : String :=
  String.ofList ('\'' :: s.toList.flatMap quoteChar ++ ['\''])

/-- A field's key as it is written. -/
def keyText : ShapeKey → String
  | .int n => toString n
  | .str s => if isBareKey s.toList then s else quoteText s
  | .stored j => j.shown

/-- A value as it is written. -/
def literalText : LiteralValue → String
  | .int n => toString n
  | .float d => d.text
  | .str s => quoteText s

/-- A bound of a range of integers; `unbounded` stands for none. -/
def boundText (unbounded : String) (b : Bound) : String :=
  if b.isOpen then unbounded else b.stored.plain

/-- A range of integers as it is written. -/
def rangeText (low high : Bound) : String :=
  "int<" ++ boundText "min" low ++ ", " ++ boundText "max" high ++ ">"

/-- The text ends in the result of a callable. -/
def endsInResult : TypeExpr → Bool
  | .callable _ _ (some _) => true
  | _ => false

/-- The type has to be written as an alternative to null, and not behind a question mark. -/
def isCompound : TypeExpr → Bool
  | .union _ | .intersection _ | .conditional .. => true
  | t => t.endsInResult

/-- The type is put in parentheses among the members of an intersection. -/
def isLoose : TypeExpr → Bool
  | .union _ | .nullable _ => true
  | t => t.endsInResult

/-- The text, in parentheses if they are wanted. -/
def parenthesized (wanted : Bool) (s : String) : String := if wanted then "(" ++ s ++ ")" else s

/-- The owner of a member as it is written. -/
def ownerText (name : String) : String :=
  if Keyword.relatives.contains (Text.lower name) then name else classText name

/-- The marks behind a parameter's type. -/
def parameterMarks (byReference variadic optional : Bool) : String :=
  (if byReference then "&" else "") ++ (if variadic then "..." else "")
    ++ (if optional then "=" else "")

/-- What is written for further fields. -/
def tailText («sealed» : Bool) (key value : Option String) : List String :=
  if «sealed» then []
  else match key, value with
    | _, none => ["..."]
    | none, some v => ["...<" ++ v ++ ">"]
    | some k, some v => ["...<" ++ k ++ ", " ++ v ++ ">"]

mutual

/-- The type as it is written. -/
def text : TypeExpr → String
  | .keyword name => name.text
  | .named name => classText name
  | .nullable (.union ts) => "null|" ++ Text.joined "|" (unionTexts ts)
  | .nullable t =>
    if t.isCompound then "null|" ++ parenthesized t.endsInResult t.text else "?" ++ t.text
  | .union ts => Text.joined "|" (unionTexts ts)
  | .intersection ts => Text.joined "&" (intersectionTexts ts)
  | .generic name args =>
    (if Keyword.isGeneric name then name else classText name)
      ++ "<" ++ Text.joined ", " (texts args) ++ ">"
  | .shape kind fields s key value =>
    kind.text ++ "\x7b" ++ Text.joined ", "
      (fieldTexts fields ++ tailText s.isSet (optionText key) (optionText value)) ++ "\x7d"
  | .conditional subject target whenTrue whenFalse negated =>
    "(" ++ subject.text ++ (if negated.isSet then " is not " else " is ") ++ target.text ++ " ? "
      ++ whenTrue.text ++ " : " ++ whenFalse.text ++ ")"
  | .literal value => literalText value
  | .template name _ => name.text
  | .intRange low high => rangeText low high
  | .callable kind params result =>
    kind.text ++ "(" ++ Text.joined ", " (parameterTexts params) ++ ")"
      ++ (match optionText result with
        | some r => ": " ++ r
        | none => "")
  | .memberReference owner member => ownerText owner ++ "::" ++ member.text
  | .unknown _ => "mixed"

/-- The texts of a list of types. -/
def texts : List TypeExpr → List String
  | [] => []
  | t :: ts => t.text :: texts ts

/-- The text of a type that may be missing. -/
def optionText : Option TypeExpr → Option String
  | none => none
  | some t => some t.text

/-- The texts of alternatives. -/
def unionTexts : List TypeExpr → List String
  | [] => []
  | t :: ts => parenthesized t.endsInResult t.text :: unionTexts ts

/-- The texts of the members of a combination. -/
def intersectionTexts : List TypeExpr → List String
  | [] => []
  | t :: ts => parenthesized t.isLoose t.text :: intersectionTexts ts

/-- The texts of fields. -/
def fieldTexts : List (ShapeField TypeExpr) → List String
  | [] => []
  | ⟨none, t, _⟩ :: fs => t.text :: fieldTexts fs
  | ⟨some key, t, optional⟩ :: fs =>
    (keyText key ++ (if optional.isSet then "?: " else ": ") ++ t.text) :: fieldTexts fs

/-- The texts of parameters. -/
def parameterTexts : List (CallableParameter TypeExpr) → List String
  | [] => []
  | ⟨t, optional, variadic, byReference⟩ :: ps =>
    (t.text ++ parameterMarks byReference.isSet variadic.isSet optional.isSet) :: parameterTexts ps

end

theorem texts_eq_map (ts : List TypeExpr) : texts ts = ts.map text := by
  induction ts with
  | nil => simp [texts]
  | cons t ts ih => rw [texts, ih, List.map_cons]

/-- The text of an alternative. -/
def memberText (t : TypeExpr) : String := parenthesized t.endsInResult t.text

/-- The text of a member of a combination. -/
def factorText (t : TypeExpr) : String := parenthesized t.isLoose t.text

theorem unionTexts_eq_map (ts : List TypeExpr) : unionTexts ts = ts.map memberText := by
  induction ts with
  | nil => simp [unionTexts]
  | cons t ts ih => rw [unionTexts, ih, List.map_cons, memberText]

theorem intersectionTexts_eq_map (ts : List TypeExpr) :
    intersectionTexts ts = ts.map factorText := by
  induction ts with
  | nil => simp [intersectionTexts]
  | cons t ts ih => rw [intersectionTexts, ih, List.map_cons, factorText]

theorem text_nullable {t : TypeExpr} (h : t.isCompound = true) :
    (TypeExpr.nullable t).text = "null|" ++ Text.joined "|" ((unionParts t).map memberText) := by
  cases t with
  | union ts => rw [text, unionTexts_eq_map, unionParts]
  | _ =>
    rw [text, if_pos h]
    · simp only [unionParts, List.map_cons, List.map_nil, Text.joined, memberText]
    · simp

mutual

/-- The make-up of a type: its sort and its parts, as shown to someone who debugs a stub file. -/
def outline : TypeExpr → String
  | .keyword name => "Primitive(" ++ name.stored.shown ++ ")"
  | .named name => "Named(" ++ Text.quoted name ++ ")"
  | .nullable t => "Nullable(" ++ t.outline ++ ")"
  | .union ts => "Union([" ++ Text.joined ", " (outlines ts) ++ "])"
  | .intersection ts => "Intersection([" ++ Text.joined ", " (outlines ts) ++ "])"
  | .generic name args =>
    "Generic(" ++ Text.quoted name ++ ", [" ++ Text.joined ", " (outlines args) ++ "])"
  | .shape kind fields s key value =>
    "Shape(" ++ Text.quoted (TypeExpr.shape kind fields s key value).text ++ ")"
  | .conditional subject target whenTrue whenFalse negated =>
    "Conditional("
      ++ Text.quoted (TypeExpr.conditional subject target whenTrue whenFalse negated).text ++ ")"
  | .literal (.int n) => "Literal(" ++ toString n ++ ")"
  | .literal (.float d) => "Literal(" ++ d.text ++ ")"
  | .literal (.str s) => "Literal(" ++ Text.quoted s ++ ")"
  | .template name _ => "TemplateParam(" ++ name.stored.shown ++ ")"
  | .intRange low high => "IntRange(" ++ low.stored.shown ++ ", " ++ high.stored.shown ++ ")"
  | .callable kind params result =>
    "CallableType(" ++ Text.quoted (TypeExpr.callable kind params result).text ++ ")"
  | .memberReference owner member =>
    "MemberReference(" ++ Text.quoted owner ++ ", " ++ member.stored.shown ++ ")"
  | .unknown _ => "Unknown()"

/-- The outlines of a list of types. -/
def outlines : List TypeExpr → List String
  | [] => []
  | t :: ts => t.outline :: outlines ts

end

end StubCatalog.TypeExpr
