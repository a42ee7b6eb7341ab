import StubCatalog.Decimal.Numeral
import StubCatalog.Name
import StubCatalog.Scalar
import StubCatalog.TypeExpr.Token

/-! # Evaluating constant expressions

The text of a value is evaluated as far as it is a literal. A name is looked up later, a marker says
that the value is only known at run time, and everything else stays an expression. -/

namespace StubCatalog

/-- What the text of a value comes down to. -/
inductive Evaluation where
  | literal (value : Scalar)
  | unknown
  | constant (name : String)
  | classConstant (owner member : String)
  | expression
  deriving DecidableEq, Repr, Inhabited

namespace Evaluation

/-! ### Numbers -/

/-- Drops a sign in front. -/
def dropSign : List Char → List Char
  | '+' :: rest => rest
  | '-' :: rest => rest
  | cs => cs

/-- Digits and underscores. -/
def isDigitRun (p : Char → Bool) (cs : List Char) : Bool :=
  !cs.isEmpty && cs.all fun c => p c || c == '_'

/-- A digit to base eight. -/
def isOctal (c : Char) : Bool := 48 ≤ c.toNat && c.toNat ≤ 55

/-- Decimal digits with underscores behind the first one. -/
def isDecimalRun : List Char → Bool
  | [] => false
  | c :: rest => Text.isDigit c && rest.all fun d => Text.isDigit d || d == '_'

/-- The text is an integer. -/
def isInteger (cs : List Char) : Bool :=
  isDecimalRun cs || match cs with
    | '0' :: mark :: rest =>
      isDigitRun isOctal (mark :: rest)
        || ((mark == 'x' || mark == 'X') && isDigitRun (Numeral.hexValue? · |>.isSome) rest)
        || ((mark == 'b' || mark == 'B') && isDigitRun (fun c => c == '0' || c == '1') rest)
        || ((mark == 'o' || mark == 'O') && isDigitRun isOctal rest)
    | _ => false

/-- The text is empty or an exponent. -/
def isExponent : List Char → Bool
  | [] => true
  | mark :: rest =>
    let digits := dropSign rest
    (mark == 'e' || mark == 'E') && !digits.isEmpty && digits.all Text.isDigit

/-- The text is a decimal. -/
def isDecimal (cs : List Char) : Bool :=
  match cs with
  | '.' :: rest =>
    (rest.head?.any Text.isDigit) && isExponent (rest.dropWhile Text.isDigit)
  | c :: rest =>
    Text.isDigit c && match rest.dropWhile fun d => Text.isDigit d || d == '_' with
      | '.' :: fraction => isExponent (fraction.dropWhile Text.isDigit)
      | behind => isExponent behind
  | [] => false

/-! ### Texts and names -/

/-- The rest of a text behind its opening quote ends with the closing one, and the characters
between are not refused unless escaped. -/
def isQuotedRest (quote : Char) (refused : Char → Bool) : List Char → Bool
  | [] => false
  | [c] => c == quote
  | '\\' :: _ :: rest => isQuotedRest quote refused rest
  | c :: rest => c != quote && c != '\\' && !refused c && isQuotedRest quote refused rest

/-- The text is a literal between quotes; between double quotes nothing may be filled in. -/
def isQuoted : List Char → Bool
  | '\'' :: rest => isQuotedRest '\'' (fun _ => false) rest
  | '"' :: rest => isQuotedRest '"' (· == '$') rest
  | _ => false

/-- Drops a backslash in front. -/
def dropBackslash : List Char → List Char
  | '\\' :: rest => rest
  | cs => cs

/-- The text is a name. -/
def isConstantName (cs : List Char) : Bool :=
  (Text.fields '\\' (dropBackslash cs)).all Text.isIdentifier

/-- A character of a class name. -/
def isClassChar (c : Char) : Bool := Text.isWord c || c == '\\'

/-- The class and the constant in a reference. -/
def classConstant? (cs : List Char) : Option (String × String) :=
  match cs.takeWhile (· != ':'), cs.dropWhile (· != ':') with
  | owner, ':' :: ':' :: member =>
    if (dropBackslash owner).head?.any Text.isIdentifierStart && owner.all isClassChar
        && Text.isIdentifier member && Text.lower (String.ofList member) != "class" then
      some (String.ofList owner, String.ofList member)
    else none
  | _, _ => none

/-! ### Expressions -/

/-- The value that a word stands for. -/
def word? (text : String) : Option Scalar :=
  match Name.bare (Text.lower text) with
  | "true" => some (.bool true)
  | "false" => some (.bool false)
  | "null" => some .null
  | _ => none

/-- Drops parentheses around the text. -/
def dropParentheses (cs : List Char) : List Char :=
  if cs.head? == some '(' && cs.getLast? == some ')' && cs.count '(' == 1 then
    Text.trimBlanks (cs.drop 1).dropLast
  else cs

/-- Evaluates a number or a quoted text, or leaves it as a name or an expression. -/
def ofAtom (cs : List Char) : Except Numeral.Error Evaluation :=
  let unsigned := dropSign cs
  if isInteger unsigned then do
    let n ← Numeral.readLiteral (String.ofList unsigned)
    return .literal (.int (if cs.head? == some '-' then -n else n))
  else if isDecimal unsigned then
    match Numeral.readDouble? (String.ofList (cs.filter (· != '_'))) with
    | some d => .ok (.literal (.float d))
    | none => .ok .expression
  else if isQuoted cs then .ok (.literal (.str (TypeExpr.unquote (String.ofList cs))))
  else if isConstantName cs then .ok (.constant (String.ofList cs))
  else match classConstant? cs with
    | some (owner, member) => .ok (.classConstant owner member)
    | none => .ok .expression

/-- Evaluates an expression; `marker` stands for a value that is only known at run time. -/
def ofText (text : Option String) (marker : String) : Except Numeral.Error Evaluation :=
  match text with
  | none => .ok .expression
  | some text =>
    let cs := dropParentheses (Text.trimBlanks text.toList)
    if cs.isEmpty then .ok .expression
    else if String.ofList cs == marker then .ok .unknown
    else match word? (String.ofList cs) with
      | some value => .ok (.literal value)
      | none => ofAtom cs

/-- The name of the result in data. -/
def label : Evaluation → String
  | .literal _ => "literal"
  | .unknown => "unknown"
  | .constant _ => "reference"
  | .classConstant _ _ => "class_reference"
  | .expression => "expression"

/-- The value is known. -/
def isKnown : Evaluation → Bool
  | .literal _ => true
  | _ => false

end Evaluation

end StubCatalog
