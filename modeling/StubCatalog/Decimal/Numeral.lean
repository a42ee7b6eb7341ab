import StubCatalog.Decimal.Double
import StubCatalog.Text.Basic
import StubCatalog.Text.Digit
import StubCatalog.Text.Quoted

/-! # Numerals

Integers in a base between 2 and 16, and decimal numbers. Digits of every script count, and blanks
around a numeral do not. Decimal integers are read and written only up to a number of digits. -/

namespace StubCatalog.Numeral

/-- A digit of another script as its ASCII digit, and a blank outside ASCII as a space. -/
def plainChar (c : Char) : Char :=
  if c.toNat < 128 then c
  else if Text.isBlank c then ' '
  else match Text.digitValue? c with
    | some d => Char.ofNat (48 + d)
    | none => c

/-- A character that may stand around a numeral. -/
def isSpacing (c : Char) : Bool := c == ' ' || (9 ≤ c.toNat && c.toNat ≤ 13)

/-- The text without spacing and with ASCII digits. -/
def plain (s : String) : List Char := Text.trimBy isSpacing (s.toList.map plainChar)

/-- Whether the text has a minus sign in front, and what stands behind it. -/
def splitSign : List Char → Bool × List Char
  | '-' :: rest => (true, rest)
  | '+' :: rest => (false, rest)
  | cs => (false, cs)

/-! ### Integers -/

/-- The value of a digit to base sixteen. -/
def hexValue? (c : Char) : Option Nat :=
  let n := c.toNat
  if 48 ≤ n && n ≤ 57 then some (n - 48)
  else if 97 ≤ n && n ≤ 102 then some (n - 87)
  else if 65 ≤ n && n ≤ 70 then some (n - 55)
  else none

/-- The value of digits in a base, continuing from `acc`. -/
def digitsValue? (base : Nat) (acc : Nat) : List Char → Option Nat
  | [] => some acc
  | c :: rest =>
    match hexValue? c with
    | some d => if d < base then digitsValue? base (acc * base + d) rest else none
    | none => none

/-- Why a text is not read as an integer, or an integer not written. -/
inductive Error where
  /-- The text is no numeral; base `0` means that the numeral names its base itself. -/
  | malformed (base : Nat) (text : String)
  | tooLong (digits : Nat)
  | unwritable
  deriving DecidableEq, Repr

/-- The text of the error. -/
def Error.message : Error → String
  | .malformed base text =>
    s!"invalid literal for int() with base {base}: "
      ++ String.ofList ((Text.quoted text).toList.take 200)
  | .tooLong digits =>
    s!"Exceeds the limit (4300 digits) for integer string conversion: value has {digits} digits; "
      ++ "use sys.set_int_max_str_digits() to increase the limit"
  | .unwritable =>
    "Exceeds the limit (4300 digits) for integer string conversion; "
      ++ "use sys.set_int_max_str_digits() to increase the limit"

/-- The most digits that are read or written. -/
def maxDecimalDigits : Nat := 4300

/-- The least number with too many digits. -/
def writableBound : Nat := Nat.pow 10 maxDecimalDigits

/-- The integer has few enough digits. -/
def isWritable (n : Int) : Bool := n.natAbs < writableBound

/-- An integer to base ten. -/
def readDecimal (s : String) : Except Error Int :=
  let (negative, digits) := splitSign (plain s)
  match digits, digitsValue? 10 0 digits with
  | [], _ => .error (.malformed 10 s)
  | _, none => .error (.malformed 10 s)
  | _, some n =>
    if digits.length > maxDecimalDigits then .error (.tooLong digits.length)
    else .ok (if negative then -(n : Int) else n)

/-- An integer with a base mark. -/
def readMarked (s : String) : Except Error Int :=
  let digits : Nat × List Char := match plain s with
    | '0' :: mark :: rest =>
      if mark == 'x' || mark == 'X' then (16, rest)
      else if mark == 'b' || mark == 'B' then (2, rest)
      else if mark == 'o' || mark == 'O' then (8, rest)
      else (10, [])
    | _ => (10, [])
  match digits.2, digitsValue? digits.1 0 digits.2 with
  | [], _ => .error (.malformed 0 s)
  | _, none => .error (.malformed 0 s)
  | _, some n => .ok n

/-- The text starts with a base mark. -/
def isMarked : List Char → Bool
  | '0' :: mark :: _ => ['x', 'X', 'b', 'B', 'o', 'O'].contains mark
  | _ => false

/-- The value of an integer literal: underscores are ignored, and a base mark or a leading zero
chooses the base, the latter unless a digit above seven follows. -/
def readLiteral (text : String) : Except Error Int :=
  let digits := text.toList.filter (· != '_')
  if isMarked digits then readMarked (String.ofList digits)
  else if digits.length > 1 && digits.head? == some '0'
      && digits.all fun c => 48 ≤ c.toNat && c.toNat ≤ 55 then
    .ok ((digitsValue? 8 0 digits).getD 0)
  else readDecimal (String.ofList digits)

/-! ### Decimal numbers -/

/-- Drops the underscores between digits; an underscore anywhere else is refused. -/
def dropUnderscores? (last : Char) : List Char → Option (List Char)
  | [] => if last == '_' then none else some []
  | '_' :: rest => if last.isDigit then dropUnderscores? '_' rest else none
  | c :: rest =>
    if last == '_' && !c.isDigit then none
    else (dropUnderscores? c rest).map (c :: ·)

/-- The exponent of a decimal. -/
def exponent? : List Char → Option Int
  | [] => some 0
  | mark :: rest =>
    if mark == 'e' || mark == 'E' then
      let (negative, digits) := splitSign rest
      match digits, digitsValue? 10 0 digits with
      | [], _ => none
      | _, none => none
      | _, some n => some (if negative then -(n : Int) else n)
    else none

/-- An unsigned decimal number: digits with at most one point among them, then an exponent. -/
def unsignedDecimal? (negative : Bool) (cs : List Char) : Option Double :=
  let whole := cs.takeWhile Char.isDigit
  let afterWhole := cs.dropWhile Char.isDigit
  let (fraction, afterFraction) := match afterWhole with
    | '.' :: rest => (rest.takeWhile Char.isDigit, rest.dropWhile Char.isDigit)
    | rest => ([], rest)
  let digits := whole ++ fraction
  match digits, digitsValue? 10 0 digits, exponent? afterFraction with
  | [], _, _ => none
  | _, some d, some e => some (.ofDecimal negative d digits.length (e - fraction.length))
  | _, _, _ => none

/-- A decimal number of any size, or one of the words for infinity and for no number. -/
def readDouble? (s : String) : Option Double := do
  let cs ← match plain s with
    | [] => none
    | cs => dropUnderscores? '\x00' cs
  let (negative, rest) := splitSign cs
  let word := String.ofList (rest.map Char.toLower)
  if word == "inf" || word == "infinity" then some (.infinite negative)
  else if word == "nan" then some .nan
  else unsignedDecimal? negative rest

end StubCatalog.Numeral
