import StubCatalog.Decimal.Numeral
import StubCatalog.Json.Basic
import StubCatalog.Table

/-! # Reading JSON

A reader that says where and why a text is not JSON. It accepts the words `NaN`, `Infinity` and
`-Infinity` as numbers. A name that an object repeats keeps its first place and its last value. -/

namespace StubCatalog.Json

inductive Fault where
  | expectingValue
  | expectingName
  | expectingColon
  | expectingComma
  | controlCharacter
  | badEscape
  | badCodePoint
  | unterminated
  | extraData
  | byteOrderMark
  deriving DecidableEq, Repr

def Fault.message : Fault → String
  | .expectingValue => "Expecting value"
  | .expectingName => "Expecting property name enclosed in double quotes"
  | .expectingColon => "Expecting ':' delimiter"
  | .expectingComma => "Expecting ',' delimiter"
  | .controlCharacter => "Invalid control character at"
  | .badEscape => "Invalid \\escape"
  | .badCodePoint => "Invalid \\uXXXX escape"
  | .unterminated => "Unterminated string starting at"
  | .extraData => "Extra data"
  | .byteOrderMark => "Unexpected UTF-8 BOM (decode using utf-8-sig)"

inductive Failure where
  | fault (fault : Fault) (left : List Char)
  | number (error : Numeral.Error)

/-- A value read from the start of `s`, with the shorter text behind it. -/
structure Read (s : List Char) (α : Type) where
  value : α
  rest : List Char
  shorter : rest.length < s.length

def isSpacing (c : Char) : Bool := c == ' ' || c == '\t' || c == '\n' || c == '\r'

def skipSpacing (s : List Char) : List Char := s.dropWhile isSpacing

theorem length_skipSpacing_le (s : List Char) : (skipSpacing s).length ≤ s.length :=
  (List.dropWhile_sublist isSpacing).length_le

/-! ### Strings -/

def hexQuad? : List Char → Option Nat
  | a :: b :: c :: d :: _ => Numeral.digitsValue? 16 0 [a, b, c, d]
  | _ => none

def escapeChar? (c : Char) : Option Char :=
  match c with
  | '"' => some '"'
  | '\\' => some '\\'
  | '/' => some '/'
  | 'b' => some '\x08'
  | 'f' => some '\x0c'
  | 'n' => some '\n'
  | 'r' => some '\r'
  | 't' => some '\t'
  | _ => none

/-- A character by its code point, which may be that of half of a surrogate pair. -/
def charOf (n : Nat) : Char := if Text.isHalfCode n then Text.halfOf n else Char.ofNat n

/-- A code point escape behind its `u`, with the number of characters it takes. A pair of surrogates
is one character. -/
def codePoint (s : List Char) : Except Failure (Char × Nat) :=
  if (s.drop 4).isEmpty then .error (.fault .badCodePoint ('u' :: s))
  else match hexQuad? s with
    | none => .error (.fault .badCodePoint ('u' :: s))
    | some high =>
      match s.drop 4 with
      | '\\' :: 'u' :: rest =>
        if 0xD800 ≤ high && high < 0xDC00 && !(rest.drop 4).isEmpty then
          match hexQuad? rest with
          | none => .error (.fault .badCodePoint ('u' :: rest))
          | some low =>
            if 0xDC00 ≤ low && low < 0xE000 then
              .ok (Char.ofNat (0x10000 + (high - 0xD800) * 0x400 + (low - 0xDC00)), 10)
            else .ok (charOf high, 4)
        else .ok (charOf high, 4)
      | _ => .ok (charOf high, 4)

/-- The rest of a string behind its opening quote, from which `opening` starts; `acc` holds the
characters read so far in reverse. -/
def stringBody (opening : List Char) (acc : List Char) (s : List Char) :
    Except Failure (Read s String) :=
  match s with
  | [] => .error (.fault .unterminated opening)
  | '"' :: rest => .ok ⟨String.ofList acc.reverse, rest, by simp⟩
  | ['\\'] => .error (.fault .unterminated opening)
  | '\\' :: 'u' :: rest =>
    match codePoint rest with
    | .error e => .error e
    | .ok (c, used) =>
      match stringBody opening (c :: acc) (rest.drop used) with
      | .error e => .error e
      | .ok ⟨value, after, h⟩ => .ok ⟨value, after, by simp at h ⊢; omega⟩
  | '\\' :: letter :: rest =>
    match escapeChar? letter with
    | none => .error (.fault .badEscape ('\\' :: letter :: rest))
    | some c =>
      match stringBody opening (c :: acc) rest with
      | .error e => .error e
      | .ok ⟨value, after, h⟩ => .ok ⟨value, after, by simp; omega⟩
  | c :: rest =>
    if c.toNat < 32 then .error (.fault .controlCharacter (c :: rest))
    else match stringBody opening (c :: acc) rest with
      | .error e => .error e
      | .ok ⟨value, after, h⟩ => .ok ⟨value, after, by simp; omega⟩
termination_by s.length
decreasing_by all_goals simp; try omega

/-! ### Numbers -/

def digitRun (s : List Char) : List Char := s.takeWhile Char.isDigit

def integerPart : List Char → List Char
  | '0' :: _ => ['0']
  | s => digitRun s

def fractionPart : List Char → List Char
  | '.' :: rest => if (digitRun rest).isEmpty then [] else '.' :: digitRun rest
  | _ => []

def exponentPart : List Char → List Char
  | e :: sign :: rest =>
    if e == 'e' || e == 'E' then
      if sign == '-' || sign == '+' then
        if (digitRun rest).isEmpty then [] else e :: sign :: digitRun rest
      else if (digitRun (sign :: rest)).isEmpty then [] else e :: digitRun (sign :: rest)
    else []
  | _ => []

/-- A word or a number in front of a text: its value and the number of its characters. An integer
with too many digits is refused. -/
abbrev ScalarRead := Except Numeral.Error Json × Nat

def integerOf (negative : Bool) (digits : List Char) : Except Numeral.Error Json :=
  if digits.length > Numeral.maxDecimalDigits then .error (.tooLong digits.length)
  else
    let n := (Numeral.digitsValue? 10 0 digits).getD 0
    .ok (.int (if negative then -(n : Int) else n))

def number? (s : List Char) : Option ScalarRead :=
  let sign := match s with
    | '-' :: _ => ['-']
    | _ => []
  let whole := integerPart (s.drop sign.length)
  if whole.isEmpty then none
  else
    let fraction := fractionPart (s.drop (sign.length + whole.length))
    let exponent := exponentPart (s.drop (sign.length + whole.length + fraction.length))
    let text := sign ++ whole ++ fraction ++ exponent
    if fraction.isEmpty && exponent.isEmpty then
      some (integerOf (!sign.isEmpty) whole, text.length)
    else (Numeral.readDouble? (String.ofList text)).map fun d => (.ok (.float d), text.length)

def wordValues : List (List Char × Json) :=
  [("null".toList, .null), ("true".toList, .bool true), ("false".toList, .bool false),
    ("NaN".toList, .float .nan), ("Infinity".toList, .float (.infinite false)),
    ("-Infinity".toList, .float (.infinite true))]

def scalar? (s : List Char) : Option ScalarRead :=
  match wordValues.find? fun word => word.1.isPrefixOf s with
  | some word => some (.ok word.2, word.1.length)
  | none => number? s

/-! ### Values -/

mutual

def value (s : List Char) : Except Failure (Read s Json) :=
  match s with
  | [] => .error (.fault .expectingValue [])
  | '"' :: rest =>
    match stringBody ('"' :: rest) [] rest with
    | .error e => .error e
    | .ok ⟨v, after, h⟩ => .ok ⟨.str v, after, by simp; omega⟩
  | '{' :: rest =>
    match hs : skipSpacing rest with
    | '}' :: after => .ok ⟨.obj [], after, by
        have := length_skipSpacing_le rest; simp [hs] at this; simp; omega⟩
    | inner =>
      match members [] inner with
      | .error e => .error e
      | .ok ⟨fields, after, h⟩ => .ok ⟨.obj fields, after, by
          have := length_skipSpacing_le rest; simp [hs] at this; simp; omega⟩
  | '[' :: rest =>
    match hs : skipSpacing rest with
    | ']' :: after => .ok ⟨.arr [], after, by
        have := length_skipSpacing_le rest; simp [hs] at this; simp; omega⟩
    | inner =>
      match items [] inner with
      | .error e => .error e
      | .ok ⟨found, after, h⟩ => .ok ⟨.arr found, after, by
          have := length_skipSpacing_le rest; simp [hs] at this; simp; omega⟩
  | c :: rest =>
    match scalar? (c :: rest) with
    | none => .error (.fault .expectingValue (c :: rest))
    | some (.error e, _) => .error (.number e)
    | some (.ok v, used) => .ok ⟨v, rest.drop (used - 1), by
        simp only [List.length_drop, List.length_cons]; omega⟩
termination_by 2 * s.length
decreasing_by
  all_goals
    have := length_skipSpacing_le rest
    simp_all
    omega

def members (acc : List (String × Json)) (s : List Char) :
    Except Failure (Read s (List (String × Json))) :=
  match s with
  | '"' :: rest =>
    match stringBody ('"' :: rest) [] rest with
    | .error e => .error e
    | .ok ⟨name, afterName, hName⟩ =>
      match hColon : skipSpacing afterName with
      | ':' :: afterColon =>
        have hColonLe := length_skipSpacing_le afterName
        have hValueLe := length_skipSpacing_le afterColon
        match value (skipSpacing afterColon) with
        | .error e => .error e
        | .ok ⟨v, afterValue, hValue⟩ =>
          have hAfterLe := length_skipSpacing_le afterValue
          match hNext : skipSpacing afterValue with
          | '}' :: after => .ok ⟨putPair acc name v, after, by
              simp [hColon] at hColonLe; simp [hNext] at hAfterLe; simp; omega⟩
          | ',' :: more =>
            have hMoreLe := length_skipSpacing_le more
            match members (putPair acc name v) (skipSpacing more) with
            | .error e => .error e
            | .ok ⟨fields, after, h⟩ => .ok ⟨fields, after, by
                simp [hColon] at hColonLe; simp [hNext] at hAfterLe; simp; omega⟩
          | other => .error (.fault .expectingComma other)
      | other => .error (.fault .expectingColon other)
  | other => .error (.fault .expectingName other)
termination_by 2 * s.length + 1
decreasing_by
  all_goals
    simp [hColon] at hColonLe
    try simp [hNext] at hAfterLe
    simp
    omega

def items (acc : List Json) (s : List Char) : Except Failure (Read s (List Json)) :=
  match value s with
  | .error e => .error e
  | .ok ⟨v, afterValue, hValue⟩ =>
    have hAfterLe := length_skipSpacing_le afterValue
    match hNext : skipSpacing afterValue with
    | ']' :: after => .ok ⟨(v :: acc).reverse, after, by simp [hNext] at hAfterLe; omega⟩
    | ',' :: more =>
      have hMoreLe := length_skipSpacing_le more
      match items (v :: acc) (skipSpacing more) with
      | .error e => .error e
      | .ok ⟨found, after, h⟩ => .ok ⟨found, after, by simp [hNext] at hAfterLe; omega⟩
    | other => .error (.fault .expectingComma other)
termination_by 2 * s.length + 1
decreasing_by
  · omega
  · simp [hNext] at hAfterLe
    omega

end

inductive ReadError where
  /-- The text is not JSON: the fault with its line and column, both counted from one. -/
  | malformed (fault : Fault) (line column : Nat)
  | number (error : Numeral.Error)
  deriving DecidableEq, Repr

def ReadError.message : ReadError → String
  | .malformed fault line column =>
    "Line " ++ toString line ++ ", column " ++ toString column ++ ": " ++ fault.message
  | .number e => e.message

def place (s : List Char) (position : Nat) : Nat × Nat :=
  let before := s.take position
  (before.count '\n' + 1, (before.reverse.takeWhile (· != '\n')).length + 1)

def Failure.inText (s : List Char) : Failure → ReadError
  | .fault cause left =>
    let (line, column) := place s (s.length - left.length)
    .malformed cause line column
  | .number e => .number e

def parse (text : String) : Except ReadError Json :=
  let s := text.toList
  if s.head? == some (Char.ofNat 0xFEFF) then .error (.malformed .byteOrderMark 1 1)
  else match value (skipSpacing s) with
    | .error e => .error (e.inText s)
    | .ok ⟨v, rest, _⟩ =>
      match skipSpacing rest with
      | [] => .ok v
      | extra => .error ((Failure.fault .extraData extra).inText s)

end StubCatalog.Json
