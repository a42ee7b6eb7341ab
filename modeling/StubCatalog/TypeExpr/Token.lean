import StubCatalog.Text.Quoted
import StubCatalog.Text.Word
import StubCatalog.Text.Blank

/-! # Tokens of type expressions

A type expression is cut into names, variables, numbers, quoted texts and signs. Each token
remembers its place. -/

namespace StubCatalog.TypeExpr

/-- The sorts of tokens. -/
inductive TokenKind where
  | identifier | variable | int | float | string | ellipsis | doubleColon | pipe | ampersand
  | question | comma | colon | less | greater | leftBrace | rightBrace | leftParen | rightParen
  | leftBracket | rightBracket | equals | star | plus | minus | eof
  deriving DecidableEq, Repr, Inhabited

/-- The name of a sort in messages. -/
def TokenKind.label : TokenKind → String
  | .identifier => "identifier"
  | .variable => "variable"
  | .int => "int"
  | .float => "float"
  | .string => "string"
  | .ellipsis => "..."
  | .doubleColon => "::"
  | .pipe => "|"
  | .ampersand => "&"
  | .question => "?"
  | .comma => ","
  | .colon => ":"
  | .less => "<"
  | .greater => ">"
  | .leftBrace => "\x7b"
  | .rightBrace => "\x7d"
  | .leftParen => "("
  | .rightParen => ")"
  | .leftBracket => "["
  | .rightBracket => "]"
  | .equals => "="
  | .star => "*"
  | .plus => "+"
  | .minus => "-"
  | .eof => "eof"

/-- The sort of a sign of one character. -/
def signKind? (c : Char) : Option TokenKind :=
  match c with
  | '|' => some .pipe
  | '&' => some .ampersand
  | '?' => some .question
  | ',' => some .comma
  | ':' => some .colon
  | '<' => some .less
  | '>' => some .greater
  | '{' => some .leftBrace
  | '}' => some .rightBrace
  | '(' => some .leftParen
  | ')' => some .rightParen
  | '[' => some .leftBracket
  | ']' => some .rightBracket
  | '=' => some .equals
  | '*' => some .star
  | '+' => some .plus
  | '-' => some .minus
  | _ => none

/-- A token with its text and its place. -/
structure Token where
  kind : TokenKind
  value : String
  position : Nat
  deriving DecidableEq, Repr, Inhabited

/-- The place behind the token. -/
def Token.stop (t : Token) : Nat := t.position + t.value.length

/-! ### Lengths of tokens

Each function gives the number of characters of a token of one sort in front of a text, `0` if there
is none. -/

/-- How many characters in front satisfy the condition. -/
def run (p : Char → Bool) (cs : List Char) : Nat := (cs.takeWhile p).length

/-- A digit, or an underscore between digits. -/
def isDigitPart (c : Char) : Bool := Text.isDigit c || c == '_'

/-- The length of the decimal digits in front. -/
def digits : List Char → Nat
  | [] => 0
  | c :: rest => if Text.isDigit c then run isDigitPart rest + 1 else 0

/-- The length of the exponent in front: a mark, an optional sign and digits. -/
def exponent : List Char → Nat
  | [] => 0
  | e :: rest =>
    if e == 'e' || e == 'E' then
      let sign := match rest with
        | s :: _ => if s == '+' || s == '-' then 1 else 0
        | [] => 0
      let count := run Text.isDigit (rest.drop sign)
      if count == 0 then 0 else 1 + sign + count
    else 0

/-- The length of the fraction in front: a point with digits behind it. -/
def fraction : List Char → Nat
  | '.' :: rest => if digits rest == 0 then 0 else digits rest + 1
  | _ => 0

/-- The length of the decimal in front: it has a fraction or an exponent. -/
def floatLength (cs : List Char) : Nat :=
  let whole := digits cs
  let part := fraction (cs.drop whole)
  let power := exponent (cs.drop (whole + part))
  if part == 0 && (whole == 0 || power == 0) then 0 else whole + part + power

/-- The length of the number in front that has a base mark. -/
def markedLength (lower upper : Char) (isDigit : Char → Bool) : List Char → Nat
  | '0' :: mark :: rest =>
    let count := run (fun c => isDigit c || c == '_') rest
    if (mark == lower || mark == upper) && count != 0 then count + 2 else 0
  | _ => 0

/-- A digit to base sixteen. -/
def isHexDigit (c : Char) : Bool :=
  c.isDigit || ('a' ≤ c && c ≤ 'f') || ('A' ≤ c && c ≤ 'F')

/-- The first length that is not zero. -/
def firstLength : List Nat → Nat
  | [] => 0
  | n :: ns => if n == 0 then firstLength ns else n

/-- The length of the integer in front. -/
def intLength (cs : List Char) : Nat :=
  firstLength [markedLength 'x' 'X' isHexDigit cs,
    markedLength 'b' 'B' (fun c => c == '0' || c == '1') cs,
    markedLength 'o' 'O' (fun c => '0' ≤ c && c ≤ '7') cs, digits cs]

/-- A dollar sign and a name that starts with an ASCII letter or an underscore. -/
def variableLength : List Char → Nat
  | '$' :: c :: rest => if c.isAlpha || c == '_' then run Text.isWord rest + 2 else 0
  | _ => 0

/-- A character of a name behind its first one. -/
def isNamePart (c : Char) : Bool := Text.isWord c || c == '-'

/-- The length of the name without backslashes in front. -/
def shortNameLength : List Char → Nat
  | [] => 0
  | c :: rest => if Text.isNameStart c then run isNamePart rest + 1 else 0

/-- The length of the names in front, each behind a backslash. -/
def pathLength (cs : List Char) : Nat :=
  match cs with
  | '\\' :: rest =>
    let n := shortNameLength rest
    if n == 0 then 0 else n + 1 + pathLength (rest.drop n)
  | _ => 0
termination_by cs.length
decreasing_by simp only [List.length_drop, List.length_cons]; omega

/-- The length of the name in front. -/
def identifierLength (cs : List Char) : Nat :=
  match cs with
  | '\\' :: _ => pathLength cs
  | _ =>
    let n := shortNameLength cs
    if n == 0 then 0 else n + pathLength (cs.drop n)

/-- The rest of a quoted text up to its closing quote. A backslash takes the character behind it
along. -/
def quotedRest (quote : Char) : List Char → Nat
  | [] => 0
  | ['\\'] => 0
  | '\\' :: _ :: rest =>
    let n := quotedRest quote rest
    if n == 0 then 0 else n + 2
  | c :: rest =>
    if c == quote then 1
    else
      let n := quotedRest quote rest
      if n == 0 then 0 else n + 1

/-- The length of the quoted text in front. -/
def stringLength : List Char → Nat
  | c :: rest =>
    if c == '\'' || c == '"' then
      let n := quotedRest c rest
      if n == 0 then 0 else n + 1
    else 0
  | [] => 0

/-- The length of the mark, if the text starts with it. -/
def markLength (mark cs : List Char) : Nat := if mark.isPrefixOf cs then mark.length else 0

/-- The sorts of tokens of several characters with their lengths, in the order in which they are
tried. -/
def longTokens : List (TokenKind × (List Char → Nat)) :=
  [(.ellipsis, markLength ['.', '.', '.']), (.doubleColon, markLength [':', ':']),
    (.float, floatLength), (.int, intLength), (.variable, variableLength),
    (.identifier, identifierLength), (.string, stringLength)]

/-- The sort and the length of the token in front. -/
def tokenAt? (cs : List Char) : Option (TokenKind × Nat) :=
  match longTokens.find? fun sort => sort.2 cs != 0 with
  | some (kind, length) => some (kind, length cs)
  | none =>
    match cs with
    | c :: _ => (signKind? c).map (·, 1)
    | [] => none

/-- A character that starts no token, and the number of characters before it. -/
structure StrayCharacter where
  char : Char
  position : Nat
  deriving DecidableEq, Repr

/-- Cuts a text into tokens; `position` counts the characters before the text. -/
def tokensFrom (position : Nat) (cs : List Char) : Except StrayCharacter (List Token) :=
  match cs with
  | [] => .ok []
  | c :: rest =>
    if Text.isBlank c then tokensFrom (position + 1) rest
    else match tokenAt? (c :: rest) with
      | none => .error ⟨c, position⟩
      | some (kind, length) =>
        match tokensFrom (position + (length - 1) + 1) (rest.drop (length - 1)) with
        | .error e => .error e
        | .ok tokens =>
          .ok (⟨kind, String.ofList (c :: rest.take (length - 1)), position⟩ :: tokens)
termination_by cs.length
decreasing_by all_goals simp; try omega

/-- The tokens of a text. -/
def tokenize (text : String) : Except StrayCharacter (List Token) := tokensFrom 0 text.toList

/-- The tokens of a text and, behind them, a mark for its end that has no characters. -/
def markedTokens (text : String) : Except StrayCharacter (List Token) :=
  (tokenize text).map (· ++ [⟨.eof, "", text.length⟩])

/-! ### Quoted texts -/

/-- What a character behind a backslash stands for. -/
def escapedChar? (c : Char) : Option Char :=
  match c with
  | 'n' => some '\n'
  | 't' => some '\t'
  | 'r' => some '\r'
  | 'v' => some '\x0b'
  | 'f' => some '\x0c'
  | 'e' => some '\x1b'
  | '0' => some '\x00'
  | '\\' => some '\\'
  | '"' => some '"'
  | '$' => some '$'
  | _ => none

/-- Undoes the escapes of a text between single quotes: a backslash marks a quote or a backslash. -/
def unescapeSingle : List Char → List Char
  | '\\' :: c :: rest =>
    if c == '\\' || c == '\'' then c :: unescapeSingle rest
    else '\\' :: unescapeSingle (c :: rest)
  | c :: rest => c :: unescapeSingle rest
  | [] => []

/-- Undoes the escapes of a text between double quotes; an unknown escape stays, and so does a
backslash in front of a line feed. -/
def unescapeDouble : List Char → List Char
  | '\\' :: c :: rest =>
    if c == '\n' then '\\' :: c :: unescapeDouble rest
    else match escapedChar? c with
      | some d => d :: unescapeDouble rest
      | none => '\\' :: c :: unescapeDouble rest
  | c :: rest => c :: unescapeDouble rest
  | [] => []

/-- What a quoted text says. -/
def unquote (text : String) : String :=
  let cs := text.toList
  let body := (cs.drop 1).dropLast
  String.ofList (match cs with
    | '\'' :: _ => unescapeSingle body
    | _ => unescapeDouble body)

end StubCatalog.TypeExpr
