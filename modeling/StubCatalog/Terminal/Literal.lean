import StubCatalog.Decimal.Numeral

/-! # Literal values

Whether a text is a value that is written out: a number, a quoted text, a constant, a tuple, or a
set or table in braces. A member of a set or key of a table must be known to be unchangeable. -/

namespace StubCatalog.Terminal.Literal

/-! ### Tokens -/

inductive Token where
  | number (isImaginary : Bool)
  | text
  | bytes
  | constant
  | setWord
  | sign
  | mark (c : Char)
  | lineEnd
  deriving DecidableEq, Repr

def isWordPart (c : Char) : Bool := c.isAlphanum || c == '_' || 128 ≤ c.toNat

def isDigitRun (run : List Char) : Bool := (Text.fields '_' run).all (!·.isEmpty)

def numberEnd? (isImaginary : Bool) (rest : List Char) : Option (Token × List Char) :=
  if rest.head?.any isWordPart then none else some (.number isImaginary, rest)

def isDigitOrGap (c : Char) : Bool := c.isDigit || c == '_'

/-- The digits of a whole number can be read: there are not too many of them, and the first one is
zero only if all are. -/
def isWhole (run : List Char) : Bool :=
  let digits := run.filter (· != '_')
  digits.all (· == '0') || (digits.head? != some '0' && digits.length ≤ Numeral.maxDecimalDigits)

def exponentEnd? (cs : List Char) : Option (List Char) :=
  match cs with
  | c :: rest =>
    if c == 'e' || c == 'E' then
      let rest := match rest with
        | d :: more => if d == '+' || d == '-' then more else rest
        | [] => rest
      let run := rest.takeWhile isDigitOrGap
      if isDigitRun run then some (rest.drop run.length) else none
    else some cs
  | [] => some []

def fractionEnd? (cs : List Char) : Option (List Char) :=
  match cs with
  | '.' :: rest =>
    let run := rest.takeWhile isDigitOrGap
    if run.isEmpty || isDigitRun run then some (rest.drop run.length) else none
  | _ => some cs

def decimal? (run rest : List Char) : Option (Token × List Char) := do
  let behind ← exponentEnd? (← fractionEnd? rest)
  match behind with
  | c :: more =>
    if c == 'j' || c == 'J' then numberEnd? true more
    else if behind.length < rest.length || isWhole run then numberEnd? false behind
    else none
  | [] => if behind.length < rest.length || isWhole run then some (.number false, []) else none

def digitsOf? (base : Char) : Option (Char → Bool) :=
  match base with
  | 'x' | 'X' => some fun c => c.isDigit || ('a' ≤ c.toLower && c.toLower ≤ 'f')
  | 'o' | 'O' => some fun c => '0' ≤ c && c ≤ '7'
  | 'b' | 'B' => some fun c => c == '0' || c == '1'
  | _ => none

def number? (cs : List Char) : Option (Token × List Char) :=
  let plain :=
    let run := cs.takeWhile isDigitOrGap
    if isDigitRun run then decimal? run (cs.drop run.length) else none
  match cs with
  | '0' :: base :: rest =>
    match digitsOf? base with
    | some isDigit =>
      let run := rest.takeWhile fun c => isDigit c || c == '_'
      if isDigitRun (if run.head? == some '_' then run.drop 1 else run) then
        numberEnd? false (rest.drop run.length)
      else none
    | none => plain
  | _ => plain

structure Quotation where
  quotes : List Char
  /-- A backslash keeps its meaning only in front of quotes. -/
  isRaw : Bool
  isBytes : Bool

inductive Escape where
  | none
  | backslash
  /-- An escape that is to be followed by `left` hexadecimal digits, with their value so far. -/
  | digits (left value : Nat)

def hexValue? (c : Char) : Option Nat :=
  if c.isDigit then some (c.toNat - 48)
  else if 'a' ≤ c.toLower && c.toLower ≤ 'f' then some (c.toLower.toNat - 87)
  else none

/-- The escape after a backslash and a character. Characters cannot be given by their names. -/
def escapeOf? (q : Quotation) (c : Char) : Option Escape :=
  if q.isRaw then some .none
  else if c == 'x' then some (.digits 2 0)
  else if q.isBytes then some .none
  else if c == 'u' then some (.digits 4 0)
  else if c == 'U' then some (.digits 8 0)
  else if c == 'N' then none
  else some .none

def escapeDigit? (left value : Nat) (c : Char) : Option Escape :=
  match hexValue? c with
  | some d =>
    let value := 16 * value + d
    if left > 1 then some (.digits (left - 1) value)
    else if value ≤ 0x10FFFF then some .none
    else none
  | none => none

def quotedEnd? (q : Quotation) (escape : Escape) : List Char → Option (List Char)
  | [] => none
  | c :: cs =>
    if q.isBytes && 128 ≤ c.toNat then none
    else match escape with
      | .digits left value =>
        match escapeDigit? left value c with
        | some escape => quotedEnd? q escape cs
        | none => none
      | .backslash =>
        match escapeOf? q c with
        | some escape => quotedEnd? q escape cs
        | none => none
      | .none =>
        if q.quotes.isPrefixOf (c :: cs) then some (cs.drop (q.quotes.length - 1))
        else if c == '\n' && q.quotes.length == 1 then none
        else quotedEnd? q (if c == '\\' then .backslash else .none) cs

/-- Text or bytes that start with a quote; the letters in front of it are in lower case. -/
def quoted? (letters : List Char) (quote : Char) (rest : List Char) : Option (Token × List Char) :=
  if ["", "r", "u", "b", "br", "rb"].contains (String.ofList letters) then
    let isBytes := letters.contains 'b'
    let isTriple := [quote, quote].isPrefixOf rest
    let q : Quotation :=
      { quotes := if isTriple then [quote, quote, quote] else [quote]
        isRaw := letters.contains 'r'
        isBytes }
    (quotedEnd? q .none (if isTriple then rest.drop 2 else rest)).map fun rest =>
      (if isBytes then .bytes else .text, rest)
  else none

def word? (cs : List Char) : Option (Token × List Char) :=
  let word := cs.takeWhile isWordPart
  let rest := cs.drop word.length
  match rest with
  | c :: more =>
    if c == '\'' || c == '"' then quoted? (word.map Char.toLower) c more else named word rest
  | [] => named word rest
where
  named (word rest : List Char) : Option (Token × List Char) :=
    if ["True", "False", "None"].contains (String.ofList word) then some (.constant, rest)
    else if word == "set".toList then some (.setWord, rest)
    else none

def token? (cs : List Char) : Option (Token × List Char) :=
  match cs with
  | '.' :: '.' :: '.' :: rest => some (.constant, rest)
  | '.' :: d :: _ => if d.isDigit then decimal? [] cs else none
  | c :: rest =>
    if ['(', ')', '{', '}', ',', ':'].contains c then some (.mark c, rest)
    else if c == '+' || c == '-' then some (.sign, rest)
    else if c.isDigit then number? cs
    else word? cs
  | [] => none

def depthAfter (depth : Nat) : Token → Nat
  | .mark '(' | .mark '\x7b' => depth + 1
  | .mark ')' | .mark '\x7d' => depth - 1
  | _ => depth

def maxDepth : Nat := 200

def isGap (c : Char) : Bool := c == ' ' || c == '\t' || c == '\x0c'

def isFlush (cs : List Char) : Bool :=
  let gap := cs.takeWhile isGap
  match cs.drop gap.length with
  | [] => true
  | c :: _ => c == '\n' || c == '#' || gap.getLast?.all (· == '\x0c')

/-- The tokens of a text, found in at most the given number of steps. Lines end only where no
bracket is open. -/
def tokensIn : Nat → Nat → List Char → Option (List Token)
  | _, _, [] => some []
  | 0, _, _ => none
  | steps + 1, depth, c :: rest =>
    if isGap c then tokensIn steps depth rest
    else if c == '#' then tokensIn steps depth (rest.dropWhile (· != '\n'))
    else if c == '\n' then
      if depth > 0 then tokensIn steps depth rest
      else if isFlush rest then (tokensIn steps depth rest).map (.lineEnd :: ·)
      else none
    else if c == '\\' then
      match rest with
      | '\n' :: rest => tokensIn steps depth rest
      | _ => none
    else match token? (c :: rest) with
      | some (token, rest) =>
        if depthAfter depth token > maxDepth then none
        else (tokensIn steps (depthAfter depth token) rest).map (token :: ·)
      | none => none

def withLineEnds : List Char → List Char
  | [] => []
  | '\r' :: '\n' :: rest => '\n' :: withLineEnds rest
  | c :: rest => (if c == '\r' then '\n' else c) :: withLineEnds rest

def tokens? (text : List Char) : Option (List Token) :=
  let text := withLineEnds text
  if text.contains '\x00' then none else tokensIn text.length 0 text

/-! ### Values -/

inductive Form where
  | real
  | imaginary
  | signed
  | fixed
  | changeable
  | setWord
  deriving DecidableEq, Repr

def Form.isKey (f : Form) : Bool := f != .changeable && f != .setWord

def tuple? (items : List Form) : Option Form :=
  if items.contains .setWord then none
  else some (if items.all Form.isKey then .fixed else .changeable)

def called (f : Form) (rest : List Token) : Form × List Token :=
  match f, rest with
  | .setWord, .mark '(' :: .mark ')' :: rest => (.changeable, rest)
  | _, _ => (f, rest)

mutual

def atom? : Nat → List Token → Option (Form × List Token)
  | 0, _ => none
  | steps + 1, token :: rest =>
    match token with
    | .number isImaginary => some (if isImaginary then .imaginary else .real, rest)
    | .text => some (.fixed, rest.dropWhile (· == .text))
    | .bytes => some (.fixed, rest.dropWhile (· == .bytes))
    | .constant => some (.fixed, rest)
    | .setWord => some (called .setWord rest)
    | .mark '(' =>
      match rest with
      | .mark ')' :: rest => some (.fixed, rest)
      | _ =>
        match value? steps rest with
        | some (f, .mark ')' :: rest) => some (called f rest)
        | some (f, .mark ',' :: rest) =>
          match items? steps ')' rest with
          | some (fs, rest) => (tuple? (f :: fs)).map fun f => (f, rest)
          | none => none
        | _ => none
    | .mark '\x7b' =>
      match rest with
      | .mark '\x7d' :: rest => some (.changeable, rest)
      | _ =>
        match value? steps rest with
        | some (f, .mark c :: rest) =>
          if !f.isKey then none
          else if c == ':' then (field? steps rest).map fun rest => (.changeable, rest)
          else if c == '\x7d' then some (.changeable, rest)
          else if c == ',' then
            match items? steps '\x7d' rest with
            | some (fs, rest) => if fs.all Form.isKey then some (.changeable, rest) else none
            | none => none
          else none
        | _ => none
    | _ => none
  | _, [] => none

/-- A value with an optional sign, or the sum of a number and an imaginary number. -/
def value? : Nat → List Token → Option (Form × List Token)
  | 0, _ => none
  | steps + 1, tokens =>
    let first : Option (Form × List Token) := match tokens with
      | .sign :: rest =>
        match atom? steps rest with
        | some (.real, rest) => some (.signed, rest)
        | some (.imaginary, rest) => some (.fixed, rest)
        | _ => none
      | _ => atom? steps tokens
    match first with
    | some (f, .sign :: rest) =>
      if f == .real || f == .signed then
        match atom? steps rest with
        | some (.imaginary, rest) => some (.fixed, rest)
        | _ => none
      else none
    | _ => first

def items? : Nat → Char → List Token → Option (List Form × List Token)
  | 0, _, _ => none
  | steps + 1, close, tokens =>
    match tokens with
    | .mark c :: rest =>
      if c == close then some ([], rest) else more? steps close tokens
    | _ => more? steps close tokens

/-- At least one value, further ones behind commas, and the closing bracket. -/
def more? : Nat → Char → List Token → Option (List Form × List Token)
  | 0, _, _ => none
  | steps + 1, close, tokens =>
    match value? steps tokens with
    | some (f, .mark c :: rest) =>
      if c == ',' then (items? steps close rest).map fun (fs, rest) => (f :: fs, rest)
      else if c == close then some ([f], rest)
      else none
    | _ => none

def fields? : Nat → List Token → Option (List Token)
  | 0, _ => none
  | steps + 1, tokens =>
    match tokens with
    | .mark '\x7d' :: rest => some rest
    | _ =>
      match value? steps tokens with
      | some (key, .mark ':' :: rest) => if key.isKey then field? steps rest else none
      | _ => none

def field? : Nat → List Token → Option (List Token)
  | 0, _ => none
  | steps + 1, tokens =>
    match value? steps tokens with
    | some (f, .mark c :: rest) =>
      if f == .setWord then none
      else if c == ',' then fields? steps rest
      else if c == '\x7d' then some rest
      else none
    | _ => none

end

/-- Values with commas between them up to the end, as in a tuple. -/
def isRow : Nat → List Token → Bool
  | 0, _ => false
  | steps + 1, tokens =>
    match value? (5 * tokens.length + 5) tokens with
    | some (.setWord, _) => false
    | some (_, .mark ',' :: rest) => rest.isEmpty || isRow steps rest
    | some (_, rest) => rest.isEmpty
    | none => false

def isLiteral (text : List Char) : Bool :=
  match tokens? text with
  | some tokens =>
    let isEnd (t : Token) : Bool := t == .lineEnd
    let tokens := ((tokens.dropWhile isEnd).reverse.dropWhile isEnd).reverse
    isRow tokens.length tokens
  | none => false

end StubCatalog.Terminal.Literal
