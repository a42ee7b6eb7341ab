import StubCatalog.Decimal.Numeral
import StubCatalog.Json.Basic
import StubCatalog.Table

/-! # Checking data

Reading records collects every problem with its place. Integers and truth values may also be spelled
out as texts. -/

namespace StubCatalog

structure Problem where
  path : List String
  message : String
  deriving DecidableEq, Repr

namespace Problem

def here (message : String) : Problem := ⟨[], message⟩

def under (step : String) (p : Problem) : Problem := { p with path := step :: p.path }

def text (p : Problem) : String := Text.joined "." p.path ++ ": " ++ p.message

def texts (ps : List Problem) : String := Text.joined "; " (ps.map text)

end Problem

/-- A value, or the problems with the data; `ε` is a reason to stop at once. -/
inductive Validated (ε α : Type) where
  | valid (value : α)
  | invalid (problems : List Problem)
  | halted (error : ε)
  deriving Inhabited

namespace Validated

variable {ε α β : Type}

def map (f : α → β) : Validated ε α → Validated ε β
  | .valid a => .valid (f a)
  | .invalid ps => .invalid ps
  | .halted e => .halted e

def ap (f : Validated ε (α → β)) (x : Validated ε α) : Validated ε β :=
  match f, x with
  | .valid f, .valid a => .valid (f a)
  | .valid _, .invalid ps => .invalid ps
  | .invalid ps, .valid _ => .invalid ps
  | .invalid ps, .invalid qs => .invalid (ps ++ qs)
  | .halted e, _ => .halted e
  | _, .halted e => .halted e

instance : Applicative (Validated ε) where
  map := map
  pure := .valid
  seq f x := ap f (x ())

def refuse (message : String) : Validated ε α := .invalid [Problem.here message]

def under (step : String) : Validated ε α → Validated ε α
  | .invalid ps => .invalid (ps.map (Problem.under step))
  | other => other

def listFrom (check : Json → Validated ε α) (index : Nat) : List Json → Validated ε (List α)
  | [] => .valid []
  | j :: js =>
    List.cons <$> (check j).under (toString index) <*> listFrom check (index + 1) js

def pairs (check : Json → Validated ε α) :
    List (String × Json) → Validated ε (List (String × α))
  | [] => .valid []
  | (key, j) :: rest => (fun v ps => (key, v) :: ps) <$> (check j).under key <*> pairs check rest

end Validated

namespace Expect

variable {ε α : Type}

/-! ### Values without parts -/

def text : Json → Validated ε String
  | .str s => .valid s
  | _ => .refuse "Input should be a valid string"

/-- The message for a text with half of a surrogate pair where only characters can be read. -/
def halfMessage : String :=
  "Input should be a valid string, unable to parse raw data as a unicode string"

def truthWords : List (String × Bool) :=
  [("0", false), ("f", false), ("n", false), ("no", false), ("off", false), ("false", false),
    ("1", true), ("t", true), ("y", true), ("on", true), ("yes", true), ("true", true)]

def isWord (n : Int) : Bool := -(Nat.pow 2 63 : Int) ≤ n && n < Nat.pow 2 63

/-- The integer fits into 64 bits with a sign and is not the least one that does. -/
def isInnerWord (n : Int) : Bool := isWord n && isWord (n - 1)

def flag : Json → Validated ε Bool
  | .bool b => .valid b
  | .str s =>
    match truthWords.lookup (s.map Char.toLower) with
    | some b => .valid b
    | none =>
      .refuse (if Text.hasHalf s then halfMessage
        else "Input should be a valid boolean, unable to interpret input")
  | .int n => ofNumber n
  | .float d =>
    match d.toInt?.filter isInnerWord with
    | some n => ofNumber n
    | none => .refuse "Input should be a valid boolean"
  | _ => .refuse "Input should be a valid boolean"
where
  /-- One and zero stand for truth values. -/
  ofNumber (n : Int) : Validated ε Bool :=
    if n = 0 then .valid false else if n = 1 then .valid true
    else if isWord n then .refuse "Input should be a valid boolean, unable to interpret input"
    else .refuse "Input should be a valid boolean"

def isPadding (c : Char) : Bool := Text.isBlank c && !(0x1C ≤ c.toNat && c.toNat ≤ 0x1F)

inductive IntegerFlaw where
  | malformed
  | tooLong
  deriving DecidableEq, Repr

def IntegerFlaw.message : IntegerFlaw → String
  | .malformed => "Input should be a valid integer, unable to parse string as an integer"
  | .tooLong => "Unable to parse input string as an integer, exceeded maximum size"

/-- Decimal digits without a zero in front of others, possibly behind a minus sign. The length is
looked at before anything that follows the digits. -/
def plainInteger (cs : List Char) : Except IntegerFlaw Int :=
  let (negative, digits) := match cs with
    | '-' :: rest => (true, rest)
    | _ => (false, cs)
  match digits with
  | [] => .error .malformed
  | first :: rest =>
    if first == '0' && !rest.isEmpty then .error .malformed
    else if cs.length - (digits.dropWhile Char.isDigit).length > Numeral.maxDecimalDigits then
      .error .tooLong
    else match Numeral.digitsValue? 10 0 digits with
      | some n => .ok (if negative then -(n : Int) else n)
      | none => .error .malformed

/-- Drops a decimal point with nothing but zeros behind it, at least one of them. -/
def dropZeroFraction? (cs : List Char) : Option (List Char) :=
  match cs.dropWhile (· != '.') with
  | [] => some cs
  | _ :: fraction =>
    if !fraction.isEmpty && fraction.all (· == '0') then some (cs.takeWhile (· != '.')) else none

def dropLeadingZeros? (cs : List Char) : Option (List Char) :=
  match cs with
  | '0' :: rest =>
    match rest.dropWhile fun c => c == '0' || c == '_' with
    | [] => some (cs.getLast?.toList)
    | c :: more => if c.isDigit then some (c :: more) else none
  | c :: _ => if c.isDigit then some cs else none
  | [] => none

def dropUnderscores (cs : List Char) : List Char :=
  if cs.head? == some '_' || cs.getLast? == some '_' || Text.contains ['_', '_'] cs then cs
  else cs.filter (· != '_')

/-- A spelled-out integer in plain form: without blanks around it, a plus sign, zeros in front, a
fraction of zeros and underscores. -/
def plainForm? (cs : List Char) : Option (List Char) := do
  let unsigned (cs : List Char) : Option (List Char) := do
    return dropUnderscores (← dropLeadingZeros? (← dropZeroFraction? cs))
  match Text.trimBy isPadding cs with
  | '+' :: digits => unsigned digits
  | '-' :: digits => return '-' :: (← unsigned digits)
  | digits => unsigned digits

def integerText (s : String) : Except IntegerFlaw Int :=
  match plainInteger s.toList with
  | .error .malformed =>
    match plainForm? s.toList with
    | some cs => plainInteger cs
    | none => .error .malformed
  | result => result

def integer : Json → Validated ε Int
  | .int n => .valid n
  | .bool b => .valid (if b then 1 else 0)
  | .float d =>
    match d, d.toInt? with
    | _, some n =>
      if isInnerWord n then .valid n else .refuse IntegerFlaw.tooLong.message
    | .finite .., none =>
      .refuse "Input should be a valid integer, got a number with a fractional part"
    | _, none => .refuse "Input should be a finite number"
  | .str s =>
    match integerText s with
    | .ok n => .valid n
    | .error flaw => .refuse (if Text.hasHalf s then halfMessage else flaw.message)
  | _ => .refuse "Input should be a valid integer"

def choices : List String → String
  | [] => ""
  | [name] => "'" ++ name ++ "'"
  | [first, last] => "'" ++ first ++ "' or '" ++ last ++ "'"
  | name :: names => "'" ++ name ++ "', " ++ choices names

def choice (all : List α) (label : α → String) (j : Json) : Validated ε α :=
  match j.str?.bind fun name => all.find? (label · == name) with
  | some value => .valid value
  | none => .refuse ("Input should be " ++ choices (all.map label))

/-! ### Values with parts -/

def nullable (check : Json → Validated ε α) : Json → Validated ε (Option α)
  | .null => .valid none
  | j => (check j).map some

def list (check : Json → Validated ε α) : Json → Validated ε (List α)
  | .arr items => .listFrom check 0 items
  | _ => .refuse "Input should be a valid list"

def table (check : Json → Validated ε α) : Json → Validated ε (Table α)
  | .obj fields => (Validated.pairs check fields).map Table.ofList
  | _ => .refuse "Input should be a valid dictionary"

def required (j : Json) (key : String) (check : Json → Validated ε α) : Validated ε α :=
  match j.field? key with
  | some v => (check v).under key
  | none => .invalid [⟨[key], "Field required"⟩]

def optional (j : Json) (key : String) (default : α) (check : Json → Validated ε α) :
    Validated ε α :=
  match j.field? key with
  | some v => (check v).under key
  | none => .valid default

def record (message : String) (fields : Json → Validated ε α) (j : Json) : Validated ε α :=
  match j with
  | .obj _ => fields j
  | _ => .refuse message

end Expect

end StubCatalog
