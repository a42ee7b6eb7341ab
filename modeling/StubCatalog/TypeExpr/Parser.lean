import StubCatalog.Decimal.Numeral
import StubCatalog.TypeExpr.Scope
import StubCatalog.TypeExpr.Token
import StubCatalog.TypeExpr.Union

/-! # Reading type expressions

Binding strength, loosest first: conditionals, `|`, `&`, the question mark in front, `[]` behind,
then single types. Every function reads from the front of a list of tokens and leaves fewer of them.
-/

namespace StubCatalog.TypeExpr

/-! ### Errors -/

/-- What is wrong with a text that is no type expression. -/
inductive Flaw where
  | strayCharacter (char : Char)
  | noType
  | trailing (value : String)
  | expected (kind : TokenKind) (found : Option String)
  | expectedType (found : Option String)
  | strayVariable (name : String)
  | expectedNumber
  | expectedMember
  | fractionalBound
  | manyTailArguments
  deriving DecidableEq, Repr

/-- What was found in place of something else. -/
def foundText : Option String → String
  | none => "end of input"
  | some value => Text.quoted value

/-- The text of the flaw. -/
def Flaw.message : Flaw → String
  | .strayCharacter char => "Unexpected character " ++ Text.quoted (String.singleton char)
  | .noType => "Empty type expression"
  | .trailing value => "Unexpected " ++ Text.quoted value ++ " after type"
  | .expected kind found =>
    "Expected " ++ Text.quoted kind.label ++ ", found " ++ foundText found
  | .expectedType found => "Expected a type, found " ++ foundText found
  | .strayVariable name => "Unexpected variable " ++ name
  | .expectedNumber => "Expected a number"
  | .expectedMember => "Expected a member name after '::'"
  | .fractionalBound => "Integer range bounds must be integers"
  | .manyTailArguments => "Unsealed shapes take at most two arguments"

/-- Why a text is not read. -/
inductive ParseError where
  | malformed (flaw : Flaw) (position : Nat) (text : String)
  | numeral (error : Numeral.Error)
  deriving DecidableEq, Repr

/-- The text of the error. -/
def ParseError.message : ParseError → String
  | .malformed flaw position text =>
    flaw.message ++ s!": at offset {position} in " ++ Text.quoted text
  | .numeral error => error.message

/-- What a text is read with: the text itself, for messages, and the names in scope. -/
structure Reading where
  text : String
  scope : Scope

/-- A value and the tokens left behind it, fewer than `bound`. -/
structure Parsed (bound : Nat) (α : Type) where
  value : α
  rest : List Token
  fewer : rest.length < bound

/-- A value that is read, or an error. -/
abbrev Attempt := Except ParseError

namespace Reading

/-- Where the next token stands, or the text ends. -/
def place (r : Reading) : List Token → Nat
  | [] => r.text.length
  | t :: _ => t.position

/-- An error at the next token. -/
def fail {α : Type} (r : Reading) (flaw : Flaw) (s : List Token) : Attempt α :=
  .error (.malformed flaw (r.place s) r.text)

/-! ### Single tokens -/

/-- The sort of the next token. -/
def kindAt (s : List Token) : Option TokenKind := s.head?.map Token.kind

/-- The token is the word, in any case. -/
def isWord (t : Token) (word : String) : Bool :=
  t.kind == .identifier && Text.lower t.value == word

/-- Takes a token of the sort, which must come next. -/
def expect (r : Reading) (kind : TokenKind) (s : List Token) : Attempt (Parsed s.length Unit) :=
  match s with
  | [] => r.fail (.expected kind none) []
  | t :: rest =>
    if t.kind = kind then .ok ⟨(), rest, by simp⟩
    else r.fail (.expected kind (some t.value)) (t :: rest)

/-- Takes a token of the sort if it comes next. -/
def accept (kind : TokenKind) (s : List Token) : Parsed (s.length + 1) Bool :=
  match s with
  | [] => ⟨false, [], by simp⟩
  | t :: rest =>
    if t.kind = kind then ⟨true, rest, by simp only [List.length_cons]; omega⟩
    else ⟨false, t :: rest, by simp⟩

/-- What stands behind a token of the sort, if it comes next. -/
def take? (kind : TokenKind) (s : List Token) : Option (Parsed s.length Unit) :=
  match s with
  | [] => none
  | t :: rest => if t.kind = kind then some ⟨(), rest, by simp⟩ else none

/-- Takes the word if it comes next. -/
def acceptWord (word : String) (s : List Token) : Parsed (s.length + 1) Bool :=
  match s with
  | [] => ⟨false, [], by simp⟩
  | t :: rest =>
    if isWord t word then ⟨true, rest, by simp only [List.length_cons]; omega⟩
    else ⟨false, t :: rest, by simp⟩

/-- The sorts of tokens that a type can start with, variables apart. -/
def startsType (kind : Option TokenKind) : Bool :=
  match kind with
  | some .identifier | some .leftParen | some .question | some .int | some .float | some .string
  | some .minus | some .plus => true
  | _ => false

/-! ### Parts without types inside -/

/-- A number with an optional sign. -/
def number (r : Reading) (s : List Token) : Attempt (Parsed s.length LiteralValue) :=
  let ⟨negative, unsigned, h⟩ := accept .minus s
  let ⟨_, plain, h'⟩ :=
    if negative then (⟨false, unsigned, by omega⟩ : Parsed (unsigned.length + 1) Bool)
    else accept .plus unsigned
  match plain with
  | [] => r.fail .expectedNumber []
  | t :: rest =>
    if t.kind = .int then
      match Numeral.readLiteral t.value with
      | .error e => .error (.numeral e)
      | .ok n => .ok ⟨.int (if negative then -n else n), rest, by simp at h'; omega⟩
    else if t.kind = .float then
      let d := (Numeral.readDouble? (String.ofList (t.value.toList.filter (· != '_')))).getD .nan
      .ok ⟨.float (if negative then d.neg else d), rest, by simp at h'; omega⟩
    else r.fail .expectedNumber (t :: rest)

/-- A bound of a range of integers; the words for no bound may stand on either side. -/
def intBound (r : Reading) (s : List Token) : Attempt (Parsed s.length (Option Int)) :=
  match s with
  | t :: rest =>
    if isWord t "min" || isWord t "max" then .ok ⟨none, rest, by simp⟩
    else match r.number (t :: rest) with
      | .error e => .error e
      | .ok ⟨.int n, rest, h⟩ => .ok ⟨some n, rest, h⟩
      | .ok _ => r.fail .fractionalBound (t :: rest)
  | [] => r.fail .expectedNumber []

/-- The bounds of a range of integers, in angle brackets. -/
def intRange (r : Reading) (s : List Token) : Attempt (Parsed s.length TypeExpr) := do
  let ⟨_, s1, h1⟩ ← r.expect .less s
  let ⟨low, s2, h2⟩ ← r.intBound s1
  let ⟨_, s3, h3⟩ ← r.expect .comma s2
  let ⟨high, s4, h4⟩ ← r.intBound s3
  let ⟨_, s5, h5⟩ ← r.expect .greater s4
  .ok ⟨.intRange (.ofInt? low) (.ofInt? high), s5, by omega⟩

/-- The parts of a member's name: names and stars that follow one another without a gap. -/
def memberParts (stop : Nat) (s : List Token) : Parsed (s.length + 1) (List String) :=
  match s with
  | [] => ⟨[], [], by simp⟩
  | t :: rest =>
    if (t.kind = .identifier || t.kind = .star) && t.position = stop then
      let ⟨parts, left, h⟩ := memberParts t.stop rest
      ⟨t.value :: parts, left, by simp; omega⟩
    else ⟨[], t :: rest, by simp⟩

/-- A reference to a member of a class, behind the two colons. -/
def memberReference (r : Reading) (owner : String) (t : Token) (s : List Token) :
    Attempt (Parsed (s.length + 1) TypeExpr) :=
  let lowered := Text.lower owner
  let resolved := if Keyword.relatives.contains lowered then lowered else r.scope.resolveClass owner
  let ⟨parts, rest, h⟩ := memberParts t.stop s
  if parts.isEmpty then r.fail .expectedMember s
  else
    let member : String := parts.foldl (· ++ ·) ""
    .ok ⟨.memberReference resolved member, rest, h⟩

/-- The rest of a field's key behind its characters: a question mark that may be missing, and a
colon. -/
def keyEnd? (s : List Token) : Option (Parsed s.length Bool) :=
  match s with
  | a :: rest =>
    if a.kind = .colon then some ⟨false, rest, by simp⟩
    else match rest with
      | b :: behind =>
        if a.kind = .question && b.kind = .colon then
          some ⟨true, behind, by simp only [List.length_cons]; omega⟩
        else none
      | [] => none
  | [] => none

/-- The key of a field and whether the field is optional, if a key comes next. -/
def shapeKey? (s : List Token) : Attempt (Option (Parsed s.length (ShapeKey × Bool))) :=
  match s with
  | [] => .ok none
  | t :: rest =>
    match t.kind with
    | .minus =>
      match rest with
      | u :: behind =>
        if u.kind = .int then
          match keyEnd? behind with
          | none => .ok none
          | some ⟨optional, left, h⟩ =>
            match Numeral.readLiteral u.value with
            | .error e => .error (.numeral e)
            | .ok n => .ok (some ⟨(.int (-n), optional), left, by simp; omega⟩)
        else .ok none
      | [] => .ok none
    | .int =>
      match keyEnd? rest with
      | none => .ok none
      | some ⟨optional, left, h⟩ =>
        match Numeral.readLiteral t.value with
        | .error e => .error (.numeral e)
        | .ok n => .ok (some ⟨(.int n, optional), left, by simp; omega⟩)
    | .string =>
      match keyEnd? rest with
      | none => .ok none
      | some ⟨optional, left, h⟩ =>
        .ok (some ⟨(.str (unquote t.value), optional), left, by simp; omega⟩)
    | .identifier =>
      match keyEnd? rest with
      | none => .ok none
      | some ⟨optional, left, h⟩ => .ok (some ⟨(.str t.value, optional), left, by simp; omega⟩)
    | _ => .ok none

/-- Skips a default value: everything up to a comma or parenthesis outside of brackets. -/
def skipDefault (depth : Int) (s : List Token) : Parsed (s.length + 1) Unit :=
  match s with
  | [] => ⟨(), [], by simp⟩
  | t :: rest =>
    if depth = 0 && (t.kind = .comma || t.kind = .rightParen) then ⟨(), t :: rest, by simp⟩
    else
      let inner : Int := match t.kind with
        | .leftParen | .leftBrace | .leftBracket | .less => depth + 1
        | .rightParen | .rightBrace | .rightBracket | .greater => depth - 1
        | _ => depth
      let ⟨_, left, h⟩ := skipDefault inner rest
      ⟨(), left, by simp; omega⟩

/-- The marks behind a parameter's type: by reference, variadic, name, default. -/
def parameterMarks (type : TypeExpr) (variadic : Bool) (s : List Token) :
    Parsed (s.length + 1) (CallableParameter TypeExpr) :=
  let ⟨byReference, s1, h1⟩ := accept .ampersand s
  let ⟨dots, s2, h2⟩ := accept .ellipsis s1
  let ⟨_, s3, h3⟩ := accept .variable s2
  let ⟨optional, s4, h4⟩ := accept .equals s3
  let ⟨_, s5, h5⟩ :=
    if optional then skipDefault 0 s4 else (⟨(), s4, by omega⟩ : Parsed (s4.length + 1) Unit)
  ⟨⟨type, optional, dots || variadic, byReference⟩, s5, by omega⟩

/-- Pairs of brackets behind a type, each an array of what stands in front. -/
def arrayMarks (type : TypeExpr) (s : List Token) : Parsed (s.length + 1) TypeExpr :=
  match s with
  | a :: b :: rest =>
    if a.kind = .leftBracket && b.kind = .rightBracket then
      let ⟨t, left, h⟩ := arrayMarks (.generic "array" [type]) rest
      ⟨t, left, by simp; omega⟩
    else ⟨type, a :: b :: rest, by simp⟩
  | s => ⟨type, s, by simp⟩

/-- The normal spelling of a name, if it is that of a built-in type. -/
def builtin (name : String) : String :=
  let lowered := Text.lower name
  (Keyword.aliases.lookup lowered).getD lowered

/-- The bound of the template parameter of this name. -/
def template? (r : Reading) (name : String) : Option (Option TypeExpr) :=
  if name.toList.contains '\\' then none else r.scope.templates.get? name

/-- A name without arguments, fields or parameters. -/
def nameAlone (r : Reading) (name : String) : TypeExpr :=
  if Keyword.builtins.contains (builtin name) then .keyword (builtin name)
  else match r.template? name with
    | some bound => .template name bound
    | none => .named (r.scope.resolveClass name)

/-- The arguments behind an ellipsis as key and value of further fields. -/
def tailTypes? : List TypeExpr → Option (Option TypeExpr × Option TypeExpr)
  | [value] => some (none, some value)
  | [key, value] => some (some key, some value)
  | _ => none

/-! ### Types -/

/-- The signs between types: alternatives, members of a combination, and arguments. -/
inductive Separator where
  | pipe
  | ampersand
  | comma
  deriving DecidableEq, Repr

namespace Separator

/-- The sort of token that the sign is. -/
def kind : Separator → TokenKind
  | .pipe => .pipe
  | .ampersand => .ampersand
  | .comma => .comma

/-- Another type follows behind the sign. An ampersand without a type behind it marks a parameter by
reference, and a comma may stand behind the last argument. -/
def goesOn (sep : Separator) (next : Option TokenKind) : Bool :=
  match sep with
  | .pipe => true
  | .ampersand => startsType next
  | .comma => next != some .greater

/-- How loosely the sign binds, among the functions that read types. -/
def looseness : Separator → Nat
  | .ampersand => 4
  | .pipe => 7
  | .comma => 11

theorem looseness_lt (sep : Separator) : sep.looseness < 12 := by cases sep <;> decide

end Separator

/-- Several types are put together; one is left as it is. -/
def combined (combine : List TypeExpr → TypeExpr) : List TypeExpr → TypeExpr
  | [t] => t
  | ts => combine ts

theorem fewer_cons {s rest : List Token} (t : Token) (h : s.length < rest.length) :
    s.length < (t :: rest).length + 1 := by
  simp only [List.length_cons]
  omega

mutual

/-- A conditional or a union. -/
def type (r : Reading) (s : List Token) : Attempt (Parsed s.length TypeExpr) :=
  match s with
  | first :: second :: rest =>
    if isWord second "is" && (first.kind = .variable ||
        (first.kind = .identifier && !first.value.toList.contains '\\')) then do
      let ⟨negated, s1, h1⟩ := acceptWord "not" rest
      let ⟨target, s2, h2⟩ ← r.union s1
      let ⟨_, s3, h3⟩ ← r.expect .question s2
      let ⟨whenTrue, s4, h4⟩ ← r.type s3
      let ⟨_, s5, h5⟩ ← r.expect .colon s4
      let ⟨whenFalse, s6, h6⟩ ← r.type s5
      .ok ⟨.conditional first.value target whenTrue whenFalse negated, s6, by simp; omega⟩
    else r.union (first :: second :: rest)
  | s => r.union s
termination_by 16 * s.length + 10

/-- Alternatives. -/
def union (r : Reading) (s : List Token) : Attempt (Parsed s.length TypeExpr) := do
  let ⟨ts, s1, h1⟩ ← r.items .pipe s
  .ok ⟨combined unionOf ts, s1, h1⟩
termination_by 16 * s.length + 9
decreasing_by simp [Separator.looseness]

/-- Members of a combination. -/
def intersection (r : Reading) (s : List Token) : Attempt (Parsed s.length TypeExpr) := do
  let ⟨ts, s1, h1⟩ ← r.items .ampersand s
  .ok ⟨combined intersectionOf ts, s1, h1⟩
termination_by 16 * s.length + 6
decreasing_by simp [Separator.looseness]

/-- Types with the sign between them. -/
def items (r : Reading) (sep : Separator) (s : List Token) :
    Attempt (Parsed s.length (List TypeExpr)) := do
  let ⟨first, s1, h1⟩ ← r.item sep s
  let ⟨others, s2, h2⟩ ← r.further sep s1
  .ok ⟨first :: others, s2, by omega⟩
termination_by 16 * s.length + sep.looseness + 1

/-- A type next to the sign, with operators in it that bind closer. -/
def item (r : Reading) (sep : Separator) (s : List Token) : Attempt (Parsed s.length TypeExpr) :=
  match sep with
  | .pipe => r.intersection s
  | .ampersand => r.nullablePart s
  | .comma => r.type s
termination_by 16 * s.length + sep.looseness
decreasing_by all_goals simp [Separator.looseness]

/-- Further types, each behind the sign. -/
def further (r : Reading) (sep : Separator) (s : List Token) :
    Attempt (Parsed (s.length + 1) (List TypeExpr)) :=
  match s with
  | t :: rest =>
    if t.kind = sep.kind && sep.goesOn (kindAt rest) then do
      have := sep.looseness_lt
      let ⟨next, s1, h1⟩ ← r.item sep rest
      let ⟨others, s2, h2⟩ ← r.further sep s1
      .ok ⟨next :: others, s2, by simp; omega⟩
    else .ok ⟨[], t :: rest, by simp⟩
  | [] => .ok ⟨[], [], by simp⟩
termination_by 16 * s.length

/-- Question marks, a single type and pairs of brackets. -/
def nullablePart (r : Reading) (s : List Token) : Attempt (Parsed s.length TypeExpr) :=
  match s with
  | t :: rest =>
    if t.kind = .question then do
      let ⟨inner, s1, h1⟩ ← r.nullablePart rest
      .ok ⟨nullableOf inner, s1, by simp; omega⟩
    else do
      let ⟨atom, s1, h1⟩ ← r.single (t :: rest)
      let ⟨result, s2, h2⟩ := arrayMarks atom s1
      .ok ⟨result, s2, by omega⟩
  | [] => r.fail (.expectedType none) []
termination_by 16 * s.length + 3

/-- A type without operators outside of brackets. -/
def single (r : Reading) (s : List Token) : Attempt (Parsed s.length TypeExpr) :=
  match s with
  | [] => r.fail (.expectedType none) []
  | t :: rest =>
    match t.kind with
    | .leftParen => do
      let ⟨inner, s1, h1⟩ ← r.type rest
      let ⟨_, s2, h2⟩ ← r.expect .rightParen s1
      .ok ⟨inner, s2, by simp; omega⟩
    | .variable =>
      if t.value == "$this" then .ok ⟨.keyword "$this", rest, by simp⟩
      else r.fail (.strayVariable t.value) (t :: rest)
    | .int | .float | .minus | .plus => do
      let ⟨value, s1, h1⟩ ← r.number (t :: rest)
      .ok ⟨.literal value, s1, h1⟩
    | .string => .ok ⟨.literal (.str (unquote t.value)), rest, by simp⟩
    | .identifier => do
      let ⟨result, s1, h1⟩ ← r.nameType t.value rest
      .ok ⟨result, s1, by simp; omega⟩
    | _ => r.fail (.expectedType (some t.value)) (t :: rest)
termination_by 16 * s.length + 2

/-- A type that starts with a name. -/
def nameType (r : Reading) (name : String) (s : List Token) :
    Attempt (Parsed (s.length + 1) TypeExpr) :=
  let lowered := Text.lower name
  match s with
  | [] => .ok ⟨r.nameAlone name, [], by simp⟩
  | t :: rest =>
    match t.kind with
    | .doubleColon => do
      let ⟨result, s1, h1⟩ ← r.memberReference name t rest
      .ok ⟨result, s1, by simp; omega⟩
    | .leftParen =>
      match Keyword.callables.lookup lowered with
      | some kind => do
        let ⟨params, s1, h1⟩ ← r.parameters rest
        let ⟨_, s2, h2⟩ ← r.expect .rightParen s1
        match take? .colon s2 with
        | some ⟨_, s3, h3⟩ =>
          let ⟨result, s4, h4⟩ ← r.union s3
          .ok ⟨.callable kind params (some result), s4, by simp; omega⟩
        | none => .ok ⟨.callable kind params none, s2, by simp; omega⟩
      | none => .ok ⟨r.nameAlone name, t :: rest, by simp⟩
    | .leftBrace =>
      if Keyword.shapes.contains lowered then do
        let ⟨result, s1, h1⟩ ← r.shapeBody lowered [] rest
        .ok ⟨result, s1, fewer_cons t h1⟩
      else .ok ⟨r.nameAlone name, t :: rest, by simp⟩
    | .less =>
      if lowered == "int" then do
        let ⟨result, s1, h1⟩ ← r.intRange (t :: rest)
        .ok ⟨result, s1, by simp at *; omega⟩
      else if Keyword.generics.contains (builtin name) then do
        let ⟨args, s1, h1⟩ ← r.arguments rest
        .ok ⟨.generic (builtin name) args, s1, fewer_cons t h1⟩
      else if Keyword.builtins.contains (builtin name) || (r.template? name).isSome then
        .ok ⟨r.nameAlone name, t :: rest, by simp⟩
      else do
        let ⟨args, s1, h1⟩ ← r.arguments rest
        .ok ⟨.generic (r.scope.resolveClass name) args, s1, fewer_cons t h1⟩
    | _ => .ok ⟨r.nameAlone name, t :: rest, by simp⟩
termination_by 16 * s.length + 1

/-- Arguments up to the closing bracket; a comma may stand behind the last one. -/
def arguments (r : Reading) (s : List Token) : Attempt (Parsed s.length (List TypeExpr)) := do
  let ⟨ts, s1, h1⟩ ← r.items .comma s
  let ⟨_, s2, h2⟩ := accept .comma s1
  let ⟨_, s3, h3⟩ ← r.expect .greater s2
  .ok ⟨ts, s3, by omega⟩
termination_by 16 * s.length + 13
decreasing_by simp [Separator.looseness]

/-- The fields of a shape up to its closing brace, behind the fields `acc` in reverse. -/
def shapeBody (r : Reading) (kind : String) (acc : List (ShapeField TypeExpr)) (s : List Token) :
    Attempt (Parsed s.length TypeExpr) :=
  match s with
  | [] => r.fail (.expectedType none) []
  | t :: rest =>
    if t.kind = .rightBrace then .ok ⟨.shape kind acc.reverse true none none, rest, by simp⟩
    else if t.kind = .ellipsis then do
      let ⟨(key, value), s1, h1⟩ ← r.shapeTail rest
      let ⟨_, s2, h2⟩ := accept .comma s1
      let ⟨_, s3, h3⟩ ← r.expect .rightBrace s2
      .ok ⟨.shape kind acc.reverse false key value, s3, by simp; omega⟩
    else do
      let ⟨field, s1, h1⟩ ← r.shapeField (t :: rest)
      match take? .comma s1 with
      | some ⟨_, s2, h2⟩ =>
        let ⟨result, s3, h3⟩ ← r.shapeBody kind (field :: acc) s2
        .ok ⟨result, s3, by omega⟩
      | none =>
        let ⟨_, s2, h2⟩ ← r.expect .rightBrace s1
        .ok ⟨.shape kind (field :: acc).reverse true none none, s2, by omega⟩
termination_by 16 * s.length + 12
decreasing_by all_goals (try simp only [List.length_cons] at *); omega

/-- A field with or without a key. -/
def shapeField (r : Reading) (s : List Token) :
    Attempt (Parsed s.length (ShapeField TypeExpr)) := do
  match ← shapeKey? s with
  | some ⟨(key, optional), s1, h1⟩ =>
    let ⟨value, s2, h2⟩ ← r.type s1
    .ok ⟨⟨some key, value, optional⟩, s2, by omega⟩
  | none =>
    let ⟨value, s1, h1⟩ ← r.type s
    .ok ⟨⟨none, value, false⟩, s1, h1⟩
termination_by 16 * s.length + 11

/-- The types of further fields, behind the ellipsis. -/
def shapeTail (r : Reading) (s : List Token) :
    Attempt (Parsed (s.length + 1) (Option TypeExpr × Option TypeExpr)) :=
  match s with
  | t :: rest =>
    if t.kind = .less then do
      let ⟨args, s1, h1⟩ ← r.arguments rest
      match tailTypes? args with
      | some tail => .ok ⟨tail, s1, by simp; omega⟩
      | none => r.fail .manyTailArguments s1
    else .ok ⟨(none, none), t :: rest, by simp⟩
  | [] => .ok ⟨(none, none), [], by simp⟩
termination_by 16 * s.length

/-- The parameters of a callable, up to the parenthesis. -/
def parameters (r : Reading) (s : List Token) :
    Attempt (Parsed (s.length + 1) (List (CallableParameter TypeExpr))) :=
  match s with
  | [] => r.fail (.expectedType none) []
  | t :: rest =>
    if t.kind = .rightParen then .ok ⟨[], t :: rest, by simp⟩
    else do
      let ⟨param, s1, h1⟩ ← r.parameter (t :: rest)
      match take? .comma s1 with
      | some ⟨_, s2, h2⟩ =>
        let ⟨others, s3, h3⟩ ← r.parameters s2
        .ok ⟨param :: others, s3, by omega⟩
      | none => .ok ⟨[param], s1, h1⟩
termination_by 16 * s.length + 12
decreasing_by all_goals (try simp only [List.length_cons] at *); omega

/-- One parameter of a callable. A parameter without a type takes any value. -/
def parameter (r : Reading) (s : List Token) :
    Attempt (Parsed (s.length + 1) (CallableParameter TypeExpr)) :=
  match s with
  | [] => r.fail (.expectedType none) []
  | t :: rest =>
    if t.kind = .ellipsis && startsType (kindAt rest) then do
      let ⟨type, s1, h1⟩ ← r.type rest
      let ⟨param, s2, h2⟩ := parameterMarks type true s1
      .ok ⟨param, s2, by simp; omega⟩
    else if t.kind = .ampersand || t.kind = .ellipsis || t.kind = .variable then
      let ⟨param, s1, h1⟩ := parameterMarks mixed false (t :: rest)
      .ok ⟨param, s1, h1⟩
    else do
      let ⟨type, s1, h1⟩ ← r.type (t :: rest)
      let ⟨param, s2, h2⟩ := parameterMarks type false s1
      .ok ⟨param, s2, by omega⟩
termination_by 16 * s.length + 11

end

end Reading

/-- Reads a whole text as a type. -/
def parse (text : String) (scope : Scope := {}) : Except ParseError TypeExpr :=
  let r : Reading := ⟨text, scope⟩
  match tokenize text with
  | .error stray => .error (.malformed (.strayCharacter stray.char) stray.position text)
  | .ok [] => .error (.malformed .noType 0 text)
  | .ok tokens =>
    match r.type tokens with
    | .error e => .error e
    | .ok ⟨result, [], _⟩ => .ok result
    | .ok ⟨_, t :: rest, _⟩ => r.fail (.trailing t.value) (t :: rest)

/-- Reads a whole text as a type; a text that is no type expression gives an unknown type. A number
without a value is still an error. -/
def parseLenient (text : String) (scope : Scope := {}) : Except Numeral.Error TypeExpr :=
  match parse text scope with
  | .ok t => .ok t
  | .error (.numeral e) => .error e
  | .error e => .ok (.unknown e.message)

end StubCatalog.TypeExpr
