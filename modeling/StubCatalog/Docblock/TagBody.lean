import StubCatalog.Text.Basic
import StubCatalog.Text.Word

/-! # The body of a tag

The type at the start of a tag's body ends at the first blank outside of brackets and quotes, unless
the blank stands beside a bar, an ampersand or the colon of a callable's result. -/

namespace StubCatalog.TagBody

/-- The bracket that closes an opening one. -/
def closer? (c : Char) : Option Char :=
  match c with
  | '(' => some ')'
  | '<' => some '>'
  | '{' => some '}'
  | '[' => some ']'
  | _ => none

/-- The character is a closing bracket. -/
def isCloser (c : Char) : Bool := c == ')' || c == '>' || c == '}' || c == ']'

/-- A type goes on behind a blank that follows this character. -/
def continues (last : Option Char) : Bool :=
  last == some '|' || last == some '&' || last == some ':'

/-- A type goes on behind a blank in front of this text. An ampersand in front of a parameter's name
marks the parameter and not an intersection. -/
def resumes : List Char → Bool
  | '|' :: _ => true
  | '&' :: '$' :: _ => false
  | '&' :: '.' :: _ => false
  | '&' :: _ => true
  | _ => false

/-- Splits a body behind the characters `taken`, held in reverse. The open brackets are given by
their closers, innermost first. -/
def splitFrom (stack : List Char) (quote last : Option Char) (taken : List Char) (cs : List Char) :
    Option (List Char × List Char) :=
  match cs with
  | [] => if stack.isEmpty && quote.isNone then some (taken.reverse, []) else none
  | c :: rest =>
    match quote with
    | some q =>
      if c == '\\' then
        match rest with
        | [] => none
        | d :: behind => splitFrom stack quote last (d :: c :: taken) behind
      else splitFrom stack (if c == q then none else quote) (some c) (c :: taken) rest
    | none =>
      if c == '\'' || c == '"' then splitFrom stack (some c) (some c) (c :: taken) rest
      else match closer? c with
        | some close => splitFrom (close :: stack) none (some c) (c :: taken) rest
        | none =>
          if isCloser c then
            match stack with
            | [] => none
            | close :: outer =>
              if close == c then splitFrom outer none (some c) (c :: taken) rest else none
          else if Text.isBlank c then
            if stack.isEmpty then
              let blanks := rest.takeWhile Text.isBlank
              let next := rest.dropWhile Text.isBlank
              if continues last || resumes next then
                splitFrom stack none last (blanks.reverse ++ c :: taken) next
              else some (taken.reverse, next)
            else splitFrom stack none last (c :: taken) rest
          else splitFrom stack none (some c) (c :: taken) rest
termination_by cs.length
decreasing_by
  all_goals simp only [List.length_cons]
  all_goals first
    | omega
    | exact Nat.lt_succ_of_le (List.dropWhile_sublist _).length_le

/-- Splits a body into its type and the rest; none if brackets or quotes are not balanced. -/
def split? (text : String) : Option (String × String) :=
  (splitFrom [] none none [] (text.toList.dropWhile Text.isBlank)).map fun (type, rest) =>
    (String.ofList type, String.ofList rest)

/-- The words of a text with one space between them. -/
def collapse (text : String) : String := String.ofList (Text.join [' '] (Text.words text.toList))

/-- A parameter's name with its marks, and what stands behind it. -/
structure ParameterName where
  name : String
  byReference : Bool
  variadic : Bool
  rest : String

/-- The name that follows a dollar sign: an ASCII letter or underscore, then word characters. -/
def dollarName? : List Char → Option (List Char × List Char)
  | '$' :: rest => Text.takeIdentifier? rest
  | _ => none

/-- The parameter's name that a text starts with. -/
def parameterName? (text : String) : Option ParameterName :=
  let (byReference, afterRef) := match text.toList with
    | '&' :: rest => (true, rest)
    | cs => (false, cs)
  let (variadic, afterDots) := match afterRef with
    | '.' :: '.' :: '.' :: rest => (true, rest)
    | cs => (false, cs)
  (dollarName? afterDots).map fun (name, rest) =>
    ⟨String.ofList name, byReference, variadic, String.ofList rest⟩

/-- The first word of a text, and the rest. -/
def firstWord (text : String) : String × String :=
  let cs := text.toList.dropWhile Text.isBlank
  (String.ofList (cs.takeWhile (!Text.isBlank ·)),
    String.ofList ((cs.dropWhile (!Text.isBlank ·)).dropWhile Text.isBlank))

end StubCatalog.TagBody
