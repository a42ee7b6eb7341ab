import StubCatalog.Terminal.Literal
import StubCatalog.Terminal.Picture
import StubCatalog.Terminal.Style
import StubCatalog.Text.Word

/-! # Style tags in printed text

Style tags in brackets are not shown. A tag starts with a lower-case letter or one of the signs `#`,
`/` and `@`; a slash closes the last open tag of that style, or the last open tag at all. A
backslash in front of a bracket keeps the bracket. -/

namespace StubCatalog.Terminal

def startsTag (c : Char) : Bool :=
  ('a' ≤ c && c ≤ 'z') || c == '#' || c == '/' || c == '@'

def tag? (cs : List Char) : Option (List Char × List Char) :=
  match cs with
  | [] => none
  | c :: rest =>
    if startsTag c then
      let body := rest.takeWhile fun d => d != ']' && d != '['
      match rest.drop body.length with
      | ']' :: after => some (c :: body, after)
      | _ => none
    else none

theorem length_tag_lt {cs content after : List Char} (h : tag? cs = some (content, after)) :
    after.length < cs.length := by
  unfold tag? at h
  split at h
  · simp at h
  · split at h
    · dsimp only at h
      split at h
      · next rest _ _ after' h' =>
        simp only [Option.some.injEq, Prod.mk.injEq] at h
        have := congrArg List.length h'
        simp only [List.length_drop, List.length_cons] at this
        simp only [List.length_cons, ← h.2]
        omega
      · simp at h
    · simp at h

inductive MarkupPart where
  | text (cs : List Char)
  | tag (content : List Char)
  deriving DecidableEq, Repr

/-- Shown characters, with those in front of them given in reverse. -/
def shownPart (shown : List Char) : List MarkupPart :=
  if shown.isEmpty then [] else [.text shown.reverse]

/-- The parts of printed text. `slashes` is the number of backslashes directly in front, and `shown`
is the reversed text in front of those. -/
def markupParts (shown : List Char) (slashes : Nat) (cs : List Char) : List MarkupPart :=
  match cs with
  | [] => shownPart (List.replicate slashes '\\' ++ shown)
  | '\\' :: rest => markupParts shown (slashes + 1) rest
  | c :: rest =>
    if c = '[' then
      match _h : tag? rest with
      | some (content, after) =>
        let kept := shownPart shown ++ shownPart (List.replicate (slashes / 2) '\\')
        if slashes % 2 = 0 then kept ++ .tag content :: markupParts [] 0 after
        else kept ++ .text ('[' :: content ++ [']']) :: markupParts [] 0 after
      | none => markupParts ('[' :: List.replicate slashes '\\' ++ shown) 0 rest
    else markupParts (c :: List.replicate slashes '\\' ++ shown) 0 rest
termination_by cs.length
decreasing_by
  all_goals simp only [List.length_cons]
  all_goals first
    | omega
    | exact Nat.lt_succ_of_lt (length_tag_lt _h)

def dropEscapes : List Char → List Char
  | '\\' :: '[' :: rest => '[' :: dropEscapes rest
  | c :: rest => c :: dropEscapes rest
  | [] => []

structure OpenTag where
  style : String
  value : Option (List Char) := none

namespace OpenTag

/-- The value of a tag for an action can be read: a dotted name, a name with a literal in
parentheses, or a literal. -/
def isAction (value : List Char) : Bool :=
  let value := Text.trimBlanks value
  let name := value.takeWhile fun c => Text.isWord c || c == '.'
  let rest := value.drop name.length
  let isCall := rest.head? == some '(' && rest.getLast? == some ')' && !rest.contains '\n'
  rest.isEmpty || Literal.isLiteral (if isCall then rest else value)

def hasAction (tag : OpenTag) : Bool := tag.style.startsWith "@"

/-- No number in the style of the text or in its value is unreadable. -/
def isShowable (tag : OpenTag) : Bool :=
  let written := match tag.value with
    | some value => tag.style ++ " " ++ String.ofList value
    | none => tag.style
  (Style.normalForm? written).isSome

def isClosable (tag : OpenTag) : Bool :=
  if tag.hasAction then tag.value.all fun value => value.isEmpty || isAction value
  else tag.isShowable

end OpenTag

def tagParts (content : List Char) : List Char × Option (List Char) :=
  let name := content.takeWhile (· != '=')
  match content.drop name.length with
  | _ :: value => (name, some value)
  | [] => (name, none)

/-- The tag that is closed, and the tags that stay open; the last open tag comes first. -/
def close? (name : List Char) (opened : List OpenTag) : Option (OpenTag × List OpenTag) :=
  let name := Text.trimBlanks name
  if name.isEmpty then
    match opened with
    | tag :: others => some (tag, others)
    | [] => none
  else match Style.normalForm? (String.ofList name) with
    | some style =>
      (opened.find? (·.style == style)).map fun tag =>
        (tag, opened.eraseP (·.style == style))
    | none => none

/-- The open tags after a tag; `none` if it cannot be read, or closes a tag that is not open. -/
def openAfter? (opened : List OpenTag) (content : List Char) : Option (List OpenTag) :=
  match tagParts content with
  | ('/' :: name, _) =>
    match close? name opened with
    | some (tag, others) => if tag.isClosable then some others else none
    | none => none
  | (name, value) =>
    (Style.normalForm? (String.ofList name)).map fun style => { style, value } :: opened

def shownText? (opened : List OpenTag) : List MarkupPart → Option (List Char)
  | [] => if opened.all OpenTag.isShowable then some [] else none
  | .text cs :: parts => (shownText? opened parts).map (withPictures (dropEscapes cs) ++ ·)
  | .tag content :: parts =>
    match openAfter? opened content with
    | some opened => shownText? opened parts
    | none => none

def isDroppedControl (c : Char) : Bool :=
  let n := c.toNat
  n == 7 || n == 8 || (11 ≤ n && n ≤ 13)

def shown? (text : String) : Option (List Char) :=
  (shownText? [] (markupParts [] 0 text.toList)).map (·.filter (!isDroppedControl ·))

end StubCatalog.Terminal
