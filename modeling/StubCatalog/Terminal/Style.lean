import StubCatalog.Terminal.Color

/-! # Styles

A style is written in words: attributes, which `not` switches off, a colour, a background behind
`on`, and a link. -/

namespace StubCatalog.Terminal

/-- What a style can switch on and off, in the order in which it is written. -/
inductive Attribute where
  | bold | dim | italic | underline | blink | blink2 | reverse | conceal | strike | underline2
  | frame | encircle | overline
  deriving DecidableEq, Repr

namespace Attribute

/-- All attributes with the words for them; the first word is the one that is written. -/
def vocabulary : List (Attribute × List String) :=
  [(bold, ["bold", "b"]), (dim, ["dim", "d"]), (italic, ["italic", "i"]),
    (underline, ["underline", "u"]), (blink, ["blink"]), (blink2, ["blink2"]),
    (reverse, ["reverse", "r"]), (conceal, ["conceal", "c"]), (strike, ["strike", "s"]),
    (underline2, ["underline2", "uu"]), (frame, ["frame"]), (encircle, ["encircle"]),
    (overline, ["overline", "o"])]

def ofWord? (word : String) : Option Attribute :=
  (vocabulary.find? fun entry => entry.2.contains word).map (·.1)

end Attribute

structure Style where
  /-- The attributes that are switched on or off; the last switch comes first. -/
  switches : List (Attribute × Bool) := []
  color : Option String := none
  background : Option String := none
  link : Option String := none
  deriving DecidableEq, Repr

namespace Style

def readWords (style : Style) : List String → Except StyleFlaw Style
  | [] => .ok style
  | word :: rest =>
    let lowered := Text.lower word
    if lowered = "on" then
      match rest with
      | color :: rest =>
        match Color.read color with
        | .ok background => readWords { style with background } rest
        | .error flaw => .error flaw
      | [] => .error .unknown
    else if lowered = "not" then
      match rest with
      | name :: rest =>
        match Attribute.ofWord? name with
        | some a => readWords { style with switches := (a, false) :: style.switches } rest
        | none => .error .unknown
      | [] => .error .unknown
    else if lowered = "link" then
      match rest with
      | target :: rest => readWords { style with link := target } rest
      | [] => .error .unknown
    else match Attribute.ofWord? lowered with
      | some a => readWords { style with switches := (a, true) :: style.switches } rest
      | none =>
        match Color.read lowered with
        | .ok color => readWords { style with color } rest
        | .error flaw => .error flaw

def read (text : String) : Except StyleFlaw Style :=
  let words := (Text.words text.toList).map String.ofList
  if words = ["none"] then .ok {} else readWords {} words

def switchText? (style : Style) (entry : Attribute × List String) : Option String :=
  (style.switches.lookup entry.1).map fun isOn =>
    (if isOn then "" else "not ") ++ entry.2.headD ""

def text (style : Style) : String :=
  let parts := Attribute.vocabulary.filterMap style.switchText? ++ style.color.toList
    ++ style.background.toList.map ("on " ++ ·) ++ style.link.toList.map ("link " ++ ·)
  if parts.isEmpty then "none" else Text.joined " " parts

/-- The written form of the style that a text gives; a text that is no style is kept in lower
case. There is none if a number in the text cannot be read. -/
def normalForm? (written : String) : Option String :=
  match read written with
  | .ok style => some style.text
  | .error .unknown => some (Text.lower (Text.trim written))
  | .error .number => none

end Style

end StubCatalog.Terminal
