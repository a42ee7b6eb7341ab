import StubCatalog.Decimal.Numeral
import StubCatalog.Json.Basic

/-! # Writing JSON

JSON text on one line, or with one part per line. A value can be written if none of its integers has
too many digits. -/

namespace StubCatalog.Json

def charText (c : Char) : List Char :=
  if c == '"' then ['\\', '"']
  else if c == '\\' then ['\\', '\\']
  else if c == '\n' then ['\\', 'n']
  else if c == '\r' then ['\\', 'r']
  else if c == '\t' then ['\\', 't']
  else if c == '\x08' then ['\\', 'b']
  else if c == '\x0c' then ['\\', 'f']
  else if c.toNat < 32 then '\\' :: 'u' :: Text.hex 4 c.toNat
  else match Text.halfCode? c with
    | some n => '\\' :: 'u' :: Text.hex 4 n
    | none => [c]

def stringText (s : String) : String :=
  String.ofList ('"' :: s.toList.flatMap charText ++ ['"'])

/-- A JSON number with a fraction, or a word for a number that JSON has not. -/
def floatText : Double → String
  | .nan => "NaN"
  | .infinite negative => if negative then "-Infinity" else "Infinity"
  | d => d.text

mutual

def compact : Json → String
  | .null => "null"
  | .bool true => "true"
  | .bool false => "false"
  | .int n => toString n
  | .float d => floatText d
  | .str s => stringText s
  | .arr items => "[" ++ compactItems items ++ "]"
  | .obj fields => "\x7b" ++ compactFields fields ++ "\x7d"

def compactItems : List Json → String
  | [] => ""
  | [item] => item.compact
  | item :: items => item.compact ++ ", " ++ compactItems items

def compactFields : List (String × Json) → String
  | [] => ""
  | [(key, value)] => stringText key ++ ": " ++ value.compact
  | (key, value) :: fields =>
    stringText key ++ ": " ++ value.compact ++ ", " ++ compactFields fields

end

def newLine (level : Nat) : String := "\n" ++ String.ofList (List.replicate (2 * level) ' ')

mutual

def pretty (level : Nat) : Json → String
  | .arr [] => "[]"
  | .arr items => "[" ++ prettyItems (level + 1) items ++ newLine level ++ "]"
  | .obj [] => "\x7b\x7d"
  | .obj fields => "\x7b" ++ prettyFields (level + 1) fields ++ newLine level ++ "\x7d"
  | .null => "null"
  | .bool true => "true"
  | .bool false => "false"
  | .int n => toString n
  | .float d => floatText d
  | .str s => stringText s

def prettyItems (level : Nat) : List Json → String
  | [] => ""
  | [item] => newLine level ++ item.pretty level
  | item :: items => newLine level ++ item.pretty level ++ "," ++ prettyItems level items

def prettyFields (level : Nat) : List (String × Json) → String
  | [] => ""
  | [(key, value)] => newLine level ++ stringText key ++ ": " ++ value.pretty level
  | (key, value) :: fields =>
    newLine level ++ stringText key ++ ": " ++ value.pretty level ++ ","
      ++ prettyFields level fields

end

mutual

def isWritable : Json → Bool
  | .int n => Numeral.isWritable n
  | .arr items => areItemsWritable items
  | .obj fields => areFieldsWritable fields
  | _ => true

def areItemsWritable : List Json → Bool
  | [] => true
  | item :: items => item.isWritable && areItemsWritable items

def areFieldsWritable : List (String × Json) → Bool
  | [] => true
  | (_, value) :: fields => value.isWritable && areFieldsWritable fields

end

def written (j : Json) : Except Numeral.Error Json :=
  if j.isWritable then .ok j else .error .unwritable

end StubCatalog.Json
