import StubCatalog.Decimal.Layout
import StubCatalog.Text.Quoted

/-! # JSON values

Integers have no bound and are told apart from numbers with a fraction or an exponent; the fields of
an object keep their order. -/

namespace StubCatalog

inductive Json where
  | null
  | bool (value : Bool)
  | int (value : Int)
  | float (value : Double)
  | str (value : String)
  | arr (items : List Json)
  | obj (fields : List (String × Json))
  deriving Inhabited

namespace Json

def field? : Json → String → Option Json
  | .obj fields, key => fields.lookup key
  | _, _ => none

def str? : Json → Option String
  | .str s => some s
  | _ => none

def ofText? : Option String → Json
  | some s => .str s
  | none => .null

mutual

def shown : Json → String
  | .null => "None"
  | .bool true => "True"
  | .bool false => "False"
  | .int n => toString n
  | .float d => d.text
  | .str s => Text.quoted s
  | .arr items => "[" ++ shownItems items ++ "]"
  | .obj fields => "\x7b" ++ shownFields fields ++ "\x7d"

def shownItems : List Json → String
  | [] => ""
  | [item] => item.shown
  | item :: items => item.shown ++ ", " ++ shownItems items

def shownFields : List (String × Json) → String
  | [] => ""
  | [(key, value)] => Text.quoted key ++ ": " ++ value.shown
  | (key, value) :: fields =>
    Text.quoted key ++ ": " ++ value.shown ++ ", " ++ shownFields fields

end

def kindName : Json → String
  | .null => "NoneType"
  | .bool _ => "bool"
  | .int _ => "int"
  | .float _ => "float"
  | .str _ => "str"
  | .arr _ => "list"
  | .obj _ => "dict"

end Json

end StubCatalog
