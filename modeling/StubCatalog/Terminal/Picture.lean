import StubCatalog.Terminal.PictureNames
import StubCatalog.Text.Lowercase

/-! # Pictures written by name

A name between two colons stands for a picture; `-emoji` behind it asks for the coloured picture and
`-text` for the plain sign. -/

namespace StubCatalog.Terminal

def pictureForms : List (List Char × Char) :=
  [("-emoji".toList, '\ufe0f'), ("-text".toList, '\ufe0e')]

def pictureForm (code : List Char) : List Char × List Char :=
  (pictureForms.findSome? fun (ending, form) =>
    (Text.dropEnd? ending code).map fun name => (name, [form])).getD (code, [])

def shownPicture (code : List Char) : List Char :=
  let (name, form) := pictureForm code
  match picture? (Text.lower (String.ofList name)) with
  | some picture => picture ++ form
  | none => ':' :: code ++ [':']

/-- Puts pictures in the place of their names, given the texts that stand behind a colon each. A
colon that closes a name opens none. -/
def joinPictures : List (List Char) → List Char
  | [] => []
  | [last] => ':' :: last
  | code :: next :: rest =>
    if code.any Text.isBlank then ':' :: code ++ joinPictures (next :: rest)
    else shownPicture code ++ next ++ joinPictures rest

def withPictures (text : List Char) : List Char :=
  match Text.fields ':' text with
  | [] => []
  | first :: rest => first ++ joinPictures rest

end StubCatalog.Terminal
