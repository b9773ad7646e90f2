/-! What tags mean. -/
namespace Notebook.Yaml

/-- The bytes of a tag. Percent signs can write bytes that make no text. -/
abbrev TagBytes := List UInt8

/-- What a tag means for the value it stands before. -/
inductive Tag where
  | bool
  | int
  | float
  | null
  /-- A local tag, which marks the value with its name. -/
  | mark (name : String)
  /-- A local tag that is no text. It means nothing. -/
  | illegible
  /-- Any other tag. It makes a scalar a string. -/
  | foreign
deriving Repr, DecidableEq

namespace Tag

def coreStart : String :=
  "tag:yaml.org,2002:"

/-- The name by which a local tag marks a value, from the text after its exclamation mark. A second
mark is dropped, and the lone mark is named `!!`. -/
def markName : List Char → String
  | [] => "!!"
  | ['!'] => "!!"
  | '!' :: name => "!" ++ String.ofList name
  | name => "!" ++ String.ofList name

def ofText (text : String) : Tag :=
  match text.toList with
  | '!' :: name => mark (markName name)
  | _ =>
    if text = coreStart ++ "bool" then bool
    else if text = coreStart ++ "int" then int
    else if text = coreStart ++ "float" then float
    else if text = coreStart ++ "null" then null
    else foreign

def ofBytes (bytes : TagBytes) : Tag :=
  match String.fromUTF8? ⟨bytes.toArray⟩ with
  | some text => ofText text
  | none => if bytes.head? = some 0x21 then illegible else foreign

end Tag

end Notebook.Yaml
