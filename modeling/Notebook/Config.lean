import Notebook.Error
import Notebook.Json.Reader

/-! The configuration of generated modules. -/
namespace Notebook

/-- What generated names and addresses are made of. -/
structure Config where
  defineStem : String := "define"
  rawBaseUrl : String := "https://github.com"
  /-- The revision of a resource that names none. -/
  defaultRevision : String := "main"
deriving Repr, DecidableEq

namespace Config

def isNameStart (c : Char) : Bool :=
  c.isAlpha || c == '_' || c == '$'

def isValid (config : Config) : Bool :=
  match config.defineStem.toList with
  | [] => false
  | c :: cs => isNameStart c && cs.all fun c => isNameStart c || c.isDigit

def validate (config : Config) : Except Error Unit :=
  if config.isValid then .ok () else .error (.config (.badStem config.defineStem))

def text? : Json.Raw → Option String
  | .string text => text
  | _ => none

/-- The configuration whose fields are members of an object. A key occurs once at most; keys of no
field are ignored. -/
def ofMembers? (members : List (Option String × Json.Raw)) : Option Config :=
  let value? (key default : String) : Option String :=
    match members.filter (·.1 == some key) with
    | [] => some default
    | [(_, raw)] => text? raw
    | _ => none
  if members.any (·.1.isNone) then none
  else do
    let stem ← value? "define_prefix" ({} : Config).defineStem
    let url ← value? "raw_base_url" ({} : Config).rawBaseUrl
    let revision ← value? "default_ref" ({} : Config).defaultRevision
    return ⟨stem, url, revision⟩

/-- The configuration whose fields are the items of an array, the last ones of which may be
missing. -/
def ofItems? (items : List Json.Raw) : Option Config := do
  let default : Config := {}
  match ← items.mapM text? with
  | [] => return default
  | [stem] => return { default with defineStem := stem }
  | [stem, url] => return { default with defineStem := stem, rawBaseUrl := url }
  | [stem, url, revision] => return ⟨stem, url, revision⟩
  | _ => none

def ofJson (text : String) : Except Error Config := do
  let config? := match Json.Raw.read? text.toList with
    | some (.object members) => ofMembers? members
    | some (.array items) => ofItems? items
    | _ => none
  match config? with
  | none => .error (.config .malformed)
  | some config =>
    config.validate
    return config

/-- The address of the raw content of `origin`, a path relative to a resource. -/
def rawUrl (config : Config) (resource : Resource) (origin : String) : String :=
  let target := resource.join origin
  let base := (config.rawBaseUrl.toList.reverse.dropWhile (· == '/')).reverse
  String.ofList base ++ "/" ++ target.owner ++ "/" ++ target.repo ++ "/blob/" ++
    target.revision.getD config.defaultRevision ++ "/" ++ target.path ++ "?raw=true"

end Config

end Notebook
