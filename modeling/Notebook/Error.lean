import Notebook.Resource
import Notebook.Yaml.Error

/-! Why a document cannot be compiled. -/
namespace Notebook

inductive Failure where
  | notFound (what : String)
  | io (text : String)
  | other (text : String)
deriving Repr, DecidableEq

def Failure.message : Failure → String
  | notFound what => "not found: " ++ what
  | io text => "I/O error: " ++ text
  | other text => text

inductive ConfigFault where
  | malformed
  | badStem (stem : String)
  | unreadable (path reason : String)
deriving Repr, DecidableEq

def ConfigFault.message : ConfigFault → String
  | malformed => "not a configuration object"
  | badStem stem => "`" ++ stem ++ "` is not a valid function name prefix"
  | unreadable path reason => "failed to read " ++ path ++ ": " ++ reason

inductive Error where
  | unknownChunkType (type : String)
  | importSyntax (line : String)
  | resolution (specifier : String) (cause : Failure)
  | fetch (resource : Resource) (cause : Failure)
  | frontmatter (cause : Yaml.Error)
  | frontmatterKind (found : String)
  | config (fault : ConfigFault)
deriving Repr, DecidableEq

namespace Error

def message : Error → String
  | unknownChunkType type => "unknown chunk type `" ++ type ++ "`"
  | importSyntax line => "malformed import line `" ++ line ++ "`"
  | resolution specifier cause =>
    "failed to resolve module `" ++ specifier ++ "`: " ++ cause.message
  | fetch resource cause => "failed to fetch " ++ resource.text ++ ": " ++ cause.message
  | frontmatter cause => "frontmatter error: " ++ cause.message
  | frontmatterKind found => "frontmatter must be a mapping, found " ++ found
  | config fault => "configuration error: " ++ fault.message

def hint : Error → String
  | unknownChunkType _ => "supported chunk types are md, html, js (or javascript) and imports"
  | importSyntax _ =>
    "use `\x7b name [as alias] \x7d from <module>` or `<alias> load <path>`"
  | resolution _ _ => "check that the imported module exists relative to the document"
  | fetch _ _ => "check that the document is readable from the content source"
  | frontmatter _ | frontmatterKind _ =>
    "the block between the leading `---` lines must be a YAML mapping"
  | config _ => "check the configuration file and command-line overrides"

def hintLine (e : Error) : String :=
  "\n  hint: " ++ e.hint

def report (e : Error) : String :=
  e.message ++ e.hintLine

end Error

end Notebook
