import Notebook.Yaml.Tag

/-! The tokens of a YAML document. -/
namespace Notebook.Yaml

/-- A token. Starts and ends of block collections are implied by indentation. -/
inductive Token where
  | version (major minor : Nat)
  | tagDirective (handle : String) (start : TagBytes)
  | documentStart
  | documentEnd
  | blockSequenceStart
  | blockMappingStart
  | blockEnd
  | flowSequenceStart
  | flowSequenceEnd
  | flowMappingStart
  | flowMappingEnd
  | blockEntry
  | flowEntry
  | key
  | value
  | reference (name : String)
  | anchor (name : String)
  | tag (handle : String) (suffix : TagBytes)
  | scalar (text : String) (isPlain : Bool)
  | streamEnd
deriving Repr, DecidableEq

end Notebook.Yaml
