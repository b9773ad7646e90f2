/-! Why a text is not a YAML document with one value. -/
namespace Notebook.Yaml

inductive Error where
  | controlCharacter
  | unexpectedCharacter
  | tabIndentation
  | badDirective
  | badTag
  | undefinedTagHandle
  | badAnchor
  | unknownAnchor
  | badBlockHeader
  | unterminatedQuote
  | badEscape
  | documentMarkerInQuote
  | unexpectedColon
  | misplacedIndicator
  | missingColon
  | missingNode
  | missingSeparator
  | missingKey
  | missingEntry
  | missingDocumentStart
  | severalDocuments
  | tooDeep
  | tooManyAliases
  | duplicateKey
  | mistaggedScalar
  | integerOutOfRange
deriving Repr, DecidableEq

def Error.message : Error → String
  | controlCharacter => "control characters are not allowed"
  | unexpectedCharacter => "found a character that cannot start any token"
  | tabIndentation => "found a tab where indentation was expected"
  | badDirective => "found a malformed directive"
  | badTag => "found a malformed tag"
  | undefinedTagHandle => "found an undefined tag handle"
  | badAnchor => "found a malformed anchor or alias"
  | unknownAnchor => "found an alias of an unknown anchor"
  | badBlockHeader => "found a malformed block scalar header"
  | unterminatedQuote => "found the end of the text inside quotes"
  | badEscape => "found an unknown escape"
  | documentMarkerInQuote => "found a document marker inside quotes"
  | unexpectedColon => "found an unexpected colon"
  | misplacedIndicator => "found an indicator that is not allowed here"
  | missingColon => "could not find the colon after a key"
  | missingNode => "did not find a value"
  | missingSeparator => "did not find a comma or a closing bracket"
  | missingKey => "did not find a key"
  | missingEntry => "did not find a sequence entry"
  | missingDocumentStart => "did not find the start of a document"
  | severalDocuments => "found more than one document"
  | tooDeep => "collections are nested too deeply"
  | tooManyAliases => "aliases repeat too much"
  | duplicateKey => "found a key twice in one mapping"
  | mistaggedScalar => "found a scalar that its tag does not allow"
  | integerOutOfRange => "found an integer out of range"

end Notebook.Yaml
