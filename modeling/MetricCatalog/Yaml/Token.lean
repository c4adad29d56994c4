import MetricCatalog.Yaml.Char
/-!
# Tokens of a YAML stream

The marks and scalars that a stream is made of, with the starts and ends of
blocks that indentation implies.
-/

namespace MetricCatalog.Yaml

inductive Problem
  | unreadableCharacter
  | simpleKeyWithoutColon
  | misplacedBlockEntry
  | misplacedKey
  | misplacedValue
  | cannotStartToken
  | badDirective
  | badAnchor
  | badTag
  | badBlockHeader
  | tabInIndentation
  | documentMarkInScalar
  | unterminatedScalar
  | badEscape
  | ambiguousColon
  | expectedDocumentStart
  | expectedContent
  | expectedBlockEntry
  | expectedBlockKey
  | expectedFlowSeparator
  | duplicateDirective
  | unsupportedVersion
  | unknownTagHandle
  | unknownAlias
  | tooLong
deriving DecidableEq

namespace Problem

def message : Problem → String
  | unreadableCharacter => "control characters are not allowed"
  | simpleKeyWithoutColon => "a key is not followed by a colon"
  | misplacedBlockEntry => "a block sequence entry is not allowed here"
  | misplacedKey => "a mapping key is not allowed here"
  | misplacedValue => "a mapping value is not allowed here"
  | cannotStartToken => "a character cannot start any token"
  | badDirective => "malformed directive"
  | badAnchor => "malformed anchor or alias"
  | badTag => "malformed tag"
  | badBlockHeader => "malformed block scalar header"
  | tabInIndentation => "a tab stands where indentation is expected"
  | documentMarkInScalar => "a document mark stands inside a quoted scalar"
  | unterminatedScalar => "a quoted scalar is not closed"
  | badEscape => "malformed escape"
  | ambiguousColon => "a colon in a flow collection is ambiguous"
  | expectedDocumentStart => "expected the start of a document"
  | expectedContent => "expected a node"
  | expectedBlockEntry => "expected a block sequence entry"
  | expectedBlockKey => "expected a block mapping key"
  | expectedFlowSeparator => "expected a comma or the end of a flow collection"
  | duplicateDirective => "a directive occurs twice"
  | unsupportedVersion => "unsupported YAML version"
  | unknownTagHandle => "a tag handle is not declared"
  | unknownAlias => "an alias has no anchor"
  | tooLong => "the stream does not end"

end Problem

inductive Token
  | versionDirective (major minor : Nat)
  | tagDirective (handle : String) (lead : List UInt8)
  | documentStart
  | documentEnd
  | blockSequenceStart
  | blockMappingStart
  | blockEnd
  | flowSequenceStart
  | flowSequenceEnd
  | flowMappingStart
  | flowMappingEnd
  | blockEntry
  | flowEntry
  | key
  | value
  | aliasTo (name : String)
  | anchor (name : String)
  /-- The suffix is in bytes, because escapes may spell any. -/
  | tag (handle : String) (suffix : List UInt8)
  | scalar (style : Style) (text : String)
deriving DecidableEq

end MetricCatalog.Yaml
