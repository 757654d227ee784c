import ElmSuite.Yaml.ScalarFault

/-!
Why a text is no YAML document of plain data.
-/

namespace ElmSuite.Yaml

/-- Why a text is no YAML document of plain data. -/
inductive Defect
  | unprintable
  | noToken
  | noColon
  | misplacedEntry
  | misplacedKey
  | misplacedValue
  | directive
  | anchorName
  | tag
  | blockHeader
  | escape
  | unclosedQuote
  | badStructure
  | unknownHandle
  | duplicateAnchor
  | unknownAlias
  | severalDocuments
  | unknownTag
  | wrongNode
  | unhashableKey
  /-- A scalar has no value. -/
  | badScalar (fault : ScalarFault)
deriving DecidableEq, Repr

/-- The words for a defect. -/
def Defect.message : Defect → String
  | .unprintable => "a character is not allowed"
  | .noToken => "found a character that cannot start any token"
  | .noColon => "could not find an expected ':'"
  | .misplacedEntry => "sequence entries are not allowed here"
  | .misplacedKey => "mapping keys are not allowed here"
  | .misplacedValue => "mapping values are not allowed here"
  | .directive => "a directive is malformed"
  | .anchorName => "an anchor or alias is malformed"
  | .tag => "a tag is malformed"
  | .blockHeader => "the header of a block scalar is malformed"
  | .escape => "found an unknown escape"
  | .unclosedQuote => "a quoted scalar is not closed"
  | .badStructure => "the tokens do not form a document"
  | .unknownHandle => "found an undefined tag handle"
  | .duplicateAnchor => "found a duplicate anchor"
  | .unknownAlias => "found an undefined alias"
  | .severalDocuments => "expected a single document"
  | .unknownTag => "could not find a constructor for a tag"
  | .wrongNode => "found a node of another kind than its tag"
  | .unhashableKey => "found an unhashable key"
  | .badScalar fault => fault.message

end ElmSuite.Yaml
