/-
What makes a text no YAML document.
-/

namespace ChangeImpact.Yaml

inductive Fault where
  | strayToken
  | missingSpace
  | tabIndent
  | badIndent
  | repeatedProperty
  | propertyOrder
  | badTag
  | badDirective
  | missingStart
  | severalDocuments
  | strayEnd
  | emptyAlias
  | aliasProperties
  | unknownAlias
  | tooManyAliases
  | unclosedQuote
  | unclosedFlow
  | badEscape
  | badStart
  | blockHeader
  | blockIndent
  | missingComma
  | strayComma
  | missingColon
  | missingDash
  | blockKey
  | multilineKey
  | longKey
  | repeatedKey
  | nestedMapping
  | blockInFlow
  | sequenceAfterKey
  | contentAfterComment
  deriving DecidableEq, Repr

def Fault.message : Fault → String
  | strayToken => "A token stands where none of its kind may stand."
  | missingSpace => "White space is missing between two tokens."
  | tabIndent => "Tabs are not allowed as indentation."
  | badIndent => "The indentation does not fit the collection."
  | repeatedProperty => "A node can have at most one anchor and one tag."
  | propertyOrder => "Anchors and tags must come after the indicator."
  | badTag => "The tag cannot be resolved."
  | badDirective => "The directive is malformed."
  | missingStart => "Directives must end with a document start."
  | severalDocuments => "The text holds more than one document."
  | strayEnd => "A document end has no document."
  | emptyAlias => "Anchors and aliases need a name."
  | aliasProperties => "An alias cannot have an anchor or a tag."
  | unknownAlias => "An alias comes before its anchor."
  | tooManyAliases => "The aliases stand for too much."
  | unclosedQuote => "A closing quote is missing."
  | unclosedFlow => "A closing bracket is missing."
  | badEscape => "The escape sequence is unknown."
  | badStart => "A plain scalar cannot start with this character."
  | blockHeader => "The block scalar's header is malformed."
  | blockIndent => "The block scalar is not indented enough."
  | missingComma => "A comma is missing between two items."
  | strayComma => "A comma has no item before it."
  | missingColon => "A key is not followed by a value."
  | missingDash => "A sequence item has no indicator."
  | blockKey => "A block sequence cannot be an implicit key."
  | multilineKey => "An implicit key must be on one line."
  | longKey => "An implicit key is too long."
  | repeatedKey => "A mapping has a key twice."
  | nestedMapping => "A mapping cannot start on the line of its key."
  | blockInFlow => "A block collection cannot be inside a flow collection."
  | sequenceAfterKey => "A sequence cannot start on the line of its key."
  | contentAfterComment => "A mapping goes on after its last comment."

end ChangeImpact.Yaml
