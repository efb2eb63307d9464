import Crossref.Text

/-! Why a YAML text is refused. The package yaml refuses the same texts in release 2.9.1, with messages of its own. -/

set_option autoImplicit false

namespace Crossref.Yaml

inductive Fault where
  | misplacedToken
  | missingBlank
  | missingSeparator
  | missingValue
  | missingItemMark
  | missingDocumentStart
  | documentEndAlone
  | severalDocuments
  | indentation
  | tabIndentation
  | multilineKey
  | longKey
  | blockKey
  | blockInFlow
  | unclosedFlow
  | unclosedQuote
  | scalarStart
  | escape
  | blockHeader
  | duplicateKey
  | repeatedProperty
  | propertyOrder
  | emptyAnchor
  | aliasProperties
  | unknownAlias
  | aliasExcess
  | tag
  | merge
  | directive
deriving DecidableEq

def Fault.message : Fault → Text
  | .misplacedToken => "a token has no place here"
  | .missingBlank => "tokens must be separated by white space"
  | .missingSeparator => "entries must be separated"
  | .missingValue => "an implicit key must be followed by a value"
  | .missingItemMark => "a list item must begin with a hyphen"
  | .missingDocumentStart => "directives must be followed by a document start"
  | .documentEndAlone => "a document end must follow a document"
  | .severalDocuments => "the text holds several documents"
  | .indentation => "the indentation is wrong"
  | .tabIndentation => "tabs are not indentation"
  | .multilineKey => "an implicit key must be on one line"
  | .longKey => "an implicit key must be at most 1024 characters long"
  | .blockKey => "a block collection must not start on the line of a key"
  | .blockInFlow => "a block collection must not be inside brackets"
  | .unclosedFlow => "a collection in brackets must be closed and sufficiently indented"
  | .unclosedQuote => "a quote must be closed"
  | .scalarStart => "a plain scalar must not start with an indicator"
  | .escape => "an escape sequence is invalid"
  | .blockHeader => "the header of a block scalar is invalid"
  | .duplicateKey => "keys must be unique"
  | .repeatedProperty => "a node has at most one anchor and one tag"
  | .propertyOrder => "anchors and tags must follow the indicator"
  | .emptyAnchor => "an anchor must have a name"
  | .aliasProperties => "an alias has no anchor and no tag"
  | .unknownAlias => "an anchor must be set before its alias"
  | .aliasExcess => "aliases are resolved too often"
  | .tag => "a tag is invalid"
  | .merge => "only mappings can be merged"
  | .directive => "a directive is invalid"

end Crossref.Yaml
