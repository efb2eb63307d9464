import Crossref.Members
import Crossref.Text.LowerCase
import Crossref.Yaml.Composition

/-! What a component descriptor says: the name, version and title of its component, and attributes
for all of the component's documents. -/

set_option autoImplicit false

namespace Crossref

structure DescriptorContent where
  name : Option Text
  version : Option Text
  title : Option Text
  attributes : List (Text × Text)
deriving DecidableEq

inductive DescriptorError where
  | yaml (fault : Yaml.Fault)
  | notMapping
deriving DecidableEq

def DescriptorError.message : DescriptorError → Text
  | .yaml fault => fault.message
  | .notMapping => "descriptor is not a mapping"

namespace DescriptorContent

/-- A descriptor that says nothing. -/
def empty : DescriptorContent := ⟨none, none, none, []⟩

/-- The spellings of "no value". Every other scalar is the text it spells. -/
def nullSpellings : List Text := ["", "~", "null", "Null", "NULL"]

def scalar? : Yaml.Node → Option Text
  | .scalar text => if nullSpellings.contains text then none else some text
  | _ => none

/-- The members of a mapping by name; other nodes have none. -/
def members (document : Yaml.Document) (node : Yaml.Node) : List (Text × Yaml.Node) :=
  match document.deref node with
  | .mapping pairs => Members.listed (Members.ofList (document.members pairs))
  | _ => []

/-- The value of an attribute. A missing value and `false` set nothing, and one `@` at the end only
says that documents may set the attribute anew. -/
def attributeValue? (node : Yaml.Node) : Option Text :=
  match scalar? node with
  | none => none
  | some value =>
    if value = "false" then none else some ((Text.before? "@" value).getD value)

def reservedName : Text := "__proto__"

/-- The attributes of a mapping, with lower-cased names. -/
def readAttributes (members : List (Text × Yaml.Node)) : List (Text × Text) :=
  let settings := members.filterMap fun (name, node) =>
    (attributeValue? node).map fun value => (Text.lower name, value)
  Members.listed (Members.ofList (settings.filter fun setting => setting.1 ≠ reservedName))

def ofMembers (document : Yaml.Document) (top : List (Text × Yaml.Node)) : DescriptorContent :=
  let text? (name : Text) : Option Text := (Members.get? name top).bind scalar?
  let asciidoc := ((Members.get? "asciidoc" top).map (members document)).getD []
  let attributes := ((Members.get? "attributes" asciidoc).map (members document)).getD []
  ⟨text? "name", text? "version", text? "title", readAttributes attributes⟩

/-- Reads a descriptor. An empty text is an empty descriptor. -/
def ofText (text : Text) : Except DescriptorError DescriptorContent :=
  match Yaml.read text with
  | .error fault => .error (.yaml fault)
  | .ok document =>
    match document.content with
    | none => .ok empty
    | some node =>
      match document.deref node with
      | .mapping _ => .ok (ofMembers document (members document node))
      | _ => .error .notMapping

end DescriptorContent

end Crossref
