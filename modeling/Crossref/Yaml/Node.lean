import Crossref.Members

/-! The nodes of a YAML document. Every scalar is a text; an alias names a node with an anchor,
which may be a collection around the alias. The names of members are those that release 2.9.1 of the package yaml
gives. -/

set_option autoImplicit false

namespace Crossref.Yaml

inductive Node where
  /-- The value of a key without a value indicator. -/
  | absent
  | scalar (text : Text)
  /-- A scalar with the tag of merges, which has no text. As a key it stands for the members of the mappings that its
  value lists. -/
  | merge
  | pointer (name : Text) (target : Nat)
  | sequence (items : List Node)
  | mapping (pairs : List (Node × Node))

/-- The content of a text, and the nodes that aliases refer to by number. An empty text has no
content. -/
structure Document where
  content : Option Node
  anchored : List (Nat × Node)

namespace Document

/-- The node that a node stands for. Only an alias stands for another one. -/
def deref (document : Document) : Node → Node
  | .pointer _ target => (List.lookup target document.anchored).getD .absent
  | node => node

end Document

namespace Node

/-- Whether a text can stand in brackets without quotes and is read as itself. -/
def isPlainInFlow (text : Text) : Bool :=
  match text with
  | [] => false
  | first :: rest =>
    let isSafe (c : Char) : Bool :=
      c.isAlphanum || c = '_' || c = '.' || c = '/' || c = '+' || c = '-' || 0x80 ≤ c.toNat
    (first.isAlphanum || first = '_' || first = '.' || first = '/' || first = '+' ||
        0x80 ≤ first.toNat) &&
      rest.all (fun c => isSafe c || c = ' ' || c = '@' || c = '\'') && rest.getLast? ≠ some ' '

/-- The text in double quotes with escapes for quotes, backslashes and line breaks. -/
def quote (text : Text) : Text :=
  let escape (c : Char) : Text :=
    match c with
    | '"' => "\\\""
    | '\\' => "\\\\"
    | '\n' => "\\n"
    | '\r' => "\\r"
    | '\t' => "\\t"
    | _ => [c]
  '"' :: text.flatMap escape ++ ['"']

def isAbsent : Node → Bool
  | absent => true
  | _ => false

/-- A key and its value in flow style; a key without a value stands alone. -/
def pairInFlow (alone : Bool) (key value : Text) : Text :=
  if alone then key else key ++ ": " ++ value

mutual

/-- The flow style of a node, on one line: what a collection is called when it is itself a key. -/
def inFlow : Node → Text
  | absent => []
  | scalar text => if isPlainInFlow text then text else quote text
  | merge => "!!merge <<"
  | pointer name _ => '*' :: name
  | sequence items => if items.isEmpty then "[]" else "[ " ++ Text.join ", " (itemsInFlow items) ++ " ]"
  | mapping pairs =>
    if pairs.isEmpty then "\x7b\x7d" else "\x7b " ++ Text.join ", " (pairsInFlow pairs) ++ " \x7d"

def itemsInFlow : List Node → List Text
  | [] => []
  | node :: rest => inFlow node :: itemsInFlow rest

def pairsInFlow : List (Node × Node) → List Text
  | [] => []
  | (key, value) :: rest =>
    pairInFlow value.isAbsent (inFlow key) (inFlow value) :: pairsInFlow rest

end

end Node

namespace Document

/-- The name of a key: a scalar's text, and the flow style of a collection. -/
def keyName (document : Document) (key : Node) : Text :=
  match document.deref key with
  | .scalar text => text
  | _ => key.inFlow

mutual

/-- Takes up the members of a mapping, in the order in which they are written. -/
def addMembers (document : Document) (found : List (Text × Node)) : List (Node × Node) → List (Text × Node)
  | [] => found
  | (.merge, .sequence sources) :: rest => addMembers document (addMerged document found sources) rest
  | (key, value) :: rest => addMembers document (found ++ [(document.keyName key, document.deref value)]) rest

/-- Takes up the members of merged mappings. A member of a name that was found before is passed over. -/
def addMerged (document : Document) (found : List (Text × Node)) : List Node → List (Text × Node)
  | [] => found
  | .mapping pairs :: rest =>
    let merged := Members.ofList (addMembers document [] pairs)
    addMerged document (found ++ merged.filter fun member => found.all (·.1 ≠ member.1)) rest
  | _ :: rest => addMerged document found rest

end

/-- The members of a mapping by name, in the order in which they are written. -/
def members (document : Document) (pairs : List (Node × Node)) : List (Text × Node) :=
  document.addMembers [] pairs

end Document

end Crossref.Yaml
