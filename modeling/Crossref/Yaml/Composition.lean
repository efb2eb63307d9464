import Crossref.Yaml.Directive
import Crossref.Yaml.Node
import Crossref.Yaml.Properties
import Crossref.Yaml.Scalar

/-! Reading a YAML text, as the package yaml reads it in release 2.9.1 with its failsafe schema. Every scalar is the
text it spells, whatever it looks like; tags other than a few for special values are passed over. -/

set_option autoImplicit false

namespace Crossref.Yaml

/-- The anchors of a document so far: by name with the latest first, and the finished nodes. -/
structure Anchors where
  names : List (Text × Nat)
  nodes : List (Nat × Node)

/-- The node that a node stands for, if it is finished. A collection around an alias is not. -/
def Anchors.finished? (anchors : Anchors) : Node → Option Node
  | .pointer _ target => List.lookup target anchors.nodes
  | node => some node

abbrev Compose (α : Type) := StateT Anchors (Except Fault) α

namespace Compose

/-- Numbers the anchor of a node before the node is composed, so that it can hold its own alias. -/
def anchored (properties : Properties) (compose : Compose Node) : Compose Node := do
  match properties.anchor with
  | none => compose
  | some mark =>
    let name := mark.source.drop 1
    if name.isEmpty then throw .emptyAnchor
    let before ← get
    let number := before.names.length
    set { before with names := (name, number) :: before.names }
    let node ← compose
    modify fun anchors => { anchors with nodes := (number, node) :: anchors.nodes }
    return node

/-- The node of a scalar's text. Special values have no text: dates and binary data look like a
mapping without members. -/
def taggedScalar (directives : Directives) (tag : Option Mark) (text : Text) : Except Fault Node :=
  match tag with
  | none => .ok (.scalar text)
  | some mark => do
    match ← directives.specialTag? mark.source with
    | some .binary => return .mapping []
    | some .timestamp => if isTimestamp text then return .mapping [] else throw .tag
    | some .merge => return .merge
    | _ => return .scalar text

/-- A mapping that is merged into another one. -/
def mergedMapping (anchors : Anchors) (node : Node) : Except Fault Node :=
  match anchors.finished? node with
  | some (.mapping pairs) => .ok (.mapping pairs)
  | _ => .error .merge

/-- The mappings that the value of a merge names: one, or those of a list. -/
def mergedMappings (anchors : Anchors) (value : Node) : Except Fault (List Node) :=
  match anchors.finished? value with
  | some (.sequence items) => items.mapM (mergedMapping anchors)
  | _ => (mergedMapping anchors value).map ([·])

/-- A key and its value, which is for a merge the list of the mappings that it names. -/
def member (key value : Node) : Compose (Node × Node) := do
  match key with
  | .merge => return (key, .sequence (← mergedMappings (← get) value))
  | _ => return (key, value)

/-- Whether a mapping holds a scalar key of the same text. -/
def holdsKey (pairs : List (Node × Node)) (key : Node) : Bool :=
  match key with
  | .scalar text => pairs.any fun
    | (.scalar other, _) => other = text
    | _ => false
  | _ => false

/-- What a tag makes of a mapping. A set has keys only and looks like a mapping without members. -/
def taggedMapping (directives : Directives) (tag : Option Mark) (pairs : List (Node × Node)) :
    Except Fault Node :=
  match tag with
  | none => .ok (.mapping pairs)
  | some mark => do
    if (← directives.specialTag? mark.source) = some .set then
      if pairs.all fun pair => pair.2.isAbsent then return .mapping [] else throw .tag
    else return .mapping pairs

/-- What a tag makes of a list. Pairs are mappings of one member, and an ordered mapping has no
member twice. -/
def taggedSequence (directives : Directives) (tag : Option Mark) (items : List Node) :
    Except Fault Node :=
  match tag with
  | none => .ok (.sequence items)
  | some mark => do
    let isPair (item : Node) : Bool :=
      match item with
      | .mapping (_ :: _ :: _) => false
      | _ => true
    let keys := items.flatMap fun
      | .mapping pairs => pairs.filterMap fun
        | (.scalar text, _) => some text
        | _ => none
      | _ => []
    match ← directives.specialTag? mark.source with
    | some .pairs => if items.all isPair then return .sequence [] else throw .tag
    | some .orderedMap =>
      if items.all isPair && keys.eraseDups.length = keys.length then return .mapping []
      else throw .tag
    | _ => return .sequence items

def empty (directives : Directives) (properties : Properties) : Compose Node :=
  anchored properties (taggedScalar directives properties.tag [])

/-- How far apart an implicit key and its indicator may be. -/
def keyLimit : Nat := 1024

/-- Whether a token stands too far behind the start of its implicit key. -/
def isFar (properties : Properties) (key : Option Form) (mark : Mark) : Bool :=
  match properties.offset?.orElse (fun _ => key.bind Form.offset?) with
  | some offset => offset + keyLimit < mark.offset
  | none => false

/-- The node of a form, at most `depth` collections deep. -/
def node (directives : Directives) : Nat → Bool → Form → Properties → Compose Node
  | 0, _, _, _ => throw .misplacedToken
  | depth + 1, atRoot, form, properties =>
    let optional (form : Option Form) (properties : Properties) : Compose Node :=
      match form with
      | some form => node directives depth false form properties
      | none => empty directives properties
    match form with
    | .flat mark tail =>
      match mark.kind with
      | .pointer => do
        let name := mark.source.drop 1
        if name.isEmpty then throw .emptyAnchor
        checkTail true tail
        if properties.isNode then throw .aliasProperties
        match List.lookup name (← get).names with
        | some target => return .pointer name target
        | none => throw .unknownAlias
      | kind => anchored properties do
        let text ← match kind with
          | .singleQuoted => Scalar.singleQuoted mark.source
          | .doubleQuoted => Scalar.doubleQuoted mark.source
          | _ => Scalar.plain mark.source
        checkTail true tail
        taggedScalar directives properties.tag text
    | .block header source indent => anchored properties do
      let first := header.head?.map (·.source)
      let parsed ← Scalar.blockHeader (first.getD [])
      checkTail true (header.drop 1)
      let text ← Scalar.block parsed atRoot indent source
      taggedScalar directives properties.tag text
    | .mapping indent items => anchored properties do
      let mut pairs : List (Node × Node) := []
      for item in items do
        let front ← Properties.read ⟨.keyMark, false, indent, true⟩
          ((item.key.map Successor.ofForm).orElse fun _ =>
            (item.separator.bind List.head?).map Successor.ofMark) item.start
        let implicit := front.indicator.isNone
        if implicit then
          if item.key.any (·.isSequence) then throw .blockKey
          if item.key.any (·.indentation ≠ indent) then throw .indentation
          if !front.isNode && item.separator.isNone then continue
          if front.newlineBehind.isSome || item.key.any (·.spansLines depth) then throw .multilineKey
        else if front.indicator.any (·.indent ≠ indent) then throw .indentation
        let key ← optional item.key front
        if holdsKey pairs key then throw .duplicateKey
        let middle ← Properties.read
          ⟨.valueMark, false, indent, item.key.all (·.isBlockScalar)⟩
          (item.value.map Successor.ofForm) (item.separator.getD [])
        match middle.indicator with
        | some mark =>
          if implicit then
            if item.value.any (·.isMapping) && !middle.hasNewline then throw .blockKey
            if isFar front item.key mark then throw .longKey
          let value ← optional item.value middle
          pairs := pairs ++ [← member key value]
        | none =>
          if implicit then throw .missingValue
          pairs := pairs ++ [← member key .absent]
      taggedMapping directives properties.tag pairs
    | .sequence indent items => do
      match properties.anchor, properties.tag with
      | none, none => pure ()
      | anchor?, tag? =>
        let last := max ((anchor?.map (·.offset)).getD 0) ((tag?.map (·.offset)).getD 0)
        if properties.newlineBehind.all (·.offset < last) then throw .missingBlank
      anchored properties do
        let mut nodes : List Node := []
        for item in items do
          let front ← Properties.read ⟨.itemMark, false, indent, true⟩
            (item.value.map Successor.ofForm) item.start
          if front.indicator.isNone then
            if front.isNode || item.value.isSome then
              if item.value.any (·.isSequence) then throw .indentation
              throw .missingItemMark
            continue
          let found ← optional item.value front
          nodes := nodes ++ [found]
        taggedSequence directives properties.tag nodes
    | .flow opening _ items tail => anchored properties do
      let isMap := opening.kind = .mapOpen
      let mut pairs : List (Node × Node) := []
      let mut nodes : List Node := []
      for (item, index) in items.zipIdx do
        let front ← Properties.read ⟨.keyMark, true, 0, false⟩
          ((item.key.map Successor.ofForm).orElse fun _ =>
            (item.separator.bind List.head?).map Successor.ofMark) item.start
        if front.indicator.isNone then
          if !front.isNode && item.separator.isNone && item.value.isNone then
            if index = 0 && front.comma.isSome then throw .misplacedToken
            if index + 1 < items.length then throw .misplacedToken
            continue
          if !isMap && item.key.any (·.spansLines depth) then throw .multilineKey
        if index = 0 then
          if front.comma.isSome then throw .misplacedToken
        else if front.comma.isNone then throw .missingSeparator
        if item.value.any (·.isBlockCollection) || item.key.any (·.isBlockCollection) then
          throw .blockInFlow
        if !isMap && item.separator.isNone && front.indicator.isNone then
          let found ← optional item.value front
          nodes := nodes ++ [found]
        else
          let separator := item.separator.getD []
          let key ← optional item.key front
          let middle ← Properties.read ⟨.valueMark, true, 0, false⟩
            (item.value.map Successor.ofForm) separator
          match middle.indicator with
          | some mark =>
            if !isMap && front.indicator.isNone then
              if hasKind .newline (separator.takeWhile (·.kind ≠ .valueMark)) then
                throw .multilineKey
              if isFar front item.key mark then throw .longKey
          | none => if item.value.isSome then throw .missingSeparator
          let value ←
            if item.value.isSome || middle.indicator.isSome then optional item.value middle
            else pure .absent
          if isMap then
            if holdsKey pairs key then throw .duplicateKey
            pairs := pairs ++ [← member key value]
          else nodes := nodes ++ [.mapping [← member key value]]
      match tail with
      | [] => throw .unclosedFlow
      | closing :: behind =>
        if closing.kind ≠ (if isMap then .mapClose else .listClose) then throw .unclosedFlow
        checkTail true behind
      if isMap then taggedMapping directives properties.tag pairs
      else taggedSequence directives properties.tag nodes

end Compose

/-- The document of one part of a text. -/
def composeDocument (directives : Directives) (depth : Nat) (needsStart : Bool)
    (start : List Mark) (value : Option Form) (tail : List Mark) : Except Fault Document := do
  let next := (value.map Successor.ofForm).orElse fun _ => tail.head?.map Successor.ofMark
  let front ← Properties.read ⟨.documentStart, false, 0, true⟩ next start
  if needsStart && front.indicator.isNone then throw .missingDocumentStart
  if front.indicator.isSome && value.any (·.isBlockCollection) && !front.hasNewline then
    throw .blockKey
  let compose := match value with
    | some form => Compose.node directives depth true form front
    | none => Compose.empty directives front
  let (content, anchors) ← compose.run ⟨[], []⟩
  checkTail false tail
  return ⟨some content, anchors.nodes⟩

/-- How often an alias may be resolved, counted with the aliases inside of what it stands for. -/
def aliasLimit : Nat := 100

namespace Node

mutual

/-- The numbers that the aliases of a node refer to, in order. -/
def targets : Node → List Nat
  | pointer _ target => [target]
  | sequence items => targetsOfItems items
  | mapping pairs => targetsOfPairs pairs
  | _ => []

def targetsOfItems : List Node → List Nat
  | [] => []
  | node :: rest => targets node ++ targetsOfItems rest

def targetsOfPairs : List (Node × Node) → List Nat
  | [] => []
  | (key, value) :: rest => targets key ++ targets value ++ targetsOfPairs rest

end

mutual

/-- The greatest number of resolutions behind one scalar or alias of a node. -/
def weight (weights : List (Nat × Nat)) : Node → Nat
  | pointer _ target => (List.lookup target weights).getD 0
  | sequence items => weightOfItems weights items
  | mapping pairs => weightOfPairs weights pairs
  | _ => 1

def weightOfItems (weights : List (Nat × Nat)) : List Node → Nat
  | [] => 0
  | node :: rest => max (weight weights node) (weightOfItems weights rest)

def weightOfPairs (weights : List (Nat × Nat)) : List (Node × Node) → Nat
  | [] => 0
  | (key, value) :: rest =>
    max (max (weight weights key) (weight weights value)) (weightOfPairs weights rest)

end

end Node

/-- How often an anchored node was used, and its weight once it is known. -/
structure AliasUse where
  target : Nat
  count : Nat
  weight : Nat

def useAlias (document : Document) (uses : List AliasUse) (target : Nat) :
    Except Fault (List AliasUse) :=
  let old := (uses.find? (·.target = target)).getD ⟨target, 1, 0⟩
  let weights := (document.anchored.map fun (number, _) =>
    let use := if number = target then { old with count := old.count + 1 }
      else (uses.find? (·.target = number)).getD ⟨number, 1, 0⟩
    (number, use.count * use.weight))
  let weight :=
    if old.weight = 0 then ((List.lookup target document.anchored).map (Node.weight weights)).getD 0
    else old.weight
  let count := old.count + 1
  if aliasLimit < count * weight then .error .aliasExcess
  else .ok (⟨target, count, weight⟩ :: uses.filter (·.target ≠ target))

def checkAliases (document : Document) : Except Fault Unit := do
  let targets := (document.content.map Node.targets).getD []
  let _ ← targets.foldlM (useAlias document) []

/-- What has been read of a stream: its directives, whether they still need a document, and the
document. -/
structure Stream where
  directives : Directives
  pending : Bool
  document : Option Document

/-- Takes up one part of a stream, of which at most one may be a document. -/
def Stream.add (depth : Nat) (stream : Stream) (part : Part) : Except Fault Stream :=
  match part with
  | .directive mark => do
    return { stream with directives := ← stream.directives.add mark.source, pending := true }
  | .document start value tail => do
    if stream.document.isSome then throw .severalDocuments
    let document ← composeDocument stream.directives depth stream.pending start value tail
    return { stream with pending := false, document := some document }
  | .documentEnd tail => do
    if stream.document.isNone then throw .documentEndAlone
    checkTail true tail
    return stream

def read (text : Text) : Except Fault Document := do
  match parts text with
  | none => throw .misplacedToken
  | some parts =>
    let stream ← parts.foldlM (Stream.add (text.length + 2)) ⟨.default, false, none⟩
    match stream.document with
    | some document =>
      checkAliases document
      return document
    | none =>
      if stream.pending then throw .missingDocumentStart
      return ⟨none, []⟩

end Crossref.Yaml
