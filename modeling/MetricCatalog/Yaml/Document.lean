import MetricCatalog.Key.Map
import MetricCatalog.Yaml.Layout
import MetricCatalog.Yaml.Node
/-!
# Documents

The tokens of a text as one document.  Anchors are numbered by how many names
are in use when they appear, so a name used again shares its number with the
next new name.
-/

namespace MetricCatalog.Yaml

/-- The tokens that are left, the numbers of the anchors so far and what the
tag handles stand for. -/
structure TokenStream where
  tokens : List Token
  anchors : KeyMap Nat := .empty
  handles : List (String × List UInt8) := []

/-- Reads a part of a document from the tokens. -/
abbrev Grammar (α : Type) := StateT TokenStream (Except Problem) α

namespace Grammar

def peek? : Grammar (Option Token) := return (← get).tokens.head?

def advance : Grammar Unit := modify fun s => { s with tokens := s.tokens.tail }

def next? : Grammar (Option Token) := do
  let token ← peek?
  advance
  return token

def accept (token : Token) : Grammar Bool := do
  if (← peek?) = some token then
    advance
    return true
  return false

def isBefore (tokens : List Token) : Grammar Bool := return (← peek?).any tokens.contains

/-- Reads a node unless the next token ends its place. -/
def orEmpty (ends : List Token) (read : Grammar Node) : Grammar Node := do
  if ← isBefore ends then return .empty else read

/-! ## Properties of nodes -/

def aliasAnchor (name : String) : Grammar Nat := do
  match (← get).anchors.find? name with
  | some anchor => return anchor
  | none => throw .unknownAlias

def defineAnchor (name : String) : Grammar Nat := do
  let anchor := (← get).anchors.entries.length
  modify fun s => { s with anchors := s.anchors.insert name anchor }
  return anchor

def anchor? : Grammar (Option String) := do
  match ← peek? with
  | some (.anchor name) =>
    advance
    return some name
  | _ => return none

def tag? : Grammar (Option (List UInt8)) := do
  match ← peek? with
  | some (.tag handle suffix) =>
    advance
    if handle.isEmpty then return some suffix
    match (← get).handles.lookup handle with
    | some lead => return some (lead ++ suffix)
    | none => throw .unknownTagHandle
  | _ => return none

def properties : Grammar (Option Nat × Option (List UInt8)) := do
  let early ← anchor?
  let tag ← tag?
  let name ← if early.isNone && tag.isSome then anchor? else pure early
  return (← name.mapM defineAnchor, tag)

/-! ## Nodes -/

mutual

/-- A node.  `block` allows block collections, `dashes` also a block list whose
dashes are not indented. -/
def node (block dashes : Bool) : (fuel : Nat) → Grammar Node
  | 0 => throw .tooLong
  | fuel + 1 => do
    if let some (.aliasTo name) ← peek? then
      advance
      return .aliasOf (← aliasAnchor name)
    let (anchor, tag) ← properties
    let content ← do
      match ← peek?, block, dashes with
      | some .blockEntry, _, true => Node.list <$> dashItems fuel
      | some (.scalar style text), _, _ =>
        advance
        pure (.scalar tag style text)
      | some .flowSequenceStart, _, _ =>
        advance
        Node.list <$> flowItems true fuel
      | some .flowMappingStart, _, _ =>
        advance
        Node.record <$> flowEntries true fuel
      | some .blockSequenceStart, true, _ =>
        advance
        Node.list <$> blockItems fuel
      | some .blockMappingStart, true, _ =>
        advance
        Node.record <$> blockEntries fuel
      | _, _, _ =>
        if anchor.isNone && tag.isNone then throw .expectedContent
        pure (.scalar tag .plain "")
    return match anchor with
      | some anchor => .anchored anchor content
      | none => content

def blockItems : (fuel : Nat) → Grammar (List Node)
  | 0 => throw .tooLong
  | fuel + 1 => do
    match ← next? with
    | some .blockEnd => return []
    | some .blockEntry =>
      let item ← orEmpty [.blockEntry, .blockEnd] (node true false fuel)
      return item :: (← blockItems fuel)
    | _ => throw .expectedBlockEntry

/-- The items of a list whose dashes are not indented, which has no end of its
own. -/
def dashItems : (fuel : Nat) → Grammar (List Node)
  | 0 => throw .tooLong
  | fuel + 1 => do
    if !(← accept .blockEntry) then return []
    let item ← orEmpty [.blockEntry, .key, .value, .blockEnd] (node true false fuel)
    return item :: (← dashItems fuel)

def blockEntries : (fuel : Nat) → Grammar (List (Node × Node))
  | 0 => throw .tooLong
  | fuel + 1 => do
    match ← next? with
    | some .blockEnd => return []
    | some .key =>
      let ends := [.key, .value, .blockEnd]
      let key ← orEmpty ends (node true true fuel)
      let value ← if ← accept .value then orEmpty ends (node true true fuel) else pure .empty
      return (key, value) :: (← blockEntries fuel)
    | _ => throw .expectedBlockKey

/-- An item that is a key, with a value perhaps, is a mapping of its own.  The
token that follows an empty key is lost. -/
def flowItems (first : Bool) : (fuel : Nat) → Grammar (List Node)
  | 0 => throw .tooLong
  | fuel + 1 => do
    if ← accept .flowSequenceEnd then return []
    if !first then
      if !(← accept .flowEntry) then throw .expectedFlowSeparator
      if ← accept .flowSequenceEnd then return []
    let item ←
      if ← accept .key then
        let key ←
          if ← isBefore [.value, .flowEntry, .flowSequenceEnd] then do
            advance
            pure .empty
          else node false false fuel
        let value ←
          if ← accept .value then
            orEmpty [.flowEntry, .flowSequenceEnd] (node false false fuel)
          else pure .empty
        pure (.record [(key, value)])
      else node false false fuel
    return item :: (← flowItems false fuel)

def flowEntries (first : Bool) : (fuel : Nat) → Grammar (List (Node × Node))
  | 0 => throw .tooLong
  | fuel + 1 => do
    if ← accept .flowMappingEnd then return []
    if !first then
      if !(← accept .flowEntry) then throw .expectedFlowSeparator
      if ← accept .flowMappingEnd then return []
    let entry ←
      if ← accept .key then
        let key ← orEmpty [.value, .flowEntry, .flowMappingEnd] (node false false fuel)
        let value ←
          if ← accept .value then
            orEmpty [.flowEntry, .flowMappingEnd] (node false false fuel)
          else pure .empty
        pure (key, value)
      else pure (← node false false fuel, .empty)
    return entry :: (← flowEntries false fuel)

end

/-! ## The document -/

/-- The version and tag handles that the lines before a document declare. -/
def directives : (fuel : Nat) → (versioned : Bool) → (declared : List (String × List UInt8)) →
    Grammar (List (String × List UInt8))
  | 0, _, declared => return declared
  | fuel + 1, versioned, declared => do
    match ← peek? with
    | some (.versionDirective major minor) =>
      if versioned then throw .duplicateDirective
      if major ≠ 1 || (minor ≠ 1 && minor ≠ 2) then throw .unsupportedVersion
      advance
      directives fuel true declared
    | some (.tagDirective handle lead) =>
      if (declared.lookup handle).isSome then throw .duplicateDirective
      advance
      directives fuel versioned ((handle, lead) :: declared)
    | _ => return declared

/-- What the tag handles stand for that need no declaration. -/
def commonHandles : List (String × List UInt8) :=
  [("!", asciiBytes ['!']), ("!!", asciiBytes "tag:yaml.org,2002:".toList)]

def isDirective : Token → Bool
  | .versionDirective .. | .tagDirective .. => true
  | _ => false

def markedContent (fuel : Nat) : Grammar Node := do
  match ← peek? with
  | none => return .empty
  | some token =>
    if isDirective token || token = .documentStart || token = .documentEnd then return .empty
    node true false fuel

/-- The one document of a text.  Directives need a start mark after them, and
end marks may follow. -/
def document : Grammar Node := do
  let fuel := 2 * (← get).tokens.length + 2
  match ← peek? with
  | none => return .empty
  | some first =>
    let declared ← directives fuel false []
    modify fun s => { s with handles := declared ++ commonHandles }
    let root ←
      if ← accept .documentStart then markedContent fuel
      else if isDirective first then throw .expectedDocumentStart
      else node true false fuel
    modify fun s => { s with tokens := s.tokens.dropWhile (· = .documentEnd) }
    if (← peek?).isSome then throw .expectedDocumentStart
    return root

end Grammar

/-- A document and the nodes that its aliases stand for. -/
structure Document where
  root : Node
  /-- The nodes with anchors, the last one first. -/
  anchors : List (Nat × Node) := []

/-- Aliases are followed at most so many times. -/
def Document.aliasLimit (d : Document) : Nat := 100 * d.root.size

def Document.ofNode (root : Node) : Document := { root, anchors := root.anchors.reverse }

def Document.parse (text : String) : Except Problem Document := do
  let (root, _) ← Grammar.document { tokens := ← tokens text }
  return .ofNode root

end MetricCatalog.Yaml
