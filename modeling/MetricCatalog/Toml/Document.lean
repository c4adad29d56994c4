import MetricCatalog.Toml.Scalar
/-!
# TOML documents

A document is read line by line into one table: keys with values go to the
table of the last header.
-/

namespace MetricCatalog.Toml

open Reader

/-! ## Keys -/

def isBareKeyChar (c : Char) : Bool := c.isAlphanum || c = '_' || c = '-'

def keyPart : Reader String := do
  skipBlanks
  let part ← shortString <|> (do
    let word ← span isBareKeyChar
    guard (!word.isEmpty)
    return String.ofList word)
  skipBlanks
  return part

def moreKeyParts : (fuel : Nat) → Reader (List String)
  | 0 => pure []
  | fuel + 1 => do
    if (← optional (lead ".")).isNone then return []
    return (← keyPart) :: (← moreKeyParts fuel)

/-- Nothing may be nested so deep. -/
def depthLimit : Nat := 80

def key : Reader (List String) := do
  let first ← keyPart
  let more ← moreKeyParts depthLimit
  guard (more.length + 1 < depthLimit)
  return first :: more

/-! ## Values -/

def comment : Reader Unit := do
  lead "#"
  discard (span isLineChar)

/-- Blanks, comments and line breaks between the items of an array. -/
def skipLines : (fuel : Nat) → Reader Unit
  | 0 => failure
  | fuel + 1 => do
    skipBlanks
    if (← optional (newline <|> comment)).isSome then skipLines fuel

def scalar : Reader Value := do
  match ← peek with
  | some c =>
    if c = '"' || c = '\'' then return .text (← string)
    else if c = 't' then lead "true" *> pure (.flag true)
    else if c = 'f' then lead "false" *> pure (.flag false)
    else moment <|> float <|> integer
  | none => failure

/-- A table between braces, where no key may go into the table of another. -/
def inlineTable (pairs : List (List String × Value)) : Option Value :=
  (pairs.foldlM (fun entries (path, value) => Entries.insertDotted value true path entries) []).map
    (.table .inline)

mutual

/-- A value within so many more levels of nesting. -/
def value : (fuel depth : Nat) → Reader Value
  | 0, _ => failure
  | fuel + 1, depth => do
    match ← peek with
    | some '[' =>
      guard (1 < depth)
      lead "["
      return .array (← items fuel (depth - 1))
    | some '\x7b' =>
      guard (1 < depth)
      lead "\x7b"
      skipBlanks
      let pairs ←
        if (← optional (lead "\x7d")).isSome then pure [] else pairs fuel (depth - 1)
      inlineTable pairs
    | _ => scalar

/-- The items of an array up to its closing bracket, which a comma may precede. -/
def items : (fuel depth : Nat) → Reader (List Value)
  | 0, _ => failure
  | fuel + 1, depth => do
    skipLines ((← get).length + 1)
    if (← optional (lead "]")).isSome then return []
    let item ← value fuel depth
    skipLines ((← get).length + 1)
    if (← optional (lead ",")).isSome then return item :: (← items fuel depth)
    lead "]"
    return [item]

/-- The keys and values of an inline table up to its closing brace. -/
def pairs : (fuel depth : Nat) → Reader (List (List String × Value))
  | 0, _ => failure
  | fuel + 1, depth => do
    let path ← key
    lead "="
    skipBlanks
    let item ← value fuel depth
    skipBlanks
    if (← optional (lead ",")).isSome then return (path, item) :: (← pairs fuel depth)
    lead "\x7d"
    return [(path, item)]

end

/-! ## Lines -/

/-- One line of a document; its value may go over several. -/
inductive Line
  | blank
  | header (path : List String)
  | nextHeader (path : List String)
  | pair (path : List String) (value : Value)

def lineContent : Reader Line := do
  skipBlanks
  match ← peek with
  | some '[' =>
    if (← optional (lead "[[")).isSome then
      let path ← key
      lead "]]"
      return .nextHeader path
    lead "["
    let path ← key
    lead "]"
    return .header path
  | some c =>
    if c = '#' || c = '\n' || c = '\r' then return .blank
    let path ← key
    lead "="
    skipBlanks
    return .pair path (← value ((← get).length + 1) depthLimit)
  | none => return .blank

def line : Reader Line := do
  let content ← lineContent
  skipBlanks
  discard (optional comment)
  if (← peek).isSome then newline
  return content

/-- The entries so far and the path of the last header. -/
structure Draft where
  entries : Entries := []
  header : List String := []

def Draft.add (d : Draft) : Line → Option Draft
  | .blank => some d
  | .header path => (d.entries.openTable path).map fun entries => { entries, header := path }
  | .nextHeader path => (d.entries.openNext path).map fun entries => { entries, header := path }
  | .pair path value =>
    (d.entries.insertUnder value path d.header).map fun entries => { d with entries }

structure Fault where
  line : Nat
  /-- The line reads well but cannot be added to those before it. -/
  conflicts : Bool
deriving DecidableEq

def Fault.message (f : Fault) : String :=
  "line " ++ toString f.line ++
    (if f.conflicts then ": conflicts with an earlier line" else ": cannot be read")

/-- The entries of the lines that are left, from this line on. -/
def readLines : (fuel : Nat) → (number : Nat) → Draft → List Char → Except Fault Entries
  | 0, number, _, _ => .error { line := number, conflicts := false }
  | fuel + 1, number, d, cs =>
    if cs.isEmpty then .ok d.entries
    else
      match line cs with
      | none => .error { line := number, conflicts := false }
      | some (content, rest) =>
        match d.add content with
        | none => .error { line := number, conflicts := true }
        | some d =>
          let taken := cs.take (cs.length - rest.length)
          readLines fuel (number + taken.count '\n') d rest

/-- A document as a table.  A byte order mark may come first. -/
def parse (text : String) : Except Fault Entries :=
  let cs := text.toList
  let cs := if cs.head? = some '\uFEFF' then cs.tail else cs
  readLines (cs.length + 1) 1 {} cs

end MetricCatalog.Toml
