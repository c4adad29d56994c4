import MetricCatalog.Yaml.Document
/-!
# Values from nodes

What a node says when it is expected to be a text, a truth value, a list or a
record.  Every scalar can be read as a text, as it was written.
-/

namespace MetricCatalog.Yaml

inductive Mismatch
  | malformed (problem : Problem)
  | expected (what : String)
  | missingField (name : String)
  | repeatedField (name : String)
  | tooManyAliases
deriving DecidableEq

def Mismatch.message : Mismatch → String
  | malformed problem => problem.message
  | expected what => s!"expected {what}"
  | missingField name => s!"missing field {name}"
  | repeatedField name => s!"field {name} occurs twice"
  | tooManyAliases => "too many aliases"

/-- Reads a value from a document, with a count of the aliases that may still be
followed. -/
abbrev Reading (α : Type) := ReaderT Document (StateT Nat (Except Mismatch)) α

namespace Reading

/-- The node itself or the one that it is an alias of, without its anchor. -/
def resolve (node : Node) : Reading Node := do
  match node.content with
  | .aliasOf anchor =>
    match ← get with
    | 0 => throw .tooManyAliases
    | left + 1 =>
      set left
      match (← read).anchors.lookup anchor with
      | some target => return target.content
      | none => throw (.malformed .unknownAlias)
  | content => return content

def text (node : Node) : Reading String := do
  match ← resolve node with
  | .scalar _ _ text => return text
  | _ => throw (.expected "a text")

def boolTag : List UInt8 := asciiBytes "tag:yaml.org,2002:bool".toList

/-- Truth values are plain, or literal with their tag. -/
def isFlagStyle (tag : Option (List UInt8)) (style : Style) : Bool :=
  style = .plain || (style = .literal && tag = some boolTag)

def flag (node : Node) : Reading Bool := do
  match ← resolve node with
  | .scalar tag style text =>
    if isFlagStyle tag style then
      if ["true", "True", "TRUE"].contains text then return true
      if ["false", "False", "FALSE"].contains text then return false
    throw (.expected "a truth value")
  | _ => throw (.expected "a truth value")

/-- The items of a list; nothing written is an empty list. -/
def list {α : Type} (item : Node → Reading α) (node : Node) : Reading (List α) := do
  match ← resolve node with
  | .list items => items.mapM item
  | content =>
    if content.isEmptyPlain then return []
    throw (.expected "a list")

/-- The name that a word of a fixed set is given by: a text, or a tag of the
document's own in front of nothing. -/
def word (node : Node) : Reading String := do
  match ← resolve node with
  | .scalar tag style text =>
    match tag with
    | some (0x21 :: name) =>
      match String.fromUTF8? ⟨name.toArray⟩ with
      | some name =>
        if style = .plain && ["", "~", "null", "Null", "NULL"].contains text then return name
        throw (.expected "nothing after a tag")
      | none => return text
    | _ => return text
  | _ => throw (.expected "a word")

/-! ## Records -/

/-- A record's entries by name; nothing written is a record without any. -/
def fields (node : Node) : Reading (List (String × Node)) := do
  match ← resolve node with
  | .record entries => entries.mapM fun entry => return (← text entry.1, entry.2)
  | content =>
    if content.isEmptyPlain then return []
    throw (.expected "a record")

/-- The value of a field, if the record has it, at most once. -/
def field? {α : Type} (name : String) (value : Node → Reading α) (fields : List (String × Node)) :
    Reading (Option α) := do
  match fields.filter (·.1 = name) with
  | [] => return none
  | [(_, node)] => return some (← value node)
  | _ => throw (.repeatedField name)

def field {α : Type} (name : String) (value : Node → Reading α)
    (fields : List (String × Node)) : Reading α := do
  match ← field? name value fields with
  | some value => return value
  | none => throw (.missingField name)

def fieldOr {α : Type} (name : String) (value : Node → Reading α) (default : α)
    (fields : List (String × Node)) : Reading α :=
  return (← field? name value fields).getD default

end Reading

def Document.read {α : Type} (d : Document) (value : Node → Reading α) : Except Mismatch α :=
  (value d.root).run d |>.run' d.aliasLimit

def read {α : Type} (value : Node → Reading α) (text : String) : Except Mismatch α := do
  match Document.parse text with
  | .ok document => document.read value
  | .error problem => .error (.malformed problem)

end MetricCatalog.Yaml
