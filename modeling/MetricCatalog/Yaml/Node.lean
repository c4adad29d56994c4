import MetricCatalog.Yaml.Char
/-!
# Nodes of a document

The content of a document, as it was read: texts are not yet told apart from
truth values or nulls, and aliases not yet followed.
-/

namespace MetricCatalog.Yaml

inductive Node
  | aliasOf (anchor : Nat)
  | scalar (tag : Option (List UInt8)) (style : Style) (text : String)
  | list (items : List Node)
  | record (entries : List (Node × Node))
  | anchored (anchor : Nat) (node : Node)

namespace Node

/-- What stands where nothing is written. -/
def empty : Node := scalar none .plain ""

def content : Node → Node
  | anchored _ node => node.content
  | node => node

def isEmptyPlain : Node → Bool
  | scalar _ .plain text => text.isEmpty
  | _ => false

/-! ## Anchored nodes -/

mutual

/-- The nodes that have anchors, in the order in which they start. -/
def anchors : Node → List (Nat × Node)
  | aliasOf _ | scalar .. => []
  | list items => anchorsOfItems items
  | record entries => anchorsOfEntries entries
  | anchored anchor node => (anchor, node) :: node.anchors

def anchorsOfItems : List Node → List (Nat × Node)
  | [] => []
  | item :: items => item.anchors ++ anchorsOfItems items

def anchorsOfEntries : List (Node × Node) → List (Nat × Node)
  | [] => []
  | (key, value) :: entries => key.anchors ++ value.anchors ++ anchorsOfEntries entries

end

/-! ## Size -/

mutual

/-- One for each alias and scalar, two for each collection. -/
def size : Node → Nat
  | aliasOf _ | scalar .. => 1
  | list items => 2 + sizeOfItems items
  | record entries => 2 + sizeOfEntries entries
  | anchored _ node => node.size

def sizeOfItems : List Node → Nat
  | [] => 0
  | item :: items => item.size + sizeOfItems items

def sizeOfEntries : List (Node × Node) → Nat
  | [] => 0
  | (key, value) :: entries => key.size + value.size + sizeOfEntries entries

end

end Node

end MetricCatalog.Yaml
