import MetricCatalog.Catalog.Order
/-!
# Repeated keys

A catalog is valid when no sequence repeats a key.  Otherwise the first
sequence that does is reported, each before what its elements hold and otherwise
in document order, with the least key it repeats.
-/

namespace MetricCatalog

structure DuplicateKey where
  level : Level
  key : String
  /-- Keys from the component down to the owner of the sequence, joined by slashes. -/
  parent : String
deriving DecidableEq

def DuplicateKey.message (d : DuplicateKey) : String :=
  "duplicate " ++ d.level.name ++ " key '" ++ d.key ++ "' under '" ++ d.parent ++ "'"

def equalNeighbour? : List String → Option String
  | a :: b :: rest => if a = b then some a else equalNeighbour? (b :: rest)
  | _ => none

/-- The least key that a sequence holds twice. -/
def repeatedKey? {α : Type} [Keyed α] (xs : List α) : Option String :=
  equalNeighbour? (Keyed.sort (xs.map Keyed.key))

def duplicateIn? {α : Type} [Keyed α] (level : Level) (parent : String) (xs : List α) :
    Option DuplicateKey :=
  (repeatedKey? xs).map fun key => { level, key, parent }

def Label.duplicate? (path : String) (l : Label) : Option DuplicateKey :=
  duplicateIn? .value (path ++ "/" ++ l.name) l.values

def Metric.duplicate? (path : String) (m : Metric) : Option DuplicateKey :=
  let path := path ++ "/" ++ m.name
  (duplicateIn? .label path m.labels).or (m.labels.findSome? (Label.duplicate? path))

def Component.duplicate? (c : Component) : Option DuplicateKey :=
  (duplicateIn? .metric c.stem c.metrics).or (c.metrics.findSome? (Metric.duplicate? c.stem))

namespace Catalog

def duplicate? (c : Catalog) : Option DuplicateKey :=
  (duplicateIn? .component "" c.components).or (c.components.findSome? Component.duplicate?)

def validate (c : Catalog) : Except DuplicateKey Unit :=
  match c.duplicate? with
  | some d => .error d
  | none => .ok ()

end Catalog

end MetricCatalog
