import MetricCatalog.Catalog.Kind
/-!
# The catalog tree

A catalog has components, a component has metrics, a metric has labels and a
label has values.  At each of the four levels a string identifies an element
among its siblings.  Some fields say what was observed (kind, help, unit,
`fixed`), the others are curated by hand.
-/

namespace MetricCatalog

/-- The four levels of the tree, outermost first. -/
inductive Level
  | component
  | metric
  | label
  | value
deriving DecidableEq

namespace Level

def all : List Level := [component, metric, label, value]

def name : Level → String
  | component => "component"
  | metric => "metric"
  | label => "label"
  | value => "label value"

end Level

/-- An element of a catalog sequence, identified within it by its key. -/
class Keyed (α : Type) where
  key : α → String

structure LabelValue where
  value : String
  desc : String := ""
deriving DecidableEq

/-- A label dimension.  A fixed label lists the values it takes, an open one
lists none.  A locked label keeps its list as it was edited by hand. -/
structure Label where
  name : String
  desc : String := ""
  locked : Bool := false
  fixed : Bool := false
  values : List LabelValue := []
deriving DecidableEq

structure Metric where
  name : String
  kind : Kind := .untyped
  unit : String := ""
  help : String := ""
  labels : List Label := []
  since : String := ""
deriving DecidableEq

/-- The metrics whose names share a stem. -/
structure Component where
  stem : String
  title : String := ""
  desc : String := ""
  metrics : List Metric := []
deriving DecidableEq

structure Catalog where
  version : String := ""
  components : List Component := []
deriving DecidableEq

instance : Keyed LabelValue := ⟨LabelValue.value⟩
instance : Keyed Label := ⟨Label.name⟩
instance : Keyed Metric := ⟨Metric.name⟩
instance : Keyed Component := ⟨Component.stem⟩

def Keyed.find? {α : Type} [Keyed α] (key : String) (xs : List α) : Option α :=
  xs.find? (Keyed.key · = key)

namespace Label

def enumerated (name : String) (values : List String) : Label :=
  { name, fixed := true, values := values.map ({ value := · }) }

/-- A label whose values are not listed. -/
def openEnded (name : String) : Label :=
  { name }

def value? (l : Label) (value : String) : Option LabelValue :=
  Keyed.find? value l.values

end Label

def Metric.label? (m : Metric) (name : String) : Option Label :=
  Keyed.find? name m.labels

namespace Component

/-- A component not curated yet is titled by its stem. -/
def uncurated (stem : String) (metrics : List Metric := []) : Component :=
  { stem, title := stem, metrics }

def metric? (c : Component) (name : String) : Option Metric :=
  Keyed.find? name c.metrics

end Component

namespace Catalog

def empty : Catalog := {}

def isEmpty (c : Catalog) : Bool := c.components.isEmpty

def component? (c : Catalog) (stem : String) : Option Component :=
  Keyed.find? stem c.components

def findMetric? (c : Catalog) (name : String) : Option Metric :=
  c.components.findSome? (·.metric? name)

def metrics (c : Catalog) : List Metric := c.components.flatMap (·.metrics)

def metricCount (c : Catalog) : Nat := c.metrics.length

end Catalog

end MetricCatalog
