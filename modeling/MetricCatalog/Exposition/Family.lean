import MetricCatalog.Catalog.Kind
import MetricCatalog.Decimal.Double
import MetricCatalog.Key.Map
/-!
# Metric families

What a snapshot says of one metric: its declaration and its samples.
-/

namespace MetricCatalog

structure Sample where
  labels : KeyMap String
  value : Double
deriving DecidableEq

structure Family where
  name : String
  kind : Kind := .untyped
  help : String := ""
  samples : List Sample := []
deriving DecidableEq

def Family.labelPairs (f : Family) : List (String × String) :=
  f.samples.flatMap (·.labels.entries)

end MetricCatalog
