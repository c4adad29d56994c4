import MetricCatalog.Reconcile.Merge
/-!
# Reconciling a catalog with a snapshot

The snapshot decides structure: which keys there are, and the kind, help, unit
and `fixed` of each.  The catalog decides curation: titles, descriptions,
locks and `since`.
-/

namespace MetricCatalog

/-- A known value stays as it is. -/
def LabelValue.rule : MergeRule LabelValue where
  level := .value
  combine old _ := (old, .zero)

/-- A label takes `fixed` from the snapshot.  Its values are merged, or only
sorted when it is locked. -/
def Label.combine (tail : TailPolicy) (old new : Label) : Label × Report :=
  let (values, report) :=
    if old.locked then (Keyed.sort old.values, Report.count .label .locked 1)
    else LabelValue.rule.merge tail old.values new.values
  ({ old with fixed := new.fixed, values }, report)

def Label.rule (tail : TailPolicy) : MergeRule Label where
  level := .label
  combine := Label.combine tail

/-- A metric takes kind, help and unit from the snapshot. -/
def Metric.combine (tail : TailPolicy) (old new : Metric) : Metric × Report :=
  let (labels, report) := (Label.rule tail).merge tail old.labels new.labels
  ({ old with kind := new.kind, help := new.help, unit := new.unit, labels }, report)

def Metric.rule (tail : TailPolicy) : MergeRule Metric where
  level := .metric
  combine := Metric.combine tail

def Component.combine (tail : TailPolicy) (old new : Component) : Component × Report :=
  let (metrics, report) := (Metric.rule tail).merge tail old.metrics new.metrics
  ({ old with metrics }, report)

def Component.rule (tail : TailPolicy) : MergeRule Component where
  level := .component
  combine := Component.combine tail

/-- The updated catalog and the report on the update.  The version stays. -/
def Catalog.reconcile (tail : TailPolicy) (current observed : Catalog) : Catalog × Report :=
  let (components, report) :=
    (Component.rule tail).merge tail current.components observed.canonical.components
  ({ current with components }, report)

end MetricCatalog
