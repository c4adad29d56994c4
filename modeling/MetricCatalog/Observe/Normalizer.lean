import MetricCatalog.Catalog.Basic
import MetricCatalog.Exposition.Family
import MetricCatalog.Key.Set
import MetricCatalog.Observe.Grouping
import MetricCatalog.Observe.MeasureUnit
import MetricCatalog.Reconcile.Merge
import MetricCatalog.Text.Blank
import MetricCatalog.Text.Quoted
/-!
# The observed catalog

The families of a snapshot make a catalog that nobody has curated.  Families
of one name count as one: the first declares it, and all of them add labels.
-/

namespace MetricCatalog

def KeySet.ofCommaList (text : String) : KeySet :=
  .ofList (Text.items (· = ',') text)

/-- What the families of one name say together. -/
structure Observation where
  kind : Kind
  help : String
  labels : KeyMap KeySet := .empty
deriving DecidableEq

namespace Observation

def addPair (o : Observation) (pair : String × String) : Observation :=
  { o with labels := o.labels.alter pair.1 fun seen => (seen.getD .empty).insert pair.2 }

/-- The first family of a name declares it. -/
def addFamily (o : Option Observation) (f : Family) : Observation :=
  f.labelPairs.foldl addPair (o.getD { kind := f.kind, help := f.help })

end Observation

structure Normalizer where
  stemOf : String → String := ({} : StemGrouping).stemOf
  /-- Labels whose values are not listed. -/
  unfixed : KeySet := .empty
  since : Option String := none

namespace Normalizer

def label (n : Normalizer) (name : String) (values : KeySet) : Label :=
  if n.unfixed.contains name then .openEnded name else .enumerated name values.toList

def metric (n : Normalizer) (name : String) (o : Observation) : Metric where
  name
  kind := o.kind
  unit := ((MeasureUnit.infer? name o.help).map MeasureUnit.word).getD ""
  help := o.help
  labels := o.labels.entries.map fun (label, values) => n.label label values
  since := n.since.getD ""

def collect (n : Normalizer) (families : List Family) : KeyMap (KeyMap Observation) :=
  families.foldl
    (fun components f =>
      components.alter (n.stemOf f.name) fun metrics =>
        (metrics.getD .empty).alter f.name fun o => Observation.addFamily o f)
    .empty

def observe (n : Normalizer) (families : List Family) : Catalog where
  components := (n.collect families).entries.map fun (stem, metrics) =>
    .uncurated stem (metrics.entries.map fun (name, o) => n.metric name o)

/-- A one-line description; the grouping is a function and is left out. -/
def describe (n : Normalizer) : String :=
  "Normalizer \x7b unfixed: UnfixedLabels \x7b names: \x7b" ++
    ", ".intercalate (n.unfixed.toList.map Text.quoted) ++ "\x7d \x7d, since: " ++
    (match n.since with
      | some since => "Some(" ++ Text.quoted since ++ ")"
      | none => "None") ++
    ", .. \x7d"

end Normalizer

structure Settings where
  unfixedLabels : List String := []
  stemSegments : Nat := 2
  tail : TailPolicy := .appendNew
  since : Option String := none
deriving DecidableEq

namespace Settings

def unfixed (s : Settings) : KeySet := .ofList s.unfixedLabels

def normalizer (s : Settings) : Normalizer where
  stemOf := StemGrouping.stemOf { requested := s.stemSegments }
  unfixed := s.unfixed
  since := s.since

end Settings

end MetricCatalog
